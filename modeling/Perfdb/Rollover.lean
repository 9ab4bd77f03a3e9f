import Mathlib

set_option autoImplicit false

/-! Keys that are stored when the next one comes, with the last one still open. The open key can
also be stored as it is, and be taken up again from the stored ones. -/

namespace Perfdb

/-- The stored keys and the open one. -/
structure Series (β : Type) where
  stored : List β
  current : Option β

namespace Series

inductive Move (β : Type) where
  | touch (key : β)
  | flush
  | reseed

/-- After it the open key may be one that is stored. -/
def Move.Restarts {β : Type} : Move β → Prop
  | touch _ => False
  | flush | reseed => True

def Move.key {β : Type} : Move β → Option β
  | touch key => some key
  | flush | reseed => none

variable {β : Type}

section Step

variable [DecidableEq β]

def step (s : Series β) : Move β → Series β
  | .touch key =>
      match s.current with
      | some last => if last = key then s else ⟨s.stored ++ [last], some key⟩
      | none => ⟨s.stored, some key⟩
  | .flush => ⟨s.stored ++ s.current.toList, s.current⟩
  | .reseed => ⟨s.stored, s.stored.getLast?⟩

def run (moves : List (Move β)) (s : Series β) : Series β := moves.foldl step s

theorem run_append (front back : List (Move β)) (s : Series β) :
    s.run (front ++ back) = (s.run front).run back := List.foldl_append

theorem touch_current (s : Series β) (key : β) : (s.step (.touch key)).current = some key := by
  simp only [step]
  split
  · rename_i last current
    split
    · rename_i same
      rw [current, same]
    · rfl
  · rfl

theorem step_stored (s : Series β) (move : Move β) : s.stored <+: (s.step move).stored := by
  cases move with
  | touch key =>
      simp only [step]
      split
      · split
        · exact List.prefix_refl _
        · exact List.prefix_append _ _
      · exact List.prefix_refl _
  | flush => exact List.prefix_append _ _
  | reseed => exact List.prefix_refl _

theorem run_stored (moves : List (Move β)) (s : Series β) : s.stored <+: (s.run moves).stored := by
  induction moves generalizing s with
  | nil => exact List.prefix_refl _
  | cons move moves ih => exact (s.step_stored move).trans (ih (s.step move))

end Step

/-- No flush, and no key but this one. -/
def Still (key : β) (moves : List (Move β)) : Prop :=
  ∀ move ∈ moves, move = .touch key ∨ move = .reseed

/-- The open key is the last one stored. -/
structure Sealed (key : β) (s : Series β) : Prop where
  stored : s.stored.getLast? = some key
  current : s.current = some key

section Guard

variable [DecidableEq β] {s : Series β} {key : β} {moves : List (Move β)}

/-- Whatever is stored last when the open key is flushed or taken up again, from then on there
is no flush and no other key. -/
def Guarded (s : Series β) (moves : List (Move β)) : Prop :=
  ∀ front move back last, moves = front ++ move :: back → move.Restarts →
    (s.run (front ++ [move])).stored.getLast? = some last → Still last back

theorem guarded_nil (s : Series β) : s.Guarded [] := by
  intro front move back last split
  simp at split

theorem guarded_cons (move : Move β) : s.Guarded (move :: moves) ↔
    (move.Restarts → ∀ last, (s.step move).stored.getLast? = some last → Still last moves) ∧
      (s.step move).Guarded moves := by
  constructor
  · intro guarded
    refine ⟨fun restarts last stored => guarded [] move moves last rfl restarts stored, ?_⟩
    intro front other back last split restarts stored
    exact guarded (move :: front) other back last (by rw [split]; rfl) restarts stored
  · rintro ⟨first, later⟩ front other back last split restarts stored
    cases front with
    | nil =>
        obtain ⟨rfl, rfl⟩ := List.cons.inj split
        exact first restarts last stored
    | cons head front =>
        obtain ⟨rfl, rest⟩ := List.cons.inj split
        exact later front other back last rest restarts stored

/-- Such moves change nothing once the open key is stored. -/
theorem Sealed.step (sealed : s.Sealed key) {move : Move β}
    (still : move = .touch key ∨ move = .reseed) : s.step move = s := by
  obtain ⟨stored, current⟩ := sealed
  rcases still with rfl | rfl
  · simp only [Series.step, current, if_true]
  · simp only [Series.step, stored, ← current]

theorem Sealed.guarded (sealed : s.Sealed key) (still : Still key moves) : s.Guarded moves := by
  induction moves with
  | nil => exact s.guarded_nil
  | cons move moves ih =>
      have rest : Still key moves := fun other member => still other (List.mem_cons_of_mem _ member)
      rw [guarded_cons, sealed.step (still move List.mem_cons_self)]
      refine ⟨fun _ last stored => ?_, ih rest⟩
      rwa [← Option.some.inj (sealed.stored.symm.trans stored)]

end Guard

section Order

variable [LinearOrder β] {s : Series β} {key : β} {moves : List (Move β)}

/-- The stored keys ascend, and the open one is beyond them; with none open none is stored. -/
structure Growing (s : Series β) : Prop where
  stored : s.stored.Pairwise (· < ·)
  ahead : ∀ key ∈ s.stored, ∃ last ∈ s.current, key < last

theorem growing_new : Growing (⟨[], none⟩ : Series β) where
  stored := List.Pairwise.nil
  ahead key member := by cases member

theorem Growing.blank (growing : s.Growing) (none : s.current = none) : s.stored = [] := by
  refine List.eq_nil_iff_forall_not_mem.mpr fun key member => ?_
  obtain ⟨last, current, _⟩ := growing.ahead key member
  rw [none] at current
  cases current

theorem Growing.push (growing : s.Growing) {last : β} (current : s.current = some last) :
    (s.stored ++ [last]).Pairwise (· < ·) := by
  refine List.pairwise_append.mpr ⟨growing.stored, List.pairwise_singleton _ _, ?_⟩
  intro old member new only
  obtain ⟨ahead, isCurrent, less⟩ := growing.ahead old member
  rw [List.mem_singleton.mp only, ← Option.some.inj (isCurrent.symm.trans current)]
  exact less

/-- A key that is not before the open one. -/
theorem Growing.touch (growing : s.Growing) (later : ∀ last ∈ s.current, last ≤ key) :
    (s.step (.touch key)).Growing := by
  simp only [step]
  split
  · rename_i last current
    split
    · exact growing
    · rename_i other
      have beyond : last < key := (later last current).lt_of_ne other
      refine ⟨growing.push current, fun old member => ⟨key, rfl, ?_⟩⟩
      rcases List.mem_append.mp member with before | new
      · obtain ⟨ahead, isCurrent, less⟩ := growing.ahead old before
        rw [Option.some.inj (isCurrent.symm.trans current)] at less
        exact less.trans beyond
      · rw [List.mem_singleton.mp new]
        exact beyond
  · rename_i none
    refine ⟨growing.stored, fun old member => ?_⟩
    obtain ⟨last, current, _⟩ := growing.ahead old member
    rw [none] at current
    cases current

/-- An open key that is stored is stored again by a flush or by another key. -/
theorem Sealed.run (sealed : s.Sealed key) (ascends : s.stored.Pairwise (· < ·)) :
    (s.run moves).stored.Pairwise (· < ·) ↔ Still key moves := by
  have stored : key ∈ s.stored := List.mem_of_getLast? sealed.stored
  have twice (later : Series β) (again : later.stored = s.stored ++ [key])
      (rest : List (Move β)) : ¬ (later.run rest).stored.Pairwise (· < ·) := by
    intro pairwise
    have part := pairwise.sublist (again ▸ later.run_stored rest).sublist
    exact lt_irrefl key ((List.pairwise_append.mp part).2.2 key stored key
      (List.mem_singleton_self key))
  induction moves with
  | nil =>
      refine iff_of_true ascends fun move member => ?_
      cases member
  | cons move moves ih =>
      have onward (quiet : move = .touch key ∨ move = .reseed) :
          (s.run (move :: moves)).stored.Pairwise (· < ·) ↔ Still key (move :: moves) := by
        change ((s.step move).run moves).stored.Pairwise _ ↔ _
        rw [sealed.step quiet]
        refine ih.trans ?_
        rw [Still, Still, List.forall_mem_cons]
        exact (and_iff_right quiet).symm
      have broken (loud : ¬ (move = .touch key ∨ move = .reseed))
          (again : (s.step move).stored = s.stored ++ [key]) :
          (s.run (move :: moves)).stored.Pairwise (· < ·) ↔ Still key (move :: moves) :=
        iff_of_false (twice (s.step move) again moves) fun still =>
          loud (still move List.mem_cons_self)
      cases move with
      | touch other =>
          by_cases same : other = key
          · exact onward (Or.inl (congrArg Move.touch same))
          · refine broken (by simp [same]) ?_
            simp only [Series.step, sealed.current, if_neg (Ne.symm same)]
      | flush =>
          refine broken (by simp) ?_
          simp only [Series.step, sealed.current, Option.toList_some]
      | reseed => exact onward (Or.inr rfl)

theorem Sealed.restart (move : Move β) (sealed : (s.step move).Sealed key)
    (ascends : (s.step move).stored.Pairwise (· < ·)) (restarts : move.Restarts) :
    (s.run (move :: moves)).stored.Pairwise (· < ·) ↔ s.Guarded (move :: moves) := by
  change ((s.step move).run moves).stored.Pairwise _ ↔ _
  rw [guarded_cons, sealed.run ascends]
  constructor
  · refine fun still => ⟨fun _ last stored => ?_, sealed.guarded still⟩
    rwa [← Option.some.inj (sealed.stored.symm.trans stored)]
  · exact fun guarded => guarded.1 restarts key sealed.stored

/-- A restart with nothing stored and nothing open guards nothing. -/
theorem guarded_cons_of_blank {move : Move β} (blank : s.step move = ⟨[], none⟩) :
    s.Guarded (move :: moves) ↔ (s.step move).Guarded moves := by
  rw [guarded_cons]
  refine and_iff_right fun _ last stored => ?_
  rw [blank] at stored
  cases stored

/-- The stored keys ascend exactly when every restart with a stored key is followed by no
flush and no other key. -/
theorem Growing.run (growing : s.Growing)
    (ordered : (moves.filterMap Move.key).Pairwise (· ≤ ·))
    (later : ∀ last ∈ s.current, ∀ key ∈ moves.filterMap Move.key, last ≤ key) :
    (s.run moves).stored.Pairwise (· < ·) ↔ s.Guarded moves := by
  induction moves generalizing s with
  | nil => exact iff_of_true growing.stored s.guarded_nil
  | cons move moves ih =>
      have idle (blank : s.step move = ⟨[], none⟩) (quiet : move.key = none) :
          (s.run (move :: moves)).stored.Pairwise (· < ·) ↔ s.Guarded (move :: moves) := by
        rw [List.filterMap_cons_none quiet] at ordered
        change ((s.step move).run moves).stored.Pairwise _ ↔ _
        rw [guarded_cons_of_blank blank, blank]
        exact ih growing_new ordered nofun
      cases move with
      | touch key =>
          have keys : (Move.touch key :: moves).filterMap Move.key =
              key :: moves.filterMap Move.key := rfl
          rw [keys] at ordered later
          obtain ⟨least, rest⟩ := List.pairwise_cons.mp ordered
          have next := growing.touch fun last current =>
            later last current key List.mem_cons_self
          change ((s.step (.touch key)).run moves).stored.Pairwise _ ↔ _
          rw [guarded_cons, ih next rest fun last current other member => ?_]
          · exact (and_iff_right fun restarts => restarts.elim).symm
          · obtain rfl := Option.some.inj ((touch_current s key).symm.trans current)
            exact least other member
      | flush =>
          cases current : s.current with
          | none => exact idle (by simp only [step, growing.blank current, current]; rfl) rfl
          | some key =>
              have next : s.step .flush = ⟨s.stored ++ [key], some key⟩ := by
                simp only [step, current, Option.toList_some]
              have sealed : (s.step .flush).Sealed key := next ▸ ⟨List.getLast?_concat, rfl⟩
              exact sealed.restart .flush (next ▸ growing.push current) trivial
      | reseed =>
          cases last : s.stored.getLast? with
          | none => exact idle (by simp only [step, List.getLast?_eq_none_iff.mp last]; rfl) rfl
          | some key =>
              have next : s.step .reseed = ⟨s.stored, some key⟩ := by simp only [step, last]
              have sealed : (s.step .reseed).Sealed key := next ▸ ⟨last, rfl⟩
              exact sealed.restart .reseed (next ▸ growing.stored) trivial

end Order

end Series

end Perfdb
