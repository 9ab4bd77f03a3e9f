import Mathlib
import Perfdb.OperationEffects

set_option autoImplicit false

namespace Perfdb

namespace Concurrent

variable {ι : Type} [DecidableEq ι]

/-- Machines with the same outcome, whose threads have read the same. -/
def Machine.Same (left right : Machine ι) : Prop :=
  left.stores.SameOutcome right.stores ∧ left.read = right.read

theorem Machine.Same.step {left right : Machine ι} (same : left.Same right) (move : Move ι) :
    (left.step move).Same (right.step move) := by
  obtain ⟨outcome, read⟩ := same
  constructor
  · simp only [Machine.step, read]
    exact Effect.apply_congr _ outcome
  · simp only [Machine.step, read]
    rw [Operation.learn_congr _ _ outcome]

theorem Machine.step_comm (m : Machine ι) {one other : Move ι} (apart : one.thread ≠ other.thread)
    (within : one.operation.Within one.indexed.event)
    (withinOther : other.operation.Within other.indexed.event)
    (independent : one.indexed.event.Independent other.indexed.event) :
    ((m.step one).step other).Same ((m.step other).step one) := by
  have named := within.effect_named one.indexed (m.read one.thread)
  have namedOther := withinOther.effect_named other.indexed (m.read other.thread)
  constructor
  · simp only [Machine.step, Function.update_of_ne apart, Function.update_of_ne apart.symm]
    exact Effect.apply_comm named namedOther independent m.stores
  · simp only [Machine.step, Function.update_of_ne apart, Function.update_of_ne apart.symm]
    rw [Operation.learn_after named independent withinOther,
      Operation.learn_after namedOther independent.symm within]
    exact Function.update_comm apart _ _ m.read

section Schedules

variable {events : ι → List IndexedEvent} {schedule : List (Move ι)}

/-- Each thread makes the moves of its events, one event after another. -/
def Interleaves (events : ι → List IndexedEvent) (schedule : List (Move ι)) : Prop :=
  ∀ thread, schedule.filter (fun move => move.thread = thread) =
    (events thread).flatMap fun indexed => moves thread indexed

theorem Interleaves.member (interleaves : Interleaves events schedule) {move : Move ι}
    (member : move ∈ schedule) : move.indexed ∈ events move.thread ∧
      move.operation ∈ operations move.indexed := by
  have inside : move ∈ schedule.filter fun other => other.thread = move.thread :=
    List.mem_filter.mpr ⟨member, by simp⟩
  rw [interleaves move.thread] at inside
  obtain ⟨indexed, present, made⟩ := List.mem_flatMap.mp inside
  obtain ⟨operation, some, same⟩ := List.mem_map.mp made
  have is_event : indexed = move.indexed := congrArg Move.indexed same
  have is_operation : operation = move.operation := congrArg Move.operation same
  subst is_event is_operation
  exact ⟨present, some⟩

/-- The moves of whole events, in any order of the events. -/
def oneByOne (serial : List (ι × IndexedEvent)) : List (Move ι) :=
  serial.flatMap fun entry => moves entry.1 entry.2

theorem oneByOne_thread (serial : List (ι × IndexedEvent)) (thread : ι) :
    (oneByOne serial).filter (fun move => move.thread = thread) =
      ((serial.filter fun entry => entry.1 = thread).map Prod.snd).flatMap
        fun indexed => moves thread indexed := by
  induction serial with
  | nil => rfl
  | cons entry serial ih =>
      rw [oneByOne, List.flatMap_cons, List.filter_append, List.filter_cons]
      by_cases own : entry.1 = thread
      · have all : (moves entry.1 entry.2).filter (fun move => move.thread = thread) =
            moves entry.1 entry.2 := by
          refine List.filter_eq_self.mpr fun move made => ?_
          obtain ⟨_, _, rfl⟩ := List.mem_map.mp made
          exact decide_eq_true own
        rw [all, if_pos (decide_eq_true own), List.map_cons, List.flatMap_cons, ← ih, own]
        rfl
      · have none : (moves entry.1 entry.2).filter (fun move => move.thread = thread) = [] := by
          refine List.filter_eq_nil_iff.mpr fun move made => ?_
          obtain ⟨_, _, rfl⟩ := List.mem_map.mp made
          simpa using own
        rw [none, if_neg (by simpa using own), ← ih]
        rfl

theorem run_oneByOne (serial : List (ι × IndexedEvent)) (m : Machine ι) (db : PerfDb)
    (same : db.toStores = m.stores) :
    (m.run (oneByOne serial)).stores = (applyAll (serial.map Prod.snd) db).toStores := by
  induction serial generalizing m db with
  | nil => exact same.symm
  | cons entry serial ih =>
      rw [oneByOne, List.flatMap_cons, Machine.run, List.foldl_append]
      exact ih _ _ (run_moves m entry.1 entry.2 db same).symm

/-- An interleaving is a reordering of the moves made one event after another. -/
theorem Interleaves.reordered {serial : List (ι × IndexedEvent)}
    (interleaves : Interleaves events schedule)
    (ordered : ∀ thread,
      (serial.filter fun entry => entry.1 = thread).map Prod.snd = events thread) :
    Reordering.Reordered (fun one other => ¬ one.thread = other.thread) schedule
      (oneByOne serial) := by
  classical
  have agree (thread : ι) : schedule.filter (fun move => move.thread = thread) =
      (oneByOne serial).filter fun move => move.thread = thread := by
    rw [interleaves thread, oneByOne_thread, ordered]
  exact (Reordering.sameOrder_of_classes Move.thread agree).reordered fun _ => rfl

/-- Threads whose events have no user, position or order in common, and set no funding rate of
one market, come to what processing the events one by one comes to, in any order that keeps the
order of each thread. -/
theorem concurrent_events_serializable (events : ι → List IndexedEvent) (schedule : List (Move ι))
    (serial : List (ι × IndexedEvent)) (db : PerfDb) (read : ι → Private)
    (interleaves : Interleaves events schedule)
    (independent : ∀ one other, one ≠ other → ∀ indexed ∈ events one, ∀ later ∈ events other,
      indexed.event.Independent later.event)
    (ordered : ∀ thread,
      (serial.filter fun entry => entry.1 = thread).map Prod.snd = events thread) :
    ((⟨db.toStores, read⟩ : Machine ι).run schedule).stores.SameOutcome
      (applyAll (serial.map Prod.snd) db).toStores := by
  have moved := interleaves.reordered ordered
  have same := @Reordering.Reordered.foldl _ _ Machine.step _ Machine.Same _ _ moved
    (fun m => ⟨sameOutcome_refl m.stores, rfl⟩)
    (fun _ _ _ first second =>
      ⟨sameOutcome_trans first.1 second.1, first.2.trans second.2⟩)
    (fun move _ _ _ same => same.step move)
    (fun one member other member' apart m => by
      obtain ⟨indexed, made⟩ := interleaves.member member
      obtain ⟨indexed', made'⟩ := interleaves.member member'
      exact m.step_comm apart (operations_within _ _ made) (operations_within _ _ made')
        (independent _ _ apart _ indexed _ indexed'))
    (⟨db.toStores, read⟩ : Machine ι)
  have whole := run_oneByOne serial (⟨db.toStores, read⟩ : Machine ι) db rfl
  rw [← whole]
  exact same.1

/-- Two threads book deposits of two users, step by step in turn. -/
theorem concurrent_events_serializable_deposits :
    let one : IndexedEvent := ⟨5, 1700000000, Vector.replicate 32 0, 0, 0,
      .collateralDeposited (Vector.replicate 20 1) (Vector.replicate 20 9) 500⟩
    let other : IndexedEvent := ⟨5, 1700000000, Vector.replicate 32 0, 0, 1,
      .collateralDeposited (Vector.replicate 20 2) (Vector.replicate 20 9) 300⟩
    ((⟨(PerfDb.ofStores .new).toStores, fun _ => ⟨none, none, none⟩⟩ : Machine Bool).run
      (((moves false one).zip (moves true other)).flatMap fun pair =>
        [pair.1, pair.2])).stores.SameOutcome
      (applyAll ([(false, one), (true, other)].map Prod.snd) (.ofStores .new)).toStores := by
  intro one other
  apply concurrent_events_serializable (fun thread => if thread then [other] else [one])
    (((moves false one).zip (moves true other)).flatMap fun pair => [pair.1, pair.2])
    [(false, one), (true, other)] (.ofStores .new) (fun _ => ⟨none, none, none⟩)
  · intro thread
    cases thread <;> rfl
  · have apart : one.event.Independent other.event :=
      ⟨List.disjoint_singleton.mpr (by decide), List.disjoint_nil_left _,
        List.disjoint_nil_left _, nofun⟩
    intro first second differ indexed member later member'
    cases first <;> cases second <;> try exact absurd rfl differ
    · obtain rfl := List.mem_singleton.mp member
      obtain rfl := List.mem_singleton.mp member'
      exact apart
    · obtain rfl := List.mem_singleton.mp member
      obtain rfl := List.mem_singleton.mp member'
      exact apart.symm
  · intro thread
    cases thread <;> rfl

end Schedules

end Concurrent

end Perfdb
