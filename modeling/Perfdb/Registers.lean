import Mathlib
import Perfdb.Histories

set_option autoImplicit false

/-! A number that several threads add to, each by reading it and writing back a sum: which
amounts are lost. -/

namespace Register

variable {ι : Type*} [DecidableEq ι]

/-- A thread reads the number, or writes what it has read with an amount added. -/
inductive Access (ι : Type*) where
  | read (thread : ι)
  | write (thread : ι) (amount : ℤ)

/-- The number, and what each thread has read. -/
structure State (ι : Type*) where
  value : ℤ
  held : ι → ℤ

def State.step (s : State ι) : Access ι → State ι
  | .read thread => { s with held := Function.update s.held thread s.value }
  | .write thread amount => { s with value := s.held thread + amount }

def State.run (s : State ι) (accesses : List (Access ι)) : State ι := accesses.foldl State.step s

omit [DecidableEq ι] in
def Access.amount : Access ι → ℤ
  | .read _ => 0
  | .write _ amount => amount

omit [DecidableEq ι] in
def written (accesses : List (Access ι)) : ℤ := (accesses.map Access.amount).sum

omit [DecidableEq ι] in
/-- The thread has read since the last write. -/
def Fresh (front : List (Access ι)) (thread : ι) : Prop :=
  ∃ before after, front = before ++ .read thread :: after ∧
    ∀ writer amount, .write writer amount ∉ after

omit [DecidableEq ι] in
/-- A write of a thread that has read since the last one. -/
def Access.Undisturbed (front : List (Access ι)) : Access ι → Prop
  | .read _ => True
  | .write thread _ => Fresh front thread

omit [DecidableEq ι] in
/-- Nobody else writes between a thread's read and its write. -/
def Exclusive (accesses : List (Access ι)) : Prop :=
  ∀ front last, front ++ [last] <+: accesses → last.Undisturbed front

omit [DecidableEq ι] in
/-- A write of a thread that has read before, of a positive amount. -/
def Access.Adds (front : List (Access ι)) : Access ι → Prop
  | .read _ => True
  | .write thread amount => .read thread ∈ front ∧ 0 < amount

section Fresh

omit [DecidableEq ι]

variable {front : List (Access ι)} {thread other : ι} {amount : ℤ}

theorem fresh_read : Fresh (front ++ [.read thread]) thread :=
  ⟨front, [], rfl, fun _ _ => List.not_mem_nil⟩

theorem not_fresh_write : ¬ Fresh (front ++ [.write other amount]) thread := by
  rintro ⟨before, after, split, silent⟩
  rcases List.eq_nil_or_concat after with rfl | ⟨rest, last, rfl⟩
  · have lasts := (List.append_inj' split rfl).2
    cases List.singleton_inj.mp lasts
  · rw [List.concat_eq_append, ← List.cons_append, ← List.append_assoc] at split
    obtain rfl := List.singleton_inj.mp (List.append_inj' split rfl).2
    exact silent other amount (by simp)

theorem fresh_read_other (apart : other ≠ thread) :
    Fresh (front ++ [.read other]) thread ↔ Fresh front thread := by
  constructor
  · rintro ⟨before, after, split, silent⟩
    rcases List.eq_nil_or_concat after with rfl | ⟨rest, last, rfl⟩
    · have lasts := (List.append_inj' split rfl).2
      exact absurd (Access.read.inj (List.singleton_inj.mp lasts)) apart
    · rw [List.concat_eq_append, ← List.cons_append, ← List.append_assoc] at split
      refine ⟨before, rest, (List.append_inj' split rfl).1, fun writer amount inside => ?_⟩
      exact silent writer amount (by simp [inside])
  · rintro ⟨before, after, rfl, silent⟩
    refine ⟨before, after ++ [.read other], by simp, fun writer amount inside => ?_⟩
    rcases List.mem_append.mp inside with here | here
    · exact silent writer amount here
    · cases List.mem_singleton.mp here

end Fresh

section Runs

/-- What holds after every access: no more is there than was written, and all of it exactly if
the writes were exclusive; who has read since the last write holds the number, and who has not
holds less than was written. -/
structure Tracks (start : ℤ) (front : List (Access ι)) (s : State ι) : Prop where
  lower : start ≤ s.value
  upper : s.value ≤ start + written front
  whole : s.value = start + written front ↔ Exclusive front
  held : ∀ thread, .read thread ∈ front → start ≤ s.held thread
  fresh : ∀ thread, Fresh front thread → s.held thread = s.value
  stale : ∀ thread, .read thread ∈ front → ¬ Fresh front thread →
    s.held thread < start + written front

omit [DecidableEq ι] in
theorem written_append (front : List (Access ι)) (last : Access ι) :
    written (front ++ [last]) = written front + last.amount := by
  simp [written]

omit [DecidableEq ι] in
theorem exclusive_append (front : List (Access ι)) (last : Access ι) :
    Exclusive (front ++ [last]) ↔ Exclusive front ∧ last.Undisturbed front :=
  Perfdb.forall_prefix_concat
    (fun (front : List (Access ι)) (last : Access ι) => last.Undisturbed front) front last

omit [DecidableEq ι] in
theorem written_le {front accesses : List (Access ι)} (inside : front <+: accesses)
    (positive : ∀ access ∈ accesses, 0 ≤ access.amount) : written front ≤ written accesses := by
  obtain ⟨rest, rfl⟩ := inside
  have more : 0 ≤ written rest := List.sum_nonneg fun amount here => by
    obtain ⟨access, member, rfl⟩ := List.mem_map.mp here
    exact positive access (List.mem_append_right front member)
  have sums : written (front ++ rest) = written front + written rest := by
    rw [written, List.map_append, List.sum_append]
    rfl
  rw [sums]
  exact le_add_of_nonneg_right more

variable {start : ℤ} {front : List (Access ι)} {s : State ι}

omit [DecidableEq ι] in
theorem Tracks.held_le (tracks : Tracks start front s) {thread : ι} (known : .read thread ∈ front) :
    s.held thread ≤ start + written front := by
  by_cases fresh : Fresh front thread
  · rw [tracks.fresh thread fresh]
    exact tracks.upper
  · exact le_of_lt (tracks.stale thread known fresh)

theorem Tracks.read (tracks : Tracks start front s) (thread : ι) :
    Tracks start (front ++ [.read thread]) (s.step (.read thread)) := by
  have same : written (front ++ [.read thread]) = written front := by
    rw [written_append]
    exact add_zero _
  have before {other : ι} (apart : thread ≠ other)
      (inside : .read other ∈ front ++ [Access.read thread]) : .read other ∈ front :=
    (List.mem_append.mp inside).resolve_right fun here =>
      apart (Access.read.inj (List.mem_singleton.mp here)).symm
  have holds {other : ι} (apart : thread ≠ other) :
      (s.step (.read thread)).held other = s.held other := Function.update_of_ne apart.symm _ _
  have own : (s.step (.read thread)).held thread = s.value := Function.update_self _ _ _
  refine ⟨tracks.lower, ?_, ?_, ?_, ?_, ?_⟩
  · rw [same]
    exact tracks.upper
  · rw [same, exclusive_append]
    exact tracks.whole.trans (and_iff_left trivial).symm
  · intro other inside
    by_cases apart : thread = other
    · rw [← apart, own]
      exact tracks.lower
    · rw [holds apart]
      exact tracks.held other (before apart inside)
  · intro other fresh
    by_cases apart : thread = other
    · rw [← apart]
      exact own
    · rw [holds apart]
      exact tracks.fresh other ((fresh_read_other apart).mp fresh)
  · intro other inside stale
    by_cases apart : thread = other
    · exact absurd (apart ▸ fresh_read) stale
    · rw [holds apart, same]
      exact tracks.stale other (before apart inside) fun fresh =>
        stale ((fresh_read_other apart).mpr fresh)

theorem Tracks.write (tracks : Tracks start front s) {thread : ι} {amount : ℤ}
    (adds : (Access.write thread amount).Adds front) :
    Tracks start (front ++ [.write thread amount]) (s.step (.write thread amount)) := by
  obtain ⟨known, positive⟩ := adds
  have more : written (front ++ [.write thread amount]) = written front + amount :=
    written_append front _
  have value : (s.step (.write thread amount)).value = s.held thread + amount := rfl
  have before {other : ι} (inside : .read other ∈ front ++ [Access.write thread amount]) :
      .read other ∈ front :=
    (List.mem_append.mp inside).resolve_right fun here => by cases List.mem_singleton.mp here
  have low := tracks.held thread known
  have upper := tracks.upper
  refine ⟨?_, ?_, ?_, fun other inside => tracks.held other (before inside),
    fun other fresh => absurd fresh not_fresh_write, ?_⟩
  · rw [value]
    omega
  · rw [value, more]
    by_cases fresh : Fresh front thread
    · have holds := tracks.fresh thread fresh
      omega
    · have less := tracks.stale thread known fresh
      omega
  · rw [value, more, exclusive_append, ← tracks.whole]
    by_cases fresh : Fresh front thread
    · have holds := tracks.fresh thread fresh
      refine Iff.trans ?_ (and_iff_left fresh).symm
      omega
    · have less := tracks.stale thread known fresh
      refine iff_of_false (by omega) fun both => fresh both.2
  · intro other inside _
    have holds : (s.step (.write thread amount)).held other = s.held other := rfl
    rw [holds, more]
    by_cases fresh : Fresh front other
    · have same := tracks.fresh other fresh
      omega
    · have less := tracks.stale other (before inside) fresh
      omega

theorem run_tracks (accesses : List (Access ι)) (s : State ι)
    (adds : ∀ front last, front ++ [last] <+: accesses → last.Adds front) :
    Tracks s.value accesses (s.run accesses) := by
  refine Perfdb.foldl_holds (fun front later => Tracks s.value front later) ?_ ?_
  · refine ⟨le_refl _, by simp [written], iff_of_true (by simp [written]) ?_, ?_, ?_, ?_⟩
    · intro front last inside
      simp at inside
    · intro thread inside
      cases inside
    · rintro thread ⟨before, after, split, _⟩
      simp at split
    · intro thread inside
      cases inside
  · intro front last later inside tracks
    cases last with
    | read thread => exact tracks.read thread
    | write thread amount => exact tracks.write (adds front _ inside)

end Runs

end Register
