import Mathlib

set_option autoImplicit false

/-! Triples for state-keeping programs that may stop early. A program that raises
leaves its state behind, so the early exit has a postcondition of its own. -/

namespace Perfdb

variable {ε σ α β : Type}

/-- From every state in `pre` the program ends in `post`, or raises in `exit`. -/
def Triple (pre : σ → Prop) (program : EStateM ε σ α) (post : α → σ → Prop)
    (exit : ε → σ → Prop) : Prop :=
  ∀ s, pre s → match program s with
    | .ok value t => post value t
    | .error reason t => exit reason t

namespace Triple

variable {pre : σ → Prop} {program : EStateM ε σ α} {post : α → σ → Prop} {exit : ε → σ → Prop}

theorem ok (triple : Triple pre program post exit) {s t : σ} {value : α} (start : pre s)
    (run : program s = .ok value t) : post value t := by
  have result := triple s start
  rwa [run] at result

theorem error (triple : Triple pre program post exit) {s t : σ} {reason : ε} (start : pre s)
    (run : program s = .error reason t) : exit reason t := by
  have result := triple s start
  rwa [run] at result

theorem total (triple : Triple pre program post exit) {s : σ} (start : pre s)
    (never : ∀ reason t, ¬ exit reason t) : ∃ value t, program s = .ok value t ∧ post value t := by
  cases run : program s with
  | ok value t => exact ⟨value, t, rfl, triple.ok start run⟩
  | error reason t => exact (never reason t (triple.error start run)).elim

theorem and {pre' : σ → Prop} {post' : α → σ → Prop} {exit' : ε → σ → Prop}
    (triple : Triple pre program post exit) (other : Triple pre' program post' exit') :
    Triple (fun s => pre s ∧ pre' s) program (fun value s => post value s ∧ post' value s)
      (fun reason s => exit reason s ∧ exit' reason s) := by
  rintro s ⟨start, start'⟩
  have result := triple s start
  have result' := other s start'
  cases run : program s with
  | ok value t =>
      rw [run] at result result'
      exact ⟨result, result'⟩
  | error reason t =>
      rw [run] at result result'
      exact ⟨result, result'⟩

theorem consequence {pre' : σ → Prop} {post' : α → σ → Prop} {exit' : ε → σ → Prop}
    (triple : Triple pre program post exit) (weaker : ∀ s, pre' s → pre s)
    (stronger : ∀ value s, post value s → post' value s)
    (raised : ∀ reason s, exit reason s → exit' reason s) :
    Triple pre' program post' exit' := by
  intro s start
  have result := triple s (weaker s start)
  split at result
  · exact stronger _ _ result
  · exact raised _ _ result

theorem bind {next : α → EStateM ε σ β} {done : β → σ → Prop} (middle : α → σ → Prop)
    (first : Triple pre program middle exit)
    (second : ∀ value, Triple (middle value) (next value) done exit) :
    Triple pre (program >>= next) done exit := by
  intro s start
  have middle := first s start
  change match EStateM.bind program next s with
    | .ok value t => done value t
    | .error reason t => exit reason t
  unfold EStateM.bind
  split at middle
  · rename_i value t run
    simp only [run]
    exact second value t middle
  · rename_i reason t run
    simp only [run]
    exact middle

theorem ret {value : α} (holds : ∀ s, pre s → post value s) :
    Triple pre (pure value : EStateM ε σ α) post exit := holds

theorem update {change : σ → σ} {done : Unit → σ → Prop}
    (holds : ∀ s, pre s → done () (change s)) :
    Triple pre (modify change : EStateM ε σ Unit) done exit := holds

theorem read {done : σ → σ → Prop} (holds : ∀ s, pre s → done s s) :
    Triple pre (get : EStateM ε σ σ) done exit := holds

/-- A branch on a condition that does not change the state. -/
theorem ite {condition : Prop} [Decidable condition] {other : EStateM ε σ α}
    (yes : condition → Triple pre program post exit)
    (no : ¬ condition → Triple pre other post exit) :
    Triple pre (if condition then program else other) post exit := by
  split
  · exact yes ‹_›
  · exact no ‹_›

/-- A triple may be shown for each start on its own. -/
theorem of_start (each : ∀ s, pre s → Triple (· = s) program post exit) :
    Triple pre program post exit := fun s start => each s start s rfl

/-- From one start a program is as good as another that runs the same way there. -/
theorem of_run {other : EStateM ε σ α} {s : σ} (same : program s = other s)
    (triple : Triple (· = s) other post exit) : Triple (· = s) program post exit := by
  rintro t rfl
  rw [same]
  exact triple t rfl

end Triple

/-- The state after a call, whether it returned a value or an error. -/
def stateOf {ε σ α : Type} : EStateM.Result ε σ α → σ
  | .ok _ s => s
  | .error _ s => s

section Bind

variable {next : α → EStateM ε σ β} {program : EStateM ε σ α} {s t : σ} {b : β}

/-- A sequence returns when both of its halves do. -/
theorem bind_ok (run : (program >>= next) s = .ok b t) :
    ∃ a u, program s = .ok a u ∧ next a u = .ok b t := by
  change EStateM.bind program next s = .ok b t at run
  unfold EStateM.bind at run
  split at run
  · rename_i a u first
    exact ⟨a, u, first, run⟩
  · contradiction

theorem bind_of_ok {a : α} {u : σ} (first : program s = .ok a u) :
    (program >>= next) s = next a u := by
  change EStateM.bind program next s = next a u
  unfold EStateM.bind
  rw [first]

/-- A program that fails is not gone on with. -/
theorem bind_of_error {e : ε} (first : program s = .error e t) :
    (program >>= next) s = .error e t := by
  change EStateM.bind program next s = _
  rw [EStateM.bind, first]

end Bind

end Perfdb
