import Mathlib

set_option autoImplicit false

namespace Perfdb

/-- What holds of every call of a longer run and the calls before it. -/
theorem forall_prefix_concat {ι : Type*} (holds : List ι → ι → Prop) (front : List ι) (last : ι) :
    (∀ earlier call, earlier ++ [call] <+: front ++ [last] → holds earlier call) ↔
      (∀ earlier call, earlier ++ [call] <+: front → holds earlier call) ∧ holds front last := by
  constructor
  · intro every
    exact ⟨fun earlier call inside => every earlier call (inside.trans (List.prefix_append _ _)),
      every front last (List.prefix_refl _)⟩
  · rintro ⟨every, here⟩ earlier call inside
    rcases List.prefix_concat_iff.mp inside with whole | shorter
    · obtain ⟨rfl, same⟩ := List.append_inj' whole rfl
      obtain rfl := List.singleton_inj.mp same
      exact here
    · exact every earlier call shorter

section History

variable {σ ι : Type*} {step : σ → ι → σ} (inv : List ι → σ → Prop) (good : σ → Prop)
  (meets : List ι → σ → ι → Prop) {calls : List ι} {start : σ}

theorem foldl_holds (init : inv [] start)
    (keep : ∀ front call s, front ++ [call] <+: calls → inv front s →
      inv (front ++ [call]) (step s call)) : inv calls (calls.foldl step start) := by
  induction calls using List.reverseRecOn with
  | nil => exact init
  | append_singleton front call ih =>
      rw [List.foldl_append, List.foldl_cons, List.foldl_nil]
      refine keep front call _ (List.prefix_refl _) (ih fun earlier other s inside => ?_)
      exact keep earlier other s (inside.trans (List.prefix_append _ _))

theorem foldl_holds_of_meets (init : inv [] start)
    (keep : ∀ front call s, front ++ [call] <+: calls → inv front s → meets front s call →
      inv (front ++ [call]) (step s call))
    (met : ∀ front call, front ++ [call] <+: calls → meets front (front.foldl step start) call) :
    inv calls (calls.foldl step start) := by
  induction calls using List.reverseRecOn with
  | nil => exact init
  | append_singleton front call ih =>
      have shorter {other : List ι} (inside : other <+: front) : other <+: front ++ [call] :=
        inside.trans (List.prefix_append _ _)
      rw [List.foldl_append, List.foldl_cons, List.foldl_nil]
      refine keep front call _ (List.prefix_refl _) (ih ?_ ?_) (met front call (List.prefix_refl _))
      · exact fun earlier other s inside => keep earlier other s (shorter inside)
      · exact fun earlier other inside => met earlier other (shorter inside)

/-- A condition that an invariant gives for each call is met throughout a run. -/
theorem foldl_meets (init : inv [] start)
    (keep : ∀ front call s, front ++ [call] <+: calls → inv front s →
      meets front s call ∧ inv (front ++ [call]) (step s call)) :
    (∀ front call, front ++ [call] <+: calls → meets front (front.foldl step start) call) ∧
      inv calls (calls.foldl step start) := by
  induction calls using List.reverseRecOn with
  | nil => exact ⟨fun front call inside => by simp at inside, init⟩
  | append_singleton front call ih =>
      obtain ⟨met, held⟩ := ih fun earlier other s inside =>
        keep earlier other s (inside.trans (List.prefix_append _ _))
      obtain ⟨last, later⟩ := keep front call _ (List.prefix_refl _) held
      rw [List.foldl_append]
      exact ⟨(forall_prefix_concat (fun front call => meets front (front.foldl step start) call)
        front call).mpr ⟨met, last⟩, later⟩

/-- Where the first call that does not meet the condition already shows, the runs that
stay good throughout are those whose calls all meet it. -/
theorem foldl_good_iff (init : inv [] start) (sound : ∀ front s, inv front s → good s)
    (keep : ∀ front call s, front ++ [call] <+: calls → inv front s → meets front s call →
      inv (front ++ [call]) (step s call))
    (shows : ∀ front call s, front ++ [call] <+: calls → inv front s → ¬ meets front s call →
      ¬ good (step s call)) :
    (∀ front, front <+: calls → good (front.foldl step start)) ↔
      ∀ front call, front ++ [call] <+: calls → meets front (front.foldl step start) call := by
  constructor
  · intro always
    have reached (front : List ι) : front <+: calls → inv front (front.foldl step start) ∧
        ∀ earlier call, earlier ++ [call] <+: front →
          meets earlier (earlier.foldl step start) call := by
      induction front using List.reverseRecOn with
      | nil => exact fun _ => ⟨init, fun earlier call inside => by simp at inside⟩
      | append_singleton front call ih =>
          intro inside
          obtain ⟨held, met⟩ := ih ((List.prefix_append _ _).trans inside)
          have now : meets front (front.foldl step start) call := by
            by_contra fails
            refine shows front call _ inside held fails ?_
            have later := always _ inside
            rwa [List.foldl_append] at later
          refine ⟨?_, (forall_prefix_concat _ front call).mpr ⟨met, now⟩⟩
          rw [List.foldl_append]
          exact keep front call _ inside held now
    exact fun front call inside => (reached _ inside).2 front call (List.prefix_refl _)
  · intro met front inside
    refine sound front _ (foldl_holds_of_meets inv meets init ?_ ?_)
    · exact fun earlier call s within => keep earlier call s (within.trans inside)
    · exact fun earlier call within => met earlier call (within.trans inside)

end History

/-- What holds of every call and the calls before it. -/
theorem forall_fronts {ι : Type*} (holds : List ι → ι → Prop) {calls : List ι}
    (each : ∀ i (inside : i < calls.length), holds (calls.take i) calls[i]) (front : List ι)
    (call : ι) (prefixed : front ++ [call] <+: calls) : holds front call := by
  obtain ⟨rest, rfl⟩ := prefixed
  have here := each front.length (by simp)
  simpa [List.append_assoc] using here

end Perfdb
