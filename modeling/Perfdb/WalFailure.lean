import Mathlib
import Perfdb.WalSession

set_option autoImplicit false

namespace Perfdb.Wal

/-- One call of `append`, and what becomes of the system calls it makes. -/
structure Attempt where
  entry : WalEntry
  verdicts : List Verdict

def WalState.facing (s : WalState) (verdicts : List Verdict) : WalState :=
  { s with world := { s.world with verdicts := verdicts } }

/-- Makes every call, whatever the ones before returned; gives the entries whose
append returned, and the last state. -/
def attempts (fmt : Format) : List Attempt → WalState → List WalEntry × WalState
  | [], s => ([], s)
  | attempt :: later, s =>
      match append fmt attempt.entry (s.facing attempt.verdicts) with
      | .ok _ t => (attempt.entry :: (attempts fmt later t).1, (attempts fmt later t).2)
      | .error _ t => attempts fmt later t

/-- The call meets no fault, or its very first step does: the buffer has no room for
the length, and cannot be emptied. -/
def Harmless (s : WalState) (verdicts : List Verdict) : Prop :=
  (∀ v ∈ verdicts, v = .ok) ∨
    bufferCapacity - s.wal.writer.buffer.length < 4 ∧ ∃ done, verdicts.head? = some (.fail done)

def HarmlessRun (fmt : Format) : List Attempt → WalState → Prop
  | [], _ => True
  | attempt :: later, s => Harmless s attempt.verdicts ∧
      match append fmt attempt.entry (s.facing attempt.verdicts) with
      | .ok _ t => HarmlessRun fmt later t
      | .error _ t => HarmlessRun fmt later t

section Step

variable {fmt : Format} {s t : WalState} {entries : List WalEntry}

theorem Holds.facing (holds : s.Holds fmt entries) (verdicts : List Verdict) :
    (s.facing verdicts).Holds fmt entries := by
  obtain ⟨last, layout, whole⟩ := holds
  exact ⟨last, ⟨layout.tidy, layout.opened, layout.file, layout.inside, layout.below⟩, whole⟩

/-- Where the first write gets stuck the whole call does, and has written nothing. -/
theorem append_stuck (fmt : Format) (entry : WalEntry)
    (present : s.wal.writer.file ∈ s.world.dir) {done : Nat}
    (full : bufferCapacity - s.wal.writer.buffer.length < 4)
    (failing : s.world.verdict = .fail done) :
    ∃ t, append fmt entry s = .error (.error (.io "WAL write len")) t ∧ s.Grew t [] := by
  let len := Bytes.le 4 (fmt.serialize entry).length
  have width : len.length = 4 := Bytes.le_length _ _
  obtain ⟨g, stuck⟩ := writeAll_stuck (PerfDbError.io "WAL write len") s.handle len
    (by rw [width]; decide) (by rw [width]; exact full) failing
  have first : onFile (writeAll (.io "WAL write len") len) s =
      .error (.error (.io "WAL write len")) (s.setHandle g) := by
    rw [onFile, stuck]
  obtain ⟨wrote, _⟩ := (writeLength_wrote s present _ len width).error rfl first
  refine ⟨s.setHandle g, ?_, wrote.grew present⟩
  unfold append
  change EStateM.bind (onFile (writeAll (.io "WAL write len") len)) _ s = _
  rw [EStateM.bind, first]

/-- A harmless call appends its entry, or fails and leaves the log as it was. -/
theorem append_harmless (holds : s.Holds fmt entries) {attempt : Attempt}
    (sound : fmt.framing.Sound attempt.entry) (harmless : Harmless s attempt.verdicts) :
    match append fmt attempt.entry (s.facing attempt.verdicts) with
    | .ok _ t => t.Holds fmt (entries ++ [attempt.entry])
    | .error _ t => t.Holds fmt entries := by
  have facing := Holds.facing holds attempt.verdicts
  obtain ⟨last, layout, _⟩ := id facing
  rcases harmless with healthy | ⟨full, done, failing⟩
  · obtain ⟨t, run, grew, _⟩ := append_ok fmt _ attempt.entry layout.opened healthy
    rw [run]
    exact facing.push sound grew
  · have verdict : (s.facing attempt.verdicts).world.verdict = .fail done := by
      change attempt.verdicts.headD .ok = _
      rw [List.headD_eq_head?_getD, failing, Option.getD_some]
    obtain ⟨t, run, grew⟩ := append_stuck fmt attempt.entry layout.opened full verdict
    rw [run]
    exact facing.idle grew

/-- Any other failing call leaves bytes of its entry in the log. -/
theorem append_harmful (present : s.wal.writer.file ∈ s.world.dir) {attempt : Attempt}
    (uncrashed : ∀ v ∈ attempt.verdicts, ∀ done, v ≠ .crash done)
    (harmful : ¬ Harmless s attempt.verdicts) {abort : Abort PerfDbError}
    (run : append fmt attempt.entry (s.facing attempt.verdicts) = .error abort t) :
    ∃ written, written ≠ [] ∧ written <+: fmt.framing.frame attempt.entry ∧
      (s.facing attempt.verdicts).Grew t written := by
  obtain ⟨written, part, grew, _, stuck⟩ :=
    (append_triple (s.facing attempt.verdicts) present fmt attempt.entry).error rfl run
  refine ⟨written, fun none => harmful (Or.inr ?_), part, grew⟩
  obtain ⟨full, faulty⟩ := stuck none
  refine ⟨full, ?_⟩
  change attempt.verdicts.headD .ok ≠ .ok at faulty
  cases pending : attempt.verdicts with
  | nil => simp [pending] at faulty
  | cons first rest =>
      cases first with
      | ok => simp [pending] at faulty
      | fail done => exact ⟨done, rfl⟩
      | crash done => exact (uncrashed (.crash done) (pending ▸ List.mem_cons_self) done rfl).elim

end Step

theorem harmlessRun_of_healthy {fmt : Format} (calls : List Attempt)
    (healthy : ∀ attempt ∈ calls, ∀ v ∈ attempt.verdicts, v = .ok) (s : WalState) :
    HarmlessRun fmt calls s := by
  induction calls generalizing s with
  | nil => trivial
  | cons attempt later ih =>
      have rest (t : WalState) : HarmlessRun fmt later t :=
        ih (fun other member => healthy other (List.mem_cons_of_mem attempt member)) t
      refine ⟨Or.inl (healthy attempt List.mem_cons_self), ?_⟩
      cases append fmt attempt.entry (s.facing attempt.verdicts) with
      | ok value t => exact rest t
      | error abort t => exact rest t

/-- In a run of harmless calls the log holds what was acknowledged. -/
theorem attempts_holds {fmt : Format} {old : List WalEntry} (calls : List Attempt)
    (sound : ∀ attempt ∈ calls, fmt.framing.Sound attempt.entry) (s : WalState)
    (holds : s.Holds fmt old) (harmless : HarmlessRun fmt calls s) :
    (attempts fmt calls s).2.Holds fmt (old ++ (attempts fmt calls s).1) := by
  induction calls generalizing s old with
  | nil => simpa only [attempts, List.append_nil] using holds
  | cons attempt later ih =>
      have others (other : Attempt) (member : other ∈ later) :
          fmt.framing.Sound other.entry := sound other (List.mem_cons_of_mem attempt member)
      have step := append_harmless holds (sound attempt List.mem_cons_self) harmless.1
      have rest := harmless.2
      simp only [attempts]
      cases run : append fmt attempt.entry (s.facing attempt.verdicts) with
      | ok value t =>
          simp only [run] at step rest ⊢
          have final := ih others t step rest
          rwa [List.append_assoc, List.singleton_append] at final
      | error abort t =>
          simp only [run] at step rest ⊢
          exact ih others t step rest

/-- While every failing append fails at its first write, replay delivers what was
acknowledged and nothing else. A failure anywhere later leaves bytes in the log. -/
theorem append_failures (fmt : Format) (inverse : fmt.RoundTrips) (order : Iteration)
    (config : WalConfig) (world : World) (old : List WalEntry) (clean : Clean fmt world.dir old)
    (wal : WalWriter) (opened : World)
    (run : WalWriter.openLog order config world = .ok wal opened) (calls : List Attempt)
    (fits : ∀ attempt ∈ calls, fmt.Fits attempt.entry)
    (harmless : HarmlessRun fmt calls ⟨wal, opened⟩) (listing : Iteration) :
    Delivers fmt listing (attempts fmt calls ⟨wal, opened⟩).2.close
        (old ++ (attempts fmt calls ⟨wal, opened⟩).1) ∧
      ∀ next : Attempt, (∀ v ∈ next.verdicts, ∀ done, v ≠ .crash done) →
        ¬ Harmless (attempts fmt calls ⟨wal, opened⟩).2 next.verdicts →
        ∀ abort t, append fmt next.entry
            ((attempts fmt calls ⟨wal, opened⟩).2.facing next.verdicts) = .error abort t →
          ∃ id, t.segments id ≠ (attempts fmt calls ⟨wal, opened⟩).2.segments id := by
  have holds := attempts_holds calls (fun attempt member => inverse.sound (fits attempt member))
    ⟨wal, opened⟩ (clean.open_holds order config world run) harmless
  refine ⟨holds.clean.delivers listing, fun next uncrashed harmful abort t failed => ?_⟩
  obtain ⟨last, layout, _⟩ := holds
  obtain ⟨written, some, _, grew⟩ := append_harmful layout.opened uncrashed harmful failed
  refine ⟨last, fun same => some ?_⟩
  rw [grew.segments layout.file, if_pos rfl] at same
  exact List.append_cancel_left (same.trans (List.append_nil _).symm)

def failureConfig : WalConfig := ⟨"wal", 64 * 1024 * 1024, .everyWrite⟩

theorem append_failures_none :
    ∃ wal opened, WalWriter.openLog .stored failureConfig ⟨∅, [], []⟩ = .ok wal opened ∧
      let final := attempts Bincode.format [⟨.checkpoint 1, []⟩, ⟨.checkpoint 2, [.ok, .ok]⟩]
        ⟨wal, opened⟩
      Delivers Bincode.format .stored final.2.close ([] ++ final.1) ∧
        ∀ next : Attempt, (∀ v ∈ next.verdicts, ∀ done, v ≠ .crash done) →
          ¬ Harmless final.2 next.verdicts →
          ∀ abort t, append Bincode.format next.entry (final.2.facing next.verdicts) =
              .error abort t →
            ∃ id, t.segments id ≠ final.2.segments id := by
  obtain ⟨wal, opened, run, _⟩ := openLog_ok .stored failureConfig ⟨∅, [], []⟩
    (fun v member => by cases member)
  refine ⟨wal, opened, run, append_failures Bincode.format Bincode.format_roundTrips .stored
    failureConfig ⟨∅, [], []⟩ [] (clean_of_fresh fun name member =>
      (Std.ExtTreeMap.not_mem_empty member).elim) wal opened run
    [⟨.checkpoint 1, []⟩, ⟨.checkpoint 2, [.ok, .ok]⟩] ?_
    (harmlessRun_of_healthy _ (by simp) _) .stored⟩
  simp only [List.mem_cons, List.not_mem_nil, or_false]
  rintro attempt (rfl | rfl) <;> unfold Format.Fits <;> decide +kernel

/-- An append whose sync fails, and the retry that succeeds: acknowledged once,
delivered twice. -/
theorem retry_duplicates :
    ∃ wal opened, WalWriter.openLog .stored failureConfig ⟨∅, [], []⟩ = .ok wal opened ∧
      let final := attempts Bincode.format
        [⟨.checkpoint 1, [.ok, .fail 0]⟩, ⟨.checkpoint 1, []⟩] ⟨wal, opened⟩
      final.1 = [.checkpoint 1] ∧
        delivered Bincode.format .stored final.2.close =
          .ok ([.checkpoint 1, .checkpoint 1], 2) := by
  have twice : (match WalWriter.openLog .stored failureConfig ⟨∅, [], []⟩ with
      | .ok wal opened =>
          let final := attempts Bincode.format
            [⟨.checkpoint 1, [.ok, .fail 0]⟩, ⟨.checkpoint 1, []⟩] ⟨wal, opened⟩
          decide (final.1 = [.checkpoint 1] ∧ delivered Bincode.format .stored final.2.close =
            .ok ([.checkpoint 1, .checkpoint 1], 2))
      | .error _ _ => false) = true := by
    decide +kernel
  cases run : WalWriter.openLog .stored failureConfig ⟨∅, [], []⟩ with
  | ok wal opened =>
      rw [run] at twice
      exact ⟨wal, opened, rfl, of_decide_eq_true twice⟩
  | error abort later =>
      rw [run] at twice
      contradiction

end Perfdb.Wal
