import Mathlib
import Perfdb.WalLog
import Perfdb.Bincode

set_option autoImplicit false

namespace Perfdb.Wal

def appendAll (fmt : Format) : List WalEntry → WalM Unit
  | [] => pure ()
  | entry :: entries => do
      append fmt entry
      appendAll fmt entries

/-- One life of a writer, and the order its directory was listed in. -/
structure Session where
  order : Iteration
  config : WalConfig
  entries : List WalEntry

/-- Opens the log, appends, and drops the writer. -/
def Session.run (fmt : Format) (session : Session) : EStateM (Abort PerfDbError) World Unit :=
  fun world =>
    match WalWriter.openLog session.order session.config world with
    | .error abort later => .error abort later
    | .ok wal later =>
        match appendAll fmt session.entries ⟨wal, later⟩ with
        | .error abort s => .error abort { s.world with dir := s.close }
        | .ok _ s => .ok () { s.world with dir := s.close }

def runSessions (fmt : Format) : List Session → EStateM (Abort PerfDbError) World Unit
  | [] => pure ()
  | session :: sessions => do
      session.run fmt
      runSessions fmt sessions

section Healthy

variable {fmt : Format} {old : List WalEntry}

theorem append_ok (fmt : Format) (s : WalState) (entry : WalEntry)
    (present : s.wal.writer.file ∈ s.world.dir) (healthy : s.world.Healthy) :
    ∃ t, append fmt entry s = .ok () t ∧ s.Grew t (fmt.framing.frame entry) ∧
      t.world.Healthy := by
  cases run : append fmt entry s with
  | ok value t =>
      have grew := ((append_triple s present fmt entry).ok rfl run).1
      exact ⟨t, rfl, grew, fun v member => healthy v (grew.verdicts.subset member)⟩
  | error abort t =>
      obtain ⟨_, _, _, ordered, _⟩ := (append_triple s present fmt entry).error rfl run
      exact (ordered.not_healthy healthy).elim

/-- Without I/O errors an entry is appended behind what the log held. -/
theorem append_holds (s : WalState) {entry : WalEntry} (sound : fmt.framing.Sound entry)
    (holds : s.Holds fmt old) (healthy : s.world.Healthy) :
    ∃ t, append fmt entry s = .ok () t ∧ t.Holds fmt (old ++ [entry]) ∧ t.world.Healthy := by
  obtain ⟨last, layout, _⟩ := id holds
  obtain ⟨t, appended, grew, later⟩ := append_ok fmt s entry layout.opened healthy
  exact ⟨t, appended, holds.push sound grew, later⟩

theorem appendAll_holds (entries : List WalEntry)
    (sound : ∀ entry ∈ entries, fmt.framing.Sound entry) (s : WalState)
    (holds : s.Holds fmt old) (healthy : s.world.Healthy) :
    ∃ t, appendAll fmt entries s = .ok () t ∧ t.Holds fmt (old ++ entries) ∧
      t.world.Healthy := by
  induction entries generalizing s old with
  | nil => exact ⟨s, rfl, by rwa [List.append_nil], healthy⟩
  | cons entry entries ih =>
      obtain ⟨t, appended, grown, later⟩ :=
        append_holds s (sound entry List.mem_cons_self) holds healthy
      obtain ⟨u, rest, final, still⟩ :=
        ih (fun other member => sound other (List.mem_cons_of_mem entry member)) t grown later
      refine ⟨u, ?_, ?_, still⟩
      · change EStateM.bind (append fmt entry) (fun _ => appendAll fmt entries) s = _
        rw [EStateM.bind, appended]
        exact rest
      · rwa [List.append_assoc, List.singleton_append] at final

theorem openLog_ok (order : Iteration) (config : WalConfig) (world : World)
    (healthy : world.Healthy) :
    ∃ wal later, WalWriter.openLog order config world = .ok wal later ∧ later.Healthy := by
  cases run : WalWriter.openLog order config world with
  | ok wal later =>
      obtain ⟨_, _, _, _, verdicts⟩ := (openLog_triple order config world).ok rfl run
      exact ⟨wal, later, rfl, fun v member => healthy v (verdicts.subset member)⟩
  | error abort later =>
      exact (((openLog_triple order config world).error rfl run).not_healthy healthy).elim

theorem Session.run_clean (session : Session)
    (sound : ∀ entry ∈ session.entries, fmt.framing.Sound entry) (world : World)
    (clean : Clean fmt world.dir old) (healthy : world.Healthy) :
    ∃ later, session.run fmt world = .ok () later ∧
      Clean fmt later.dir (old ++ session.entries) ∧ later.Healthy := by
  obtain ⟨wal, opened, run, calm⟩ := openLog_ok session.order session.config world healthy
  obtain ⟨s, appended, holds, still⟩ :=
    appendAll_holds session.entries sound ⟨wal, opened⟩ (clean.open_holds _ _ _ run) calm
  refine ⟨{ s.world with dir := s.close }, ?_, holds.clean, still⟩
  rw [Session.run, run]
  simp only [appended]

theorem runSessions_clean (sessions : List Session)
    (sound : ∀ session ∈ sessions, ∀ entry ∈ session.entries, fmt.framing.Sound entry)
    (world : World) (clean : Clean fmt world.dir old) (healthy : world.Healthy) :
    ∃ later, runSessions fmt sessions world = .ok () later ∧
      Clean fmt later.dir (old ++ sessions.flatMap Session.entries) := by
  induction sessions generalizing world old with
  | nil => exact ⟨world, rfl, by rwa [List.flatMap_nil, List.append_nil]⟩
  | cons session sessions ih =>
      obtain ⟨middle, first, grown, calm⟩ :=
        session.run_clean (sound session List.mem_cons_self) world clean healthy
      obtain ⟨later, rest, final⟩ :=
        ih (fun other member => sound other (List.mem_cons_of_mem session member)) middle grown calm
      refine ⟨later, ?_, ?_⟩
      · change EStateM.bind (session.run fmt) (fun _ => runSessions fmt sessions) world = _
        rw [EStateM.bind, first]
        exact rest
      · rwa [List.flatMap_cons, ← List.append_assoc]

end Healthy

/-- Replay delivers what all sessions appended, each entry once and in order. -/
theorem replay_sessions (fmt : Format) (inverse : fmt.RoundTrips) (sessions : List Session)
    (fits : ∀ session ∈ sessions, ∀ entry ∈ session.entries, fmt.Fits entry) (world : World)
    (fresh : ∀ name ∈ world.dir, numberOf "wal_" ".bin" name = none) (healthy : world.Healthy)
    (order : Iteration) :
    ∃ later, runSessions fmt sessions world = .ok () later ∧
      Delivers fmt order later.dir (sessions.flatMap Session.entries) := by
  have sound (session : Session) (member : session ∈ sessions) (entry : WalEntry)
      (inside : entry ∈ session.entries) : fmt.framing.Sound entry :=
    inverse.sound (fits session member entry inside)
  obtain ⟨later, run, clean⟩ :=
    runSessions_clean sessions sound world (clean_of_fresh fresh) healthy
  exact ⟨later, run, clean.delivers order⟩

/-- Two sessions over segments of at most one frame. -/
theorem replay_sessions_checkpoints :
    ∃ later, runSessions Bincode.format
        [⟨.stored, ⟨"wal", 0, .everyWrite⟩, [.checkpoint 1, .batchEnd]⟩,
          ⟨.stored, ⟨"wal", 20, .none⟩, [.checkpoint 2]⟩] ⟨∅, [], []⟩ = .ok () later ∧
      Delivers Bincode.format .stored later.dir [.checkpoint 1, .batchEnd, .checkpoint 2] := by
  refine replay_sessions Bincode.format Bincode.format_roundTrips _ ?_ ⟨∅, [], []⟩ ?_ ?_ .stored
  · simp only [List.mem_cons, List.not_mem_nil, or_false, forall_eq_or_imp, forall_eq]
    unfold Format.Fits
    decide +kernel
  · intro name member
    exact (Std.ExtTreeMap.not_mem_empty member).elim
  · intro v member
    cases member

end Perfdb.Wal
