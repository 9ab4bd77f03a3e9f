import Mathlib
import Perfdb.WalSession

set_option autoImplicit false

namespace Perfdb.Wal

def Session.runSynced (fmt : Format) (session : Session) :
    EStateM (Abort PerfDbError) World Unit := fun world =>
  match WalWriter.openLog session.order session.config world with
  | .error abort later => .error abort later
  | .ok wal later =>
      match (do appendAll fmt session.entries; sync : WalM Unit) ⟨wal, later⟩ with
      | .error abort s => .error abort { s.world with dir := s.close }
      | .ok _ s => .ok () { s.world with dir := s.close }

/-- The writer goes on behind a torn frame: segment `last` holds `old`, the torn
bytes, and the frames of `landed`. -/
structure Torn (fmt : Format) (s : WalState) (last : Nat) (before old : List WalEntry)
    (tail : Bytes) (landed : List WalEntry) : Prop where
  layout : Layout s last
  behind : ∀ id, last < id → s.segments id = []
  before : entriesBelow fmt s.segments last = before
  bytes : s.segments last = fmt.framing.frames old ++ (tail ++ fmt.framing.frames landed)

section Step

variable {fmt : Format} {s t : WalState} {last : Nat} {before old landed : List WalEntry}
  {tail : Bytes}

theorem sync_ok (present : s.wal.writer.file ∈ s.world.dir) (healthy : s.world.Healthy) :
    ∃ t, sync s = .ok () t ∧ s.Grew t [] := by
  cases run : sync s with
  | ok value t => exact ⟨t, rfl, ((sync_triple s present).ok rfl run).1.grew present⟩
  | error abort t =>
      exact (((sync_triple s present).error rfl run).2.not_healthy healthy).elim

/-- What is written behind torn bytes stays behind them, or the writer moves on. -/
theorem Torn.grew (torn : Torn fmt s last before old tail landed) {data : Bytes}
    (more : List WalEntry) (grew : s.Grew t data) (frames : data = fmt.framing.frames more)
    (sound : ∀ entry ∈ old, fmt.framing.Sound entry)
    (rejected : fmt.framing.next (tail ++ fmt.framing.frames (landed ++ more)) = none) :
    Torn fmt t last before old tail (landed ++ more) ∨ t.Holds fmt (before ++ old) := by
  have segments := grew.segments torn.layout.file
  have bytes : t.segments last =
      fmt.framing.frames old ++ (tail ++ fmt.framing.frames (landed ++ more)) := by
    rw [segments, if_pos rfl, torn.bytes, frames, Framing.frames_append]
    simp only [List.append_assoc]
  have behind (id : Nat) (beyond : last < id) : t.segments id = [] := by
    rw [segments, torn.behind id beyond, if_neg (by omega), List.append_nil]
  have front : entriesBelow fmt t.segments last = before := by
    rw [← torn.before]
    apply entriesBelow_congr
    intro id inside
    rw [segments, if_neg (by omega), List.append_nil]
  obtain ⟨next, ahead, layout⟩ := grew.layout torn.layout
  by_cases same : next = last
  · exact Or.inl ⟨same ▸ layout, behind, front, bytes⟩
  · refine Or.inr ⟨next, layout, fun id beyond => behind id (by omega), [], by simp,
      behind next (by omega), ?_⟩
    rw [entriesBelow_of_empty (show last + 1 ≤ _ by omega) fun id beyond => behind id (by omega),
      entriesBelow_succ, front, bytes, fmt.framing.scan_frames old _ sound,
      fmt.framing.scan_of_none rejected, List.append_nil, List.append_nil]

theorem Torn.delivers (torn : Torn fmt s last before old tail landed) (order : Iteration)
    (sound : ∀ entry ∈ old, fmt.framing.Sound entry)
    (rejected : fmt.framing.next (tail ++ fmt.framing.frames landed) = none) :
    Delivers fmt order s.close (before ++ old) := by
  have below (id : Nat) (present : segmentName id ∈ s.close) :
      id < s.wal.currentSegment + 1 := by
    rw [WalState.close, Dir.mem_change] at present
    exact Nat.lt_succ_of_le (torn.layout.below id present)
  have scanned := replay_delivers fmt order (WalState.tidy_close torn.layout.tidy) _ below
  have inside := torn.layout.inside
  rwa [s.segmentsOf_close torn.layout.opened,
    entriesBelow_of_empty (show last + 1 ≤ _ by omega) fun id beyond => torn.behind id (by omega),
    entriesBelow_succ, torn.before, torn.bytes, fmt.framing.scan_frames old _ sound,
    fmt.framing.scan_of_none rejected, List.append_nil] at scanned

end Step

section Run

variable {fmt : Format} {last : Nat} {before old : List WalEntry} {tail : Bytes}

theorem appendAll_torn (sound : ∀ entry ∈ old, fmt.framing.Sound entry)
    (entries landed : List WalEntry) (each : ∀ entry ∈ entries, fmt.framing.Sound entry)
    (rejected : ∀ k, fmt.framing.next
      (tail ++ fmt.framing.frames (landed ++ entries.take k)) = none)
    (s : WalState) (torn : Torn fmt s last before old tail landed) (healthy : s.world.Healthy) :
    ∃ t, appendAll fmt entries s = .ok () t ∧ t.world.Healthy ∧
      (Torn fmt t last before old tail (landed ++ entries) ∨
        ∃ lost kept, entries = lost ++ kept ∧ lost ≠ [] ∧
          t.Holds fmt (before ++ old ++ kept)) := by
  induction entries generalizing s landed with
  | nil => exact ⟨s, rfl, healthy, Or.inl (by rwa [List.append_nil])⟩
  | cons entry entries ih =>
      obtain ⟨t, appended, grew, later⟩ :=
        append_ok fmt s entry torn.layout.opened healthy
      have single : fmt.framing.frame entry = fmt.framing.frames [entry] := by
        rw [Framing.frames_cons, Framing.frames_nil, List.append_nil]
      have others (other : WalEntry) (member : other ∈ entries) : fmt.framing.Sound other :=
        each other (List.mem_cons_of_mem entry member)
      have chain (u : WalState) (rest : appendAll fmt entries t = .ok () u) :
          appendAll fmt (entry :: entries) s = .ok () u := by
        change EStateM.bind (append fmt entry) (fun _ => appendAll fmt entries) s = _
        rw [EStateM.bind, appended]
        exact rest
      rcases torn.grew [entry] grew single sound (rejected 1) with still | moved
      · obtain ⟨u, rest, calm, outcome⟩ := ih (landed ++ [entry]) others
          (fun k => by simpa using rejected (k + 1)) t still later
        refine ⟨u, chain u rest, calm, ?_⟩
        rcases outcome with torn' | ⟨lost, kept, split, _, holds⟩
        · exact Or.inl (by simpa using torn')
        · exact Or.inr ⟨entry :: lost, kept, by rw [split]; rfl, by simp, holds⟩
      · obtain ⟨u, rest, holds, calm⟩ := appendAll_holds entries others t moved later
        exact ⟨u, chain u rest, calm, Or.inr ⟨[entry], entries, rfl, by simp, holds⟩⟩

theorem Session.runSynced_torn (session : Session) (world : World) (healthy : world.Healthy)
    (tidy : Tidy world.dir) (present : segmentName last ∈ world.dir)
    (latest : ∀ id, segmentName id ∈ world.dir → id ≤ last)
    (sound : ∀ entry ∈ old, fmt.framing.Sound entry)
    (each : ∀ entry ∈ session.entries, fmt.framing.Sound entry)
    (bytes : segmentsOf world.dir last = fmt.framing.frames old ++ tail)
    (rejected : ∀ k, fmt.framing.next
      (tail ++ fmt.framing.frames (session.entries.take k)) = none) (order : Iteration) :
    ∃ later, session.runSynced fmt world = .ok () later ∧
      ∃ lost kept, session.entries = lost ++ kept ∧ (session.entries ≠ [] → lost ≠ []) ∧
        Delivers fmt order later.dir
          (entriesBelow fmt (segmentsOf world.dir) last ++ old ++ kept) := by
  have found : findLatestSegment session.order world.dir = last := by
    apply Nat.le_antisymm _ (le_findLatestSegment session.order tidy present)
    rcases findLatestSegment_present session.order tidy with inside | ⟨zero, _⟩
    · exact latest _ inside
    · omega
  obtain ⟨wal, opened, run, calm⟩ := openLog_ok session.order session.config world healthy
  obtain ⟨layout, segments⟩ := openLog_layout session.order session.config world tidy run
  rw [found] at layout
  have torn : Torn fmt ⟨wal, opened⟩ last (entriesBelow fmt (segmentsOf world.dir) last) old tail
      [] := by
    refine ⟨layout, fun id beyond => ?_, by rw [segments], ?_⟩
    · rw [segments]
      apply segmentsOf_absent
      intro inside
      have bounded := latest id inside
      omega
    · rw [segments, bytes, Framing.frames_nil, List.append_nil]
  obtain ⟨s, appended, still, outcome⟩ :=
    appendAll_torn sound session.entries [] each (fun k => by simpa using rejected k)
      ⟨wal, opened⟩ torn calm
  have whole : fmt.framing.next (tail ++ fmt.framing.frames session.entries) = none := by
    simpa using rejected session.entries.length
  have finish (t : WalState) (synced : sync s = .ok () t) :
      session.runSynced fmt world = .ok () { t.world with dir := t.close } := by
    have chain : (do appendAll fmt session.entries; sync : WalM Unit) ⟨wal, opened⟩ =
        .ok () t := by
      change EStateM.bind (appendAll fmt session.entries) (fun _ => sync) ⟨wal, opened⟩ = _
      rw [EStateM.bind, appended]
      exact synced
    rw [Session.runSynced, run]
    simp only [chain]
  rcases outcome with torn' | ⟨lost, kept, split, some, holds⟩
  · obtain ⟨t, synced, grew⟩ := sync_ok torn'.layout.opened still
    refine ⟨_, finish t synced, session.entries, [], (List.append_nil _).symm, id, ?_⟩
    rw [List.append_nil]
    rcases torn'.grew [] grew rfl sound (by simpa using whole) with final | moved
    · exact final.delivers order sound (by simpa using whole)
    · exact moved.clean.delivers order
  · obtain ⟨w, layout', _⟩ := id holds
    obtain ⟨t, synced, grew⟩ := sync_ok layout'.opened still
    exact ⟨_, finish t synced, lost, kept, split, fun _ => some,
      (holds.idle grew).clean.delivers order⟩

end Run

/-- Entries written behind the torn end of a log are all delivered exactly when
there are none. Of the checksum this asks only that the torn bytes do not combine
with the frames behind them into one that is accepted. -/
theorem torn_resume (fmt : Format) (inverse : fmt.RoundTrips) (session : Session)
    (fits : ∀ entry ∈ session.entries, fmt.Fits entry) (world : World) (healthy : world.Healthy)
    (tidy : Tidy world.dir) (last : Nat) (present : segmentName last ∈ world.dir)
    (latest : ∀ id, segmentName id ∈ world.dir → id ≤ last) (old : List WalEntry)
    (oldFits : ∀ entry ∈ old, fmt.Fits entry) (tail : Bytes)
    (invalid : fmt.framing.next tail = none)
    (bytes : segmentsOf world.dir last = fmt.framing.frames old ++ tail)
    (detected : fmt.framing.Incomplete tail →
      ∀ k, fmt.framing.next (tail ++ fmt.framing.frames (session.entries.take k)) = none)
    (order : Iteration) :
    ∃ later, session.runSynced fmt world = .ok () later ∧
      (Delivers fmt order later.dir
        (entriesBelow fmt (segmentsOf world.dir) last ++ old ++ session.entries) ↔
        session.entries = []) := by
  have rejected (k : Nat) :
      fmt.framing.next (tail ++ fmt.framing.frames (session.entries.take k)) = none := by
    by_cases incomplete : fmt.framing.Incomplete tail
    · exact detected incomplete k
    · exact fmt.framing.next_append_none _ invalid incomplete
  obtain ⟨later, run, lost, kept, split, some, delivers⟩ :=
    session.runSynced_torn world healthy tidy present latest
      (fun entry member => inverse.sound (oldFits entry member))
      (fun entry member => inverse.sound (fits entry member)) bytes rejected order
  refine ⟨later, run, fun all => ?_, fun none => ?_⟩
  · by_contra nonempty
    have same := congrArg List.length (delivers.unique all)
    have positive := List.length_pos_of_ne_nil (some nonempty)
    rw [split] at same
    simp only [List.length_append] at same
    omega
  · rw [none] at split ⊢
    obtain ⟨_, rfl⟩ := List.append_eq_nil_iff.mp split.symm
    exact delivers

/-- One whole frame, and the first byte of the next. -/
def tornLog : World :=
  ⟨(∅ : Dir).insert (segmentName 0)
    ⟨Bincode.format.framing.frame (.checkpoint 1) ++ [12], []⟩, [], []⟩

def tornSession : Session := ⟨.stored, ⟨"wal", 64 * 1024 * 1024, .everyWrite⟩, [.checkpoint 2]⟩

theorem torn_resume_checkpoint :
    ∃ later, tornSession.runSynced Bincode.format tornLog = .ok () later ∧
      (Delivers Bincode.format .stored later.dir
        (entriesBelow Bincode.format (segmentsOf tornLog.dir) 0 ++ [.checkpoint 1] ++
          tornSession.entries) ↔ tornSession.entries = []) := by
  refine torn_resume Bincode.format Bincode.format_roundTrips tornSession ?_ tornLog ?_
    (tidy_empty.insert 0 _) 0 (by decide +kernel) ?_ [.checkpoint 1] ?_ [12] (by decide +kernel)
    (by decide +kernel) ?_ .stored
  · simp only [tornSession, List.mem_singleton, forall_eq]
    unfold Format.Fits
    decide +kernel
  · intro v member
    cases member
  · intro id present
    rcases Std.ExtTreeMap.mem_insert.mp present with same | old
    · exact Nat.le_of_eq ((segmentName_inj _ _).mp (Std.LawfulEqCmp.eq_of_compare same)).symm
    · exact (Std.ExtTreeMap.not_mem_empty old).elim
  · simp only [List.mem_singleton, forall_eq]
    unfold Format.Fits
    decide +kernel
  · intro _ k
    cases k with
    | zero => decide +kernel
    | succ k =>
        rw [tornSession, List.take_succ_cons, List.take_nil]
        decide +kernel

/-- The entry appended and synced behind the torn byte is not delivered. -/
theorem torn_resume_loses :
    segmentsOf tornLog.dir 0 = Bincode.format.framing.frames [.checkpoint 1] ++ [12] ∧
      Bincode.format.framing.next [12] = none ∧
      ∃ later, tornSession.runSynced Bincode.format tornLog = .ok () later ∧
        ¬ Delivers Bincode.format .stored later.dir [.checkpoint 1, .checkpoint 2] := by
  refine ⟨by decide +kernel, by decide +kernel, ?_⟩
  have lost : (match tornSession.runSynced Bincode.format tornLog with
      | .ok _ later => decide (delivered Bincode.format .stored later.dir =
          .ok ([.checkpoint 1], 1))
      | .error _ _ => false) = true := by
    decide +kernel
  cases run : tornSession.runSynced Bincode.format tornLog with
  | ok value later =>
      rw [run] at lost
      refine ⟨later, rfl, fun all => ?_⟩
      have both := all.delivered.symm.trans (of_decide_eq_true lost)
      simp at both
  | error abort later =>
      rw [run] at lost
      contradiction

end Perfdb.Wal
