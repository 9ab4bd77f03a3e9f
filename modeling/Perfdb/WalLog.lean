import Mathlib
import Perfdb.WalAppend

set_option autoImplicit false

namespace Perfdb.Wal

/-- Segment `last` ends the log, with whole frames, and the log stands for `entries`. -/
def Whole (fmt : Format) (segments : Nat → Bytes) (last : Nat) (entries : List WalEntry) : Prop :=
  (∀ id, last < id → segments id = []) ∧
    ∃ back, (∀ entry ∈ back, fmt.framing.Sound entry) ∧
      segments last = fmt.framing.frames back ∧ entriesBelow fmt segments last ++ back = entries

/-- A directory no writer has left in the middle of a frame. -/
def Clean (fmt : Format) (dir : Dir) (entries : List WalEntry) : Prop :=
  Tidy dir ∧ ∃ last, (segmentName last ∈ dir ∨ ∀ id, segmentName id ∉ dir) ∧
    Whole fmt (segmentsOf dir) last entries

/-- The bytes of each segment once the writer has been dropped. -/
def WalState.segments (s : WalState) (id : Nat) : Bytes := s.handle.view (segmentName id)

/-- The writer is in segment `last`, and no number in use is beyond its current one. -/
structure Layout (s : WalState) (last : Nat) : Prop where
  tidy : Tidy s.world.dir
  opened : s.wal.writer.file ∈ s.world.dir
  file : s.wal.writer.file = segmentName last
  inside : last ≤ s.wal.currentSegment
  below : ∀ id, segmentName id ∈ s.world.dir → id ≤ s.wal.currentSegment

/-- The writer is between two frames of a log that stands for `entries`. -/
def WalState.Holds (fmt : Format) (s : WalState) (entries : List WalEntry) : Prop :=
  ∃ last, Layout s last ∧ Whole fmt s.segments last entries

@[simp] theorem segmentName_inj (id other : Nat) :
    segmentName id = segmentName other ↔ id = other :=
  numberedName_inj _ _ _ _ _

section Whole

variable {fmt : Format} {segments after : Nat → Bytes} {last : Nat} {entries : List WalEntry}

theorem Whole.entriesBelow (whole : Whole fmt segments last entries) {bound : Nat}
    (inside : last < bound) : entriesBelow fmt segments bound = entries := by
  obtain ⟨behind, back, sound, bytes, split⟩ := whole
  rw [entriesBelow_of_empty (show last + 1 ≤ _ by omega) fun id beyond => behind id (by omega),
    entriesBelow_succ, bytes, Framing.scan_frames_exact _ back sound, split]

/-- The log may as well be said to end in an empty segment behind it. -/
theorem Whole.advance (whole : Whole fmt segments last entries) {next : Nat} (ahead : last ≤ next) :
    Whole fmt segments next entries := by
  by_cases same : last = next
  · exact same ▸ whole
  · refine ⟨fun id beyond => whole.1 id (by omega), [], by simp, whole.1 next (by omega), ?_⟩
    rw [List.append_nil]
    exact whole.entriesBelow (by omega)

theorem Whole.push (whole : Whole fmt segments last entries) {entry : WalEntry}
    (sound : fmt.framing.Sound entry)
    (grew : ∀ id, after id = segments id ++ if id = last then fmt.framing.frame entry else []) :
    Whole fmt after last (entries ++ [entry]) := by
  obtain ⟨behind, back, each, bytes, split⟩ := whole
  refine ⟨fun id beyond => ?_, back ++ [entry], ?_, ?_, ?_⟩
  · rw [grew, behind id beyond, if_neg (by omega), List.append_nil]
  · intro other member
    rcases List.mem_append.mp member with old | new
    · exact each other old
    · rw [List.mem_singleton.mp new]
      exact sound
  · rw [grew, bytes, if_pos rfl, Framing.frames_append, Framing.frames_cons, Framing.frames_nil,
      List.append_nil]
  · rw [← split, ← List.append_assoc, entriesBelow_congr last fun id inside => ?_]
    rw [grew, if_neg (by omega), List.append_nil]

theorem Whole.congr (whole : Whole fmt segments last entries)
    (same : ∀ id, after id = segments id) : Whole fmt after last entries := by
  obtain rfl : after = segments := funext same
  exact whole

theorem whole_of_empty (last : Nat) (empty : ∀ id, segments id = []) :
    Whole fmt segments last [] :=
  ⟨fun id _ => empty id, [], by simp, empty last, by rw [entriesBelow_eq_nil last empty]; rfl⟩

end Whole

section Latest

variable {dir : Dir} (order : Iteration)

theorem le_findLatestSegment (tidy : Tidy dir) {id : Nat} (present : segmentName id ∈ dir) :
    id ≤ findLatestSegment order dir := by
  have listed := (mem_listSegments order tidy id).mpr present
  unfold findLatestSegment
  cases greatest : (listSegments order dir).max? with
  | none => simp [List.max?_eq_none_iff.mp greatest] at listed
  | some m => exact (List.max?_eq_some_iff.mp greatest).2 id listed

theorem findLatestSegment_present (tidy : Tidy dir) :
    segmentName (findLatestSegment order dir) ∈ dir ∨
      findLatestSegment order dir = 0 ∧ ∀ id, segmentName id ∉ dir := by
  unfold findLatestSegment
  cases greatest : (listSegments order dir).max? with
  | none =>
      refine Or.inr ⟨rfl, fun id present => ?_⟩
      have listed := (mem_listSegments order tidy id).mpr present
      simp [List.max?_eq_none_iff.mp greatest] at listed
  | some m =>
      exact Or.inl ((mem_listSegments order tidy m).mp (List.max?_eq_some_iff.mp greatest).1)

end Latest

section Clean

variable {fmt : Format} {dir : Dir} {entries : List WalEntry}

/-- A directory without segments is a log without entries. -/
theorem clean_of_fresh (fresh : ∀ name ∈ dir, numberOf "wal_" ".bin" name = none) :
    Clean fmt dir [] := by
  have absent (id : Nat) : segmentName id ∉ dir := by
    intro present
    have unnumbered := fresh _ present
    rw [segmentName, numberOf_numberedName] at unnumbered
    contradiction
  refine ⟨fun name present id parsed => ?_, 0, Or.inr absent,
    whole_of_empty 0 fun id => segmentsOf_absent (absent id)⟩
  rw [fresh name present] at parsed
  contradiction

/-- Replay delivers what the segments of a directory stand for. -/
theorem Whole.delivers {last : Nat} (whole : Whole fmt (segmentsOf dir) last entries)
    (tidy : Tidy dir) (order : Iteration) : Delivers fmt order dir entries := by
  let bound := max last (findLatestSegment order dir) + 1
  have below (id : Nat) (present : segmentName id ∈ dir) : id < bound := by
    have listed := le_findLatestSegment order tidy present
    omega
  have scanned := replay_delivers fmt order tidy bound below
  rwa [whole.entriesBelow (by omega)] at scanned

theorem Clean.delivers (clean : Clean fmt dir entries) (order : Iteration) :
    Delivers fmt order dir entries := by
  obtain ⟨tidy, _, _, whole⟩ := clean
  exact whole.delivers tidy order

/-- The segment a reopened log is continued in ends the log. -/
theorem Clean.latest (clean : Clean fmt dir entries) (order : Iteration) :
    Whole fmt (segmentsOf dir) (findLatestSegment order dir) entries := by
  obtain ⟨tidy, last, present, whole⟩ := clean
  rcases present with present | absent
  · exact whole.advance (le_findLatestSegment order tidy present)
  · have empty (id : Nat) : segmentsOf dir id = [] := segmentsOf_absent (absent id)
    have none : entries = [] :=
      (whole.entriesBelow (Nat.lt_succ_self last)).symm.trans (entriesBelow_eq_nil _ empty)
    rw [none]
    exact whole_of_empty _ empty

end Clean

namespace WalState

variable {fmt : Format} {s t : WalState} {entries : List WalEntry} {last : Nat} {data : Bytes}

theorem close_contents (s : WalState) (present : s.wal.writer.file ∈ s.world.dir) (name : String) :
    s.close.contents name = s.handle.view name := by
  rw [close, Handle.view, handle_world, handle_writer]
  by_cases same : name = s.wal.writer.file
  · obtain ⟨file, contents, _, pushed, _⟩ :=
      s.world.dir.change_self (File.push s.wal.writer.buffer) present
    rw [same, if_pos rfl, pushed, contents, File.contents_push]
  · rw [if_neg same, List.append_nil,
      Dir.contents_congr (s.world.dir.getElem?_change_of_ne _ same)]

theorem segmentsOf_close (s : WalState) (present : s.wal.writer.file ∈ s.world.dir) :
    segmentsOf s.close = s.segments :=
  funext fun id => s.close_contents present (segmentName id)

theorem tidy_close (tidy : Tidy s.world.dir) : Tidy s.close := by
  intro name present id parsed
  exact tidy name (s.world.dir.mem_change _ |>.mp present) id parsed

theorem Grew.segments (grew : s.Grew t data) (file : s.wal.writer.file = segmentName last)
    (id : Nat) : t.segments id = s.segments id ++ if id = last then data else [] := by
  rw [WalState.segments, grew.view, file]
  simp only [segmentName_inj, WalState.segments]

/-- The writer stays in its segment, or goes on to one behind it. -/
theorem Grew.layout (grew : s.Grew t data) (layout : Layout s last) :
    ∃ next, last ≤ next ∧ Layout t next := by
  have tidy : Tidy t.world.dir := by
    intro name member id parsed
    rcases grew.made name member with old | new
    · exact layout.tidy name old id parsed
    · subst new
      rw [segmentName, numberOf_numberedName] at parsed
      rw [Option.some.inj parsed]
  have inside := layout.inside
  have below (id : Nat) (present : segmentName id ∈ t.world.dir) : id ≤ t.wal.currentSegment := by
    rcases grew.made _ present with old | new
    · have bounded := layout.below id old
      have current := grew.currentSegment
      omega
    · exact Nat.le_of_eq ((segmentName_inj _ _).mp new)
  have current := grew.currentSegment
  rcases grew.file with same | moved
  · exact ⟨last, Nat.le_refl _, tidy, grew.opened, same.trans layout.file, by omega, below⟩
  · exact ⟨t.wal.currentSegment, by omega, tidy, grew.opened, moved, Nat.le_refl _, below⟩

/-- A call that adds the frame of an entry adds the entry. -/
theorem Holds.push (holds : s.Holds fmt entries) {entry : WalEntry}
    (sound : fmt.framing.Sound entry) (grew : s.Grew t (fmt.framing.frame entry)) :
    t.Holds fmt (entries ++ [entry]) := by
  obtain ⟨last, layout, whole⟩ := holds
  obtain ⟨next, ahead, later⟩ := grew.layout layout
  exact ⟨next, later, (whole.push sound (grew.segments layout.file)).advance ahead⟩

/-- A call that adds no bytes adds no entry. -/
theorem Holds.idle (holds : s.Holds fmt entries) (grew : s.Grew t []) :
    t.Holds fmt entries := by
  obtain ⟨last, layout, whole⟩ := holds
  obtain ⟨next, ahead, later⟩ := grew.layout layout
  refine ⟨next, later, (whole.congr fun id => ?_).advance ahead⟩
  rw [grew.segments layout.file, ite_self, List.append_nil]

theorem Holds.clean (holds : s.Holds fmt entries) : Clean fmt s.close entries := by
  obtain ⟨last, layout, whole⟩ := holds
  refine ⟨tidy_close layout.tidy, last, Or.inl ?_, ?_⟩
  · rw [close, Dir.mem_change, ← layout.file]
    exact layout.opened
  · rw [s.segmentsOf_close layout.opened]
    exact whole

end WalState

section Open

variable {fmt : Format} {dir : Dir} {entries : List WalEntry} {wal : WalWriter}
  (order : Iteration) (config : WalConfig) (world : World)

/-- Opening changes the bytes of no segment, and puts the writer at the end of the
latest one. -/
theorem openLog_triple :
    Triple (· = world) (WalWriter.openLog order config)
      (fun wal later => wal.config = config ∧
        wal.currentSegment = findLatestSegment order world.dir ∧
        wal.writer = ⟨segmentName (findLatestSegment order world.dir), []⟩ ∧
        later.dir = world.dir.create (segmentName (findLatestSegment order world.dir)) ∧
        later.verdicts <:+ world.verdicts)
      (fun abort _ => abort.Ordered world.verdicts) := by
  rintro world rfl
  unfold WalWriter.openLog
  simp only
  generalize findLatestSegment order world.dir = latest
  generalize "open WAL segment: " ++ segmentPath config.dir latest = context
  have result := openAppend_triple (PerfDbError.io context)
    ⟨⟨segmentName latest, []⟩, world⟩ (segmentName latest) _ rfl
  split at result
  · rename_i value h opened
    obtain ⟨writer, dir, verdicts⟩ := result
    simp only [opened]
    exact ⟨trivial, trivial, trivial, dir, verdicts⟩
  · rename_i abort h stopped
    obtain ⟨writer, dir, verdicts, raised⟩ := result
    simp only [stopped]
    exact ⟨_, raised⟩

theorem openLog_layout (tidy : Tidy world.dir) {later : World}
    (opened : WalWriter.openLog order config world = .ok wal later) :
    Layout ⟨wal, later⟩ (findLatestSegment order world.dir) ∧
      WalState.segments ⟨wal, later⟩ = segmentsOf world.dir := by
  obtain ⟨_, current, writer, dir, _⟩ := (openLog_triple order config world).ok rfl opened
  refine ⟨⟨fun name member id parsed => ?_, ?_, by rw [writer], Nat.le_of_eq current.symm,
    fun id present => ?_⟩, funext fun id => ?_⟩
  · rw [dir, Dir.mem_create] at member
    rcases member with new | old
    · subst new
      rw [segmentName, numberOf_numberedName] at parsed
      rw [Option.some.inj parsed]
    · exact tidy name old id parsed
  · rw [writer, dir, Dir.mem_create]
    exact Or.inl rfl
  · rw [dir, Dir.mem_create, segmentName_inj] at present
    rw [current]
    exact present.elim Nat.le_of_eq (le_findLatestSegment order tidy)
  · rw [WalState.segments, Handle.view, WalState.handle_world, WalState.handle_writer, dir,
      Dir.contents_create, writer, ite_self, List.append_nil, segmentsOf]

theorem Clean.open_holds (clean : Clean fmt world.dir entries) {later : World}
    (opened : WalWriter.openLog order config world = .ok wal later) :
    WalState.Holds fmt ⟨wal, later⟩ entries := by
  obtain ⟨layout, segments⟩ := openLog_layout order config world clean.1 opened
  exact ⟨_, layout, segments ▸ clean.latest order⟩

theorem Clean.open_clean (clean : Clean fmt world.dir entries) {later : World}
    (opened : WalWriter.openLog order config world = .ok wal later) :
    Clean fmt later.dir entries := by
  obtain ⟨_, _, writer, _, _⟩ := (openLog_triple order config world).ok rfl opened
  obtain ⟨last, layout, whole⟩ := clean.open_holds order config world opened
  refine ⟨layout.tidy, last, Or.inl ?_, whole.congr fun id => ?_⟩
  · rw [← layout.file]
    exact layout.opened
  · rw [WalState.segments, Handle.view, WalState.handle_world, WalState.handle_writer, writer,
      ite_self, List.append_nil, segmentsOf]

end Open

end Perfdb.Wal
