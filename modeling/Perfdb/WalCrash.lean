import Mathlib
import Perfdb.WalSession

set_option autoImplicit false

namespace Perfdb

/-- What a crash can leave of a directory: of each file the synced bytes and some
of those behind them. A file without synced bytes may be missing. -/
structure Dir.CrashImage (dir image : Dir) : Prop where
  member : ∀ name ∈ image, name ∈ dir
  durable : ∀ name, dir.durable name <+: image.contents name
  contents : ∀ name, image.contents name <+: dir.contents name

theorem Dir.crashImage_self (dir : Dir) : dir.CrashImage dir where
  member _ := id
  durable name := by
    rw [Dir.durable, Dir.contents]
    cases dir[name]? with
    | none => exact List.prefix_refl _
    | some file => exact List.prefix_append _ _
  contents _ := List.prefix_refl _

namespace Wal

inductive Call where
  | append (entry : WalEntry)
  | sync

/-- How far a session got: the entries whose append returned, the one whose append
did not, and the state it stopped in. -/
structure Progress where
  acked : List WalEntry
  pending : Option WalEntry
  state : WalState

/-- Makes the calls up to the first that does not return. -/
def runCalls (fmt : Format) : List Call → WalState → Progress
  | [], s => ⟨[], none, s⟩
  | .append entry :: calls, s =>
      match append fmt entry s with
      | .ok _ t => let rest := runCalls fmt calls t; { rest with acked := entry :: rest.acked }
      | .error _ t => ⟨[], some entry, t⟩
  | .sync :: calls, s =>
      match sync s with
      | .ok _ t => runCalls fmt calls t
      | .error _ t => ⟨[], none, t⟩

section Image

variable {fmt : Format} {s t : WalState} {entries : List WalEntry} {last : Nat} {image : Dir}

/-- A crash keeps all of a synced log, and some of the bytes added since. -/
theorem image_segments {written : Bytes} (layout : Layout s last) (synced : s.Synced)
    (grew : s.Grew t written) (crash : t.world.dir.CrashImage image) :
    ∃ kept, kept <+: written ∧
      ∀ id, segmentsOf image id = s.segments id ++ if id = last then kept else [] := by
  have lower (id : Nat) : s.segments id <+: segmentsOf image id := by
    rw [WalState.segments, ← synced id]
    exact (grew.durable _).trans (crash.durable _)
  have upper (id : Nat) :
      segmentsOf image id <+: s.segments id ++ if id = last then written else [] := by
    rw [← grew.segments layout.file]
    exact (crash.contents _).trans (List.prefix_append _ _)
  obtain ⟨kept, extended⟩ := lower last
  refine ⟨kept, ?_, fun id => ?_⟩
  · have bounded := upper last
    rw [← extended, if_pos rfl, List.prefix_append_right_inj] at bounded
    exact bounded
  · by_cases same : id = last
    · rw [same, if_pos rfl, extended]
    · have bounded := upper id
      rw [if_neg same, List.append_nil] at bounded
      rw [if_neg same, List.append_nil]
      exact bounded.eq_of_length_le (lower id).length_le

theorem image_tidy {data : Bytes} (grew : s.Grew t data) (layout : Layout s last)
    (crash : t.world.dir.CrashImage image) : Tidy image := by
  obtain ⟨_, _, later⟩ := grew.layout layout
  exact fun name member => later.tidy name (crash.member name member)

/-- After a crash that cost no bytes of the log, replay delivers the log. -/
theorem delivers_of_idle (holds : s.Holds fmt entries) (synced : s.Synced) (grew : s.Grew t [])
    (crash : t.world.dir.CrashImage image) (order : Iteration) :
    Delivers fmt order image entries := by
  obtain ⟨last, layout, whole⟩ := holds
  obtain ⟨kept, none, segments⟩ := image_segments layout synced grew crash
  have same (id : Nat) : segmentsOf image id = s.segments id := by
    rw [segments, List.eq_nil_of_prefix_nil none, ite_self, List.append_nil]
  exact (whole.congr same).delivers (image_tidy grew layout crash) order

/-- After a crash inside an append, replay delivers the log, with the entry in
flight or without it. -/
theorem delivers_of_append (holds : s.Holds fmt entries) (synced : s.Synced) {entry : WalEntry}
    (sound : fmt.framing.Sound entry) {written : Bytes}
    (part : written <+: fmt.framing.frame entry) (grew : s.Grew t written)
    (crash : t.world.dir.CrashImage image) (order : Iteration) :
    Delivers fmt order image entries ∨ Delivers fmt order image (entries ++ [entry]) := by
  obtain ⟨last, layout, whole⟩ := holds
  obtain ⟨kept, inside, segments⟩ := image_segments layout synced grew crash
  have tidy := image_tidy grew layout crash
  have cut := inside.trans part
  by_cases full : kept = fmt.framing.frame entry
  · exact Or.inr ((whole.push sound (full ▸ segments)).delivers tidy order)
  · left
    obtain ⟨behind, back, each, bytes, split⟩ := whole
    have shorter : kept.length < (fmt.framing.frame entry).length :=
      Nat.lt_of_le_of_ne cut.length_le fun same => full (cut.eq_of_length same)
    let bound := max last (findLatestSegment order image) + 1
    have below (id : Nat) (present : segmentName id ∈ image) : id < bound := by
      have listed := le_findLatestSegment order tidy present
      omega
    have empty (id : Nat) (beyond : last + 1 ≤ id) : segmentsOf image id = [] := by
      rw [segments, behind id (by omega), if_neg (by omega), List.append_nil]
    have front : entriesBelow fmt (segmentsOf image) last =
        entriesBelow fmt s.segments last := by
      apply entriesBelow_congr
      intro id under
      rw [segments, if_neg (by omega), List.append_nil]
    have scanned := replay_delivers fmt order tidy bound below
    rwa [entriesBelow_of_empty (show last + 1 ≤ _ by omega) empty, entriesBelow_succ, front,
      segments, if_pos rfl, bytes, List.prefix_iff_eq_take.mp cut,
      fmt.framing.scan_frames_take back entry _ each sound.2 shorter, split] at scanned

end Image

section Open

variable {fmt : Format} {s : WalState} {entries : List WalEntry} {world later : World}
  {wal : WalWriter} {order : Iteration} {config : WalConfig}

theorem openLog_synced (tidy : Tidy world.dir)
    (durable : ∀ id, world.dir.durable (segmentName id) = segmentsOf world.dir id)
    (opened : WalWriter.openLog order config world = .ok wal later) :
    WalState.Synced ⟨wal, later⟩ := by
  obtain ⟨_, _, _, dir, _⟩ := (openLog_triple order config world).ok rfl opened
  intro id
  have same := congrFun (openLog_layout order config world tidy opened).2 id
  rw [WalState.segments] at same
  rw [same, ← durable id, dir, Dir.durable_create]

theorem openLog_delivers_of_idle (holds : s.Holds fmt entries) (synced : s.Synced)
    (crash : s.world.dir.CrashImage world.dir)
    (opened : WalWriter.openLog order config world = .ok wal later) (listing : Iteration) :
    Delivers fmt listing later.dir entries := by
  obtain ⟨last, layout, whole⟩ := holds
  have idle := (WalState.Wrote.refl s).grew layout.opened
  obtain ⟨kept, none, segments⟩ := image_segments layout synced idle crash
  obtain ⟨reopened, view⟩ := openLog_layout order config world (image_tidy idle layout crash) opened
  obtain ⟨_, _, writer, _, _⟩ := (openLog_triple order config world).ok rfl opened
  refine (whole.congr fun id => ?_).delivers reopened.tidy listing
  have bytes : segmentsOf later.dir id = WalState.segments ⟨wal, later⟩ id := by
    rw [WalState.segments, Handle.view, WalState.handle_world, WalState.handle_writer, writer,
      ite_self, List.append_nil, segmentsOf]
  rw [bytes, view, segments, List.eq_nil_of_prefix_nil none, ite_self, List.append_nil]

end Open

section Run

variable {fmt : Format} {old : List WalEntry}

/-- Every call that returns leaves the log whole and synced; the one that does not
costs at most its own entry. -/
theorem runCalls_delivers (calls : List Call)
    (sound : ∀ entry, Call.append entry ∈ calls → fmt.framing.Sound entry) (s : WalState)
    (policy : s.wal.config.syncPolicy = .everyWrite) (holds : s.Holds fmt old)
    (synced : s.Synced) (image : Dir)
    (crash : (runCalls fmt calls s).state.world.dir.CrashImage image) (order : Iteration) :
    Delivers fmt order image (old ++ (runCalls fmt calls s).acked) ∨
      ∃ entry, (runCalls fmt calls s).pending = some entry ∧
        Delivers fmt order image (old ++ (runCalls fmt calls s).acked ++ [entry]) := by
  induction calls generalizing s old with
  | nil =>
      obtain ⟨last, layout, _⟩ := id holds
      left
      simp only [runCalls, List.append_nil] at crash ⊢
      exact delivers_of_idle holds synced ((WalState.Wrote.refl s).grew layout.opened) crash order
  | cons call calls ih =>
      obtain ⟨last, layout, _⟩ := id holds
      have later (entry : WalEntry) (member : Call.append entry ∈ calls) :
          fmt.framing.Sound entry := sound entry (List.mem_cons_of_mem call member)
      cases call with
      | append entry =>
          have each := sound entry List.mem_cons_self
          simp only [runCalls] at crash ⊢
          cases run : append fmt entry s with
          | ok value t =>
              obtain ⟨grew, durable⟩ := (append_triple s layout.opened fmt entry).ok rfl run
              simp only [run] at crash ⊢
              have rest := ih later t (grew.config ▸ policy) (holds.push each grew)
                (durable policy synced) crash
              simpa only [List.append_assoc, List.singleton_append] using rest
          | error abort t =>
              obtain ⟨written, part, grew, _⟩ :=
                (append_triple s layout.opened fmt entry).error rfl run
              simp only [run, List.append_nil] at crash ⊢
              rcases delivers_of_append holds synced each part grew crash order with same | more
              · exact Or.inl same
              · exact Or.inr ⟨entry, rfl, more⟩
      | sync =>
          simp only [runCalls] at crash ⊢
          cases run : sync s with
          | ok value t =>
              obtain ⟨wrote, clear, written⟩ := (sync_triple s layout.opened).ok rfl run
              simp only [run] at crash ⊢
              exact ih later t (wrote.config ▸ policy) (holds.idle (wrote.grew layout.opened))
                (wrote.synced synced written clear) crash
          | error abort t =>
              have wrote := ((sync_triple s layout.opened).error rfl run).1
              simp only [run, List.append_nil] at crash ⊢
              exact Or.inl (delivers_of_idle holds synced (wrote.grew layout.opened) crash order)

end Run

/-- With a sync after every write, a crash at any point of a session costs no entry
whose append had returned, and lets through at most the one in flight. -/
theorem everyWrite_crash (fmt : Format) (inverse : fmt.RoundTrips) (order : Iteration)
    (config : WalConfig) (policy : config.syncPolicy = .everyWrite) (world : World)
    (old : List WalEntry) (clean : Clean fmt world.dir old)
    (durable : ∀ id, world.dir.durable (segmentName id) = segmentsOf world.dir id)
    (wal : WalWriter) (opened : World)
    (run : WalWriter.openLog order config world = .ok wal opened) (calls : List Call)
    (fits : ∀ entry, Call.append entry ∈ calls → fmt.Fits entry) (image : Dir)
    (crash : (runCalls fmt calls ⟨wal, opened⟩).state.world.dir.CrashImage image)
    (listing : Iteration) :
    Delivers fmt listing image (old ++ (runCalls fmt calls ⟨wal, opened⟩).acked) ∨
      ∃ entry, (runCalls fmt calls ⟨wal, opened⟩).pending = some entry ∧
        Delivers fmt listing image
          (old ++ (runCalls fmt calls ⟨wal, opened⟩).acked ++ [entry]) := by
  obtain ⟨settings, _⟩ := (openLog_triple order config world).ok rfl run
  exact runCalls_delivers calls (fun entry member => inverse.sound (fits entry member))
    ⟨wal, opened⟩ (settings ▸ policy) (clean.open_holds order config world run)
    (openLog_synced clean.1 durable run) image crash listing

/-- The first entry is synced; the process dies seven bytes into the second one. -/
def crashingWorld : World := ⟨∅, [.ok, .ok, .ok, .crash 7], []⟩

def crashingConfig : WalConfig := ⟨"wal", 64 * 1024 * 1024, .everyWrite⟩

def crashingCalls : List Call := [.append (.checkpoint 1), .append (.checkpoint 2)]

theorem everyWrite_crash_checkpoint :
    ∃ wal opened, WalWriter.openLog .stored crashingConfig crashingWorld = .ok wal opened ∧
      (runCalls Bincode.format crashingCalls ⟨wal, opened⟩).acked = [.checkpoint 1] ∧
      (Delivers Bincode.format .stored
          (runCalls Bincode.format crashingCalls ⟨wal, opened⟩).state.world.dir
          ([] ++ (runCalls Bincode.format crashingCalls ⟨wal, opened⟩).acked) ∨
        ∃ entry, (runCalls Bincode.format crashingCalls ⟨wal, opened⟩).pending = some entry ∧
          Delivers Bincode.format .stored
            (runCalls Bincode.format crashingCalls ⟨wal, opened⟩).state.world.dir
            ([] ++ (runCalls Bincode.format crashingCalls ⟨wal, opened⟩).acked ++ [entry])) := by
  have acked : (match WalWriter.openLog .stored crashingConfig crashingWorld with
      | .ok wal opened =>
          decide ((runCalls Bincode.format crashingCalls ⟨wal, opened⟩).acked = [.checkpoint 1])
      | .error _ _ => false) = true := by
    decide +kernel
  cases run : WalWriter.openLog .stored crashingConfig crashingWorld with
  | ok wal opened =>
      rw [run] at acked
      refine ⟨wal, opened, rfl, of_decide_eq_true acked, ?_⟩
      refine everyWrite_crash Bincode.format Bincode.format_roundTrips .stored crashingConfig rfl
        crashingWorld [] (clean_of_fresh ?_) ?_ wal opened run crashingCalls ?_ _
        (Dir.crashImage_self _) .stored
      · intro name member
        exact (Std.ExtTreeMap.not_mem_empty member).elim
      · intro id
        rfl
      · simp only [crashingCalls, List.mem_cons, List.not_mem_nil, or_false, Call.append.injEq]
        rintro entry (rfl | rfl) <;> unfold Format.Fits <;> decide +kernel
  | error abort later =>
      rw [run] at acked
      contradiction

end Wal

end Perfdb
