import Mathlib
import Perfdb.Opening
import Perfdb.SnapshotInterrupted

set_option autoImplicit false

namespace Perfdb

/-- `fs::remove_file`. A crash comes before the file is gone, or after. -/
def removeFile (reason : PerfDbError) (name : String) :
    EStateM (Abort PerfDbError) World Unit := fun world =>
  let removed := { world.served with dir := world.dir.erase name }
  match world.verdict with
  | .ok => if name ∈ world.dir then .ok () removed else .error (.error reason) world.served
  | .fail _ => .error (.error reason) world.served
  | .crash done => .error .crash (if done = 0 then world.served else removed)

namespace Snapshot

/-- Load a specific snapshot by block number. Returns `none` if not found. -/
def loadSnapshot (fmt : Format) (dir : Dir) (block : UInt64) :
    Except PerfDbError (Option StateSnapshot) :=
  match dir[snapshotName block.toNat]? with
  | none => .ok none
  | some file =>
      match fmt.deserialize file.contents with
      | .error detail => .error (.serialization "snapshot deserialize" detail)
      | .ok snapshot => .ok (some snapshot)

/-- The files of some snapshots, those of blocks before `keepFromBlock`, are removed in turn. -/
def removeBefore (path : String) (keepFromBlock : UInt64) :
    List (Nat × String) → Nat → EStateM (Abort PerfDbError) World Nat
  | [], removed => pure removed
  | (block, name) :: snapshots, removed =>
      if block < keepFromBlock.toNat then do
        removeFile (.io ("remove snapshot: " ++ path ++ "/" ++ name)) name
        removeBefore path keepFromBlock snapshots (removed + 1)
      else removeBefore path keepFromBlock snapshots removed

/-- Remove all snapshots older than `keepFromBlock`. -/
def cleanupSnapshots (order : Iteration) (path : String) (keepFromBlock : UInt64) :
    EStateM (Abort PerfDbError) World Nat := fun world =>
  removeBefore path keepFromBlock (listSnapshots order world.dir) 0 world

section Kept

variable {keep : UInt64}

/-- A snapshot of a block before `keepFromBlock`. -/
def Old (keep : UInt64) (name : String) : Prop :=
  ∃ block, blockOf name = some block ∧ block < keep.toNat

/-- Nothing but old snapshots has gone. -/
structure Kept (keep : UInt64) (before after : Dir) : Prop where
  stays : ∀ name : String, ¬ Old keep name → after[name]? = before[name]?
  within : ∀ name : String, after[name]? = before[name]? ∨ after[name]? = none

theorem Kept.refl (dir : Dir) : Kept keep dir dir := ⟨fun _ _ => rfl, fun _ => Or.inl rfl⟩

theorem Kept.trans {first second third : Dir} (one : Kept keep first second)
    (other : Kept keep second third) : Kept keep first third := by
  refine ⟨fun name young => (other.stays name young).trans (one.stays name young),
    fun name => ?_⟩
  rcases other.within name with same | gone
  · rw [same]
    exact one.within name
  · exact Or.inr gone

theorem Kept.erase (dir : Dir) {name : String} (old : Old keep name) :
    Kept keep dir (dir.erase name) := by
  have erased (other : String) : (dir.erase name)[other]? =
      if name = other then none else dir[other]? := by
    rw [Std.ExtTreeMap.getElem?_erase]
    simp only [Table.compare_eq_iff]
  refine ⟨fun other young => ?_, fun other => ?_⟩
  · rw [erased, if_neg]
    rintro rfl
    exact young old
  · rw [erased]
    by_cases same : name = other
    · exact Or.inr (if_pos same)
    · exact Or.inl (if_neg same)

/-- However the removal of an old snapshot ends, nothing else has gone. -/
theorem removeFile_keeps {reason : PerfDbError} {name : String} (world : World)
    (old : Old keep name) :
    Kept keep world.dir (stateOf (removeFile reason name world)).dir := by
  unfold removeFile
  cases world.verdict with
  | ok =>
      by_cases present : name ∈ world.dir
      · simp only [present, if_true]
        exact .erase world.dir old
      · simp only [present, if_false]
        exact .refl world.dir
  | fail => exact .refl world.dir
  | crash done =>
      by_cases none : done = 0
      · simp only [none, if_true]
        exact .refl world.dir
      · simp only [none, if_false]
        exact .erase world.dir old

theorem removeFile_ok {reason : PerfDbError} {name : String} {world later : World}
    (run : removeFile reason name world = .ok () later) : later.dir[name]? = none := by
  unfold removeFile at run
  cases verdict : world.verdict with
  | ok =>
      rw [verdict] at run
      by_cases present : name ∈ world.dir
      · simp only [present, if_true] at run
        obtain ⟨_, rfl⟩ := EStateM.Result.ok.inj run
        exact Std.ExtTreeMap.getElem?_erase_self
      · simp only [present, if_false] at run
        cases run
  | fail =>
      rw [verdict] at run
      cases run
  | crash =>
      rw [verdict] at run
      cases run

/-- However the removals end, nothing but old snapshots has gone. -/
theorem removeBefore_keeps (path : String) (snapshots : List (Nat × String)) (removed : Nat)
    (world : World)
    (listed : ∀ snapshot ∈ snapshots, blockOf snapshot.2 = some snapshot.1) :
    Kept keep world.dir (stateOf (removeBefore path keep snapshots removed world)).dir := by
  induction snapshots generalizing removed world with
  | nil => exact .refl world.dir
  | cons snapshot snapshots ih =>
      obtain ⟨block, name⟩ := snapshot
      have later := fun other member => listed other (List.mem_cons_of_mem _ member)
      rw [removeBefore]
      by_cases below : block < keep.toNat
      · rw [if_pos below]
        have old : Old keep name := ⟨block, listed _ List.mem_cons_self, below⟩
        have first : Kept keep world.dir (stateOf (removeFile
            (.io ("remove snapshot: " ++ path ++ "/" ++ name)) name world)).dir :=
          removeFile_keeps world old
        cases run : removeFile (.io ("remove snapshot: " ++ path ++ "/" ++ name)) name world with
        | ok _ next =>
            rw [run] at first
            rw [bind_of_ok run]
            exact first.trans (ih (removed + 1) next later)
        | error abort next =>
            rw [run] at first
            rw [bind_of_error run]
            exact first
      · rw [if_neg below]
        exact ih removed world later

theorem removeBefore_removes {path : String} {snapshots : List (Nat × String)}
    {removed total : Nat} {world later : World}
    (listed : ∀ snapshot ∈ snapshots, blockOf snapshot.2 = some snapshot.1)
    (run : removeBefore path keep snapshots removed world = .ok total later) :
    ∀ snapshot ∈ snapshots, snapshot.1 < keep.toNat → later.dir[snapshot.2]? = none := by
  induction snapshots generalizing removed world with
  | nil => exact fun _ member => by cases member
  | cons snapshot snapshots ih =>
      obtain ⟨block, name⟩ := snapshot
      have others := fun other member => listed other (List.mem_cons_of_mem _ member)
      rw [removeBefore] at run
      by_cases below : block < keep.toNat
      · rw [if_pos below] at run
        obtain ⟨_, next, first, rest⟩ := bind_ok run
        have kept : Kept keep next.dir
            (stateOf (removeBefore path keep snapshots (removed + 1) next)).dir :=
          removeBefore_keeps path snapshots (removed + 1) next others
        rw [rest] at kept
        intro snapshot member old
        rcases List.mem_cons.mp member with rfl | member
        · rcases kept.within name with same | gone
          · exact same.trans (removeFile_ok first)
          · exact gone
        · exact ih others rest snapshot member old
      · rw [if_neg below] at run
        intro snapshot member old
        rcases List.mem_cons.mp member with rfl | member
        · exact absurd old below
        · exact ih others run snapshot member old

end Kept

section Cleanup

variable {order : Iteration} {path : String} {keep : UInt64} {world : World}

theorem listed_number (order : Iteration) (dir : Dir) (snapshot : Nat × String)
    (member : snapshot ∈ listSnapshots order dir) :
    blockOf snapshot.2 = some snapshot.1 :=
  ((mem_listSnapshots order dir snapshot.1 snapshot.2).mp member).2

theorem cleanupSnapshots_keeps :
    Kept keep world.dir (stateOf (cleanupSnapshots order path keep world)).dir :=
  removeBefore_keeps path _ 0 world (listed_number order world.dir)

theorem not_old_snapshotName {block : UInt64} (young : keep ≤ block) :
    ¬ Old keep (snapshotName block.toNat) := by
  rintro ⟨number, parsed, below⟩
  rw [blockOf_snapshotName] at parsed
  rw [← Option.some.inj parsed] at below
  exact Nat.not_le.mpr below (UInt64.le_iff_toNat_le.mp young)

theorem Kept.loadSnapshot {before after : Dir} (kept : Kept keep before after) (fmt : Format)
    {block : UInt64} (young : keep ≤ block) :
    loadSnapshot fmt after block = loadSnapshot fmt before block := by
  rw [Snapshot.loadSnapshot, Snapshot.loadSnapshot,
    kept.stays _ (not_old_snapshotName young)]

theorem Kept.loadLatest {before after : Dir} (kept : Kept keep before after) (fmt : Format)
    (listing : Iteration) (path : String)
    (tidy : ∀ name ∈ before, ∀ block, blockOf name = some block → name = snapshotName block)
    (young : ∃ block : UInt64, keep ≤ block ∧ snapshotName block.toNat ∈ before) :
    loadLatestSnapshot fmt listing path after = loadLatestSnapshot fmt listing path before := by
  obtain ⟨block, recent, present⟩ := young
  have still : snapshotName block.toNat ∈ after := by
    rw [Std.ExtTreeMap.mem_iff_isSome_getElem?, kept.stays _ (not_old_snapshotName recent)]
    exact Std.ExtTreeMap.mem_iff_isSome_getElem?.mp present
  have inside {name : String} {file : File} (held : after[name]? = some file) :
      before[name]? = some file := by
    rcases kept.within name with same | gone
    · rw [← same, held]
    · rw [gone] at held
      cases held
  have member {dir : Dir} {name : String} {file : File} (held : dir[name]? = some file) :
      name ∈ dir := Std.ExtTreeMap.mem_iff_isSome_getElem?.mpr (by rw [held]; rfl)
  rcases loadLatestSnapshot_chooses fmt listing path after with
    ⟨_, none⟩ | ⟨name, number, file, held, parsed, greatest, loaded⟩
  · have unparsed := none _ still
    rw [blockOf_snapshotName] at unparsed
    cases unparsed
  rcases loadLatestSnapshot_chooses fmt listing path before with
    ⟨_, none⟩ | ⟨other, top, old, was, number_of, highest, chosen⟩
  · have unparsed := none _ present
    rw [blockOf_snapshotName] at unparsed
    cases unparsed
  have is_name := tidy name (member (inside held)) number parsed
  have is_other := tidy other (member was) top number_of
  have above : block.toNat ≤ top := highest _ present _ (blockOf_snapshotName block)
  have stays : after[other]? = some old := by
    obtain ⟨top, rfl⟩ := blockOf_some number_of
    have young : keep ≤ top := UInt64.le_trans recent (UInt64.le_iff_toNat_le.mpr above)
    rw [is_other, kept.stays _ (not_old_snapshotName young), ← is_other, was]
  have up : top ≤ number := greatest other (member stays) top number_of
  have down : number ≤ top := highest name (member (inside held)) number parsed
  have same : name = other := by
    rw [is_name, is_other, Nat.le_antisymm down up]
  rw [same, stays] at held
  rw [loaded, chosen, Option.some.inj held]

end Cleanup

end Snapshot

/-- The directory of snapshots decides through the latest one only. -/
theorem PerfDb.open_congr_snapshots {fmts : Formats} {order : Iteration} {config : PerfDbConfig}
    {disk : Disk} {snapshots : World}
    (same : Snapshot.loadLatestSnapshot fmts.snapshot order config.snapshotsDir snapshots.dir =
      Snapshot.loadLatestSnapshot fmts.snapshot order config.snapshotsDir disk.snapshots.dir)
    {db : PerfDb} {left : Disk} (run : PerfDb.open_ fmts order config disk = .ok db left) :
    PerfDb.open_ fmts order config { disk with snapshots := snapshots } =
      .ok db { left with snapshots := snapshots } := by
  unfold PerfDb.open_ at run ⊢
  simp only [same]
  cases loaded : Snapshot.loadLatestSnapshot fmts.snapshot order config.snapshotsDir
      disk.snapshots.dir with
  | error reason =>
      rw [loaded] at run
      cases run
  | ok snap =>
      rw [loaded] at run
      simp only at run ⊢
      cases opened : Wal.WalWriter.openLog order config.wal disk.log with
      | error abort log =>
          rw [opened] at run
          cases run
      | ok wal log =>
          rw [opened] at run
          simp only at run ⊢
          split at run
          · cases run
          · obtain ⟨rfl, rfl⟩ := EStateM.Result.ok.inj run
            rfl

/-- However a cleanup ends, by returning, by an error or by a crash, whatever the order of
listing: the snapshots it should keep are loaded as before, those it should remove are gone where
it returned, and if one was to be kept, the database that is opened is the same. -/
theorem cleanup_keeps_recovery (fmts : Formats) (order listing : Iteration) (config : PerfDbConfig)
    (disk : Disk) (keep : UInt64)
    (tidy : ∀ name ∈ disk.snapshots.dir, ∀ block,
      Snapshot.blockOf name = some block → name = Snapshot.snapshotName block) :
    let exit := Snapshot.cleanupSnapshots listing config.snapshotsDir keep disk.snapshots
    (∀ block, keep ≤ block →
      Snapshot.loadSnapshot fmts.snapshot (stateOf exit).dir block =
        Snapshot.loadSnapshot fmts.snapshot disk.snapshots.dir block) ∧
    (∀ removed later, exit = .ok removed later → ∀ block < keep,
      Snapshot.loadSnapshot fmts.snapshot later.dir block = .ok none) ∧
    ((∃ block, keep ≤ block ∧ Snapshot.snapshotName block.toNat ∈ disk.snapshots.dir) →
      ∀ db left, PerfDb.open_ fmts order config disk = .ok db left →
        PerfDb.open_ fmts order config { disk with snapshots := stateOf exit } =
          .ok db { left with snapshots := stateOf exit }) := by
  intro exit
  have kept : Snapshot.Kept keep disk.snapshots.dir (stateOf exit).dir :=
    Snapshot.cleanupSnapshots_keeps
  refine ⟨fun block young => kept.loadSnapshot fmts.snapshot young, ?_, ?_⟩
  · intro removed later run block old
    have gone := Snapshot.removeBefore_removes
      (Snapshot.listed_number listing disk.snapshots.dir) run
    have left : Snapshot.Kept keep disk.snapshots.dir later.dir := by
      rw [run] at kept
      exact kept
    have none : later.dir[Snapshot.snapshotName block.toNat]? = none := by
      by_cases present : Snapshot.snapshotName block.toNat ∈ disk.snapshots.dir
      · exact gone (block.toNat, Snapshot.snapshotName block.toNat)
          ((Snapshot.mem_listSnapshots listing _ _ _).mpr
            ⟨present, Snapshot.blockOf_snapshotName _⟩) (UInt64.lt_iff_toNat_lt.mp old)
      · rcases left.within (Snapshot.snapshotName block.toNat) with same | absent
        · rw [same, Std.ExtTreeMap.getElem?_eq_none present]
        · exact absent
    rw [Snapshot.loadSnapshot, none]
  · rintro ⟨block, young, present⟩ db left run
    exact PerfDb.open_congr_snapshots (kept.loadLatest fmts.snapshot order config.snapshotsDir tidy
      ⟨block, young, present⟩) run

/-- Of the snapshots of the blocks 1 and 3 the first is removed. -/
theorem cleanup_keeps_recovery_two :
    let dir : Dir := ((∅ : Dir).insert (Snapshot.snapshotName 1) File.empty).insert
      (Snapshot.snapshotName 3) ⟨[], Bincode.snapshotFormat.serialize (Snapshot.emptyAt 3)⟩
    let disk : Disk := { Disk.fresh with snapshots := ⟨dir, [], []⟩ }
    let exit := Snapshot.cleanupSnapshots .stored "data/snapshots" 2 disk.snapshots
    (∀ block, 2 ≤ block →
      Snapshot.loadSnapshot Bincode.formats.snapshot (stateOf exit).dir block =
        Snapshot.loadSnapshot Bincode.formats.snapshot disk.snapshots.dir block) ∧
    (∀ removed later, exit = .ok removed later → ∀ block < 2,
      Snapshot.loadSnapshot Bincode.formats.snapshot later.dir block = .ok none) ∧
    ((∃ block : UInt64, 2 ≤ block ∧ Snapshot.snapshotName block.toNat ∈ disk.snapshots.dir) →
      ∀ db left, PerfDb.open_ Bincode.formats .stored ⟨"data", "wal", 1024, .none⟩ disk =
          .ok db left →
        PerfDb.open_ Bincode.formats .stored ⟨"data", "wal", 1024, .none⟩
            { disk with snapshots := stateOf exit } =
          .ok db { left with snapshots := stateOf exit }) := by
  intro dir disk exit
  apply cleanup_keeps_recovery Bincode.formats .stored .stored ⟨"data", "wal", 1024, .none⟩ disk 2
  intro name present block parsed
  have from_one (number : UInt64) (same : Snapshot.snapshotName number.toNat = name) :
      name = Snapshot.snapshotName block := by
    subst same
    rw [Snapshot.blockOf_snapshotName] at parsed
    rw [Option.some.inj parsed]
  rcases Std.ExtTreeMap.mem_insert.mp present with here | before
  · exact from_one 3 ((Table.compare_eq_iff _ _).mp here)
  · rcases Std.ExtTreeMap.mem_insert.mp before with here | none
    · exact from_one 1 ((Table.compare_eq_iff _ _).mp here)
    · exact absurd none Std.ExtTreeMap.not_mem_empty

end Perfdb
