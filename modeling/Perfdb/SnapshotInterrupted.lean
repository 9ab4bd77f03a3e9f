import Mathlib
import Perfdb.SnapshotBincode
import Perfdb.SnapshotFiles

set_option autoImplicit false

namespace Perfdb.Snapshot

/-- The file of a snapshot is there in full. -/
def Complete (fmt : Format) (dir : Dir) (snap : StateSnapshot) : Prop :=
  ∃ file, dir[snapshotName snap.checkpoint.lastBlock.toNat]? = some file ∧
    file.contents = fmt.serialize snap

/-- Every snapshot file of a directory is that of a snapshot. -/
def Valid (fmt : Format) (dir : Dir) : Prop :=
  ∀ name ∈ dir, ∀ block, blockOf name = some block →
    ∃ snap, block = snap.checkpoint.lastBlock.toNat ∧ name = snapshotName block ∧
      Complete fmt dir snap

/-- A call that a crash has cut off after a part of the file. -/
structure Interrupted (fmt : Format) (path : String) (snap : StateSnapshot) (world later : World)
    (part : Bytes) : Prop where
  crashed : writeSnapshot fmt path snap world = .error .crash later
  dir : later.dir = world.dir.insert (snapshotName snap.checkpoint.lastBlock.toNat) ⟨[], part⟩
  inside : part <+: fmt.serialize snap
  cut : part ≠ fmt.serialize snap

/-- `bincode` rejects every part of the encoding of a snapshot. -/
def Format.RejectsParts (fmt : Format) (snap : StateSnapshot) : Prop :=
  ∀ part, part <+: fmt.serialize snap → part ≠ fmt.serialize snap →
    ∃ detail, fmt.deserialize part = .error detail

/-- A crash can cut a call off after any part. -/
theorem interrupted_anywhere (fmt : Format) (path : String) (snap : StateSnapshot) (dir : Dir)
    {part : Bytes} (inside : part <+: fmt.serialize snap) (cut : part ≠ fmt.serialize snap) :
    ∃ world later, world.dir = dir ∧ Interrupted fmt path snap world later part := by
  let name := snapshotName snap.checkpoint.lastBlock.toNat
  let left : World := ⟨(dir.insert name ⟨[], []⟩).insert name ⟨[], part⟩, [], []⟩
  have taken : (fmt.serialize snap).take part.length = part :=
    (List.prefix_iff_eq_take.mp inside).symm
  have crashed : writeFile (PerfDbError.io ("write snapshot: " ++ (path ++ "/" ++ name))) name
      (fmt.serialize snap) ⟨dir, [.ok, .crash part.length], []⟩ = .error .crash left := by
    simp only [writeFile, World.verdict, World.served, List.headD_cons, List.tail_cons, taken]
    rfl
  refine ⟨⟨dir, [.ok, .crash part.length], []⟩, left, rfl, ?_, ?_, inside, cut⟩
  · simp only [writeSnapshot, bind, EStateM.bind, name, crashed]
  · apply Std.ExtTreeMap.ext_getElem?
    intro other
    simp only [left, Table.getElem?_insert]
    split <;> rfl

def LoadsComplete (fmt : Format) (before after : Dir) : Prop :=
  (∃ snap, Complete fmt before snap) → ∀ order path, ∃ snap,
    loadLatestSnapshot fmt order path after = .ok (some snap) ∧ Complete fmt after snap

section Interruption

variable {fmt : Format} {path : String} {snap : StateSnapshot} {world later : World} {part : Bytes}

theorem Complete.present {dir : Dir} (complete : Complete fmt dir snap) :
    snapshotName snap.checkpoint.lastBlock.toNat ∈ dir := by
  obtain ⟨file, held, _⟩ := complete
  exact Std.ExtTreeMap.mem_iff_isSome_getElem?.mpr (by rw [held]; rfl)

theorem Interrupted.getElem? (interrupted : Interrupted fmt path snap world later part)
    (name : String) :
    later.dir[name]? =
      if name = snapshotName snap.checkpoint.lastBlock.toNat then some ⟨[], part⟩
      else world.dir[name]? := by
  rw [interrupted.dir, Table.getElem?_insert]
  simp only [eq_comm]

/-- The part is loaded, or a snapshot of a greater block that was there before. -/
theorem Interrupted.loads (interrupted : Interrupted fmt path snap world later part)
    (valid : Valid fmt world.dir) (readable : fmt.RoundTrips) (order : Iteration)
    (directory : String) :
    ((∀ block : UInt64, snapshotName block.toNat ∈ world.dir →
        block ≤ snap.checkpoint.lastBlock) ∧
      loadLatestSnapshot fmt order directory later.dir = loadFile fmt ⟨[], part⟩) ∨
    ∃ other, snap.checkpoint.lastBlock.toNat < other.checkpoint.lastBlock.toNat ∧
      loadLatestSnapshot fmt order directory later.dir = .ok (some other) ∧
      Complete fmt world.dir other ∧ Complete fmt later.dir other := by
  have own : snapshotName snap.checkpoint.lastBlock.toNat ∈ later.dir :=
    Std.ExtTreeMap.mem_iff_isSome_getElem?.mpr (by rw [interrupted.getElem?, if_pos rfl]; rfl)
  rcases loadLatestSnapshot_chooses fmt order directory later.dir with
    ⟨_, unnumbered⟩ | ⟨name, block, file, held, parsed, greatest, loaded⟩
  · have unparsed := unnumbered _ own
    rw [blockOf_snapshotName] at unparsed
    contradiction
  · have above := greatest _ own _ (blockOf_snapshotName _)
    rw [interrupted.getElem?] at held
    by_cases same : name = snapshotName snap.checkpoint.lastBlock.toNat
    · rw [if_pos same] at held
      obtain rfl := Option.some.inj held
      rw [same, blockOf_snapshotName] at parsed
      refine Or.inl ⟨fun number present => ?_, loaded⟩
      have inside : snapshotName number.toNat ∈ later.dir := by
        rw [interrupted.dir]
        exact Std.ExtTreeMap.mem_insert.mpr (Or.inr present)
      have below := greatest _ inside _ (blockOf_snapshotName number)
      rw [← Option.some.inj parsed] at below
      exact UInt64.le_iff_toNat_le.mpr below
    · rw [if_neg same] at held
      have present : name ∈ world.dir :=
        Std.ExtTreeMap.mem_iff_isSome_getElem?.mpr (by rw [held]; rfl)
      obtain ⟨other, rfl, named, complete⟩ := valid name present block parsed
      rw [named] at held same
      obtain ⟨stored, own', bytes⟩ := complete
      obtain rfl := Option.some.inj (held.symm.trans own')
      have different := fun equal => same (congrArg snapshotName equal)
      refine Or.inr ⟨other, Nat.lt_of_le_of_ne above (Ne.symm different), ?_,
        ⟨file, own', bytes⟩, file, ?_, bytes⟩
      · rw [loaded, loadFile, bytes, readable other]
        rfl
      · rw [interrupted.getElem?, if_neg same, held]

/-- Where no later block is there, what was complete can no longer be loaded. -/
theorem Interrupted.blocks (interrupted : Interrupted fmt path snap world later part)
    (valid : Valid fmt world.dir) (readable : fmt.RoundTrips) (rejects : fmt.RejectsParts snap)
    (never : ∀ block : UInt64, snapshotName block.toNat ∈ world.dir →
      block ≤ snap.checkpoint.lastBlock)
    {saved : StateSnapshot} (complete : Complete fmt world.dir saved) :
    ¬ LoadsComplete fmt world.dir later.dir := by
  intro loads
  obtain ⟨detail, rejected⟩ := rejects part interrupted.inside interrupted.cut
  obtain ⟨loaded, run, _⟩ := loads ⟨saved, complete⟩ .stored ""
  rcases interrupted.loads valid readable .stored "" with ⟨_, failed⟩ | ⟨other, above, _, old, _⟩
  · rw [failed, loadFile, File.contents, List.nil_append, rejected] at run
    contradiction
  · exact absurd (UInt64.le_iff_toNat_le.mp (never _ old.present)) (Nat.not_le.mpr above)

/-- After an interruption there is a whole snapshot to load exactly when there is one of a
later block, or there was none at all. -/
theorem interrupted_loads_iff (fmt : Format) (readable : fmt.RoundTrips) (path : String)
    (snap : StateSnapshot) (rejects : fmt.RejectsParts snap) (world later : World)
    (valid : Valid fmt world.dir) (part : Bytes)
    (interrupted : Interrupted fmt path snap world later part) :
    LoadsComplete fmt world.dir later.dir ↔
      (∃ block : UInt64, snap.checkpoint.lastBlock < block ∧
          snapshotName block.toNat ∈ world.dir) ∨
        ∀ block : UInt64, snapshotName block.toNat ∉ world.dir := by
  constructor
  · intro loads
    by_contra neither
    obtain ⟨never, some⟩ := not_or.mp neither
    obtain ⟨block, present⟩ := not_forall_not.mp some
    obtain ⟨saved, _, _, complete⟩ := valid _ present _ (blockOf_snapshotName block)
    refine interrupted.blocks valid readable rejects (fun number inside => ?_) complete loads
    exact UInt64.not_lt.mp fun above => never ⟨number, above, inside⟩
  · rintro (⟨block, above, present⟩ | none) ⟨saved, complete⟩ order directory
    · rcases interrupted.loads valid readable order directory with
        ⟨below, _⟩ | ⟨other, _, run, _, kept⟩
      · exact absurd (below block present) (UInt64.not_le.mpr above)
      · exact ⟨other, run, kept⟩
    · exact absurd complete.present (none _)

end Interruption

def emptyAt (block : UInt64) : StateSnapshot := ⟨⟨block, "", 0⟩, [], [], [], [], [], [], [], 0⟩

theorem emptyAt_rejects (block : UInt64) : Bincode.snapshotFormat.RejectsParts (emptyAt block) := by
  have number (n : UInt64) : Bincode.u64.Rejects n := Codec.fixed_rejects _ _ _ _ n
  have none {α : Type} (codec : Codec α) : codec.list.Rejects [] :=
    Codec.Rejects.list (Nat.zero_lt_succ _) fun x member => by cases member
  have whole : Bincode.stateSnapshot.Rejects (emptyAt block) :=
    Codec.Rejects.via (.pair (.via (.pair (number block)
      (.pair (Codec.string_rejects (Nat.zero_lt_succ _)) (number 0))))
      (.pair (none _) (.pair (none _) (.pair (none _) (.pair (none _)
        (.pair (none _) (.pair (none _) (.pair (none _) (number 0)))))))))
  exact fun part inside cut => whole.read inside cut

def oneSnapshot (snap : StateSnapshot) : Dir :=
  (∅ : Dir).insert (snapshotName snap.checkpoint.lastBlock.toNat)
    ⟨[], Bincode.snapshotFormat.serialize snap⟩

theorem mem_oneSnapshot {snap : StateSnapshot} {name : String} (present : name ∈ oneSnapshot snap) :
    name = snapshotName snap.checkpoint.lastBlock.toNat := by
  rcases Std.ExtTreeMap.mem_insert.mp present with new | old
  · exact ((Table.compare_eq_iff _ _).mp new).symm
  · exact (Std.ExtTreeMap.not_mem_empty old).elim

theorem oneSnapshot_complete (snap : StateSnapshot) :
    Complete Bincode.snapshotFormat (oneSnapshot snap) snap :=
  ⟨_, by rw [oneSnapshot, Table.getElem?_insert, if_pos rfl], rfl⟩

theorem oneSnapshot_valid (snap : StateSnapshot) :
    Valid Bincode.snapshotFormat (oneSnapshot snap) := by
  intro name present block parsed
  obtain rfl := mem_oneSnapshot present
  rw [blockOf_snapshotName] at parsed
  obtain rfl := Option.some.inj parsed
  exact ⟨snap, rfl, rfl, oneSnapshot_complete snap⟩

theorem emptyAt_interrupted (block : UInt64) (dir : Dir) :
    ∃ world later, world.dir = dir ∧
      Interrupted Bincode.snapshotFormat "data/snapshots" (emptyAt block) world later [] := by
  refine interrupted_anywhere _ _ _ dir List.nil_prefix fun same => ?_
  have front := (List.append_eq_nil_iff.mp (List.append_eq_nil_iff.mp same.symm).1).1
  have long : (Bincode.u64.encode block).length = 8 := Bytes.le_length _ _
  rw [show Bincode.u64.encode block = [] from front] at long
  contradiction

/-- The snapshot of block 5 is interrupted; one of block 3 is there. -/
theorem interrupted_loads_iff_empty :
    ∃ world later, world.dir = oneSnapshot (emptyAt 3) ∧
      Interrupted Bincode.snapshotFormat "data/snapshots" (emptyAt 5) world later [] ∧
      (LoadsComplete Bincode.snapshotFormat world.dir later.dir ↔
        (∃ block : UInt64, 5 < block ∧ snapshotName block.toNat ∈ world.dir) ∨
          ∀ block : UInt64, snapshotName block.toNat ∉ world.dir) := by
  obtain ⟨world, later, dir, interrupted⟩ := emptyAt_interrupted 5 (oneSnapshot (emptyAt 3))
  exact ⟨world, later, dir, interrupted, interrupted_loads_iff Bincode.snapshotFormat
    Bincode.snapshotFormat_roundTrips "data/snapshots" (emptyAt 5) (emptyAt_rejects 5) world later
    (dir ▸ oneSnapshot_valid _) [] interrupted⟩

/-- The empty file of block 5 keeps the snapshot of block 3 from being loaded. -/
theorem empty_file_blocks_recovery :
    ∃ world later, world.dir = oneSnapshot (emptyAt 3) ∧
      Interrupted Bincode.snapshotFormat "data/snapshots" (emptyAt 5) world later [] ∧
      Valid Bincode.snapshotFormat world.dir ∧
      ¬ LoadsComplete Bincode.snapshotFormat world.dir later.dir := by
  obtain ⟨world, later, dir, interrupted⟩ := emptyAt_interrupted 5 (oneSnapshot (emptyAt 3))
  have valid := oneSnapshot_valid (emptyAt 3)
  have complete := oneSnapshot_complete (emptyAt 3)
  rw [← dir] at valid complete
  refine ⟨world, later, dir, interrupted, valid, interrupted.blocks valid
    Bincode.snapshotFormat_roundTrips (emptyAt_rejects 5) (fun block present => ?_) complete⟩
  rw [dir] at present
  have same := (snapshotName_inj _ _).mp (mem_oneSnapshot present)
  rw [UInt64.toNat_inj.mp same]
  decide

end Perfdb.Snapshot
