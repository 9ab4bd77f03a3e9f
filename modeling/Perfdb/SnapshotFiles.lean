import Mathlib
import Perfdb.Snapshot

set_option autoImplicit false

namespace Perfdb.Snapshot

/-- The snapshot files of a directory, of which the one of the greatest block holds
`latest`. -/
structure Latest (fmt : Format) (dir : Dir) (latest : Option StateSnapshot) : Prop where
  tidy : ∀ name ∈ dir, ∀ block, blockOf name = some block → name = snapshotName block
  file : ∀ snap, latest = some snap → ∃ file,
    dir[snapshotName snap.checkpoint.lastBlock.toNat]? = some file ∧
      file.contents = fmt.serialize snap
  greatest : ∀ block : UInt64, snapshotName block.toNat ∈ dir →
    ∃ snap, latest = some snap ∧ block ≤ snap.checkpoint.lastBlock

@[simp] theorem snapshotName_inj (block other : Nat) :
    snapshotName block = snapshotName other ↔ block = other :=
  numberedName_inj _ _ _ _ _

theorem blockOf_snapshotName (block : UInt64) :
    blockOf (snapshotName block.toNat) = some block.toNat := by
  rw [blockOf, snapshotName, numberOf_numberedName, Option.filter_some,
    if_pos (decide_eq_true block.toNat_lt)]

/-- The number of a snapshot file is that of a block. -/
theorem blockOf_some {name : String} {number : Nat} (parsed : blockOf name = some number) :
    ∃ block : UInt64, number = block.toNat := by
  have small : number < 2 ^ 64 := of_decide_eq_true (Option.filter_eq_some_iff.mp parsed).2
  exact ⟨UInt64.ofNat number, (UInt64.toNat_ofNat_of_lt' small).symm⟩

theorem mem_listSnapshots (order : Iteration) (dir : Dir) (block : Nat) (name : String) :
    (block, name) ∈ listSnapshots order dir ↔
      name ∈ dir ∧ blockOf name = some block := by
  simp only [listSnapshots, List.mem_filterMap, Iteration.mem_arrange, Std.ExtTreeMap.mem_keys,
    Option.map_eq_some_iff, Prod.mk.injEq]
  constructor
  · rintro ⟨other, present, number, parsed, rfl, rfl⟩
    exact ⟨present, parsed⟩
  · rintro ⟨present, parsed⟩
    exact ⟨name, present, block, parsed, rfl, rfl⟩

def loadFile (fmt : Format) (file : File) : Except PerfDbError (Option StateSnapshot) :=
  ((fmt.deserialize file.contents).mapError (.serialization "snapshot deserialize")).map some

/-- Whatever the order of listing, the file of the greatest block is loaded. -/
theorem loadLatestSnapshot_chooses (fmt : Format) (order : Iteration) (path : String) (dir : Dir) :
    (loadLatestSnapshot fmt order path dir = .ok none ∧
      ∀ name ∈ dir, blockOf name = none) ∨
    ∃ name block file, dir[name]? = some file ∧ blockOf name = some block ∧
      (∀ other ∈ dir, ∀ number, blockOf other = some number → number ≤ block) ∧
      loadLatestSnapshot fmt order path dir = loadFile fmt file := by
  have listed (block : Nat) (name : String) :
      (block, name) ∈ (listSnapshots order dir).insertionSort (fun a b => b.1 ≤ a.1) ↔
        name ∈ dir ∧ blockOf name = some block := by
    rw [List.mem_insertionSort]
    exact mem_listSnapshots order dir block name
  have sorted : ((listSnapshots order dir).insertionSort (fun a b => b.1 ≤ a.1)).Pairwise
      (fun a b => b.1 ≤ a.1) :=
    List.pairwise_insertionSort _ _
  unfold loadLatestSnapshot
  cases found : (listSnapshots order dir).insertionSort (fun a b => b.1 ≤ a.1) with
  | nil =>
      rw [found] at listed
      refine Or.inl ⟨rfl, fun name present => ?_⟩
      rw [Option.eq_none_iff_forall_ne_some]
      intro block parsed
      cases (listed block name).mpr ⟨present, parsed⟩
  | cons head others =>
      rw [found] at listed sorted
      obtain ⟨block, name⟩ := head
      obtain ⟨present, parsed⟩ := (listed block name).mp List.mem_cons_self
      obtain ⟨file, held⟩ := Option.isSome_iff_exists.mp
        (Std.ExtTreeMap.mem_iff_isSome_getElem?.mp present)
      refine Or.inr ⟨name, block, file, held, parsed, fun other inside number numbered => ?_, ?_⟩
      · rcases List.mem_cons.mp ((listed number other).mpr ⟨inside, numbered⟩) with same | later
        · exact Nat.le_of_eq (congrArg Prod.fst same)
        · exact (List.pairwise_cons.mp sorted).1 _ later
      · simp only [held, loadFile]
        cases fmt.deserialize file.contents <;> rfl

theorem latest_of_fresh (fmt : Format) {dir : Dir}
    (fresh : ∀ name ∈ dir, blockOf name = none) : Latest fmt dir none := by
  refine ⟨fun name present block parsed => ?_, fun snap some => by contradiction,
    fun block present => ?_⟩
  · rw [fresh name present] at parsed
    contradiction
  · have unparsed := fresh _ present
    rw [blockOf_snapshotName] at unparsed
    contradiction

namespace Latest

variable {fmt : Format} {dir : Dir} {latest : Option StateSnapshot}

/-- A snapshot of a block that is not older becomes the latest. -/
theorem write (current : Latest fmt dir latest) (snap : StateSnapshot)
    (newer : ∀ old, latest = some old → old.checkpoint.lastBlock ≤ snap.checkpoint.lastBlock) :
    Latest fmt (dir.insert (snapshotName snap.checkpoint.lastBlock.toNat)
      ⟨[], fmt.serialize snap⟩) (some snap) := by
  refine ⟨fun name present block parsed => ?_, ?_, fun block present => ⟨snap, rfl, ?_⟩⟩
  · rcases Std.ExtTreeMap.mem_insert.mp present with new | old
    · obtain rfl := (Table.compare_eq_iff _ _).mp new
      rw [blockOf_snapshotName] at parsed
      rw [Option.some.inj parsed]
    · exact current.tidy name old block parsed
  · rintro other same
    obtain rfl := Option.some.inj same
    exact ⟨_, by rw [Table.getElem?_insert, if_pos rfl], rfl⟩
  · rcases Std.ExtTreeMap.mem_insert.mp present with new | old
    · have same := (snapshotName_inj _ _).mp ((Table.compare_eq_iff _ _).mp new)
      exact UInt64.le_iff_toNat_le.mpr (Nat.le_of_eq same.symm)
    · obtain ⟨before, was, below⟩ := current.greatest block old
      exact UInt64.le_trans below (newer before was)

/-- It is the one that is loaded, whatever the order of listing. -/
theorem load (current : Latest fmt dir latest)
    (readable : ∀ snap, latest = some snap → fmt.deserialize (fmt.serialize snap) = .ok snap)
    (order : Iteration) (path : String) : loadLatestSnapshot fmt order path dir = .ok latest := by
  rcases loadLatestSnapshot_chooses fmt order path dir with
    ⟨loaded, unnumbered⟩ | ⟨name, block, file, held, parsed, greatest, loaded⟩
  · cases latest with
    | none => exact loaded
    | some snap =>
        obtain ⟨file, held, _⟩ := current.file snap rfl
        have present : snapshotName snap.checkpoint.lastBlock.toNat ∈ dir :=
          Std.ExtTreeMap.mem_iff_isSome_getElem?.mpr (by rw [held]; rfl)
        have unparsed := unnumbered _ present
        rw [blockOf_snapshotName] at unparsed
        contradiction
  · have present : name ∈ dir := Std.ExtTreeMap.mem_iff_isSome_getElem?.mpr (by rw [held]; rfl)
    obtain rfl := current.tidy name present block parsed
    obtain ⟨block, rfl⟩ := blockOf_some parsed
    obtain ⟨snap, rfl, below⟩ := current.greatest block present
    obtain ⟨own, stored, bytes⟩ := current.file snap rfl
    have above : snap.checkpoint.lastBlock.toNat ≤ block.toNat :=
      greatest _ (Std.ExtTreeMap.mem_iff_isSome_getElem?.mpr (by rw [stored]; rfl)) _
        (blockOf_snapshotName _)
    obtain rfl : block = snap.checkpoint.lastBlock :=
      UInt64.toNat_inj.mp (Nat.le_antisymm (UInt64.le_iff_toNat_le.mp below) above)
    obtain rfl := Option.some.inj (held.symm.trans stored)
    rw [loaded, loadFile, bytes, readable snap rfl]
    rfl

end Latest

end Perfdb.Snapshot
