import Mathlib
import Perfdb.MmapAtomic

set_option autoImplicit false

namespace Perfdb.Mmap

/-- An array of files, `none` where a file has not been opened, and all files. -/
structure FileArray (n : Nat) where
  slots : Vector (Option MmapFile) n
  files : Files

abbrev ArrayM (n : Nat) := EStateM Fault (FileArray n)

namespace FileArray

variable {n : Nat}

def slot (s : FileArray n) (idx : Nat) : Option MmapFile := s.slots[idx]?.getD none

def put (s : FileArray n) (idx : Nat) (file : MmapFile) (files : Files) : FileArray n :=
  ⟨s.slots.setIfInBounds idx (some file), files⟩

def openExisting : List (Nat × String) → Vector (Option MmapFile) n →
    FilesM (Vector (Option MmapFile) n)
  | [], slots => pure slots
  | (idx, path) :: rest, slots => do
      let files ← get
      if (files.contents path).isSome then do
        let file ← MmapFile.open_ path false
        openExisting rest (slots.setIfInBounds idx (some file))
      else openExisting rest slots

/-- A file is opened if it has not been. -/
def ensure (idx : Nat) (path : String) : ArrayM n MmapFile := fun s =>
  match s.slot idx with
  | some file => .ok file s
  | none =>
      match MmapFile.open_ path true s.files with
      | .ok file files => .ok file (s.put idx file files)
      | .error fault files => .error fault { s with files := files }

def onFile {β : Type} (idx : Nat) (file : MmapFile) (program : MmapM β) : ArrayM n β := fun s =>
  match program ⟨file, s.files⟩ with
  | .ok value t => .ok value (s.put idx t.file t.files)
  | .error fault t => .error fault (s.put idx t.file t.files)

/-- Zero-copy slice of the records in a file. -/
def records {α : Type} (overflow : Overflow) (pod : Pod α) (idx : Nat) (s : FileArray n) :
    Except Fault (List α) :=
  match s.slot idx with
  | some file => Opened.asSlice overflow pod ⟨file, s.files⟩
  | none => .ok []

def recordCount {α : Type} (pod : Pod α) (idx : Nat) (s : FileArray n) : Nat :=
  match s.slot idx with
  | some file => Opened.recordCount pod ⟨file, s.files⟩
  | none => 0

section Slots

variable (s : FileArray n) {idx other : Nat} (file : MmapFile) (files : Files)

@[simp] theorem slot_replicate (idx : Nat) :
    slot ⟨Vector.replicate n none, files⟩ idx = none := by
  simp only [slot, Vector.getElem?_replicate]
  split <;> rfl

theorem slot_put (inside : idx < n) : (s.put idx file files).slot idx = some file := by
  simp only [slot, put, Vector.getElem?_setIfInBounds_self, inside, ↓reduceIte, Option.getD_some]

theorem slot_put_of_ne (different : other ≠ idx) :
    (s.put idx file files).slot other = s.slot other := by
  simp only [slot, put, Vector.getElem?_setIfInBounds_ne (Ne.symm different)]

theorem slot_outside (outside : n ≤ idx) : s.slot idx = none := by
  rw [slot, Vector.getElem?_eq_none outside]
  rfl

end Slots

/-- The array holds these lists of records: an open file does, and one that is not open keeps
them, or has none when it is not pending. -/
structure Loaded {α : Type} (pod : Pod α) (path : Nat → String) (lists : Nat → List α)
    (pending : List Nat) (s : FileArray n) : Prop where
  opened : ∀ idx < n, ∀ file, s.slot idx = some file →
    Opened.Keeping pod (path idx) (lists idx) ⟨file, s.files⟩
  kept : ∀ idx < n, s.slot idx = none → s.files.Keeps (path idx) (pod.layOut (lists idx))
  rest : ∀ idx < n, idx ∉ pending → s.slot idx = none → lists idx = []

end FileArray

section Frame

variable {α : Type} {pod : Pod α} {path : String} {records : List α} {payload : Bytes}
  {before after : Files}

theorem Opened.Keeping.congr {file : MmapFile}
    (keeping : Opened.Keeping pod path records ⟨file, before⟩)
    (same : after.contents path = before.contents path) :
    Opened.Keeping pod path records ⟨file, after⟩ := by
  obtain ⟨⟨⟨rest, ⟨contents, size⟩, mapped, within⟩, logicalLen, inside⟩, rfl⟩ := keeping
  exact ⟨⟨⟨rest, ⟨same.trans contents, size⟩, mapped, within⟩, logicalLen, inside⟩, rfl⟩

theorem Files.Keeps.congr (keeps : before.Keeps path payload)
    (same : after.contents path = before.contents path) : after.Keeps path payload := by
  rcases keeps with ⟨rest, contents, size⟩ | blank
  · exact Or.inl ⟨rest, same.trans contents, size⟩
  · exact Or.inr (same.symm ▸ blank)

end Frame

/-- How opening a store stops; it never panics. -/
def OpenFails : Fault → Files → Prop
  | .error reason, _ => ∃ context, reason = .io context
  | .crash, _ => True
  | .panic, _ => False

namespace FileArray

section Load

variable {n : Nat} {α : Type} {pod : Pod α} {path : Nat → String} {lists : Nat → List α}
  {pending : List Nat} {s : FileArray n} {idx : Nat} {file : MmapFile} {files : Files}
  {records : List α}

/-- A file that is set holds what it has been given, and the others what they held. -/
theorem Loaded.put (apart : path.Injective) (loaded : Loaded pod path lists (idx :: pending) s)
    (inside : idx < n)
    (held : Opened.At (path idx) s.files.contents (pod.layOut records) ⟨file, files⟩) :
    Loaded pod path (Function.update lists idx records) pending (s.put idx file files) := by
  have same (other : Nat) (different : other ≠ idx) :
      files.contents (path other) = s.files.contents (path other) :=
    held.apart _ (mt (@apart _ _) different)
  refine ⟨fun other below found stored => ?_, fun other below missing => ?_,
    fun other below outside missing => ?_⟩
  · by_cases equal : other = idx
    · subst equal
      rw [slot_put _ _ _ inside] at stored
      obtain rfl := Option.some.inj stored
      rw [Function.update_self]
      exact held.keeping
    · rw [slot_put_of_ne _ _ _ equal] at stored
      rw [Function.update_of_ne equal]
      exact (loaded.opened other below found stored).congr (same other equal)
  · by_cases equal : other = idx
    · subst equal
      rw [slot_put _ _ _ inside] at missing
      contradiction
    · rw [slot_put_of_ne _ _ _ equal] at missing
      rw [Function.update_of_ne equal]
      exact (loaded.kept other below missing).congr (same other equal)
  · by_cases equal : other = idx
    · subst equal
      rw [slot_put _ _ _ inside] at missing
      contradiction
    · rw [slot_put_of_ne _ _ _ equal] at missing
      rw [Function.update_of_ne equal]
      exact loaded.rest other below (by simp [equal, outside]) missing

theorem Loaded.keeps (loaded : Loaded pod path lists pending s) (inside : idx < n) :
    s.files.Keeps (path idx) (pod.layOut (lists idx)) := by
  cases stored : s.slot idx with
  | none => exact loaded.kept idx inside stored
  | some file =>
      obtain ⟨holds, named⟩ := loaded.opened idx inside file stored
      exact Or.inl (named ▸ holds.stands)

theorem Loaded.more (loaded : Loaded pod path lists [] s) (pending : List Nat) :
    Loaded pod path lists pending s :=
  ⟨loaded.opened, loaded.kept, fun idx inside _ => loaded.rest idx inside List.not_mem_nil⟩

/-- Setting a file to what it held changes no list. -/
theorem Loaded.reset (apart : path.Injective) (loaded : Loaded pod path lists (idx :: pending) s)
    (inside : idx < n)
    (held : Opened.At (path idx) s.files.contents (pod.layOut (lists idx)) ⟨file, files⟩) :
    Loaded pod path lists pending (s.put idx file files) := by
  have put := loaded.put apart inside held
  rwa [Function.update_eq_self] at put

/-- A file that is still not open keeps what it had. -/
theorem Loaded.unopened (apart : path.Injective) (loaded : Loaded pod path lists [] s)
    (missing : s.slot idx = none)
    (kept : files.KeepsAt (path idx) s.files.contents (pod.layOut (lists idx))) :
    Loaded pod path lists [] { s with files := files } := by
  have same (other : Nat) (different : other ≠ idx) :
      files.contents (path other) = s.files.contents (path other) :=
    kept.apart _ (mt (@apart _ _) different)
  refine ⟨fun other below found stored => ?_, fun other below absent => ?_, loaded.rest⟩
  · have different : other ≠ idx := by
      rintro rfl
      have both := missing.symm.trans stored
      contradiction
    exact (loaded.opened other below found stored).congr (same other different)
  · by_cases equal : other = idx
    · exact equal ▸ kept.keeps
    · exact (loaded.kept other below absent).congr (same other equal)

theorem Loaded.pass (loaded : Loaded pod path lists (idx :: pending) s)
    (absent : s.files.contents (path idx) = none) : Loaded pod path lists pending s := by
  refine ⟨loaded.opened, loaded.kept, fun other below outside missing => ?_⟩
  by_cases equal : other = idx
  · subst equal
    rcases loaded.kept other below missing with ⟨rest, contents, _⟩ | ⟨none, _⟩
    · rw [absent] at contents
      contradiction
    · have length := pod.layOut_length (lists other)
      rw [none, List.length_nil] at length
      exact List.length_eq_zero_iff.mp
        ((Nat.mul_eq_zero.mp length.symm).resolve_right (Nat.ne_of_gt pod.positive))
  · exact loaded.rest other below (by simp [equal, outside]) missing

/-- Records are read back from an array that holds them. -/
theorem Loaded.read (loaded : Loaded pod path lists [] s) (overflow : Overflow)
    (inside : idx < n) :
    s.records overflow pod idx = .ok (lists idx) ∧
      s.recordCount pod idx = (lists idx).length := by
  unfold records recordCount
  cases stored : s.slot idx with
  | none =>
      rw [loaded.rest _ inside List.not_mem_nil stored]
      exact ⟨rfl, rfl⟩
  | some file =>
      have keeping := loaded.opened _ inside file stored
      exact ⟨keeping.1.asSlice, keeping.1.recordCount⟩

theorem openExisting_triple (apart : path.Injective) {entries : List (Nat × String)}
    (inside : ∀ entry ∈ entries, entry.1 < n ∧ entry.2 = path entry.1)
    (slots : Vector (Option MmapFile) n) :
    Triple (fun files => Loaded pod path lists (entries.map Prod.fst) ⟨slots, files⟩)
      (openExisting entries slots) (fun slots files => Loaded pod path lists [] ⟨slots, files⟩)
      OpenFails := by
  induction entries generalizing slots with
  | nil => exact Triple.ret fun files loaded => loaded
  | cons entry entries ih =>
      obtain ⟨idx, name⟩ := entry
      obtain ⟨below, named⟩ := inside _ List.mem_cons_self
      obtain rfl : name = path idx := named
      have further := ih fun other member => inside other (List.mem_cons_of_mem _ member)
      refine get_bind fun files loaded => Triple.ite (fun present => ?_) fun absent => ?_
      · refine Triple.bind (fun file later => Loaded pod path lists (entries.map Prod.fst)
          (put ⟨slots, files⟩ idx file later)) ?_ fun file => further _
        rintro files rfl
        have result := open_triple false files ⟨loaded.keeps below, fun _ _ => rfl⟩
        cases run : MmapFile.open_ (path idx) false files with
        | ok file later =>
            rw [run] at result
            exact loaded.reset apart below result
        | error fault later =>
            rw [run] at result
            cases fault with
            | error reason => exact result.1
            | panic => exact result
            | crash => trivial
      · rintro files rfl
        exact further slots files (loaded.pass (Option.not_isSome_iff_eq_none.mp absent))

/-- Files that keep records are found again when all of them are looked for. -/
theorem openAll_triple (apart : path.Injective) {entries : List (Nat × String)}
    (inside : ∀ entry ∈ entries, entry.1 < n ∧ entry.2 = path entry.1)
    (all : ∀ idx < n, idx ∈ entries.map Prod.fst) :
    Triple (fun files => ∀ idx < n, files.Keeps (path idx) (pod.layOut (lists idx)))
      (openExisting entries (Vector.replicate n none))
      (fun slots files => Loaded pod path lists [] ⟨slots, files⟩) OpenFails := by
  refine Triple.consequence (openExisting_triple apart inside _) (fun files keeps => ⟨?_, ?_, ?_⟩)
    (fun _ _ loaded => loaded) fun _ _ exit => exit
  · intro idx below file stored
    rw [slot_replicate] at stored
    contradiction
  · exact fun idx below _ => keeps idx below
  · exact fun idx below outside => absurd (all idx below) outside

/-- How a change of the records in one file stops. -/
def Exit (pod : Pod α) (path : Nat → String) (lists : Nat → List α) : Fault → FileArray n → Prop
  | .error reason, s => (∃ context, reason = .io context) ∧ Loaded pod path lists [] s
  | .crash, _ => True
  | .panic, _ => False

theorem ensure_triple (apart : path.Injective) (inside : idx < n) :
    Triple (Loaded pod path lists [] : FileArray n → Prop) (ensure idx (path idx))
      (fun file s => Loaded pod path lists [] s ∧ s.slot idx = some file)
      (Exit pod path lists) := by
  intro s loaded
  unfold ensure
  cases stored : s.slot idx with
  | some file => exact ⟨loaded, stored⟩
  | none =>
      have result := open_triple true s.files ⟨loaded.keeps inside, fun _ _ => rfl⟩
      simp only
      cases run : MmapFile.open_ (path idx) true s.files with
      | ok file later =>
          rw [run] at result
          exact ⟨(loaded.more [idx]).reset apart inside result, slot_put _ _ _ inside⟩
      | error fault later =>
          rw [run] at result
          cases fault with
          | error reason => exact ⟨result.1, loaded.unopened apart stored result.2⟩
          | panic => exact result
          | crash => trivial

end Load

end FileArray

/-- How a change of an open file stops that either is made or leaves the file as it was. -/
def ChangeExit (path : String) (before : Contents) (payload : Bytes) : Fault → Opened → Prop
  | .error reason, s => (∃ context, reason = .io context) ∧ s.At path before payload
  | .crash, _ => True
  | .panic, _ => False

/-- A call on an open file leaves that file where the call leaves it. -/
theorem FileArray.onFile_put {n : Nat} {β : Type} {idx : Nat} {file : MmapFile}
    {program : MmapM β} {pre : Opened → Prop} {post : β → Opened → Prop}
    {exit : Fault → Opened → Prop} (inner : Triple pre program post exit) {s : FileArray n}
    (start : pre ⟨file, s.files⟩) :
    Triple (· = s) (onFile idx file program)
      (fun value t => ∃ u, post value u ∧ t = s.put idx u.file u.files)
      (fun fault t => ∃ u, exit fault u ∧ t = s.put idx u.file u.files) := by
  rintro t rfl
  have result := inner _ start
  unfold onFile
  cases run : program ⟨file, t.files⟩ with
  | ok value u =>
      rw [run] at result
      exact ⟨u, result, rfl⟩
  | error fault u =>
      rw [run] at result
      exact ⟨u, result, rfl⟩

/-- A change of the records in an open file changes its list and no other. -/
theorem FileArray.onFile_triple {n : Nat} {α β : Type} {pod : Pod α} {path : Nat → String}
    (apart : path.Injective) {lists : Nat → List α} {idx : Nat} (inside : idx < n)
    {file : MmapFile} {program : MmapM β} {records : List α}
    (inner : ∀ before, Triple (Opened.At (path idx) before (pod.layOut (lists idx))) program
      (fun _ => Opened.At (path idx) before (pod.layOut records))
      (ChangeExit (path idx) before (pod.layOut (lists idx)))) :
    Triple (fun s : FileArray n => Loaded pod path lists [] s ∧ s.slot idx = some file)
      (onFile idx file program)
      (fun _ => Loaded pod path (Function.update lists idx records) []) (Exit pod path lists) := by
  refine Triple.of_start fun s ⟨loaded, stored⟩ => ?_
  obtain ⟨holds, named⟩ := loaded.opened _ inside file stored
  refine Triple.consequence (onFile_put (inner _) ⟨holds, named, fun _ _ => rfl⟩)
    (fun _ same => same) ?_ ?_
  · rintro value _ ⟨u, held, rfl⟩
    exact (loaded.more [idx]).put apart inside held
  · rintro fault _ ⟨u, exit, rfl⟩
    cases fault with
    | error reason => exact ⟨exit.1, (loaded.more [idx]).reset apart inside exit.2⟩
    | panic => exact exit
    | crash => trivial

section Calm

variable {n : Nat} {α β : Type} {pod : Pod α} {path : Nat → String} {lists : Nat → List α}
  {idx : Nat}

theorem FileArray.openExisting_calm (entries : List (Nat × String))
    (slots : Vector (Option MmapFile) n) :
    Triple Files.Calm (openExisting entries slots) (fun _ => Files.Calm)
      (fun fault _ => fault = .panic) := by
  induction entries generalizing slots with
  | nil => exact Triple.ret fun files calm => calm
  | cons entry entries ih =>
      obtain ⟨idx, name⟩ := entry
      refine get_bind fun files calm => Triple.ite (fun present => ?_) fun absent => ?_
      · refine Triple.bind (fun _ => Files.Calm) ?_ fun file => ih _
        rintro files rfl
        exact open_calm false files ⟨calm, present⟩
      · rintro files rfl
        exact ih slots files calm

/-- On a calm disk the files that keep records are found again, and no call fails. -/
theorem FileArray.openAll_returns (apart : path.Injective) {entries : List (Nat × String)}
    (inside : ∀ entry ∈ entries, entry.1 < n ∧ entry.2 = path entry.1)
    (all : ∀ idx < n, idx ∈ entries.map Prod.fst) :
    Triple (fun files => (∀ idx < n, files.Keeps (path idx) (pod.layOut (lists idx))) ∧
        files.Calm)
      (openExisting entries (Vector.replicate n none))
      (fun slots files => Loaded pod path lists [] ⟨slots, files⟩ ∧ files.Calm)
      fun _ _ => False :=
  calm_returns (openAll_triple apart inside all) (openExisting_calm entries _)
    fun _ stopped => stopped

theorem FileArray.ensure_calm (name : String) :
    Triple (fun s : FileArray n => s.files.Calm) (ensure idx name) (fun _ s => s.files.Calm)
      (fun fault _ => fault = .panic) := by
  intro s calm
  have result := @open_calm name true s.files ⟨calm, rfl⟩
  unfold ensure
  cases stored : s.slot idx with
  | some file => exact calm
  | none =>
      simp only
      cases run : MmapFile.open_ name true s.files with
      | ok file later =>
          rw [run] at result
          exact result
      | error fault later =>
          rw [run] at result
          exact result

theorem FileArray.ensure_returns (apart : path.Injective) (inside : idx < n) :
    Triple (fun s : FileArray n => Loaded pod path lists [] s ∧ s.files.Calm)
      (ensure idx (path idx))
      (fun file s => (Loaded pod path lists [] s ∧ s.slot idx = some file) ∧ s.files.Calm)
      fun _ _ => False :=
  calm_returns (ensure_triple apart inside) (ensure_calm (path idx)) fun _ stopped => stopped

theorem FileArray.onFile_returns (apart : path.Injective) (inside : idx < n) {file : MmapFile}
    {program : MmapM β} {records : List α}
    (inner : ∀ before, Triple
      (fun s => s.At (path idx) before (pod.layOut (lists idx)) ∧ s.files.Calm) program
      (fun _ s => s.At (path idx) before (pod.layOut records) ∧ s.files.Calm) fun _ _ => False) :
    Triple (fun s : FileArray n =>
        (Loaded pod path lists [] s ∧ s.slot idx = some file) ∧ s.files.Calm)
      (onFile idx file program)
      (fun _ s => Loaded pod path (Function.update lists idx records) [] s ∧ s.files.Calm)
      fun _ _ => False := by
  refine Triple.of_start fun s ⟨⟨loaded, stored⟩, calm⟩ => ?_
  obtain ⟨holds, named⟩ := loaded.opened _ inside file stored
  refine Triple.consequence (onFile_put (inner _) ⟨⟨holds, named, fun _ _ => rfl⟩, calm⟩)
    (fun _ same => same) ?_ fun _ _ ⟨_, never, _⟩ => never
  rintro value _ ⟨u, ⟨held, calm⟩, rfl⟩
  exact ⟨(loaded.more [idx]).put apart inside held, calm⟩

end Calm

/-- An array without files is opened on a directory without files. -/
theorem FileArray.openExisting_none {n : Nat} (entries : List (Nat × String))
    (slots : Vector (Option MmapFile) n) {files : Files}
    (none : ∀ path, files.contents path = .none) :
    openExisting entries slots files = .ok slots files := by
  induction entries with
  | nil => rfl
  | cons entry entries ih =>
      obtain ⟨idx, path⟩ := entry
      change (if (files.contents path).isSome = true then _ else _ : FilesM _) files = _
      rw [none, if_neg (by simp)]
      exact ih

end Perfdb.Mmap
