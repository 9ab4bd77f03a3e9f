import Mathlib
import Perfdb.FaultyFiles
import Perfdb.Types

set_option autoImplicit false

/-! Files that are mapped into memory: an eight-byte header with the length of the data, the
data, and allocated space behind it. What is written to the mapping is in the file at once. -/

namespace Perfdb.Mmap

/-- How a program stops: an error it returns, a panic, or the death of the process. -/
inductive Fault where
  | error (reason : PerfDbError)
  | panic
  | crash
  deriving DecidableEq

/-- Whether a sum that does not fit 64 bits panics or wraps around. -/
inductive Overflow where
  | checked
  | wrapping
  deriving DecidableEq

/-- `usize` and `u64` addition. -/
def Overflow.add (overflow : Overflow) (a b : Nat) : Except Fault Nat :=
  if a + b < 2 ^ 64 then .ok (a + b)
  else
    match overflow with
    | .checked => .error .panic
    | .wrapping => .ok (a + b - 2 ^ 64)

def saturatingMul (a b : Nat) : Nat := min (a * b) (2 ^ 64 - 1)

/-- The files by their paths. -/
abbrev Contents := String → Option Bytes

/-- The files, and the outcomes of the calls to come. -/
structure Files where
  contents : Contents
  verdicts : List Verdict

namespace Files

def verdict (files : Files) : Verdict := files.verdicts.headD .ok

def served (files : Files) : Files := { files with verdicts := files.verdicts.tail }

def bytes (files : Files) (path : String) : Bytes := (files.contents path).getD []

def write (files : Files) (path : String) (bytes : Bytes) : Files :=
  { files with contents := Function.update files.contents path (some bytes) }

end Files

abbrev FilesM := EStateM Fault Files

/-- A call that changes a file or fails; a crash comes before the change or after it. -/
def call (context : String) (possible : Files → Bool) (change : Files → Files) : FilesM Unit :=
  fun files =>
    match files.verdict with
    | .ok =>
        if possible files then .ok () (change files.served)
        else .error (.error (.io context)) files.served
    | .fail _ => .error (.error (.io context)) files.served
    | .crash done =>
        .error .crash (if done = 0 ∨ possible files = false then files.served
          else change files.served)

/-- A write to a mapping takes an outcome as well: it never fails, and the process may die
on either side of it. -/
def access (change : Files → Files) : FilesM Unit := fun files =>
  match files.verdict with
  | .ok | .fail _ => .ok () (change files.served)
  | .crash done => .error .crash (if done = 0 then files.served else change files.served)

/-- `OpenOptions::open`: a missing file is created or refused. -/
def openPath (path : String) (create : Bool) : FilesM Unit :=
  call ("open mmap file: " ++ path) (fun files => create || (files.contents path).isSome)
    fun files => files.write path (files.bytes path)

/-- `File::metadata`, for the length of the file. -/
def fileLen (path context : String) : FilesM Nat := do
  call context (fun _ => true) id
  let files ← get
  pure (files.bytes path).length

/-- A file cut off or filled up with zeros. -/
def resize (size : Nat) (bytes : Bytes) : Bytes :=
  bytes.take size ++ List.replicate (size - bytes.length) 0

/-- `File::set_len`. A length that is no `i64` is refused. -/
def setLen (path context : String) (size : Nat) : FilesM Unit :=
  call context (fun _ => decide (size < 2 ^ 63)) fun files =>
    files.write path (resize size (files.bytes path))

def initialFileSize : Nat := 4 * 1024 * 1024

def headerSize : Nat := 8

/-- A file that is open and mapped. `logicalLen` and `capacity` exclude the header. -/
structure MmapFile where
  path : String
  mapped : Nat
  logicalLen : Nat
  capacity : Nat
  deriving DecidableEq

/-- An open file and all files. -/
structure Opened where
  file : MmapFile
  files : Files

abbrev MmapM := EStateM Fault Opened

namespace Opened

def bytes (s : Opened) : Bytes := s.files.bytes s.file.path

def slice (start stop : Nat) (s : Opened) : Except Fault Bytes :=
  if start ≤ stop ∧ stop ≤ s.file.mapped then .ok ((s.bytes.take stop).drop start)
  else .error .panic

end Opened

def raise {σ α : Type} (result : Except Fault α) : EStateM Fault σ α := fun s =>
  match result with
  | .ok value => .ok value s
  | .error fault => .error fault s

def onFiles {α : Type} (program : FilesM α) : MmapM α := fun s =>
  match program s.files with
  | .ok value files => .ok value { s with files := files }
  | .error fault files => .error fault { s with files := files }

/-- Bytes in place of as many others. -/
def overwrite (start : Nat) (data bytes : Bytes) : Bytes :=
  bytes.take start ++ data ++ bytes.drop (start + data.length)

/-- `self.mmap[start..start + data.len()].copy_from_slice(data)`. -/
def copy (overflow : Overflow) (start : Nat) (data : Bytes) : MmapM Unit := do
  let stop ← raise (overflow.add start data.length)
  let s ← get
  if start ≤ stop ∧ stop ≤ s.file.mapped then
    onFiles (access fun files =>
      files.write s.file.path (overwrite start data (files.bytes s.file.path)))
  else raise (.error .panic)

namespace MmapFile

/-- A file without a header gets its first allocation. -/
def allocate (path : String) (length : Nat) : FilesM Unit :=
  if length = 0 then setLen path "initial file allocation" (headerSize + initialFileSize)
  else pure ()

/-- The logical length of a mapping of a file that had this length. -/
def readLength (length : Nat) (mapping : Opened) : Except Fault Nat :=
  if length = 0 then pure 0
  else do
    let header ← mapping.slice 0 headerSize
    pure (Bytes.ofLe header)

/-- Open or create a memory-mapped file. The logical length of a file that is not empty is
read from its header. -/
def open_ (path : String) (create : Bool) : FilesM MmapFile := do
  openPath path create
  let length ← fileLen path "file metadata"
  allocate path length
  let total ← fileLen path "file metadata after resize"
  call "mmap" (fun _ => true) id
  let files ← get
  let logicalLen ← raise (readLength length ⟨⟨path, total, 0, 0⟩, files⟩)
  pure ⟨path, total, logicalLen, total - headerSize⟩

/-- The loop of `grow`. `needed` is a `u64`, so the second comparison decides nothing. -/
def grownCapacity (capacity needed : Nat) : Nat :=
  if capacity < needed ∧ capacity < 2 ^ 64 - 1 then
    grownCapacity (max (saturatingMul capacity 2) initialFileSize) needed
  else capacity
termination_by needed - capacity
decreasing_by
  simp only [saturatingMul, initialFileSize]
  omega

/-- The file is flushed, set to a length and mapped anew. -/
def growTo (overflow : Overflow) (newCapacity : Nat) : MmapM Unit := do
  let newFileSize ← raise (overflow.add headerSize newCapacity)
  onFiles (call "flush before grow" (fun _ => true) id)
  let s ← get
  onFiles (setLen s.file.path ("grow file to " ++ toString newFileSize ++ " bytes") newFileSize)
  onFiles (call "remap after grow" (fun _ => true) id)
  modify fun s => { s with file := { s.file with mapped := newFileSize, capacity := newCapacity } }

/-- Grow the file using double-on-resize strategy. -/
def grow (overflow : Overflow) (needed : Nat) : MmapM Unit := fun s =>
  growTo overflow (grownCapacity s.file.capacity needed) s

def makeRoom (overflow : Overflow) (needed : Nat) : MmapM Unit := fun s =>
  if s.file.capacity < needed then grow overflow needed s else .ok () s

/-- The data is written behind what is there, and then the header. -/
def writeBehind (overflow : Overflow) (currentLen : Nat) (data : Bytes) : MmapM Nat := do
  let offset ← raise (overflow.add headerSize currentLen)
  copy overflow offset data
  let newLen ← raise (overflow.add currentLen data.length)
  copy overflow 0 (Bytes.le 8 newLen)
  modify fun s => { s with file := { s.file with logicalLen := newLen } }
  pure newLen

/-- Append raw bytes. Grows the file if necessary. Returns the new length. -/
def append (overflow : Overflow) (data : Bytes) : MmapM Nat := do
  let s ← get
  if data.length = 0 then pure s.file.logicalLen
  else do
    let needed ← raise (overflow.add s.file.logicalLen data.length)
    makeRoom overflow needed
    writeBehind overflow s.file.logicalLen data

end MmapFile

/-- Records of a fixed size, and their bytes in memory: at least one, and not more than a
type can have. Their alignment divides that of the data behind the header. -/
structure Pod (α : Type) where
  size : Nat
  positive : 0 < size
  bounded : size < 2 ^ 61
  bytesOf : α → Bytes
  fromBytes : Bytes → α
  bytesOf_length : ∀ record, (bytesOf record).length = size
  fromBytes_bytesOf : ∀ record, fromBytes (bytesOf record) = record

namespace Opened

variable {α : Type}

/-- Zero-copy read at a given offset within the logical data region. Returns `none` if the
range is out of bounds. -/
def readAt (overflow : Overflow) (offset len : Nat) (s : Opened) : Except Fault (Option Bytes) := do
  let stop ← overflow.add offset len
  if s.file.logicalLen < stop then pure none
  else do
    let start ← overflow.add headerSize offset
    let stop ← overflow.add start len
    let bytes ← s.slice start stop
    pure (some bytes)

/-- Zero-copy read of a typed record at a given offset. -/
def readRecord (overflow : Overflow) (pod : Pod α) (offset : Nat) (s : Opened) :
    Except Fault (Option α) := do
  let bytes ← s.readAt overflow offset pod.size
  pure (bytes.map pod.fromBytes)

/-- Number of fixed-size records that fit in the current data. -/
def recordCount (pod : Pod α) (s : Opened) : Nat := s.file.logicalLen / pod.size

/-- The calls of `RecordIter::next` up to the first that returns `None`, but no more than
`fuel`. -/
def iterFrom (overflow : Overflow) (pod : Pod α) (s : Opened) : Nat → Nat → Except Fault (List α)
  | 0, _ => pure []
  | fuel + 1, offset => do
      match ← s.readRecord overflow pod offset with
      | none => pure []
      | some record => do
          let offset ← overflow.add offset pod.size
          let records ← s.iterFrom overflow pod fuel offset
          pure (record :: records)

/-- Iterate all records of a fixed-size type. The mapping holds less of them than it holds
bytes. -/
def iterRecords (overflow : Overflow) (pod : Pod α) (s : Opened) : Except Fault (List α) :=
  s.iterFrom overflow pod (s.file.mapped + 1) 0

end Opened

/-- `bytemuck::cast_slice`, for `count` records. -/
def Pod.cast {α : Type} (pod : Pod α) : Nat → Bytes → List α
  | 0, _ => []
  | count + 1, bytes => pod.fromBytes (bytes.take pod.size) :: pod.cast count (bytes.drop pod.size)

/-- Zero-copy typed slice of all records in the file. -/
def Opened.asSlice {α : Type} (overflow : Overflow) (pod : Pod α) (s : Opened) :
    Except Fault (List α) :=
  if s.file.logicalLen = 0 then pure []
  else do
    let count := s.file.logicalLen / pod.size
    let stop ← overflow.add headerSize (count * pod.size)
    let bytes ← s.slice headerSize stop
    pure (pod.cast count bytes)

/-- Append a typed record. Returns the offset where it was written. -/
def MmapFile.appendRecord {α : Type} (overflow : Overflow) (pod : Pod α) (record : α) :
    MmapM Nat := do
  let s ← get
  let _ ← MmapFile.append overflow (pod.bytesOf record)
  pure s.file.logicalLen

end Perfdb.Mmap
