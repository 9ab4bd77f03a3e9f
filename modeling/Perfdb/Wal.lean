import Mathlib
import Perfdb.FrameStream
import Perfdb.NumberedNames
import Perfdb.FaultyFiles
import Perfdb.Unordered
import Perfdb.Types

set_option autoImplicit false

namespace Perfdb.Wal

/-- The third-party code the log relies on: bincode and crc32fast. Serializing a
`WalEntry` without a size limit does not fail. -/
structure Format where
  serialize : WalEntry → Bytes
  deserialize : Bytes → Option WalEntry
  crc32 : Bytes → UInt32

inductive SyncPolicy where
  | everyWrite
  | interval (duration : Nat)
  | none
  deriving DecidableEq, Repr

structure WalConfig where
  dir : String
  maxSegmentSize : Nat
  syncPolicy : SyncPolicy
  deriving DecidableEq, Repr

/-- `len` and `crc32`. -/
def entryHeaderSize : Nat := 4 + 4

def maxPayload : Nat := 128 * 1024 * 1024

/-- The entry's payload is one that replay accepts. -/
def Format.Fits (fmt : Format) (entry : WalEntry) : Prop :=
  (fmt.serialize entry).length ≤ maxPayload

/-- `bincode::deserialize` inverts `bincode::serialize`. -/
def Format.RoundTrips (fmt : Format) : Prop :=
  ∀ entry, fmt.Fits entry → fmt.deserialize (fmt.serialize entry) = some entry

structure WalWriter where
  config : WalConfig
  currentSegment : Nat
  writer : BufWriter
  segmentBytes : Nat
  lastSync : Nat

def segmentName (id : Nat) : String := numberedName "wal_" ".bin" 8 id

def segmentPath (dir : String) (id : Nat) : String := dir ++ "/" ++ segmentName id

/-- The segments of a log. Their numbers are natural here, where the code has `u64`: a writer
counts up from those it finds. -/
def listSegments (order : Iteration) (dir : Dir) : List Nat :=
  (order.arrange dir.keys).filterMap (numberOf "wal_" ".bin")

def findLatestSegment (order : Iteration) (dir : Dir) : Nat :=
  (listSegments order dir).max?.getD 0

/-- A writer and the world it writes to. -/
structure WalState where
  wal : WalWriter
  world : World

namespace WalState

def handle (s : WalState) : Handle := ⟨s.wal.writer, s.world⟩

def setHandle (s : WalState) (h : Handle) : WalState :=
  ⟨{ s.wal with writer := h.writer }, h.world⟩

/-- The directory once the writer has been dropped, which writes its buffer out. -/
def close (s : WalState) : Dir :=
  s.world.dir.change s.wal.writer.file (File.push s.wal.writer.buffer)

end WalState

abbrev WalM := EStateM (Abort PerfDbError) WalState

def onFile {α : Type} (operation : FileM PerfDbError α) : WalM α := fun s =>
  match operation s.handle with
  | .ok value h => .ok value (s.setHandle h)
  | .error abort h => .error abort (s.setHandle h)

/-- `WalWriter::open`: the segment with the greatest number is continued at its end. -/
def WalWriter.openLog (order : Iteration) (config : WalConfig) :
    EStateM (Abort PerfDbError) World WalWriter := fun world =>
  let currentSegment := findLatestSegment order world.dir
  let name := segmentName currentSegment
  let context := "open WAL segment: " ++ segmentPath config.dir currentSegment
  match openAppend (.io context) name ⟨⟨name, []⟩, world⟩ with
  | .error abort h => .error abort h.world
  | .ok _ h =>
      .ok { config, currentSegment, writer := ⟨name, []⟩,
            segmentBytes := (h.world.dir.contents name).length,
            lastSync := h.world.clock.headD 0 }
        { h.world with clock := h.world.clock.tail }

def sync : WalM Unit := do
  onFile (flushBuffer (.io "WAL flush"))
  onFile (syncData (.io "WAL fsync"))
  let time ← onFile now
  modify fun s => { s with wal := { s.wal with lastSync := time } }

/-- The next segment becomes the current one before its file is open. -/
def bumpSegment (s : WalState) : WalState :=
  { s with wal := { s.wal with currentSegment := s.wal.currentSegment + 1 } }

/-- The writer moves to the current segment. Its old buffer is empty by then. -/
def enterSegment (s : WalState) : WalState :=
  { s with wal := { s.wal with
    writer := ⟨segmentName s.wal.currentSegment, []⟩
    segmentBytes := 0 } }

def openSegment : WalM Unit := fun s =>
  onFile (openAppend
    (.io ("open new WAL segment: " ++ segmentPath s.wal.config.dir s.wal.currentSegment))
    (segmentName s.wal.currentSegment)) s

def rotate : WalM Unit := do
  sync
  modify bumpSegment
  openSegment
  modify enterSegment

def syncIfElapsed (duration : Nat) : WalM Unit := fun s =>
  match onFile now s with
  | .ok time t => if duration ≤ time - s.wal.lastSync then sync t else .ok () t
  | .error abort t => .error abort t

def syncByPolicy : WalM Unit := fun s =>
  match s.wal.config.syncPolicy with
  | .everyWrite => sync s
  | .interval duration => syncIfElapsed duration s
  | .none => .ok () s

def rotateIfFull : WalM Unit := fun s =>
  if s.wal.config.maxSegmentSize ≤ s.wal.segmentBytes then rotate s else .ok () s

/-- Adds to the running size of the current segment. -/
def countBytes (size : Nat) (s : WalState) : WalState :=
  { s with wal := { s.wal with segmentBytes := s.wal.segmentBytes + size } }

/-- Append a WAL entry. The length is written as a `u32`, keeping its low bytes only. -/
def append (fmt : Format) (entry : WalEntry) : WalM Unit := do
  let payload := fmt.serialize entry
  let crc := fmt.crc32 payload
  onFile (writeAll (.io "WAL write len") (Bytes.le 4 payload.length))
  onFile (writeAll (.io "WAL write crc") (Bytes.le 4 crc.toNat))
  onFile (writeAll (.io "WAL write payload") payload)
  modify (countBytes (entryHeaderSize + payload.length))
  syncByPolicy
  rotateIfFull

section Replay

variable {σ : Type} (fmt : Format) (callback : σ → WalEntry → Except PerfDbError σ)

/-- The loop over one segment. `unread` is what the file's cursor has not passed;
every turn that goes on reads a header, so the file's length bounds the turns. -/
def replaySegment (fileLen : Nat) : Nat → Nat → Bytes → σ → Nat → Except PerfDbError (σ × Nat)
  | 0, _, _, acc, count => .ok (acc, count)
  | fuel + 1, pos, unread, acc, count =>
      if pos + entryHeaderSize ≤ fileLen then
        match Bytes.readExact entryHeaderSize unread with
        | none => .ok (acc, count)
        | some (header, body) =>
            let len := Bytes.ofLe (header.take 4)
            let expectedCrc := Bytes.ofLe (header.drop 4)
            if maxPayload < len then .ok (acc, count)
            else if fileLen < pos + entryHeaderSize + len then .ok (acc, count)
            else
              match Bytes.readExact len body with
              | none => .ok (acc, count)
              | some (payload, rest) =>
                  if (fmt.crc32 payload).toNat ≠ expectedCrc then .ok (acc, count)
                  else
                    match fmt.deserialize payload with
                    | none => .ok (acc, count)
                    | some entry =>
                        match callback acc entry with
                        | .error reason => .error reason
                        | .ok next =>
                            replaySegment fileLen fuel (pos + entryHeaderSize + len) rest next
                              (count + 1)
      else .ok (acc, count)

def replayFile (path : String) (dir : Dir) (acc : σ × Nat) (id : Nat) :
    Except PerfDbError (σ × Nat) :=
  match dir[segmentName id]? with
  | none => .error (.io ("open WAL segment for replay: " ++ segmentPath path id))
  | some file =>
      let bytes := file.contents
      replaySegment fmt callback bytes.length (bytes.length + 1) 0 bytes acc.1 acc.2

/-- Replay all WAL entries from all segments in order. A frame that is not
accepted ends the loop over its segment, not the loop over the segments. -/
def replay (order : Iteration) (path : String) (dir : Dir) (init : σ) :
    Except PerfDbError (σ × Nat) :=
  ((listSegments order dir).insertionSort (· ≤ ·)).foldlM (replayFile fmt callback path dir)
    (init, 0)

end Replay

/-- Delete all segments before (not including) the given segment number. -/
def truncateBefore (order : Iteration) (path : String) (dir : Dir) (keepFrom : Nat) :
    Except PerfDbError (Dir × Nat) :=
  (listSegments order dir).foldlM (fun (dir, removed) id =>
    if id < keepFrom then
      if segmentName id ∈ dir then .ok (dir.erase (segmentName id), removed + 1)
      else .error (.io ("remove WAL segment: " ++ segmentPath path id))
    else .ok (dir, removed)) (dir, 0)

end Perfdb.Wal
