import Mathlib
import Perfdb.Bytes
import Perfdb.Triple

set_option autoImplicit false

/-! A directory of append-only files behind one buffered writer, with an
environment that decides the outcome of every system call: it may succeed, fail
after part of its work, or be the point where the process dies. -/

namespace Perfdb

/-- What becomes of one system call. `done` bounds the bytes it still got through. -/
inductive Verdict where
  | ok
  | fail (done : Nat)
  | crash (done : Nat)
  deriving DecidableEq, Repr

/-- Why a program stopped: an error it returns, or the death of the process. -/
inductive Abort (ε : Type) where
  | error (reason : ε)
  | crash
  deriving DecidableEq, Repr

/-- Bytes that survive a crash, and bytes written since the last sync. -/
structure File where
  durable : Bytes
  cached : Bytes
  deriving DecidableEq, Repr

namespace File

def empty : File := ⟨[], []⟩

def contents (file : File) : Bytes := file.durable ++ file.cached

def push (data : Bytes) (file : File) : File := { file with cached := file.cached ++ data }

def synced (file : File) : File := ⟨file.durable ++ file.cached, []⟩

@[simp] theorem contents_empty : empty.contents = [] := rfl

@[simp] theorem contents_push (data : Bytes) (file : File) :
    (file.push data).contents = file.contents ++ data := by
  simp [contents, push]

@[simp] theorem contents_synced (file : File) : file.synced.contents = file.contents := by
  simp [contents, synced]

end File

abbrev Dir := Std.ExtTreeMap String File

/-- The contents of a file; a missing file reads as empty. -/
def Dir.contents (dir : Dir) (name : String) : Bytes := (dir[name]?.map File.contents).getD []

def Dir.durable (dir : Dir) (name : String) : Bytes := (dir[name]?.map File.durable).getD []

def Dir.change (dir : Dir) (name : String) (update : File → File) : Dir := dir.modify name update

/-- Makes sure a file exists. -/
def Dir.create (dir : Dir) (name : String) : Dir := dir.insertIfNew name File.empty

structure World where
  dir : Dir
  verdicts : List Verdict
  clock : List Nat

namespace World

/-- The outcome of the next call; once the list is used up every call succeeds. -/
def verdict (world : World) : Verdict := world.verdicts.headD .ok

def served (world : World) : World := { world with verdicts := world.verdicts.tail }

/-- An environment in which no call fails. -/
def Healthy (world : World) : Prop := ∀ v ∈ world.verdicts, v = .ok

end World

/-- `BufWriter<File>`: the name of the open file and the bytes not yet written to it. -/
structure BufWriter where
  file : String
  buffer : Bytes
  deriving DecidableEq, Repr

def bufferCapacity : Nat := 64 * 1024

structure Handle where
  writer : BufWriter
  world : World

abbrev FileM (ε : Type) := EStateM (Abort ε) Handle

namespace Handle

/-- Bytes reach the open file, past the buffer. -/
def pushRaw (data : Bytes) (h : Handle) : Handle :=
  { h with world := { h.world with dir := h.world.dir.change h.writer.file (File.push data) } }

def served (h : Handle) : Handle := { h with world := h.world.served }

def setBuffer (buffer : Bytes) (h : Handle) : Handle :=
  { h with writer := { h.writer with buffer := buffer } }

/-- The contents of a file as they stand once the buffer is written out. -/
def view (h : Handle) (name : String) : Bytes :=
  h.world.dir.contents name ++ if name = h.writer.file then h.writer.buffer else []

end Handle

section Calls

variable {ε : Type} (reason : ε)

/-- `write_all` on the file itself. An error leaves at least one byte unwritten. -/
def writeRaw (data : Bytes) : FileM ε Unit := fun h =>
  match h.world.verdict with
  | .ok => .ok () (h.served.pushRaw data)
  | .fail done => .error (.error reason) (h.served.pushRaw (data.take (min done (data.length - 1))))
  | .crash done => .error .crash (h.served.pushRaw (data.take done))

/-- `BufWriter::flush_buf`: on an error the bytes already written leave the buffer. -/
def flushBuffer : FileM ε Unit := fun h =>
  if h.writer.buffer = [] then .ok () h
  else
    match h.world.verdict with
    | .ok => .ok () ((h.served.pushRaw h.writer.buffer).setBuffer [])
    | .fail done => .error (.error reason)
        ((h.served.pushRaw (h.writer.buffer.take done)).setBuffer (h.writer.buffer.drop done))
    | .crash done => .error .crash
        ((h.served.pushRaw (h.writer.buffer.take done)).setBuffer (h.writer.buffer.drop done))

def makeRoom (data : Bytes) : FileM ε Unit := fun h =>
  if bufferCapacity - h.writer.buffer.length < data.length then flushBuffer reason h else .ok () h

def place (data : Bytes) : FileM ε Unit :=
  if bufferCapacity ≤ data.length then writeRaw reason data
  else modify fun h => h.setBuffer (h.writer.buffer ++ data)

/-- `BufWriter::write_all`: data that does not fit empties the buffer first, and
data of at least the buffer's capacity goes straight to the file. -/
def writeAll (data : Bytes) : FileM ε Unit := do
  makeRoom reason data
  place reason data

/-- `sync_data` on the open file. -/
def syncData : FileM ε Unit := fun h =>
  match h.world.verdict with
  | .ok => .ok () { h.served with world :=
      { h.served.world with dir := h.world.dir.change h.writer.file File.synced } }
  | .fail _ => .error (.error reason) h.served
  | .crash _ => .error .crash h.served

/-- `OpenOptions::create(true).append(true).open`: a call that does not return may
still have created the file. -/
def openAppend (name : String) : FileM ε Unit := fun h =>
  let created : Handle := { h.served with world :=
    { h.served.world with dir := h.world.dir.create name } }
  match h.world.verdict with
  | .ok => .ok () created
  | .fail done => .error (.error reason) (if done = 0 then h.served else created)
  | .crash done => .error .crash (if done = 0 then h.served else created)

def now : FileM ε Nat := fun h =>
  .ok (h.world.clock.headD 0) { h with world := { h.world with clock := h.world.clock.tail } }

end Calls

/-- `fs::write`: the file is created or emptied, then written. What has been written
when a call does not return stays. -/
def writeFile {ε : Type} (reason : ε) (name : String) (data : Bytes) :
    EStateM (Abort ε) World Unit := fun world =>
  let holding (w : World) (bytes : Bytes) : World :=
    { w with dir := w.dir.insert name ⟨[], bytes⟩ }
  match world.verdict with
  | .fail done => .error (.error reason)
      (if done = 0 then world.served else holding world.served [])
  | .crash done => .error .crash (if done = 0 then world.served else holding world.served [])
  | .ok =>
      let created := holding world.served []
      match created.verdict with
      | .ok => .ok () (holding created.served data)
      | .fail done => .error (.error reason)
          (holding created.served (data.take (min done (data.length - 1))))
      | .crash done => .error .crash (holding created.served (data.take done))

/-- How a call that fails for `reason` stops a program: the environment ordered it. -/
def Abort.Raises {ε : Type} (reason : ε) (verdicts : List Verdict) (abort : Abort ε) : Prop :=
  (abort = .error reason ∧ ∃ done, .fail done ∈ verdicts) ∨
    (abort = .crash ∧ ∃ done, .crash done ∈ verdicts)

theorem Abort.Raises.mono {ε : Type} {reason : ε} {fewer more : List Verdict} {abort : Abort ε}
    (raised : abort.Raises reason fewer) (suffix : fewer <:+ more) : abort.Raises reason more := by
  rcases raised with ⟨same, done, member⟩ | ⟨same, done, member⟩
  · exact Or.inl ⟨same, done, suffix.subset member⟩
  · exact Or.inr ⟨same, done, suffix.subset member⟩

/-- `data` went to the open file or its buffer, and to nothing else. -/
structure Handle.Wrote (before after : Handle) (data : Bytes) : Prop where
  file : after.writer.file = before.writer.file
  member : ∀ name, name ∈ after.world.dir ↔ name ∈ before.world.dir
  others : ∀ name, name ≠ before.writer.file → after.world.dir[name]? = before.world.dir[name]?
  view : after.view before.writer.file = before.view before.writer.file ++ data
  durable : before.world.dir.durable before.writer.file <+:
    after.world.dir.durable before.writer.file
  verdicts : after.world.verdicts <:+ before.world.verdicts

namespace Handle.Wrote

theorem refl (h : Handle) : h.Wrote h [] :=
  ⟨rfl, fun _ => Iff.rfl, fun _ _ => rfl, (List.append_nil _).symm, List.prefix_refl _,
    List.suffix_refl _⟩

theorem trans {a b c : Handle} {first second : Bytes} (left : a.Wrote b first)
    (right : b.Wrote c second) : a.Wrote c (first ++ second) := by
  have file := left.file
  refine ⟨right.file.trans file, fun name => (right.member name).trans (left.member name),
    ?_, ?_, ?_, right.verdicts.trans left.verdicts⟩
  · intro name different
    rw [right.others name (file.symm ▸ different), left.others name different]
  · have later := right.view
    rw [file] at later
    rw [later, left.view, List.append_assoc]
  · have later := right.durable
    rw [file] at later
    exact left.durable.trans later

/-- The bookkeeping of one system call touches no file. -/
theorem served (h : Handle) : h.Wrote h.served [] :=
  ⟨rfl, fun _ => Iff.rfl, fun _ _ => rfl, (List.append_nil _).symm, List.prefix_refl _,
    List.tail_suffix _⟩

theorem opened {a b : Handle} {data : Bytes} (wrote : a.Wrote b data)
    (present : a.writer.file ∈ a.world.dir) : b.writer.file ∈ b.world.dir := by
  rw [wrote.file]
  exact (wrote.member _).mpr present

end Handle.Wrote

namespace Dir

variable (dir : Dir) {name other : String} (update : File → File)

@[simp] theorem mem_change : other ∈ dir.change name update ↔ other ∈ dir :=
  Std.ExtTreeMap.mem_modify

theorem getElem?_change_of_ne (different : other ≠ name) :
    (dir.change name update)[other]? = dir[other]? := by
  rw [change, Std.ExtTreeMap.getElem?_modify, if_neg]
  intro same
  exact different (Std.LawfulEqCmp.eq_of_compare same).symm

theorem change_self (present : name ∈ dir) :
    ∃ file, dir.contents name = file.contents ∧ dir.durable name = file.durable ∧
      (dir.change name update).contents name = (update file).contents ∧
      (dir.change name update).durable name = (update file).durable := by
  obtain ⟨file, found⟩ := Option.isSome_iff_exists.mp
    ((Std.ExtTreeMap.mem_iff_isSome_getElem?).mp present)
  refine ⟨file, ?_, ?_, ?_, ?_⟩ <;>
    simp [contents, durable, change, Std.ExtTreeMap.getElem?_modify_self, found]

end Dir

namespace Handle

/-- Bytes moved from the front of the buffer, or fresh ones when it is empty,
extend the file; what stays buffered follows them. -/
theorem pushRaw_wrote (h : Handle) (pushed kept added : Bytes)
    (present : h.writer.file ∈ h.world.dir) (exact : pushed ++ kept = h.writer.buffer ++ added) :
    h.Wrote ((h.pushRaw pushed).setBuffer kept) added := by
  obtain ⟨file, contents, durable, pushedContents, pushedDurable⟩ :=
    h.world.dir.change_self (File.push pushed) present
  refine ⟨rfl, fun name => h.world.dir.mem_change _, fun name different => ?_, ?_, ?_,
    List.suffix_refl _⟩
  · exact h.world.dir.getElem?_change_of_ne _ different
  · change (h.world.dir.change h.writer.file _).contents h.writer.file ++
      (if h.writer.file = h.writer.file then kept else []) = _
    rw [pushedContents, view, contents]
    simp only [File.contents_push, ↓reduceIte, List.append_assoc, exact]
  · change _ <+: (h.world.dir.change h.writer.file _).durable h.writer.file
    rw [pushedDurable, durable]
    exact List.prefix_refl _

theorem setBuffer_of_nil (h : Handle) (clear : h.writer.buffer = []) : h.setBuffer [] = h := by
  obtain ⟨⟨file, buffer⟩, world⟩ := h
  simp only at clear
  subst clear
  rfl

end Handle

theorem World.verdict_mem {world : World} {v : Verdict} (next : world.verdict = v)
    (faulty : v ≠ .ok) : v ∈ world.verdicts := by
  unfold verdict at next
  cases pending : world.verdicts with
  | nil =>
      rw [pending] at next
      exact (faulty next.symm).elim
  | cons first rest =>
      rw [pending] at next
      exact next ▸ List.mem_cons_self

theorem World.raises_error {ε : Type} {world : World} {done : Nat} (reason : ε)
    (next : world.verdict = .fail done) : (Abort.error reason).Raises reason world.verdicts :=
  Or.inl ⟨rfl, done, world.verdict_mem next (by simp)⟩

theorem World.raises_crash {ε : Type} {world : World} {done : Nat} (reason : ε)
    (next : world.verdict = .crash done) : (Abort.crash : Abort ε).Raises reason world.verdicts :=
  Or.inr ⟨rfl, done, world.verdict_mem next (by simp)⟩

section Specifications

variable {ε : Type} (reason : ε) (h : Handle) (present : h.writer.file ∈ h.world.dir)

theorem Handle.served_pushRaw_wrote (pushed kept added : Bytes)
    (present : h.writer.file ∈ h.world.dir) (exact : pushed ++ kept = h.writer.buffer ++ added) :
    h.Wrote ((h.served.pushRaw pushed).setBuffer kept) added := by
  simpa only [List.nil_append] using
    (Handle.Wrote.served h).trans (h.served.pushRaw_wrote pushed kept added present exact)

include present

/-- Flushing never changes what the file will hold, whether or not it gets through. -/
theorem flushBuffer_triple :
    Triple (· = h) (flushBuffer reason)
      (fun _ g => h.Wrote g [] ∧ g.writer.buffer = [])
      (fun abort g => h.Wrote g [] ∧ abort.Raises reason h.world.verdicts ∧
        h.world.verdict ≠ .ok) := by
  rintro g rfl
  unfold flushBuffer
  by_cases clear : g.writer.buffer = []
  · simp only [clear, ↓reduceIte]
    exact ⟨Handle.Wrote.refl g, trivial⟩
  · simp only [clear, ↓reduceIte]
    cases next : g.world.verdict with
    | ok =>
        exact ⟨g.served_pushRaw_wrote _ _ _ present (by simp), rfl⟩
    | fail done =>
        exact ⟨g.served_pushRaw_wrote _ _ _ present (by simp), g.world.raises_error reason next,
          by simp⟩
    | crash done =>
        exact ⟨g.served_pushRaw_wrote _ _ _ present (by simp), g.world.raises_crash reason next,
          by simp⟩

/-- A direct write gets through whole, or up to a byte it does not reach. -/
theorem writeRaw_triple (data : Bytes) (clear : h.writer.buffer = []) :
    Triple (· = h) (writeRaw reason data)
      (fun _ g => h.Wrote g data)
      (fun abort g => ∃ kept, h.Wrote g (data.take kept) ∧ abort.Raises reason h.world.verdicts ∧
        (abort = .error reason → data ≠ [] → kept < data.length)) := by
  have pushed (bytes : Bytes) : h.Wrote (h.served.pushRaw bytes) bytes := by
    have wrote := h.served_pushRaw_wrote bytes [] bytes present (by simp [clear])
    rwa [Handle.setBuffer_of_nil _ (by exact clear)] at wrote
  rintro g rfl
  unfold writeRaw
  cases next : g.world.verdict with
  | ok => exact pushed data
  | fail done =>
      refine ⟨_, pushed _, g.world.raises_error reason next, fun _ nonempty => ?_⟩
      have positive := List.length_pos_of_ne_nil nonempty
      omega
  | crash done =>
      refine ⟨_, pushed _, g.world.raises_crash reason next, fun returned => ?_⟩
      contradiction

theorem makeRoom_triple (data : Bytes) :
    Triple (· = h) (makeRoom reason data)
      (fun _ g => h.Wrote g [] ∧
        (bufferCapacity ≤ data.length → data ≠ [] → g.writer.buffer = []))
      (fun abort g => h.Wrote g [] ∧ abort.Raises reason h.world.verdicts ∧
        bufferCapacity - h.writer.buffer.length < data.length ∧ h.world.verdict ≠ .ok) := by
  rintro g rfl
  unfold makeRoom
  by_cases full : bufferCapacity - g.writer.buffer.length < data.length
  · simp only [full, ↓reduceIte]
    have flushed := flushBuffer_triple reason g present g rfl
    split at flushed
    · exact ⟨flushed.1, fun _ _ => flushed.2⟩
    · exact ⟨flushed.1, flushed.2.1, trivial, flushed.2.2⟩
  · simp only [full, ↓reduceIte]
    refine ⟨Handle.Wrote.refl g, fun large nonempty => ?_⟩
    have positive := List.length_pos_of_ne_nil nonempty
    apply List.eq_nil_of_length_eq_zero
    omega

/-- Buffered writing adds the data, or stops with a proper prefix of it. Data
shorter than the buffer is never split: what stops is the call that makes room for it. -/
theorem writeAll_triple (data : Bytes) :
    Triple (· = h) (writeAll reason data)
      (fun _ g => h.Wrote g data)
      (fun abort g => ∃ kept, h.Wrote g (data.take kept) ∧ abort.Raises reason h.world.verdicts ∧
        (abort = .error reason → data ≠ [] → kept < data.length) ∧
        (data.length < bufferCapacity → kept = 0 ∧
          bufferCapacity - h.writer.buffer.length < data.length ∧ h.world.verdict ≠ .ok)) := by
  refine Triple.bind (fun _ g => h.Wrote g [] ∧
    (bufferCapacity ≤ data.length → data ≠ [] → g.writer.buffer = [])) ?_ ?_
  · refine (makeRoom_triple reason h present data).consequence (fun _ => id) (fun _ _ => id) ?_
    rintro abort g ⟨wrote, raised, full⟩
    exact ⟨0, by simpa using wrote, raised, fun _ => List.length_pos_of_ne_nil,
      fun _ => ⟨rfl, full⟩⟩
  · rintro - g ⟨wrote, clear⟩
    unfold place
    by_cases large : bufferCapacity ≤ data.length
    · simp only [large, ↓reduceIte]
      have nonempty : data ≠ [] := by
        rintro rfl
        simp [bufferCapacity] at large
      have direct := writeRaw_triple reason g (wrote.opened present) data (clear large nonempty) g rfl
      split at direct
      · simpa only [List.nil_append] using wrote.trans direct
      · obtain ⟨kept, later, raised, proper⟩ := direct
        refine ⟨kept, ?_, raised.mono wrote.verdicts, proper, fun small => ?_⟩
        · simpa only [List.nil_append] using wrote.trans later
        · omega
    · simp only [large, ↓reduceIte]
      have buffered : g.Wrote (g.setBuffer (g.writer.buffer ++ data)) data := by
        refine ⟨rfl, fun _ => Iff.rfl, fun _ _ => rfl, ?_, List.prefix_refl _, List.suffix_refl _⟩
        simp [Handle.view, Handle.setBuffer]
      change h.Wrote (g.setBuffer (g.writer.buffer ++ data)) data
      simpa only [List.nil_append] using wrote.trans buffered

omit present in
/-- Data for which there is no room is not written when the buffer cannot be emptied. -/
theorem writeAll_stuck (data : Bytes) {done : Nat} (small : data.length < bufferCapacity)
    (full : bufferCapacity - h.writer.buffer.length < data.length)
    (failing : h.world.verdict = .fail done) :
    ∃ g, writeAll reason data h = .error (.error reason) g := by
  have nonempty : h.writer.buffer ≠ [] := by
    intro clear
    rw [clear, List.length_nil] at full
    omega
  let g := (h.served.pushRaw (h.writer.buffer.take done)).setBuffer (h.writer.buffer.drop done)
  have stopped : makeRoom reason data h = .error (.error reason) g := by
    rw [makeRoom, if_pos full, flushBuffer, if_neg nonempty]
    simp only [failing]
    rfl
  refine ⟨g, ?_⟩
  change EStateM.bind (makeRoom reason data) (fun _ => place reason data) h = _
  rw [EStateM.bind, stopped]

/-- After a sync every byte handed to the file is durable. -/
theorem syncData_triple :
    Triple (· = h) (syncData reason)
      (fun _ g => h.Wrote g [] ∧ g.writer = h.writer ∧
        g.world.dir.durable h.writer.file = g.world.dir.contents h.writer.file)
      (fun abort g => h.Wrote g [] ∧ abort.Raises reason h.world.verdicts) := by
  rintro g rfl
  unfold syncData
  cases next : g.world.verdict with
  | ok =>
      obtain ⟨file, contents, durable, syncedContents, syncedDurable⟩ :=
        g.world.dir.change_self File.synced present
      refine ⟨⟨rfl, fun _ => g.world.dir.mem_change _,
        fun name different => g.world.dir.getElem?_change_of_ne _ different, ?_, ?_,
        List.tail_suffix _⟩, rfl, ?_⟩
      · change (g.world.dir.change g.writer.file _).contents g.writer.file ++ _ = _
        rw [syncedContents, Handle.view, contents, File.contents_synced, List.append_nil]
        rfl
      · change _ <+: (g.world.dir.change g.writer.file _).durable g.writer.file
        rw [syncedDurable, durable]
        exact List.prefix_append _ _
      · change (g.world.dir.change g.writer.file _).durable g.writer.file =
          (g.world.dir.change g.writer.file _).contents g.writer.file
        rw [syncedDurable, syncedContents]
        simp [File.synced, File.contents]
  | fail done => exact ⟨Handle.Wrote.served g, g.world.raises_error reason next⟩
  | crash done => exact ⟨Handle.Wrote.served g, g.world.raises_crash reason next⟩

end Specifications

/-- Opening a file for appending leaves every file as it is, and creates the
named one if the call gets through. -/
theorem openAppend_triple {ε : Type} (reason : ε) (h : Handle) (name : String) :
    Triple (· = h) (openAppend reason name)
      (fun _ g => g.writer = h.writer ∧ g.world.dir = h.world.dir.create name ∧
        g.world.verdicts <:+ h.world.verdicts)
      (fun abort g => g.writer = h.writer ∧
        (g.world.dir = h.world.dir ∨ g.world.dir = h.world.dir.create name) ∧
        g.world.verdicts <:+ h.world.verdicts ∧ abort.Raises reason h.world.verdicts) := by
  rintro g rfl
  have kept (done : Nat) (created : Handle) :
      created = { g.served with world := { g.served.world with dir := g.world.dir.create name } } →
      (if done = 0 then g.served else created).writer = g.writer ∧
      ((if done = 0 then g.served else created).world.dir = g.world.dir ∨
        (if done = 0 then g.served else created).world.dir = g.world.dir.create name) ∧
      (if done = 0 then g.served else created).world.verdicts <:+ g.world.verdicts := by
    rintro rfl
    split
    · exact ⟨rfl, Or.inl rfl, List.tail_suffix _⟩
    · exact ⟨rfl, Or.inr rfl, List.tail_suffix _⟩
  unfold openAppend
  cases next : g.world.verdict with
  | ok => exact ⟨rfl, rfl, List.tail_suffix _⟩
  | fail done =>
      obtain ⟨writer, dir, verdicts⟩ := kept done _ rfl
      exact ⟨writer, dir, verdicts, g.world.raises_error reason next⟩
  | crash done =>
      obtain ⟨writer, dir, verdicts⟩ := kept done _ rfl
      exact ⟨writer, dir, verdicts, g.world.raises_crash reason next⟩

end Perfdb
