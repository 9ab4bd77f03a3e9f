import Mathlib
import Perfdb.Mmap
import Perfdb.Triple

set_option autoImplicit false

namespace Perfdb.Mmap

section Bytes

theorem resize_length (size : Nat) (bytes : Bytes) : (resize size bytes).length = size := by
  simp only [resize, List.length_append, List.length_take, List.length_replicate]
  omega

theorem resize_append {size : Nat} {front : Bytes} (fits : front.length ≤ size) (rest : Bytes) :
    resize size (front ++ rest) = front ++ resize (size - front.length) rest := by
  rw [resize, resize, List.take_append, List.take_of_length_le fits, List.append_assoc,
    List.length_append, Nat.sub_sub]

theorem overwrite_append (front data rest : Bytes) :
    overwrite front.length data (front ++ rest) = front ++ (data ++ rest.drop data.length) := by
  rw [overwrite, List.take_left, List.append_assoc, List.drop_append,
    List.drop_eq_nil_of_le (Nat.le_add_right _ _), List.nil_append, Nat.add_sub_cancel_left]

end Bytes

/-- The loop ends at a capacity that is enough, and for what fits in memory it stays clear of
the end of the numbers. -/
theorem grownCapacity_spec (capacity needed first : Nat)
    (near : needed ≤ first + 2 ^ 61) (above : first ≤ capacity)
    (low : capacity < 2 ^ 63 - 8 ∨ 2 * first ≤ capacity ∧ capacity < 2 ^ 64 - 8) :
    capacity ≤ MmapFile.grownCapacity capacity needed ∧
      needed ≤ MmapFile.grownCapacity capacity needed ∧
      MmapFile.grownCapacity capacity needed < 2 ^ 64 - 8 := by
  induction capacity using MmapFile.grownCapacity.induct needed with
  | case1 capacity more ih =>
      have small : capacity < 2 ^ 63 - 8 := by omega
      have next : max (saturatingMul capacity 2) initialFileSize =
          max (capacity * 2) initialFileSize := by
        rw [saturatingMul, Nat.min_eq_left (by omega)]
      rw [next] at ih
      rw [MmapFile.grownCapacity, if_pos more, next]
      have step : capacity ≤ max (capacity * 2) initialFileSize := by omega
      obtain ⟨grown, enough, clear⟩ := ih (by omega) (by
        right
        simp only [initialFileSize]
        omega)
      exact ⟨Nat.le_trans step grown, enough, clear⟩
  | case2 capacity done =>
      rw [MmapFile.grownCapacity, if_neg done]
      omega

/-- A loop that starts below twice what is needed stays below it. -/
theorem grownCapacity_lt {capacity needed : Nat} (near : needed ≤ 2 ^ 62)
    (start : capacity < 2 * max needed initialFileSize) :
    MmapFile.grownCapacity capacity needed < 2 * max needed initialFileSize := by
  induction capacity using MmapFile.grownCapacity.induct needed with
  | case1 capacity more ih =>
      rw [MmapFile.grownCapacity, if_pos more]
      apply ih
      simp only [saturatingMul, initialFileSize]
      omega
  | case2 capacity done =>
      rw [MmapFile.grownCapacity, if_neg done]
      exact start

section Calls

variable {α : Type} {pre : Files → Prop} {exit : Fault → Files → Prop} {context : String}
  {possible : Files → Bool} {change : Files → Files}

theorem call_triple {post : Unit → Files → Prop}
    (done : ∀ files, pre files → possible files = true → post () (change files.served))
    (failed : ∀ files, pre files → exit (.error (.io context)) files.served)
    (before : ∀ files, pre files → exit .crash files.served)
    (after : ∀ files, pre files → possible files = true → exit .crash (change files.served)) :
    Triple pre (call context possible change) post exit := by
  intro files start
  unfold call
  cases files.verdict with
  | ok =>
      by_cases able : possible files = true
      · simp only [able, ↓reduceIte]
        exact done files start able
      · simp only [able]
        exact failed files start
  | fail number => exact failed files start
  | crash number =>
      change exit .crash _
      split
      · exact before files start
      · rename_i able
        exact after files start (by simpa using (not_or.mp able).2)

theorem access_triple {post : Unit → Files → Prop}
    (done : ∀ files, pre files → post () (change files.served))
    (before : ∀ files, pre files → exit .crash files.served)
    (after : ∀ files, pre files → exit .crash (change files.served)) :
    Triple pre (access change) post exit := by
  intro files start
  unfold access
  cases files.verdict with
  | ok => exact done files start
  | fail number => exact done files start
  | crash number =>
      change exit .crash _
      split
      · exact before files start
      · exact after files start

theorem onFiles_triple {pre : Opened → Prop} {program : FilesM α} {post : α → Opened → Prop}
    {exit : Fault → Opened → Prop}
    (inner : ∀ file, Triple (fun files => pre ⟨file, files⟩) program
      (fun value files => post value ⟨file, files⟩) (fun fault files => exit fault ⟨file, files⟩)) :
    Triple pre (onFiles program) post exit := by
  intro s start
  have result := inner s.file s.files start
  unfold onFiles
  cases ran : program s.files with
  | ok value files =>
      rw [ran] at result
      exact result
  | error fault files =>
      rw [ran] at result
      exact result

theorem raise_bind {σ β : Type} {pre : σ → Prop} {post : β → σ → Prop} {exit : Fault → σ → Prop}
    {result : Except Fault α} {value : α} {next : α → EStateM Fault σ β}
    (good : result = .ok value) (rest : Triple pre (next value) post exit) :
    Triple pre (raise result >>= next) post exit := by
  subst good
  exact rest

theorem get_bind {σ β : Type} {pre : σ → Prop} {post : β → σ → Prop} {exit : Fault → σ → Prop}
    {next : σ → EStateM Fault σ β} (rest : ∀ s, pre s → Triple (· = s) (next s) post exit) :
    Triple pre (get >>= next) post exit :=
  fun s start => rest s start s rfl

theorem ok_bind {ε α β : Type} (value : α) (next : α → Except ε β) :
    (.ok value >>= next) = next value := rfl

theorem Overflow.add_ok {overflow : Overflow} {a b : Nat} (fits : a + b < 2 ^ 64) :
    overflow.add a b = .ok (a + b) := if_pos fits

end Calls

/-- A file: a header, a payload and space behind it. -/
structure Files.Layout (files : Files) (path : String) (header : Nat) (payload rest : Bytes) :
    Prop where
  contents : files.contents path = some (Bytes.le 8 header ++ (payload ++ rest))
  size : 8 + payload.length + rest.length < 2 ^ 63

/-- The file on disk has this payload. -/
def Files.Stands (files : Files) (path : String) (payload : Bytes) : Prop :=
  ∃ rest, files.Layout path payload.length payload rest

/-- Nothing but the file at `path` differs. -/
def Files.Apart (path : String) (before : Contents) (files : Files) : Prop :=
  ∀ other, other ≠ path → files.contents other = before other

/-- The mapping covers a part of a file with this header and payload. -/
structure Opened.Span (s : Opened) (header : Nat) (payload rest : Bytes) : Prop where
  layout : s.files.Layout s.file.path header payload rest
  mapped : s.file.mapped = 8 + s.file.capacity
  within : s.file.capacity ≤ payload.length + rest.length

structure Opened.Holds (s : Opened) (payload : Bytes) : Prop where
  span : ∃ rest, s.Span payload.length payload rest
  logicalLen : s.file.logicalLen = payload.length
  inside : payload.length ≤ s.file.capacity

theorem Opened.Holds.stands {s : Opened} {payload : Bytes} (holds : s.Holds payload) :
    s.files.Stands s.file.path payload := by
  obtain ⟨rest, span⟩ := holds.span
  exact ⟨rest, span.layout⟩

theorem Files.Layout.bytes {files : Files} {path : String} {header : Nat} {payload rest : Bytes}
    (layout : files.Layout path header payload rest) :
    files.bytes path = Bytes.le 8 header ++ (payload ++ rest) := by
  rw [Files.bytes, layout.contents]
  rfl

theorem Files.write_contents (files : Files) (path : String) (bytes : Bytes) :
    (files.write path bytes).contents path = some bytes := Function.update_self ..

theorem Files.Apart.write {path : String} {before : Contents} {files : Files}
    (apart : files.Apart path before) (bytes : Bytes) :
    (files.write path bytes).Apart path before := by
  intro other different
  exact (Function.update_of_ne different _ _).trans (apart other different)

/-- An open file with a payload, and the other files as they were. -/
structure Opened.At (path : String) (before : Contents) (payload : Bytes) (s : Opened) : Prop where
  holds : s.Holds payload
  named : s.file.path = path
  apart : s.files.Apart path before

/-- How an append to a payload stops: with an error that leaves it as it was, or with the
process, that leaves it or has appended to it. It never panics. -/
def AppendExit (path : String) (before : Contents) (payload data : Bytes) : Fault → Opened → Prop
  | .error reason, s => (∃ context, reason = .io context) ∧ s.At path before payload
  | .crash, s => s.files.Apart path before ∧
      (s.files.Stands path payload ∨ s.files.Stands path (payload ++ data))
  | .panic, _ => False

section Append

variable {path : String} {before : Contents} {payload data : Bytes} {overflow : Overflow}
  {needed : Nat}

theorem appendExit_crash {s : Opened} (held : s.At path before payload) :
    AppendExit path before payload data .crash s :=
  ⟨held.apart, Or.inl (held.named ▸ held.holds.stands)⟩

theorem Opened.At.served {s : Opened} (held : s.At path before payload) :
    Opened.At path before payload { s with files := s.files.served } := by
  obtain ⟨⟨⟨rest, ⟨contents, size⟩, mapped, within⟩, logicalLen, inside⟩, same, apart⟩ := held
  exact ⟨⟨⟨rest, ⟨contents, size⟩, mapped, within⟩, logicalLen, inside⟩, same, apart⟩

theorem idle_triple {pre : Opened → Prop} (context : String)
    (keep : ∀ s, pre s → s.At path before payload)
    (kept : ∀ s, pre s → pre { s with files := s.files.served }) :
    Triple pre (onFiles (call context (fun _ => true) id)) (fun _ => pre)
      (AppendExit path before payload data) := by
  refine onFiles_triple fun file => call_triple ?_ ?_ ?_ ?_
  · exact fun files start _ => kept ⟨file, files⟩ start
  · exact fun files start => ⟨⟨context, rfl⟩, keep _ (kept ⟨file, files⟩ start)⟩
  · exact fun files start => appendExit_crash (keep _ (kept ⟨file, files⟩ start))
  · exact fun files start _ => appendExit_crash (keep _ (kept ⟨file, files⟩ start))

/-- A file that holds a payload still does when its length is set to one that covers the
mapping, and may be mapped in full. -/
theorem Opened.At.setLen {s : Opened} (held : s.At path before payload) (size : Nat)
    (covers : 8 + s.file.capacity ≤ size) (short : size < 2 ^ 63) :
    Opened.At path before payload { s with
      files := s.files.served.write s.file.path (resize size (s.files.bytes s.file.path)) } ∧
    ∃ rest, (s.files.served.write s.file.path (resize size (s.files.bytes s.file.path))).Layout
      s.file.path payload.length payload rest ∧ 8 + payload.length + rest.length = size := by
  obtain ⟨⟨⟨rest, layout, mapped, within⟩, logicalLen, inside⟩, same, apart⟩ := held
  have bytes : resize size (s.files.bytes s.file.path) =
      Bytes.le 8 payload.length ++ (payload ++ resize (size - 8 - payload.length) rest) := by
    rw [layout.bytes, resize_append, resize_append, Bytes.le_length]
    · rw [Bytes.le_length]
      omega
    · rw [Bytes.le_length]
      omega
  have long := resize_length (size - 8 - payload.length) rest
  have grown : (s.files.served.write s.file.path
      (resize size (s.files.bytes s.file.path))).Layout s.file.path payload.length payload
        (resize (size - 8 - payload.length) rest) := by
    refine ⟨?_, by omega⟩
    rw [Files.write_contents, bytes]
  refine ⟨⟨⟨⟨_, grown, mapped, ?_⟩, logicalLen, inside⟩, same, ?_⟩, _, grown, by omega⟩
  · change s.file.capacity ≤ _
    omega
  · exact same ▸ Files.Apart.write (same ▸ apart) _

/-- The file has grown to a length, and its mapping has not. -/
structure Opened.Longer (path : String) (before : Contents) (payload : Bytes) (size : Nat)
    (s : Opened) : Prop where
  held : s.At path before payload
  layout : ∃ rest, s.files.Layout s.file.path payload.length payload rest ∧
    8 + payload.length + rest.length = size

theorem growTo_triple {newCapacity : Nat} (clear : newCapacity < 2 ^ 64 - 8) :
    Triple (fun s => s.At path before payload ∧ s.file.capacity ≤ newCapacity)
      (MmapFile.growTo overflow newCapacity)
      (fun _ s => s.At path before payload ∧ s.file.capacity = newCapacity)
      (AppendExit path before payload data) := by
  have fits : overflow.add headerSize newCapacity = .ok (8 + newCapacity) :=
    Overflow.add_ok (by simp only [headerSize]; omega)
  refine raise_bind fits (Triple.bind (fun _ s => s.At path before payload ∧
    s.file.capacity ≤ newCapacity) (idle_triple _ (fun s start => start.1)
      fun s start => ⟨start.1.served, start.2⟩) fun _ => get_bind fun s start => ?_)
  obtain ⟨held, smaller⟩ := start
  refine Triple.bind (fun _ => Opened.Longer path before payload (8 + newCapacity)) ?_ fun _ =>
    Triple.bind (fun _ => Opened.Longer path before payload (8 + newCapacity))
      (idle_triple _ (fun s start => start.held) fun s start => ?_) fun _ => Triple.update ?_
  · refine onFiles_triple fun file => call_triple ?_ ?_ ?_ ?_ <;> rintro files rfl
    · intro able
      obtain ⟨longer, layout⟩ := held.setLen (8 + newCapacity) (by omega)
        (of_decide_eq_true able)
      exact ⟨longer, layout⟩
    · exact ⟨⟨_, rfl⟩, held.served⟩
    · exact appendExit_crash held.served
    · intro able
      exact appendExit_crash (held.setLen _ (by omega) (of_decide_eq_true able)).1
  · obtain ⟨rest, ⟨contents, size⟩, whole⟩ := start.layout
    exact ⟨start.held.served, rest, ⟨contents, size⟩, whole⟩
  · rintro t ⟨⟨holds, named, apart⟩, rest, layout, whole⟩
    refine ⟨⟨⟨⟨rest, layout, rfl, ?_⟩, holds.logicalLen, ?_⟩, named, apart⟩, rfl⟩
    · change newCapacity ≤ _
      omega
    · change payload.length ≤ newCapacity
      omega

theorem makeRoom_triple (near : needed ≤ payload.length + 2 ^ 61) :
    Triple (Opened.At path before payload) (MmapFile.makeRoom overflow needed)
      (fun _ s => s.At path before payload ∧ needed ≤ s.file.capacity)
      (AppendExit path before payload data) := by
  intro s held
  unfold MmapFile.makeRoom
  by_cases short : s.file.capacity < needed
  · rw [if_pos short]
    obtain ⟨⟨rest, ⟨_, size⟩, _, within⟩, _, inside⟩ := held.holds
    obtain ⟨grown, enough, clear⟩ := grownCapacity_spec s.file.capacity needed s.file.capacity
      (by omega) (Nat.le_refl _) (Or.inl (by omega))
    refine Triple.consequence (growTo_triple clear) (fun t same => same) (fun value t done => ?_)
      (fun fault t exit => exit) s ⟨held, grown⟩
    exact ⟨done.1, done.2.symm ▸ enough⟩
  · rw [if_neg short]
    exact ⟨held, Nat.le_of_not_lt short⟩

def Opened.copied (start : Nat) (data : Bytes) (s : Opened) : Opened :=
  { s with files := s.files.served.write s.file.path (overwrite start data s.bytes) }

theorem copy_triple {pre : Opened → Prop} {post : Unit → Opened → Prop}
    {exit : Fault → Opened → Prop} {start : Nat} (fits : start + data.length < 2 ^ 64)
    (inside : ∀ s, pre s → start + data.length ≤ s.file.mapped)
    (done : ∀ s, pre s → post () (s.copied start data))
    (before : ∀ s, pre s → exit .crash { s with files := s.files.served })
    (after : ∀ s, pre s → exit .crash (s.copied start data)) :
    Triple pre (copy overflow start data) post exit := by
  refine raise_bind (Overflow.add_ok fits) (get_bind fun s held => ?_)
  rw [if_pos ⟨Nat.le_add_right _ _, inside s held⟩]
  refine onFiles_triple fun file => access_triple ?_ ?_ ?_ <;> rintro files rfl
  · exact done _ held
  · exact before _ held
  · exact after _ held

/-- The data is behind the payload, and the header does not say so yet. -/
structure Opened.Written (path : String) (before : Contents) (payload data : Bytes) (s : Opened) :
    Prop where
  held : s.At path before payload
  span : ∃ rest, s.Span payload.length payload (data ++ rest)
  room : payload.length + data.length ≤ s.file.capacity

/-- The header says so, and the length in memory does not yet. -/
structure Opened.Marked (path : String) (before : Contents) (payload data : Bytes) (s : Opened) :
    Prop where
  span : ∃ rest, s.Span (payload ++ data).length (payload ++ data) rest
  room : payload.length + data.length ≤ s.file.capacity
  named : s.file.path = path
  apart : s.files.Apart path before

theorem Opened.At.copied {s : Opened} (held : s.At path before payload)
    (room : payload.length + data.length ≤ s.file.capacity) :
    (s.copied (8 + payload.length) data).Written path before payload data := by
  obtain ⟨⟨⟨rest, layout, mapped, within⟩, logicalLen, inside⟩, named, apart⟩ := held
  have front : (Bytes.le 8 payload.length ++ payload).length = 8 + payload.length := by
    rw [List.length_append, Bytes.le_length]
  have bytes : overwrite (8 + payload.length) data s.bytes =
      Bytes.le 8 payload.length ++ (payload ++ (data ++ rest.drop data.length)) := by
    rw [Opened.bytes, layout.bytes, ← List.append_assoc, ← front, overwrite_append,
      List.append_assoc]
  have long : (data ++ rest.drop data.length).length = rest.length := by
    rw [List.length_append, List.length_drop]
    omega
  have size := layout.size
  have written : (s.copied (8 + payload.length) data).files.Layout s.file.path payload.length
      payload (data ++ rest.drop data.length) := by
    refine ⟨?_, by omega⟩
    rw [Opened.copied, Files.write_contents, bytes]
  have span : (s.copied (8 + payload.length) data).Span payload.length payload
      (data ++ rest.drop data.length) := by
    refine ⟨written, mapped, ?_⟩
    change s.file.capacity ≤ _
    omega
  exact ⟨⟨⟨⟨_, span⟩, logicalLen, inside⟩, named, named ▸ Files.Apart.write (named ▸ apart) _⟩,
    ⟨_, span⟩, room⟩

theorem Opened.Written.marked {s : Opened} (written : s.Written path before payload data) :
    (s.copied 0 (Bytes.le 8 (payload.length + data.length))).Marked path before payload data := by
  obtain ⟨⟨_, named, apart⟩, ⟨rest, layout, mapped, within⟩, room⟩ := written
  have bytes : overwrite 0 (Bytes.le 8 (payload.length + data.length)) s.bytes =
      Bytes.le 8 (payload ++ data).length ++ ((payload ++ data) ++ rest) := by
    have front := overwrite_append [] (Bytes.le 8 (payload.length + data.length))
      (Bytes.le 8 payload.length ++ (payload ++ (data ++ rest)))
    rw [List.nil_append, List.nil_append,
      List.drop_left' (by rw [Bytes.le_length, Bytes.le_length]), List.length_nil] at front
    rw [Opened.bytes, layout.bytes, front, List.length_append, List.append_assoc]
  have size := layout.size
  rw [List.length_append] at size within
  refine ⟨⟨rest, ⟨?_, ?_⟩, mapped, ?_⟩, room, named, named ▸ Files.Apart.write (named ▸ apart) _⟩
  · rw [Opened.copied, Files.write_contents, bytes]
  · rw [List.length_append]
    omega
  · change s.file.capacity ≤ _
    rw [List.length_append]
    omega

theorem Opened.Marked.stands {s : Opened} (marked : s.Marked path before payload data) :
    AppendExit path before payload data .crash s := by
  obtain ⟨⟨rest, layout, _, _⟩, _, named, apart⟩ := marked
  exact ⟨apart, Or.inr ⟨rest, named ▸ layout⟩⟩

theorem writeBehind_triple :
    Triple (fun s => s.At path before payload ∧ payload.length + data.length ≤ s.file.capacity)
      (MmapFile.writeBehind overflow payload.length data)
      (fun newLen s => newLen = (payload ++ data).length ∧ s.At path before (payload ++ data))
      (AppendExit path before payload data) := by
  intro s start
  obtain ⟨held, room⟩ := start
  obtain ⟨⟨rest, ⟨_, size⟩, mapped, within⟩, _, _⟩ := held.holds
  refine (raise_bind (Overflow.add_ok (by simp only [headerSize]; omega)) (Triple.bind
    (fun _ => Opened.Written path before payload data)
    (copy_triple (by simp only [headerSize]; omega) ?_ ?_ ?_ ?_) fun _ =>
    raise_bind (Overflow.add_ok (by omega)) (Triple.bind
    (fun _ => Opened.Marked path before payload data) (copy_triple (by rw [Bytes.le_length]; omega)
      ?_ ?_ ?_ ?_) fun _ => Triple.bind (fun _ s => s.At path before (payload ++ data))
    (Triple.update ?_) fun _ => Triple.ret ?_)) : Triple (· = s) _ _ _) s rfl
  · rintro s rfl
    simp only [headerSize]
    omega
  · rintro s rfl
    exact held.copied room
  · rintro s rfl
    exact appendExit_crash held.served
  · rintro s rfl
    exact appendExit_crash (held.copied room).held
  · rintro t written
    obtain ⟨_, ⟨_, _, mapped, _⟩, room⟩ := written
    rw [Bytes.le_length]
    omega
  · exact fun t written => written.marked
  · exact fun t written => appendExit_crash written.held.served
  · exact fun t written => written.marked.stands
  · rintro t ⟨⟨rest, layout, mapped, within⟩, room, named, apart⟩
    refine ⟨⟨⟨rest, layout, mapped, within⟩, ?_, ?_⟩, named, apart⟩
    · exact List.length_append.symm
    · rw [List.length_append]
      exact room
  · exact fun t held => ⟨List.length_append.symm, held⟩

/-- An append adds its data, or fails and changes nothing, or is cut off before the data
counts or when it does. -/
theorem append_triple (overflow : Overflow) (small : data.length < 2 ^ 61) :
    Triple (Opened.At path before payload) (MmapFile.append overflow data)
      (fun newLen s => newLen = (payload ++ data).length ∧ s.At path before (payload ++ data))
      (AppendExit path before payload data) := by
  refine get_bind fun s held => ?_
  obtain ⟨⟨rest, ⟨_, size⟩, _, within⟩, logicalLen, inside⟩ := held.holds
  by_cases empty : data.length = 0
  · rw [if_pos empty, List.length_eq_zero_iff.mp empty, List.append_nil]
    refine Triple.ret ?_
    rintro t rfl
    exact ⟨logicalLen, held⟩
  · rw [if_neg empty, logicalLen]
    refine raise_bind (Overflow.add_ok (by omega)) (Triple.bind _ ?_ fun _ => writeBehind_triple)
    intro t start
    exact makeRoom_triple (by omega) t (start ▸ held)

end Append

/-- The file on disk has this payload, or it has none and is empty or missing. -/
def Files.Keeps (files : Files) (path : String) (payload : Bytes) : Prop :=
  files.Stands path payload ∨
    payload = [] ∧ (files.contents path = none ∨ files.contents path = some [])

/-- Files that differ from what they were at `path` only, where they keep a payload. -/
structure Files.KeepsAt (path : String) (before : Contents) (payload : Bytes) (files : Files) :
    Prop where
  keeps : files.Keeps path payload
  apart : files.Apart path before

/-- How opening stops: with an error or with the process, and nothing is lost. -/
def OpenExit (path : String) (before : Contents) (payload : Bytes) : Fault → Files → Prop
  | .error reason, files => (∃ context, reason = .io context) ∧ files.KeepsAt path before payload
  | .crash, files => files.KeepsAt path before payload
  | .panic, _ => False

section Open

variable {path : String} {before : Contents} {payload : Bytes} {context : String}

theorem Files.KeepsAt.served {files : Files} (kept : files.KeepsAt path before payload) :
    files.served.KeepsAt path before payload := by
  obtain ⟨⟨rest, ⟨contents, size⟩⟩ | blank, apart⟩ := kept
  · exact ⟨Or.inl ⟨rest, contents, size⟩, apart⟩
  · exact ⟨Or.inr blank, apart⟩

theorem Files.Stands.served {files : Files} (stands : files.Stands path payload) :
    files.served.Stands path payload := by
  obtain ⟨rest, contents, size⟩ := stands
  exact ⟨rest, contents, size⟩

theorem call_keeps {pre : Files → Prop}
    (keep : ∀ files, pre files → files.KeepsAt path before payload)
    (kept : ∀ files, pre files → pre files.served) :
    Triple pre (call context (fun _ => true) id) (fun _ => pre) (OpenExit path before payload) := by
  refine call_triple ?_ ?_ ?_ ?_
  · exact fun files start _ => kept files start
  · exact fun files start => ⟨⟨context, rfl⟩, keep _ (kept files start)⟩
  · exact fun files start => keep _ (kept files start)
  · exact fun files start _ => keep _ (kept files start)

theorem fileLen_triple {pre : Files → Prop}
    (keep : ∀ files, pre files → files.KeepsAt path before payload)
    (kept : ∀ files, pre files → pre files.served) :
    Triple pre (fileLen path context) (fun length files => length = (files.bytes path).length ∧
      pre files) (OpenExit path before payload) :=
  Triple.bind (fun _ => pre) (call_keeps keep kept) fun _ => get_bind fun files start =>
    Triple.ret fun _ same => by
      subst same
      exact ⟨rfl, start⟩

/-- An open file that is there. -/
def Files.Present (path : String) (before : Contents) (payload : Bytes) (files : Files) : Prop :=
  files.KeepsAt path before payload ∧ files.contents path ≠ none

theorem openPath_triple (create : Bool) :
    Triple (Files.KeepsAt path before payload) (openPath path create)
      (fun _ => Files.Present path before payload) (OpenExit path before payload) := by
  have opened (files : Files) (kept : files.KeepsAt path before payload) :
      (files.served.write path (files.served.bytes path)).Present path before payload := by
    have there := Files.write_contents files.served path (files.served.bytes path)
    refine ⟨⟨?_, kept.apart.write _⟩, by rw [there]; simp⟩
    rcases kept.keeps with ⟨rest, layout⟩ | ⟨none, blank⟩
    · refine Or.inl ⟨rest, ?_, layout.size⟩
      rw [there]
      exact congrArg some layout.bytes
    · refine Or.inr ⟨none, Or.inr ?_⟩
      rw [there]
      change some ((files.contents path).getD []) = _
      rcases blank with missing | empty
      · rw [missing]
        rfl
      · rw [empty]
        rfl
  refine call_triple ?_ ?_ ?_ ?_
  · exact fun files kept _ => opened files kept
  · exact fun files kept => ⟨⟨_, rfl⟩, kept.served⟩
  · exact fun files kept => kept.served
  · exact fun files kept _ => (opened files kept).1

theorem stands_zeroed {files : Files} (size : Nat) (long : size < 2 ^ 62)
    (contents : files.contents path = some (List.replicate (8 + size) 0)) :
    files.Stands path [] := by
  refine ⟨List.replicate size 0, ?_, ?_⟩
  · rw [contents, List.replicate_add]
    rfl
  · rw [List.length_replicate]
    simp only [List.length_nil]
    omega

/-- A file with a header, of a length of its own when it had one before. -/
structure Files.Headed (path : String) (before : Contents) (payload : Bytes) (length : Nat)
    (files : Files) : Prop where
  stands : files.Stands path payload
  apart : files.Apart path before
  fresh : length = 0 → payload = []

theorem Files.Headed.keeps {length : Nat} {files : Files}
    (headed : files.Headed path before payload length) : files.KeepsAt path before payload :=
  ⟨Or.inl headed.stands, headed.apart⟩

theorem Files.Headed.served {length : Nat} {files : Files}
    (headed : files.Headed path before payload length) :
    files.served.Headed path before payload length :=
  ⟨headed.stands.served, headed.apart, headed.fresh⟩

theorem Files.Layout.length {files : Files} {header : Nat} {rest : Bytes}
    (layout : files.Layout path header payload rest) :
    (files.bytes path).length = 8 + payload.length + rest.length := by
  rw [layout.bytes, List.length_append, List.length_append, Bytes.le_length, Nat.add_assoc]

theorem allocate_triple (length : Nat) :
    Triple (fun files => length = (files.bytes path).length ∧ files.Present path before payload)
      (MmapFile.allocate path length) (fun _ => Files.Headed path before payload length)
      (OpenExit path before payload) := by
  rintro files ⟨measured, kept, present⟩
  unfold MmapFile.allocate
  by_cases empty : length = 0
  · rw [if_pos empty]
    have none : payload = [] := by
      rcases kept.keeps with ⟨rest, layout⟩ | ⟨none, _⟩
      · have long := layout.length
        omega
      · exact none
    have bytes : files.bytes path = [] := List.length_eq_zero_iff.mp (measured ▸ empty)
    have zeroed : (files.served.write path
        (resize (headerSize + initialFileSize) (files.served.bytes path))).Stands path [] := by
      refine stands_zeroed initialFileSize (by simp only [initialFileSize]; omega) ?_
      rw [Files.write_contents]
      change some (resize _ (files.bytes path)) = _
      rw [bytes]
      rfl
    have allocated : Triple (· = files)
        (setLen path "initial file allocation" (headerSize + initialFileSize))
        (fun _ => Files.Headed path before payload length) (OpenExit path before payload) := by
      refine call_triple ?_ ?_ ?_ ?_ <;> rintro _ rfl
      · exact fun _ => ⟨none ▸ zeroed, kept.apart.write _, fun _ => none⟩
      · exact ⟨⟨_, rfl⟩, kept.served⟩
      · exact kept.served
      · exact fun _ => ⟨Or.inl (none ▸ zeroed), kept.apart.write _⟩
    exact allocated files rfl
  · rw [if_neg empty]
    refine ⟨?_, kept.apart, fun zero => absurd zero empty⟩
    rcases kept.keeps with stands | ⟨_, missing | blank⟩
    · exact stands
    · exact absurd missing present
    · rw [Files.bytes, blank] at measured
      exact absurd measured empty

theorem readLength_ok {files : Files} {length : Nat} {file : MmapFile}
    (headed : files.Headed path before payload length) (named : file.path = path)
    (whole : file.mapped = (files.bytes path).length) :
    MmapFile.readLength length ⟨file, files⟩ = .ok payload.length := by
  unfold MmapFile.readLength
  by_cases empty : length = 0
  · rw [if_pos empty, headed.fresh empty]
    rfl
  · obtain ⟨rest, layout⟩ := headed.stands
    have long := layout.length
    have size := layout.size
    have inside : 0 ≤ headerSize ∧ headerSize ≤ file.mapped := by
      simp only [headerSize]
      omega
    have header : Opened.bytes ⟨file, files⟩ = Bytes.le 8 payload.length ++ (payload ++ rest) := by
      rw [Opened.bytes, named, layout.bytes]
    rw [if_neg empty, Opened.slice, if_pos inside, header, headerSize, List.drop_zero,
      List.take_left' (Bytes.le_length _ _)]
    change Except.ok (Bytes.ofLe (Bytes.le 8 payload.length)) = _
    rw [Bytes.ofLe_le 8 _ (by omega)]

theorem open_triple (create : Bool) :
    Triple (Files.KeepsAt path before payload) (MmapFile.open_ path create)
      (fun file files => Opened.At path before payload ⟨file, files⟩)
      (OpenExit path before payload) := by
  refine Triple.bind _ (openPath_triple create) fun _ => Triple.bind _
    (fileLen_triple (fun files present => present.1) fun files present =>
      ⟨present.1.served, present.2⟩) fun length => Triple.bind _ (allocate_triple length)
    fun _ => Triple.bind _ (fileLen_triple (fun files headed => headed.keeps)
      fun files headed => headed.served) fun total => Triple.bind
    (fun _ files => total = (files.bytes path).length ∧ files.Headed path before payload length)
    (call_keeps (fun files start => start.2.keeps) fun files start => ⟨start.1, start.2.served⟩)
    fun _ => get_bind fun files start => ?_
  obtain ⟨whole, headed⟩ := start
  refine raise_bind (readLength_ok headed rfl whole) (Triple.ret ?_)
  rintro _ rfl
  obtain ⟨⟨rest, layout⟩, apart, _⟩ := headed
  have long := layout.length
  have size := layout.size
  refine ⟨⟨⟨rest, layout, ?_, ?_⟩, rfl, ?_⟩, rfl, apart⟩ <;> simp only [headerSize] <;> omega

end Open

/-- No call to come fails. -/
def Files.Calm (files : Files) : Prop := files.verdicts = []

section Calm

variable {path : String} {before : Contents} {payload bytes : Bytes} {context : String}

theorem call_calm {pre : Files → Prop} {post : Unit → Files → Prop} {exit : Fault → Files → Prop}
    {possible : Files → Bool} {change : Files → Files}
    (able : ∀ files, pre files → files.Calm ∧ possible files = true)
    (done : ∀ files, pre files → post () (change files.served)) :
    Triple pre (call context possible change) post exit := by
  intro files start
  obtain ⟨calm, able⟩ := able files start
  have verdict : files.verdict = .ok := by
    rw [Files.verdict, show files.verdicts = [] from calm]
    rfl
  simp only [call, verdict, able, ↓reduceIte]
  exact done files start

theorem Files.Calm.served {files : Files} (calm : files.Calm) : files.served.Calm :=
  congrArg List.tail calm

theorem fileLen_calm {exit : Fault → Files → Prop} :
    Triple Files.Calm (fileLen path context) (fun _ => Files.Calm) exit :=
  Triple.bind (fun _ => Files.Calm) (call_calm (fun _ calm => ⟨calm, rfl⟩)
    fun _ calm => calm.served) fun _ => get_bind fun _ calm =>
      Triple.ret fun _ same => same ▸ calm

theorem readLength_error {length : Nat} {mapping : Opened} {fault : Fault}
    (failed : MmapFile.readLength length mapping = .error fault) : fault = .panic := by
  unfold MmapFile.readLength Opened.slice at failed
  split at failed
  · contradiction
  · split at failed
    · contradiction
    · exact (Except.error.inj failed).symm

/-- Where no call fails, a file that is there or may be created can be opened, unless that
panics. -/
theorem open_calm (create : Bool) :
    Triple (fun files => files.Calm ∧ (create || (files.contents path).isSome) = true)
      (MmapFile.open_ path create) (fun _ => Files.Calm) (fun fault _ => fault = .panic) := by
  refine Triple.bind (fun _ => Files.Calm) (call_calm (fun files start => start)
    fun files start => start.1.served) fun _ => Triple.bind (fun _ => Files.Calm) fileLen_calm
    fun length => Triple.bind (fun _ => Files.Calm) (Triple.ite (fun _ => call_calm
      (fun files calm => ⟨calm, by decide⟩) fun files calm => calm.served)
      fun _ => Triple.ret fun files calm => calm) fun _ => Triple.bind (fun _ => Files.Calm)
    fileLen_calm fun total => Triple.bind (fun _ => Files.Calm) (call_calm
      (fun files calm => ⟨calm, rfl⟩) fun files calm => calm.served) fun _ =>
    get_bind fun files calm => ?_
  cases result : MmapFile.readLength length ⟨⟨path, total, 0, 0⟩, files⟩ with
  | error fault =>
      rintro _ rfl
      exact readLength_error result
  | ok logicalLen =>
      rintro _ rfl
      exact calm

/-- A program that stops in no way that both triples allow returns. -/
theorem returns_of_both {σ α : Type} {pre pre' : σ → Prop} {program : EStateM Fault σ α}
    {post post' : α → σ → Prop} {exit exit' : Fault → σ → Prop}
    (held : Triple pre program post exit) (calm : Triple pre' program post' exit')
    (never : ∀ fault s, exit fault s → ¬ exit' fault s) :
    Triple (fun s => pre s ∧ pre' s) program (fun value s => post value s ∧ post' value s)
      fun _ _ => False :=
  Triple.consequence (held.and calm) (fun _ start => start) (fun _ _ both => both)
    fun fault s both => never fault s both.1 both.2

/-- What does not panic returns where it stops for nothing else. -/
theorem calm_returns {σ α : Type} {pre calm : σ → Prop} {program : EStateM Fault σ α}
    {post later : α → σ → Prop} {exit : Fault → σ → Prop}
    (held : Triple pre program post exit)
    (panics : Triple calm program later fun fault _ => fault = .panic)
    (quiet : ∀ s, ¬ exit .panic s) :
    Triple (fun s => pre s ∧ calm s) program (fun value s => post value s ∧ later value s)
      fun _ _ => False := by
  refine returns_of_both held panics ?_
  rintro fault s stopped rfl
  exact quiet s stopped

/-- A file that keeps a payload can be opened, and is found to hold it. -/
theorem open_returns (create : Bool) :
    Triple (fun files => files.KeepsAt path before payload ∧ files.Calm ∧
        (create || (files.contents path).isSome) = true)
      (MmapFile.open_ path create)
      (fun file files => Opened.At path before payload ⟨file, files⟩ ∧ files.Calm)
      fun _ _ => False :=
  calm_returns (open_triple create) (open_calm create) fun _ stopped => stopped

/-- A file with these bytes, where no call fails. -/
structure Files.Reads (path : String) (bytes : Bytes) (files : Files) : Prop where
  calm : files.Calm
  present : files.contents path = some bytes

theorem Files.Reads.served {files : Files} (reads : files.Reads path bytes) :
    files.served.Reads path bytes := ⟨reads.calm.served, reads.present⟩

theorem Files.Reads.read {files : Files} (reads : files.Reads path bytes) :
    files.bytes path = bytes := by
  rw [Files.bytes, reads.present]
  rfl

theorem fileLen_reads {context : String} {exit : Fault → Files → Prop} :
    Triple (Files.Reads path bytes) (fileLen path context)
      (fun length files => length = bytes.length ∧ files.Reads path bytes) exit := by
  refine Triple.bind (fun _ => Files.Reads path bytes) (call_calm (fun files reads =>
    ⟨reads.calm, rfl⟩) fun files reads => reads.served) fun _ => get_bind fun files reads =>
      Triple.ret ?_
  rintro _ rfl
  exact ⟨congrArg List.length reads.read, reads⟩

theorem access_calm {pre : Files → Prop} {post : Unit → Files → Prop} {exit : Fault → Files → Prop}
    {change : Files → Files} (calm : ∀ files, pre files → files.Calm)
    (done : ∀ files, pre files → post () (change files.served)) :
    Triple pre (access change) post exit := by
  intro files start
  have verdict : files.verdict = .ok := by
    rw [Files.verdict, show files.verdicts = [] from calm files start]
    rfl
  simp only [access, verdict]
  exact done files start

theorem Overflow.add_error {overflow : Overflow} {a b : Nat} {fault : Fault}
    (failed : overflow.add a b = .error fault) : fault = .panic := by
  unfold Overflow.add at failed
  split at failed
  · contradiction
  · cases overflow with
    | checked => exact (Except.error.inj failed).symm
    | wrapping => contradiction

/-- A sum that does not fit panics or wraps around. -/
theorem add_calm {σ : Type} {pre : σ → Prop} {overflow : Overflow} {a b : Nat} :
    Triple pre (raise (overflow.add a b)) (fun _ => pre) (fun fault _ => fault = .panic) := by
  intro s start
  cases sum : overflow.add a b with
  | ok value => exact start
  | error fault => exact Overflow.add_error sum

theorem copy_calm {overflow : Overflow} {start : Nat} {data : Bytes} :
    Triple (fun s => s.files.Calm) (copy overflow start data) (fun _ s => s.files.Calm)
      (fun fault _ => fault = .panic) := by
  refine Triple.bind _ add_calm fun stop => get_bind fun s calm => Triple.ite (fun _ => ?_)
    fun _ t _ => rfl
  refine onFiles_triple fun file => access_calm ?_ ?_ <;> rintro files rfl
  · exact calm
  · exact calm.served

theorem growTo_calm {exit : Fault → Opened → Prop} {overflow : Overflow} {newCapacity : Nat}
    (small : headerSize + newCapacity < 2 ^ 63) :
    Triple (fun s => s.files.Calm) (MmapFile.growTo overflow newCapacity)
      (fun _ s => s.files.Calm) exit := by
  refine raise_bind (Overflow.add_ok (by omega)) (Triple.bind (fun _ s => s.files.Calm)
    (onFiles_triple fun file => call_calm (fun _ calm => ⟨calm, rfl⟩) fun _ calm => calm.served)
    fun _ => get_bind fun s calm => Triple.bind (fun _ s => s.files.Calm)
      (onFiles_triple fun file => call_calm ?_ ?_) fun _ => Triple.bind (fun _ s => s.files.Calm)
      (onFiles_triple fun file => call_calm (fun _ calm => ⟨calm, rfl⟩) fun _ calm => calm.served)
      fun _ => Triple.update fun s calm => calm) <;> rintro files rfl
  · exact ⟨calm, decide_eq_true small⟩
  · exact calm.served

/-- Where no call fails, an append of what fits in memory returns, unless it panics. -/
theorem append_calm (overflow : Overflow) {data : Bytes} :
    Triple (fun s => s.files.Calm ∧ s.file.logicalLen + data.length ≤ 2 ^ 61)
      (MmapFile.append overflow data) (fun _ s => s.files.Calm)
      (fun fault _ => fault = .panic) := by
  have write (currentLen : Nat) : Triple (fun s : Opened => s.files.Calm)
      (MmapFile.writeBehind overflow currentLen data) (fun _ s => s.files.Calm)
      (fun fault _ => fault = .panic) :=
    Triple.bind _ add_calm fun offset => Triple.bind _ copy_calm fun _ => Triple.bind _ add_calm
      fun newLen => Triple.bind _ copy_calm fun _ => Triple.bind (fun _ s => s.files.Calm)
        (Triple.update fun s calm => calm) fun _ => Triple.ret fun s calm => calm
  refine get_bind fun s ⟨calm, near⟩ => Triple.ite (fun _ => Triple.ret ?_) fun _ =>
    raise_bind (Overflow.add_ok (by omega)) (Triple.bind
      (fun _ s => s.files.Calm) ?_ fun _ => write _)
  · rintro _ rfl
    exact calm
  · rintro t rfl
    by_cases short : t.file.capacity < t.file.logicalLen + data.length
    · have small : MmapFile.grownCapacity t.file.capacity (t.file.logicalLen + data.length) <
          2 * max (t.file.logicalLen + data.length) initialFileSize :=
        grownCapacity_lt (by omega) (by omega)
      rw [MmapFile.makeRoom, if_pos short, MmapFile.grow]
      refine growTo_calm ?_ t calm
      simp only [headerSize, initialFileSize] at *
      omega
    · rw [MmapFile.makeRoom, if_neg short]
      exact calm

end Calm

end Perfdb.Mmap
