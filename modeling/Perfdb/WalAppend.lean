import Mathlib
import Perfdb.WalReplay

set_option autoImplicit false

namespace Perfdb

/-- The environment ordered this stop, at one call or another. -/
def Abort.Ordered {ε : Type} (verdicts : List Verdict) (abort : Abort ε) : Prop :=
  ∃ reason, abort.Raises reason verdicts

theorem Abort.Ordered.mono {ε : Type} {fewer more : List Verdict} {abort : Abort ε}
    (ordered : abort.Ordered fewer) (suffix : fewer <:+ more) : abort.Ordered more := by
  obtain ⟨reason, raised⟩ := ordered
  exact ⟨reason, raised.mono suffix⟩

theorem Abort.Ordered.not_healthy {ε : Type} {verdicts : List Verdict} {abort : Abort ε}
    (ordered : abort.Ordered verdicts) (healthy : ∀ v ∈ verdicts, v = .ok) : False := by
  obtain ⟨reason, ⟨_, done, member⟩ | ⟨_, done, member⟩⟩ := ordered
  · exact absurd (healthy _ member) (by simp)
  · exact absurd (healthy _ member) (by simp)

theorem Dir.contents_congr {dir other : Dir} {name : String} (same : dir[name]? = other[name]?) :
    dir.contents name = other.contents name := by
  rw [contents, contents, same]

theorem Dir.durable_congr {dir other : Dir} {name : String} (same : dir[name]? = other[name]?) :
    dir.durable name = other.durable name := by
  rw [durable, durable, same]

/-- A file that did not exist reads as it did before: empty. -/
theorem Dir.contents_create (dir : Dir) (name other : String) :
    (dir.create name).contents other = dir.contents other := by
  simp only [contents, create, Std.ExtTreeMap.getElem?_insertIfNew]
  split
  · rename_i new
    obtain rfl := Std.LawfulEqCmp.eq_of_compare new.1
    simp [Std.ExtTreeMap.getElem?_eq_none new.2]
  · rfl

theorem Dir.durable_create (dir : Dir) (name other : String) :
    (dir.create name).durable other = dir.durable other := by
  simp only [durable, create, Std.ExtTreeMap.getElem?_insertIfNew]
  split
  · rename_i new
    obtain rfl := Std.LawfulEqCmp.eq_of_compare new.1
    simp [Std.ExtTreeMap.getElem?_eq_none new.2, File.empty]
  · rfl

theorem Dir.mem_create (dir : Dir) (name other : String) :
    other ∈ dir.create name ↔ other = name ∨ other ∈ dir := by
  rw [create, Std.ExtTreeMap.mem_insertIfNew]
  exact or_congr_left ⟨fun same => (Std.LawfulEqCmp.eq_of_compare same).symm,
    fun same => same ▸ Std.ReflCmp.compare_self⟩

namespace Wal

namespace WalState

@[simp] theorem handle_writer (s : WalState) : s.handle.writer = s.wal.writer := rfl

@[simp] theorem handle_world (s : WalState) : s.handle.world = s.world := rfl

/-- `data` was added to the open segment; the writer stays where it is. -/
structure Wrote (s t : WalState) (data : Bytes) : Prop where
  handle : s.handle.Wrote t.handle data
  config : t.wal.config = s.wal.config
  currentSegment : t.wal.currentSegment = s.wal.currentSegment

/-- `data` was added to the segment that was open, and at most one segment, the
next in number, was created. -/
structure Grew (s t : WalState) (data : Bytes) : Prop where
  config : t.wal.config = s.wal.config
  view : ∀ name, t.handle.view name =
    s.handle.view name ++ if name = s.wal.writer.file then data else []
  durable : ∀ name, s.world.dir.durable name <+: t.world.dir.durable name
  kept : ∀ name ∈ s.world.dir, name ∈ t.world.dir
  made : ∀ name ∈ t.world.dir, name ∈ s.world.dir ∨ name = segmentName t.wal.currentSegment
  file : t.wal.writer.file = s.wal.writer.file ∨
    t.wal.writer.file = segmentName t.wal.currentSegment
  opened : t.wal.writer.file ∈ t.world.dir
  currentSegment : t.wal.currentSegment = s.wal.currentSegment ∨
    t.wal.currentSegment = s.wal.currentSegment + 1
  verdicts : t.world.verdicts <:+ s.world.verdicts

/-- Nothing of the log is only in the buffer or the cache. -/
def Synced (s : WalState) : Prop :=
  ∀ id, s.world.dir.durable (segmentName id) = s.handle.view (segmentName id)

theorem Wrote.refl (s : WalState) : s.Wrote s [] := ⟨Handle.Wrote.refl _, rfl, rfl⟩

theorem Wrote.trans {r s t : WalState} {first second : Bytes} (left : r.Wrote s first)
    (right : s.Wrote t second) : r.Wrote t (first ++ second) :=
  ⟨left.handle.trans right.handle, right.config.trans left.config,
    right.currentSegment.trans left.currentSegment⟩

theorem Wrote.file {s t : WalState} {data : Bytes} (wrote : s.Wrote t data) :
    t.wal.writer.file = s.wal.writer.file := wrote.handle.file

theorem Wrote.opened {s t : WalState} {data : Bytes} (wrote : s.Wrote t data)
    (present : s.wal.writer.file ∈ s.world.dir) : t.wal.writer.file ∈ t.world.dir :=
  wrote.handle.opened present

theorem Wrote.view {s t : WalState} {data : Bytes} (wrote : s.Wrote t data) (name : String) :
    t.handle.view name = s.handle.view name ++ if name = s.wal.writer.file then data else [] := by
  by_cases same : name = s.wal.writer.file
  · rw [if_pos same, same]
    exact wrote.handle.view
  · have elsewhere : name ≠ t.wal.writer.file := wrote.file ▸ same
    have untouched := wrote.handle.others name same
    simp only [handle_world] at untouched
    simp only [Handle.view, handle_world, handle_writer, same, elsewhere, ↓reduceIte,
      List.append_nil, Dir.contents_congr untouched]

theorem Wrote.durable {s t : WalState} {data : Bytes} (wrote : s.Wrote t data) (name : String) :
    s.world.dir.durable name <+: t.world.dir.durable name := by
  by_cases same : name = s.wal.writer.file
  · rw [same]
    exact wrote.handle.durable
  · have untouched := wrote.handle.others name same
    simp only [handle_world] at untouched
    rw [Dir.durable_congr untouched]

theorem Wrote.grew {s t : WalState} {data : Bytes} (wrote : s.Wrote t data)
    (present : s.wal.writer.file ∈ s.world.dir) : s.Grew t data where
  config := wrote.config
  view := wrote.view
  durable := wrote.durable
  kept name member := (wrote.handle.member name).mpr member
  made name member := Or.inl ((wrote.handle.member name).mp member)
  file := Or.inl wrote.file
  opened := wrote.opened present
  currentSegment := Or.inl wrote.currentSegment
  verdicts := wrote.handle.verdicts

theorem Wrote.then_grew {r s t : WalState} {data : Bytes} (wrote : r.Wrote s data)
    (present : r.wal.writer.file ∈ r.world.dir) (grew : s.Grew t []) : r.Grew t data where
  config := grew.config.trans wrote.config
  view name := by rw [grew.view, ite_self, List.append_nil, wrote.view]
  durable name := (wrote.durable name).trans (grew.durable name)
  kept name member := grew.kept name ((wrote.grew present).kept name member)
  made name member := (grew.made name member).imp_left (wrote.handle.member name).mp
  file := grew.file.imp_left fun same => same.trans wrote.file
  opened := grew.opened
  currentSegment := by
    rw [← wrote.currentSegment]
    exact grew.currentSegment
  verdicts := grew.verdicts.trans wrote.handle.verdicts

theorem Wrote.synced {s t : WalState} {data : Bytes} (wrote : s.Wrote t data) (synced : s.Synced)
    (written : t.world.dir.durable t.wal.writer.file = t.world.dir.contents t.wal.writer.file)
    (clear : t.wal.writer.buffer = []) : t.Synced := by
  intro id
  by_cases same : segmentName id = t.wal.writer.file
  · rw [same, written, Handle.view, handle_writer, clear, ite_self, List.append_nil, handle_world]
  · have elsewhere : segmentName id ≠ s.wal.writer.file := wrote.file ▸ same
    have untouched := wrote.handle.others _ elsewhere
    simp only [handle_world] at untouched
    rw [wrote.view, if_neg elsewhere, List.append_nil, ← synced, Dir.durable_congr untouched]

end WalState

section Specifications

variable (s : WalState)

/-- An operation on the file leaves the rest of the writer alone. -/
theorem onFile_triple {α : Type} {operation : FileM PerfDbError α} {post : α → Handle → Prop}
    {exit : Abort PerfDbError → Handle → Prop}
    (triple : Triple (· = s.handle) operation post exit) :
    Triple (· = s) (onFile operation)
      (fun value t => post value t.handle ∧ t.wal.config = s.wal.config ∧
        t.wal.currentSegment = s.wal.currentSegment)
      (fun abort t => exit abort t.handle ∧ t.wal.config = s.wal.config ∧
        t.wal.currentSegment = s.wal.currentSegment) := by
  rintro t rfl
  have result := triple t.handle rfl
  unfold onFile
  split at result
  · rename_i value h run
    simp only [run]
    exact ⟨result, rfl, rfl⟩
  · rename_i abort h run
    simp only [run]
    exact ⟨result, rfl, rfl⟩

/-- Whether or not the segment gets opened, the writer stays with its file. -/
theorem openSegment_triple :
    Triple (· = s) openSegment
      (fun _ t => t.wal = s.wal ∧
        t.world.dir = s.world.dir.create (segmentName s.wal.currentSegment) ∧
        t.world.verdicts <:+ s.world.verdicts)
      (fun abort t => t.wal = s.wal ∧ (t.world.dir = s.world.dir ∨
        t.world.dir = s.world.dir.create (segmentName s.wal.currentSegment)) ∧
        t.world.verdicts <:+ s.world.verdicts ∧ abort.Ordered s.world.verdicts) := by
  let reason := PerfDbError.io
    ("open new WAL segment: " ++ segmentPath s.wal.config.dir s.wal.currentSegment)
  let name := segmentName s.wal.currentSegment
  have run : openSegment s = onFile (openAppend reason name) s := rfl
  rintro t rfl
  rw [run]
  have result := openAppend_triple reason t.handle name t.handle rfl
  unfold onFile
  split at result
  · rename_i value h opened
    obtain ⟨writer, dir, verdicts⟩ := result
    simp only [opened]
    exact ⟨congrArg (fun w => { t.wal with writer := w }) writer, dir, verdicts⟩
  · rename_i abort h stopped
    obtain ⟨writer, dir, verdicts, raised⟩ := result
    simp only [stopped]
    exact ⟨congrArg (fun w => { t.wal with writer := w }) writer, dir, verdicts, reason, raised⟩

variable (present : s.wal.writer.file ∈ s.world.dir)

include present

theorem writeAll_wrote (reason : PerfDbError) (data : Bytes) :
    Triple (· = s) (onFile (writeAll reason data))
      (fun _ t => s.Wrote t data)
      (fun abort t => ∃ written, written <+: data ∧ s.Wrote t written ∧
        abort.Ordered s.world.verdicts) := by
  refine (onFile_triple s (writeAll_triple reason s.handle present data)).consequence
    (fun _ => id) ?_ ?_
  · rintro - t ⟨wrote, config, current⟩
    exact ⟨wrote, config, current⟩
  · rintro abort t ⟨⟨kept, wrote, raised, _⟩, config, current⟩
    exact ⟨data.take kept, List.take_prefix _ _, ⟨wrote, config, current⟩, reason, raised⟩

/-- A sync writes no new bytes; when it returns the open segment is durable. -/
theorem sync_triple :
    Triple (· = s) sync
      (fun _ t => s.Wrote t [] ∧ t.wal.writer.buffer = [] ∧
        t.world.dir.durable t.wal.writer.file = t.world.dir.contents t.wal.writer.file)
      (fun abort t => s.Wrote t [] ∧ abort.Ordered s.world.verdicts) := by
  unfold sync
  refine Triple.bind (fun _ t => s.Wrote t [] ∧ t.wal.writer.buffer = []) ?_ fun _ =>
    Triple.bind (fun _ t => s.Wrote t [] ∧ t.wal.writer.buffer = [] ∧
      t.world.dir.durable t.wal.writer.file = t.world.dir.contents t.wal.writer.file) ?_ fun _ =>
    Triple.bind (fun _ t => s.Wrote t [] ∧ t.wal.writer.buffer = [] ∧
      t.world.dir.durable t.wal.writer.file = t.world.dir.contents t.wal.writer.file) ?_ fun _ =>
    ?_
  · refine (onFile_triple s (flushBuffer_triple _ s.handle present)).consequence
      (fun _ => id) ?_ ?_
    · rintro - t ⟨⟨wrote, clear⟩, config, current⟩
      exact ⟨⟨wrote, config, current⟩, clear⟩
    · rintro abort t ⟨⟨wrote, raised, _⟩, config, current⟩
      exact ⟨⟨wrote, config, current⟩, _, raised⟩
  · refine Triple.of_start ?_
    rintro t ⟨flushed, clear⟩
    refine (onFile_triple t (syncData_triple _ t.handle (flushed.opened present))).consequence
      (fun _ => id) ?_ ?_
    · rintro - u ⟨⟨wrote, writer, written⟩, config, current⟩
      have kept : u.wal.writer = t.wal.writer := writer
      refine ⟨flushed.trans ⟨wrote, config, current⟩, kept ▸ clear, ?_⟩
      rw [kept]
      exact written
    · rintro abort u ⟨⟨wrote, raised⟩, config, current⟩
      exact ⟨flushed.trans ⟨wrote, config, current⟩, _, raised.mono flushed.handle.verdicts⟩
  · rintro t ⟨wrote, rest⟩
    refine ⟨⟨?_, wrote.config, wrote.currentSegment⟩, rest⟩
    exact ⟨wrote.handle.file, wrote.handle.member, wrote.handle.others, wrote.handle.view,
      wrote.handle.durable, wrote.handle.verdicts⟩
  · refine Triple.update ?_
    rintro t ⟨wrote, rest⟩
    exact ⟨⟨wrote.handle, wrote.config, wrote.currentSegment⟩, rest⟩

theorem syncIfElapsed_triple (duration : Nat) :
    Triple (· = s) (syncIfElapsed duration)
      (fun _ t => s.Wrote t [])
      (fun abort t => s.Wrote t [] ∧ abort.Ordered s.world.verdicts) := by
  let timed : WalState :=
    s.setHandle ⟨s.wal.writer, { s.world with clock := s.world.clock.tail }⟩
  have read : s.Wrote timed [] :=
    ⟨⟨rfl, fun _ => Iff.rfl, fun _ _ => rfl, (List.append_nil _).symm, List.prefix_refl _,
      List.suffix_refl _⟩, rfl, rfl⟩
  by_cases elapsed : duration ≤ s.world.clock.headD 0 - timed.wal.lastSync
  · have run : syncIfElapsed duration s = sync timed := if_pos elapsed
    rintro t rfl
    rw [run]
    exact (sync_triple timed (read.opened present)).consequence (fun _ => id)
      (fun _ u synced => read.trans synced.1) (fun abort u stopped => ⟨read.trans stopped.1,
        stopped.2.mono read.handle.verdicts⟩) timed rfl
  · have run : syncIfElapsed duration s = .ok () timed := if_neg elapsed
    rintro t rfl
    rw [run]
    exact read

theorem syncByPolicy_triple :
    Triple (· = s) syncByPolicy
      (fun _ t => s.Wrote t [] ∧ (s.wal.config.syncPolicy = .everyWrite →
        t.wal.writer.buffer = [] ∧
        t.world.dir.durable t.wal.writer.file = t.world.dir.contents t.wal.writer.file))
      (fun abort t => s.Wrote t [] ∧ abort.Ordered s.world.verdicts) := by
  cases policy : s.wal.config.syncPolicy with
  | everyWrite =>
      have run : syncByPolicy s = sync s := by simp only [syncByPolicy, policy]
      exact Triple.of_run run ((sync_triple s present).consequence (fun _ => id)
        (fun _ t synced => ⟨synced.1, fun _ => synced.2⟩) (fun _ _ => id))
  | interval duration =>
      have run : syncByPolicy s = syncIfElapsed duration s := by simp only [syncByPolicy, policy]
      exact Triple.of_run run ((syncIfElapsed_triple s present duration).consequence (fun _ => id)
        (fun _ t synced => ⟨synced, fun other => by contradiction⟩) (fun _ _ => id))
  | none =>
      have run : syncByPolicy s = (pure () : WalM Unit) s := by simp only [syncByPolicy, policy]; rfl
      refine Triple.of_run run (Triple.ret ?_)
      rintro t rfl
      exact ⟨WalState.Wrote.refl t, fun other => by contradiction⟩

omit present in
/-- A writer with nothing buffered comes under the next number, and the segment
of that number may come to exist. -/
theorem bumped_grew (r t : WalState) (synced : r.Wrote s []) (clear : s.wal.writer.buffer = [])
    (present : r.wal.writer.file ∈ r.world.dir) (config : t.wal.config = s.wal.config)
    (current : t.wal.currentSegment = s.wal.currentSegment + 1)
    (fresh : t.wal.writer.buffer = []) (verdicts : t.world.verdicts <:+ s.world.verdicts)
    (place : (t.wal.writer.file = s.wal.writer.file ∧ t.world.dir = s.world.dir) ∨
      (t.wal.writer.file = s.wal.writer.file ∨
        t.wal.writer.file = segmentName t.wal.currentSegment) ∧
      t.world.dir = s.world.dir.create (segmentName t.wal.currentSegment)) : r.Grew t [] := by
  have grew := synced.grew present
  have step : t.wal.currentSegment = r.wal.currentSegment + 1 := by
    rw [current, synced.currentSegment]
  have view (name : String) (same : t.world.dir.contents name = s.world.dir.contents name) :
      t.handle.view name =
        r.handle.view name ++ if name = r.wal.writer.file then [] else [] := by
    rw [← grew.view, Handle.view, Handle.view]
    simp only [WalState.handle_writer, WalState.handle_world, fresh, clear, ite_self, same]
  rcases place with ⟨file, dir⟩ | ⟨file, dir⟩
  · refine ⟨config.trans grew.config, fun name => view name (by rw [dir]), fun name => ?_,
      fun name member => ?_, fun name member => ?_, Or.inl (file.trans synced.file), ?_,
      Or.inr step, verdicts.trans grew.verdicts⟩
    · exact dir ▸ grew.durable name
    · exact dir ▸ grew.kept name member
    · exact Or.inl ((synced.handle.member name).mp (dir ▸ member))
    · rw [file, dir]
      exact grew.opened
  · refine ⟨config.trans grew.config, fun name => view name (by rw [dir, Dir.contents_create]),
      fun name => ?_, fun name member => ?_, fun name member => ?_,
      file.imp_left fun same => same.trans synced.file, ?_, Or.inr step,
      verdicts.trans grew.verdicts⟩
    · rw [dir, Dir.durable_create]
      exact grew.durable name
    · rw [dir, Dir.mem_create]
      exact Or.inr (grew.kept name member)
    · rw [dir, Dir.mem_create] at member
      exact member.symm.imp_left (synced.handle.member name).mp
    · rw [dir, Dir.mem_create]
      rcases file with same | same
      · exact Or.inr (same ▸ synced.opened present)
      · exact Or.inl same

/-- Moving on to the next segment adds no bytes. A segment that could not be
opened leaves the writer where it is, under the next number. -/
theorem rotate_triple :
    Triple (· = s) rotate
      (fun _ t => s.Grew t [] ∧ (s.Synced → t.Synced))
      (fun abort t => s.Grew t [] ∧ abort.Ordered s.world.verdicts) := by
  unfold rotate
  refine Triple.bind (fun _ t => s.Wrote t [] ∧ t.wal.writer.buffer = [] ∧
    t.world.dir.durable t.wal.writer.file = t.world.dir.contents t.wal.writer.file) ?_ fun _ =>
    Triple.of_start ?_
  · exact (sync_triple s present).consequence (fun _ => id) (fun _ _ => id)
      fun abort t stopped => ⟨stopped.1.grew present, stopped.2⟩
  · rintro t ⟨synced, clear, written⟩
    refine Triple.bind (fun _ u => u = bumpSegment t) ?_ fun _ =>
      Triple.bind (fun _ u => u.wal = (bumpSegment t).wal ∧
        u.world.dir = t.world.dir.create (segmentName (t.wal.currentSegment + 1)) ∧
        u.world.verdicts <:+ t.world.verdicts) ?_ fun _ => ?_
    · exact Triple.update fun u same => congrArg bumpSegment same
    · refine (openSegment_triple (bumpSegment t)).consequence (fun _ => id) (fun _ _ => id) ?_
      rintro abort u ⟨wal, dir, verdicts, ordered⟩
      refine ⟨bumped_grew t s u synced clear present ?_ ?_ ?_ verdicts ?_,
        ordered.mono synced.handle.verdicts⟩
      · rw [wal]; rfl
      · rw [wal]; rfl
      · rw [wal]; exact clear
      · rw [wal]
        exact dir.imp (fun same => ⟨rfl, same⟩) fun same => ⟨Or.inl rfl, same⟩
    · refine Triple.update ?_
      rintro u ⟨wal, dir, verdicts⟩
      have current : u.wal.currentSegment = t.wal.currentSegment + 1 := by rw [wal]; rfl
      have entered : (enterSegment u).world.dir =
          t.world.dir.create (segmentName (enterSegment u).wal.currentSegment) := by
        change u.world.dir = t.world.dir.create (segmentName u.wal.currentSegment)
        rw [current, dir]
      have config : (enterSegment u).wal.config = t.wal.config := by
        change u.wal.config = t.wal.config
        rw [wal]
        rfl
      refine ⟨bumped_grew t s (enterSegment u) synced clear present config current rfl
        verdicts (Or.inr ⟨Or.inr rfl, entered⟩), fun before id => ?_⟩
      have whole := synced.synced before written clear id
      rw [Handle.view, WalState.handle_writer, clear, ite_self, List.append_nil,
        WalState.handle_world] at whole
      rw [entered, Dir.durable_create, whole, Handle.view, WalState.handle_world, entered,
        Dir.contents_create]
      change _ = _ ++ if segmentName id = (enterSegment u).wal.writer.file then [] else []
      rw [ite_self, List.append_nil]

theorem rotateIfFull_triple :
    Triple (· = s) rotateIfFull
      (fun _ t => s.Grew t [] ∧ (s.Synced → t.Synced))
      (fun abort t => s.Grew t [] ∧ abort.Ordered s.world.verdicts) := by
  by_cases full : s.wal.config.maxSegmentSize ≤ s.wal.segmentBytes
  · exact Triple.of_run (if_pos full) (rotate_triple s present)
  · refine Triple.of_run (show rotateIfFull s = (pure () : WalM Unit) s from if_neg full)
      (Triple.ret ?_)
    rintro t rfl
    exact ⟨(WalState.Wrote.refl t).grew present, id⟩

/-- A write after others: `front` is already there, `back` is still to come. -/
theorem writeAll_after (reason : PerfDbError) (front data back : Bytes) :
    Triple (fun t => s.Wrote t front) (onFile (writeAll reason data))
      (fun _ t => s.Wrote t (front ++ data))
      (fun abort t => ∃ written, front <+: written ∧ written <+: front ++ data ++ back ∧
        s.Grew t written ∧ abort.Ordered s.world.verdicts) := by
  refine Triple.of_start fun t wrote => ?_
  refine (writeAll_wrote t (wrote.opened present) reason data).consequence (fun _ => id)
    (fun _ u later => wrote.trans later) ?_
  rintro abort u ⟨written, part, later, ordered⟩
  refine ⟨front ++ written, List.prefix_append _ _, ?_, (wrote.trans later).grew present,
    ordered.mono wrote.handle.verdicts⟩
  exact ((List.prefix_append_right_inj front).mpr part).trans (List.prefix_append _ _)

/-- The length goes to the buffer whole, or there is no room for it and the buffer
cannot be emptied. -/
theorem writeLength_wrote (reason : PerfDbError) (data : Bytes) (width : data.length = 4) :
    Triple (· = s) (onFile (writeAll reason data))
      (fun _ t => s.Wrote t data)
      (fun abort t => s.Wrote t [] ∧ abort.Ordered s.world.verdicts ∧
        bufferCapacity - s.wal.writer.buffer.length < 4 ∧ s.world.verdict ≠ .ok) := by
  refine (onFile_triple s (writeAll_triple reason s.handle present data)).consequence
    (fun _ => id) ?_ ?_
  · rintro - t ⟨wrote, config, current⟩
    exact ⟨wrote, config, current⟩
  · rintro abort t ⟨⟨kept, wrote, raised, _, small⟩, config, current⟩
    obtain ⟨rfl, full, faulty⟩ := small (by rw [width]; decide)
    rw [width] at full
    exact ⟨⟨wrote, config, current⟩, ⟨reason, raised⟩, full, faulty⟩

/-- The bytes of one entry, whole when the call returns and a prefix of them when
it does not. None at all only if there was no room for the length. -/
theorem append_triple (fmt : Format) (entry : WalEntry) :
    Triple (· = s) (append fmt entry)
      (fun _ t => s.Grew t (fmt.framing.frame entry) ∧
        (s.wal.config.syncPolicy = .everyWrite → s.Synced → t.Synced))
      (fun abort t => ∃ written, written <+: fmt.framing.frame entry ∧ s.Grew t written ∧
        abort.Ordered s.world.verdicts ∧ (written = [] →
          bufferCapacity - s.wal.writer.buffer.length < 4 ∧ s.world.verdict ≠ .ok)) := by
  let payload := fmt.serialize entry
  let len := Bytes.le 4 payload.length
  let crc := Bytes.le 4 (fmt.crc32 payload).toNat
  have frame : fmt.framing.frame entry = len ++ crc ++ payload := rfl
  have started (written : Bytes) (front : len <+: written) (none : written = []) : False := by
    have longer := front.length_le
    rw [none, Bytes.le_length, List.length_nil] at longer
    omega
  rw [frame]
  unfold append
  refine Triple.bind (fun _ t => s.Wrote t len) ?_ fun _ =>
    Triple.bind (fun _ t => s.Wrote t (len ++ crc)) ?_ fun _ =>
    Triple.bind (fun _ t => s.Wrote t (len ++ crc ++ payload)) ?_ fun _ =>
    Triple.bind (fun _ t => s.Wrote t (len ++ crc ++ payload)) ?_ fun _ =>
    Triple.bind (fun _ t => s.Wrote t (len ++ crc ++ payload) ∧
      (s.wal.config.syncPolicy = .everyWrite → t.wal.writer.buffer = [] ∧
        t.world.dir.durable t.wal.writer.file = t.world.dir.contents t.wal.writer.file)) ?_
    fun _ => Triple.of_start ?_
  · refine (writeLength_wrote s present _ len (Bytes.le_length _ _)).consequence (fun _ => id)
      (fun _ _ => id) ?_
    rintro abort t ⟨wrote, ordered, stuck⟩
    exact ⟨[], List.nil_prefix, wrote.grew present, ordered, fun _ => stuck⟩
  · refine (writeAll_after s present _ len crc payload).consequence (fun _ => id)
      (fun _ _ => id) ?_
    rintro abort t ⟨written, front, part, grew, ordered⟩
    exact ⟨written, part, grew, ordered, fun none => (started written front none).elim⟩
  · refine (writeAll_after s present _ (len ++ crc) payload []).consequence (fun _ => id)
      (fun _ _ => id) ?_
    rintro abort t ⟨written, front, part, grew, ordered⟩
    rw [List.append_nil] at part
    exact ⟨written, part, grew, ordered, fun none =>
      (started written ((List.prefix_append _ _).trans front) none).elim⟩
  · refine Triple.update fun t wrote => ?_
    exact ⟨wrote.handle, wrote.config, wrote.currentSegment⟩
  · refine Triple.of_start fun t wrote => ?_
    refine (syncByPolicy_triple t (wrote.opened present)).consequence (fun _ => id) ?_ ?_
    · rintro - u ⟨synced, durable⟩
      refine ⟨by simpa only [List.append_nil] using wrote.trans synced, ?_⟩
      rw [← wrote.config]
      exact durable
    · rintro abort u ⟨synced, ordered⟩
      refine ⟨len ++ crc ++ payload, List.prefix_refl _, ?_, ordered.mono wrote.handle.verdicts,
        fun none => (started _ ?_ none).elim⟩
      · simpa only [List.append_nil] using (wrote.trans synced).grew present
      · rw [List.append_assoc]
        exact List.prefix_append _ _
  · rintro t ⟨wrote, durable⟩
    refine (rotateIfFull_triple t (wrote.opened present)).consequence (fun _ => id) ?_ ?_
    · rintro - u ⟨grew, kept⟩
      refine ⟨wrote.then_grew present grew, fun policy synced => kept ?_⟩
      exact wrote.synced synced (durable policy).2 (durable policy).1
    · rintro abort u ⟨grew, ordered⟩
      refine ⟨len ++ crc ++ payload, List.prefix_refl _, wrote.then_grew present grew,
        ordered.mono wrote.handle.verdicts, fun none => (started _ ?_ none).elim⟩
      rw [List.append_assoc]
      exact List.prefix_append _ _

end Specifications

end Wal

end Perfdb
