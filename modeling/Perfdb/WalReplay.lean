import Mathlib
import Perfdb.Wal

set_option autoImplicit false

namespace Perfdb.Wal

def Format.framing (fmt : Format) : Framing WalEntry where
  encode := fmt.serialize
  decode := fmt.deserialize
  checksum := fmt.crc32
  limit := maxPayload
  limit_lt := by decide

theorem Format.RoundTrips.sound {fmt : Format} (inverse : fmt.RoundTrips) {entry : WalEntry}
    (fits : fmt.Fits entry) : fmt.framing.Sound entry :=
  ⟨inverse entry fits, fits⟩

/-- Only names of the form `segment_path` prints are taken for segments. -/
def Tidy (dir : Dir) : Prop :=
  ∀ name ∈ dir, ∀ id, numberOf "wal_" ".bin" name = some id → name = segmentName id

/-- The entries in the segments below `bound`, in the order of the segments. -/
def entriesBelow (fmt : Format) (segments : Nat → Bytes) (bound : Nat) : List WalEntry :=
  (List.range bound).flatMap fun id => fmt.framing.scan (segments id)

/-- The bytes in each segment of a directory. -/
def segmentsOf (dir : Dir) (id : Nat) : Bytes := dir.contents (segmentName id)

/-- `replay` hands exactly these entries to its callback, in this order, and
returns their number. -/
def Delivers (fmt : Format) (order : Iteration) (dir : Dir) (entries : List WalEntry) : Prop :=
  ∀ (σ : Type) (path : String) (callback : σ → WalEntry → Except PerfDbError σ) (init : σ),
    replay fmt callback order path dir init =
      (entries.foldlM callback init).map fun acc => (acc, entries.length)

theorem tidy_empty : Tidy ∅ := fun _ member => (Std.ExtTreeMap.not_mem_empty member).elim

theorem Tidy.insert {dir : Dir} (tidy : Tidy dir) (id : Nat) (file : File) :
    Tidy (dir.insert (segmentName id) file) := by
  intro name member number parsed
  rcases Std.ExtTreeMap.mem_insert.mp member with same | old
  · rw [← Std.LawfulEqCmp.eq_of_compare same, segmentName, numberOf_numberedName] at parsed
    rw [← Std.LawfulEqCmp.eq_of_compare same, Option.some.inj parsed]
  · exact tidy name old number parsed

section Entries

variable {fmt : Format} {segments : Nat → Bytes}

@[simp] theorem entriesBelow_zero : entriesBelow fmt segments 0 = [] := rfl

theorem entriesBelow_succ (bound : Nat) : entriesBelow fmt segments (bound + 1) =
    entriesBelow fmt segments bound ++ fmt.framing.scan (segments bound) := by
  simp [entriesBelow, List.range_succ]

theorem entriesBelow_congr {other : Nat → Bytes} (bound : Nat)
    (same : ∀ id < bound, segments id = other id) :
    entriesBelow fmt segments bound = entriesBelow fmt other bound := by
  induction bound with
  | zero => rfl
  | succ bound ih =>
      rw [entriesBelow_succ, entriesBelow_succ, ih fun id inside => same id (by omega),
        same bound (by omega)]

theorem entriesBelow_of_empty {first bound : Nat} (inside : first ≤ bound)
    (empty : ∀ id, first ≤ id → segments id = []) :
    entriesBelow fmt segments bound = entriesBelow fmt segments first := by
  induction bound with
  | zero =>
      obtain rfl : first = 0 := by omega
      rfl
  | succ bound ih =>
      by_cases last : first = bound + 1
      · rw [last]
      · rw [entriesBelow_succ, ih (by omega), empty bound (by omega), Framing.scan_nil,
          List.append_nil]

theorem entriesBelow_eq_nil (bound : Nat) (empty : ∀ id, segments id = []) :
    entriesBelow fmt segments bound = [] :=
  entriesBelow_of_empty (Nat.zero_le bound) fun id _ => empty id

end Entries

section Replay

variable {σ : Type} (fmt : Format) (callback : σ → WalEntry → Except PerfDbError σ)

/-- The callback and the count of its calls. -/
def tally (acc : σ × Nat) (entry : WalEntry) : Except PerfDbError (σ × Nat) :=
  (callback acc.1 entry).map fun next => (next, acc.2 + 1)

/-- A turn of the loop takes the frame at the head of what it has not passed. -/
theorem replaySegment_turn (fileLen fuel pos count : Nat) (unread : Bytes) (acc : σ)
    (position : pos + unread.length = fileLen) :
    replaySegment fmt callback fileLen (fuel + 1) pos unread acc count =
      match fmt.framing.next unread with
      | none => .ok (acc, count)
      | some (entry, rest) => (callback acc entry).bind fun next =>
          replaySegment fmt callback fileLen fuel (fileLen - rest.length) rest next (count + 1) := by
  by_cases headed : 8 ≤ unread.length
  · have inside : pos + entryHeaderSize ≤ fileLen := by
      simp only [entryHeaderSize]
      omega
    have read : Bytes.readExact 8 unread = some (unread.take 8, unread.drop 8) := by
      simp only [Bytes.readExact, headed, ↓reduceIte]
    have opened : Bytes.readExact entryHeaderSize unread =
        some (unread.take 8, unread.drop 8) := read
    have bodyLength : (unread.drop 8).length = unread.length - 8 := List.length_drop
    simp only [replaySegment, inside, ↓reduceIte, opened, Framing.next, read,
      Option.bind_eq_bind, Option.bind_some]
    generalize Bytes.ofLe ((unread.take 8).take 4) = len
    generalize Bytes.ofLe ((unread.take 8).drop 4) = expectedCrc
    generalize unread.drop 8 = body at bodyLength ⊢
    have limit : fmt.framing.limit = maxPayload := rfl
    have checksum (bytes : Bytes) : fmt.framing.checksum bytes = fmt.crc32 bytes := rfl
    have decode (bytes : Bytes) : fmt.framing.decode bytes = fmt.deserialize bytes := rfl
    simp only [limit, checksum, decode]
    by_cases large : maxPayload < len
    · simp only [large, ↓reduceIte]
    · simp only [large, ↓reduceIte]
      by_cases short : body.length < len
      · have beyond : fileLen < pos + entryHeaderSize + len := by
          simp only [entryHeaderSize]
          omega
        simp only [beyond, ↓reduceIte, Bytes.readExact_eq_none short, Option.bind_none]
      · have within : ¬ fileLen < pos + entryHeaderSize + len := by
          simp only [entryHeaderSize]
          omega
        have payload : Bytes.readExact len body = some (body.take len, body.drop len) := by
          simp only [Bytes.readExact, Nat.not_lt.mp short, ↓reduceIte]
        have advanced : fileLen - (body.drop len).length = pos + entryHeaderSize + len := by
          simp only [entryHeaderSize, List.length_drop]
          omega
        simp only [within, ↓reduceIte, payload, Option.bind_some]
        by_cases mismatch : (fmt.crc32 (body.take len)).toNat = expectedCrc
        · simp only [mismatch, ne_eq, not_true_eq_false, ↓reduceIte]
          cases decoded : fmt.deserialize (body.take len) with
          | none => rfl
          | some entry =>
              simp only [Option.bind_some, advanced]
              cases callback acc entry <;> rfl
        · simp only [mismatch, ne_eq, not_false_eq_true, ↓reduceIte]
  · have outside : ¬ pos + entryHeaderSize ≤ fileLen := by
      simp only [entryHeaderSize]
      omega
    have rejected : fmt.framing.next unread = none := fmt.framing.next_short (by omega)
    simp only [replaySegment, outside, ↓reduceIte, rejected]

/-- Wherever the loop stands, it hands on the entries of the bytes it has not passed. -/
theorem replaySegment_eq (fileLen fuel pos count : Nat) (unread : Bytes) (acc : σ)
    (position : pos + unread.length = fileLen) :
    replaySegment fmt callback fileLen fuel pos unread acc count =
      (fmt.framing.scanFrom fuel unread).foldlM (tally callback) (acc, count) := by
  induction fuel generalizing pos count unread acc with
  | zero => rfl
  | succ fuel ih =>
      rw [replaySegment_turn fmt callback _ _ _ _ _ _ position, Framing.scanFrom]
      cases head : fmt.framing.next unread with
      | none => rfl
      | some found =>
          obtain ⟨entry, rest⟩ := found
          have shorter := fmt.framing.next_length head
          simp only [List.foldlM_cons, tally]
          cases called : callback acc entry with
          | error reason => rfl
          | ok next => exact ih (fileLen - rest.length) (count + 1) rest next (by omega)

theorem replayFile_eq (path : String) (dir : Dir) (acc : σ × Nat) (id : Nat)
    (present : segmentName id ∈ dir) : replayFile fmt callback path dir acc id =
      (fmt.framing.scan (segmentsOf dir id)).foldlM (tally callback) acc := by
  obtain ⟨file, found⟩ := Option.isSome_iff_exists.mp
    ((Std.ExtTreeMap.mem_iff_isSome_getElem?).mp present)
  have bytes : segmentsOf dir id = file.contents := by
    simp only [segmentsOf, Dir.contents, found, Option.map_some, Option.getD_some]
  simp only [replayFile, found, bytes]
  exact replaySegment_eq fmt callback _ _ 0 _ _ _ (Nat.zero_add _)

theorem replayFiles_eq (path : String) (dir : Dir) (ids : List Nat) (acc : σ × Nat)
    (present : ∀ id ∈ ids, segmentName id ∈ dir) :
    ids.foldlM (replayFile fmt callback path dir) acc =
      (ids.flatMap fun id => fmt.framing.scan (segmentsOf dir id)).foldlM
        (tally callback) acc := by
  induction ids generalizing acc with
  | nil => rfl
  | cons id ids ih =>
      rw [List.foldlM_cons, List.flatMap_cons, List.foldlM_append,
        replayFile_eq fmt callback path dir acc id (present id List.mem_cons_self)]
      exact bind_congr fun next => ih next fun other member =>
        present other (List.mem_cons_of_mem id member)

theorem foldlM_tally (entries : List WalEntry) (acc : σ) (count : Nat) :
    entries.foldlM (tally callback) (acc, count) =
      (entries.foldlM callback acc).map fun last => (last, count + entries.length) := by
  induction entries generalizing acc count with
  | nil => rfl
  | cons entry entries ih =>
      simp only [List.foldlM_cons, tally]
      cases called : callback acc entry with
      | error reason => rfl
      | ok next =>
          have rest := ih next (count + 1)
          simp only [List.length_cons]
          rw [show count + (entries.length + 1) = count + 1 + entries.length by omega]
          exact rest

end Replay

section Listing

variable {dir : Dir} (order : Iteration)

theorem mem_listSegments (tidy : Tidy dir) (id : Nat) :
    id ∈ listSegments order dir ↔ segmentName id ∈ dir := by
  simp only [listSegments, List.mem_filterMap, Iteration.mem_arrange, Std.ExtTreeMap.mem_keys]
  constructor
  · rintro ⟨name, present, parsed⟩
    exact tidy name present id parsed ▸ present
  · intro present
    exact ⟨segmentName id, present, numberOf_numberedName _ _ _ id⟩

theorem listSegments_nodup (tidy : Tidy dir) : (listSegments order dir).Nodup := by
  have keys : (order.arrange dir.keys).Nodup :=
    (order.perm dir.keys).nodup_iff.mpr Std.ExtTreeMap.nodup_keys
  rw [listSegments, List.Nodup, List.pairwise_filterMap]
  refine keys.imp_of_mem ?_
  intro name other member otherMember different id parsed otherId otherParsed
  rintro rfl
  have present := (Std.ExtTreeMap.mem_keys).mp ((order.mem_arrange dir.keys name).mp member)
  have otherPresent :=
    (Std.ExtTreeMap.mem_keys).mp ((order.mem_arrange dir.keys other).mp otherMember)
  exact different ((tidy name present _ parsed).trans (tidy other otherPresent _ otherParsed).symm)

/-- Replay visits the segments in the order of their numbers. -/
theorem listSegments_sorted (tidy : Tidy dir) (bound : Nat)
    (below : ∀ id, segmentName id ∈ dir → id < bound) :
    (listSegments order dir).insertionSort (· ≤ ·) =
      (List.range bound).filter fun id => segmentName id ∈ dir := by
  apply insertionSort_eq_of_mem (listSegments_nodup order tidy)
  · exact List.pairwise_lt_range.filter _
  · intro id
    rw [mem_listSegments order tidy, List.mem_filter, List.mem_range, decide_eq_true_iff]
    exact ⟨fun present => ⟨below id present, present⟩, fun found => found.2⟩

theorem segmentsOf_absent {id : Nat} (absent : segmentName id ∉ dir) : segmentsOf dir id = [] := by
  simp only [segmentsOf, Dir.contents, Std.ExtTreeMap.getElem?_eq_none absent, Option.map_none,
    Option.getD_none]

theorem filter_flatMap_segments (fmt : Format) (ids : List Nat) :
    ((ids.filter fun id => segmentName id ∈ dir).flatMap fun id =>
      fmt.framing.scan (segmentsOf dir id)) =
      ids.flatMap fun id => fmt.framing.scan (segmentsOf dir id) := by
  induction ids with
  | nil => rfl
  | cons id ids ih =>
      by_cases present : segmentName id ∈ dir
      · simp only [List.filter_cons, present, decide_true, ↓reduceIte, List.flatMap_cons, ih]
      · simp only [List.filter_cons, present, decide_false, Bool.false_eq_true, ↓reduceIte,
          List.flatMap_cons, ih, segmentsOf_absent present, Framing.scan_nil, List.nil_append]

end Listing

theorem replay_delivers (fmt : Format) (order : Iteration) {dir : Dir} (tidy : Tidy dir)
    (bound : Nat) (below : ∀ id, segmentName id ∈ dir → id < bound) :
    Delivers fmt order dir (entriesBelow fmt (segmentsOf dir) bound) := by
  intro σ path callback init
  have files := replayFiles_eq fmt callback path dir
    ((List.range bound).filter fun id => segmentName id ∈ dir) (init, 0)
    (fun id member => by simpa using (List.mem_filter.mp member).2)
  rw [filter_flatMap_segments] at files
  rw [replay, listSegments_sorted order tidy bound below, files,
    foldlM_tally callback, Nat.zero_add, entriesBelow]

def delivered (fmt : Format) (order : Iteration) (dir : Dir) :
    Except PerfDbError (List WalEntry × Nat) :=
  replay fmt (fun seen entry => .ok (seen ++ [entry])) order "wal" dir []

theorem foldlM_collect (entries seen : List WalEntry) :
    entries.foldlM (fun seen entry => (.ok (seen ++ [entry]) : Except PerfDbError _)) seen =
      .ok (seen ++ entries) := by
  induction entries generalizing seen with
  | nil => simp only [List.foldlM_nil, List.append_nil]; rfl
  | cons entry entries ih =>
      have rest := ih (seen ++ [entry])
      rw [List.append_assoc, List.singleton_append] at rest
      exact rest

theorem Delivers.delivered {fmt : Format} {order : Iteration} {dir : Dir}
    {entries : List WalEntry} (delivers : Delivers fmt order dir entries) :
    delivered fmt order dir = .ok (entries, entries.length) := by
  rw [Wal.delivered, delivers, foldlM_collect, List.nil_append]
  rfl

theorem Delivers.unique {fmt : Format} {order : Iteration} {dir : Dir}
    {entries others : List WalEntry} (first : Delivers fmt order dir entries)
    (second : Delivers fmt order dir others) : entries = others := by
  have same := first.delivered.symm.trans second.delivered
  simp only [Except.ok.injEq, Prod.mk.injEq] at same
  exact same.1

end Perfdb.Wal
