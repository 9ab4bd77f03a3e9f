import Mathlib
import Perfdb.BincodeParts
import Perfdb.WalSession

set_option autoImplicit false

namespace Perfdb

namespace Framing

variable {α : Type} (f : Framing α)

/-- A value whose payload is above the limit, and is not read from a part of it. -/
def Refused (value : α) : Prop :=
  f.limit < (f.encode value).length ∧
    ∀ part, part <+: f.encode value → part ≠ f.encode value → f.decode part = none

/-- The frame of such a value is not accepted, even where its length wraps below the limit. -/
theorem next_frame_refused {value : α} (refused : f.Refused value) (rest : Bytes) :
    f.next (f.frame value ++ rest) = none := by
  obtain ⟨large, parts⟩ := refused
  have headed : Bytes.readExact 8 (f.frame value ++ rest) =
      some (f.header (f.encode value), f.encode value ++ rest) := by
    simpa only [frame, List.append_assoc, header_length] using
      Bytes.readExact_append (f.header (f.encode value)) (f.encode value ++ rest)
  have length : Bytes.ofLe ((f.header (f.encode value)).take 4) =
      (f.encode value).length % 2 ^ 32 :=
    header_take f _ ▸ Bytes.ofLe_le_mod 4 _
  simp only [next, headed, Option.bind_eq_bind, Option.bind_some, length]
  split
  · rfl
  · rename_i within
    have shorter : (f.encode value).length % 2 ^ 32 < (f.encode value).length := by omega
    have read : Bytes.readExact ((f.encode value).length % 2 ^ 32) (f.encode value ++ rest) =
        some ((f.encode value).take ((f.encode value).length % 2 ^ 32),
          (f.encode value ++ rest).drop ((f.encode value).length % 2 ^ 32)) := by
      rw [Bytes.readExact, if_pos (by rw [List.length_append]; omega),
        List.take_append_of_le_length shorter.le]
    have part := parts ((f.encode value).take ((f.encode value).length % 2 ^ 32))
      (List.take_prefix _ _) fun whole => by
      have cut := congrArg List.length whole
      rw [List.length_take] at cut
      omega
    rw [read]
    simp only [Option.bind_some, part, Option.bind_none, ite_self]

/-- The values before the first refused one are read. -/
theorem scan_frames_refused {values : List α} [DecidablePred fun v => (f.encode v).length ≤ f.limit]
    (judged : ∀ value ∈ values, f.Sound value ∨ f.Refused value) :
    f.scan (f.frames values) = values.takeWhile fun v => (f.encode v).length ≤ f.limit := by
  induction values with
  | nil => rw [frames_nil, scan_nil, List.takeWhile_nil]
  | cons value values ih =>
      have rest := ih fun other member => judged other (List.mem_cons_of_mem value member)
      rw [frames_cons]
      rcases judged value List.mem_cons_self with sound | refused
      · rw [f.scan_of_some (f.next_frame value _ sound), rest,
          List.takeWhile_cons_of_pos (by simpa using sound.2)]
      · have large : ¬ (f.encode value).length ≤ f.limit := Nat.not_le.mpr refused.1
        rw [f.scan_of_none (f.next_frame_refused refused _),
          List.takeWhile_cons_of_neg (by simpa using large)]

end Framing

namespace Wal

/-- bincode reads no value from a part of the value's own bytes. -/
def Format.RejectsParts (fmt : Format) (entry : WalEntry) : Prop :=
  ∀ part, part <+: fmt.serialize entry → part ≠ fmt.serialize entry → fmt.deserialize part = none

instance (fmt : Format) : DecidablePred fmt.Fits := fun entry =>
  inferInstanceAs (Decidable ((fmt.serialize entry).length ≤ maxPayload))

section Judged

variable {fmt : Format}

theorem judged (inverse : fmt.RoundTrips) {entry : WalEntry} (rejects : fmt.RejectsParts entry) :
    fmt.framing.Sound entry ∨ fmt.framing.Refused entry := by
  by_cases fits : fmt.Fits entry
  · exact Or.inl (inverse.sound fits)
  · exact Or.inr ⟨Nat.not_le.mp fits, rejects⟩

theorem scan_frames_fits {entries : List WalEntry}
    (each : ∀ entry ∈ entries, fmt.framing.Sound entry ∨ fmt.framing.Refused entry) :
    fmt.framing.scan (fmt.framing.frames entries) = entries.takeWhile fmt.Fits :=
  fmt.framing.scan_frames_refused each

end Judged

/-- The log ends in whole frames, and fewer than `count` entries are delivered from it. -/
def WalState.Lost (fmt : Format) (s : WalState) (count : Nat) : Prop :=
  ∃ last back, Layout s last ∧ (∀ id, last < id → s.segments id = []) ∧
    (∀ entry ∈ back, fmt.framing.Sound entry ∨ fmt.framing.Refused entry) ∧
    s.segments last = fmt.framing.frames back ∧
    (entriesBelow fmt s.segments last ++ back.takeWhile fmt.Fits).length < count

section Lost

variable {fmt : Format} {s t : WalState} {entry : WalEntry} {count : Nat}

theorem lost_of_push {last : Nat} {back : List WalEntry} (layout : Layout s last)
    (behind : ∀ id, last < id → s.segments id = [])
    (each : ∀ entry ∈ back, fmt.framing.Sound entry ∨ fmt.framing.Refused entry)
    (bytes : s.segments last = fmt.framing.frames back)
    (new : fmt.framing.Sound entry ∨ fmt.framing.Refused entry)
    (grew : s.Grew t (fmt.framing.frame entry))
    (few : (entriesBelow fmt s.segments last ++ (back ++ [entry]).takeWhile fmt.Fits).length <
      count) : t.Lost fmt count := by
  obtain ⟨next, ahead, later⟩ := grew.layout layout
  have segments := grew.segments layout.file
  have all : ∀ other ∈ back ++ [entry],
      fmt.framing.Sound other ∨ fmt.framing.Refused other := by
    intro other member
    rcases List.mem_append.mp member with old | last
    · exact each other old
    · rw [List.mem_singleton.mp last]
      exact new
  have below : entriesBelow fmt t.segments last = entriesBelow fmt s.segments last := by
    refine entriesBelow_congr last fun id inside => ?_
    rw [segments, if_neg (by omega), List.append_nil]
  have here : t.segments last = fmt.framing.frames (back ++ [entry]) := by
    rw [segments, if_pos rfl, bytes, Framing.frames_append, Framing.frames_cons,
      Framing.frames_nil, List.append_nil]
  have empty : ∀ id, last < id → t.segments id = [] := by
    intro id beyond
    rw [segments, behind id beyond, if_neg (by omega), List.append_nil]
  by_cases same : last = next
  · subst same
    exact ⟨last, _, later, empty, all, here, by rw [below]; exact few⟩
  · refine ⟨next, [], later, fun id beyond => empty id (by omega), by simp,
      empty next (by omega), ?_⟩
    rw [entriesBelow_of_empty (show last + 1 ≤ next by omega) fun id beyond => empty id (by omega),
      entriesBelow_succ, here, scan_frames_fits all, below, List.takeWhile_nil, List.append_nil]
    exact few

theorem WalState.Holds.lose {entries : List WalEntry} (holds : s.Holds fmt entries)
    (refused : fmt.framing.Refused entry) (grew : s.Grew t (fmt.framing.frame entry)) :
    t.Lost fmt (entries.length + 1) := by
  obtain ⟨last, layout, behind, back, sound, bytes, split⟩ := holds
  refine lost_of_push layout behind (fun other member => Or.inl (sound other member)) bytes
    (Or.inr refused) grew ?_
  have stops : (back ++ [entry]).takeWhile fmt.Fits = back := by
    have large : ¬ fmt.Fits entry := Nat.not_le.mpr refused.1
    rw [List.takeWhile_append_of_pos fun other member => by
        simpa using (show fmt.Fits other from (sound other member).2),
      List.takeWhile_cons_of_neg (by simpa using large), List.append_nil]
  rw [stops, split]
  exact Nat.lt_succ_self _

theorem WalState.Lost.push (lost : s.Lost fmt count)
    (new : fmt.framing.Sound entry ∨ fmt.framing.Refused entry)
    (grew : s.Grew t (fmt.framing.frame entry)) : t.Lost fmt (count + 1) := by
  obtain ⟨last, back, layout, behind, each, bytes, few⟩ := lost
  refine lost_of_push layout behind each bytes new grew ?_
  have longer : ((back ++ [entry]).takeWhile fmt.Fits).length ≤
      (back.takeWhile fmt.Fits).length + 1 := by
    rw [List.takeWhile_append]
    split
    · rename_i whole
      have one : ([entry].takeWhile fmt.Fits).length ≤ 1 := (List.takeWhile_prefix _).length_le
      rw [List.length_append]
      omega
    · omega
  rw [List.length_append] at few ⊢
  omega

theorem WalState.Lost.delivers (lost : s.Lost fmt count) (order : Iteration)
    {entries : List WalEntry} (delivers : Delivers fmt order s.close entries) :
    entries.length < count := by
  obtain ⟨last, back, layout, behind, each, bytes, few⟩ := lost
  have tidy := tidy_close layout.tidy
  obtain ⟨bound, inside, below⟩ : ∃ bound, last < bound ∧
      ∀ id, segmentName id ∈ s.close → id < bound := by
    refine ⟨s.wal.currentSegment + 1, Nat.lt_succ_of_le layout.inside, fun id present => ?_⟩
    exact Nat.lt_succ_of_le (layout.below id (s.world.dir.mem_change _ |>.mp present))
  have found := replay_delivers fmt order tidy bound below
  rw [s.segmentsOf_close layout.opened] at found
  rw [delivers.unique found,
    entriesBelow_of_empty (show last + 1 ≤ bound by omega) fun id beyond => behind id (by omega),
    entriesBelow_succ, bytes, scan_frames_fits each]
  exact few

end Lost

section Runs

variable {fmt : Format} {s t : WalState}

theorem appendAll_cons {entry : WalEntry} {entries : List WalEntry}
    (appended : appendAll fmt (entry :: entries) s = .ok () t) :
    ∃ r, append fmt entry s = .ok () r ∧ appendAll fmt entries r = .ok () t := by
  change EStateM.bind (append fmt entry) (fun _ => appendAll fmt entries) s = _ at appended
  rw [EStateM.bind] at appended
  cases run : append fmt entry s with
  | ok value r =>
      rw [run] at appended
      exact ⟨r, rfl, appended⟩
  | error abort r =>
      rw [run] at appended
      cases appended

theorem append_grew {entry : WalEntry} (present : s.wal.writer.file ∈ s.world.dir)
    (appended : append fmt entry s = .ok () t) : s.Grew t (fmt.framing.frame entry) :=
  ((append_triple s present fmt entry).ok rfl appended).1

theorem appendAll_returns (entries : List WalEntry) (present : s.wal.writer.file ∈ s.world.dir)
    (healthy : s.world.Healthy) : ∃ t, appendAll fmt entries s = .ok () t := by
  induction entries generalizing s with
  | nil => exact ⟨s, rfl⟩
  | cons entry entries ih =>
      obtain ⟨r, appended, grew, later⟩ := append_ok fmt s entry present healthy
      obtain ⟨t, rest⟩ := ih grew.opened later
      exact ⟨t, (bind_of_ok appended).trans rest⟩

theorem appendAll_lost (inverse : fmt.RoundTrips) (entries : List WalEntry)
    (rejects : ∀ entry ∈ entries, fmt.RejectsParts entry) {count : Nat} (lost : s.Lost fmt count)
    (appended : appendAll fmt entries s = .ok () t) : t.Lost fmt (count + entries.length) := by
  induction entries generalizing s count with
  | nil =>
      cases appended
      exact lost
  | cons entry entries ih =>
      obtain ⟨r, first, rest⟩ := appendAll_cons appended
      have opened : s.wal.writer.file ∈ s.world.dir := by
        obtain ⟨_, _, layout, _⟩ := lost
        exact layout.opened
      have later := lost.push (judged inverse (rejects entry List.mem_cons_self))
        (append_grew opened first)
      have final := ih (fun other member => rejects other (List.mem_cons_of_mem entry member))
        later rest
      rwa [List.length_cons, Nat.add_comm entries.length, ← Nat.add_assoc]

/-- The log holds what was appended to it up to the first entry above the limit. -/
theorem appendAll_kept (inverse : fmt.RoundTrips) (entries : List WalEntry)
    (rejects : ∀ entry ∈ entries, fmt.RejectsParts entry) {old : List WalEntry}
    (holds : s.Holds fmt old) (appended : appendAll fmt entries s = .ok () t) :
    (∀ entry ∈ entries, fmt.Fits entry) ∧ t.Holds fmt (old ++ entries) ∨
      (∃ entry ∈ entries, ¬ fmt.Fits entry) ∧ t.Lost fmt (old ++ entries).length := by
  induction entries generalizing s old with
  | nil =>
      cases appended
      rw [List.append_nil]
      exact Or.inl ⟨nofun, holds⟩
  | cons entry entries ih =>
      obtain ⟨r, first, rest⟩ := appendAll_cons appended
      have grew : s.Grew r (fmt.framing.frame entry) := by
        obtain ⟨_, layout, _⟩ := id holds
        exact append_grew layout.opened first
      have others : ∀ other ∈ entries, fmt.RejectsParts other :=
        fun other member => rejects other (List.mem_cons_of_mem entry member)
      by_cases fits : fmt.Fits entry
      · have found := ih others (holds.push (inverse.sound fits) grew) rest
        rw [List.append_assoc, List.singleton_append] at found
        rcases found with ⟨all, kept⟩ | ⟨⟨other, member, large⟩, lost⟩
        · exact Or.inl ⟨List.forall_mem_cons.mpr ⟨fits, all⟩, kept⟩
        · exact Or.inr ⟨⟨other, List.mem_cons_of_mem entry member, large⟩, lost⟩
      · have refused : fmt.framing.Refused entry :=
          ⟨Nat.not_le.mp fits, rejects entry List.mem_cons_self⟩
        have lost := appendAll_lost inverse entries others (holds.lose refused grew) rest
        refine Or.inr ⟨⟨entry, List.mem_cons_self, fits⟩, ?_⟩
        rwa [List.length_append, List.length_cons, Nat.add_comm entries.length, ← Nat.add_assoc]

end Runs

/-- Of entries that were all appended replay delivers all exactly when no payload is above its
limit; those that are not are the ones whose frames it refuses. -/
theorem appended_delivered_iff (fmt : Format) (inverse : fmt.RoundTrips) (order : Iteration)
    (config : WalConfig) (world : World) (old : List WalEntry) (clean : Clean fmt world.dir old)
    (wal : WalWriter) (opened : World)
    (run : WalWriter.openLog order config world = .ok wal opened) (entries : List WalEntry)
    (rejects : ∀ entry ∈ entries, fmt.RejectsParts entry) (s : WalState)
    (appended : appendAll fmt entries ⟨wal, opened⟩ = .ok () s) (listing : Iteration) :
    (Delivers fmt listing s.close (old ++ entries) ↔ ∀ entry ∈ entries, fmt.Fits entry) ∧
      ((∀ entry ∈ entries, ∀ rest, fmt.framing.next (fmt.framing.frame entry ++ rest) ≠ none) ↔
        ∀ entry ∈ entries, fmt.Fits entry) := by
  have holds := clean.open_holds order config world run
  constructor
  · rcases appendAll_kept inverse entries rejects holds appended with
      ⟨all, kept⟩ | ⟨⟨entry, member, large⟩, lost⟩
    · exact ⟨fun _ => all, fun _ => kept.clean.delivers listing⟩
    · refine ⟨fun delivers => ?_, fun all => absurd (all entry member) large⟩
      exact absurd (lost.delivers listing delivers) (Nat.lt_irrefl _)
  · constructor
    · intro taken entry member
      by_contra large
      exact taken entry member []
        (fmt.framing.next_frame_refused ⟨Nat.not_le.mp large, rejects entry member⟩ [])
    · intro all entry member rest refused
      rw [fmt.framing.next_frame entry rest (inverse.sound (all entry member))] at refused
      cases refused

/-- An entry whose texts fit into memory is not read from a part of its bytes. -/
theorem rejects_of_fit {entry : WalEntry} (fit : Bincode.TextsFit entry) :
    Bincode.format.RejectsParts entry :=
  fun _ inside cut => by
    obtain ⟨reason, failed⟩ := (Bincode.walEntry_rejects fit).read inside cut
    exact congrArg Except.toOption failed

/-- The event of a market with the given name. -/
def createdAs (name : String) : WalEntry :=
  .indexedEvent ⟨1, 0, Vector.replicate 32 0, 0, 0, .marketCreated 1 name ""⟩

theorem size_le_string (text : String) :
    text.toByteArray.size ≤ (Codec.string.encode text).length := by
  have behind : Codec.string.encode text =
      Codec.count.encode text.toByteArray.size ++ text.toByteArray.data.toList := rfl
  rw [behind, List.length_append]
  exact Nat.le_add_left _ _

theorem createdAs_large (name : String) :
    name.toByteArray.size ≤ (Bincode.format.serialize (createdAs name)).length := by
  have bytes : Bincode.format.serialize (createdAs name) =
      Bytes.le 4 0 ++ (Bincode.u64.encode 1 ++ (Bincode.u64.encode 0 ++
        (Bincode.hash.encode (Vector.replicate 32 0) ++ (Bincode.u32.encode 0 ++
          (Bincode.u32.encode 0 ++ (Bytes.le 4 11 ++ (Bincode.u16.encode 1 ++
            (Codec.string.encode name ++ Codec.string.encode "")))))))) := rfl
  have within := size_le_string name
  rw [bytes]
  simp only [List.length_append]
  omega

/-- A name of one letter more than a payload may have bytes. -/
def longName : String := String.ofList (List.replicate (maxPayload + 1) 'a')

theorem longName_size : longName.toByteArray.size = maxPayload + 1 := by
  have letters (n : Nat) : (String.ofList (List.replicate n 'a')).toByteArray.size = n := by
    rw [String.toByteArray_ofList]
    induction n with
    | zero => rw [List.replicate_zero, List.utf8Encode_nil, ByteArray.size_empty]
    | succ n ih =>
        have one : ['a'].utf8Encode.size = 1 := by decide +kernel
        rw [List.replicate_succ, List.utf8Encode_cons, ByteArray.size_append, ih, one]
        omega
  exact letters (maxPayload + 1)

theorem createdAs_refused : Bincode.format.framing.Refused (createdAs longName) := by
  have size := longName_size
  constructor
  · have large := createdAs_large longName
    rw [size] at large
    exact large
  · have fit : Bincode.TextsFit (createdAs longName) := by
      refine ⟨?_, Nat.zero_lt_succ _⟩
      rw [size, maxPayload]
      omega
    exact rejects_of_fit fit

/-- A long name between two entries of a few bytes. -/
def nameBetween : List WalEntry := [.checkpoint 1, createdAs longName, .checkpoint 2]

theorem appended_delivered_iff_long :
    ∃ wal opened s, WalWriter.openLog .stored ⟨"wal", 1024, .none⟩ ⟨∅, [], []⟩ = .ok wal opened ∧
      appendAll Bincode.format nameBetween ⟨wal, opened⟩ = .ok () s ∧
      (Delivers Bincode.format .stored s.close ([] ++ nameBetween) ↔
        ∀ entry ∈ nameBetween, Bincode.format.Fits entry) ∧
      ((∀ entry ∈ nameBetween, ∀ rest,
        Bincode.format.framing.next (Bincode.format.framing.frame entry ++ rest) ≠ none) ↔
        ∀ entry ∈ nameBetween, Bincode.format.Fits entry) := by
  obtain ⟨wal, opened, run, healthy⟩ := openLog_ok .stored ⟨"wal", 1024, .none⟩ ⟨∅, [], []⟩
    (fun v member => by cases member)
  have clean : Clean Bincode.format (∅ : Dir) [] := clean_of_fresh fun name member =>
    (Std.ExtTreeMap.not_mem_empty member).elim
  obtain ⟨_, layout, _⟩ := clean.open_holds _ _ _ run
  obtain ⟨s, appended⟩ := @appendAll_returns Bincode.format _ nameBetween layout.opened healthy
  have rejects : ∀ entry ∈ nameBetween, Bincode.format.RejectsParts entry := by
    intro entry member
    rcases List.mem_cons.mp member with rfl | member
    · exact rejects_of_fit trivial
    · rcases List.mem_cons.mp member with rfl | member
      · exact createdAs_refused.2
      · exact List.mem_singleton.mp member ▸ rejects_of_fit trivial
  exact ⟨wal, opened, s, run, appended, appended_delivered_iff Bincode.format
    Bincode.format_roundTrips .stored _ ⟨∅, [], []⟩ [] clean wal opened run nameBetween rejects s
    appended .stored⟩

/-- A long name is acknowledged, and replay does not deliver it. -/
theorem long_name_lost :
    ∃ wal opened s, WalWriter.openLog .stored ⟨"wal", 1024, .none⟩ ⟨∅, [], []⟩ = .ok wal opened ∧
      append Bincode.format (createdAs longName) ⟨wal, opened⟩ = .ok () s ∧
      Bincode.format.framing.next (Bincode.format.framing.frame (createdAs longName)) = none ∧
      ¬ Delivers Bincode.format .stored s.close [createdAs longName] := by
  obtain ⟨wal, opened, run, healthy⟩ := openLog_ok .stored ⟨"wal", 1024, .none⟩ ⟨∅, [], []⟩
    (fun v member => by cases member)
  have clean : Clean Bincode.format (∅ : Dir) [] := clean_of_fresh fun name member =>
    (Std.ExtTreeMap.not_mem_empty member).elim
  have holds := clean.open_holds _ _ _ run
  obtain ⟨last, layout, _⟩ := id holds
  obtain ⟨s, appended, grew, _⟩ :=
    append_ok Bincode.format ⟨wal, opened⟩ (createdAs longName) layout.opened healthy
  refine ⟨wal, opened, s, run, appended, ?_, fun delivers => ?_⟩
  · have none := Bincode.format.framing.next_frame_refused createdAs_refused []
    rwa [List.append_nil] at none
  · exact absurd ((holds.lose createdAs_refused grew).delivers .stored delivers)
      (Nat.lt_irrefl _)

end Wal

end Perfdb
