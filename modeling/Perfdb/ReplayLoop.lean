import Mathlib
import Perfdb.Bincode
import Perfdb.FrameGrammar
import Perfdb.WalReplay

set_option autoImplicit false

namespace Perfdb.Wal

/-- The variable `pos`, the cursor of the file, the ranges that were asked for, and the entries
handed on. -/
structure ReplayLoop where
  pos : Nat
  cursor : Nat
  reads : List (Nat × Nat)
  entries : List WalEntry

namespace ReplayLoop

def start : ReplayLoop := ⟨0, 0, [], []⟩

/-- `read_exact` into a buffer of this size. -/
def read (bytes : Bytes) (size : Nat) (s : ReplayLoop) : Option Bytes × ReplayLoop :=
  let s := { s with reads := s.reads ++ [(s.cursor, size)] }
  match Bytes.readExact size (bytes.drop s.cursor) with
  | none => (none, s)
  | some (front, _) => (some front, { s with cursor := s.cursor + size })

/-- One turn of the loop: whether it goes on, and in what state. -/
def turn (fmt : Format) (bytes : Bytes) (s : ReplayLoop) : Bool × ReplayLoop :=
  if s.pos + entryHeaderSize ≤ bytes.length then
    match s.read bytes entryHeaderSize with
    | (none, s) => (false, s)
    | (some header, s) =>
        let len := Bytes.ofLe (header.take 4)
        let expectedCrc := Bytes.ofLe (header.drop 4)
        if maxPayload < len then (false, s)
        else if bytes.length < s.pos + entryHeaderSize + len then (false, s)
        else
          match s.read bytes len with
          | (none, s) => (false, s)
          | (some payload, s) =>
              if (fmt.crc32 payload).toNat ≠ expectedCrc then (false, s)
              else
                match fmt.deserialize payload with
                | none => (false, s)
                | some entry => (true, { s with
                    pos := s.pos + entryHeaderSize + len
                    entries := s.entries ++ [entry] })
  else (false, s)

/-- The state the loop ends in, if it ends within so many turns. -/
def run (fmt : Format) (bytes : Bytes) : Nat → ReplayLoop → Option ReplayLoop
  | 0, _ => none
  | turns + 1, s =>
      match s.turn fmt bytes with
      | (true, s) => run fmt bytes turns s
      | (false, s) => some s

/-- The cursor is where the loop thinks it is, and nothing was read beyond the end. -/
structure Inside (bytes : Bytes) (s : ReplayLoop) : Prop where
  cursor : s.cursor = s.pos
  within : s.pos ≤ bytes.length
  reads : ∀ range ∈ s.reads, range.1 + range.2 ≤ bytes.length

section Turn

variable {fmt : Format} {bytes : Bytes} {s : ReplayLoop}

theorem start_inside (bytes : Bytes) : start.Inside bytes :=
  ⟨rfl, Nat.zero_le _, fun _ member => by cases member⟩

/-- A read that the file has room for returns what is there. -/
theorem read_eq {size : Nat} (room : s.cursor + size ≤ bytes.length) :
    s.read bytes size = (some ((bytes.drop s.cursor).take size),
      { s with cursor := s.cursor + size, reads := s.reads ++ [(s.cursor, size)] }) := by
  have enough : size ≤ (bytes.drop s.cursor).length := by
    rw [List.length_drop]
    omega
  simp only [read, Bytes.readExact, if_pos enough]

theorem reads_push {ranges : List (Nat × Nat)} {at_ size : Nat}
    (before : ∀ range ∈ ranges, range.1 + range.2 ≤ bytes.length)
    (room : at_ + size ≤ bytes.length) :
    ∀ range ∈ ranges ++ [(at_, size)], range.1 + range.2 ≤ bytes.length := by
  intro range member
  rcases List.mem_append.mp member with old | new
  · exact before range old
  · rw [List.mem_singleton.mp new]
    exact room

/-- A turn takes the frame that begins at the cursor, or ends the loop where none does. Either
way it reads nothing beyond the end of the file. -/
theorem Inside.turn (inside : s.Inside bytes) :
    match fmt.framing.next (bytes.drop s.pos) with
    | none => ∃ t, s.turn fmt bytes = (false, t) ∧ t.entries = s.entries ∧
        ∀ range ∈ t.reads, range.1 + range.2 ≤ bytes.length
    | some (entry, rest) => ∃ t, s.turn fmt bytes = (true, t) ∧ t.Inside bytes ∧
        bytes.drop t.pos = rest ∧ t.entries = s.entries ++ [entry] := by
  obtain ⟨pos, cursor, ranges, entries⟩ := s
  obtain ⟨same, within, reads⟩ := inside
  change cursor = pos at same
  change pos ≤ bytes.length at within
  change ∀ range ∈ ranges, range.1 + range.2 ≤ bytes.length at reads
  subst same
  have length : (bytes.drop cursor).length = bytes.length - cursor := List.length_drop
  have size : entryHeaderSize = 8 := rfl
  by_cases headed : cursor + entryHeaderSize ≤ bytes.length
  · have header : Bytes.readExact 8 (bytes.drop cursor) =
        some ((bytes.drop cursor).take 8, bytes.drop (cursor + 8)) := by
      rw [size] at headed
      rw [Bytes.readExact, if_pos (by omega), List.drop_drop]
    have first := read_eq (s := ⟨cursor, cursor, ranges, entries⟩) headed
    have once := reads_push reads headed
    simp only [ReplayLoop.turn, if_pos headed, first, Framing.next, Option.bind_eq_bind, header,
      Option.bind_some]
    have limit : fmt.framing.limit = maxPayload := rfl
    have checksum (payload : Bytes) : fmt.framing.checksum payload = fmt.crc32 payload := rfl
    have decode (payload : Bytes) : fmt.framing.decode payload = fmt.deserialize payload := rfl
    simp only [limit, checksum, decode, size] at headed once ⊢
    generalize Bytes.ofLe (((bytes.drop cursor).take 8).take 4) = len
    generalize Bytes.ofLe (((bytes.drop cursor).take 8).drop 4) = expectedCrc
    by_cases large : maxPayload < len
    · simp only [if_pos large]
      exact ⟨_, rfl, rfl, once⟩
    · simp only [if_neg large]
      by_cases beyond : bytes.length < cursor + 8 + len
      · have none : Bytes.readExact len (bytes.drop (cursor + 8)) = none := by
          apply Bytes.readExact_eq_none
          rw [List.length_drop]
          omega
        simp only [if_pos beyond, none, Option.bind_none]
        exact ⟨_, rfl, rfl, once⟩
      · have room : cursor + 8 + len ≤ bytes.length := Nat.le_of_not_lt beyond
        have payload : Bytes.readExact len (bytes.drop (cursor + 8)) =
            some ((bytes.drop (cursor + 8)).take len, bytes.drop (cursor + 8 + len)) := by
          rw [Bytes.readExact, if_pos (by rw [List.length_drop]; omega), List.drop_drop]
        have second :=
          @read_eq bytes ⟨cursor, cursor + 8, ranges ++ [(cursor, 8)], entries⟩ len room
        have twice := reads_push once room
        simp only [if_neg beyond, second, payload, Option.bind_some]
        generalize (bytes.drop (cursor + 8)).take len = payload
        by_cases matched : (fmt.crc32 payload).toNat = expectedCrc
        · simp only [matched, ne_eq, not_true_eq_false, if_false]
          cases fmt.deserialize payload with
          | none => exact ⟨_, rfl, rfl, twice⟩
          | some entry => exact ⟨_, rfl, ⟨rfl, room, twice⟩, rfl, rfl⟩
        · simp only [matched, ne_eq, not_false_eq_true, if_true]
          exact ⟨_, rfl, rfl, twice⟩
  · have short : fmt.framing.next (bytes.drop cursor) = none := by
      apply fmt.framing.next_short
      rw [size] at headed
      omega
    rw [short]
    refine ⟨_, ?_, rfl, reads⟩
    rw [ReplayLoop.turn, if_neg headed]

/-- From wherever it stands the loop ends, and hands on the entries of what it has not passed.
Every turn that goes on passes a header. -/
theorem Inside.run (inside : s.Inside bytes) {turns : Nat}
    (enough : bytes.length - s.pos < 8 * turns) :
    ∃ t, s.run fmt bytes turns = some t ∧
      t.entries = s.entries ++ fmt.framing.scan (bytes.drop s.pos) ∧
      ∀ range ∈ t.reads, range.1 + range.2 ≤ bytes.length := by
  induction turns generalizing s with
  | zero => omega
  | succ turns ih =>
      have step := @Inside.turn fmt bytes s inside
      cases head : fmt.framing.next (bytes.drop s.pos) with
      | none =>
          rw [head] at step
          obtain ⟨t, turned, same, reads⟩ := step
          refine ⟨t, ?_, ?_, reads⟩
          · rw [ReplayLoop.run, turned]
          · rw [same, fmt.framing.scan_of_none head, List.append_nil]
      | some found =>
          obtain ⟨entry, rest⟩ := found
          rw [head] at step
          obtain ⟨t, turned, later, behind, grown⟩ := step
          have shorter := fmt.framing.next_length head
          have here := inside.within
          have there := later.within
          rw [← behind, List.length_drop, List.length_drop] at shorter
          obtain ⟨u, ended, handed, reads⟩ := ih later (by omega)
          refine ⟨u, ?_, ?_, reads⟩
          · rw [ReplayLoop.run, turned]
            exact ended
          · rw [handed, grown, behind, fmt.framing.scan_of_some head, List.append_assoc,
              List.singleton_append]

end Turn

/-- Nothing was read beyond the end of the file, the entries are the longest sequence of valid
frames that the segment begins with, zeros behind the frames add nothing, and the loop over the
segments folds its callback over the same entries. -/
structure Longest (fmt : Format) (bytes : Bytes) (s : ReplayLoop) : Prop where
  reads : ∀ range ∈ s.reads, range.1 + range.2 ≤ bytes.length
  valid : ∃ rest, fmt.framing.Parses bytes s.entries rest
  longest : ∀ entries rest, fmt.framing.Parses bytes entries rest → entries <+: s.entries
  zeros : ∀ entries count, fmt.framing.Parses bytes entries (List.replicate count 0) →
    s.entries = entries
  folded : ∀ (σ : Type) (callback : σ → WalEntry → Except PerfDbError σ) (init : σ)
    (count fuel : Nat), bytes.length < fuel →
    replaySegment fmt callback bytes.length fuel 0 bytes init count =
      (s.entries.foldlM callback init).map fun acc => (acc, count + s.entries.length)

theorem longest_of_scan {fmt : Format} {bytes : Bytes} {s : ReplayLoop}
    (empty : fmt.deserialize [] = none) (entries : s.entries = fmt.framing.scan bytes)
    (reads : ∀ range ∈ s.reads, range.1 + range.2 ≤ bytes.length) : s.Longest fmt bytes := by
  refine ⟨reads, ?_, ?_, ?_, ?_⟩
  · obtain ⟨rest, parsed, _⟩ := fmt.framing.scan_parses bytes
    rw [entries]
    exact ⟨rest, parsed⟩
  · intro others rest parsed
    rw [entries]
    exact parsed.prefix_scan
  · intro others count parsed
    rw [entries]
    exact parsed.scan_zeros empty count
  · intro σ callback init count fuel enough
    have scanned : fmt.framing.scanFrom fuel bytes = s.entries := by
      rw [entries]
      exact fmt.framing.scanFrom_fuel fuel (bytes.length + 1) bytes enough (Nat.lt_succ_self _)
    rw [replaySegment_eq fmt callback _ _ _ _ _ _ (Nat.zero_add _), scanned, foldlM_tally]

end ReplayLoop

/-- For a segment of any content the loop ends, within one turn for every eight bytes and one
more, and hands on the longest sequence of valid frames. -/
theorem replay_loop_longest (fmt : Format) (empty : fmt.deserialize [] = none) (bytes : Bytes) :
    ∃ s, ReplayLoop.start.run fmt bytes (bytes.length / 8 + 1) = some s ∧ s.Longest fmt bytes := by
  have enough : bytes.length - ReplayLoop.start.pos < 8 * (bytes.length / 8 + 1) := by
    change bytes.length - 0 < _
    omega
  obtain ⟨s, ended, handed, reads⟩ :=
    @ReplayLoop.Inside.run fmt bytes _ (ReplayLoop.start_inside bytes) _ enough
  exact ⟨s, ended, ReplayLoop.longest_of_scan empty handed reads⟩

/-- A frame of a checkpoint, and zeros behind it. -/
theorem replay_loop_longest_zeros :
    ∃ s, ReplayLoop.start.run Bincode.format
        (Bincode.format.framing.frame (.checkpoint 7) ++ List.replicate 20 0)
        ((Bincode.format.framing.frame (.checkpoint 7) ++ List.replicate 20 0).length / 8 + 1) =
          some s ∧
      s.Longest Bincode.format
        (Bincode.format.framing.frame (.checkpoint 7) ++ List.replicate 20 0) :=
  replay_loop_longest Bincode.format rfl _

end Perfdb.Wal
