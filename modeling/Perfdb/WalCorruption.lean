import Mathlib
import Perfdb.WalSession

set_option autoImplicit false

namespace Perfdb.Wal

/-- What can become of a segment that held these entries: it is cut short, or one
of its frames and anything behind it is altered in a way the checks notice. -/
inductive Damage (fmt : Format) : List WalEntry → Bytes → Prop where
  | truncated (entries : List WalEntry) (kept : Nat) :
      Damage fmt entries ((fmt.framing.frames entries).take kept)
  | altered (front : List WalEntry) (entry : WalEntry) (back : List WalEntry) (bytes : Bytes)
      (detected : fmt.framing.next bytes = none) :
      Damage fmt (front ++ entry :: back) (fmt.framing.frames front ++ bytes)

/-- The entries of the segments `first, …, first + count - 1`. -/
def spread (chunks : Nat → List WalEntry) (first count : Nat) : List WalEntry :=
  (List.range' first count).flatMap chunks

section Damage

variable {fmt : Format}

theorem Damage.scan {entries : List WalEntry} {bytes : Bytes} (damage : Damage fmt entries bytes)
    (sound : ∀ entry ∈ entries, fmt.framing.Sound entry) :
    fmt.framing.scan bytes <+: entries := by
  cases damage with
  | truncated _ kept => exact fmt.framing.scan_take_frames entries kept sound
  | altered front entry back bytes detected =>
      rw [fmt.framing.scan_frames front bytes fun other member =>
        sound other (List.mem_append_left _ member), fmt.framing.scan_of_none detected,
        List.append_nil]
      exact List.prefix_append _ _

theorem flatMap_scan_frames (chunks : Nat → List WalEntry) (segments : Nat → Bytes)
    (ids : List Nat) (sound : ∀ id ∈ ids, ∀ entry ∈ chunks id, fmt.framing.Sound entry)
    (intact : ∀ id ∈ ids, segments id = fmt.framing.frames (chunks id)) :
    (ids.flatMap fun id => fmt.framing.scan (segments id)) = ids.flatMap chunks := by
  induction ids with
  | nil => rfl
  | cons id ids ih =>
      rw [List.flatMap_cons, List.flatMap_cons, intact id List.mem_cons_self,
        fmt.framing.scan_frames_exact _ (sound id List.mem_cons_self),
        ih (fun other member => sound other (List.mem_cons_of_mem id member))
          (fun other member => intact other (List.mem_cons_of_mem id member))]

end Damage

theorem numbers_split {damaged bound : Nat} (inside : damaged < bound) :
    List.range' 0 bound = List.range' 0 damaged ++
      (damaged :: List.range' (damaged + 1) (bound - damaged - 1)) := by
  have joined := List.range'_append_1 (s := 0) (m := damaged) (n := bound - damaged - 1 + 1)
  rw [Nat.zero_add, List.range'_succ] at joined
  rw [joined]
  congr 1
  omega

theorem spread_split (chunks : Nat → List WalEntry) {damaged bound : Nat}
    (inside : damaged < bound) : spread chunks 0 bound =
      spread chunks 0 damaged ++ chunks damaged ++
        spread chunks (damaged + 1) (bound - damaged - 1) := by
  rw [spread, numbers_split inside, List.flatMap_append, List.flatMap_cons, List.append_assoc]
  rfl

/-- Damage costs entries of its own segment only: replay delivers the segments
before it, the entries up to some point of the damaged one, and the segments
behind it. Without entries behind it that is a prefix of what was appended. -/
theorem replay_damaged (fmt : Format) (inverse : fmt.RoundTrips) (order : Iteration) (dir : Dir)
    (tidy : Tidy dir) (bound : Nat) (below : ∀ id, segmentName id ∈ dir → id < bound)
    (chunks : Nat → List WalEntry) (fits : ∀ id < bound, ∀ entry ∈ chunks id, fmt.Fits entry)
    (damaged : Nat) (inside : damaged < bound)
    (intact : ∀ id < bound, id ≠ damaged →
      segmentsOf dir id = fmt.framing.frames (chunks id))
    (damage : Damage fmt (chunks damaged) (segmentsOf dir damaged)) :
    ∃ front, front <+: chunks damaged ∧
      Delivers fmt order dir (spread chunks 0 damaged ++ front ++
        spread chunks (damaged + 1) (bound - damaged - 1)) ∧
      (spread chunks (damaged + 1) (bound - damaged - 1) = [] →
        spread chunks 0 damaged ++ front <+: spread chunks 0 bound) := by
  have sound (id : Nat) (under : id < bound) (entry : WalEntry) (member : entry ∈ chunks id) :
      fmt.framing.Sound entry := inverse.sound (fits id under entry member)
  have scanned := damage.scan (sound damaged inside)
  refine ⟨fmt.framing.scan (segmentsOf dir damaged), scanned, ?_, fun none => ?_⟩
  · have delivers := replay_delivers fmt order tidy bound below
    rw [entriesBelow, List.range_eq_range', numbers_split inside, List.flatMap_append,
      List.flatMap_cons,
      flatMap_scan_frames chunks (segmentsOf dir) (List.range' 0 damaged),
      flatMap_scan_frames chunks (segmentsOf dir) (List.range' (damaged + 1) _),
      ← List.append_assoc] at delivers
    · exact delivers
    · intro id member
      have number := List.mem_range'_1.mp member
      exact sound id (by omega)
    · intro id member
      have number := List.mem_range'_1.mp member
      exact intact id (by omega) (by omega)
    · intro id member
      have number := List.mem_range'_1.mp member
      exact sound id (by omega)
    · intro id member
      have number := List.mem_range'_1.mp member
      exact intact id (by omega) (by omega)
  · rw [spread_split chunks inside, none, List.append_nil, List.prefix_append_right_inj]
    exact scanned

/-- Two entries, each in a segment of its own, and one bit of the first frame flipped. -/
def flippedLog : Dir :=
  ((∅ : Dir).insert (segmentName 0)
    ⟨[13] ++ (Bincode.format.framing.frame (.checkpoint 1)).tail, []⟩).insert (segmentName 1)
    ⟨Bincode.format.framing.frame (.checkpoint 2), []⟩

def flippedChunks : Nat → List WalEntry
  | 0 => [.checkpoint 1]
  | 1 => [.checkpoint 2]
  | _ => []

theorem flippedLog_damage :
    Damage Bincode.format [.checkpoint 1] (segmentsOf flippedLog 0) := by
  have bytes : segmentsOf flippedLog 0 =
      [13] ++ (Bincode.format.framing.frame (.checkpoint 1)).tail := by
    decide +kernel
  rw [bytes]
  exact Damage.altered [] (.checkpoint 1) [] _ (by decide +kernel)

theorem replay_damaged_flipped :
    ∃ front, front <+: flippedChunks 0 ∧
      Delivers Bincode.format .stored flippedLog
        (spread flippedChunks 0 0 ++ front ++ spread flippedChunks 1 1) ∧
      (spread flippedChunks 1 1 = [] →
        spread flippedChunks 0 0 ++ front <+: spread flippedChunks 0 2) := by
  refine replay_damaged Bincode.format Bincode.format_roundTrips .stored flippedLog
    ((tidy_empty.insert 0 _).insert 1 _) 2 ?_ flippedChunks ?_ 0 (by decide) ?_ flippedLog_damage
  · intro id present
    rcases Std.ExtTreeMap.mem_insert.mp present with same | old
    · have number := (segmentName_inj _ _).mp (Std.LawfulEqCmp.eq_of_compare same)
      omega
    · rcases Std.ExtTreeMap.mem_insert.mp old with same | none
      · have number := (segmentName_inj _ _).mp (Std.LawfulEqCmp.eq_of_compare same)
        omega
      · exact (Std.ExtTreeMap.not_mem_empty none).elim
  · unfold Format.Fits
    decide +kernel
  · decide +kernel

/-- The writer that wrote the two segments, and what replay makes of them once the
first is damaged: an entry is skipped and the one behind it is delivered. -/
theorem replay_skips_hole :
    (∃ later, Session.run Bincode.format
        ⟨.stored, ⟨"wal", 0, .everyWrite⟩, [.checkpoint 1, .checkpoint 2]⟩ ⟨∅, [], []⟩ =
          .ok () later ∧
      segmentsOf later.dir 0 = Bincode.format.framing.frames [.checkpoint 1] ∧
      segmentsOf later.dir 1 = segmentsOf flippedLog 1) ∧
    Bincode.format.framing.next (segmentsOf flippedLog 0) = none ∧
    delivered Bincode.format .stored flippedLog = .ok ([.checkpoint 2], 1) ∧
    ¬ [WalEntry.checkpoint 2] <+: [.checkpoint 1, .checkpoint 2] := by
  refine ⟨?_, by decide +kernel, by decide +kernel, by decide⟩
  have written : (match Session.run Bincode.format
        ⟨.stored, ⟨"wal", 0, .everyWrite⟩, [.checkpoint 1, .checkpoint 2]⟩ ⟨∅, [], []⟩ with
      | .ok _ later =>
          decide (segmentsOf later.dir 0 = Bincode.format.framing.frames [.checkpoint 1] ∧
            segmentsOf later.dir 1 = segmentsOf flippedLog 1)
      | .error _ _ => false) = true := by
    decide +kernel
  cases run : Session.run Bincode.format
      ⟨.stored, ⟨"wal", 0, .everyWrite⟩, [.checkpoint 1, .checkpoint 2]⟩ ⟨∅, [], []⟩ with
  | ok value later =>
      rw [run] at written
      exact ⟨later, rfl, of_decide_eq_true written⟩
  | error abort later =>
      rw [run] at written
      contradiction

end Perfdb.Wal
