import Mathlib
import Perfdb.FrameStream

set_option autoImplicit false

namespace Perfdb.Framing

variable {α : Type} {f : Framing α} {input tail rest : Bytes} {value : α} {values : List α}

/-- The input begins with complete frames of these values, each within the limit, with the
checksum of its payload and a payload that can be decoded. The last argument is what stands
behind them. -/
inductive Parses (f : Framing α) : Bytes → List α → Bytes → Prop where
  | done (input : Bytes) : Parses f input [] input
  | frame (length checksum payload : Bytes) {tail rest : Bytes} {value : α} {values : List α}
      (lengthSize : length.length = 4) (checksumSize : checksum.length = 4)
      (sized : Bytes.ofLe length = payload.length) (bounded : payload.length ≤ f.limit)
      (checked : Bytes.ofLe checksum = (f.checksum payload).toNat)
      (decoded : f.decode payload = some value) (behind : Parses f tail values rest) :
      Parses f (length ++ (checksum ++ (payload ++ tail))) (value :: values) rest

theorem next_of_frame {length checksum payload : Bytes} (lengthSize : length.length = 4)
    (checksumSize : checksum.length = 4) (sized : Bytes.ofLe length = payload.length)
    (bounded : payload.length ≤ f.limit)
    (checked : Bytes.ofLe checksum = (f.checksum payload).toNat)
    (decoded : f.decode payload = some value) :
    f.next (length ++ (checksum ++ (payload ++ tail))) = some (value, tail) := by
  have header : Bytes.readExact 8 (length ++ (checksum ++ (payload ++ tail))) =
      some (length ++ checksum, payload ++ tail) := by
    have read := Bytes.readExact_append (length ++ checksum) (payload ++ tail)
    rwa [List.length_append, lengthSize, checksumSize, List.append_assoc] at read
  have front : (length ++ checksum).take 4 = length := List.take_left' lengthSize
  have back : (length ++ checksum).drop 4 = checksum := List.drop_left' lengthSize
  simp only [next, header, Option.bind_eq_bind, Option.bind_some, front, back, sized,
    Nat.not_lt.mpr bounded, if_false, Bytes.readExact_append, checked, ne_eq, not_true_eq_false,
    decoded]

/-- And whatever is accepted is a frame of the grammar. -/
theorem frame_of_next (head : f.next input = some (value, tail))
    (behind : f.Parses tail values rest) : f.Parses input (value :: values) rest := by
  simp only [next, Option.bind_eq_bind, Option.bind_eq_some_iff] at head
  obtain ⟨⟨header, body⟩, readHeader, head⟩ := head
  obtain ⟨rfl, headerSize⟩ := Bytes.readExact_eq_some readHeader
  simp only at head
  split at head
  · cases head
  · rename_i within
    obtain ⟨⟨payload, after⟩, readPayload, head⟩ := Option.bind_eq_some_iff.mp head
    obtain ⟨rfl, payloadSize⟩ := Bytes.readExact_eq_some readPayload
    simp only at head
    split at head
    · cases head
    · rename_i matched
      obtain ⟨found, decoded, head⟩ := Option.bind_eq_some_iff.mp head
      obtain ⟨rfl, rfl⟩ := Prod.mk.inj (Option.some.inj head)
      have front : (header.take 4).length = 4 := by
        rw [List.length_take]
        omega
      have back : (header.drop 4).length = 4 := by
        rw [List.length_drop]
        omega
      have whole := Parses.frame (f := f) (header.take 4) (header.drop 4) payload front back
        payloadSize.symm (by omega) (Decidable.not_not.mp matched).symm decoded behind
      rwa [← List.append_assoc, List.take_append_drop] at whole

/-- The scan of an input is a sentence of the grammar, and ends where no frame begins. -/
theorem scan_parses (input : Bytes) : ∃ rest, f.Parses input (f.scan input) rest ∧
    f.next rest = none := by
  induction size : input.length using Nat.strongRecOn generalizing input with
  | ind length ih =>
      cases head : f.next input with
      | none =>
          rw [f.scan_of_none head]
          exact ⟨input, .done input, head⟩
      | some found =>
          obtain ⟨value, tail⟩ := found
          have shorter := f.next_length head
          obtain ⟨rest, parsed, ended⟩ := ih tail.length (by omega) tail rfl
          rw [f.scan_of_some head]
          exact ⟨rest, frame_of_next head parsed, ended⟩

theorem Parses.scan_eq (parsed : f.Parses input values rest) :
    f.scan input = values ++ f.scan rest := by
  induction parsed with
  | done input => rfl
  | frame length checksum payload lengthSize checksumSize sized bounded checked decoded _ ih =>
      rw [f.scan_of_some (next_of_frame lengthSize checksumSize sized bounded checked decoded), ih,
        List.cons_append]

theorem Parses.prefix_scan (parsed : f.Parses input values rest) : values <+: f.scan input :=
  ⟨f.scan rest, parsed.scan_eq.symm⟩

theorem ofLe_zeros (count : Nat) : Bytes.ofLe (List.replicate count 0) = 0 := by
  induction count with
  | zero => rfl
  | succ count ih => simp only [List.replicate_succ, Bytes.ofLe, ih, UInt8.toNat_zero, Nat.mul_zero]

/-- Zeros hold no frame, unless nothing decodes to something. -/
theorem next_zeros (nothing : f.decode [] = none) (count : Nat) :
    f.next (List.replicate count 0) = none := by
  by_cases short : count < 8
  · apply f.next_short
    rw [List.length_replicate]
    exact short
  · have header : Bytes.readExact 8 (List.replicate count 0) =
        some (List.replicate 8 0, List.replicate (count - 8) 0) := by
      rw [Bytes.readExact, if_pos (by rw [List.length_replicate]; omega), List.take_replicate,
        List.drop_replicate, Nat.min_eq_left (by omega)]
    have size : Bytes.ofLe ((List.replicate 8 (0 : UInt8)).take 4) = 0 := by
      rw [List.take_replicate]
      exact ofLe_zeros _
    have payload (bytes : Bytes) : Bytes.readExact 0 bytes = some ([], bytes) := by
      rw [Bytes.readExact, if_pos (Nat.zero_le _), List.take_zero, List.drop_zero]
    simp only [next, header, Option.bind_eq_bind, Option.bind_some, size, Nat.not_lt_zero,
      payload, nothing, Option.bind_none, ite_self]

theorem Parses.scan_zeros (nothing : f.decode [] = none) (count : Nat)
    (parsed : f.Parses input values (List.replicate count 0)) : f.scan input = values := by
  rw [parsed.scan_eq, f.scan_of_none (next_zeros nothing count), List.append_nil]

end Perfdb.Framing
