import Mathlib
import Perfdb.MmapAppend

set_option autoImplicit false

namespace Perfdb.Mmap

section Pod

variable {α : Type} (pod : Pod α)

/-- The bytes of records one behind the other. -/
def Pod.layOut (records : List α) : Bytes := records.flatMap pod.bytesOf

theorem Pod.layOut_length (records : List α) :
    (pod.layOut records).length = records.length * pod.size := by
  induction records with
  | nil => simp [layOut]
  | cons record records ih =>
      rw [layOut, List.flatMap_cons, List.length_append, pod.bytesOf_length, ← layOut, ih,
        List.length_cons, Nat.succ_mul, Nat.add_comm]

theorem Pod.layOut_append_one (records : List α) (record : α) :
    pod.layOut (records ++ [record]) = pod.layOut records ++ pod.bytesOf record := by
  rw [layOut, List.flatMap_append, List.flatMap_singleton, ← layOut]

theorem Pod.cast_layOut (records : List α) :
    pod.cast records.length (pod.layOut records) = records := by
  induction records with
  | nil => rfl
  | cons record records ih =>
      rw [List.length_cons, Pod.cast, layOut, List.flatMap_cons,
        List.take_left' (pod.bytesOf_length record), List.drop_left' (pod.bytesOf_length record),
        pod.fromBytes_bytesOf, ← layOut, ih]

end Pod

section Read

variable {α : Type} {pod : Pod α} {overflow : Overflow} {s : Opened} {payload : Bytes}
  {records : List α}

/-- Any part of the payload can be read from the mapping. -/
theorem Opened.Holds.slice (holds : s.Holds payload) {start stop : Nat} (ordered : start ≤ stop)
    (inside : stop ≤ payload.length) :
    s.slice (8 + start) (8 + stop) = .ok ((payload.take stop).drop start) := by
  obtain ⟨⟨rest, layout, mapped, within⟩, logicalLen, room⟩ := holds
  rw [Opened.slice, if_pos ⟨by omega, by omega⟩, Opened.bytes, layout.bytes]
  have header := Bytes.le_length 8 payload.length
  have front : (Bytes.le 8 payload.length ++ (payload ++ rest)).take (8 + stop) =
      Bytes.le 8 payload.length ++ payload.take stop := by
    rw [List.take_append, header, List.take_of_length_le (by omega), Nat.add_sub_cancel_left,
      List.take_append_of_le_length inside]
  rw [front, List.drop_append, header, List.drop_eq_nil_of_le (by omega), List.nil_append,
    Nat.add_sub_cancel_left]

theorem Opened.Holds.recordCount (holds : s.Holds (pod.layOut records)) :
    s.recordCount pod = records.length := by
  rw [Opened.recordCount, holds.logicalLen, pod.layOut_length, Nat.mul_div_cancel _ pod.positive]

theorem Opened.Holds.readAt (holds : s.Holds payload) {offset len : Nat}
    (fits : offset + len < 2 ^ 64) :
    s.readAt overflow offset len = .ok (if payload.length < offset + len then none
      else some ((payload.take (offset + len)).drop offset)) := by
  unfold Opened.readAt
  rw [Overflow.add_ok fits]
  change (if s.file.logicalLen < offset + len then _ else _) = _
  rw [holds.logicalLen]
  by_cases beyond : payload.length < offset + len
  · rw [if_pos beyond, if_pos beyond]
    rfl
  · obtain ⟨rest, ⟨_, size⟩, _⟩ := holds.span
    have first : overflow.add headerSize offset = .ok (8 + offset) :=
      Overflow.add_ok (by simp only [headerSize]; omega)
    have second : overflow.add (8 + offset) len = .ok (8 + (offset + len)) := by
      rw [← Nat.add_assoc]
      exact Overflow.add_ok (by omega)
    have read := holds.slice (Nat.le_add_right offset len) (Nat.le_of_not_lt beyond)
    rw [if_neg beyond, if_neg beyond, first]
    change overflow.add (8 + offset) len >>= _ = _
    rw [second]
    change s.slice (8 + offset) (8 + (offset + len)) >>= _ = _
    rw [read]
    rfl

theorem Opened.Holds.readRecord (holds : s.Holds payload) {offset : Nat}
    (fits : offset + pod.size < 2 ^ 64) :
    s.readRecord overflow pod offset = .ok (if payload.length < offset + pod.size then none
      else some (pod.fromBytes ((payload.drop offset).take pod.size))) := by
  have bytes : (payload.take (offset + pod.size)).drop offset =
      (payload.drop offset).take pod.size := by
    rw [List.drop_take, Nat.add_sub_cancel_left]
  unfold Opened.readRecord
  rw [holds.readAt fits, bytes]
  split <;> rfl

/-- The records that a payload has room for. -/
def Pod.readAll (pod : Pod α) (payload : Bytes) : List α :=
  pod.cast (payload.length / pod.size) payload

theorem Pod.cast_take (pod : Pod α) (count : Nat) (bytes : Bytes) :
    pod.cast count (bytes.take (count * pod.size)) = pod.cast count bytes := by
  induction count generalizing bytes with
  | zero => rfl
  | succ count ih =>
      rw [Pod.cast, Pod.cast, List.take_take, Nat.succ_mul, Nat.min_eq_left (Nat.le_add_left _ _),
        List.drop_take, Nat.add_sub_cancel, ih]

/-- Every whole record of a payload is in the slice. -/
theorem Opened.Holds.asSlice_eq (holds : s.Holds payload) :
    s.asSlice overflow pod = .ok (pod.readAll payload) := by
  unfold Opened.asSlice Pod.readAll
  rw [holds.logicalLen]
  by_cases empty : payload.length = 0
  · rw [if_pos empty, empty, Nat.zero_div]
    rfl
  · have below := Nat.div_mul_le_self payload.length pod.size
    obtain ⟨rest, ⟨_, size⟩, _⟩ := holds.span
    have stop : overflow.add headerSize (payload.length / pod.size * pod.size) =
        .ok (8 + payload.length / pod.size * pod.size) :=
      Overflow.add_ok (by simp only [headerSize]; omega)
    have whole := holds.slice (Nat.zero_le _) below
    rw [Nat.add_zero, List.drop_zero] at whole
    simp only [if_neg empty, stop]
    change s.slice 8 (8 + payload.length / pod.size * pod.size) >>= _ = _
    rw [whole]
    exact congrArg Except.ok (pod.cast_take _ payload)

theorem Opened.Holds.iterFrom (holds : s.Holds payload) {fuel offset : Nat}
    (inside : offset ≤ payload.length) (enough : (payload.length - offset) / pod.size < fuel) :
    s.iterFrom overflow pod fuel offset =
      .ok (pod.cast ((payload.length - offset) / pod.size) (payload.drop offset)) := by
  have positive := pod.positive
  have bounded := pod.bounded
  obtain ⟨rest, ⟨_, size⟩, _⟩ := holds.span
  induction fuel generalizing offset with
  | zero => exact absurd enough (Nat.not_lt_zero _)
  | succ fuel ih =>
      unfold Opened.iterFrom
      rw [holds.readRecord (by omega)]
      by_cases beyond : payload.length < offset + pod.size
      · rw [if_pos beyond, Nat.div_eq_of_lt (by omega)]
        rfl
      · have step : (payload.length - offset) / pod.size =
            (payload.length - (offset + pod.size)) / pod.size + 1 := by
          rw [← Nat.add_div_right _ positive]
          congr 1
          omega
        have next := @ih (offset + pod.size) (by omega) (by omega)
        have add : overflow.add offset pod.size = .ok (offset + pod.size) :=
          Overflow.add_ok (by omega)
        rw [if_neg beyond, step, Pod.cast, List.drop_drop]
        change overflow.add offset pod.size >>= _ = _
        rw [add]
        change s.iterFrom overflow pod fuel (offset + pod.size) >>= _ = _
        rw [next]
        rfl

theorem Opened.Holds.iterRecords_eq (holds : s.Holds payload) :
    s.iterRecords overflow pod = .ok (pod.readAll payload) := by
  have few : payload.length / pod.size ≤ payload.length := Nat.div_le_self _ _
  have inside := holds.inside
  obtain ⟨rest, _, mapped, _⟩ := holds.span
  have enough : (payload.length - 0) / pod.size < s.file.mapped + 1 := by
    rw [Nat.sub_zero]
    omega
  exact holds.iterFrom (Nat.zero_le _) enough

theorem Pod.readAll_layOut (pod : Pod α) (records : List α) :
    pod.readAll (pod.layOut records) = records := by
  rw [Pod.readAll, pod.layOut_length, Nat.mul_div_cancel _ pod.positive, pod.cast_layOut]

/-- A file that holds the bytes of records is read as these records. -/
theorem Opened.Holds.asSlice (holds : s.Holds (pod.layOut records)) :
    s.asSlice overflow pod = .ok records := by
  rw [holds.asSlice_eq, Pod.readAll_layOut]

end Read

section Tick

def tickBytes (tick : PriceTick) : Bytes :=
  Bytes.le 8 tick.timestampNs.toNat ++ (Bytes.le 2 tick.marketId.toNat ++
    (tick.pad.toList ++ Bytes.le 8 tick.price.bits.toNat))

def tickFromBytes (bytes : Bytes) : PriceTick where
  timestampNs := UInt64.ofNat (Bytes.ofLe (bytes.take 8))
  marketId := UInt16.ofNat (Bytes.ofLe ((bytes.drop 8).take 2))
  pad := Vector.ofFn fun i => (bytes.drop 10).getD i 0
  price := ⟨UInt64.ofNat (Bytes.ofLe ((bytes.drop 16).take 8))⟩

theorem tickFromBytes_tickBytes (tick : PriceTick) : tickFromBytes (tickBytes tick) = tick := by
  obtain ⟨timestampNs, marketId, pad, price⟩ := tick
  have first : (tickBytes ⟨timestampNs, marketId, pad, price⟩).take 8 =
      Bytes.le 8 timestampNs.toNat := List.take_left' (Bytes.le_length _ _)
  have second : (tickBytes ⟨timestampNs, marketId, pad, price⟩).drop 8 =
      Bytes.le 2 marketId.toNat ++ (pad.toList ++ Bytes.le 8 price.bits.toNat) :=
    List.drop_left' (Bytes.le_length _ _)
  have third : (tickBytes ⟨timestampNs, marketId, pad, price⟩).drop 10 =
      pad.toList ++ Bytes.le 8 price.bits.toNat := by
    rw [show 10 = 8 + 2 from rfl, ← List.drop_drop, second, List.drop_left' (Bytes.le_length _ _)]
  have fourth : (tickBytes ⟨timestampNs, marketId, pad, price⟩).drop 16 =
      Bytes.le 8 price.bits.toNat := by
    rw [show 16 = 10 + 6 from rfl, ← List.drop_drop, third, List.drop_left' Vector.length_toList]
  have padding : Vector.ofFn (fun i : Fin 6 =>
      (pad.toList ++ Bytes.le 8 price.bits.toNat).getD i 0) = pad := by
    ext i inside
    have short : i < pad.toList.length := by
      rw [Vector.length_toList]
      exact inside
    rw [Vector.getElem_ofFn, List.getD_append _ _ _ _ short, List.getD_eq_getElem _ _ short,
      Vector.getElem_toList]
  rw [tickFromBytes, first, second, third, fourth, padding,
    List.take_left' (Bytes.le_length _ _), List.take_of_length_le (Nat.le_of_eq (Bytes.le_length _ _)),
    Bytes.ofLe_le_mod, Bytes.ofLe_le_mod, Bytes.ofLe_le_mod]
  simp

def tickPod : Pod PriceTick where
  size := 24
  positive := by decide
  bounded := by decide
  bytesOf := tickBytes
  fromBytes := tickFromBytes
  bytesOf_length tick := by simp [tickBytes]
  fromBytes_bytesOf := tickFromBytes_tickBytes

end Tick

end Perfdb.Mmap
