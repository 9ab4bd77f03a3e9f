import Mathlib
import Perfdb.Bincode

set_option autoImplicit false

namespace Perfdb

namespace Codec

variable {α β : Type}

theorem Rejects.vector {codec : Codec α} {n : Nat} {values : Vector α n}
    (each : ∀ x, codec.Rejects x) : (codec.vector n).Rejects values := by
  intro part inside cut
  have size : values.toList.length = n := Vector.length_toList
  obtain ⟨reason, failed⟩ := decodeCount_rejects (fun x _ => each x) inside cut
  rw [size] at failed
  refine ⟨reason, ?_⟩
  simp only [Codec.vector]
  split
  · rename_i read
    have both := failed.symm.trans read
    contradiction
  · rename_i read
    exact (Except.error.inj (failed.symm.trans read)) ▸ rfl

theorem bool_rejects (b : Bool) : bool.Rejects b := by
  intro part inside cut
  obtain ⟨reason, failed⟩ := byte_rejects _ part inside cut
  exact ⟨reason, by simp only [bool, failed, bind, Except.bind]⟩

/-- A part of a tagged value ends inside the tag or inside the arguments. -/
theorem variants_rejects {alternatives : List (Variant α)} {few : alternatives.length < 256 ^ 4}
    {covered : ∀ x, alternatives.any (fun variant => (variant.split x).isSome) = true} {x : α}
    (each : ∀ variant ∈ alternatives, ∀ payload, variant.split x = some payload →
      variant.codec.Rejects payload) : (variants alternatives few covered).Rejects x := by
  intro part inside cut
  obtain ⟨index, variant, payload, found, split, bytes⟩ :=
    encodeVariant_eq alternatives 0 x (covered x)
  have rejects := each variant (List.mem_of_getElem? found) payload split
  have small := (List.getElem?_eq_some_iff.mp found).1
  change part <+: encodeVariant alternatives 0 x at inside
  change part ≠ encodeVariant alternatives 0 x at cut
  rw [bytes, Nat.zero_add] at inside cut
  rcases part_of_append inside cut with ⟨short, open_⟩ | ⟨rest, rfl, short, open_⟩
  · have fewer := length_lt_of_part short open_
    rw [Bytes.le_length] at fewer
    exact ⟨unexpectedEof, by simp only [variants, take_short fewer, bind, Except.bind]⟩
  · have value : Bytes.ofLe (Bytes.le 4 index) = index := Bytes.ofLe_le 4 index (by omega)
    obtain ⟨reason, failed⟩ := rejects rest short open_
    exact ⟨reason, by simp only [variants, take_le, bind, Except.bind, value, found, failed]⟩

end Codec

def Event.TextsFit : Event → Prop
  | .marketCreated _ name symbol =>
      name.toByteArray.size < 256 ^ 8 - 1 ∧ symbol.toByteArray.size < 256 ^ 8 - 1
  | _ => True

namespace Bincode

open Codec

theorem u16_rejects (n : UInt16) : u16.Rejects n := fixed_rejects _ _ _ _ n

theorem u8_rejects (n : UInt8) : u8.Rejects n := byte_rejects n

theorem u32_rejects (n : UInt32) : u32.Rejects n := fixed_rejects _ _ _ _ n

theorem u64_rejects (n : UInt64) : u64.Rejects n := fixed_rejects _ _ _ _ n

theorem i128_rejects (n : FixedI128) : i128.Rejects n := fixed_rejects _ _ _ _ n

theorem f32_rejects (x : F32) : f32.Rejects x := Rejects.via (u32_rejects _)

theorem f64_rejects (x : F64) : f64.Rejects x := Rejects.via (u64_rejects _)

theorem address_rejects (x : Address) : address.Rejects x := Rejects.vector byte_rejects

theorem hash_rejects (x : Hash) : hash.Rejects x := Rejects.vector byte_rejects

theorem unit_rejects (x : Unit) : unit.Rejects x := by
  intro part inside cut
  exact absurd (List.prefix_nil.mp inside) cut

theorem event_rejects {x : Event} (fit : x.TextsFit) : event.Rejects x := by
  refine variants_rejects fun variant member payload split => ?_
  simp only [eventVariants, List.mem_cons, List.not_mem_nil, or_false] at member
  rcases member with rfl | rfl | rfl | rfl | rfl | rfl | rfl | rfl | rfl | rfl | rfl | rfl | rfl |
    rfl | rfl | rfl | rfl
  case inr.inr.inr.inr.inr.inr.inr.inr.inr.inr.inr.inl =>
    have built := EventVariant.marketCreated.build_split x payload split
    obtain ⟨marketId, name, symbol⟩ := payload
    subst built
    exact .pair (u16_rejects _) (.pair (string_rejects fit.1) (string_rejects fit.2))
  all_goals
    repeat' first
      | exact u16_rejects _
      | exact u8_rejects _
      | exact u64_rejects _
      | exact i128_rejects _
      | exact bool_rejects _
      | exact address_rejects _
      | exact hash_rejects _
      | apply Rejects.pair

theorem indexed_rejects {x : IndexedEvent} (fit : x.event.TextsFit) : indexed.Rejects x :=
  .via (.pair (u64_rejects _) (.pair (u64_rejects _) (.pair (hash_rejects _)
    (.pair (u32_rejects _) (.pair (u32_rejects _) (event_rejects fit))))))

def TextsFit : WalEntry → Prop
  | .indexedEvent indexed => indexed.event.TextsFit
  | _ => True

theorem walEntry_rejects {x : WalEntry} (fit : TextsFit x) : walEntry.Rejects x := by
  refine variants_rejects fun variant member payload split => ?_
  simp only [walEntryVariants, List.mem_cons, List.not_mem_nil, or_false] at member
  rcases member with rfl | rfl | rfl | rfl | rfl | rfl
  case inl =>
    have built := EntryVariant.indexedEvent.build_split x payload split
    subst built
    exact indexed_rejects fit
  all_goals
    repeat' first
      | exact u16_rejects _
      | exact u8_rejects _
      | exact u64_rejects _
      | exact i128_rejects _
      | exact f32_rejects _
      | exact f64_rejects _
      | exact address_rejects _
      | exact unit_rejects _
      | apply Rejects.pair

end Bincode

end Perfdb
