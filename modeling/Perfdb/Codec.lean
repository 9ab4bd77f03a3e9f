import Mathlib
import Perfdb.Bytes

set_option autoImplicit false

/-! Self-delimiting binary codecs that compose: each reads back exactly what it wrote, whatever
follows, and names the cause where it reads nothing. -/

namespace Perfdb

structure Codec (α : Type) where
  encode : α → Bytes
  decode : Bytes → Except String (α × Bytes)
  decode_encode : ∀ value rest, decode (encode value ++ rest) = .ok (value, rest)

namespace Codec

variable {α β : Type}

def unexpectedEof : String := "io error: unexpected end of file"

/-- The next bytes of the input. -/
def take (width : Nat) (input : Bytes) : Except String (Bytes × Bytes) :=
  match Bytes.readExact width input with
  | some split => .ok split
  | none => .error unexpectedEof

theorem take_append (front rest : Bytes) : take front.length (front ++ rest) = .ok (front, rest) := by
  rw [take, Bytes.readExact_append]

theorem take_le (width n : Nat) (rest : Bytes) :
    take width (Bytes.le width n ++ rest) = .ok (Bytes.le width n, rest) := by
  have whole := take_append (Bytes.le width n) rest
  rwa [Bytes.le_length] at whole

theorem take_short {width : Nat} {input : Bytes} (short : input.length < width) :
    take width input = .error unexpectedEof := by
  rw [take, Bytes.readExact_eq_none short]

/-- A number of a fixed width, little-endian. -/
def fixed (width : Nat) (toNat : α → Nat) (ofNat : Nat → α)
    (inverse : ∀ x, ofNat (toNat x % 256 ^ width) = x) : Codec α where
  encode x := Bytes.le width (toNat x)
  decode input := do
    let (front, input) ← take width input
    pure (ofNat (Bytes.ofLe front), input)
  decode_encode x rest := by
    simp only [take_le, bind, Except.bind, pure, Except.pure, Bytes.ofLe_le_mod, inverse]

/-- One value behind the other. -/
def pair (first : Codec α) (second : Codec β) : Codec (α × β) where
  encode value := first.encode value.1 ++ second.encode value.2
  decode input := do
    let (left, input) ← first.decode input
    let (right, input) ← second.decode input
    pure ((left, right), input)
  decode_encode value rest := by
    simp only [List.append_assoc, first.decode_encode, second.decode_encode, bind, Except.bind,
      pure, Except.pure]

/-- The codec of a type that is another one in disguise. -/
def via (codec : Codec α) (build : α → β) (split : β → α)
    (inverse : ∀ x, build (split x) = x) : Codec β where
  encode x := codec.encode (split x)
  decode input := do
    let (value, input) ← codec.decode input
    pure (build value, input)
  decode_encode x rest := by
    simp only [codec.decode_encode, bind, Except.bind, pure, Except.pure, inverse]

/-- A fixed number of values, without a length. -/
def decodeCount (codec : Codec α) : Nat → Bytes → Except String (List α × Bytes)
  | 0, input => pure ([], input)
  | count + 1, input => do
      let (value, input) ← codec.decode input
      let (values, input) ← decodeCount codec count input
      pure (value :: values, input)

theorem decodeCount_encode (codec : Codec α) (values : List α) (rest : Bytes) :
    codec.decodeCount values.length (values.flatMap codec.encode ++ rest) =
      .ok (values, rest) := by
  induction values with
  | nil => rfl
  | cons value values ih =>
      simp only [List.length_cons, decodeCount, List.flatMap_cons, List.append_assoc,
        codec.decode_encode, ih, bind, Except.bind, pure, Except.pure]

theorem decodeCount_length (codec : Codec α) (count : Nat) (input rest : Bytes) (values : List α)
    (read : codec.decodeCount count input = .ok (values, rest)) : values.length = count := by
  induction count generalizing input values with
  | zero =>
      obtain ⟨rfl, _⟩ := Prod.mk.inj (Except.ok.inj read)
      rfl
  | succ count ih =>
      simp only [decodeCount, bind, Except.bind] at read
      split at read
      · contradiction
      · split at read
        · contradiction
        · rename_i values others
          obtain ⟨rfl, rfl⟩ := Prod.mk.inj (Except.ok.inj read)
          exact congrArg (· + 1) (ih _ values.1 others)

def vector (codec : Codec α) (n : Nat) : Codec (Vector α n) where
  encode values := values.toList.flatMap codec.encode
  decode input :=
    match read : codec.decodeCount n input with
    | .ok (values, input) =>
        .ok (⟨values.toArray, codec.decodeCount_length n _ _ values read⟩, input)
    | .error reason => .error reason
  decode_encode values rest := by
    have size : values.toList.length = n := Vector.length_toList
    have whole := codec.decodeCount_encode values.toList rest
    rw [size] at whole
    split
    · rename_i read
      obtain ⟨rfl, rfl⟩ := Prod.mk.inj (Except.ok.inj (whole.symm.trans read))
      rfl
    · rename_i read
      have both := whole.symm.trans read
      contradiction

/-- A count of items is a `u64`. No memory holds as many items as the greatest: from there on
a number is spelled out behind it, so that every number has a code. -/
def count : Codec Nat where
  encode n :=
    if n < 256 ^ 8 - 1 then Bytes.le 8 n
    else Bytes.le 8 (256 ^ 8 - 1) ++ (List.replicate n 1 ++ [0])
  decode input := do
    let (front, input) ← take 8 input
    let ones := (input.takeWhile (· = 1)).length
    if 256 ^ 8 - 1 ≤ Bytes.ofLe front ∧ 256 ^ 8 - 1 ≤ ones then
      pure (ones, (input.dropWhile (· = 1)).tail)
    else pure (Bytes.ofLe front, input)
  decode_encode n rest := by
    by_cases small : n < 256 ^ 8 - 1
    · have value : Bytes.ofLe (Bytes.le 8 n) = n := Bytes.ofLe_le 8 n (by omega)
      simp only [small, ↓reduceIte, take_le, bind, Except.bind, value, Nat.not_le.mpr small,
        false_and, pure, Except.pure]
    · have value : Bytes.ofLe (Bytes.le 8 (256 ^ 8 - 1)) = 256 ^ 8 - 1 :=
        Bytes.ofLe_le 8 _ (by omega)
      have ones : (List.replicate n (1 : UInt8) ++ [0] ++ rest).takeWhile (· = 1) =
          List.replicate n 1 := by
        simp [List.append_assoc]
      have behind : (List.replicate n (1 : UInt8) ++ [0] ++ rest).dropWhile (· = 1) =
          0 :: rest := by
        simp [List.append_assoc]
      rw [if_neg small, List.append_assoc, take_le]
      simp only [bind, Except.bind, value, Nat.le_refl, ones, List.length_replicate,
        Nat.not_lt.mp small, and_self, ↓reduceIte, behind, List.tail_cons, pure, Except.pure]

/-- From what fits in memory it is read as any `u64`. -/
theorem count_decode {input : Bytes} (fits : input.length < 256 ^ 8) :
    count.decode input = (take 8 input).map fun (front, rest) => (Bytes.ofLe front, rest) := by
  unfold count take
  simp only [Bytes.readExact]
  by_cases enough : 8 ≤ input.length
  · have few : ((input.drop 8).takeWhile (· = 1)).length ≤ (input.drop 8).length :=
      (List.takeWhile_prefix _).length_le
    rw [List.length_drop] at few
    have other : ¬ (256 ^ 8 - 1 ≤ Bytes.ofLe (input.take 8) ∧
        256 ^ 8 - 1 ≤ ((input.drop 8).takeWhile (· = 1)).length) := by omega
    simp only [enough, ↓reduceIte, bind, Except.bind, other, pure, Except.pure, Except.map]
  · simp only [enough, ↓reduceIte, bind, Except.bind, Except.map]

def list (codec : Codec α) : Codec (List α) where
  encode values := count.encode values.length ++ values.flatMap codec.encode
  decode input := do
    let (n, input) ← count.decode input
    codec.decodeCount n input
  decode_encode values rest := by
    simp only [List.append_assoc, count.decode_encode, bind, Except.bind, decodeCount_encode]

def byte : Codec UInt8 := fixed 1 UInt8.toNat UInt8.ofNat fun x => by simp

/-- A byte that must be 0 or 1. -/
def bool : Codec Bool where
  encode b := byte.encode (if b then 1 else 0)
  decode input := do
    let (value, input) ← byte.decode input
    match value with
    | 0 => pure (false, input)
    | 1 => pure (true, input)
    | value => .error ("invalid u8 while decoding bool, expected 0 or 1, found " ++
        toString value.toNat)
  decode_encode b rest := by
    rw [byte.decode_encode]
    cases b <;> rfl

def option (codec : Codec α) : Codec (Option α) where
  encode
    | none => byte.encode 0
    | some x => byte.encode 1 ++ codec.encode x
  decode input := do
    let (tag, input) ← byte.decode input
    match tag with
    | 0 => pure (none, input)
    | 1 => do
        let (x, input) ← codec.decode input
        pure (some x, input)
    | tag => .error ("tag for enum is not valid, found " ++ toString tag.toNat)
  decode_encode value rest := by
    cases value with
    | none =>
        rw [byte.decode_encode]
        rfl
    | some x =>
        rw [List.append_assoc, byte.decode_encode]
        simp only [bind, Except.bind, codec.decode_encode, pure, Except.pure]

section Utf8

/-- The number of bytes of a character that starts with this one; none does with some. -/
def charWidth (first : UInt8) : Nat :=
  if first < 0x80 then 1
  else if 0xC2 ≤ first ∧ first ≤ 0xDF then 2
  else if 0xE0 ≤ first ∧ first ≤ 0xEF then 3
  else if 0xF0 ≤ first ∧ first ≤ 0xF4 then 4
  else 0

/-- Whether a byte may stand at this place behind the first one of a character. -/
def continues (first : UInt8) (place : Nat) (next : UInt8) : Bool :=
  let least := if place = 1 ∧ first = 0xE0 then 0xA0 else if place = 1 ∧ first = 0xF0 then 0x90
    else 0x80
  let greatest := if place = 1 ∧ first = 0xED then 0x9F else if place = 1 ∧ first = 0xF4 then 0x8F
    else 0xBF
  least ≤ next && next ≤ greatest

/-- The first of the remaining places of a character whose byte is wrong; `none` in it when
there is no byte. -/
def wrongPlace (first : UInt8) : Nat → Nat → Bytes → Option (Option Nat)
  | 0, _, _ => none
  | _ + 1, _, [] => some none
  | left + 1, place, next :: rest =>
      if continues first place next then wrongPlace first left (place + 1) rest
      else some (some place)

/-- Where a text is not UTF-8: how many bytes are, and how many behind them are wrong. -/
def utf8Error : Nat → Nat → Bytes → Option (Nat × Option Nat)
  | _, _, [] => none
  | index, skip + 1, _ :: rest => utf8Error (index + 1) skip rest
  | index, 0, first :: rest =>
      if charWidth first = 0 then some (index, some 1)
      else match wrongPlace first (charWidth first - 1) 1 rest with
        | some wrong => some (index, wrong)
        | none => utf8Error (index + 1) (charWidth first - 1) rest

def utf8Message (bytes : Bytes) : String :=
  match utf8Error 0 0 bytes with
  | some (index, some length) => "string is not valid utf8: invalid utf-8 sequence of " ++
      toString length ++ " bytes from index " ++ toString index
  | some (index, none) =>
      "string is not valid utf8: incomplete utf-8 byte sequence from index " ++ toString index
  | none => "string is not valid utf8"

example : utf8Message [0x61, 0xE2, 0x82, 0x41] =
    "string is not valid utf8: invalid utf-8 sequence of 2 bytes from index 1" := by decide

end Utf8

/-- A text by its UTF-8 bytes. -/
def string : Codec String where
  encode text := count.encode text.toByteArray.size ++ text.toByteArray.data.toList
  decode input := do
    let (size, input) ← count.decode input
    match Bytes.readExact size input with
    | none => .error "io error: "
    | some (bytes, input) =>
        match String.fromUTF8? ⟨bytes.toArray⟩ with
        | some text => pure (text, input)
        | none => .error (utf8Message bytes)
  decode_encode text rest := by
    have read := Bytes.readExact_append text.toByteArray.data.toList rest
    have size : text.toByteArray.data.toList.length = text.toByteArray.size := Array.length_toList
    have whole : (⟨text.toByteArray.data.toList.toArray⟩ : ByteArray) = text.toByteArray := rfl
    have valid : String.fromUTF8? text.toByteArray = some text := by
      rw [String.fromUTF8?, dif_pos text.isValidUTF8]
      rfl
    rw [size] at read
    simp only [List.append_assoc, count.decode_encode, bind, Except.bind, read, whole, valid, pure,
      Except.pure]

/-- One constructor of a type: its arguments, and how they are told apart from
those of the other constructors. -/
structure Variant (α : Type) where
  {Payload : Type}
  codec : Codec Payload
  build : Payload → α
  split : α → Option Payload
  build_split : ∀ x payload, split x = some payload → build payload = x

/-- The tag of a value's constructor, and its arguments behind it. -/
def encodeVariant : List (Variant α) → Nat → α → Bytes
  | [], _, _ => []
  | variant :: variants, tag, x =>
      match variant.split x with
      | some payload => Bytes.le 4 tag ++ variant.codec.encode payload
      | none => encodeVariant variants (tag + 1) x

theorem encodeVariant_eq (variants : List (Variant α)) (tag : Nat) (x : α)
    (covered : variants.any (fun variant => (variant.split x).isSome) = true) :
    ∃ index variant payload, variants[index]? = some variant ∧ variant.split x = some payload ∧
      encodeVariant variants tag x = Bytes.le 4 (tag + index) ++ variant.codec.encode payload := by
  induction variants generalizing tag with
  | nil => contradiction
  | cons variant variants ih =>
      cases matched : variant.split x with
      | some payload =>
          exact ⟨0, variant, payload, rfl, matched, by simp only [encodeVariant, matched]; rfl⟩
      | none =>
          have behind : variants.any (fun variant => (variant.split x).isSome) = true := by
            simpa only [List.any_cons, matched, Option.isSome_none, Bool.false_or] using covered
          obtain ⟨index, found, payload, at_, split, bytes⟩ := ih (tag + 1) behind
          refine ⟨index + 1, found, payload, at_, split, ?_⟩
          simp only [encodeVariant, matched, bytes]
          rw [show tag + 1 + index = tag + (index + 1) by omega]

/-- A value of one of several constructors: a `u32` tag, then the arguments. -/
def variants (alternatives : List (Variant α)) (few : alternatives.length < 256 ^ 4)
    (covered : ∀ x, alternatives.any (fun variant => (variant.split x).isSome) = true) :
    Codec α where
  encode x := encodeVariant alternatives 0 x
  decode input := do
    let (front, input) ← take 4 input
    match alternatives[Bytes.ofLe front]? with
    | none => .error ("invalid value: integer `" ++ toString (Bytes.ofLe front) ++
        "`, expected variant index 0 <= i < " ++ toString alternatives.length)
    | some variant => do
        let (payload, input) ← variant.codec.decode input
        pure (variant.build payload, input)
  decode_encode x rest := by
    obtain ⟨index, variant, payload, found, split, bytes⟩ :=
      encodeVariant_eq alternatives 0 x (covered x)
    have inside := (List.getElem?_eq_some_iff.mp found).1
    have value : Bytes.ofLe (Bytes.le 4 index) = index := Bytes.ofLe_le 4 index (by omega)
    rw [bytes, Nat.zero_add, List.append_assoc, take_le]
    simp only [bind, Except.bind, value, found, variant.codec.decode_encode, pure, Except.pure,
      variant.build_split x payload split]

/-- The value at the head of the input. What stands behind it is ignored. -/
def read (codec : Codec α) (input : Bytes) : Except String α := (codec.decode input).map Prod.fst

theorem read_encode (codec : Codec α) (x : α) : codec.read (codec.encode x) = .ok x := by
  have whole := codec.decode_encode x []
  rw [List.append_nil] at whole
  rw [read, whole]
  rfl

section Cut

/-- Nothing is read from a part of the code of a value. -/
def Rejects (codec : Codec α) (x : α) : Prop :=
  ∀ part, part <+: codec.encode x → part ≠ codec.encode x →
    ∃ reason, codec.decode part = .error reason

/-- A part of two pieces ends inside the first of them or inside the second. -/
theorem part_of_append {front back part : Bytes} (inside : part <+: front ++ back)
    (cut : part ≠ front ++ back) :
    (part <+: front ∧ part ≠ front) ∨
      ∃ rest, part = front ++ rest ∧ rest <+: back ∧ rest ≠ back := by
  rcases List.prefix_or_prefix_of_prefix inside (List.prefix_append front back) with
    short | ⟨rest, rfl⟩
  · by_cases whole : part = front
    · subst whole
      refine Or.inr ⟨[], (List.append_nil part).symm, List.nil_prefix, ?_⟩
      rintro rfl
      exact cut (List.append_nil part).symm
    · exact Or.inl ⟨short, whole⟩
  · refine Or.inr ⟨rest, rfl, (List.prefix_append_right_inj front).mp inside, ?_⟩
    rintro rfl
    exact cut rfl

theorem length_lt_of_part {part whole : Bytes} (inside : part <+: whole) (cut : part ≠ whole) :
    part.length < whole.length :=
  Nat.lt_of_le_of_ne inside.length_le fun same => cut (inside.eq_of_length same)

theorem fixed_rejects (width : Nat) (toNat : α → Nat) (ofNat : Nat → α)
    (inverse : ∀ x, ofNat (toNat x % 256 ^ width) = x) (x : α) :
    (fixed width toNat ofNat inverse).Rejects x := by
  intro part inside cut
  have short := length_lt_of_part inside cut
  simp only [fixed, Bytes.le_length] at short
  exact ⟨unexpectedEof, by simp only [fixed, take_short short, bind, Except.bind]⟩

theorem Rejects.pair {first : Codec α} {second : Codec β} {x : α} {y : β}
    (left : first.Rejects x) (right : second.Rejects y) : (first.pair second).Rejects (x, y) := by
  intro part inside cut
  rcases part_of_append inside cut with ⟨short, open_⟩ | ⟨rest, rfl, short, open_⟩
  · obtain ⟨reason, failed⟩ := left part short open_
    exact ⟨reason, by simp only [Codec.pair, failed, bind, Except.bind]⟩
  · obtain ⟨reason, failed⟩ := right rest short open_
    exact ⟨reason, by simp only [Codec.pair, first.decode_encode, failed, bind, Except.bind]⟩

theorem Rejects.via {codec : Codec α} {build : α → β} {split : β → α}
    {inverse : ∀ x, build (split x) = x} {x : β} (rejects : codec.Rejects (split x)) :
    (codec.via build split inverse).Rejects x := by
  intro part inside cut
  obtain ⟨reason, failed⟩ := rejects part inside cut
  exact ⟨reason, by simp only [Codec.via, failed, bind, Except.bind]⟩

theorem decodeCount_rejects {codec : Codec α} {values : List α}
    (each : ∀ x ∈ values, codec.Rejects x) {part : Bytes}
    (inside : part <+: values.flatMap codec.encode) (cut : part ≠ values.flatMap codec.encode) :
    ∃ reason, codec.decodeCount values.length part = .error reason := by
  induction values generalizing part with
  | nil => exact absurd (List.prefix_nil.mp inside) cut
  | cons value values ih =>
      rw [List.flatMap_cons] at inside cut
      rw [List.length_cons, decodeCount]
      rcases part_of_append inside cut with ⟨short, open_⟩ | ⟨rest, rfl, short, open_⟩
      · obtain ⟨reason, failed⟩ := each value List.mem_cons_self part short open_
        exact ⟨reason, by rw [failed]; rfl⟩
      · obtain ⟨reason, failed⟩ :=
          ih (fun x member => each x (List.mem_cons_of_mem value member)) short open_
        exact ⟨reason, by simp only [codec.decode_encode, bind, Except.bind, failed]⟩

theorem count_rejects {n : Nat} (small : n < 256 ^ 8 - 1) : count.Rejects n := by
  intro part inside cut
  have short := length_lt_of_part inside cut
  simp only [count, small, ↓reduceIte, Bytes.le_length] at short
  exact ⟨unexpectedEof, by simp only [count, take_short short, bind, Except.bind]⟩

theorem Rejects.list {codec : Codec α} {values : List α} (small : values.length < 256 ^ 8 - 1)
    (each : ∀ x ∈ values, codec.Rejects x) : codec.list.Rejects values := by
  intro part inside cut
  rcases part_of_append inside cut with ⟨short, open_⟩ | ⟨rest, rfl, short, open_⟩
  · obtain ⟨reason, failed⟩ := count_rejects small part short open_
    exact ⟨reason, by simp only [Codec.list, failed, bind, Except.bind]⟩
  · obtain ⟨reason, failed⟩ := decodeCount_rejects each short open_
    exact ⟨reason, by simp only [Codec.list, count.decode_encode, failed, bind, Except.bind]⟩

theorem byte_rejects (x : UInt8) : byte.Rejects x := fixed_rejects _ _ _ _ x

theorem string_rejects {text : String} (small : text.toByteArray.size < 256 ^ 8 - 1) :
    string.Rejects text := by
  intro part inside cut
  rcases part_of_append inside cut with ⟨short, open_⟩ | ⟨rest, rfl, short, open_⟩
  · obtain ⟨reason, failed⟩ := count_rejects small part short open_
    exact ⟨reason, by simp only [string, failed, bind, Except.bind]⟩
  · have fewer : rest.length < text.toByteArray.size := length_lt_of_part short open_
    exact ⟨"io error: ", by simp only [string, count.decode_encode, bind, Except.bind,
      Bytes.readExact_eq_none fewer]⟩

/-- A value is not read from a part of its code. -/
theorem Rejects.read {codec : Codec α} {x : α} (rejects : codec.Rejects x) {part : Bytes}
    (inside : part <+: codec.encode x) (cut : part ≠ codec.encode x) :
    ∃ reason, codec.read part = .error reason := by
  obtain ⟨reason, failed⟩ := rejects part inside cut
  exact ⟨reason, by rw [Codec.read, failed]; rfl⟩

end Cut

end Codec

end Perfdb
