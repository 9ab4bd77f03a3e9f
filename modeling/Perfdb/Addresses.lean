import Mathlib
import Perfdb.Types
import Perfdb.Bytes
import Perfdb.Hexadecimal

set_option autoImplicit false

namespace Perfdb

/-- The bytes of a `str`. -/
def strBytes (s : String) : Bytes := s.toList.flatMap String.utf8EncodeChar

/-- `str::is_char_boundary`: not inside the encoding of a character. -/
def isCharBoundary (bytes : Bytes) (i : Nat) : Bool :=
  i = 0 ||
    match bytes[i]? with
    | some b => b < 128 || 192 ≤ b
    | none => i = bytes.length

/-- Why text is not decoded: it is refused, or slicing it panics. -/
inductive HexFault where
  | invalid
  | panic
  deriving DecidableEq

def strSlice (bytes : Bytes) (start stop : Nat) : Except HexFault Bytes :=
  if start ≤ stop ∧ isCharBoundary bytes start ∧ isCharBoundary bytes stop then
    .ok ((bytes.take stop).drop start)
  else .error .panic

/-- `(b as char).to_digit(16)`. -/
def toDigit (b : UInt8) : Option Nat :=
  if 48 ≤ b ∧ b ≤ 57 then some (b.toNat - 48)
  else if 97 ≤ b ∧ b ≤ 102 then some (b.toNat - 87)
  else if 65 ≤ b ∧ b ≤ 70 then some (b.toNat - 55)
  else none

/-- One more digit; `none` where the value leaves a byte. -/
def addDigit (value : UInt8) (b : UInt8) : Option UInt8 := do
  let digit ← toDigit b
  if 16 * value.toNat + digit < 256 then some (UInt8.ofNat (16 * value.toNat + digit)) else none

/-- `u8::from_str_radix(src, 16)`: digits, with a `+` before them or not. -/
def fromStrRadix : Bytes → Except HexFault UInt8
  | [] => .error .invalid
  | sign :: digits =>
      if digits = [] ∧ (sign = 43 ∨ sign = 45) then .error .invalid
      else
        match (if sign = 43 then digits else sign :: digits).foldlM addDigit 0 with
        | some value => .ok value
        | none => .error .invalid

/-- The two bytes from `i` on as a number. -/
def decodePair (bytes : Bytes) (i : Nat) : Except HexFault UInt8 := do
  let src ← strSlice bytes i (i + 2)
  fromStrRadix src

def hexDecode (s : String) : Except HexFault Bytes :=
  if (strBytes s).length % 2 ≠ 0 then .error .invalid
  else (List.range ((strBytes s).length / 2)).mapM fun k => decodePair (strBytes s) (2 * k)

def stripHexPrefix (s : String) : String :=
  match s.toList with
  | '0' :: 'x' :: rest => String.ofList rest
  | _ => s

/-- `buf[size - len..].copy_from_slice(&bytes[..len])` into zeros. -/
def fillRight (size : Nat) (bytes : Bytes) : Vector UInt8 size :=
  ⟨(List.replicate (size - min bytes.length size) 0 ++ bytes.take (min bytes.length size)).toArray,
    by simp⟩

/-- Parse a hex string "0x..." into so many bytes; `none` where it panics. -/
def parseBytes (size : Nat) (s : String) : Option (Vector UInt8 size) :=
  match hexDecode (stripHexPrefix s) with
  | .ok bytes => some (fillRight size bytes)
  | .error .invalid => some (Vector.replicate size 0)
  | .error .panic => none

def parseAddress (s : String) : Option Address := parseBytes 20 s

def parseHash (s : String) : Option Hash := parseBytes 32 s

/-- `format!("0x{}", ..)` of two digits for every byte. -/
def hexPrefixed (bytes : Bytes) : String := String.ofList ('0' :: 'x' :: hexText bytes)

def hexAddr (addr : Address) : String := hexPrefixed addr.toList

def hexHash (hash : Hash) : String := hexPrefixed hash.toList

/-- What hexadecimal text means: pairs of digits, and nothing else. -/
def hexMeaning (s : String) : Except HexFault Bytes :=
  if s.length % 2 = 0 ∧ s.toList.all isHexChar then .ok (hexBytes s.toList)
  else .error .invalid

section Pairs

variable {bytes : Bytes}

/-- The pair of bytes at an even place is made of whole characters. -/
def Aligned (bytes : Bytes) (k : Nat) : Prop :=
  isCharBoundary bytes (2 * k) = true ∧ isCharBoundary bytes (2 * k + 2) = true

/-- It is two digits, or a `+` and a digit. -/
def Reads (bytes : Bytes) (k : Nat) : Prop :=
  (bytes[2 * k]? = some 43 ∨ ((bytes[2 * k]?).bind toDigit).isSome) ∧
    ((bytes[2 * k + 1]?).bind toDigit).isSome

theorem toDigit_lt {b : UInt8} {digit : Nat} (found : toDigit b = some digit) : digit < 16 := by
  unfold toDigit at found
  simp only [UInt8.le_iff_toNat_le] at found
  split at found
  · rename_i within
    obtain ⟨-, high⟩ := within
    change b.toNat ≤ 57 at high
    simp only [Option.some.injEq] at found
    omega
  · split at found
    · rename_i within
      obtain ⟨-, high⟩ := within
      change b.toNat ≤ 102 at high
      simp only [Option.some.injEq] at found
      omega
    · split at found
      · rename_i within
        obtain ⟨-, high⟩ := within
        change b.toNat ≤ 70 at high
        simp only [Option.some.injEq] at found
        omega
      · cases found

theorem toDigit_plus : toDigit 43 = none := by decide

/-- Two bytes are read as two digits, or as one behind a `+`. -/
theorem fromStrRadix_pair (high low : UInt8) : fromStrRadix [high, low] =
    match (if high = 43 then some 0 else toDigit high), toDigit low with
    | some h, some l => .ok (UInt8.ofNat (16 * h + l))
    | _, _ => .error .invalid := by
  have start (b : UInt8) : addDigit 0 b = (toDigit b).map UInt8.ofNat := by
    unfold addDigit
    cases found : toDigit b with
    | none => rfl
    | some digit =>
        have small := toDigit_lt found
        have fits : 16 * (0 : UInt8).toNat + digit < 256 := by
          change 16 * 0 + digit < 256
          omega
        simp only [Option.bind_eq_bind, Option.bind_some, if_pos fits, Option.map_some]
        simp
  have next (h : Nat) (bound : h < 16) (b : UInt8) :
      addDigit (UInt8.ofNat h) b = (toDigit b).map fun l => UInt8.ofNat (16 * h + l) := by
    have value : (UInt8.ofNat h).toNat = h := UInt8.toNat_ofNat_of_lt' (by change h < 256; omega)
    unfold addDigit
    rw [value]
    cases found : toDigit b with
    | none => rfl
    | some digit =>
        have small := toDigit_lt found
        have fits : 16 * h + digit < 256 := by omega
        simp only [Option.bind_eq_bind, Option.bind_some, if_pos fits, Option.map_some]
  by_cases plus : high = 43
  · subst plus
    simp only [fromStrRadix, List.cons_ne_nil, false_and, if_false, if_true, List.foldlM_cons,
      List.foldlM_nil, start]
    cases toDigit low with
    | none => rfl
    | some l => simp
  · simp only [fromStrRadix, List.cons_ne_nil, false_and, if_false, if_neg plus, List.foldlM_cons,
      List.foldlM_nil, start]
    cases found : toDigit high with
    | none => rfl
    | some h =>
        have small := toDigit_lt found
        simp only [Option.map_some, Option.bind_eq_bind, Option.bind_some, next h small]
        cases toDigit low with
        | none => rfl
        | some l => rfl

theorem fromStrRadix_fault {high low : UInt8} {fault : HexFault}
    (failed : fromStrRadix [high, low] = .error fault) : fault = .invalid := by
  rw [fromStrRadix_pair] at failed
  split at failed
  · cases failed
  · exact (Except.error.inj failed).symm

theorem decodePair_aligned {k : Nat} (inside : 2 * k + 1 < bytes.length)
    (aligned : Aligned bytes k) :
    decodePair bytes (2 * k) = fromStrRadix [bytes[2 * k], bytes[2 * k + 1]] := by
  have slice : (bytes.take (2 * k + 2)).drop (2 * k) = [bytes[2 * k], bytes[2 * k + 1]] := by
    rw [List.drop_take, Nat.add_sub_cancel_left, List.drop_eq_getElem_cons (by omega),
      List.drop_eq_getElem_cons inside]
    rfl
  rw [decodePair, strSlice, if_pos ⟨by omega, aligned⟩, slice]
  rfl

theorem decodePair_misaligned {k : Nat} (misaligned : ¬ Aligned bytes k) :
    decodePair bytes (2 * k) = .error .panic := by
  rw [decodePair, strSlice, if_neg fun found => misaligned found.2]
  rfl

theorem decodePair_ok_iff {k : Nat} (inside : 2 * k + 1 < bytes.length) :
    (∃ b, decodePair bytes (2 * k) = .ok b) ↔ Aligned bytes k ∧ Reads bytes k := by
  by_cases aligned : Aligned bytes k
  · rw [decodePair_aligned inside aligned, fromStrRadix_pair, Reads,
      List.getElem?_eq_getElem (by omega), List.getElem?_eq_getElem inside]
    simp only [aligned, true_and, Option.some.injEq, Option.bind_some]
    by_cases plus : bytes[2 * k] = 43
    · rw [if_pos plus]
      cases toDigit bytes[2 * k + 1] <;> simp [plus]
    · rw [if_neg plus]
      cases toDigit bytes[2 * k] <;> cases toDigit bytes[2 * k + 1] <;> simp [plus]
  · rw [decodePair_misaligned aligned]
    simp [aligned]

theorem decodePair_invalid_iff {k : Nat} (inside : 2 * k + 1 < bytes.length) :
    decodePair bytes (2 * k) = .error .invalid ↔ Aligned bytes k ∧ ¬ Reads bytes k := by
  have reads := decodePair_ok_iff inside
  by_cases aligned : Aligned bytes k
  · simp only [aligned, true_and] at reads ⊢
    rw [← reads, decodePair_aligned inside aligned]
    cases result : fromStrRadix [bytes[2 * k], bytes[2 * k + 1]] with
    | ok b => simp
    | error fault => simp [fromStrRadix_fault result]
  · rw [decodePair_misaligned aligned]
    simp [aligned]

end Pairs

section Text

variable {s : String}

def asciiByte (c : Char) : UInt8 := UInt8.ofNat c.toNat

theorem toDigit_ascii {c : Char} (ascii : c.toNat < 128) : toDigit (asciiByte c) = hexValue c := by
  have all : ∀ n < 128, toDigit (asciiByte (Char.ofNat n)) = hexValue (Char.ofNat n) := by
    decide +kernel
  have here := all c.toNat ascii
  rwa [Char.ofNat_toNat] at here

theorem strBytes_hex (hex : s.toList.all isHexChar) : strBytes s = s.toList.map asciiByte := by
  have single : ∀ c ∈ s.toList, String.utf8EncodeChar c = [asciiByte c] := by
    intro c member
    have ascii := isHexChar_ascii (List.all_eq_true.mp hex c member)
    have small : c.val.toNat ≤ 127 := by
      change c.toNat ≤ 127
      omega
    rw [String.utf8EncodeChar]
    exact if_pos small
  rw [strBytes, List.flatMap_congr single, ← List.map_eq_flatMap]

theorem strBytes_hex_length (hex : s.toList.all isHexChar) : (strBytes s).length = s.length := by
  rw [strBytes_hex hex, List.length_map, String.length_toList]

theorem strBytes_hex_getElem? (hex : s.toList.all isHexChar) (i : Nat) :
    ((strBytes s)[i]?).bind toDigit = (s.toList[i]?).bind hexValue := by
  rw [strBytes_hex hex, List.getElem?_map]
  cases found : s.toList[i]? with
  | none => rfl
  | some c =>
      exact toDigit_ascii (isHexChar_ascii
        (List.all_eq_true.mp hex c (List.mem_of_getElem? found)))

theorem boundary_hex (hex : s.toList.all isHexChar) {i : Nat} (inside : i ≤ (strBytes s).length) :
    isCharBoundary (strBytes s) i = true := by
  unfold isCharBoundary
  cases found : (strBytes s)[i]? with
  | none =>
      have outside := List.getElem?_eq_none_iff.mp found
      simp [Nat.le_antisymm inside outside]
  | some b =>
      rw [strBytes_hex hex, List.getElem?_map, Option.map_eq_some_iff] at found
      obtain ⟨c, place, rfl⟩ := found
      have ascii := isHexChar_ascii (List.all_eq_true.mp hex c (List.mem_of_getElem? place))
      have small : asciiByte c < 128 := by
        rw [UInt8.lt_iff_toNat_lt, asciiByte, UInt8.toNat_ofNat_of_lt' (by change _ < 256; omega)]
        exact ascii
      simp [small]

theorem aligned_hex (hex : s.toList.all isHexChar) {k : Nat}
    (inside : 2 * k + 1 < (strBytes s).length) : Aligned (strBytes s) k :=
  ⟨boundary_hex hex (by omega), boundary_hex hex (by omega)⟩

theorem hexValue_isSome (hex : s.toList.all isHexChar) {i : Nat}
    (inside : i < (strBytes s).length) : ((s.toList[i]?).bind hexValue).isSome := by
  rw [strBytes_hex hex, List.length_map] at inside
  rw [List.getElem?_eq_getElem inside]
  exact List.all_eq_true.mp hex _ (List.getElem_mem inside)

theorem decodePair_hex (hex : s.toList.all isHexChar) {k : Nat}
    (inside : 2 * k + 1 < (strBytes s).length) : decodePair (strBytes s) (2 * k) =
      .ok (UInt8.ofNat (16 * ((s.toList[2 * k]?).bind hexValue).getD 0 +
        ((s.toList[2 * k + 1]?).bind hexValue).getD 0)) := by
  have high := hexValue_isSome hex (show 2 * k < (strBytes s).length by omega)
  have low := hexValue_isSome hex inside
  have first := strBytes_hex_getElem? hex (2 * k)
  have second := strBytes_hex_getElem? hex (2 * k + 1)
  rw [List.getElem?_eq_getElem (by omega), Option.bind_some] at first
  rw [List.getElem?_eq_getElem inside, Option.bind_some] at second
  obtain ⟨h, highValue⟩ := Option.isSome_iff_exists.mp high
  obtain ⟨l, lowValue⟩ := Option.isSome_iff_exists.mp low
  have digit : (strBytes s)[2 * k] ≠ 43 := by
    intro plus
    rw [plus, toDigit_plus, highValue] at first
    cases first
  rw [decodePair_aligned inside (aligned_hex hex inside), fromStrRadix_pair, if_neg digit, first,
    second, highValue, lowValue]
  rfl

/-- Pairs of digits are decoded to the bytes they stand for. -/
theorem hexDecode_hex (even : s.length % 2 = 0) (hex : s.toList.all isHexChar) :
    hexDecode s = .ok (hexBytes s.toList) := by
  have length := strBytes_hex_length hex
  rw [hexDecode, if_neg (by omega), hexBytes_eq, length, ← String.length_toList]
  refine mapM_range_ok fun k below => decodePair_hex hex ?_
  rw [length]
  have chars : s.toList.length = s.length := String.length_toList
  omega

/-- The first pair that is refused is refused for what it is: it is made of whole characters, and
so is every pair before it. -/
def RefusesFirst (bytes : Bytes) : Prop :=
  ∃ k, 2 * k + 1 < bytes.length ∧ (∀ i < k, Aligned bytes i ∧ Reads bytes i) ∧
    Aligned bytes k ∧ ¬ Reads bytes k

theorem hexDecode_invalid_iff : hexDecode s = .error .invalid ↔
    (strBytes s).length % 2 = 1 ∨ RefusesFirst (strBytes s) := by
  have parity : (strBytes s).length % 2 ≠ 0 ↔ (strBytes s).length % 2 = 1 := by omega
  rw [hexDecode]
  by_cases odd : (strBytes s).length % 2 = 1
  · rw [if_pos (parity.mpr odd)]
    exact ⟨fun _ => Or.inl odd, fun _ => rfl⟩
  · rw [if_neg (mt parity.mp odd), mapM_range_error_iff]
    simp only [odd, false_or]
    have place (k : Nat) : k < (strBytes s).length / 2 ↔ 2 * k + 1 < (strBytes s).length := by
      omega
    constructor
    · rintro ⟨k, below, fine, stops⟩
      have inside := (place k).mp below
      obtain ⟨aligned, refused⟩ := (decodePair_invalid_iff inside).mp stops
      refine ⟨k, inside, fun i earlier => ?_, aligned, refused⟩
      exact (decodePair_ok_iff (by omega)).mp (fine i earlier)
    · rintro ⟨k, inside, fine, aligned, refused⟩
      refine ⟨k, (place k).mpr inside, fun i earlier => ?_,
        (decodePair_invalid_iff inside).mpr ⟨aligned, refused⟩⟩
      exact (decodePair_ok_iff (by omega)).mpr (fine i earlier)

/-- Decoding finds what the text means exactly for digits, for an odd number of bytes, and for
text whose first unreadable pair is refused for what it is. -/
theorem hexDecode_eq_iff : hexDecode s = hexMeaning s ↔ (strBytes s).length % 2 = 1 ∨
    s.toList.all isHexChar ∨ RefusesFirst (strBytes s) := by
  by_cases hex : s.toList.all isHexChar
  · simp only [hex, true_or, or_true, iff_true]
    by_cases even : s.length % 2 = 0
    · rw [hexDecode_hex even hex, hexMeaning, if_pos ⟨even, hex⟩]
    · rw [hexMeaning, if_neg fun found => even found.1, hexDecode_invalid_iff,
        strBytes_hex_length hex]
      exact Or.inl (by omega)
  · rw [hexMeaning, if_neg fun found => hex found.2, hexDecode_invalid_iff]
    simp only [hex]
    tauto

theorem hexMeaning_ok_or_invalid (s : String) :
    (∃ bytes, hexMeaning s = .ok bytes) ∨ hexMeaning s = .error .invalid := by
  unfold hexMeaning
  split
  · exact Or.inl ⟨_, rfl⟩
  · exact Or.inr rfl

theorem parseBytes_eq {size : Nat} {text : String} (stripped : stripHexPrefix text = s)
    (decoded : hexDecode s = hexMeaning s) : parseBytes size text =
      match hexMeaning s with
      | .ok bytes => some (fillRight size bytes)
      | .error _ => some (Vector.replicate size 0) := by
  rw [parseBytes, stripped, decoded]
  rcases hexMeaning_ok_or_invalid s with ⟨bytes, meaning⟩ | meaning
  · rw [meaning]
  · rw [meaning]

theorem parseBytes_isSome {size : Nat} {text : String} (stripped : stripHexPrefix text = s)
    (decoded : hexDecode s = hexMeaning s) : (parseBytes size text).isSome = true := by
  rw [parseBytes_eq stripped decoded]
  split <;> rfl

theorem parseBytes_invalid {size : Nat} {text : String} (stripped : stripHexPrefix text = s)
    (decoded : hexDecode s = hexMeaning s) (malformed : hexMeaning s = .error .invalid) :
    parseBytes size text = some (Vector.replicate size 0) := by
  rw [parseBytes_eq stripped decoded, malformed]

end Text

/-- Decoding finds what the text means, and the parsers return, with zeros for malformed text. -/
structure HexRead (s : String) : Prop where
  decoded : hexDecode s = hexMeaning s
  address : ∀ text, stripHexPrefix text = s → (parseAddress text).isSome = true ∧
    (hexMeaning s = .error .invalid → parseAddress text = some (Vector.replicate 20 0))
  hash : ∀ text, stripHexPrefix text = s → (parseHash text).isSome = true ∧
    (hexMeaning s = .error .invalid → parseHash text = some (Vector.replicate 32 0))

/-- Text is read as it should be exactly when it is all digits, has an odd number of bytes, or its
first unreadable pair is refused for what it is. -/
theorem hexRead_iff (s : String) : HexRead s ↔ (strBytes s).length % 2 = 1 ∨
    s.toList.all isHexChar ∨ RefusesFirst (strBytes s) := by
  rw [← hexDecode_eq_iff]
  constructor
  · exact fun read => read.decoded
  · intro decoded
    exact ⟨decoded,
      fun _ stripped => ⟨parseBytes_isSome stripped decoded, parseBytes_invalid stripped decoded⟩,
      fun _ stripped => ⟨parseBytes_isSome stripped decoded, parseBytes_invalid stripped decoded⟩⟩

/-- A sign is taken for a digit, and a character that two pairs share stops the program. -/
theorem sign_and_shared_character : hexDecode "+1" = .ok [1] ∧
    hexMeaning "+1" = .error .invalid ∧ hexDecode "aéb" = .error .panic ∧
    ¬ ∀ s, HexRead s := by
  have sign : hexDecode "+1" = .ok [1] := by decide +kernel
  have meaning : hexMeaning "+1" = .error .invalid := by decide +kernel
  refine ⟨sign, meaning, by decide +kernel, fun all => ?_⟩
  have decoded := (all "+1").decoded
  rw [sign, meaning] at decoded
  cases decoded

section RoundTrip

theorem stripHexPrefix_prefixed (bytes : Bytes) :
    stripHexPrefix (hexPrefixed bytes) = String.ofList (hexText bytes) := by
  rw [stripHexPrefix, hexPrefixed, String.toList_ofList]
  rfl

theorem stripHexPrefix_digits (bytes : Bytes) :
    stripHexPrefix (String.ofList (hexText bytes)) = String.ofList (hexText bytes) := by
  rw [stripHexPrefix, String.toList_ofList]
  split
  · rename_i rest shape
    have digit := isHexChar_hexText bytes 'x' (by rw [shape]; simp)
    exact absurd digit (by decide)
  · rfl

theorem hexDecode_hexText (bytes : Bytes) :
    hexDecode (String.ofList (hexText bytes)) = .ok bytes := by
  have length : (String.ofList (hexText bytes)).length = 2 * bytes.length := by
    rw [String.length_ofList, hexText_length]
  have hex : (String.ofList (hexText bytes)).toList.all isHexChar := by
    rw [String.toList_ofList]
    exact List.all_eq_true.mpr (isHexChar_hexText bytes)
  rw [hexDecode_hex (by omega) hex, String.toList_ofList, hexBytes_hexText]

theorem parseBytes_hexText {size : Nat} (bytes : Bytes) {text : String}
    (stripped : stripHexPrefix text = String.ofList (hexText bytes)) :
    parseBytes size text = some (fillRight size bytes) := by
  rw [parseBytes, stripped, hexDecode_hexText]

theorem fillRight_toList {size : Nat} {bytes : Bytes} (short : bytes.length ≤ size) :
    (fillRight size bytes).toList = List.replicate (size - bytes.length) 0 ++ bytes := by
  change List.replicate (size - min bytes.length size) 0 ++ bytes.take (min bytes.length size) = _
  rw [Nat.min_eq_left short, List.take_length]

theorem fillRight_full {size : Nat} (whole : Vector UInt8 size) :
    fillRight size whole.toList = whole := by
  have length : whole.toList.length = size := Vector.length_toList
  apply Vector.toList_inj.mp
  rw [fillRight_toList length.le, length, Nat.sub_self]
  rfl

end RoundTrip

/-- What is printed in hexadecimal reads back; fewer bytes, with a prefix or without, are read
into the end of the buffer, behind zeros. -/
theorem hex_round_trip :
    (∀ addr : Address, parseAddress (hexAddr addr) = some addr) ∧
    (∀ hash : Hash, parseHash (hexHash hash) = some hash) ∧
    ∀ bytes : Bytes, ∀ text ∈ [hexPrefixed bytes, String.ofList (hexText bytes)],
      (bytes.length ≤ 20 → (parseAddress text).map Vector.toList =
        some (List.replicate (20 - bytes.length) 0 ++ bytes)) ∧
      (bytes.length ≤ 32 → (parseHash text).map Vector.toList =
        some (List.replicate (32 - bytes.length) 0 ++ bytes)) := by
  refine ⟨fun addr => ?_, fun hash => ?_, fun bytes text shown => ?_⟩
  · rw [parseAddress, hexAddr, parseBytes_hexText _ (stripHexPrefix_prefixed _), fillRight_full]
  · rw [parseHash, hexHash, parseBytes_hexText _ (stripHexPrefix_prefixed _), fillRight_full]
  · have stripped : stripHexPrefix text = String.ofList (hexText bytes) := by
      simp only [List.mem_cons, List.not_mem_nil, or_false] at shown
      rcases shown with rfl | rfl
      · exact stripHexPrefix_prefixed bytes
      · exact stripHexPrefix_digits bytes
    constructor
    · intro short
      rw [parseAddress, parseBytes_hexText bytes stripped, Option.map_some, fillRight_toList short]
    · intro short
      rw [parseHash, parseBytes_hexText bytes stripped, Option.map_some, fillRight_toList short]

theorem hex_round_trip_short :
    (parseAddress (hexPrefixed [222, 173])).map Vector.toList =
        some (List.replicate 18 0 ++ [222, 173]) ∧
      (parseHash (String.ofList (hexText [222, 173]))).map Vector.toList =
        some (List.replicate 30 0 ++ [222, 173]) :=
  ⟨(hex_round_trip.2.2 [222, 173] _ (List.mem_cons_self)).1 (by decide),
    (hex_round_trip.2.2 [222, 173] _ (List.mem_cons_of_mem _ List.mem_cons_self)).2 (by decide)⟩

end Perfdb
