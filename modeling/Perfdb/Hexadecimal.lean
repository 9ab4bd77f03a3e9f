import Mathlib

set_option autoImplicit false

namespace Perfdb

section Stop

variable {ε β : Type} {f : Nat → Except ε β}

theorem mapM_range_succ (f : Nat → Except ε β) (k : Nat) :
    (List.range (k + 1)).mapM f = (do
      let front ← (List.range k).mapM f
      let last ← f k
      return front ++ [last]) := by
  rw [List.range_succ, List.mapM_append]
  simp only [List.mapM_cons, List.mapM_nil, bind_assoc, pure_bind]

/-- Working through the numbers below `k` succeeds when each does. -/
theorem mapM_range_ok {g : Nat → β} {k : Nat} (each : ∀ i < k, f i = .ok (g i)) :
    (List.range k).mapM f = .ok ((List.range k).map g) := by
  induction k with
  | zero => rfl
  | succ k ih =>
      rw [mapM_range_succ, ih fun i below => each i (Nat.lt_succ_of_lt below),
        each k (Nat.lt_succ_self k), List.range_succ, List.map_append]
      rfl

theorem mapM_range_fine {k : Nat} (fine : ∀ i < k, ∃ b, f i = .ok b) :
    ∃ bs, (List.range k).mapM f = .ok bs := by
  induction k with
  | zero => exact ⟨[], rfl⟩
  | succ k ih =>
      obtain ⟨front, before⟩ := ih fun i below => fine i (Nat.lt_succ_of_lt below)
      obtain ⟨last, here⟩ := fine k (Nat.lt_succ_self k)
      refine ⟨front ++ [last], ?_⟩
      rw [mapM_range_succ, before, here]
      rfl

/-- It stops at the first number that does not. -/
theorem mapM_range_stop {j k : Nat} {e : ε} (below : j < k) (fine : ∀ i < j, ∃ b, f i = .ok b)
    (stops : f j = .error e) : (List.range k).mapM f = .error e := by
  induction k with
  | zero => exact absurd below (Nat.not_lt_zero j)
  | succ k ih =>
      rw [mapM_range_succ]
      rcases Nat.lt_succ_iff_lt_or_eq.mp below with earlier | rfl
      · rw [ih earlier]
        rfl
      · obtain ⟨front, before⟩ := mapM_range_fine fine
        rw [before, stops]
        rfl

theorem mapM_range_error_iff {k : Nat} {e : ε} : (List.range k).mapM f = .error e ↔
    ∃ j < k, (∀ i < j, ∃ b, f i = .ok b) ∧ f j = .error e := by
  constructor
  · intro failed
    have some : ∃ j, j < k ∧ ¬ ∃ b, f j = .ok b := by
      by_contra none
      push Not at none
      obtain ⟨bs, returned⟩ := mapM_range_fine none
      rw [returned] at failed
      cases failed
    classical
    obtain ⟨below, broken⟩ := Nat.find_spec some
    have fine : ∀ i < Nat.find some, ∃ b, f i = .ok b := by
      intro i earlier
      have minimal := Nat.find_min some earlier
      rw [not_and, not_not] at minimal
      exact minimal (earlier.trans below)
    refine ⟨Nat.find some, below, fine, ?_⟩
    cases here : f (Nat.find some) with
    | ok b => exact absurd ⟨b, here⟩ broken
    | error reason =>
        have stopped := mapM_range_stop below fine here
        rw [failed] at stopped
        cases stopped
        rfl
  · rintro ⟨j, below, fine, stops⟩
    exact mapM_range_stop below fine stops

end Stop

section Digits

def hexValue (c : Char) : Option Nat :=
  if '0' ≤ c ∧ c ≤ '9' then some (c.toNat - 48)
  else if 'a' ≤ c ∧ c ≤ 'f' then some (c.toNat - 87)
  else if 'A' ≤ c ∧ c ≤ 'F' then some (c.toNat - 55)
  else none

def isHexChar (c : Char) : Bool := (hexValue c).isSome

theorem isHexChar_ascii {c : Char} (hex : isHexChar c = true) : c.toNat < 128 := by
  have upper {d : Char} (order : c ≤ d) : c.toNat ≤ d.toNat := order
  unfold isHexChar hexValue at hex
  split at hex
  · rename_i within
    exact Nat.lt_of_le_of_lt (upper within.2) (by decide)
  · split at hex
    · rename_i within
      exact Nat.lt_of_le_of_lt (upper within.2) (by decide)
    · split at hex
      · rename_i within
        exact Nat.lt_of_le_of_lt (upper within.2) (by decide)
      · cases hex

/-- The bytes that digits stand for, two for each. -/
def hexBytes : List Char → List UInt8
  | high :: low :: rest =>
      UInt8.ofNat (16 * (hexValue high).getD 0 + (hexValue low).getD 0) :: hexBytes rest
  | _ => []

theorem hexBytes_eq (text : List Char) : hexBytes text = (List.range (text.length / 2)).map fun k =>
    UInt8.ofNat (16 * ((text[2 * k]?).bind hexValue).getD 0 +
      ((text[2 * k + 1]?).bind hexValue).getD 0) := by
  induction text using hexBytes.induct with
  | case1 high low rest ih =>
      have half : (high :: low :: rest).length / 2 = rest.length / 2 + 1 := by
        simp only [List.length_cons]
        omega
      rw [half, List.range_succ_eq_map, List.map_cons, List.map_map, hexBytes, ih]
      rfl
  | case2 text short =>
      have none : text.length / 2 = 0 := by
        match text with
        | [] => exact Nat.zero_div 2
        | [_] => exact Nat.div_eq_of_lt (by simp)
        | high :: low :: rest => exact absurd rfl (short high low rest)
      rw [none, hexBytes]
      · rfl
      · exact short

def hexDigit (n : Nat) : Char := if n < 10 then Char.ofNat (48 + n) else Char.ofNat (87 + n)

/-- Two lower-case digits for a byte. -/
def hexByte (b : UInt8) : List Char := [hexDigit (b.toNat / 16), hexDigit (b.toNat % 16)]

def hexText (bytes : List UInt8) : List Char := bytes.flatMap hexByte

theorem hexValue_hexDigit {n : Nat} (digit : n < 16) : hexValue (hexDigit n) = some n := by
  have all : ∀ n < 16, hexValue (hexDigit n) = some n := by decide
  exact all n digit

theorem isHexChar_hexText (bytes : List UInt8) : ∀ c ∈ hexText bytes, isHexChar c = true := by
  intro c member
  obtain ⟨b, -, inside⟩ := List.mem_flatMap.mp member
  have high : b.toNat / 16 < 16 := by
    have bound := b.toNat_lt
    omega
  have low : b.toNat % 16 < 16 := Nat.mod_lt _ (by decide)
  simp only [hexByte, List.mem_cons, List.not_mem_nil, or_false] at inside
  rcases inside with rfl | rfl
  · rw [isHexChar, hexValue_hexDigit high, Option.isSome_some]
  · rw [isHexChar, hexValue_hexDigit low, Option.isSome_some]

theorem hexText_length (bytes : List UInt8) : (hexText bytes).length = 2 * bytes.length := by
  induction bytes with
  | nil => rfl
  | cons b rest ih =>
      rw [hexText, List.flatMap_cons, List.length_append, ← hexText, ih, List.length_cons]
      simp only [hexByte, List.length_cons, List.length_nil]
      omega

/-- Printing bytes in hexadecimal and reading the digits gives them back. -/
theorem hexBytes_hexText (bytes : List UInt8) : hexBytes (hexText bytes) = bytes := by
  induction bytes with
  | nil => rfl
  | cons b rest ih =>
      have bound := b.toNat_lt
      have high : b.toNat / 16 < 16 := by omega
      have low : b.toNat % 16 < 16 := Nat.mod_lt _ (by decide)
      have value : 16 * (b.toNat / 16) + b.toNat % 16 = b.toNat := Nat.div_add_mod _ _
      have shape : hexText (b :: rest) =
          hexDigit (b.toNat / 16) :: hexDigit (b.toNat % 16) :: hexText rest := rfl
      rw [shape, hexBytes, hexValue_hexDigit high, hexValue_hexDigit low, ih, Option.getD_some,
        Option.getD_some, value, UInt8.ofNat_toNat]

end Digits

end Perfdb
