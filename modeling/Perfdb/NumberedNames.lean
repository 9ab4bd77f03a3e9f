import Mathlib

set_option autoImplicit false

namespace Perfdb

/-- Decimal digits with leading zeros up to the given width, as `{:0width}` prints. -/
def zeroPad (width n : Nat) : List Char :=
  List.replicate (width - (Nat.toDigits 10 n).length) '0' ++ Nat.toDigits 10 n

/-- `str::parse` for an unsigned number: an optional plus sign, then at least one digit. What
the machine type can hold is a matter of the callers. -/
def parseNumber (text : List Char) : Option Nat :=
  let digits := if text.head? = some '+' then text.tail else text
  if digits ≠ [] ∧ digits.all Char.isDigit then some (Nat.ofDigitChars 10 digits 0) else none

def stripPrefix (front text : List Char) : Option (List Char) :=
  if front.isPrefixOf text then some (text.drop front.length) else none

def stripSuffix (back text : List Char) : Option (List Char) :=
  if back.isSuffixOf text then some (text.take (text.length - back.length)) else none

def numberedName (stem extension : String) (width n : Nat) : String :=
  String.ofList (stem.toList ++ (zeroPad width n ++ extension.toList))

/-- The number in a name of that form. -/
def numberOf (stem extension name : String) : Option Nat :=
  ((stripPrefix stem.toList name.toList).bind (stripSuffix extension.toList)).bind parseNumber

theorem zeroPad_ne_nil (width n : Nat) : zeroPad width n ≠ [] := by
  simp [zeroPad, Nat.toDigits_ne_nil]

theorem zeroPad_digits (width n : Nat) (c : Char) (member : c ∈ zeroPad width n) :
    c.isDigit = true := by
  rcases List.mem_append.mp member with padding | digit
  · rw [List.eq_of_mem_replicate padding]
    rfl
  · exact Nat.isDigit_of_mem_toDigits (by decide) (by decide) digit

theorem parseNumber_zeroPad (width n : Nat) : parseNumber (zeroPad width n) = some n := by
  have unsigned : (zeroPad width n).head? ≠ some '+' := by
    intro plus
    have digit := zeroPad_digits width n '+' (List.mem_of_mem_head? plus)
    exact absurd digit (by decide)
  have allDigits : (zeroPad width n).all Char.isDigit = true :=
    List.all_eq_true.mpr (zeroPad_digits width n)
  have value : Nat.ofDigitChars 10 (zeroPad width n) 0 = n := by
    rw [zeroPad, Nat.ofDigitChars_append, Nat.ofDigitChars_replicate_zero, Nat.mul_zero,
      Nat.ofDigitChars_ten_toDigits]
  simp only [parseNumber, unsigned, ↓reduceIte, zeroPad_ne_nil, allDigits, value, ne_eq,
    not_false_eq_true, and_self]

theorem stripPrefix_append (front text : List Char) :
    stripPrefix front (front ++ text) = some text := by
  simp [stripPrefix]

theorem stripSuffix_append (text back : List Char) :
    stripSuffix back (text ++ back) = some text := by
  simp [stripSuffix]

theorem numberOf_numberedName (stem extension : String) (width n : Nat) :
    numberOf stem extension (numberedName stem extension width n) = some n := by
  simp only [numberOf, numberedName, String.toList_ofList, stripPrefix_append, Option.bind_some,
    stripSuffix_append, parseNumber_zeroPad]

theorem numberedName_injective (stem extension : String) (width : Nat) {n m : Nat}
    (same : numberedName stem extension width n = numberedName stem extension width m) :
    n = m := by
  have parsed := numberOf_numberedName stem extension width n
  rw [same, numberOf_numberedName] at parsed
  exact (Option.some.inj parsed).symm

@[simp] theorem numberedName_inj (stem extension : String) (width n m : Nat) :
    numberedName stem extension width n = numberedName stem extension width m ↔ n = m :=
  ⟨numberedName_injective stem extension width, fun same => same ▸ rfl⟩

def twiceNumberedName (stem middle extension : String) (width second n m : Nat) : String :=
  String.ofList (stem.toList ++ (zeroPad width n ++ (middle.toList ++ (zeroPad second m ++
    extension.toList))))

/-- Digits end where a character that is none comes. -/
theorem digits_append_inj {front other rest back : List Char}
    (digits : ∀ c ∈ front, c.isDigit = true) (others : ∀ c ∈ other, c.isDigit = true)
    (stop : ∀ c ∈ rest.head?, c.isDigit = false) (end_ : ∀ c ∈ back.head?, c.isDigit = false)
    (same : front ++ rest = other ++ back) : front = other ∧ rest = back := by
  induction front generalizing other with
  | nil =>
      cases other with
      | nil => exact ⟨rfl, same⟩
      | cons c other =>
          have head : rest.head? = some c := congrArg List.head? same
          cases (others c List.mem_cons_self).symm.trans (stop c head)
  | cons c front ih =>
      cases other with
      | nil =>
          have head : back.head? = some c := congrArg List.head? same.symm
          cases (digits c List.mem_cons_self).symm.trans (end_ c head)
      | cons d other =>
          obtain ⟨rfl, tails⟩ := List.cons.inj same
          obtain ⟨rfl, rests⟩ := ih (fun c member => digits c (List.mem_cons_of_mem _ member))
            (fun c member => others c (List.mem_cons_of_mem _ member)) tails
          exact ⟨rfl, rests⟩

theorem twiceNumberedName_injective (stem middle extension : String) (width second : Nat)
    {n m i j : Nat} {c : Char} {rest : List Char} (first : middle.toList = c :: rest)
    (stop : c.isDigit = false)
    (same : twiceNumberedName stem middle extension width second n m =
      twiceNumberedName stem middle extension width second i j) : n = i ∧ m = j := by
  have lists := List.append_cancel_left (String.ofList_injective same)
  have ends (back : List Char) : ∀ d ∈ (middle.toList ++ back).head?, d.isDigit = false := by
    intro d head
    rw [first, List.cons_append, List.head?_cons] at head
    rwa [← Option.some.inj head]
  obtain ⟨digits, tails⟩ := digits_append_inj (zeroPad_digits width n) (zeroPad_digits width i)
    (ends _) (ends _) lists
  have numbers := congrArg parseNumber digits
  rw [parseNumber_zeroPad, parseNumber_zeroPad] at numbers
  refine ⟨Option.some.inj numbers, numberedName_injective "" extension second ?_⟩
  rw [numberedName, numberedName, List.append_cancel_left tails]

end Perfdb
