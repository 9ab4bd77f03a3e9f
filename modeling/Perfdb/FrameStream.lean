import Mathlib
import Perfdb.Bytes

set_option autoImplicit false

/-! Streams of length-prefixed, checksummed frames. A frame is the length of its
payload and the payload's checksum, each a little-endian `u32`, and the payload. -/

namespace Perfdb

variable {α : Type}

/-- How values become payloads, how payloads are checked, and the longest
payload a reader accepts. -/
structure Framing (α : Type) where
  encode : α → Bytes
  decode : Bytes → Option α
  checksum : Bytes → UInt32
  limit : Nat
  limit_lt : limit < 2 ^ 32

namespace Framing

variable (f : Framing α)

def header (payload : Bytes) : Bytes :=
  Bytes.le 4 payload.length ++ Bytes.le 4 (f.checksum payload).toNat

def frame (value : α) : Bytes := f.header (f.encode value) ++ f.encode value

def frames (values : List α) : Bytes := values.flatMap f.frame

/-- A value whose frame a reader takes back. -/
def Sound (value : α) : Prop :=
  f.decode (f.encode value) = some value ∧ (f.encode value).length ≤ f.limit

/-- The value of the frame at the head of the input and the input behind it,
when that frame is complete, within the limit, and passes its checks. -/
def next (input : Bytes) : Option (α × Bytes) := do
  let (header, body) ← Bytes.readExact 8 input
  let length := Bytes.ofLe (header.take 4)
  if f.limit < length then none
  else
    let (payload, rest) ← Bytes.readExact length body
    if (f.checksum payload).toNat ≠ Bytes.ofLe (header.drop 4) then none
    else
      let value ← f.decode payload
      some (value, rest)

/-- All values up to the first frame that is not accepted. -/
def scanFrom : Nat → Bytes → List α
  | 0, _ => []
  | fuel + 1, input =>
      match f.next input with
      | none => []
      | some (value, rest) => value :: scanFrom fuel rest

def scan (input : Bytes) : List α := f.scanFrom (input.length + 1) input

@[simp] theorem header_length (payload : Bytes) : (f.header payload).length = 8 := by
  simp [header]

@[simp] theorem frame_length (value : α) :
    (f.frame value).length = 8 + (f.encode value).length := by
  simp [frame]

@[simp] theorem frames_nil : f.frames [] = [] := rfl

@[simp] theorem frames_cons (value : α) (values : List α) :
    f.frames (value :: values) = f.frame value ++ f.frames values := rfl

@[simp] theorem frames_append (front back : List α) :
    f.frames (front ++ back) = f.frames front ++ f.frames back := by
  simp [frames]

theorem header_take (payload : Bytes) :
    (f.header payload).take 4 = Bytes.le 4 payload.length := by
  simp [header]

theorem header_drop (payload : Bytes) :
    (f.header payload).drop 4 = Bytes.le 4 (f.checksum payload).toNat := by
  simp [header]

/-- An accepted frame is at least a header long. -/
theorem next_length {input rest : Bytes} {value : α} (head : f.next input = some (value, rest)) :
    rest.length + 8 ≤ input.length := by
  simp only [next, Option.bind_eq_bind, Option.bind_eq_some_iff] at head
  obtain ⟨⟨header, body⟩, readHeader, head⟩ := head
  obtain ⟨rfl, headerLength⟩ := Bytes.readExact_eq_some readHeader
  simp only at head
  split at head
  · contradiction
  · obtain ⟨⟨payload, behind⟩, readPayload, head⟩ := Option.bind_eq_some_iff.mp head
    obtain ⟨rfl, payloadLength⟩ := Bytes.readExact_eq_some readPayload
    simp only at head
    split at head
    · contradiction
    · obtain ⟨decoded, _, head⟩ := Option.bind_eq_some_iff.mp head
      obtain ⟨_, rfl⟩ := Prod.mk.inj (Option.some.inj head)
      simp only [List.length_append]
      omega

/-- The frame of a sound value is accepted whatever follows it. -/
theorem next_frame (value : α) (rest : Bytes) (sound : f.Sound value) :
    f.next (f.frame value ++ rest) = some (value, rest) := by
  obtain ⟨decodes, bounded⟩ := sound
  have limit := f.limit_lt
  have headed : Bytes.readExact 8 (f.frame value ++ rest) =
      some (f.header (f.encode value), f.encode value ++ rest) := by
    simpa only [frame, List.append_assoc, header_length] using
      Bytes.readExact_append (f.header (f.encode value)) (f.encode value ++ rest)
  have length : Bytes.ofLe ((f.header (f.encode value)).take 4) = (f.encode value).length := by
    rw [header_take, Bytes.ofLe_le 4 _ (by omega)]
  have checksum : Bytes.ofLe ((f.header (f.encode value)).drop 4) =
      (f.checksum (f.encode value)).toNat := by
    rw [header_drop, Bytes.ofLe_le 4 _ (f.checksum (f.encode value)).toNat_lt]
  simp [next, headed, length, checksum, Nat.not_lt.mpr bounded, Bytes.readExact_append, decodes]

theorem next_short {input : Bytes} (short : input.length < 8) : f.next input = none := by
  simp only [next, Bytes.readExact_eq_none short, Option.bind_eq_bind, Option.bind_none]

/-- The input ends before the frame at its head does. -/
def Incomplete (input : Bytes) : Prop :=
  input.length < 8 ∨ Bytes.ofLe (input.take 4) ≤ f.limit ∧
    input.length < 8 + Bytes.ofLe (input.take 4)

/-- A frame rejected for what it says is rejected whatever follows it. -/
theorem next_append_none {input : Bytes} (more : Bytes) (rejected : f.next input = none)
    (complete : ¬ f.Incomplete input) : f.next (input ++ more) = none := by
  simp only [Incomplete, not_or, not_and, Nat.not_lt] at complete
  obtain ⟨headed, whole⟩ := complete
  have read : Bytes.readExact 8 input = some (input.take 8, input.drop 8) := by
    simp only [Bytes.readExact, headed, ↓reduceIte]
  have readMore : Bytes.readExact 8 (input ++ more) = some (input.take 8, input.drop 8 ++ more) := by
    have longer : 8 ≤ (input ++ more).length := by
      rw [List.length_append]
      omega
    simp only [Bytes.readExact, longer, ↓reduceIte, List.take_append_of_le_length headed,
      List.drop_append_of_le_length headed]
  have length : (input.take 8).take 4 = input.take 4 := by
    rw [List.take_take]
    rfl
  simp only [next, read, readMore, Option.bind_eq_bind, Option.bind_some, length] at rejected ⊢
  by_cases large : f.limit < Bytes.ofLe (input.take 4)
  · simp only [large, ↓reduceIte]
  · have bounded := whole (Nat.not_lt.mp large)
    have inside : Bytes.ofLe (input.take 4) ≤ (input.drop 8).length := by
      rw [List.length_drop]
      omega
    have insideMore : Bytes.ofLe (input.take 4) ≤ (input.drop 8 ++ more).length := by
      rw [List.length_append]
      omega
    simp only [large, ↓reduceIte, Bytes.readExact, inside, insideMore, Option.bind_some,
      List.take_append_of_le_length inside, List.drop_append_of_le_length inside] at rejected ⊢
    split at rejected
    · rename_i mismatch
      simp only [mismatch, ne_eq, not_false_eq_true, ↓reduceIte]
    · rename_i matched
      simp only [matched, ↓reduceIte]
      rw [Option.bind_eq_none_iff] at rejected ⊢
      intro value decoded
      exact absurd (rejected value decoded) (by simp)

/-- A frame cut anywhere before its end is not accepted; no checksum is needed for that. -/
theorem next_take_frame (value : α) (kept : Nat) (bounded : (f.encode value).length ≤ f.limit)
    (cut : kept < (f.frame value).length) : f.next ((f.frame value).take kept) = none := by
  have limit := f.limit_lt
  by_cases headed : kept < 8
  · apply f.next_short
    rw [List.length_take]
    omega
  · have split : (f.frame value).take kept =
        f.header (f.encode value) ++ (f.encode value).take (kept - 8) := by
      rw [frame, List.take_append, header_length,
        List.take_of_length_le (by rw [header_length]; omega)]
    have read : Bytes.readExact 8 ((f.frame value).take kept) =
        some (f.header (f.encode value), (f.encode value).take (kept - 8)) := by
      rw [split]
      simpa only [header_length] using
        Bytes.readExact_append (f.header (f.encode value)) ((f.encode value).take (kept - 8))
    have length : Bytes.ofLe ((f.header (f.encode value)).take 4) = (f.encode value).length := by
      rw [header_take, Bytes.ofLe_le 4 _ (by omega)]
    have missing : Bytes.readExact (f.encode value).length ((f.encode value).take (kept - 8)) =
        none := by
      apply Bytes.readExact_eq_none
      rw [frame_length] at cut
      rw [List.length_take]
      omega
    simp [next, read, length, missing]

theorem scanFrom_fuel (fuel other : Nat) (input : Bytes) (enough : input.length < fuel)
    (more : input.length < other) : f.scanFrom fuel input = f.scanFrom other input := by
  induction fuel generalizing other input with
  | zero => omega
  | succ fuel ih =>
      cases other with
      | zero => omega
      | succ other =>
          simp only [scanFrom]
          cases head : f.next input with
          | none => rfl
          | some found =>
              obtain ⟨value, rest⟩ := found
              have shorter := f.next_length head
              simp only [ih other rest (by omega) (by omega)]

theorem scan_of_none {input : Bytes} (rejected : f.next input = none) : f.scan input = [] := by
  simp only [scan, scanFrom, rejected]

theorem scan_of_some {input rest : Bytes} {value : α} (head : f.next input = some (value, rest)) :
    f.scan input = value :: f.scan rest := by
  have shorter := f.next_length head
  have refuel := f.scanFrom_fuel input.length (rest.length + 1) rest (by omega) (by omega)
  rw [scan, scanFrom, head]
  exact congrArg (value :: ·) refuel

@[simp] theorem scan_nil : f.scan [] = [] :=
  f.scan_of_none (f.next_short (by simp))

theorem scan_frames (values : List α) (tail : Bytes) (sound : ∀ value ∈ values, f.Sound value) :
    f.scan (f.frames values ++ tail) = values ++ f.scan tail := by
  induction values with
  | nil => rfl
  | cons value values ih =>
      rw [frames_cons, List.append_assoc,
        f.scan_of_some (f.next_frame value _ (sound value List.mem_cons_self)),
        ih (fun other member => sound other (List.mem_cons_of_mem value member)), List.cons_append]

theorem scan_frames_exact (values : List α) (sound : ∀ value ∈ values, f.Sound value) :
    f.scan (f.frames values) = values := by
  simpa only [List.append_nil, scan_nil] using f.scan_frames values [] sound

theorem scan_frames_take (values : List α) (value : α) (kept : Nat)
    (sound : ∀ value ∈ values, f.Sound value) (bounded : (f.encode value).length ≤ f.limit)
    (cut : kept < (f.frame value).length) :
    f.scan (f.frames values ++ (f.frame value).take kept) = values := by
  rw [f.scan_frames values _ sound, f.scan_of_none (f.next_take_frame value kept bounded cut),
    List.append_nil]

/-- A stream cut anywhere yields some of its first values. -/
theorem scan_take_frames (values : List α) (kept : Nat)
    (sound : ∀ value ∈ values, f.Sound value) :
    f.scan ((f.frames values).take kept) <+: values := by
  induction values generalizing kept with
  | nil => simp
  | cons value values ih =>
      have first : f.Sound value := sound value List.mem_cons_self
      by_cases cut : kept < (f.frame value).length
      · rw [frames_cons, List.take_append_of_le_length (Nat.le_of_lt cut),
          f.scan_of_none (f.next_take_frame value kept first.2 cut)]
        exact List.nil_prefix
      · rw [frames_cons, List.take_append, List.take_of_length_le (Nat.le_of_not_lt cut),
          f.scan_of_some (f.next_frame value _ first), List.cons_prefix_cons]
        exact ⟨rfl, ih _ fun other member => sound other (List.mem_cons_of_mem value member)⟩

end Framing

end Perfdb
