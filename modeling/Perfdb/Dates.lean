import Mathlib
import Perfdb.Calendar
import Perfdb.Engine

set_option autoImplicit false

namespace Perfdb

/-! Arithmetic that stops where a value does not fit, as a debug build does. -/

namespace Checked

def add (a b : UInt64) : Option UInt64 :=
  if a.toNat + b.toNat < 2 ^ 64 then some (a + b) else none

def sub (a b : UInt64) : Option UInt64 :=
  if b.toNat ≤ a.toNat then some (a - b) else none

def mul (a b : UInt64) : Option UInt64 :=
  if a.toNat * b.toNat < 2 ^ 64 then some (a * b) else none

def add32 (a b : UInt32) : Option UInt32 :=
  if a.toNat + b.toNat < 2 ^ 32 then some (a + b) else none

def mul32 (a b : UInt32) : Option UInt32 :=
  if a.toNat * b.toNat < 2 ^ 32 then some (a * b) else none

def narrow (a : UInt64) : Option UInt32 :=
  if a.toNat < 2 ^ 32 then some a.toUInt32 else none

variable {a b : UInt64} {x y n : Nat}

theorem add_exact (left : a.toNat = x) (right : b.toNat = y) (sum : x + y = n)
    (fits : n < 2 ^ 64) : add a b = some (a + b) ∧ (a + b).toNat = n := by
  subst left right sum
  exact ⟨if_pos fits, by rw [UInt64.toNat_add, Nat.mod_eq_of_lt fits]⟩

theorem sub_exact (left : a.toNat = x) (right : b.toNat = y) (below : y ≤ x)
    (difference : x - y = n) : sub a b = some (a - b) ∧ (a - b).toNat = n := by
  subst left right difference
  exact ⟨if_pos below, UInt64.toNat_sub_of_le a b (UInt64.le_iff_toNat_le.mpr below)⟩

theorem mul_exact (left : a.toNat = x) (right : b.toNat = y) (product : x * y = n)
    (fits : n < 2 ^ 64) : mul a b = some (a * b) ∧ (a * b).toNat = n := by
  subst left right product
  exact ⟨if_pos fits, by rw [UInt64.toNat_mul, Nat.mod_eq_of_lt fits]⟩

theorem narrow_exact (value : a.toNat = x) (fits : x < 2 ^ 32) :
    narrow a = some a.toUInt32 ∧ a.toUInt32.toNat = x := by
  subst value
  exact ⟨if_pos fits, by rw [UInt64.toNat_toUInt32, Nat.mod_eq_of_lt fits]⟩

variable {c d : UInt32}

theorem add32_exact (left : c.toNat = x) (right : d.toNat = y) (sum : x + y = n)
    (fits : n < 2 ^ 32) : add32 c d = some (c + d) ∧ (c + d).toNat = n := by
  subst left right sum
  exact ⟨if_pos fits, by rw [UInt32.toNat_add, Nat.mod_eq_of_lt fits]⟩

theorem mul32_exact (left : c.toNat = x) (right : d.toNat = y) (product : x * y = n)
    (fits : n < 2 ^ 32) : mul32 c d = some (c * d) ∧ (c * d).toNat = n := by
  subst left right product
  exact ⟨if_pos fits, by rw [UInt32.toNat_mul, Nat.mod_eq_of_lt fits]⟩

end Checked

namespace Checked

theorem bind_exact {α β : Type} {x : Option α} {a : α} (ok : x = some a) (rest : α → Option β) :
    x >>= rest = rest a := by
  subst ok
  rfl

def dayOfEra (days : UInt64) : Option (UInt64 × UInt64) := do
  let z ← add days 719468
  let doe ← sub z (← mul (z / 146097) 146097)
  return (z / 146097, doe)

def yearOfEra (doe : UInt64) : Option UInt64 := do
  let years ← sub (← add (← sub doe (doe / 1460)) (doe / 36524)) (doe / 146096)
  return years / 365

def dayOfYear (doe yoe : UInt64) : Option UInt64 := do
  sub doe (← sub (← add (← mul 365 yoe) (yoe / 4)) (yoe / 100))

def marchMonth (doy : UInt64) : Option UInt64 := do
  return (← add (← mul 5 doy) 2) / 153

def dayOfMonth (doy mp : UInt64) : Option UInt64 := do
  add (← sub doy ((← add (← mul 153 mp) 2) / 5)) 1

def month (mp : UInt64) : Option UInt64 := if mp < 10 then add mp 3 else sub mp 9

def year (era yoe m : UInt64) : Option UInt64 := do
  let y ← add yoe (← mul era 400)
  if m ≤ 2 then add y 1 else some y

def number (y m d : UInt64) : Option UInt32 := do
  add32 (← add32 (← mul32 (← narrow y) 10000) (← mul32 (← narrow m) 100)) (← narrow d)

end Checked

/-- `timestamp_to_date` with every sum, difference, product and cast checked. -/
def timestampToDateChecked (ts : UInt64) : Option UInt32 := do
  let (era, doe) ← Checked.dayOfEra (ts / 86400)
  let yoe ← Checked.yearOfEra doe
  let doy ← Checked.dayOfYear doe yoe
  let mp ← Checked.marchMonth doy
  let d ← Checked.dayOfMonth doy mp
  let m ← Checked.month mp
  Checked.number (← Checked.year era yoe m) m d

/-- The numbers the conversion goes through, for a day with its date. -/
structure Conversion (days : Nat) (date : CivilDate) (era doe yoe : Nat) : Prop where
  counted : days + 719468 = date.dayNumber
  split : date.dayNumber = 146097 * era + doe
  inside : doe < 146097
  year : (doe - doe / 1460 + doe / 36524 - doe / 146096) / 365 = yoe
  within : yoe < 400
  whole : date.marchYear = 400 * era + yoe
  day : doe = 365 * yoe + yoe / 4 - yoe / 100 + date.dayOfYear

theorem conversion (days : Nat) : ∃ era doe yoe,
    Conversion days (CivilDate.ofDays days) era doe yoe := by
  have counted := CivilDate.ofDays_dayNumber days
  obtain ⟨yoe, doe, within, whole, inside, split, day, found⟩ :=
    (CivilDate.ofDays_valid days).divided
  exact ⟨_, doe, yoe, by omega, split, inside, found, within, whole, day⟩

namespace Conversion

variable {days era doe yoe : Nat} {date : CivilDate} (found : Conversion days date era doe yoe)
include found

theorem dayOfEra (few : days < 2 ^ 60) {days64 : UInt64} (value : days64.toNat = days) :
    Checked.dayOfEra days64 = some ((days64 + 719468) / 146097,
      days64 + 719468 - (days64 + 719468) / 146097 * 146097) ∧
    ((days64 + 719468) / 146097).toNat = era ∧
      (days64 + 719468 - (days64 + 719468) / 146097 * 146097).toNat = doe := by
  obtain ⟨counted, split, inside, -, -, -, -⟩ := found
  obtain ⟨sum, z⟩ := Checked.add_exact (n := date.dayNumber) value
    (by rfl : (719468 : UInt64).toNat = 719468) counted (by omega)
  generalize days64 + 719468 = z64 at sum z ⊢
  have here : (z64 / 146097).toNat = era := by
    rw [UInt64.toNat_div, z, (by rfl : (146097 : UInt64).toNat = 146097)]
    omega
  obtain ⟨product, start⟩ := Checked.mul_exact (n := era * 146097) here
    (by rfl : (146097 : UInt64).toNat = 146097) rfl (by omega)
  obtain ⟨difference, rest⟩ := Checked.sub_exact (n := doe) z start (by omega) (by omega)
  refine ⟨?_, here, rest⟩
  rw [Checked.dayOfEra, Checked.bind_exact sum, Checked.bind_exact product,
    Checked.bind_exact difference, Option.pure_def]

theorem yearOfEra {doe64 : UInt64} (value : doe64.toNat = doe) :
    Checked.yearOfEra doe64 =
      some ((doe64 - doe64 / 1460 + doe64 / 36524 - doe64 / 146096) / 365) ∧
    ((doe64 - doe64 / 1460 + doe64 / 36524 - doe64 / 146096) / 365).toNat = yoe := by
  obtain ⟨-, -, inside, years, -, -, -⟩ := found
  have quotient (n : Nat) {by64 : UInt64} (is : by64.toNat = n) :
      (doe64 / by64).toNat = doe / n := by
    rw [UInt64.toNat_div, value, is]
  obtain ⟨first, value1⟩ := Checked.sub_exact value
    (quotient 1460 (by rfl : (1460 : UInt64).toNat = 1460)) (Nat.div_le_self _ _) rfl
  obtain ⟨second, value2⟩ := Checked.add_exact value1
    (quotient 36524 (by rfl : (36524 : UInt64).toNat = 36524)) rfl (by omega)
  obtain ⟨third, value3⟩ := Checked.sub_exact value2
    (quotient 146096 (by rfl : (146096 : UInt64).toNat = 146096)) (by omega) rfl
  refine ⟨?_, ?_⟩
  · rw [Checked.yearOfEra, Checked.bind_exact first, Checked.bind_exact second,
      Checked.bind_exact third, Option.pure_def]
  · rw [UInt64.toNat_div, value3, (by rfl : (365 : UInt64).toNat = 365), years]

theorem dayOfYear {doe64 yoe64 : UInt64} (value : doe64.toNat = doe) (year : yoe64.toNat = yoe) :
    Checked.dayOfYear doe64 yoe64 = some (doe64 - (365 * yoe64 + yoe64 / 4 - yoe64 / 100)) ∧
    (doe64 - (365 * yoe64 + yoe64 / 4 - yoe64 / 100)).toNat = date.dayOfYear := by
  obtain ⟨-, -, inside, -, within, -, day⟩ := found
  have quotient (n : Nat) {by64 : UInt64} (is : by64.toNat = n) :
      (yoe64 / by64).toNat = yoe / n := by
    rw [UInt64.toNat_div, year, is]
  obtain ⟨first, value1⟩ := Checked.mul_exact (by rfl : (365 : UInt64).toNat = 365) year rfl
    (by omega)
  obtain ⟨second, value2⟩ := Checked.add_exact value1
    (quotient 4 (by rfl : (4 : UInt64).toNat = 4)) rfl (by omega)
  obtain ⟨third, value3⟩ := Checked.sub_exact value2
    (quotient 100 (by rfl : (100 : UInt64).toNat = 100)) (by omega) rfl
  obtain ⟨fourth, value4⟩ := Checked.sub_exact (n := date.dayOfYear) value value3 (by omega)
    (by omega)
  refine ⟨?_, value4⟩
  rw [Checked.dayOfYear, Checked.bind_exact first, Checked.bind_exact second,
    Checked.bind_exact third, fourth]

omit found in
theorem marchMonth (valid : date.Valid) {doy64 : UInt64} (value : doy64.toNat = date.dayOfYear) :
    Checked.marchMonth doy64 = some ((5 * doy64 + 2) / 153) ∧
      ((5 * doy64 + 2) / 153).toNat = date.marchMonth := by
  obtain ⟨months, short, -⟩ := valid.month_of_year
  obtain ⟨first, value1⟩ := Checked.mul_exact (by rfl : (5 : UInt64).toNat = 5) value rfl
    (by omega)
  obtain ⟨second, value2⟩ := Checked.add_exact value1 (by rfl : (2 : UInt64).toNat = 2) rfl
    (by omega)
  refine ⟨?_, ?_⟩
  · rw [Checked.marchMonth, Checked.bind_exact first, Checked.bind_exact second, Option.pure_def]
  · rw [UInt64.toNat_div, value2, (by rfl : (153 : UInt64).toNat = 153), months]

omit found in
theorem dayOfMonth (valid : date.Valid) {doy64 mp64 : UInt64}
    (value : doy64.toNat = date.dayOfYear) (month : mp64.toNat = date.marchMonth) :
    Checked.dayOfMonth doy64 mp64 = some (doy64 - (153 * mp64 + 2) / 5 + 1) ∧
      (doy64 - (153 * mp64 + 2) / 5 + 1).toNat = date.day := by
  have begins := valid.begins
  have ends := valid.ends.trans (CivilDate.monthLength_le _ _)
  have within : date.marchMonth < 12 := by
    have last := valid.last
    unfold CivilDate.marchMonth
    split <;> omega
  have counted : date.dayOfYear = (153 * date.marchMonth + 2) / 5 + date.day - 1 := rfl
  obtain ⟨first, value1⟩ := Checked.mul_exact (by rfl : (153 : UInt64).toNat = 153) month rfl
    (by omega)
  obtain ⟨second, value2⟩ := Checked.add_exact value1 (by rfl : (2 : UInt64).toNat = 2) rfl
    (by omega)
  have months : ((153 * mp64 + 2) / 5).toNat = (153 * date.marchMonth + 2) / 5 := by
    rw [UInt64.toNat_div, value2, (by rfl : (5 : UInt64).toNat = 5)]
  obtain ⟨third, value3⟩ := Checked.sub_exact value months (by omega) rfl
  obtain ⟨fourth, value4⟩ := Checked.add_exact (n := date.day) value3
    (by rfl : (1 : UInt64).toNat = 1) (by omega) (by omega)
  refine ⟨?_, value4⟩
  rw [Checked.dayOfMonth, Checked.bind_exact first, Checked.bind_exact second,
    Checked.bind_exact third, fourth]

omit found in
theorem month (valid : date.Valid) {mp64 : UInt64} (value : mp64.toNat = date.marchMonth) :
    Checked.month mp64 = some (if mp64 < 10 then mp64 + 3 else mp64 - 9) ∧
      (if mp64 < 10 then mp64 + 3 else mp64 - 9).toNat = date.month := by
  have months := valid.monthFound
  have last := valid.last
  have order : mp64 < 10 ↔ date.marchMonth < 10 := by
    rw [UInt64.lt_iff_toNat_lt, value, (by rfl : (10 : UInt64).toNat = 10)]
  unfold Checked.month
  by_cases early : date.marchMonth < 10
  · rw [if_pos (order.mpr early), if_pos (order.mpr early)]
    rw [if_pos early] at months
    exact Checked.add_exact value (by rfl : (3 : UInt64).toNat = 3) months (by omega)
  · rw [if_neg (mt order.mp early), if_neg (mt order.mp early)]
    rw [if_neg early] at months
    exact Checked.sub_exact value (by rfl : (9 : UInt64).toNat = 9) (by omega) months

theorem civilYear (valid : date.Valid) (few : era < 2 ^ 50) {era64 yoe64 m64 : UInt64}
    (eras : era64.toNat = era) (years : yoe64.toNat = yoe) (month : m64.toNat = date.month) :
    Checked.year era64 yoe64 m64 =
      some (if m64 ≤ 2 then yoe64 + era64 * 400 + 1 else yoe64 + era64 * 400) ∧
    (if m64 ≤ 2 then yoe64 + era64 * 400 + 1 else yoe64 + era64 * 400).toNat = date.year := by
  obtain ⟨-, -, -, -, within, whole, -⟩ := found
  have yearFound := valid.yearFound
  obtain ⟨first, value1⟩ := Checked.mul_exact (n := 400 * era) eras
    (by rfl : (400 : UInt64).toNat = 400) (Nat.mul_comm _ _) (by omega)
  obtain ⟨second, value2⟩ := Checked.add_exact (n := date.marchYear) years value1 (by omega)
    (by omega)
  have order : m64 ≤ 2 ↔ date.month ≤ 2 := by
    rw [UInt64.le_iff_toNat_le, month, (by rfl : (2 : UInt64).toNat = 2)]
  rw [Checked.year, Checked.bind_exact first, Checked.bind_exact second]
  by_cases winter : date.month ≤ 2
  · rw [if_pos (order.mpr winter), if_pos (order.mpr winter)]
    rw [if_pos winter] at yearFound
    exact Checked.add_exact value2 (by rfl : (1 : UInt64).toNat = 1) yearFound (by omega)
  · rw [if_neg (mt order.mp winter), if_neg (mt order.mp winter)]
    rw [if_neg winter] at yearFound
    exact ⟨rfl, value2.trans yearFound⟩

omit found in
theorem number (valid : date.Valid) (bounded : date.year ≤ 429495) {y m d : UInt64}
    (year : y.toNat = date.year) (month : m.toNat = date.month) (day : d.toNat = date.day) :
    Checked.number y m d = some (y.toUInt32 * 10000 + m.toUInt32 * 100 + d.toUInt32) ∧
      (y.toUInt32 * 10000 + m.toUInt32 * 100 + d.toUInt32).toNat = date.number := by
  have last := valid.last
  have ends := valid.ends.trans (CivilDate.monthLength_le _ _)
  obtain ⟨years, value1⟩ := Checked.narrow_exact year (by omega)
  obtain ⟨months, value2⟩ := Checked.narrow_exact month (by omega)
  obtain ⟨days, value3⟩ := Checked.narrow_exact day (by omega)
  obtain ⟨first, value4⟩ := Checked.mul32_exact value1
    (by rfl : (10000 : UInt32).toNat = 10000) rfl (by omega)
  obtain ⟨second, value5⟩ := Checked.mul32_exact value2
    (by rfl : (100 : UInt32).toNat = 100) rfl (by omega)
  obtain ⟨third, value6⟩ := Checked.add32_exact value4 value5 rfl (by omega)
  obtain ⟨fourth, value7⟩ := Checked.add32_exact value6 value3 rfl (by omega)
  refine ⟨?_, value7⟩
  rw [Checked.number, Checked.bind_exact years, Checked.bind_exact first,
    Checked.bind_exact months, Checked.bind_exact second, Checked.bind_exact third,
    Checked.bind_exact days, fourth]

end Conversion

/-- Nothing overflows on the way to the Gregorian date of the day. -/
theorem timestampToDate_exact (ts : UInt64)
    (bounded : (CivilDate.ofDays (ts.toNat / 86400)).year ≤ 429495) :
    timestampToDateChecked ts = some (timestampToDate ts) ∧
      (timestampToDate ts).toNat = (CivilDate.ofDays (ts.toNat / 86400)).number := by
  have valid := CivilDate.ofDays_valid (ts.toNat / 86400)
  obtain ⟨era, doe, yoe, found⟩ := conversion (ts.toNat / 86400)
  have days : (ts / 86400).toNat = ts.toNat / 86400 := by
    rw [UInt64.toNat_div, (by rfl : (86400 : UInt64).toNat = 86400)]
  have range := ts.toNat_lt
  have few : ts.toNat / 86400 < 2 ^ 60 := by omega
  have eraFew : era < 2 ^ 50 := by
    have counted := found.counted
    have split := found.split
    omega
  obtain ⟨first, eras, dayOfEra⟩ := found.dayOfEra few days
  obtain ⟨second, years⟩ := found.yearOfEra dayOfEra
  obtain ⟨third, dayOfYear⟩ := found.dayOfYear dayOfEra years
  obtain ⟨fourth, marchMonth⟩ := Conversion.marchMonth valid dayOfYear
  obtain ⟨fifth, day⟩ := Conversion.dayOfMonth valid dayOfYear marchMonth
  obtain ⟨sixth, month⟩ := Conversion.month valid marchMonth
  obtain ⟨seventh, year⟩ := found.civilYear valid eraFew eras years month
  obtain ⟨eighth, number⟩ := Conversion.number valid bounded year month day
  refine ⟨?_, number⟩
  rw [timestampToDateChecked, Checked.bind_exact first]
  dsimp only
  rw [Checked.bind_exact second, Checked.bind_exact third, Checked.bind_exact fourth,
    Checked.bind_exact fifth, Checked.bind_exact sixth, Checked.bind_exact seventh, eighth]
  rfl

/-- The date of a timestamp is the Gregorian date of its UTC day: nothing overflows, two
timestamps have one date when they fall on one day, and later days have larger dates. -/
theorem timestampToDate_gregorian (ts : UInt64)
    (bounded : (CivilDate.ofDays (ts.toNat / 86400)).year ≤ 429495) :
    timestampToDateChecked ts = some (timestampToDate ts) ∧
    (timestampToDate ts).toNat = (CivilDate.ofDays (ts.toNat / 86400)).number ∧
    ∀ later : UInt64, (CivilDate.ofDays (later.toNat / 86400)).year ≤ 429495 →
      (timestampToDate ts = timestampToDate later ↔
        ts.toNat / 86400 = later.toNat / 86400) ∧
      (ts.toNat / 86400 < later.toNat / 86400 → timestampToDate ts < timestampToDate later) := by
  obtain ⟨checked, value⟩ := timestampToDate_exact ts bounded
  refine ⟨checked, value, fun later laterBounded => ?_⟩
  have laterValue := (timestampToDate_exact later laterBounded).2
  have increasing := CivilDate.number_strictMono
  constructor
  · rw [← UInt32.toNat_inj, value, laterValue]
    exact increasing.injective.eq_iff
  · intro before
    rw [UInt32.lt_iff_toNat_lt, value, laterValue]
    exact increasing before

theorem timestampToDate_gregorian_midnight :
    timestampToDateChecked 86399 = some (timestampToDate 86399) ∧
    (timestampToDate 86399).toNat =
      (CivilDate.ofDays ((86399 : UInt64).toNat / 86400)).number ∧
    ∀ later : UInt64, (CivilDate.ofDays (later.toNat / 86400)).year ≤ 429495 →
      (timestampToDate 86399 = timestampToDate later ↔
        (86399 : UInt64).toNat / 86400 = later.toNat / 86400) ∧
      ((86399 : UInt64).toNat / 86400 < later.toNat / 86400 →
        timestampToDate 86399 < timestampToDate later) :=
  timestampToDate_gregorian 86399 (by decide)

example : [0, 951782400, 951868800, 4107456000].map timestampToDate =
    [19700101, 20000229, 20000301, 21000228] := by decide

end Perfdb
