import Mathlib.Algebra.Ring.Nat
import Mathlib.Data.List.Basic
import RustSamples.RustStr

/-! # Instants and their RFC 3339 text

An instant is a number of nanoseconds since the beginning of the year 0 of the
proleptic Gregorian calendar, in UTC and without leap seconds.  `toRfc3339` writes
it with the shortest exact fraction of 0, 3, 6 or 9 digits and the offset
`+00:00`; `parseFromRfc3339` reads any offset.

Two facts are the point of this module.  A text that was written reads back as the
instant it was written for (`parseFromRfc3339_toRfc3339`).  And the texts sort like
the instants (`utf8_toRfc3339_lt_iff`): date and time are mixed-radix digits of
the instant, written with a fixed width, so their lexicographic order is the
chronological one; the fraction is cut into groups of three digits, and where one
text ends earlier its `+` is below every digit and below the point.
-/
namespace Rfc3339
open RustStr

/-! ## Lexicographic order -/

section Lex
variable {α : Type} [LT α]

theorem append_lt_append_iff {a b : List α} (h : a.length = b.length) (x y : List α) :
    a ++ x < b ++ y ↔ a < b ∨ a = b ∧ x < y := by
  induction a generalizing b with
  | nil =>
    obtain rfl := List.length_eq_zero_iff.mp h.symm
    simp
  | cons c a ih =>
    cases b with
    | nil => cases h
    | cons d b =>
      rw [List.cons_append, List.cons_append, List.cons_lt_cons_iff, List.cons_lt_cons_iff,
        ih (Nat.succ.inj h), List.cons.injEq]
      tauto

/-- Two ways to cut a value in a leading and a remaining part agree on the order once
they agree on the order and the equality of the leading parts. -/
theorem lex_congr {p q r : Prop} {p' q' r' : Prop} (hp : p ↔ p') (hq : q ↔ q')
    (hr : q → (r ↔ r')) : p ∨ q ∧ r ↔ p' ∨ q' ∧ r' := by
  tauto

end Lex

/-- The order of numbers is the order of quotient and remainder. -/
theorem lt_iff_div_mod (k : Nat) (n m : Nat) :
    n < m ↔ n / k < m / k ∨ n / k = m / k ∧ n % k < m % k := by
  constructor
  · intro h
    have hdiv : n / k ≤ m / k := Nat.div_le_div_right (Nat.le_of_lt h)
    rcases Nat.lt_or_eq_of_le hdiv with hlt | heq
    · exact Or.inl hlt
    · have hn := Nat.div_add_mod n k
      have hm := Nat.div_add_mod m k
      rw [heq] at hn
      exact Or.inr ⟨heq, by omega⟩
  · rintro (h | ⟨heq, h⟩)
    · exact Nat.lt_of_div_lt_div h
    · have hn := Nat.div_add_mod n k
      have hm := Nat.div_add_mod m k
      rw [heq] at hn
      omega

theorem eq_iff_div_mod (k : Nat) (n m : Nat) : n = m ↔ n / k = m / k ∧ n % k = m % k := by
  constructor
  · rintro rfl
    exact ⟨rfl, rfl⟩
  · rintro ⟨hd, hm⟩
    rw [← Nat.div_add_mod n k, ← Nat.div_add_mod m k, hd, hm]

/-! ## Decimal digits of fixed width -/

/-- `{:0k}` of a number below `10 ^ k`. -/
def padded : Nat → Nat → List Char
  | 0, _ => []
  | k + 1, n => padded k (n / 10) ++ [Nat.digitChar (n % 10)]

@[simp] theorem length_padded (k n : Nat) : (padded k n).length = k := by
  induction k generalizing n with
  | zero => rfl
  | succ k ih => simp [padded, ih]

theorem digitChar_lt_iff {d e : Nat} (hd : d < 10) (he : e < 10) :
    Nat.digitChar d < Nat.digitChar e ↔ d < e := by
  have h : ∀ d : Fin 10, ∀ e : Fin 10, Nat.digitChar d < Nat.digitChar e ↔ d < e := by decide
  exact h ⟨d, hd⟩ ⟨e, he⟩

theorem digitChar_inj {d e : Nat} (hd : d < 10) (he : e < 10)
    (h : Nat.digitChar d = Nat.digitChar e) : d = e := by
  have hall : ∀ d : Fin 10, ∀ e : Fin 10, Nat.digitChar d = Nat.digitChar e → d = e := by decide
  exact congrArg Fin.val (hall ⟨d, hd⟩ ⟨e, he⟩ h)

theorem padded_inj {k n m : Nat} (hn : n < 10 ^ k) (hm : m < 10 ^ k) :
    padded k n = padded k m ↔ n = m := by
  induction k generalizing n m with
  | zero => simp at hn hm; simp [padded, hn, hm]
  | succ k ih =>
    have hn' : n / 10 < 10 ^ k := by rw [Nat.pow_succ] at hn; omega
    have hm' : m / 10 < 10 ^ k := by rw [Nat.pow_succ] at hm; omega
    rw [eq_iff_div_mod 10 n m, ← ih hn' hm', padded, padded]
    constructor
    · intro h
      obtain ⟨hlead, hlast⟩ := List.append_inj h (by simp)
      exact ⟨hlead, digitChar_inj (by omega) (by omega) (List.singleton_inj.mp hlast)⟩
    · rintro ⟨hlead, hlast⟩
      rw [hlead, hlast]

theorem padded_lt_iff {k n m : Nat} (hn : n < 10 ^ k) (hm : m < 10 ^ k) :
    padded k n < padded k m ↔ n < m := by
  induction k generalizing n m with
  | zero => simp at hn hm; simp [padded, hn, hm]
  | succ k ih =>
    have hn' : n / 10 < 10 ^ k := by rw [Nat.pow_succ] at hn; omega
    have hm' : m / 10 < 10 ^ k := by rw [Nat.pow_succ] at hm; omega
    rw [padded, padded, append_lt_append_iff (by simp), lt_iff_div_mod 10 n m, ih hn' hm',
      padded_inj hn' hm']
    refine lex_congr Iff.rfl Iff.rfl fun _ => ?_
    rw [List.cons_lt_cons_iff, digitChar_lt_iff (by omega) (by omega)]
    simp

/-- A text of fixed-width fields: the first field decides unless it is the same. -/
theorem padded_append_lt_iff {k n m : Nat} (hn : n < 10 ^ k) (hm : m < 10 ^ k)
    (x y : List Char) : padded k n ++ x < padded k m ++ y ↔ n < m ∨ n = m ∧ x < y := by
  rw [append_lt_append_iff (by simp), padded_lt_iff hn hm, padded_inj hn hm]

theorem padded_add (j k n : Nat) :
    padded (j + k) n = padded j (n / 10 ^ k) ++ padded k (n % 10 ^ k) := by
  induction k generalizing n with
  | zero => simp [padded]
  | succ k ih =>
    rw [← Nat.add_assoc, padded, ih, padded, List.append_assoc]
    have hdiv : n / 10 / 10 ^ k = n / 10 ^ (k + 1) := by
      rw [Nat.div_div_eq_div_mul, Nat.pow_succ, Nat.mul_comm]
    have hmod : n % 10 ^ (k + 1) / 10 = n / 10 % 10 ^ k := by
      rw [Nat.pow_succ, Nat.mul_comm, Nat.mod_mul_right_div_self]
    have hlast : n % 10 ^ (k + 1) % 10 = n % 10 := by
      rw [Nat.pow_succ, Nat.mul_comm]
      exact Nat.mod_mul_right_mod n 10 (10 ^ k)
    rw [hdiv, hmod, hlast]

/-! ## The calendar -/

/-- The nanoseconds of a second. -/
def second : Nat := 1000000000

/-- February 29th of the years before `y`. -/
def leapDaysBefore (y : Nat) : Nat := (y + 3) / 4 - (y + 99) / 100 + (y + 399) / 400

def daysBeforeYear (y : Nat) : Nat := 365 * y + leapDaysBefore y

/-- The year of a day, both counted from 0: 400 years are 146097 days, and within them
the year is at most one below the count of 365-day years. -/
def yearOfDay (d : Nat) : Nat :=
  let y := d / 146097 * 400 + d % 146097 / 365
  if d < daysBeforeYear y then y - 1 else y

/-- The number of days of each month. -/
def monthLengths (y : Nat) : List Nat :=
  [31, if y % 4 = 0 ∧ (y % 100 ≠ 0 ∨ y % 400 = 0) then 29 else 28,
    31, 30, 31, 30, 31, 31, 30, 31, 30, 31]

/-- The block that holds position `o` when blocks of the given lengths follow each
other, and the position in it. -/
def blockAt : List Nat → Nat → Nat × Nat
  | [], o => (0, o)
  | n :: ns, o => if o < n then (0, o) else ((blockAt ns (o - n)).1 + 1, (blockAt ns (o - n)).2)

/-- A day: month and day of the month counted from 0. -/
structure Date where
  year : Nat
  month0 : Nat
  day0 : Nat
  deriving DecidableEq, Repr

def dateOfDay (d : Nat) : Date :=
  let place := blockAt (monthLengths (yearOfDay d)) (d - daysBeforeYear (yearOfDay d))
  ⟨yearOfDay d, place.1, place.2⟩

/-- Every 400 years have as many days. -/
theorem daysBeforeYear_era (q k : Nat) :
    daysBeforeYear (q * 400 + k) = 146097 * q + daysBeforeYear k := by
  unfold daysBeforeYear leapDaysBefore
  omega

theorem leapDaysBefore_le {k : Nat} (h : k ≤ 400) : leapDaysBefore k ≤ 97 := by
  unfold leapDaysBefore
  omega

theorem daysBeforeYear_yearOfDay_le (d : Nat) : daysBeforeYear (yearOfDay d) ≤ d := by
  simp only [yearOfDay]
  split
  · rename_i h
    have hd := Nat.div_add_mod d 146097
    have hr := Nat.mod_lt d (show 0 < 146097 by decide)
    cases hk : d % 146097 / 365 with
    | zero =>
      rw [hk, daysBeforeYear_era, show daysBeforeYear 0 = 0 from rfl] at h
      omega
    | succ k =>
      -- the year before begins at least 365 days earlier, and no era has more leap days
      have hleap := leapDaysBefore_le (show k ≤ 400 by omega)
      rw [← Nat.add_assoc, Nat.add_sub_cancel, daysBeforeYear_era, daysBeforeYear]
      omega
  · exact Nat.not_lt.mp ‹_›

theorem lt_daysBeforeYear_succ_yearOfDay (d : Nat) : d < daysBeforeYear (yearOfDay d + 1) := by
  have hd := Nat.div_add_mod d 146097
  simp only [yearOfDay]
  split
  · rename_i h
    have hpos : 1 ≤ d / 146097 * 400 + d % 146097 / 365 := by
      by_contra hzero
      rw [show d / 146097 * 400 + d % 146097 / 365 = 0 by omega] at h
      exact Nat.not_lt_zero d h
    rwa [Nat.sub_add_cancel hpos]
  · rw [Nat.add_assoc, daysBeforeYear_era, daysBeforeYear]
    omega

/-- A year adds one leap day if it is divisible by 4, not if by 100, but if by 400. -/
theorem leapDaysBefore_succ (y : Nat) :
    leapDaysBefore (y + 1) =
      leapDaysBefore y + if y % 4 = 0 ∧ (y % 100 ≠ 0 ∨ y % 400 = 0) then 1 else 0 := by
  have hfour : (y + 1 + 3) / 4 = (y + 3) / 4 + if y % 4 = 0 then 1 else 0 := by
    split <;> omega
  have hhundred : (y + 1 + 99) / 100 = (y + 99) / 100 + if y % 100 = 0 then 1 else 0 := by
    split <;> omega
  have hera : (y + 1 + 399) / 400 = (y + 399) / 400 + if y % 400 = 0 then 1 else 0 := by
    split <;> omega
  have hle : (y + 99) / 100 ≤ (y + 3) / 4 := by omega
  have hdvd : y % 400 = 0 → y % 100 = 0 := fun h => by omega
  have hdvd' : y % 100 = 0 → y % 4 = 0 := fun h => by omega
  rw [leapDaysBefore, leapDaysBefore, hfour, hhundred, hera]
  by_cases h4 : y % 4 = 0 <;> by_cases h100 : y % 100 = 0 <;> by_cases h400 : y % 400 = 0 <;>
    simp [h4, h100, h400] <;> omega

theorem daysBeforeYear_succ (y : Nat) :
    daysBeforeYear (y + 1) = daysBeforeYear y + (monthLengths y).sum := by
  have hsum : (monthLengths y).sum =
      365 + if y % 4 = 0 ∧ (y % 100 ≠ 0 ∨ y % 400 = 0) then 1 else 0 := by
    unfold monthLengths
    split <;> rfl
  rw [hsum, daysBeforeYear, daysBeforeYear, leapDaysBefore_succ]
  omega

theorem daysBeforeYear_mono {y z : Nat} (h : y ≤ z) : daysBeforeYear y ≤ daysBeforeYear z := by
  induction h with
  | refl => exact Nat.le_refl _
  | step _ ih => rw [daysBeforeYear_succ]; omega

/-- The order of days is the order of the year and the day in it. -/
theorem lt_iff_yearOfDay (d e : Nat) :
    d < e ↔ yearOfDay d < yearOfDay e ∨ yearOfDay d = yearOfDay e ∧
      d - daysBeforeYear (yearOfDay d) < e - daysBeforeYear (yearOfDay e) := by
  have hd := daysBeforeYear_yearOfDay_le d
  have he := daysBeforeYear_yearOfDay_le e
  have hd' := lt_daysBeforeYear_succ_yearOfDay d
  have he' := lt_daysBeforeYear_succ_yearOfDay e
  rcases Nat.lt_trichotomy (yearOfDay d) (yearOfDay e) with h | h | h
  · have hmono := daysBeforeYear_mono (show yearOfDay d + 1 ≤ yearOfDay e from h)
    omega
  · rw [h] at hd ⊢
    omega
  · have hmono := daysBeforeYear_mono (show yearOfDay e + 1 ≤ yearOfDay d from h)
    omega

/-- The order of positions is the order of the block and the position in it. -/
theorem lt_iff_blockAt (ns : List Nat) (o o' : Nat) :
    o < o' ↔ (blockAt ns o).1 < (blockAt ns o').1 ∨
      (blockAt ns o).1 = (blockAt ns o').1 ∧ (blockAt ns o).2 < (blockAt ns o').2 := by
  induction ns generalizing o o' with
  | nil => simp [blockAt]
  | cons n ns ih =>
    unfold blockAt
    by_cases h : o < n <;> by_cases h' : o' < n
    · simp [h, h']
    · simp [h, h']; omega
    · simp [h, h']; omega
    · have hsub : o < o' ↔ o - n < o' - n := by omega
      simp only [h, h', if_false]
      rw [hsub, ih (o - n) (o' - n)]
      omega

theorem blockAt_spec {ns : List Nat} {o : Nat} (h : o < ns.sum) :
    (blockAt ns o).1 < ns.length ∧ (blockAt ns o).2 < ns.getD (blockAt ns o).1 0 ∧
      (ns.take (blockAt ns o).1).sum + (blockAt ns o).2 = o := by
  induction ns generalizing o with
  | nil => simp at h
  | cons n ns ih =>
    unfold blockAt
    by_cases hlt : o < n
    · simp [hlt]
    · have hsum : o - n < ns.sum := by rw [List.sum_cons] at h; omega
      obtain ⟨hlen, hday, heq⟩ := ih hsum
      simp only [hlt, if_false, List.length_cons, List.getD_cons_succ, List.take_succ_cons,
        List.sum_cons]
      exact ⟨by omega, hday, by omega⟩

/-- The number of a day, the inverse of `dateOfDay`. -/
def dayOfDate (date : Date) : Nat :=
  daysBeforeYear date.year + ((monthLengths date.year).take date.month0).sum + date.day0

theorem dateOfDay_spec (d : Nat) :
    (dateOfDay d).month0 < 12 ∧
      (dateOfDay d).day0 < (monthLengths (dateOfDay d).year).getD (dateOfDay d).month0 0 ∧
      dayOfDate (dateOfDay d) = d := by
  have hle := daysBeforeYear_yearOfDay_le d
  have hlt := lt_daysBeforeYear_succ_yearOfDay d
  rw [daysBeforeYear_succ] at hlt
  have hord : d - daysBeforeYear (yearOfDay d) < (monthLengths (yearOfDay d)).sum := by omega
  obtain ⟨hmonth, hday, hsum⟩ := blockAt_spec hord
  refine ⟨hmonth, hday, ?_⟩
  simp only [dayOfDate, dateOfDay]
  omega

theorem monthLengths_getD_le (y m : Nat) : (monthLengths y).getD m 0 ≤ 31 := by
  have hall : ∀ n ∈ monthLengths y, n ≤ 31 := by
    unfold monthLengths
    split <;> simp
  rw [List.getD_eq_getElem?_getD]
  cases h : (monthLengths y)[m]? with
  | none => exact Nat.zero_le _
  | some n => exact hall n (List.mem_of_getElem? h)

theorem day0_dateOfDay_lt (d : Nat) : (dateOfDay d).day0 < 31 :=
  Nat.lt_of_lt_of_le (dateOfDay_spec d).2.1 (monthLengths_getD_le _ _)

/-! ## Writing -/

/-- The fraction of a second, with as few groups of three digits as are exact. -/
def fraction (nano : Nat) : List Char :=
  if nano = 0 then []
  else if nano % 1000000 = 0 then '.' :: padded 3 (nano / 1000000)
  else if nano % 1000 = 0 then '.' :: padded 6 (nano / 1000)
  else '.' :: padded 9 nano

/-- Years past 9999 get a sign and all their digits. -/
def writeYear (year : Nat) : List Char :=
  if year ≤ 9999 then padded 4 year else '+' :: Nat.toDigits 10 year

def writeDate (date : Date) : List Char :=
  writeYear date.year ++ '-' :: (padded 2 (date.month0 + 1) ++ '-' :: padded 2 (date.day0 + 1))

/-- Hours, minutes and seconds of a second of the day. -/
def writeTime (secs : Nat) : List Char :=
  padded 2 (secs / 3600) ++ ':' :: (padded 2 (secs / 60 % 60) ++ ':' :: padded 2 (secs % 60))

/-- The offset of UTC. -/
def utcOffset : List Char := ['+', '0', '0', ':', '0', '0']

/-- `to_rfc3339` of an instant in UTC. -/
def toRfc3339 (t : Nat) : List Char :=
  writeDate (dateOfDay (t / second / 86400)) ++
    'T' :: (writeTime (t / second % 86400) ++ (fraction (t % second) ++ utcOffset))

/-- The instants of the years 0000 to 9999. -/
def FourDigitYear (t : Nat) : Prop := yearOfDay (t / second / 86400) ≤ 9999

instance (t : Nat) : Decidable (FourDigitYear t) := inferInstanceAs (Decidable (_ ≤ _))

/-! ## The order of the texts -/

/-- A rendering of fixed length that keeps the order decides before what follows. -/
theorem rendered_append_lt_iff {f : Nat → List Char} {n m : Nat}
    (hlen : (f n).length = (f m).length) (hlt : f n < f m ↔ n < m) (hgt : f m < f n ↔ m < n)
    (x y : List Char) : f n ++ x < f m ++ y ↔ n < m ∨ n = m ∧ x < y := by
  rw [append_lt_append_iff hlen, hlt]
  refine lex_congr Iff.rfl ⟨fun h => ?_, fun h => by rw [h]⟩ fun _ => Iff.rfl
  have hirrefl := List.lt_irrefl (f m)
  rcases Nat.lt_trichotomy n m with hnm | hnm | hnm
  · rw [← hlt, h] at hnm
    exact absurd hnm hirrefl
  · exact hnm
  · rw [← hgt, h] at hnm
    exact absurd hnm hirrefl

theorem writeYear_dateOfDay {d : Nat} (hd : yearOfDay d ≤ 9999) :
    writeYear (dateOfDay d).year = padded 4 (yearOfDay d) :=
  if_pos hd

theorem writeDate_lt_iff {d e : Nat} (hd : yearOfDay d ≤ 9999) (he : yearOfDay e ≤ 9999) :
    writeDate (dateOfDay d) < writeDate (dateOfDay e) ↔ d < e := by
  have hmonth : ∀ n, (dateOfDay n).month0 + 1 < 10 ^ 2 := fun n => by
    have := (dateOfDay_spec n).1
    omega
  have hday : ∀ n, (dateOfDay n).day0 + 1 < 10 ^ 2 := fun n => by
    have := day0_dateOfDay_lt n
    omega
  rw [writeDate, writeDate, writeYear_dateOfDay hd, writeYear_dateOfDay he,
    padded_append_lt_iff (by omega) (by omega), List.cons_lt_cons_self,
    padded_append_lt_iff (hmonth d) (hmonth e), List.cons_lt_cons_self,
    padded_lt_iff (hday d) (hday e), lt_iff_yearOfDay d e]
  refine lex_congr Iff.rfl Iff.rfl fun hyear => ?_
  rw [lt_iff_blockAt (monthLengths (yearOfDay d)) (d - _)]
  simp only [dateOfDay, ← hyear, Nat.add_lt_add_iff_right, Nat.add_right_cancel_iff]

theorem writeTime_lt_iff {a b : Nat} (ha : a < 86400) (hb : b < 86400) :
    writeTime a < writeTime b ↔ a < b := by
  rw [writeTime, writeTime, padded_append_lt_iff (by omega) (by omega), List.cons_lt_cons_self,
    padded_append_lt_iff (by omega) (by omega), List.cons_lt_cons_self,
    padded_lt_iff (by omega) (by omega), lt_iff_div_mod 3600 a b]
  refine lex_congr Iff.rfl Iff.rfl fun _ => ?_
  have hminute : ∀ n, n % 3600 / 60 = n / 60 % 60 := fun n => Nat.mod_mul_right_div_self n 60 60
  have hsecond : ∀ n, n % 3600 % 60 = n % 60 := fun n => Nat.mod_mul_right_mod n 60 60
  rw [lt_iff_div_mod 60 (a % 3600) (b % 3600), hminute, hminute, hsecond, hsecond]

theorem length_writeDate {d : Nat} (hd : yearOfDay d ≤ 9999) :
    (writeDate (dateOfDay d)).length = 10 := by
  simp [writeDate, writeYear_dateOfDay hd]

theorem length_writeTime (a : Nat) : (writeTime a).length = 8 := by
  simp [writeTime]

/-- What follows the point: groups of three digits up to the last one that is not zero,
then the offset. -/
def groups : Nat → Nat → List Char
  | 0, _ => utcOffset
  | k + 1, n => if n = 0 then utcOffset else padded 3 (n / 1000 ^ k) ++ groups k (n % 1000 ^ k)

theorem padded_succ_eq_cons (k n : Nat) :
    padded (k + 1) n = Nat.digitChar (n / 10 ^ k % 10) :: padded k (n % 10 ^ k) := by
  rw [Nat.add_comm, padded_add]
  rfl

/-- The sign of the offset is below every digit. -/
theorem plus_lt_digitChar {d : Nat} (hd : d < 10) : '+' < Nat.digitChar d := by
  have h : ∀ d : Fin 10, '+' < Nat.digitChar d := by decide
  exact h ⟨d, hd⟩

theorem utcOffset_lt_padded (k n : Nat) (x : List Char) :
    utcOffset < padded (k + 1) n ++ x ∧ ¬ padded (k + 1) n ++ x < utcOffset := by
  have hlt : utcOffset < padded (k + 1) n ++ x := by
    rw [padded_succ_eq_cons, List.cons_append, utcOffset, List.cons_lt_cons_iff]
    exact Or.inl (plus_lt_digitChar (Nat.mod_lt _ (by decide)))
  exact ⟨hlt, fun h => List.lt_asymm hlt h⟩

theorem groups_lt_iff {k n m : Nat} (hn : n < 1000 ^ k) (hm : m < 1000 ^ k) :
    groups k n < groups k m ↔ n < m := by
  induction k generalizing n m with
  | zero =>
    have hirrefl := List.lt_irrefl utcOffset
    simp only [Nat.pow_zero] at hn hm
    simp only [groups, hirrefl, false_iff]
    omega
  | succ k ih =>
    have hpos : 0 < 1000 ^ k := Nat.pow_pos (by decide)
    by_cases hn0 : n = 0 <;> by_cases hm0 : m = 0
    · have hirrefl := List.lt_irrefl utcOffset
      simp only [groups, hn0, hm0, if_true, hirrefl, Nat.lt_irrefl]
    · -- the shorter fraction ends here, and its sign is below the digits of the other
      have hlt := (utcOffset_lt_padded 2 (m / 1000 ^ k) (groups k (m % 1000 ^ k))).1
      simp only [groups, hn0, hm0, if_true, if_false, hlt, true_iff]
      omega
    · have hlt := (utcOffset_lt_padded 2 (n / 1000 ^ k) (groups k (n % 1000 ^ k))).2
      simp only [groups, hn0, hm0, if_true, if_false, hlt, false_iff]
      omega
    · have hn' : n / 1000 ^ k < 10 ^ 3 := Nat.div_lt_of_lt_mul (by rwa [Nat.pow_succ] at hn)
      have hm' : m / 1000 ^ k < 10 ^ 3 := Nat.div_lt_of_lt_mul (by rwa [Nat.pow_succ] at hm)
      simp only [groups, hn0, hm0, if_false]
      rw [padded_append_lt_iff hn' hm', lt_iff_div_mod (1000 ^ k) n m,
        ih (Nat.mod_lt _ hpos) (Nat.mod_lt _ hpos)]

theorem fraction_append_utcOffset {nano : Nat} (h : nano ≠ 0) :
    fraction nano ++ utcOffset = '.' :: groups 3 nano := by
  have hdiv : nano / 1000 / 1000 = nano / 1000000 := Nat.div_div_eq_div_mul _ _ _
  have hmid : nano % 1000000 / 1000 = nano / 1000 % 1000 := by omega
  have hlow : nano % 1000000 % 1000 = nano % 1000 := by omega
  have hsix : padded 6 (nano / 1000) =
      padded 3 (nano / 1000000) ++ padded 3 (nano / 1000 % 1000) := by
    rw [show (6 : Nat) = 3 + 3 from rfl, padded_add, ← hdiv]
    rfl
  have hnine : padded 9 nano =
      padded 3 (nano / 1000000) ++ (padded 3 (nano / 1000 % 1000) ++ padded 3 (nano % 1000)) := by
    rw [show (9 : Nat) = 6 + 3 from rfl, padded_add, ← List.append_assoc, ← hsix]
    rfl
  by_cases h6 : nano % 1000000 = 0
  · simp [fraction, groups, h, h6]
  · by_cases h3 : nano % 1000 = 0
    · simp [fraction, groups, h, h6, h3, hsix, hmid, hlow]
    · simp [fraction, groups, h, h6, h3, hnine, hmid, hlow]

theorem fraction_lt_iff {n m : Nat} (hn : n < second) (hm : m < second) :
    fraction n ++ utcOffset < fraction m ++ utcOffset ↔ n < m := by
  by_cases hn0 : n = 0 <;> by_cases hm0 : m = 0
  · rw [hn0, hm0]
    exact ⟨fun h => absurd h (List.lt_irrefl _), fun h => absurd h (Nat.lt_irrefl _)⟩
  · rw [fraction_append_utcOffset hm0, hn0]
    refine iff_of_true ?_ (Nat.pos_of_ne_zero hm0)
    simp [fraction, utcOffset, List.cons_lt_cons_iff]
  · rw [fraction_append_utcOffset hn0, hm0]
    refine iff_of_false ?_ (Nat.not_lt_zero n)
    simp [fraction, utcOffset, List.cons_lt_cons_iff]
  · rw [fraction_append_utcOffset hn0, fraction_append_utcOffset hm0, List.cons_lt_cons_self,
      groups_lt_iff hn hm]

/-- **The texts sort like the instants.** -/
theorem toRfc3339_lt_iff {t u : Nat} (ht : FourDigitYear t) (hu : FourDigitYear u) :
    toRfc3339 t < toRfc3339 u ↔ t < u := by
  have hsec : ∀ n, n / second % 86400 < 86400 := fun n => Nat.mod_lt _ (by decide)
  have hnano : ∀ n, n % second < second := fun n => Nat.mod_lt _ (by decide)
  rw [toRfc3339, toRfc3339,
    rendered_append_lt_iff (f := fun d => writeDate (dateOfDay d))
      ((length_writeDate ht).trans (length_writeDate hu).symm)
      (writeDate_lt_iff ht hu) (writeDate_lt_iff hu ht),
    List.cons_lt_cons_self,
    rendered_append_lt_iff ((length_writeTime _).trans (length_writeTime _).symm)
      (writeTime_lt_iff (hsec t) (hsec u)) (writeTime_lt_iff (hsec u) (hsec t)),
    fraction_lt_iff (hnano t) (hnano u), lt_iff_div_mod second t u,
    lt_iff_div_mod 86400 (t / second), eq_iff_div_mod 86400 (t / second)]
  tauto

/-! ### Bytes -/

/-- Text of ASCII characters only. -/
def Ascii (s : List Char) : Prop := ∀ c ∈ s, c.toNat ≤ 127

theorem Ascii.cons {c : Char} {s : List Char} (hc : c.toNat ≤ 127) (hs : Ascii s) :
    Ascii (c :: s) := by
  intro d hd
  rcases List.mem_cons.mp hd with rfl | hd
  · exact hc
  · exact hs d hd

theorem Ascii.append {s t : List Char} (hs : Ascii s) (ht : Ascii t) : Ascii (s ++ t) := by
  intro c hc
  rcases List.mem_append.mp hc with hc | hc
  · exact hs c hc
  · exact ht c hc

/-- A character of ASCII is one byte. -/
theorem utf8EncodeChar_ascii {c : Char} (h : c.toNat ≤ 127) :
    String.utf8EncodeChar c = [UInt8.ofNat c.toNat] := by
  simp [String.utf8EncodeChar, h]

theorem toNat_ofNat_ascii {c : Char} (h : c.toNat ≤ 127) :
    (UInt8.ofNat c.toNat).toNat = c.toNat :=
  UInt8.toNat_ofNat_of_lt' (Nat.lt_of_le_of_lt h (by decide))

/-- On ASCII the order of the bytes is the order of the characters. -/
theorem utf8_lt_iff {s t : List Char} (hs : Ascii s) (ht : Ascii t) :
    utf8 s < utf8 t ↔ s < t := by
  induction s generalizing t with
  | nil =>
    cases t with
    | nil => simp
    | cons d t => simp [utf8, utf8EncodeChar_ascii (ht d (by simp))]
  | cons c s ih =>
    cases t with
    | nil => simp [utf8]
    | cons d t =>
      have hc := hs c List.mem_cons_self
      have hd := ht d List.mem_cons_self
      have hrest := ih (t := t) (fun a h => hs a (List.mem_cons_of_mem _ h))
        (fun a h => ht a (List.mem_cons_of_mem _ h))
      have hlt : UInt8.ofNat c.toNat < UInt8.ofNat d.toNat ↔ c < d := by
        rw [UInt8.lt_iff_toNat_lt, toNat_ofNat_ascii hc, toNat_ofNat_ascii hd]
        exact UInt32.lt_iff_toNat_lt.symm
      have heq : UInt8.ofNat c.toNat = UInt8.ofNat d.toNat ↔ c = d := by
        rw [← UInt8.toNat_inj, toNat_ofNat_ascii hc, toNat_ofNat_ascii hd]
        exact Char.toNat_inj
      rw [utf8, utf8, List.flatMap_cons, List.flatMap_cons, utf8EncodeChar_ascii hc,
        utf8EncodeChar_ascii hd, List.singleton_append, List.singleton_append,
        List.cons_lt_cons_iff, List.cons_lt_cons_iff, ← utf8, ← utf8, hrest, hlt, heq]

theorem toNat_digitChar {d : Nat} (hd : d < 10) : (Nat.digitChar d).toNat = 48 + d := by
  have h : ∀ d : Fin 10, (Nat.digitChar d).toNat = 48 + d := by decide
  exact h ⟨d, hd⟩

theorem exists_digit_of_mem_padded {k n : Nat} {c : Char} (h : c ∈ padded k n) :
    ∃ d < 10, c = Nat.digitChar d := by
  induction k generalizing n with
  | zero => cases h
  | succ k ih =>
    rcases List.mem_append.mp h with h | h
    · exact ih h
    · exact ⟨n % 10, Nat.mod_lt _ (by decide), List.mem_singleton.mp h⟩

theorem ascii_padded (k n : Nat) : Ascii (padded k n) := by
  intro c hc
  obtain ⟨d, hd, rfl⟩ := exists_digit_of_mem_padded hc
  rw [toNat_digitChar hd]
  omega

theorem ascii_fraction (nano : Nat) : Ascii (fraction nano) := by
  unfold fraction
  by_cases h : nano = 0
  · rw [if_pos h]
    intro c hc
    cases hc
  · rw [if_neg h]
    split
    · exact (ascii_padded _ _).cons (by decide)
    · split <;> exact (ascii_padded _ _).cons (by decide)

theorem ascii_utcOffset : Ascii utcOffset := by
  simp [Ascii, utcOffset]

theorem ascii_toRfc3339 {t : Nat} (ht : FourDigitYear t) : Ascii (toRfc3339 t) := by
  have hdate : Ascii (writeDate (dateOfDay (t / second / 86400))) := by
    rw [writeDate, writeYear_dateOfDay ht]
    exact (ascii_padded _ _).append
      (((ascii_padded _ _).append ((ascii_padded _ _).cons (by decide))).cons (by decide))
  have htime : Ascii (writeTime (t / second % 86400)) :=
    (ascii_padded _ _).append
      (((ascii_padded _ _).append ((ascii_padded _ _).cons (by decide))).cons (by decide))
  exact hdate.append
    ((htime.append ((ascii_fraction _).append ascii_utcOffset)).cons (by decide))

/-- **The bytes of the texts sort like the instants.** -/
theorem utf8_toRfc3339_lt_iff {t u : Nat} (ht : FourDigitYear t) (hu : FourDigitYear u) :
    utf8 (toRfc3339 t) < utf8 (toRfc3339 u) ↔ t < u := by
  rw [utf8_lt_iff (ascii_toRfc3339 ht) (ascii_toRfc3339 hu), toRfc3339_lt_iff ht hu]

/-! ## Reading -/

/-- Exactly `k` digits, and what follows them. -/
def scanNumber (k : Nat) (s : List Char) : Option (Nat × List Char) :=
  if k ≤ s.length ∧ (s.take k).all Char.isDigit then some (digitsValue (s.take k), s.drop k)
  else none

/-- `.` and at least one digit, of which nine count; nothing without the point. -/
def scanFraction : List Char → Option (Nat × List Char)
  | '.' :: s =>
      let ds := s.takeWhile Char.isDigit
      if ds.isEmpty then none
      else some (digitsValue (ds.take 9) * 10 ^ (9 - (ds.take 9).length), s.dropWhile Char.isDigit)
  | s => some (0, s)

/-- The offset in seconds: `Z`, or a sign, hours below 24 and minutes below 60. -/
def scanOffset : List Char → Option (Int × List Char)
  | [] => none
  | sign :: s =>
      if sign = 'Z' ∨ sign = 'z' then some (0, s)
      else if sign = '+' ∨ sign = '-' ∨ sign = '\u2212' then do
        let (hours, s) ← scanNumber 2 s
        let s ← scanChar [':'] s
        let (minutes, s) ← scanNumber 2 s
        if hours < 24 ∧ minutes < 60 then
          let seconds : Int := hours * 3600 + minutes * 60
          some (if sign = '+' then seconds else -seconds, s)
        else none
      else none

/-- The instant of a date and a time of day east of Greenwich by `offset` seconds, if they
exist and do not lie before the year 0.  A second 60 is refused here, which `chrono` takes for a
leap second. -/
def instantOf (year month day hour minute sec nano : Nat) (offset : Int) : Option Nat :=
  if 1 ≤ month ∧ month ≤ 12 ∧ 1 ≤ day ∧ day ≤ (monthLengths year).getD (month - 1) 0 ∧
      hour < 24 ∧ minute < 60 ∧ sec < 60 then
    let secs : Int :=
      dayOfDate ⟨year, month - 1, day - 1⟩ * 86400 + hour * 3600 + minute * 60 + sec - offset
    if 0 ≤ secs then some (secs.toNat * second + nano) else none
  else none

/-- `DateTime::parse_from_rfc3339`, as an instant. -/
def parseFromRfc3339 (s : List Char) : Option Nat := do
  let (year, s) ← scanNumber 4 s
  let s ← scanChar ['-'] s
  let (month, s) ← scanNumber 2 s
  let s ← scanChar ['-'] s
  let (day, s) ← scanNumber 2 s
  let s ← scanChar ['T', 't', ' '] s
  let (hour, s) ← scanNumber 2 s
  let s ← scanChar [':'] s
  let (minute, s) ← scanNumber 2 s
  let s ← scanChar [':'] s
  let (sec, s) ← scanNumber 2 s
  let (nano, s) ← scanFraction s
  let (offset, s) ← scanOffset s
  if s.isEmpty then instantOf year month day hour minute sec nano offset else none

theorem isDigit_of_mem_padded {k n : Nat} {c : Char} (h : c ∈ padded k n) : c.isDigit := by
  obtain ⟨d, hd, rfl⟩ := exists_digit_of_mem_padded h
  have hall : ∀ d : Fin 10, (Nat.digitChar d).isDigit := by decide
  exact hall ⟨d, hd⟩

theorem digitsValue_padded {k n : Nat} (hn : n < 10 ^ k) : digitsValue (padded k n) = n := by
  induction k generalizing n with
  | zero => simp at hn; simp [padded, digitsValue, hn]
  | succ k ih =>
    have hn' : n / 10 < 10 ^ k := by rw [Nat.pow_succ] at hn; omega
    have hlead : (padded k (n / 10)).foldl (fun n c => 10 * n + (c.toNat - 48)) 0 = n / 10 := ih hn'
    rw [digitsValue, padded, List.foldl_append, hlead, List.foldl_cons, List.foldl_nil,
      toNat_digitChar (Nat.mod_lt _ (by decide))]
    omega

/-- A sign is no digit. -/
theorem scanNumber_sign (k : Nat) (s : List Char) : scanNumber (k + 1) ('+' :: s) = none := by
  simp [scanNumber, List.take_succ_cons]

theorem scanNumber_padded {k n : Nat} (hn : n < 10 ^ k) (rest : List Char) :
    scanNumber k (padded k n ++ rest) = some (n, rest) := by
  have htake : (padded k n ++ rest).take k = padded k n := List.take_left' (length_padded k n)
  have hdrop : (padded k n ++ rest).drop k = rest := List.drop_left' (length_padded k n)
  have hdigits : (padded k n).all Char.isDigit :=
    List.all_eq_true.mpr fun _ => isDigit_of_mem_padded
  rw [scanNumber, htake, hdrop, digitsValue_padded hn, if_pos ⟨by simp, hdigits⟩]

theorem scanFraction_padded {k n : Nat} (hk : k + 1 ≤ 9) (hn : n < 10 ^ (k + 1)) :
    scanFraction ('.' :: (padded (k + 1) n ++ utcOffset)) =
      some (n * 10 ^ (9 - (k + 1)), utcOffset) := by
  have hdigits : ∀ c ∈ padded (k + 1) n, c.isDigit := fun _ => isDigit_of_mem_padded
  have htake : (padded (k + 1) n ++ utcOffset).takeWhile Char.isDigit = padded (k + 1) n := by
    rw [List.takeWhile_append_of_pos hdigits]
    simp [utcOffset]
  have hdrop : (padded (k + 1) n ++ utcOffset).dropWhile Char.isDigit = utcOffset := by
    rw [List.dropWhile_append_of_pos hdigits]
    simp [utcOffset]
  have hnine : (padded (k + 1) n).take 9 = padded (k + 1) n :=
    List.take_of_length_le (by rwa [length_padded])
  have hne : (padded (k + 1) n).isEmpty = false := by
    rw [padded_succ_eq_cons]
    rfl
  simp only [scanFraction, htake, hdrop, hnine, hne, digitsValue_padded hn, length_padded]
  rfl

theorem scanFraction_fraction {nano : Nat} (h : nano < second) :
    scanFraction (fraction nano ++ utcOffset) = some (nano, utcOffset) := by
  have hlt : nano < 1000000000 := h
  unfold fraction
  by_cases h0 : nano = 0
  · rw [if_pos h0, h0]
    rfl
  · rw [if_neg h0]
    by_cases h6 : nano % 1000000 = 0
    · rw [if_pos h6, List.cons_append, scanFraction_padded (by decide) (by omega)]
      exact congrArg (fun n => some (n, utcOffset)) (Nat.div_mul_cancel (Nat.dvd_of_mod_eq_zero h6))
    · rw [if_neg h6]
      by_cases h3 : nano % 1000 = 0
      · rw [if_pos h3, List.cons_append, scanFraction_padded (by decide) (by omega)]
        exact congrArg (fun n => some (n, utcOffset))
          (Nat.div_mul_cancel (Nat.dvd_of_mod_eq_zero h3))
      · rw [if_neg h3, List.cons_append, scanFraction_padded (by decide) (by omega)]
        exact congrArg (fun n => some (n, utcOffset)) (Nat.mul_one nano)

theorem scanOffset_utcOffset : scanOffset utcOffset = some (0, []) := by decide

theorem instantOf_fields (t : Nat) :
    instantOf (dateOfDay (t / second / 86400)).year ((dateOfDay (t / second / 86400)).month0 + 1)
      ((dateOfDay (t / second / 86400)).day0 + 1) (t / second % 86400 / 3600)
      (t / second % 86400 / 60 % 60) (t / second % 86400 % 60) (t % second) 0 = some t := by
  obtain ⟨hmonth, hday, hdate⟩ := dateOfDay_spec (t / second / 86400)
  have hvalid : 1 ≤ (dateOfDay (t / second / 86400)).month0 + 1 ∧
      (dateOfDay (t / second / 86400)).month0 + 1 ≤ 12 ∧
      1 ≤ (dateOfDay (t / second / 86400)).day0 + 1 ∧
      (dateOfDay (t / second / 86400)).day0 + 1 ≤
        (monthLengths (dateOfDay (t / second / 86400)).year).getD
          ((dateOfDay (t / second / 86400)).month0 + 1 - 1) 0 ∧
      t / second % 86400 / 3600 < 24 ∧ t / second % 86400 / 60 % 60 < 60 ∧
      t / second % 86400 % 60 < 60 :=
    ⟨by omega, by omega, by omega, hday, by omega, by omega, by omega⟩
  rw [instantOf, if_pos hvalid]
  simp only [Nat.add_sub_cancel, hdate]
  have hsecs : (t / second / 86400 : Nat) * 86400 + (t / second % 86400 / 3600 : Nat) * 3600 +
      (t / second % 86400 / 60 % 60 : Nat) * 60 + (t / second % 86400 % 60 : Nat) - (0 : Int) =
      ((t / second : Nat) : Int) := by
    omega
  rw [hsecs, if_pos (Int.natCast_nonneg _), Int.toNat_natCast, Nat.mul_comm,
    Nat.div_add_mod]

/-- **What was written reads back**, and a year of more than four digits does not. -/
theorem parseFromRfc3339_toRfc3339 (t : Nat) :
    parseFromRfc3339 (toRfc3339 t) = if FourDigitYear t then some t else none := by
  by_cases ht : FourDigitYear t
  · have hyear : yearOfDay (t / second / 86400) < 10 ^ 4 := Nat.lt_succ_of_le ht
    have hmonth : (dateOfDay (t / second / 86400)).month0 + 1 < 10 ^ 2 := by
      have := (dateOfDay_spec (t / second / 86400)).1
      omega
    have hday : (dateOfDay (t / second / 86400)).day0 + 1 < 10 ^ 2 := by
      have := day0_dateOfDay_lt (t / second / 86400)
      omega
    have hhour : t / second % 86400 / 3600 < 10 ^ 2 := by omega
    have hminute : t / second % 86400 / 60 % 60 < 10 ^ 2 := by omega
    have hsec : t / second % 86400 % 60 < 10 ^ 2 := by omega
    have hnano : t % second < second := Nat.mod_lt _ (by decide)
    rw [if_pos ht, ← instantOf_fields t, parseFromRfc3339, toRfc3339, writeDate,
      writeYear_dateOfDay ht, writeTime]
    simp only [List.append_assoc, List.cons_append, Option.bind_eq_bind, Option.bind_some, scanChar,
      List.mem_cons, true_or, if_true, scanNumber_padded hyear, scanNumber_padded hmonth,
      scanNumber_padded hday, scanNumber_padded hhour, scanNumber_padded hminute,
      scanNumber_padded hsec, scanFraction_fraction hnano, scanOffset_utcOffset]
    rfl
  · have hsign : writeYear (dateOfDay (t / second / 86400)).year =
        '+' :: Nat.toDigits 10 (yearOfDay (t / second / 86400)) := if_neg ht
    rw [if_neg ht, parseFromRfc3339, toRfc3339, writeDate, hsign, List.cons_append,
      List.cons_append, scanNumber_sign]
    rfl

end Rfc3339
