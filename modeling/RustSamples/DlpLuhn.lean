import Mathlib.Data.ZMod.Basic
import RustSamples.CheckSum
import RustSamples.DlpAnalyzer

/-! # The Luhn check

`validate_luhn` skips what is no ASCII digit, doubles every second digit from the right, and asks
for a sum that 10 divides.  It is a check sum modulo 10, over the digits from the last one on.

Both ways to count a digit are permutations modulo 10, so that no digit can be replaced
(`luhn_detects_substitution`) and there is always one that can be appended.  Counting a digit
twice adds to it 0, 1, 2, 3, 4, 6, 7, 8, 9 and 0: the same for 0 and 9, and for no other two
(`luhn_detects_transposition`).
-/
namespace RustSamples.DlpAnalyzer
open CheckSum

/-! ## The check as a check sum -/

/-- The digits of a card number. -/
def asciiDigits (cardNumber : List Char) : List Char := cardNumber.filter isAsciiDigit

/-- What a digit is worth `idx` places from the right. -/
def luhnWorth (idx : Nat) (c : Char) : ZMod 10 := (luhnSummand idx (c.toNat - 48) : Nat)

/-- The check sum of digits, the last one first. -/
def luhnSum (digits : List Char) : ZMod 10 := sumFrom luhnWorth 0 digits.reverse

theorem validateLuhn_iff (cardNumber : List Char) :
    validateLuhn cardNumber = true ↔
      (13 ≤ (asciiDigits cardNumber).length ∧ (asciiDigits cardNumber).length ≤ 19) ∧
        luhnSum (asciiDigits cardNumber) = 0 := by
  have hsum : ((((asciiDigits cardNumber).map fun c => c.toNat - 48).reverse.zipIdx.map
      fun p => luhnSummand p.2 p.1).sum : ZMod 10) = luhnSum (asciiDigits cardNumber) := by
    rw [sum_map_zipIdx, ← List.map_reverse, sumFrom_map]
    exact map_sumFrom _ 0 (Nat.castAddMonoidHom (ZMod 10)) _
  rw [← hsum, ZMod.natCast_eq_zero_iff, Nat.dvd_iff_mod_eq_zero]
  simp only [validateLuhn, asciiDigits, List.length_map]
  split_ifs with hlen
  · simp at hlen ⊢
    omega
  · simp at hlen ⊢
    omega

theorem asciiDigits_append (x y : List Char) :
    asciiDigits (x ++ y) = asciiDigits x ++ asciiDigits y := List.filter_append x y

theorem asciiDigits_cons {c : Char} (hc : isAsciiDigit c = true) (y : List Char) :
    asciiDigits (c :: y) = c :: asciiDigits y := List.filter_cons_of_pos hc

theorem asciiDigits_eq_nil {sep : List Char} (hsep : ∀ c ∈ sep, isAsciiDigit c = false) :
    asciiDigits sep = [] :=
  List.filter_eq_nil_iff.2 fun c hc => by simp [hsep c hc]

/-! ## What a digit is worth -/

/-- The character of a digit. -/
def digitChar (d : Fin 10) : Char := Nat.digitChar d

theorem digitChar_injective : Function.Injective digitChar := by decide

theorem isAsciiDigit_digitChar (d : Fin 10) : isAsciiDigit (digitChar d) = true := by
  revert d
  decide

/-- The ASCII digits are these ten. -/
theorem exists_digitChar {c : Char} (hc : isAsciiDigit c = true) : ∃ d, digitChar d = c := by
  have hrange : 48 ≤ c.toNat ∧ c.toNat ≤ 57 := by simpa [isAsciiDigit] using hc
  have hchar : ∀ d : Fin 10, digitChar d = Char.ofNat (48 + d) := by decide
  refine ⟨⟨c.toNat - 48, by omega⟩, ?_⟩
  rw [hchar, Nat.add_sub_cancel' hrange.1, Char.ofNat_toNat]

theorem luhnWorth_digitChar (idx : Nat) (d : Fin 10) :
    luhnWorth idx (digitChar d) = (luhnSummand idx d : Nat) := by
  have hvalue : ∀ d : Fin 10, (digitChar d).toNat - 48 = d := by decide
  rw [luhnWorth, hvalue]

/-- A digit is worth itself at an even place, and what its double is worth at an odd one. -/
theorem luhnSummand_eq (idx digit : Nat) :
    luhnSummand idx digit = if idx % 2 = 0 then digit else luhnSummand 1 digit := by
  unfold luhnSummand
  split_ifs <;> omega

/-- Both ways to count are permutations of the digits modulo 10. -/
theorem bijective_luhnSummand (idx : Nat) :
    Function.Bijective fun d : Fin 10 => ((luhnSummand idx d : Nat) : ZMod 10) := by
  simp only [luhnSummand_eq idx]
  split_ifs
  · decide
  · decide

/-- Only 0 and 9 gain the same by being doubled. -/
theorem exchange_digits_iff (idx : Nat) (d e : Fin 10) :
    ((luhnSummand idx d : Nat) : ZMod 10) + (luhnSummand (idx + 1) e : Nat) =
        (luhnSummand idx e : Nat) + (luhnSummand (idx + 1) d : Nat) ↔
      d = e ∨ (d = 0 ∧ e = 9) ∨ (d = 9 ∧ e = 0) := by
  simp only [luhnSummand_eq idx, luhnSummand_eq (idx + 1)]
  rcases Nat.mod_two_eq_zero_or_one idx with hidx | hidx
  · have hnext : (idx + 1) % 2 = 1 := by omega
    simp only [hidx, hnext]
    revert d e
    decide
  · have hnext : (idx + 1) % 2 = 0 := by omega
    simp only [hidx, hnext]
    revert d e
    decide

/-- No two digits are worth the same at a place. -/
theorem luhnWorth_eq_iff {c c' : Char} (hc : isAsciiDigit c = true) (hc' : isAsciiDigit c' = true)
    (idx : Nat) : luhnWorth idx c = luhnWorth idx c' ↔ c = c' := by
  obtain ⟨d, rfl⟩ := exists_digitChar hc
  obtain ⟨d', rfl⟩ := exists_digitChar hc'
  rw [luhnWorth_digitChar, luhnWorth_digitChar, digitChar_injective.eq_iff]
  exact (bijective_luhnSummand idx).injective.eq_iff

/-- Every worth is that of exactly one digit. -/
theorem existsUnique_luhnWorth (idx : Nat) (t : ZMod 10) :
    ∃! c, isAsciiDigit c = true ∧ luhnWorth idx c = t := by
  obtain ⟨d, hd⟩ := (bijective_luhnSummand idx).surjective t
  refine ⟨digitChar d, ⟨isAsciiDigit_digitChar d, (luhnWorth_digitChar idx d).trans hd⟩, ?_⟩
  rintro c ⟨hc, hworth⟩
  rw [← luhnWorth_eq_iff hc (isAsciiDigit_digitChar d) idx, hworth, luhnWorth_digitChar]
  exact hd.symm

/-- Neighbours that can be exchanged. -/
theorem exchange_iff {a b : Char} (ha : isAsciiDigit a = true) (hb : isAsciiDigit b = true)
    (hne : a ≠ b) (idx : Nat) :
    luhnWorth idx a + luhnWorth (idx + 1) b = luhnWorth idx b + luhnWorth (idx + 1) a ↔
      ({a, b} : Set Char) = {'0', '9'} := by
  obtain ⟨d, rfl⟩ := exists_digitChar ha
  obtain ⟨e, rfl⟩ := exists_digitChar hb
  have hpair : ∀ d e : Fin 10, (d = 0 ∧ e = 9) ∨ (d = 9 ∧ e = 0) ↔
      (digitChar d = '0' ∧ digitChar e = '9') ∨ (digitChar d = '9' ∧ digitChar e = '0') := by
    decide
  simp only [luhnWorth_digitChar]
  rw [exchange_digits_iff, Set.pair_eq_pair_iff, ← hpair]
  exact or_iff_right (digitChar_injective.ne_iff.1 hne)

/-! ## Wrong digits -/

/-- **No wrong digit passes.**  Of an accepted string, with any digit replaced by another one, the
check accepts nothing, whatever stands between the digits; and for 12 to 18 digits there is
exactly one check digit. -/
theorem luhn_detects_substitution :
    (∀ x y c c', isAsciiDigit c = true → isAsciiDigit c' = true → c ≠ c' →
      validateLuhn (x ++ c :: y) = true → validateLuhn (x ++ c' :: y) = false) ∧
    ∀ s, 12 ≤ (asciiDigits s).length → (asciiDigits s).length ≤ 18 →
      ∃! c, isAsciiDigit c = true ∧ validateLuhn (s ++ [c]) = true := by
  constructor
  · intro x y c c' hc hc' hne haccepts
    obtain ⟨_, hzero⟩ := (validateLuhn_iff _).1 haccepts
    refine Bool.eq_false_iff.2 fun haccepts' => hne ?_
    obtain ⟨_, hzero'⟩ := (validateLuhn_iff _).1 haccepts'
    -- the two sums are the same, so that both digits are worth the same at their place
    have hsame := hzero.trans hzero'.symm
    rw [asciiDigits_append, asciiDigits_append, asciiDigits_cons hc, asciiDigits_cons hc'] at hsame
    simp only [luhnSum, List.reverse_append, List.reverse_cons, List.append_assoc,
      List.singleton_append] at hsame
    exact (luhnWorth_eq_iff hc hc' _).1 ((sumFrom_replace_iff _ _ _ _ _).1 hsame)
  · intro s hmin hmax
    have hcheck : ∀ c, isAsciiDigit c = true ∧ validateLuhn (s ++ [c]) = true ↔
        isAsciiDigit c = true ∧ sumFrom luhnWorth 0 (c :: (asciiDigits s).reverse) = 0 := by
      refine fun c => and_congr_right fun hc => ?_
      have hdigits : asciiDigits (s ++ [c]) = asciiDigits s ++ [c] := by
        rw [asciiDigits_append, asciiDigits_cons hc]
        rfl
      rw [validateLuhn_iff, hdigits, luhnSum, List.reverse_append, List.length_append]
      exact and_iff_right ⟨Nat.succ_le_succ hmin, Nat.succ_le_succ hmax⟩
    simp only [hcheck]
    exact existsUnique_cons (existsUnique_luhnWorth 0) _

/-- A card number with one digit wrong, and the check digit of its first fifteen. -/
theorem wrong_last_digit_rejected :
    validateLuhn "4539 1488 0343 6467".toList = true ∧
      validateLuhn "4539 1488 0343 6461".toList = false ∧
      ∃! c, isAsciiDigit c = true ∧ validateLuhn ("4539 1488 0343 646".toList ++ [c]) = true := by
  have haccepts : validateLuhn ("4539 1488 0343 646".toList ++ ['7']) = true := by decide
  refine ⟨haccepts, ?_, ?_⟩
  · exact luhn_detects_substitution.1 "4539 1488 0343 646".toList [] '7' '1' (by decide)
      (by decide) (by decide) haccepts
  · exact luhn_detects_substitution.2 _ (by decide) (by decide)

/-- **Neighbours exchanged.**  Of an accepted string, with two different neighbouring digits
exchanged, what the check accepts is 09 for 90 and 90 for 09, and nothing else. -/
theorem luhn_detects_transposition {x sep y : List Char} {a b : Char}
    (ha : isAsciiDigit a = true) (hb : isAsciiDigit b = true) (hne : a ≠ b)
    (hsep : ∀ c ∈ sep, isAsciiDigit c = false)
    (haccepts : validateLuhn (x ++ a :: sep ++ b :: y) = true) :
    validateLuhn (x ++ b :: sep ++ a :: y) = true ↔ ({a, b} : Set Char) = {'0', '9'} := by
  have hdigits : ∀ a b, isAsciiDigit a = true → isAsciiDigit b = true →
      asciiDigits (x ++ a :: sep ++ b :: y) = asciiDigits x ++ a :: b :: asciiDigits y := by
    intro a b ha hb
    rw [asciiDigits_append, asciiDigits_append, asciiDigits_cons ha, asciiDigits_cons hb,
      asciiDigits_eq_nil hsep, List.append_assoc]
    rfl
  obtain ⟨hlen, hzero⟩ := (validateLuhn_iff _).1 haccepts
  rw [hdigits a b ha hb] at hlen hzero
  have hlen' : (asciiDigits x ++ b :: a :: asciiDigits y).length =
      (asciiDigits x ++ a :: b :: asciiDigits y).length := by simp
  rw [validateLuhn_iff, hdigits b a hb ha, hlen', and_iff_right hlen, ← hzero]
  -- from the right, the second digit comes first
  simp only [luhnSum, List.reverse_append, List.reverse_cons, List.append_assoc,
    List.cons_append, List.nil_append]
  rw [sumFrom_exchange_iff]
  exact exchange_iff ha hb hne _

/-- Neighbours on both sides of a separator: 9 and 1 exchanged, and 0 and 9. -/
theorem exchange_across_separator :
    validateLuhn "4539 1480-9343 6466".toList = true ∧
      validateLuhn "4531 9480-9343 6466".toList = false ∧
      validateLuhn "4539 1489-0343 6466".toList = true := by
  have haccepts : validateLuhn ("453".toList ++ '9' :: " ".toList ++
      '1' :: "480-9343 6466".toList) = true := by decide
  have haccepts' : validateLuhn ("4539 148".toList ++ '0' :: "-".toList ++
      '9' :: "343 6466".toList) = true := haccepts
  refine ⟨haccepts, ?_, ?_⟩
  · have hpair : ({'9', '1'} : Set Char) ≠ {'0', '9'} := by
      rw [Ne, Set.pair_eq_pair_iff]
      decide
    exact Bool.eq_false_iff.2 fun h => hpair ((luhn_detects_transposition (by decide) (by decide)
      (by decide) (by simp [isAsciiDigit]) haccepts).1 h)
  · exact (luhn_detects_transposition (by decide) (by decide) (by decide)
      (by simp [isAsciiDigit]) haccepts').2 rfl

end RustSamples.DlpAnalyzer
