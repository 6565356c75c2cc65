import Mathlib.Tactic.Ring
import RustSamples.RustStr

/-! # UTF-8

What the bytes of a text say about the text.  No encoded character is the beginning of another, and
every byte of an encoded character but the first is a continuation byte.  So a front part of the
bytes that ends between characters is the encoding of a front part of the text
(`utf8_eq_append_iff`), and a text is found in the bytes of another only where it stands
(`utf8_infix_iff`).

`String::from_utf8_lossy` reads any bytes.  A maximal piece that is the beginning of no character,
or of a character that is not finished, becomes U+FFFD.  What is UTF-8 is read as it is
(`fromUtf8Lossy_utf8_append`), whatever stands around it (`fromUtf8Lossy_append_utf8`), and bytes
get no shorter by being read (`length_le_len_fromUtf8Lossy`).
-/
namespace RustStr

@[simp]
theorem utf8_nil : utf8 [] = [] := rfl

theorem utf8_cons (c : Char) (s : List Char) :
    utf8 (c :: s) = String.utf8EncodeChar c ++ utf8 s := List.flatMap_cons

theorem utf8_append (s t : List Char) : utf8 (s ++ t) = utf8 s ++ utf8 t := List.flatMap_append

theorem length_utf8 (s : List Char) : (utf8 s).length = len s := by
  induction s with
  | nil => rfl
  | cons c s ih =>
    rw [utf8_cons, List.length_append, String.length_utf8EncodeChar, ih, len_cons]

theorem asBytes_eq_utf8 (s : String) : asBytes s = utf8 s.toList := rfl

/-! ## Characters in the bytes -/

/-- The first character can be read off. -/
theorem utf8EncodeChar_append_inj {c d : Char} {x y : List UInt8}
    (h : String.utf8EncodeChar c ++ x = String.utf8EncodeChar d ++ y) : c = d ∧ x = y := by
  have hdecode : ∀ (e : Char) (z : List UInt8),
      (String.utf8EncodeChar e ++ z).toByteArray.utf8DecodeChar? 0 = some e := by
    intro e z
    rw [List.toByteArray_append]
    exact ByteArray.utf8DecodeChar?_utf8EncodeChar_append
  have hchar : c = d := by
    have hc := hdecode c x
    rw [h, hdecode d y] at hc
    exact (Option.some.inj hc).symm
  subst hchar
  exact ⟨rfl, List.append_cancel_left h⟩

theorem utf8EncodeChar_ne_nil (c : Char) : String.utf8EncodeChar c ≠ [] := by
  intro h
  have hlength := congrArg List.length h
  rw [String.length_utf8EncodeChar] at hlength
  exact Nat.ne_of_gt c.utf8Size_pos hlength

/-- The bytes of a front part are a front part of the bytes, and no other text has such bytes. -/
theorem utf8_prefix_iff {s t : List Char} : utf8 t <+: utf8 s ↔ t <+: s := by
  constructor
  · intro h
    induction t generalizing s with
    | nil => exact List.nil_prefix
    | cons d t ih =>
      obtain ⟨rest, h⟩ := h
      cases s with
      | nil =>
        rw [utf8_cons, List.append_assoc, utf8_nil, List.append_eq_nil_iff] at h
        exact absurd h.1 (utf8EncodeChar_ne_nil d)
      | cons c s =>
        rw [utf8_cons, utf8_cons, List.append_assoc] at h
        obtain ⟨hchar, h⟩ := utf8EncodeChar_append_inj h
        rw [hchar]
        exact (List.prefix_cons_inj c).2 (ih ⟨rest, h⟩)
  · rintro ⟨rest, rfl⟩
    rw [utf8_append]
    exact List.prefix_append _ _

/-- A byte that stands where a character begins, or the end. -/
def AtBoundary (bs : List UInt8) : Prop := ∀ b, bs.head? = some b → b.IsUTF8FirstByte

theorem atBoundary_utf8_append {s : List Char} (hs : s ≠ []) (rest : List UInt8) :
    AtBoundary (utf8 s ++ rest) := by
  obtain ⟨c, s, rfl⟩ := List.exists_cons_of_ne_nil hs
  intro b hb
  have hpos : 0 < (String.utf8EncodeChar c).length := by
    rw [String.length_utf8EncodeChar]
    exact c.utf8Size_pos
  rw [utf8_cons, List.append_assoc, List.head?_append_of_ne_nil _ (utf8EncodeChar_ne_nil c),
    List.head?_eq_getElem?, List.getElem?_eq_getElem hpos] at hb
  rw [← Option.some.inj hb]
  exact UInt8.isUTF8FirstByte_getElem_utf8EncodeChar.2 rfl

/-- **Bytes that are cut where a character begins are cut between characters.** -/
theorem exists_of_utf8_eq_append {s : List Char} {x y : List UInt8} (h : utf8 s = x ++ y)
    (hy : AtBoundary y) : ∃ front rest, s = front ++ rest ∧ utf8 front = x ∧ utf8 rest = y := by
  induction s generalizing x with
  | nil =>
    obtain ⟨rfl, rfl⟩ := List.append_eq_nil_iff.1 h.symm
    exact ⟨[], [], rfl, rfl, rfl⟩
  | cons c s ih =>
    by_cases hx : x = []
    · subst hx
      exact ⟨[], c :: s, rfl, rfl, h⟩
    · rw [utf8_cons] at h
      by_cases hlt : x.length < (String.utf8EncodeChar c).length
      · -- the cut is inside the character, where a continuation byte stands
        exfalso
        have hbyte : y.head? = some (String.utf8EncodeChar c)[x.length] := by
          have hget := congrArg (·[x.length]?) h
          simp only [List.getElem?_append_left hlt, List.getElem?_eq_getElem hlt,
            List.getElem?_append_right (Nat.le_refl _), Nat.sub_self] at hget
          rw [List.head?_eq_getElem?, hget]
        have hzero := UInt8.isUTF8FirstByte_getElem_utf8EncodeChar.1 (hy _ hbyte)
        exact hx (List.length_eq_zero_iff.1 hzero)
      · obtain ⟨x', rfl⟩ := List.prefix_of_prefix_length_le ⟨utf8 s, h⟩ ⟨y, rfl⟩
          (Nat.not_lt.1 hlt)
        rw [List.append_assoc] at h
        obtain ⟨front, rest, rfl, rfl, hrest⟩ := ih (List.append_cancel_left h)
        exact ⟨c :: front, rest, rfl, utf8_cons c front, hrest⟩

/-- **A text is found in the bytes of another only where it stands.** -/
theorem utf8_infix_iff {s t : List Char} (ht : t ≠ []) : utf8 t <:+: utf8 s ↔ t <:+: s := by
  constructor
  · rintro ⟨x, z, h⟩
    rw [List.append_assoc] at h
    obtain ⟨front, rest, rfl, -, hrest⟩ :=
      exists_of_utf8_eq_append h.symm (atBoundary_utf8_append ht z)
    obtain ⟨behind, rfl⟩ := utf8_prefix_iff.1 ⟨z, hrest.symm⟩
    exact ⟨front, behind, by rw [List.append_assoc]⟩
  · rintro ⟨front, behind, rfl⟩
    rw [utf8_append, utf8_append]
    exact ⟨utf8 front, utf8 behind, rfl⟩

/-- `String::from_utf8` accepts the encodings of texts, and nothing else. -/
theorem decodeUtf8_eq_some_iff {bs : List UInt8} {s : List Char} :
    decodeUtf8 bs = some s ↔ bs = utf8 s := by
  constructor
  · intro h
    obtain ⟨t, ht, rfl⟩ := Option.map_eq_some_iff.1 h
    rw [String.fromUTF8?] at ht
    split at ht
    · rename_i hvalid
      obtain rfl := Option.some.inj ht
      have hbytes : (utf8 (String.fromUTF8 bs.toByteArray hvalid).toList).toByteArray =
          bs.toByteArray := String.utf8Encode_toList
      have hdata := congrArg (fun a => a.data.toList) hbytes
      simpa using hdata.symm
    · cases ht
  · rintro rfl
    have h := decodeUtf8_asBytes (String.ofList s)
    rwa [asBytes_eq_utf8, String.toList_ofList] at h

/-! ## Replacement characters -/

/-- A character that has begun: how many bytes are to come, what the next one may be, and the bits
so far. -/
structure Begun where
  missing : Nat
  low : Nat
  high : Nat
  bits : Nat

/-- U+FFFD. -/
def replacement : Char := Char.ofNat 0xFFFD

/-- What a byte does where a character may begin. -/
def beginChar (b : Nat) : List Char × Option Begun :=
  if b < 0x80 then ([Char.ofNat b], none)
  else if b < 0xC2 then ([replacement], none)
  else if b < 0xE0 then ([], some ⟨0, 0x80, 0xBF, b - 0xC0⟩)
  else if b = 0xE0 then ([], some ⟨1, 0xA0, 0xBF, 0⟩)
  else if b = 0xED then ([], some ⟨1, 0x80, 0x9F, b - 0xE0⟩)
  else if b < 0xF0 then ([], some ⟨1, 0x80, 0xBF, b - 0xE0⟩)
  else if b = 0xF0 then ([], some ⟨2, 0x90, 0xBF, 0⟩)
  else if b < 0xF4 then ([], some ⟨2, 0x80, 0xBF, b - 0xF0⟩)
  else if b = 0xF4 then ([], some ⟨2, 0x80, 0x8F, b - 0xF0⟩)
  else ([replacement], none)

/-- What a byte does.  One that does not continue a character that has begun may begin another. -/
def lossyStep (begun : Option Begun) (b : Nat) : List Char × Option Begun :=
  match begun with
  | none => beginChar b
  | some c =>
      if c.low ≤ b ∧ b ≤ c.high then
        match c.missing with
        | 0 => ([Char.ofNat (64 * c.bits + (b - 0x80))], none)
        | missing + 1 => ([], some ⟨missing, 0x80, 0xBF, 64 * c.bits + (b - 0x80)⟩)
      else (replacement :: (beginChar b).1, (beginChar b).2)

def fromUtf8LossyFrom (begun : Option Begun) : List UInt8 → List Char
  | [] => if begun.isSome then [replacement] else []
  | b :: bs =>
      (lossyStep begun b.toNat).1 ++ fromUtf8LossyFrom (lossyStep begun b.toNat).2 bs

/-- `String::from_utf8_lossy`. -/
def fromUtf8Lossy (bs : List UInt8) : List Char := fromUtf8LossyFrom none bs

example : fromUtf8Lossy (utf8 "aé€😀".toList) = "aé€😀".toList := by decide

example : fromUtf8Lossy [0x61, 0xE2, 0x82, 0x62, 0xED, 0xA0, 0xF0, 0x9F] =
    ['a', replacement, 'b', replacement, replacement, replacement] := by decide

/-- ASCII in front is read as it is. -/
theorem fromUtf8Lossy_ascii_append {xs : List UInt8} (h : ∀ b ∈ xs, b.toNat < 0x80)
    (ys : List UInt8) :
    fromUtf8Lossy (xs ++ ys) = (xs.map fun b => Char.ofNat b.toNat) ++ fromUtf8Lossy ys := by
  induction xs with
  | nil => rfl
  | cons b xs ih =>
    obtain ⟨hb, hxs⟩ := List.forall_mem_cons.1 h
    have hstep : lossyStep none b.toNat = ([Char.ofNat b.toNat], none) := if_pos hb
    rw [List.cons_append, fromUtf8Lossy, fromUtf8LossyFrom, hstep]
    exact congrArg (Char.ofNat b.toNat :: ·) (ih hxs)

/-! ## Texts are read as they are -/

theorem toNat_byte {n : Nat} (h : n < 256) : (UInt8.ofNat n).toNat = n := by
  rw [UInt8.toNat_ofNat']
  exact Nat.mod_eq_of_lt h

/-- A byte that begins a character of more than one byte. -/
theorem lossy_begin {b : UInt8} {c : Begun} (h : beginChar b.toNat = ([], some c))
    (ys : List UInt8) : fromUtf8LossyFrom none (b :: ys) = fromUtf8LossyFrom (some c) ys := by
  rw [fromUtf8LossyFrom, lossyStep, h, List.nil_append]

theorem lossy_more {missing low high bits : Nat} {b : UInt8} (hlow : low ≤ b.toNat)
    (hhigh : b.toNat ≤ high) (ys : List UInt8) :
    fromUtf8LossyFrom (some ⟨missing + 1, low, high, bits⟩) (b :: ys) =
      fromUtf8LossyFrom (some ⟨missing, 0x80, 0xBF, 64 * bits + (b.toNat - 0x80)⟩) ys := by
  rw [fromUtf8LossyFrom, lossyStep, if_pos ⟨hlow, hhigh⟩]
  rfl

theorem lossy_last {low high bits : Nat} {b : UInt8} (hlow : low ≤ b.toNat)
    (hhigh : b.toNat ≤ high) (ys : List UInt8) :
    fromUtf8LossyFrom (some ⟨0, low, high, bits⟩) (b :: ys) =
      Char.ofNat (64 * bits + (b.toNat - 0x80)) :: fromUtf8LossyFrom none ys := by
  rw [fromUtf8LossyFrom, lossyStep, if_pos ⟨hlow, hhigh⟩]
  rfl

theorem beginChar_two {b : Nat} (h : 0xC2 ≤ b ∧ b < 0xE0) :
    beginChar b = ([], some ⟨0, 0x80, 0xBF, b - 0xC0⟩) := by
  unfold beginChar
  rw [if_neg (by omega), if_neg (by omega), if_pos h.2]

/-- The first of three bytes, and the second, if they are those of a scalar value. -/
theorem beginChar_three {x y : Nat} (hx : x < 16) (hy : y < 64) (hshort : x = 0 → 0x20 ≤ y)
    (hsurrogate : x = 13 → y < 0x20) : ∃ low high,
    beginChar (x + 0xE0) = ([], some ⟨1, low, high, x⟩) ∧ low ≤ y + 0x80 ∧ y + 0x80 ≤ high := by
  unfold beginChar
  rw [if_neg (by omega), if_neg (by omega), if_neg (by omega)]
  by_cases h0 : x = 0
  · subst h0
    exact ⟨_, _, rfl, by omega, by omega⟩
  by_cases h13 : x = 13
  · subst h13
    exact ⟨_, _, rfl, by omega, by omega⟩
  rw [if_neg (by omega), if_neg (by omega), if_pos (by omega), Nat.add_sub_cancel]
  exact ⟨_, _, rfl, by omega, by omega⟩

/-- The first of four bytes, and the second. -/
theorem beginChar_four {x y : Nat} (hx : x ≤ 4) (hy : y < 64) (hshort : x = 0 → 0x10 ≤ y)
    (hlarge : x = 4 → y < 0x10) : ∃ low high,
    beginChar (x + 0xF0) = ([], some ⟨2, low, high, x⟩) ∧ low ≤ y + 0x80 ∧ y + 0x80 ≤ high := by
  unfold beginChar
  rw [if_neg (by omega), if_neg (by omega), if_neg (by omega), if_neg (by omega),
    if_neg (by omega), if_neg (by omega)]
  by_cases h0 : x = 0
  · subst h0
    exact ⟨_, _, rfl, by omega, by omega⟩
  by_cases h4 : x = 4
  · subst h4
    exact ⟨_, _, rfl, by omega, by omega⟩
  rw [if_neg (by omega), if_pos (by omega), Nat.add_sub_cancel]
  exact ⟨_, _, rfl, by omega, by omega⟩

theorem fromUtf8LossyFrom_encodeChar (c : Char) (ys : List UInt8) :
    fromUtf8LossyFrom none (String.utf8EncodeChar c ++ ys) =
      c :: fromUtf8LossyFrom none ys := by
  have hscalar : c.val.toNat < 0xD800 ∨ 0xDFFF < c.val.toNat ∧ c.val.toNat < 0x110000 := c.valid
  have hchar : Char.ofNat c.val.toNat = c := Char.ofNat_toNat c
  unfold String.utf8EncodeChar
  generalize c.val.toNat = v at hscalar hchar ⊢
  dsimp only
  by_cases h₁ : v ≤ 0x7F
  · have hb : (UInt8.ofNat v).toNat = v := toNat_byte (by omega)
    have hbegin : beginChar v = ([Char.ofNat v], none) := if_pos (by omega)
    rw [if_pos h₁, List.singleton_append, fromUtf8LossyFrom, lossyStep, hb, hbegin, hchar]
    rfl
  rw [if_neg h₁]
  have hbyte (n : Nat) : (UInt8.ofNat (n % 0x40 + 0x80)).toNat = n % 0x40 + 0x80 :=
    toNat_byte (by omega)
  by_cases h₂ : v ≤ 0x7FF
  · have hb : (UInt8.ofNat (v / 64 % 0x20 + 0xC0)).toNat = v / 64 % 0x20 + 0xC0 :=
      toNat_byte (by omega)
    rw [if_pos h₂, List.cons_append, lossy_begin (beginChar_two (by omega)), List.singleton_append,
      lossy_last (by rw [hbyte]; omega) (by rw [hbyte]; omega), hb, hbyte]
    have hv : 64 * (v / 64 % 0x20 + 0xC0 - 0xC0) + (v % 0x40 + 0x80 - 0x80) = v := by omega
    rw [hv, hchar]
  rw [if_neg h₂]
  by_cases h₃ : v ≤ 0xFFFF
  · obtain ⟨low, high, hbegin, hlow, hhigh⟩ := beginChar_three (x := v / 4096 % 0x10)
      (y := v / 64 % 0x40) (by omega) (by omega) (by omega) (by omega)
    have hb : (UInt8.ofNat (v / 4096 % 0x10 + 0xE0)).toNat = v / 4096 % 0x10 + 0xE0 :=
      toNat_byte (by omega)
    rw [if_pos h₃, List.cons_append, lossy_begin (hb ▸ hbegin), List.cons_append,
      lossy_more (by rw [hbyte]; exact hlow) (by rw [hbyte]; exact hhigh), List.singleton_append,
      lossy_last (by rw [hbyte]; omega) (by rw [hbyte]; omega), hbyte, hbyte]
    have hv : 64 * (64 * (v / 4096 % 0x10) + (v / 64 % 0x40 + 0x80 - 0x80)) +
        (v % 0x40 + 0x80 - 0x80) = v := by omega
    rw [hv, hchar]
  rw [if_neg h₃]
  obtain ⟨low, high, hbegin, hlow, hhigh⟩ := beginChar_four (x := v / 262144 % 0x08)
    (y := v / 4096 % 0x40) (by omega) (by omega) (by omega) (by omega)
  have hb : (UInt8.ofNat (v / 262144 % 0x08 + 0xF0)).toNat = v / 262144 % 0x08 + 0xF0 :=
    toNat_byte (by omega)
  rw [List.cons_append, lossy_begin (hb ▸ hbegin), List.cons_append,
    lossy_more (by rw [hbyte]; exact hlow) (by rw [hbyte]; exact hhigh), List.cons_append,
    lossy_more (by rw [hbyte]; omega) (by rw [hbyte]; omega), List.singleton_append,
    lossy_last (by rw [hbyte]; omega) (by rw [hbyte]; omega), hbyte, hbyte, hbyte]
  have hv : 64 * (64 * (64 * (v / 262144 % 0x08) + (v / 4096 % 0x40 + 0x80 - 0x80)) +
      (v / 64 % 0x40 + 0x80 - 0x80)) + (v % 0x40 + 0x80 - 0x80) = v := by omega
  rw [hv, hchar]

/-- **What is UTF-8 is read as it is.** -/
theorem fromUtf8Lossy_utf8_append (s : List Char) (ys : List UInt8) :
    fromUtf8Lossy (utf8 s ++ ys) = s ++ fromUtf8Lossy ys := by
  induction s with
  | nil => rfl
  | cons c s ih =>
    rw [utf8_cons, List.append_assoc, fromUtf8Lossy, fromUtf8LossyFrom_encodeChar]
    exact congrArg (c :: ·) ih

theorem fromUtf8Lossy_utf8 (s : List Char) : fromUtf8Lossy (utf8 s) = s := by
  have h := fromUtf8Lossy_utf8_append s []
  rwa [List.append_nil, show fromUtf8Lossy [] = [] from rfl, List.append_nil] at h

/-! ## Which bytes are read as NUL -/

namespace Begun
variable (c : Begun)

/-- The least and the greatest character that can come of it. -/
def first : Nat := (64 * c.bits + (c.low - 0x80)) * 64 ^ c.missing

def last : Nat := (64 * c.bits + (c.high - 0x80)) * 64 ^ c.missing + (64 ^ c.missing - 1)

/-- These are scalar values outside of ASCII. -/
structure Sound : Prop where
  low : 0x80 ≤ c.low
  first : 0x80 ≤ c.first
  scalar : c.last < 0xD800 ∨ 0xE000 ≤ c.first ∧ c.last < 0x110000

end Begun

theorem Begun.sound_mk {missing low high bits : Nat}
    (h : 0x80 ≤ low ∧ 0x80 ≤ (64 * bits + (low - 0x80)) * 64 ^ missing ∧
      ((64 * bits + (high - 0x80)) * 64 ^ missing + (64 ^ missing - 1) < 0xD800 ∨
        0xE000 ≤ (64 * bits + (low - 0x80)) * 64 ^ missing ∧
        (64 * bits + (high - 0x80)) * 64 ^ missing + (64 ^ missing - 1) < 0x110000)) :
    (⟨missing, low, high, bits⟩ : Begun).Sound := ⟨h.1, h.2.1, h.2.2⟩

/-- What is said of a row and of the rows behind it is true of the table. -/
theorem begins_of_ite {p : Prop} [Decidable p] {c : Begun} {rest : List Char × Option Begun}
    (hsound : p → c.Sound)
    (hrest : ¬ p → rest = ([replacement], none) ∨ ∃ d : Begun, rest = ([], some d) ∧ d.Sound) :
    (if p then ([], some c) else rest) = ([replacement], none) ∨
      ∃ d : Begun, (if p then ([], some c) else rest) = ([], some d) ∧ d.Sound := by
  by_cases hp : p
  · rw [if_pos hp]
    exact Or.inr ⟨c, rfl, hsound hp⟩
  · rw [if_neg hp]
    exact hrest hp

/-- A byte where a character may begin is ASCII, or begins no character, or one that is sound. -/
theorem beginChar_cases (b : Nat) :
    b < 0x80 ∧ beginChar b = ([Char.ofNat b], none) ∨ beginChar b = ([replacement], none) ∨
      ∃ c : Begun, beginChar b = ([], some c) ∧ c.Sound := by
  unfold beginChar
  by_cases hascii : b < 0x80
  · exact Or.inl ⟨hascii, if_pos hascii⟩
  rw [if_neg hascii]
  refine Or.inr ?_
  by_cases hlow : b < 0xC2
  · exact Or.inl (if_pos hlow)
  rw [if_neg hlow]
  -- the rows of characters of two, three and four bytes
  iterate 7 refine begins_of_ite (fun _ => Begun.sound_mk (by omega)) fun _ => ?_
  exact Or.inl rfl

/-- With a byte that continues it, the range gets smaller. -/
theorem Begun.Sound.next {missing low high bits b : Nat}
    (h : (⟨missing + 1, low, high, bits⟩ : Begun).Sound) (hlow : low ≤ b) (hhigh : b ≤ high) :
    (⟨missing, 0x80, 0xBF, 64 * bits + (b - 0x80)⟩ : Begun).Sound := by
  obtain ⟨hcont, hfirst, hscalar⟩ := h
  have hpos : 0 < 64 ^ missing := Nat.pow_pos (by decide)
  have hpow : 64 ^ (missing + 1) = 64 * 64 ^ missing := by rw [Nat.pow_succ, Nat.mul_comm]
  have hbelow : (64 * bits + (low - 0x80)) * (64 * 64 ^ missing) ≤
      (64 * bits + (b - 0x80)) * (64 * 64 ^ missing) := Nat.mul_le_mul_right _ (by omega)
  have habove : (64 * bits + (b - 0x80)) * (64 * 64 ^ missing) ≤
      (64 * bits + (high - 0x80)) * (64 * 64 ^ missing) := Nat.mul_le_mul_right _ (by omega)
  simp only [Begun.first, Begun.last, hpow] at hfirst hscalar
  have hvalue : (64 * (64 * bits + (b - 0x80)) + (0x80 - 0x80)) * 64 ^ missing =
      (64 * bits + (b - 0x80)) * (64 * 64 ^ missing) := by ring
  have htop : (64 * (64 * bits + (b - 0x80)) + (0xBF - 0x80)) * 64 ^ missing =
      (64 * bits + (b - 0x80)) * (64 * 64 ^ missing) + 63 * 64 ^ missing := by ring
  constructor <;> simp only [Begun.first, Begun.last, hvalue, htop] <;> omega

theorem toNat_ofNat_of_isValidChar {n : Nat} (h : n.isValidChar) : (Char.ofNat n).toNat = n := by
  rw [Char.ofNat, dif_pos h]
  rfl

/-- A last byte completes a scalar value that is not ASCII. -/
theorem Begun.Sound.ne_nul {low high bits b : Nat} (h : (⟨0, low, high, bits⟩ : Begun).Sound)
    (hlow : low ≤ b) (hhigh : b ≤ high) : Char.ofNat (64 * bits + (b - 0x80)) ≠ '\x00' := by
  obtain ⟨hcont, hfirst, hscalar⟩ := h
  simp only [Begun.first, Begun.last, Nat.pow_zero, Nat.mul_one] at hcont hfirst hscalar
  have hvalid : (64 * bits + (b - 0x80)).isValidChar := by
    unfold Nat.isValidChar
    omega
  intro hnul
  have hvalue := toNat_ofNat_of_isValidChar hvalid
  have hzero : Char.toNat '\x00' = 0 := rfl
  rw [hnul, hzero] at hvalue
  omega

/-- What comes of a character that has begun is not only NUL. -/
theorem exists_ne_nul_of_begun {c : Begun} (h : c.Sound) (bs : List UInt8) :
    ∃ x ∈ fromUtf8LossyFrom (some c) bs, x ≠ '\x00' := by
  have hreplacement : replacement ≠ '\x00' := by decide
  induction bs generalizing c with
  | nil => exact ⟨replacement, List.mem_singleton_self _, hreplacement⟩
  | cons b bs ih =>
    rw [fromUtf8LossyFrom, lossyStep]
    by_cases hb : c.low ≤ b.toNat ∧ b.toNat ≤ c.high
    · rw [if_pos hb]
      obtain ⟨missing, low, high, bits⟩ := c
      cases missing with
      | zero =>
        exact ⟨_, List.mem_append_left _ (List.mem_singleton_self _), h.ne_nul hb.1 hb.2⟩
      | succ missing =>
        obtain ⟨x, hx, hne⟩ := ih (h.next hb.1 hb.2)
        exact ⟨x, List.mem_append_right _ hx, hne⟩
    · rw [if_neg hb]
      exact ⟨replacement, List.mem_append_left _ List.mem_cons_self, hreplacement⟩

/-- A byte that is not zero is not read as a NUL. -/
theorem exists_ne_nul_of_ne_zero {b : UInt8} (hb : b ≠ 0) (bs : List UInt8) :
    ∃ x ∈ fromUtf8Lossy (b :: bs), x ≠ '\x00' := by
  rw [fromUtf8Lossy, fromUtf8LossyFrom, lossyStep]
  rcases beginChar_cases b.toNat with ⟨hascii, hbegin⟩ | hbegin | ⟨c, hbegin, hsound⟩
  · refine ⟨Char.ofNat b.toNat, by rw [hbegin]; exact List.mem_cons_self, fun hnul => hb ?_⟩
    have hvalue := toNat_ofNat_of_isValidChar (Or.inl (Nat.lt_trans hascii (by decide)))
    rw [hnul] at hvalue
    exact UInt8.toNat_inj.1 hvalue.symm
  · refine ⟨replacement, ?_, by decide⟩
    rw [hbegin]
    exact List.mem_cons_self
  · rw [hbegin]
    exact exists_ne_nul_of_begun hsound bs

/-- **Only zeros are read as NULs.** -/
theorem fromUtf8Lossy_nul_iff {bs : List UInt8} :
    (∀ c ∈ fromUtf8Lossy bs, c = '\x00') ↔ ∀ b ∈ bs, b = 0 := by
  constructor
  · intro h
    induction bs with
    | nil => exact List.forall_mem_nil _
    | cons b bs ih =>
      by_cases hb : b = 0
      · subst hb
        have hsplit : fromUtf8Lossy (0 :: bs) = '\x00' :: fromUtf8Lossy bs :=
          fromUtf8Lossy_ascii_append (List.forall_mem_singleton.2 (by decide)) bs
        rw [hsplit] at h
        exact List.forall_mem_cons.2 ⟨rfl, ih fun c hc => h c (List.mem_cons_of_mem _ hc)⟩
      · obtain ⟨x, hx, hne⟩ := exists_ne_nul_of_ne_zero hb bs
        exact absurd (h x hx) hne
  · intro h c hc
    have hascii : ∀ b ∈ bs, b.toNat < 0x80 := fun b hb => by
      rw [h b hb]
      decide
    have hall := fromUtf8Lossy_ascii_append hascii []
    rw [List.append_nil] at hall
    rw [hall, List.mem_append, List.mem_map] at hc
    rcases hc with ⟨b, hb, rfl⟩ | hnil
    · rw [h b hb]
      rfl
    · cases hnil

/-! ## Texts among other bytes -/

/-- `consumed` bytes have begun a character, of at most four, and its least value asks for as many
as it will have had; the next byte has to be a continuation byte. -/
structure Begun.Fits (consumed : Nat) (c : Begun) : Prop where
  sound : c.Sound
  high : c.high ≤ 0xBF
  bytes : 1 ≤ consumed ∧ consumed + c.missing ≤ 3
  three : consumed + c.missing = 2 → 0x800 ≤ c.first
  four : consumed + c.missing = 3 → 0x10000 ≤ c.first

theorem Begun.Sound.first_le_next {missing low high bits b : Nat}
    (h : (⟨missing + 1, low, high, bits⟩ : Begun).Sound) (hlow : low ≤ b) :
    (⟨missing + 1, low, high, bits⟩ : Begun).first ≤
      (⟨missing, 0x80, 0xBF, 64 * bits + (b - 0x80)⟩ : Begun).first := by
  have hcont : 0x80 ≤ low := h.low
  simp only [Begun.first, Nat.sub_self, Nat.add_zero, Nat.pow_succ]
  calc (64 * bits + (low - 0x80)) * (64 ^ missing * 64)
      ≤ (64 * bits + (b - 0x80)) * (64 ^ missing * 64) := Nat.mul_le_mul_right _ (by omega)
    _ = 64 * (64 * bits + (b - 0x80)) * 64 ^ missing := by ring

theorem Begun.Fits.next {consumed missing low high bits b : Nat}
    (h : (⟨missing + 1, low, high, bits⟩ : Begun).Fits consumed) (hlow : low ≤ b)
    (hhigh : b ≤ high) :
    (⟨missing, 0x80, 0xBF, 64 * bits + (b - 0x80)⟩ : Begun).Fits (consumed + 1) := by
  have hfirst := h.sound.first_le_next hlow
  obtain ⟨hpos, hmost⟩ := h.bytes
  dsimp only at hmost
  have hthree := h.three
  have hfour := h.four
  dsimp only at hthree hfour
  refine ⟨h.sound.next hlow hhigh, Nat.le_refl _, ⟨Nat.succ_pos _, ?_⟩, fun hn => ?_, fun hn => ?_⟩
  · dsimp only
    omega
  · dsimp only at hn
    exact (hthree (by omega)).trans hfirst
  · dsimp only at hn
    exact (hfour (by omega)).trans hfirst

theorem fits_of_ite {p : Prop} [Decidable p] {c d : Begun} {rest : List Char × Option Begun}
    (hfits : p → c.Fits 1) (hrest : ¬ p → rest = ([], some d) → d.Fits 1)
    (h : (if p then ([], some c) else rest) = ([], some d)) : d.Fits 1 := by
  by_cases hp : p
  · rw [if_pos hp] at h
    obtain rfl := Option.some.inj (Prod.ext_iff.1 h).2
    exact hfits hp
  · rw [if_neg hp] at h
    exact hrest hp h

theorem Begun.fits_mk {missing low high bits : Nat} (hsound : (⟨missing, low, high, bits⟩ :
      Begun).Sound) (hhigh : high ≤ 0xBF) (hbytes : missing ≤ 2)
    (hthree : missing = 1 → 0x800 ≤ (64 * bits + (low - 0x80)) * 64 ^ missing)
    (hfour : missing = 2 → 0x10000 ≤ (64 * bits + (low - 0x80)) * 64 ^ missing) :
    (⟨missing, low, high, bits⟩ : Begun).Fits 1 :=
  ⟨hsound, hhigh, ⟨Nat.le_refl 1, by dsimp only; omega⟩,
    fun hn => hthree (by dsimp only at hn; omega), fun hn => hfour (by dsimp only at hn; omega)⟩

theorem begin_fits {b : Nat} {c : Begun} (h : beginChar b = ([], some c)) : c.Fits 1 := by
  unfold beginChar at h
  have hne : ∀ {x : Char}, ([x], (none : Option Begun)) ≠ ([], some c) := fun h => by cases h
  by_cases hascii : b < 0x80
  · rw [if_pos hascii] at h
    exact absurd h hne
  rw [if_neg hascii] at h
  by_cases hlow : b < 0xC2
  · rw [if_pos hlow] at h
    exact absurd h hne
  rw [if_neg hlow] at h
  revert h
  iterate 7 refine fits_of_ite (fun _ => Begun.fits_mk (Begun.sound_mk (by omega)) (by omega)
    (by omega) (by omega) (by omega)) fun _ => ?_
  exact fun h => absurd h hne

/-- A byte with which a character may begin, or none: no continuation byte. -/
def AtBegin (bs : List UInt8) : Prop := ∀ b ∈ bs.head?, b.toNat < 0x80 ∨ 0xC0 ≤ b.toNat

/-- What is behind such a place is read as if nothing stood in front of it. -/
theorem fromUtf8LossyFrom_append {begun : Option Begun} (xs : List UInt8) {ys : List UInt8}
    (hys : AtBegin ys) (hfits : ∀ c ∈ begun, ∃ consumed, c.Fits consumed) :
    fromUtf8LossyFrom begun (xs ++ ys) = fromUtf8LossyFrom begun xs ++ fromUtf8Lossy ys := by
  induction xs generalizing begun with
  | nil =>
    cases begun with
    | none => rfl
    | some c =>
      cases ys with
      | nil => rfl
      | cons b ys =>
        obtain ⟨consumed, hfit⟩ := hfits c rfl
        have hhigh := hfit.high
        have hlow := hfit.sound.low
        have hb := hys b rfl
        have hstep : lossyStep (some c) b.toNat =
            (replacement :: (beginChar b.toNat).1, (beginChar b.toNat).2) :=
          if_neg (by omega)
        have hread : fromUtf8LossyFrom (some c) (b :: ys) =
            replacement :: fromUtf8Lossy (b :: ys) := by
          rw [fromUtf8LossyFrom, hstep]
          rfl
        rw [List.nil_append, hread]
        rfl
  | cons b xs ih =>
    have hbegin : ∀ c ∈ (beginChar b.toNat).2, ∃ consumed, c.Fits consumed := by
      intro c hc
      obtain ⟨_, h⟩ | h | ⟨d, h, _⟩ := beginChar_cases b.toNat
      · rw [h] at hc; cases hc
      · rw [h] at hc; cases hc
      · rw [h] at hc
        obtain rfl := Option.some.inj hc
        exact ⟨1, begin_fits h⟩
    rw [List.cons_append, fromUtf8LossyFrom, fromUtf8LossyFrom, List.append_assoc]
    refine congrArg _ ?_
    cases begun with
    | none => exact ih hbegin
    | some c =>
      rw [lossyStep]
      split_ifs with hcont
      · obtain ⟨missing, low, high, bits⟩ := c
        cases missing with
        | zero => exact ih (fun d hd => by cases hd)
        | succ missing =>
          refine ih fun d hd => ?_
          obtain rfl := Option.some.inj hd
          obtain ⟨consumed, hfit⟩ := hfits _ rfl
          exact ⟨consumed + 1, hfit.next hcont.1 hcont.2⟩
      · exact ih hbegin

/-- The bytes of a character: the first continues none, and none is 0xFF. -/
theorem bytes_utf8EncodeChar (c : Char) :
    AtBegin (String.utf8EncodeChar c) ∧ ∀ b ∈ String.utf8EncodeChar c, b.toNat < 0xFF := by
  have hscalar : c.val.toNat < 0xD800 ∨ 0xDFFF < c.val.toNat ∧ c.val.toNat < 0x110000 := c.valid
  unfold String.utf8EncodeChar
  generalize c.val.toNat = v at hscalar ⊢
  dsimp only
  have hcont (n : Nat) : (UInt8.ofNat (n % 0x40 + 0x80)).toNat = n % 0x40 + 0x80 :=
    toNat_byte (by omega)
  split_ifs with h₁ h₂ h₃
  · have hb : (UInt8.ofNat v).toNat = v := toNat_byte (by omega)
    simp only [AtBegin, List.head?_cons, Option.mem_some_iff, forall_eq', List.mem_singleton,
      forall_eq, hb]
    omega
  · have hb : (UInt8.ofNat (v / 64 % 0x20 + 0xC0)).toNat = v / 64 % 0x20 + 0xC0 :=
      toNat_byte (by omega)
    simp only [AtBegin, List.head?_cons, Option.mem_some_iff, forall_eq', List.forall_mem_cons,
      List.not_mem_nil, hb, hcont]
    exact ⟨by omega, by omega, by omega, nofun⟩
  · have hb : (UInt8.ofNat (v / 4096 % 0x10 + 0xE0)).toNat = v / 4096 % 0x10 + 0xE0 :=
      toNat_byte (by omega)
    simp only [AtBegin, List.head?_cons, Option.mem_some_iff, forall_eq', List.forall_mem_cons,
      List.not_mem_nil, hb, hcont]
    exact ⟨by omega, by omega, by omega, by omega, nofun⟩
  · have hb : (UInt8.ofNat (v / 262144 % 0x08 + 0xF0)).toNat = v / 262144 % 0x08 + 0xF0 :=
      toNat_byte (by omega)
    simp only [AtBegin, List.head?_cons, Option.mem_some_iff, forall_eq', List.forall_mem_cons,
      List.not_mem_nil, hb, hcont]
    exact ⟨by omega, by omega, by omega, by omega, by omega, nofun⟩

/-- **What is read of a text among other bytes**: what the bytes in front are read as, the text, and
what the bytes behind are read as. -/
theorem fromUtf8Lossy_append_utf8 {s : List Char} (hs : s ≠ []) (xs ys : List UInt8) :
    fromUtf8Lossy (xs ++ (utf8 s ++ ys)) = fromUtf8Lossy xs ++ (s ++ fromUtf8Lossy ys) := by
  rw [← fromUtf8Lossy_utf8_append]
  refine fromUtf8LossyFrom_append xs ?_ nofun
  obtain ⟨c, s, rfl⟩ := List.exists_cons_of_ne_nil hs
  rw [AtBegin, utf8_cons, List.append_assoc,
    List.head?_append_of_ne_nil _ (utf8EncodeChar_ne_nil c)]
  exact (bytes_utf8EncodeChar c).1

/-- A byte that no character has is read as U+FFFD. -/
theorem fromUtf8Lossy_append_ff (xs ys : List UInt8) :
    fromUtf8Lossy (xs ++ 0xFF :: ys) = fromUtf8Lossy xs ++ replacement :: fromUtf8Lossy ys := by
  have hbegin : AtBegin (0xFF :: ys) := fun b hb => by
    obtain rfl := Option.some.inj hb
    exact .inr (by decide)
  exact fromUtf8LossyFrom_append xs hbegin nofun

theorem decodeUtf8_append_ff (xs ys : List UInt8) : decodeUtf8 (xs ++ 0xFF :: ys) = none := by
  cases h : decodeUtf8 (xs ++ 0xFF :: ys) with
  | none => rfl
  | some s =>
    have hmem : 0xFF ∈ utf8 s := by
      rw [← decodeUtf8_eq_some_iff.1 h]
      exact List.mem_append_right _ List.mem_cons_self
    obtain ⟨c, _, hc⟩ := List.mem_flatMap.1 hmem
    exact absurd ((bytes_utf8EncodeChar c).2 _ hc) (by decide)

/-- A character has as many bytes as its value asks for. -/
theorem le_utf8Size {v n : Nat} (hvalid : v.isValidChar)
    (h : n ≤ 1 ∨ 0x80 ≤ v ∧ n ≤ 2 ∨ 0x800 ≤ v ∧ n ≤ 3 ∨ 0x10000 ≤ v ∧ n ≤ 4) :
    n ≤ (Char.ofNat v).utf8Size := by
  have hvalue : (Char.ofNat v).val.toNat = v := toNat_ofNat_of_isValidChar hvalid
  have hone : (UInt32.ofNatLT 0x7F (by decide)).toNat = 0x7F := rfl
  have htwo : (UInt32.ofNatLT 0x7FF (by decide)).toNat = 0x7FF := rfl
  have hthree : (UInt32.ofNatLT 0xFFFF (by decide)).toNat = 0xFFFF := rfl
  unfold Char.utf8Size
  simp only [UInt32.le_iff_toNat_le, hvalue, hone, htwo, hthree]
  split_ifs <;> omega

/-- The character that the last byte completes has as many bytes as were read. -/
theorem Begun.Fits.le_utf8Size {consumed low high bits b : Nat}
    (h : (⟨0, low, high, bits⟩ : Begun).Fits consumed) (hlow : low ≤ b) (hhigh : b ≤ high) :
    consumed + 1 ≤ (Char.ofNat (64 * bits + (b - 0x80))).utf8Size := by
  obtain ⟨⟨hcont, hfirst, hscalar⟩, _, ⟨_, hmost⟩, hthree, hfour⟩ := h
  simp only [Begun.first, Begun.last, Nat.pow_zero, Nat.mul_one, Nat.add_zero] at *
  have hvalid : (64 * bits + (b - 0x80)).isValidChar := by
    unfold Nat.isValidChar
    omega
  exact RustStr.le_utf8Size hvalid (by omega)

/-- What is read of a byte where a character may begin. -/
theorem length_le_len_begin {b : Nat} {bs : List UInt8}
    (hnone : bs.length ≤ len (fromUtf8LossyFrom none bs))
    (hsome : ∀ c : Begun, c.Fits 1 → 1 + bs.length ≤ len (fromUtf8LossyFrom (some c) bs)) :
    1 + bs.length ≤ len (beginChar b).1 + len (fromUtf8LossyFrom (beginChar b).2 bs) := by
  obtain ⟨_, h⟩ | h | ⟨c, h, _⟩ := beginChar_cases b
  · rw [h, len_cons, len_nil]
    have hpos := (Char.ofNat b).utf8Size_pos
    dsimp only
    omega
  · rw [h, len_cons, len_nil]
    have hpos := replacement.utf8Size_pos
    dsimp only
    omega
  · rw [h, len_nil, Nat.zero_add]
    exact hsome c (begin_fits h)

/-- Reading bytes makes them no shorter. -/
theorem length_le_len_fromUtf8LossyFrom (bs : List UInt8) :
    bs.length ≤ len (fromUtf8LossyFrom none bs) ∧ ∀ (c : Begun) (consumed : Nat),
      c.Fits consumed → consumed + bs.length ≤ len (fromUtf8LossyFrom (some c) bs) := by
  have hreplacement : replacement.utf8Size = 3 := by decide
  induction bs with
  | nil =>
    refine ⟨Nat.le_refl 0, fun c consumed h => ?_⟩
    have hmost := h.bytes.2
    change consumed ≤ len [replacement]
    rw [len_cons, len_nil, hreplacement]
    omega
  | cons b bs ih =>
    have hbegin : 1 + bs.length ≤ len (beginChar b.toNat).1 +
        len (fromUtf8LossyFrom (beginChar b.toNat).2 bs) :=
      length_le_len_begin ih.1 fun c h => ih.2 c 1 h
    constructor
    · rw [fromUtf8LossyFrom, len_append, List.length_cons, Nat.add_comm]
      exact hbegin
    · intro c consumed h
      rw [fromUtf8LossyFrom, lossyStep, len_append, List.length_cons]
      split_ifs with hcont
      · obtain ⟨missing, low, high, bits⟩ := c
        cases missing with
        | zero =>
          have hsize := h.le_utf8Size hcont.1 hcont.2
          have hrest := ih.1
          rw [len_cons, len_nil]
          dsimp only at hsize ⊢
          omega
        | succ missing =>
          have hrest := ih.2 _ _ (h.next hcont.1 hcont.2)
          rw [len_nil]
          dsimp only at hrest ⊢
          omega
      · have hmost := h.bytes.2
        rw [len_cons, hreplacement]
        dsimp only
        omega

theorem length_le_len_fromUtf8Lossy (bs : List UInt8) : bs.length ≤ len (fromUtf8Lossy bs) :=
  (length_le_len_fromUtf8LossyFrom bs).1

end RustStr
