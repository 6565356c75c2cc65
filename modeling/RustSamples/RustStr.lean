import Mathlib.Algebra.Ring.Nat
import Mathlib.Data.List.Basic
import Mathlib.Data.List.DropRight

/-! # Rust's `str`

Text is a `String`: a sequence of Unicode scalar values, of which Rust stores the
UTF-8 encoding.  Positions and lengths count bytes, so slicing can fail — out of
range, or inside a character — and the failure is a panic, here `none`.
-/
namespace RustStr

/-- `s.as_bytes()`. -/
def asBytes (s : String) : List UInt8 := s.toList.flatMap String.utf8EncodeChar

/-- The UTF-8 bytes of a text given by its characters. -/
def utf8 (s : List Char) : List UInt8 := s.flatMap String.utf8EncodeChar

/-- `s.len()`, of the characters of `s`. -/
def len (s : List Char) : Nat := (s.map Char.utf8Size).sum

theorem len_append (s t : List Char) : len (s ++ t) = len s + len t := by
  simp [len]

@[simp]
theorem len_nil : len [] = 0 := rfl

@[simp]
theorem len_cons (c : Char) (s : List Char) : len (c :: s) = c.utf8Size + len s := by
  simp [len]

theorem len_replicate (n : Nat) (c : Char) : len (List.replicate n c) = n * c.utf8Size := by
  rw [len, List.map_replicate, List.sum_replicate_nat]

/-- `&s[i..]`; `none` past the end or off a character boundary. -/
def dropBytes : List Char → Nat → Option (List Char)
  | s, 0 => some s
  | [], _ + 1 => none
  | c :: s, i + 1 => if c.utf8Size ≤ i + 1 then dropBytes s (i + 1 - c.utf8Size) else none

/-- `&s[..i]`; `none` past the end or off a character boundary. -/
def takeBytes : List Char → Nat → Option (List Char)
  | _, 0 => some []
  | [], _ + 1 => none
  | c :: s, i + 1 =>
      if c.utf8Size ≤ i + 1 then (takeBytes s (i + 1 - c.utf8Size)).map (c :: ·) else none

/-- `&s[i..j]`. -/
def slice (s : List Char) (i j : Nat) : Option (List Char) :=
  if i ≤ j then (dropBytes s i).bind (takeBytes · (j - i)) else none

/-- `s.find(t)`: the byte offset of the first place where `t` stands. -/
def find (s t : List Char) : Option Nat :=
  if t.isPrefixOf s then some 0
  else
    match s with
    | [] => none
    | c :: s => (find s t).map (c.utf8Size + ·)

/-- `s.starts_with(t)`. -/
def startsWith (s t : String) : Bool := t.toList.isPrefixOf s.toList

/-! ### Lines and blanks -/

/-- `lines`, where `acc` is the current line so far, backwards.  A line ends at a line
feed, and a carriage return before it belongs to the ending; what is behind the last
line feed is a line unless it is empty. -/
def linesFrom (acc : List Char) : List Char → List (List Char)
  | [] => if acc.isEmpty then [] else [acc.reverse]
  | '\n' :: cs =>
      (match acc with
        | '\r' :: acc => acc.reverse
        | _ => acc.reverse) :: linesFrom [] cs
  | c :: cs => linesFrom (c :: acc) cs

/-- `s.lines()`. -/
def lines (s : List Char) : List (List Char) := linesFrom [] s

/-- The line that a line feed ends, of its bytes so far, backwards. -/
def endByteLine : List UInt8 → List UInt8
  | 13 :: acc => acc.reverse
  | acc => acc.reverse

/-- The pieces that `BufRead::lines` decodes, in bytes: a line ends as above. -/
def byteLinesFrom (acc : List UInt8) : List UInt8 → List (List UInt8)
  | [] => if acc.isEmpty then [] else [acc.reverse]
  | b :: bs =>
      if b = 10 then endByteLine acc :: byteLinesFrom [] bs else byteLinesFrom (b :: acc) bs

/-- `String::from_utf8`, as characters. -/
def decodeUtf8 (bytes : List UInt8) : Option (List Char) :=
  (String.fromUTF8? bytes.toByteArray).map String.toList

/-- `reader.lines()`, of a reader that returns these bytes; `none` is the error of a line
that is not UTF-8. -/
def readerLines (bytes : List UInt8) : List (Option (List Char)) :=
  (byteLinesFrom [] bytes).map decodeUtf8

/-- `char::is_whitespace`, the Unicode property `White_Space`. -/
def isWhitespace (c : Char) : Bool :=
  let n := c.toNat
  (9 ≤ n && n ≤ 13) || n = 32 || n = 0x85 || n = 0xA0 || n = 0x1680 || (0x2000 ≤ n && n ≤ 0x200A) ||
    n = 0x2028 || n = 0x2029 || n = 0x202F || n = 0x205F || n = 0x3000

/-- `s.trim()`. -/
def trim (s : List Char) : List Char :=
  ((s.dropWhile isWhitespace).reverse.dropWhile isWhitespace).reverse

/-- `split_whitespace`, where `acc` is the current word so far, backwards. -/
def splitWhitespaceFrom (acc : List Char) : List Char → List (List Char)
  | [] => if acc.isEmpty then [] else [acc.reverse]
  | c :: cs =>
      if isWhitespace c then
        if acc.isEmpty then splitWhitespaceFrom [] cs
        else acc.reverse :: splitWhitespaceFrom [] cs
      else splitWhitespaceFrom (c :: acc) cs

/-- `s.split_whitespace()`. -/
def splitWhitespace (s : List Char) : List (List Char) := splitWhitespaceFrom [] s

example : (lines "a\r\n\n \tb\r".toList).map trim = ["a".toList, [], "b".toList] := by decide

/-! ### Numbers in text -/

/-- The number that decimal digits write. -/
def digitsValue (ds : List Char) : Nat := ds.foldl (fun n c => 10 * n + (c.toNat - 48)) 0

/-- One of the given characters, and what follows it. -/
def scanChar (cs : List Char) : List Char → Option (List Char)
  | c :: s => if c ∈ cs then some s else none
  | [] => none

/-- `c.to_digit(16)`. -/
def toDigit16 (c : Char) : Option Nat :=
  if '0' ≤ c ∧ c ≤ '9' then some (c.toNat - 48)
  else if 'a' ≤ c ∧ c ≤ 'f' then some (c.toNat - 87)
  else if 'A' ≤ c ∧ c ≤ 'F' then some (c.toNat - 55)
  else none

/-- The kinds of `std::num::ParseIntError` that parsing a `u8` can give. -/
inductive ParseIntError
  | empty
  | invalidDigit
  | posOverflow
deriving DecidableEq, Repr

/-- The digit loop of `u8::from_str_radix(_, 16)`; `acc` is the value so far. -/
def parseDigits16 (acc : Nat) : List Char → Except ParseIntError UInt8
  | [] => .ok (UInt8.ofNat acc)
  | c :: cs =>
      match toDigit16 c with
      | none => .error .invalidDigit
      | some d =>
          if 16 * acc + d < 256 then parseDigits16 (16 * acc + d) cs else .error .posOverflow

/-- `u8::from_str_radix(s, 16)`.  One leading `+` is skipped, as the standard
library does for every integer type; a `-` is not, `u8` being unsigned. -/
def u8FromStrRadix16 : List Char → Except ParseIntError UInt8
  | [] => .error .empty
  | ['+'] => .error .invalidDigit
  | ['-'] => .error .invalidDigit
  | '+' :: cs => parseDigits16 0 cs
  | cs => parseDigits16 0 cs

/-- The lower-case hexadecimal digit of a value below 16. -/
def hexDigit (d : Nat) : Char := if d < 10 then Char.ofNat (48 + d) else Char.ofNat (87 + d)

/-- `format!("{:02x}", b)`. -/
def lowerHex (b : UInt8) : List Char := [hexDigit (b.toNat / 16), hexDigit (b.toNat % 16)]

/-! ### Texts that can be read back -/

theorem asBytes_injective {s t : String} (h : asBytes s = asBytes t) : s = t := by
  have hencode : s.toList.utf8Encode = t.toList.utf8Encode := by
    unfold List.utf8Encode
    exact congrArg List.toByteArray h
  rw [String.utf8Encode_toList, String.utf8Encode_toList] at hencode
  exact String.toByteArray_inj.mp hencode

theorem decodeUtf8_asBytes (s : String) : decodeUtf8 (asBytes s) = some s.toList := by
  have hbytes : (asBytes s).toByteArray = s.toByteArray := by
    rw [asBytes]
    exact String.utf8Encode_toList
  rw [decodeUtf8, hbytes, String.fromUTF8?, dif_pos s.isValidUTF8]
  rfl

theorem byteLinesFrom_append {bs : List UInt8} (h : 10 ∉ bs) (acc rest : List UInt8) :
    byteLinesFrom acc (bs ++ rest) = byteLinesFrom (bs.reverse ++ acc) rest := by
  induction bs generalizing acc with
  | nil => rfl
  | cons b bs ih =>
    have hb : b ≠ 10 := fun hb => h (hb ▸ List.mem_cons_self)
    have hbs : 10 ∉ bs := fun hmem => h (List.mem_cons_of_mem b hmem)
    rw [List.cons_append, byteLinesFrom, if_neg hb, ih hbs, List.reverse_cons,
      List.append_assoc]
    rfl

/-- A text on one line, behind which the file ends, is read back. -/
theorem readerLines_line {s : String} (hnewline : 10 ∉ asBytes s)
    (hreturn : (asBytes s).reverse.head? ≠ some 13) :
    readerLines (asBytes s ++ [10]) = [some s.toList] := by
  have hline : byteLinesFrom [] (asBytes s ++ [10]) = [asBytes s] := by
    rw [byteLinesFrom_append hnewline, List.append_nil, byteLinesFrom, if_pos rfl]
    unfold endByteLine
    split
    · rename_i acc hacc
      rw [hacc] at hreturn
      exact absurd rfl hreturn
    · rw [List.reverse_reverse]
      rfl
  rw [readerLines, hline, List.map_cons, decodeUtf8_asBytes, List.map_nil]

theorem hexDigit_injective {d e : Nat} (hd : d < 16) (he : e < 16) (h : hexDigit d = hexDigit e) :
    d = e := by
  have hall : ∀ i < 16, ∀ j < 16, hexDigit i = hexDigit j → i = j := by decide
  exact hall d hd e he h

theorem lowerHex_injective {a b : UInt8} (h : lowerHex a = lowerHex b) : a = b := by
  have ha := a.toNat_lt
  have hb := b.toNat_lt
  simp only [lowerHex, List.cons.injEq, and_true] at h
  have hhigh := hexDigit_injective (by omega) (by omega) h.1
  have hlow := hexDigit_injective (by omega) (by omega) h.2
  exact UInt8.toNat_inj.mp (by omega)

theorem flatMap_lowerHex_injective {as bs : List UInt8}
    (h : as.flatMap lowerHex = bs.flatMap lowerHex) : as = bs := by
  induction as generalizing bs with
  | nil =>
    cases bs with
    | nil => rfl
    | cons b bs => simp [lowerHex] at h
  | cons a as ih =>
    cases bs with
    | nil => simp [lowerHex] at h
    | cons b bs =>
      rw [List.flatMap_cons, List.flatMap_cons] at h
      obtain ⟨hhead, htail⟩ := List.append_inj h rfl
      rw [lowerHex_injective hhead, ih htail]

/-- A front part of characters that satisfy `p` can be read off when what follows does not
begin with such a character. -/
theorem append_inj_of_takeWhile {p : Char → Bool} {u v u' v' : List Char} (hu : ∀ c ∈ u, p c)
    (hu' : ∀ c ∈ u', p c) (hv : v.takeWhile p = []) (hv' : v'.takeWhile p = [])
    (h : u ++ v = u' ++ v') : u = u' ∧ v = v' := by
  have htake := congrArg (List.takeWhile p) h
  rw [List.takeWhile_append_of_pos hu, List.takeWhile_append_of_pos hu', hv, hv', List.append_nil,
    List.append_nil] at htake
  subst htake
  exact ⟨rfl, List.append_cancel_left h⟩

/-! ### Slices and search, by the parts of the text -/

theorem dropBytes_append (front t : List Char) : dropBytes (front ++ t) (len front) = some t := by
  induction front with
  | nil => simp [dropBytes]
  | cons c front ih =>
    obtain ⟨i, hi⟩ := Nat.exists_eq_add_one.2 (Nat.add_pos_left c.utf8Size_pos (len front))
    rw [len_cons, hi, List.cons_append, dropBytes, if_pos (by omega), ← hi,
      Nat.add_sub_cancel_left, ih]

theorem takeBytes_append (front t : List Char) :
    takeBytes (front ++ t) (len front) = some front := by
  induction front with
  | nil => simp [takeBytes]
  | cons c front ih =>
    obtain ⟨i, hi⟩ := Nat.exists_eq_add_one.2 (Nat.add_pos_left c.utf8Size_pos (len front))
    rw [len_cons, hi, List.cons_append, takeBytes, if_pos (by omega), ← hi,
      Nat.add_sub_cancel_left, ih]
    rfl

/-- `&s[i..]` is what stands behind `i` bytes of whole characters. -/
theorem dropBytes_eq_some_iff {s t : List Char} {i : Nat} :
    dropBytes s i = some t ↔ ∃ front, s = front ++ t ∧ len front = i := by
  constructor
  · intro h
    induction s, i using dropBytes.induct with
    | case1 s => exact ⟨[], by simpa [dropBytes] using h, rfl⟩
    | case2 i => simp [dropBytes] at h
    | case3 c s i hle ih =>
      rw [dropBytes, if_pos hle] at h
      obtain ⟨front, rfl, hlen⟩ := ih h
      exact ⟨c :: front, rfl, by rw [len_cons, hlen]; omega⟩
    | case4 c s i hlt => simp [dropBytes, hlt] at h
  · rintro ⟨front, rfl, rfl⟩
    exact dropBytes_append front t

/-- `&s[..i]` is `i` bytes of whole characters. -/
theorem takeBytes_eq_some_iff {s t : List Char} {i : Nat} :
    takeBytes s i = some t ↔ ∃ rest, s = t ++ rest ∧ len t = i := by
  constructor
  · intro h
    induction s, i using takeBytes.induct generalizing t with
    | case1 s => exact ⟨s, by simp_all [takeBytes]⟩
    | case2 i => simp [takeBytes] at h
    | case3 c s i hle ih =>
      rw [takeBytes, if_pos hle] at h
      obtain ⟨u, hu, rfl⟩ := Option.map_eq_some_iff.1 h
      obtain ⟨rest, rfl, hlen⟩ := ih hu
      exact ⟨rest, rfl, by rw [len_cons, hlen]; omega⟩
    | case4 c s i hlt => simp [takeBytes, hlt] at h
  · rintro ⟨rest, rfl, rfl⟩
    exact takeBytes_append t rest

/-- **A slice is a piece of the text, cut between characters.** -/
theorem slice_eq_some_iff {s t : List Char} {i n : Nat} :
    slice s i (i + n) = some t ↔
      ∃ front rest, s = front ++ t ++ rest ∧ len front = i ∧ len t = n := by
  rw [slice, if_pos (by omega), Nat.add_sub_cancel_left, Option.bind_eq_some_iff]
  constructor
  · rintro ⟨u, hdrop, htake⟩
    obtain ⟨front, rfl, hfront⟩ := dropBytes_eq_some_iff.1 hdrop
    obtain ⟨rest, rfl, hlen⟩ := takeBytes_eq_some_iff.1 htake
    exact ⟨front, rest, by rw [List.append_assoc], hfront, hlen⟩
  · rintro ⟨front, rest, rfl, hfront, hlen⟩
    exact ⟨t ++ rest, dropBytes_eq_some_iff.2 ⟨front, by rw [List.append_assoc], hfront⟩,
      takeBytes_eq_some_iff.2 ⟨rest, rfl, hlen⟩⟩

/-- `&s[i..i + n]` depends on what stands from `i` on. -/
theorem slice_append (front s : List Char) (n : Nat) :
    slice (front ++ s) (len front) (len front + n) = takeBytes s n := by
  rw [slice, if_pos (Nat.le_add_right ..), dropBytes_append, Option.bind_some,
    Nat.add_sub_cancel_left]

/-- What is found stands at the offset that is returned. -/
theorem find_eq_some {s t : List Char} {i : Nat} (h : find s t = some i) :
    ∃ front rest, s = front ++ t ++ rest ∧ len front = i := by
  induction s using find.induct t generalizing i with
  | case1 s hpre =>
    obtain ⟨rest, rfl⟩ := List.isPrefixOf_iff_prefix.1 hpre
    rw [find.eq_def, if_pos hpre] at h
    exact ⟨[], rest, rfl, Option.some.inj h⟩
  | case2 hpre => simp [find, hpre] at h
  | case3 c s hpre ih =>
    rw [find, if_neg hpre] at h
    obtain ⟨j, hj, rfl⟩ := Option.map_eq_some_iff.1 h
    obtain ⟨front, rest, rfl, hlen⟩ := ih hj
    exact ⟨c :: front, rest, rfl, by rw [len_cons, hlen]⟩

/-- A text that stands somewhere is found, there or in front of it. -/
theorem exists_find_le (front t rest : List Char) :
    ∃ i, find (front ++ t ++ rest) t = some i ∧ i ≤ len front := by
  induction front with
  | nil =>
    refine ⟨0, ?_, Nat.le_refl 0⟩
    rw [List.nil_append, find.eq_def, if_pos (List.isPrefixOf_iff_prefix.2 ⟨rest, rfl⟩)]
  | cons c front ih =>
    obtain ⟨i, hi, hle⟩ := ih
    rw [List.cons_append, List.cons_append, find.eq_def]
    by_cases hpre : t.isPrefixOf (c :: (front ++ t ++ rest)) = true
    · exact ⟨0, if_pos hpre, Nat.zero_le _⟩
    · refine ⟨c.utf8Size + i, ?_, by rw [len_cons]; omega⟩
      rw [if_neg hpre]
      exact Option.map_eq_some_iff.2 ⟨i, hi, rfl⟩

theorem len_pos {s : List Char} (h : s ≠ []) : 0 < len s := by
  obtain ⟨c, s, rfl⟩ := List.exists_cons_of_ne_nil h
  rw [len_cons]
  exact Nat.add_pos_left c.utf8Size_pos _

/-- Of two front parts of a text, the one with no more bytes is a front part of the other. -/
theorem prefix_of_len_le {s front front' rest rest' : List Char} (h : s = front ++ rest)
    (h' : s = front' ++ rest') (hle : len front ≤ len front') : front <+: front' := by
  rcases List.prefix_or_prefix_of_prefix ⟨rest, h.symm⟩ ⟨rest', h'.symm⟩ with hpre | ⟨more, hmore⟩
  · exact hpre
  · have hlen := congrArg len hmore
    rw [len_append] at hlen
    have hnil : more = [] := by
      by_contra hne
      have := len_pos hne
      omega
    rw [hnil, List.append_nil] at hmore
    exact hmore ▸ List.prefix_refl _

/-- In ASCII a character is a byte. -/
theorem len_of_ascii {s : List Char} (h : ∀ c ∈ s, c.toNat < 128) : len s = s.length := by
  induction s with
  | nil => rfl
  | cons c s ih =>
    obtain ⟨hc, hs⟩ := List.forall_mem_cons.1 h
    have hsize : c.utf8Size = 1 := by
      rw [Char.utf8Size_eq_one_iff]
      exact UInt32.le_iff_toNat_le.2 (Nat.le_of_lt_succ hc)
    rw [len_cons, hsize, ih hs, List.length_cons, Nat.add_comm]

/-! ### Trimmed characters -/

/-- `s.trim_matches(p)`. -/
def trimMatches (p : Char → Bool) (s : List Char) : List Char := (s.dropWhile p).rdropWhile p

/-- From the end of a text exactly what is behind `front` is trimmed. -/
theorem rdropWhile_append_eq_iff {p : Char → Bool} {front rest : List Char}
    (hfront : ∀ c ∈ front, p c = false) :
    (front ++ rest).rdropWhile p = front ↔ ∀ c ∈ rest, p c = true := by
  constructor
  · intro h c hc
    have hsplit := List.rdropWhile_append_rtakeWhile (p := p) (l := front ++ rest)
    rw [h] at hsplit
    have hrest := List.append_cancel_left hsplit
    exact List.mem_rtakeWhile_imp (hrest ▸ hc)
  · intro h
    induction rest using List.reverseRecOn with
    | nil =>
      rw [List.append_nil, List.rdropWhile_eq_self_iff]
      intro hne
      simp [hfront _ (List.getLast_mem hne)]
    | append_singleton rest c ih =>
      rw [← List.append_assoc, List.rdropWhile_concat_pos _ _ _ (h c (by simp))]
      exact ih fun d hd => h d (List.mem_append_left _ hd)

theorem trimMatches_append_eq_iff {p : Char → Bool} {front rest : List Char}
    (hfront : ∀ c ∈ front, p c = false) :
    trimMatches p (front ++ rest) = front ↔ ∀ c ∈ rest, p c = true := by
  rw [trimMatches]
  cases front with
  | nil =>
    rw [List.nil_append, List.rdropWhile_eq_nil_iff, ← List.dropWhile_eq_nil_iff,
      List.dropWhile_idempotent, List.dropWhile_eq_nil_iff]
  | cons c front =>
    have hc : ¬ p c = true := by simp [hfront c List.mem_cons_self]
    rw [List.cons_append, List.dropWhile_cons_of_neg hc, ← List.cons_append,
      rdropWhile_append_eq_iff hfront]

/-! ### A byte from two digits -/

/-- A character that `u8::from_str_radix(_, 16)` reads as a digit. -/
def IsHexDigit (c : Char) : Prop :=
  ('0' ≤ c ∧ c ≤ '9') ∨ ('a' ≤ c ∧ c ≤ 'f') ∨ ('A' ≤ c ∧ c ≤ 'F')

instance (c : Char) : Decidable (IsHexDigit c) := inferInstanceAs (Decidable (_ ∨ _))

theorem toDigit16_eq_none_iff {c : Char} : toDigit16 c = none ↔ ¬ IsHexDigit c := by
  unfold toDigit16 IsHexDigit
  split_ifs <;> simp_all

theorem exists_toDigit16_iff {c : Char} : (∃ d, toDigit16 c = some d) ↔ IsHexDigit c := by
  rw [← Option.isSome_iff_exists, Option.isSome_iff_ne_none, Ne, toDigit16_eq_none_iff, not_not]

theorem toDigit16_hexDigit {d : Nat} (h : d < 16) : toDigit16 (hexDigit d) = some d := by
  have hall : ∀ d < 16, toDigit16 (hexDigit d) = some d := by decide
  exact hall d h

/-- Digits are ASCII. -/
theorem IsHexDigit.toNat_lt {c : Char} (h : IsHexDigit c) : c.toNat < 128 := by
  have hle : ∀ d : Char, d.toNat < 128 → c ≤ d → c.toNat < 128 := fun d hd hc =>
    Nat.lt_of_le_of_lt (UInt32.le_iff_toNat_le.1 hc) hd
  rcases h with ⟨-, h⟩ | ⟨-, h⟩ | ⟨-, h⟩
  · exact hle '9' (by decide) h
  · exact hle 'f' (by decide) h
  · exact hle 'F' (by decide) h

/-- Written in lower case, a digit is what `{:x}` writes for its value. -/
theorem hexDigit_of_toDigit16 {c : Char} {d : Nat} (h : toDigit16 c = some d) :
    d < 16 ∧ hexDigit d = c.toLower := by
  have hall : ∀ n < 128, ∀ d, toDigit16 (Char.ofNat n) = some d →
      d < 16 ∧ hexDigit d = (Char.ofNat n).toLower := by
    have hcheck : ∀ n < 128, (toDigit16 (Char.ofNat n)).elim true
        (fun d => decide (d < 16 ∧ hexDigit d = (Char.ofNat n).toLower)) = true := by decide
    intro n hn d hd
    have hn := hcheck n hn
    rw [hd] at hn
    exact of_decide_eq_true hn
  have hascii := (exists_toDigit16_iff.1 ⟨d, h⟩).toNat_lt
  have hc := hall c.toNat hascii d
  rw [Char.ofNat_toNat] at hc
  exact hc h

/-- The digits of a pair, or a plus sign and one digit, are a byte; nothing else is. -/
theorem u8FromStrRadix16_pair_eq_ok_iff {c d : Char} {b : UInt8} :
    u8FromStrRadix16 [c, d] = .ok b ↔ ∃ y, toDigit16 d = some y ∧
      (c = '+' ∧ b = UInt8.ofNat y ∨
        ∃ x, toDigit16 c = some x ∧ b = UInt8.ofNat (16 * x + y)) := by
  have hone : ∀ acc, acc < 16 → (parseDigits16 acc [d] = .ok b ↔
      ∃ y, toDigit16 d = some y ∧ b = UInt8.ofNat (16 * acc + y)) := by
    intro acc hacc
    rw [parseDigits16]
    cases hd : toDigit16 d with
    | none => simp
    | some y =>
      have := (hexDigit_of_toDigit16 hd).1
      simp only [parseDigits16]
      rw [if_pos (by omega)]
      simp [eq_comm]
  by_cases hc : c = '+'
  · subst hc
    have hplus : toDigit16 '+' = none := by decide
    rw [u8FromStrRadix16, hone 0 (by decide)]
    · simp [hplus]
    · simp
  · have hpair : u8FromStrRadix16 [c, d] = parseDigits16 0 [c, d] := by
      unfold u8FromStrRadix16
      split <;> simp_all
    rw [hpair, parseDigits16]
    cases hx : toDigit16 c with
    | none => simp [hc]
    | some x =>
      have := (hexDigit_of_toDigit16 hx).1
      simp only
      rw [if_pos (by omega), Nat.mul_zero, Nat.zero_add, hone x this]
      simp [hc]

theorem u8FromStrRadix16_lowerHex (b : UInt8) : u8FromStrRadix16 (lowerHex b) = .ok b := by
  have hb := b.toNat_lt
  refine u8FromStrRadix16_pair_eq_ok_iff.2 ⟨b.toNat % 16, toDigit16_hexDigit (by omega), Or.inr
    ⟨b.toNat / 16, toDigit16_hexDigit (by omega), ?_⟩⟩
  rw [Nat.div_add_mod, UInt8.ofNat_toNat]

theorem ascii_of_parseDigits16 {acc : Nat} {s : List Char} {b : UInt8}
    (h : parseDigits16 acc s = .ok b) : ∀ c ∈ s, c.toNat < 128 := by
  induction s generalizing acc with
  | nil => exact List.forall_mem_nil _
  | cons c s ih =>
    rw [parseDigits16] at h
    cases hd : toDigit16 c with
    | none => simp [hd] at h
    | some d =>
      simp only [hd] at h
      split at h
      · exact List.forall_mem_cons.2 ⟨(exists_toDigit16_iff.1 ⟨d, hd⟩).toNat_lt, ih h⟩
      · cases h

/-- What is read as a byte is ASCII. -/
theorem ascii_of_u8FromStrRadix16 {s : List Char} {b : UInt8} (h : u8FromStrRadix16 s = .ok b) :
    ∀ c ∈ s, c.toNat < 128 := by
  unfold u8FromStrRadix16 at h
  split at h
  · cases h
  · cases h
  · cases h
  · exact List.forall_mem_cons.2 ⟨by decide, ascii_of_parseDigits16 h⟩
  · exact ascii_of_parseDigits16 h

end RustStr
