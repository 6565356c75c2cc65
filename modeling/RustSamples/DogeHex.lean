import RustSamples.DogeBlockchain

/-! # Hexadecimal text in `doge-rust`

`hex::encode` writes two lower-case digits for a byte.  `hex::decode` cuts a text into slices of
two bytes and hands each to `u8::from_str_radix`.

What comes of a text depends on how far its pairs of characters are accepted (`readPairs`).  If
nothing is left behind them it is decoded.  Otherwise the next slice decides: if there are two more
bytes of whole characters they are refused with an error, and if not the slice panics
(`hexDecode_cases`).  `from_str_radix` accepts a plus sign in front of a digit, and so the text of a
byte is not always that of its digits.
-/
namespace RustSamples.Doge
open RustStr

/-! ## What an address looks like -/

theorem length_hexEncode (bytes : List UInt8) :
    (hexEncode bytes).toList.length = 2 * bytes.length := by
  rw [hexEncode, String.toList_ofList]
  induction bytes with
  | nil => rfl
  | cons b bytes ih =>
    rw [List.flatMap_cons, List.length_append, ih, List.length_cons]
    simp only [lowerHex, List.length_cons, List.length_nil]
    omega

theorem hexEncode_injective {as bs : List UInt8} (h : hexEncode as = hexEncode bs) : as = bs :=
  flatMap_lowerHex_injective (String.ofList_injective h)

/-- The sixteen digits that `{:02x}` writes. -/
def lowerHexDigits : List Char := "0123456789abcdef".toList

theorem mem_lowerHexDigits_of_mem_hexEncode {bytes : List UInt8} {c : Char}
    (h : c ∈ (hexEncode bytes).toList) : c ∈ lowerHexDigits := by
  have hall : ∀ d < 16, hexDigit d ∈ lowerHexDigits := by decide
  rw [hexEncode, String.toList_ofList] at h
  obtain ⟨b, -, hc⟩ := List.mem_flatMap.1 h
  have hb := b.toNat_lt
  rw [lowerHex, List.mem_cons, List.mem_singleton] at hc
  rcases hc with rfl | rfl
  · exact hall _ (by omega)
  · exact hall _ (by omega)

/-! ## The decoder, by pairs of characters -/

/-- The bytes of the pairs that are accepted, from the front of a text, and what is left. -/
def readPairs : List Char → List UInt8 × List Char
  | c :: d :: s =>
      match u8FromStrRadix16 [c, d] with
      | .ok b => (b :: (readPairs s).1, (readPairs s).2)
      | .error _ => ([], c :: d :: s)
  | s => ([], s)

/-- A slice that is accepted is two characters. -/
theorem eq_pair_of_takeBytes {s pair : List Char} {b : UInt8} (hslice : takeBytes s 2 = some pair)
    (h : u8FromStrRadix16 pair = .ok b) : ∃ c d rest, s = c :: d :: rest ∧ pair = [c, d] := by
  obtain ⟨rest, rfl, hlen⟩ := takeBytes_eq_some_iff.1 hslice
  rw [len_of_ascii (ascii_of_u8FromStrRadix16 h)] at hlen
  obtain ⟨c, d, rfl⟩ := List.length_eq_two.1 hlen
  exact ⟨c, d, rest, rfl, rfl⟩

/-- What `decode` returns, by the pairs that it reads and the text behind them. -/
inductive Decoded : List UInt8 × List Char → Option (Except ParseIntError (List UInt8)) → Prop
  | ok (bytes : List UInt8) : Decoded (bytes, []) (some (.ok bytes))
  | refused (bytes : List UInt8) {rest : List Char} (e : ParseIntError)
      (h : (takeBytes rest 2).isSome) : Decoded (bytes, rest) (some (.error e))
  | panics (bytes : List UInt8) {rest : List Char} (hne : rest ≠ [])
      (h : takeBytes rest 2 = none) : Decoded (bytes, rest) none

theorem Decoded.cons {read : List UInt8 × List Char}
    {result : Option (Except ParseIntError (List UInt8))} (h : Decoded read result) (b : UInt8) :
    Decoded (b :: read.1, read.2) (result.map (Except.map (b :: ·))) := by
  cases h with
  | ok bytes => exact .ok _
  | refused bytes e h => exact .refused _ e h
  | panics bytes hne h => exact .panics _ hne h

/-- Where no pair is accepted, the next slice is refused or panics. -/
theorem decoded_of_no_pair {front s : List Char} {k : Nat} (hfront : len front = 2 * k)
    (hne : s ≠ [])
    (hno : ∀ pair, takeBytes s 2 = some pair → ∃ e, u8FromStrRadix16 pair = .error e) :
    Decoded ([], s) (hexDecodeAt (front ++ s) ((List.range' k ((len s + 1) / 2)).map (2 * ·))) := by
  obtain ⟨n, hn⟩ := Nat.exists_eq_add_one.2 (show 0 < (len s + 1) / 2 by
    have := len_pos hne
    omega)
  rw [hn, List.range'_succ, List.map_cons, hexDecodeAt, ← hfront, slice_append]
  cases hslice : takeBytes s 2 with
  | none => exact .panics _ hne hslice
  | some pair =>
    obtain ⟨e, he⟩ := hno pair hslice
    simp only [he]
    exact .refused _ e (Option.isSome_iff_exists.2 ⟨pair, hslice⟩)

/-- The slices from a pair on see that pair and what follows it. -/
theorem decoded_append (front s : List Char) {k : Nat} (hfront : len front = 2 * k) :
    Decoded (readPairs s)
      (hexDecodeAt (front ++ s) ((List.range' k ((len s + 1) / 2)).map (2 * ·))) := by
  induction s using readPairs.induct generalizing front k with
  | case1 c d s b hb ih =>
    have hpair : len [c, d] = 2 := len_of_ascii (ascii_of_u8FromStrRadix16 hb)
    have hlen : (len (c :: d :: s) + 1) / 2 = (len s + 1) / 2 + 1 := by
      simp only [len_cons, len_nil] at hpair ⊢
      omega
    have hslice : takeBytes (c :: d :: s) 2 = some [c, d] :=
      takeBytes_eq_some_iff.2 ⟨s, rfl, hpair⟩
    have hnext := ih (front ++ [c, d]) (k := k + 1) (by rw [len_append, hpair]; omega)
    rw [List.append_assoc] at hnext
    rw [readPairs, hb, hlen, List.range'_succ, List.map_cons, hexDecodeAt, ← hfront, slice_append,
      hslice]
    simp only [hb]
    exact hnext.cons b
  | case2 c d s e he =>
    rw [readPairs, he]
    refine decoded_of_no_pair hfront (List.cons_ne_nil _ _) fun pair hslice => ?_
    cases hbyte : u8FromStrRadix16 pair with
    | error e => exact ⟨e, rfl⟩
    | ok b =>
      obtain ⟨c', d', rest, hs, rfl⟩ := eq_pair_of_takeBytes hslice hbyte
      injection hs with hc hs
      injection hs with hd _
      rw [← hc, ← hd, he] at hbyte
      cases hbyte
  | case3 s hshort =>
    rw [readPairs.eq_2 s hshort]
    by_cases hs : s = []
    · subst hs
      exact .ok []
    · refine decoded_of_no_pair hfront hs fun pair hslice => ?_
      cases hbyte : u8FromStrRadix16 pair with
      | error e => exact ⟨e, rfl⟩
      | ok b =>
        obtain ⟨c, d, rest, hpair, -⟩ := eq_pair_of_takeBytes hslice hbyte
        exact (hshort c d rest hpair).elim

/-- **What `decode` returns.** -/
theorem hexDecode_cases (s : String) : Decoded (readPairs s.toList) (hexDecode s) := by
  have h := decoded_append [] s.toList (k := 0) rfl
  rwa [List.nil_append, ← List.range_eq_range'] at h

theorem hexDecode_eq_ok_iff {s : String} {bytes : List UInt8} :
    hexDecode s = some (.ok bytes) ↔ readPairs s.toList = (bytes, []) := by
  have hcases := hexDecode_cases s
  constructor
  · intro h
    rw [h] at hcases
    cases hread : readPairs s.toList with | mk read rest =>
    rw [hread] at hcases
    cases hcases
    rfl
  · intro h
    rw [h] at hcases
    generalize hexDecode s = result at hcases
    cases hcases with
    | ok => rfl
    | refused _ _ h => cases h
    | panics _ hne _ => exact absurd rfl hne

/-- A text that is read to its end has two bytes for each that is decoded. -/
theorem len_of_readPairs {s : List Char} {bytes : List UInt8} (h : readPairs s = (bytes, [])) :
    len s = 2 * bytes.length := by
  induction s using readPairs.induct generalizing bytes with
  | case1 c d s b hb ih =>
    rw [readPairs, hb] at h
    obtain ⟨rfl, hrest⟩ := Prod.mk.inj h
    have hs : len s = 2 * (readPairs s).1.length := ih (Prod.ext rfl hrest)
    have hpair : len [c, d] = 2 := len_of_ascii (ascii_of_u8FromStrRadix16 hb)
    simp only [len_cons, len_nil, List.length_cons] at hpair ⊢
    omega
  | case2 c d s e he =>
    rw [readPairs, he] at h
    cases h
  | case3 s hshort =>
    rw [readPairs.eq_2 s hshort] at h
    cases h
    rfl

/-! ## Which texts are decoded -/

/-- What is left of a text when pairs of digits, and digits behind a plus sign, are taken from its
front. -/
def behindPairs : List Char → List Char
  | c :: d :: s => if (IsHexDigit c ∨ c = '+') ∧ IsHexDigit d then behindPairs s else c :: d :: s
  | s => s

theorem exists_ok_pair_iff {c d : Char} :
    (∃ b, u8FromStrRadix16 [c, d] = .ok b) ↔ (IsHexDigit c ∨ c = '+') ∧ IsHexDigit d := by
  rw [← exists_toDigit16_iff, ← exists_toDigit16_iff]
  constructor
  · rintro ⟨b, h⟩
    obtain ⟨y, hd, ⟨hc, -⟩ | ⟨x, hc, -⟩⟩ := u8FromStrRadix16_pair_eq_ok_iff.1 h
    · exact ⟨Or.inr hc, y, hd⟩
    · exact ⟨Or.inl ⟨x, hc⟩, y, hd⟩
  · rintro ⟨⟨x, hc⟩ | hc, y, hd⟩
    · exact ⟨_, u8FromStrRadix16_pair_eq_ok_iff.2 ⟨y, hd, Or.inr ⟨x, hc, rfl⟩⟩⟩
    · exact ⟨_, u8FromStrRadix16_pair_eq_ok_iff.2 ⟨y, hd, Or.inl ⟨hc, rfl⟩⟩⟩

theorem readPairs_snd (s : List Char) : (readPairs s).2 = behindPairs s := by
  induction s using readPairs.induct with
  | case1 c d s b hb ih =>
    rw [readPairs, hb, behindPairs, if_pos (exists_ok_pair_iff.1 ⟨b, hb⟩)]
    exact ih
  | case2 c d s e he =>
    have hno : ¬ ((IsHexDigit c ∨ c = '+') ∧ IsHexDigit d) := fun h => by
      obtain ⟨b, hb⟩ := exists_ok_pair_iff.2 h
      rw [he] at hb
      cases hb
    rw [readPairs, he, behindPairs, if_neg hno]
  | case3 s hshort => rw [readPairs.eq_2 s hshort, behindPairs.eq_2 s hshort]

/-- An even number of hexadecimal digits. -/
def HexDigits (s : List Char) : Prop := s.length % 2 = 0 ∧ ∀ c ∈ s, IsHexDigit c

theorem HexDigits.cons {c d : Char} {s : List Char} (hc : IsHexDigit c) (hd : IsHexDigit d)
    (hs : HexDigits s) : HexDigits (c :: d :: s) :=
  ⟨by simpa [Nat.add_assoc] using hs.1,
    List.forall_mem_cons.2 ⟨hc, List.forall_mem_cons.2 ⟨hd, hs.2⟩⟩⟩

theorem hexDigits_cons_iff {c d : Char} {s : List Char} :
    HexDigits (c :: d :: s) ↔ IsHexDigit c ∧ IsHexDigit d ∧ HexDigits s := by
  simp only [HexDigits, List.length_cons, List.forall_mem_cons, Nat.add_assoc, Nat.add_mod_right]
  tauto

/-- Digits are read to the end, and written again in lower case. -/
theorem readPairs_of_hexDigits {s : List Char} (h : HexDigits s) :
    (readPairs s).2 = [] ∧ (readPairs s).1.flatMap lowerHex = s.map Char.toLower := by
  induction s using behindPairs.induct with
  | case1 c d s hpair ih =>
    obtain ⟨hc, hd, hs⟩ := hexDigits_cons_iff.1 h
    obtain ⟨x, hx⟩ := exists_toDigit16_iff.2 hc
    obtain ⟨y, hy⟩ := exists_toDigit16_iff.2 hd
    have hb := u8FromStrRadix16_pair_eq_ok_iff.2 ⟨y, hy, Or.inr ⟨x, hx, rfl⟩⟩
    obtain ⟨hx16, hxc⟩ := hexDigit_of_toDigit16 hx
    obtain ⟨hy16, hyd⟩ := hexDigit_of_toDigit16 hy
    obtain ⟨hrest, htext⟩ := ih hs
    rw [readPairs, hb]
    refine ⟨hrest, ?_⟩
    have hvalue : (UInt8.ofNat (16 * x + y)).toNat = 16 * x + y := by
      rw [UInt8.toNat_ofNat']
      omega
    simp only [List.flatMap_cons, htext, lowerHex, hvalue, List.map_cons, List.cons_append,
      List.nil_append]
    rw [show (16 * x + y) / 16 = x by omega, show (16 * x + y) % 16 = y by omega, hxc, hyd]
  | case2 c d s hno =>
    obtain ⟨hc, hd, -⟩ := hexDigits_cons_iff.1 h
    exact absurd ⟨Or.inl hc, hd⟩ hno
  | case3 s hshort =>
    rcases s with _ | ⟨c, _ | ⟨d, s⟩⟩
    · exact ⟨rfl, rfl⟩
    · cases h.1
    · exact (hshort c d s rfl).elim

/-- Without a plus sign only digits are read to the end. -/
theorem hexDigits_of_behindPairs {s : List Char} (h : behindPairs s = []) (hplus : '+' ∉ s) :
    HexDigits s := by
  induction s using behindPairs.induct with
  | case1 c d s hpair ih =>
    rw [behindPairs, if_pos hpair] at h
    rw [List.mem_cons, List.mem_cons, not_or, not_or] at hplus
    exact .cons (hpair.1.resolve_right fun hc => hplus.1 hc.symm) hpair.2 (ih h hplus.2.2)
  | case2 c d s hno =>
    rw [behindPairs, if_neg hno] at h
    cases h
  | case3 s hshort =>
    rw [behindPairs.eq_2 s hshort] at h
    subst h
    exact ⟨rfl, List.forall_mem_nil _⟩

theorem exists_ok_iff (s : String) :
    (∃ bytes, hexDecode s = some (.ok bytes)) ↔ behindPairs s.toList = [] := by
  rw [← readPairs_snd]
  constructor
  · rintro ⟨bytes, h⟩
    rw [hexDecode_eq_ok_iff.1 h]
  · intro h
    exact ⟨_, hexDecode_eq_ok_iff.2 (Prod.ext rfl h)⟩

theorem exists_error_iff (s : String) :
    (∃ e, hexDecode s = some (.error e)) ↔ (takeBytes (behindPairs s.toList) 2).isSome := by
  have hcases := hexDecode_cases s
  rw [← readPairs_snd]
  generalize readPairs s.toList = read at hcases
  generalize hexDecode s = result at hcases
  cases hcases with
  | ok bytes => simp [takeBytes]
  | refused bytes e hslice => simp [hslice]
  | panics bytes hne hslice => simp [hslice]

/-- **What `decode` is to do with a text.**  Digits, an even number of them, are decoded to the
bytes whose text in lower case they are; any other text is refused with an error. -/
structure DecodesExactly (s : String) : Prop where
  ok : HexDigits s.toList → ∃ bytes, hexDecode s = some (.ok bytes) ∧
    (hexEncode bytes).toList = s.toList.map Char.toLower
  err : ¬ HexDigits s.toList → ∃ e, hexDecode s = some (.error e)

/-- **`decode` is exact on a text if and only if** the text is read to its end and has no plus
sign, or what is left of it begins with two bytes of whole characters.  On all others it accepts a
plus sign or panics. -/
theorem hexDecode_exact_iff (s : String) :
    DecodesExactly s ↔ behindPairs s.toList = [] ∧ '+' ∉ s.toList ∨
      (takeBytes (behindPairs s.toList) 2).isSome := by
  constructor
  · intro h
    by_cases hdigits : HexDigits s.toList
    · obtain ⟨bytes, hok, -⟩ := h.ok hdigits
      refine Or.inl ⟨(exists_ok_iff s).1 ⟨bytes, hok⟩, fun hplus => ?_⟩
      exact absurd (hdigits.2 '+' hplus) (by decide)
    · exact Or.inr ((exists_error_iff s).1 (h.err hdigits))
  · rintro (⟨hnil, hplus⟩ | hslice)
    · have hdigits := hexDigits_of_behindPairs hnil hplus
      obtain ⟨hrest, htext⟩ := readPairs_of_hexDigits hdigits
      refine ⟨fun _ => ⟨_, hexDecode_eq_ok_iff.2 (Prod.ext rfl hrest), ?_⟩,
        fun hno => absurd hdigits hno⟩
      rw [hexEncode, String.toList_ofList, htext]
    · refine ⟨fun hdigits => ?_, fun _ => (exists_error_iff s).2 hslice⟩
      rw [← readPairs_snd, (readPairs_of_hexDigits hdigits).1] at hslice
      cases hslice

/-- An odd number of digits, a plus sign, and a digit in front of a longer character. -/
theorem not_decodes_exactly :
    (¬ DecodesExactly "abc" ∧ hexDecode "abc" = none) ∧
      (¬ DecodesExactly "+f" ∧ hexDecode "+f" = some (.ok [15])) ∧
      (¬ DecodesExactly "aé1" ∧ hexDecode "aé1" = none) := by
  have hodd : hexDecode "abc" = none := by decide
  have hplus : hexDecode "+f" = some (.ok [15]) := by decide
  have hlong : hexDecode "aé1" = none := by decide
  refine ⟨⟨fun h => ?_, hodd⟩, ⟨fun h => ?_, hplus⟩, ⟨fun h => ?_, hlong⟩⟩
  · obtain ⟨e, he⟩ := h.err (by simp [HexDigits])
    rw [hodd] at he
    cases he
  · obtain ⟨e, he⟩ := h.err fun hdigits => absurd (hdigits.2 '+' (by decide)) (by decide)
    rw [hplus] at he
    cases he
  · obtain ⟨e, he⟩ := h.err (by simp [HexDigits])
    rw [hlong] at he
    cases he

/-! ## Addresses and keys -/

theorem readPairs_lowerHex (bytes : List UInt8) :
    readPairs (bytes.flatMap lowerHex) = (bytes, []) := by
  induction bytes with
  | nil => rfl
  | cons b bytes ih =>
    have hb := u8FromStrRadix16_lowerHex b
    rw [lowerHex] at hb
    rw [List.flatMap_cons, lowerHex, List.cons_append, List.cons_append, List.nil_append, readPairs,
      hb, ih]

/-- **An address is a key, written out.**  Every byte sequence is read back from its text; different
ones have different texts; and the text is two lower-case digits for a byte. -/
theorem address_round_trip :
    (∀ bytes, hexDecode (hexEncode bytes) = some (.ok bytes)) ∧
      Function.Injective hexEncode ∧
      ∀ bytes, (hexEncode bytes).toList.length = 2 * bytes.length ∧
        ∀ c ∈ (hexEncode bytes).toList, c ∈ lowerHexDigits := by
  refine ⟨fun bytes => ?_, fun as bs h => hexEncode_injective h,
    fun bytes => ⟨length_hexEncode bytes, fun c hc => mem_lowerHexDigits_of_mem_hexEncode hc⟩⟩
  rw [hexDecode_eq_ok_iff, hexEncode, String.toList_ofList, readPairs_lowerHex]

end RustSamples.Doge
