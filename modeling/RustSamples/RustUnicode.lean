import RustSamples.RustStr

/-! # Lower case

`str::to_lowercase` over the character data of the Unicode version that the standard library is
built with.  Of the data only the ASCII part is fixed here, so what is proved holds for every
version.

Every character has a lower-case text of its own, which may have another number of bytes.  Only
`Σ` looks around: at the end of a word it becomes `ς`, elsewhere `σ`.
-/
namespace RustStr

/-- The tables behind `char::to_lowercase` and the two properties that `Σ` asks for. -/
structure UnicodeData where
  toLower : Char → List Char
  isCased : Char → Bool
  isCaseIgnorable : Char → Bool
  ascii : ∀ c : Char, c.toNat < 128 → toLower c = [c.toLower]

namespace UnicodeData
variable (U : UnicodeData)

/-- `case_ignorable_then_cased`. -/
def caseIgnorableThenCased (s : List Char) : Bool :=
  (s.dropWhile U.isCaseIgnorable).head?.any U.isCased

/-- `map_uppercase_sigma`, of the characters in front (backwards) and behind. -/
def mapUppercaseSigma (before behind : List Char) : Char :=
  if U.caseIgnorableThenCased before && !U.caseIgnorableThenCased behind then 'ς' else 'σ'

/-- `to_lowercase`, behind the characters `before` (backwards). -/
def toLowercaseFrom (before : List Char) : List Char → List Char
  | [] => []
  | c :: s =>
      (if c = 'Σ' then [U.mapUppercaseSigma before s] else U.toLower c) ++
        toLowercaseFrom (c :: before) s

/-- `s.to_lowercase()`. -/
def toLowercase (s : List Char) : List Char := U.toLowercaseFrom [] s

/-- The lower case of `s` between `before` (backwards) and `behind`. -/
def toLowercaseIn (before : List Char) : List Char → List Char → List Char
  | [], _ => []
  | c :: s, behind =>
      (if c = 'Σ' then [U.mapUppercaseSigma before (s ++ behind)] else U.toLower c) ++
        toLowercaseIn (c :: before) s behind

/-! ### Texts that keep their offsets -/

/-- The first character of the lower case. -/
def lowerChar (c : Char) : Char := (U.toLower c).headD c

/-- Every character has a lower case of one character, as long as itself; so have both lower cases
of `Σ`. -/
def KeepsSize (s : List Char) : Prop :=
  ∀ c ∈ s, c = 'Σ' ∨ U.toLower c = [U.lowerChar c] ∧ (U.lowerChar c).utf8Size = c.utf8Size

/-- Every character has a lower case of one character, as long as itself, and asks for nothing
around it. -/
def KeepsLength (s : List Char) : Prop :=
  ∀ c ∈ s, c ≠ 'Σ' ∧ U.toLower c = [U.lowerChar c] ∧ (U.lowerChar c).utf8Size = c.utf8Size

/-- Between `a` and `b` every `Σ` of `s` ends a word if it does so in `s` alone. -/
def SigmasAlone (a s b : List Char) : Prop :=
  ∀ front rest, s = front ++ 'Σ' :: rest →
    U.mapUppercaseSigma (front.reverse ++ a.reverse) (rest ++ b) =
      U.mapUppercaseSigma front.reverse rest

variable {U}

theorem toLowercaseFrom_append (before s t : List Char) :
    U.toLowercaseFrom before (s ++ t) =
      U.toLowercaseIn before s t ++ U.toLowercaseFrom (s.reverse ++ before) t := by
  induction s generalizing before with
  | nil => rfl
  | cons c s ih =>
    rw [List.cons_append, toLowercaseFrom, toLowercaseIn, ih, List.append_assoc,
      List.reverse_cons, List.append_assoc]
    rfl

/-- A text in three pieces is lower-cased piece by piece, each between the others. -/
theorem toLowercase_append (a m b : List Char) :
    U.toLowercase (a ++ m ++ b) = U.toLowercaseIn [] a (m ++ b) ++ U.toLowercaseIn a.reverse m b ++
      U.toLowercaseFrom (m.reverse ++ a.reverse) b := by
  rw [toLowercase, List.append_assoc, toLowercaseFrom_append, toLowercaseFrom_append,
    List.append_nil, List.append_assoc]

theorem utf8Size_mapUppercaseSigma (before behind : List Char) :
    (U.mapUppercaseSigma before behind).utf8Size = 'Σ'.utf8Size := by
  rw [mapUppercaseSigma]
  split <;> rfl

/-- The lower case of characters that keep their size has as many characters and bytes. -/
theorem KeepsSize.toLowercaseIn {s : List Char} (h : U.KeepsSize s) (before behind : List Char) :
    (U.toLowercaseIn before s behind).length = s.length ∧
      len (U.toLowercaseIn before s behind) = len s := by
  induction s generalizing before with
  | nil => exact ⟨rfl, rfl⟩
  | cons c s ih =>
    obtain ⟨hlength, hlen⟩ := ih (fun d hd => h d (List.mem_cons_of_mem c hd)) (c :: before)
    obtain ⟨d, hd, hsize⟩ : ∃ d : Char, (if c = 'Σ' then
        [U.mapUppercaseSigma before (s ++ behind)] else U.toLower c) = [d] ∧
          d.utf8Size = c.utf8Size := by
      by_cases hsigma : c = 'Σ'
      · exact ⟨_, if_pos hsigma, hsigma ▸ utf8Size_mapUppercaseSigma ..⟩
      · obtain ⟨hlower, hsize⟩ := (h c List.mem_cons_self).resolve_left hsigma
        exact ⟨_, (if_neg hsigma).trans hlower, hsize⟩
    rw [UnicodeData.toLowercaseIn, hd, List.singleton_append]
    exact ⟨by rw [List.length_cons, List.length_cons, hlength],
      by rw [len_cons, len_cons, hlen, hsize]⟩

/-- A text whose `Σ`s look no further than itself is lower-cased as it is alone. -/
theorem SigmasAlone.toLowercaseIn_eq {a s b : List Char} (h : U.SigmasAlone a s b) :
    U.toLowercaseIn a.reverse s b = U.toLowercase s := by
  -- of `s` the part `front` is done
  have hrest : ∀ rest front, s = front ++ rest →
      U.toLowercaseIn (front.reverse ++ a.reverse) rest b =
        U.toLowercaseFrom front.reverse rest := by
    intro rest
    induction rest with
    | nil => exact fun _ _ => rfl
    | cons c rest ih =>
      intro front hs
      have hlater := ih (front ++ [c]) (by rw [hs, List.append_assoc]; rfl)
      rw [List.reverse_append] at hlater
      rw [UnicodeData.toLowercaseIn, toLowercaseFrom]
      refine congrArg₂ _ ?_ hlater
      by_cases hsigma : c = 'Σ'
      · subst hsigma
        rw [if_pos rfl, if_pos rfl, h front rest hs]
      · rw [if_neg hsigma, if_neg hsigma]
  exact hrest s [] rfl

theorem sigmasAlone_of_not_mem {a s b : List Char} (h : 'Σ' ∉ s) : U.SigmasAlone a s b := by
  rintro front rest rfl
  exact absurd (List.mem_append_right front List.mem_cons_self) h

/-- **What is lower-cased in place**: of a text whose characters keep their size, the piece that
stands as many characters behind the beginning as a word in the lower-cased text is that word, at
the same offset, if its `Σ`s look no further. -/
theorem KeepsSize.place {a m b front lower rest : List Char} (h : U.KeepsSize (a ++ m))
    (hlower : U.toLowercase (a ++ m ++ b) = front ++ lower ++ rest)
    (ha : a.length = front.length) (hm : m.length = lower.length) (halone : U.SigmasAlone a m b) :
    len a = len front ∧ len m = len lower ∧ U.toLowercase m = lower := by
  obtain ⟨hlengthA, hlenA⟩ := KeepsSize.toLowercaseIn (s := a)
    (fun c hc => h c (List.mem_append_left m hc)) [] (m ++ b)
  obtain ⟨hlengthM, hlenM⟩ := KeepsSize.toLowercaseIn (s := m)
    (fun c hc => h c (List.mem_append_right a hc)) a.reverse b
  rw [toLowercase_append, List.append_assoc, List.append_assoc] at hlower
  obtain ⟨hfront, hbehind⟩ := List.append_inj hlower (hlengthA.trans ha)
  obtain ⟨hpiece, -⟩ := List.append_inj hbehind (hlengthM.trans hm)
  rw [← hfront, ← hpiece]
  exact ⟨hlenA.symm, hlenM.symm, halone.toLowercaseIn_eq.symm⟩

theorem KeepsLength.keepsSize {s : List Char} (h : U.KeepsLength s) : U.KeepsSize s :=
  fun c hc => Or.inr (h c hc).2

theorem KeepsLength.sigmasAlone {a s b : List Char} (h : U.KeepsLength s) : U.SigmasAlone a s b :=
  sigmasAlone_of_not_mem fun hmem => (h _ hmem).1 rfl

theorem KeepsLength.of_subset {s t : List Char} (h : U.KeepsLength s) (hsub : t ⊆ s) :
    U.KeepsLength t := fun c hc => h c (hsub hc)

/-- Characters that keep their length are lower-cased one by one. -/
theorem toLowercase_of_keepsLength {s : List Char} (h : U.KeepsLength s) :
    U.toLowercase s = s.map U.lowerChar := by
  have hfrom : ∀ before, U.toLowercaseFrom before s = s.map U.lowerChar := by
    induction s with
    | nil => exact fun _ => rfl
    | cons c s ih =>
      intro before
      obtain ⟨hsigma, hlower, _⟩ := h c List.mem_cons_self
      rw [toLowercaseFrom, if_neg hsigma, hlower, ih (h.of_subset (List.subset_cons_self c s))]
      rfl
  exact hfrom []

theorem len_map_lowerChar {s : List Char} (h : U.KeepsLength s) :
    len (s.map U.lowerChar) = len s := by
  induction s with
  | nil => rfl
  | cons c s ih =>
    rw [List.map_cons, len_cons, len_cons, ih (h.of_subset (List.subset_cons_self c s)),
      (h c List.mem_cons_self).2.2]

/-- What stands in the lower case of characters that keep their length stands in these themselves,
as many characters behind the beginning. -/
theorem KeepsLength.exists_split {s lower front rest : List Char}
    (h : U.KeepsLength s) (hlower : U.toLowercase s = front ++ lower ++ rest) :
    ∃ a m b, s = a ++ m ++ b ∧ a.length = front.length ∧ m.length = lower.length := by
  rw [toLowercase_of_keepsLength h] at hlower
  obtain ⟨am, b, rfl, ham, rfl⟩ := List.map_eq_append_iff.1 hlower
  obtain ⟨a, m, rfl, rfl, rfl⟩ := List.map_eq_append_iff.1 ham
  exact ⟨a, m, b, rfl, (List.length_map _).symm, (List.length_map _).symm⟩

theorem utf8Size_toLower_of_ascii {c : Char} (h : c.toNat < 128) :
    c.toLower.utf8Size = c.utf8Size := by
  have hall : ∀ n < 128, (Char.ofNat n).toLower.utf8Size = (Char.ofNat n).utf8Size := by decide
  rw [← Char.ofNat_toNat c]
  exact hall c.toNat h

theorem lowerChar_of_ascii {c : Char} (h : c.toNat < 128) : U.lowerChar c = c.toLower := by
  rw [lowerChar, U.ascii c h]
  rfl

/-- ASCII keeps its length. -/
theorem keepsLength_of_ascii {s : List Char} (h : ∀ c ∈ s, c.toNat < 128) : U.KeepsLength s := by
  intro c hc
  have hchar : U.lowerChar c = c.toLower := lowerChar_of_ascii (h c hc)
  refine ⟨?_, ?_, ?_⟩
  · rintro rfl
    exact absurd (h _ hc) (by decide)
  · rw [hchar, U.ascii c (h c hc)]
  · rw [hchar, utf8Size_toLower_of_ascii (h c hc)]

theorem toLowercase_of_ascii {s : List Char} (h : ∀ c ∈ s, c.toNat < 128) :
    U.toLowercase s = s.map Char.toLower := by
  rw [toLowercase_of_keepsLength (keepsLength_of_ascii h)]
  exact List.map_congr_left fun c hc => lowerChar_of_ascii (h c hc)

end UnicodeData
end RustStr
