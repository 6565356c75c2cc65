import RustSamples.DlpAnalyzer
import RustSamples.GreedyIntervals

/-! # The scan for a keyword

A scan that returns has met the keyword at the greedy choice of its places in the lower-cased
text: each time the first place that is at least `word.len()` bytes behind the last one
(`exists_greedy_of_returns`).  In ASCII a place in the lower-cased text is one in the text, so the
scan finds as many places that do not overlap as there can be (`ascii_scan_is_exact`).

Every round of a scan moves on by the length of the keyword.  So a scan ends, by returning or by a
panic, unless the keyword is empty; the scan for the empty keyword finds it at 0 forever
(`scans_end_iff`).
-/
namespace RustSamples.DlpAnalyzer
open RustStr GreedyIntervals

variable {U : UnicodeData} {text word : List Char} {leakType : LeakType} {score : UInt32}

/-! ## The places that a scan meets -/

/-- The lower-cased keyword stands at byte `o` of the lower-cased text. -/
def LowerOccursAt (U : UnicodeData) (text word : List Char) (o : Nat) : Prop :=
  ∃ front rest, U.toLowercase text = front ++ U.toLowercase word ++ rest ∧ len front = o

/-- What stands behind a boundary is found behind it, there or earlier. -/
theorem find_of_lowerOccursAt {pos o : Nat} {rest : List Char}
    (hrest : dropBytes (U.toLowercase text) pos = some rest) (hle : pos ≤ o)
    (ho : LowerOccursAt U text word o) :
    ∃ index, find rest (U.toLowercase word) = some index ∧ pos + index ≤ o := by
  obtain ⟨front, htext, hfront⟩ := dropBytes_eq_some_iff.1 hrest
  obtain ⟨front', rest', htext', hfront'⟩ := ho
  have hpre : front <+: front' :=
    prefix_of_len_le htext (htext'.trans (List.append_assoc ..)) (by omega)
  obtain ⟨between, hbetween⟩ := hpre
  have hsplit : rest = between ++ U.toLowercase word ++ rest' := by
    have hboth : front ++ rest = front ++ (between ++ U.toLowercase word ++ rest') := by
      rw [← htext, htext', ← hbetween]
      simp
    exact List.append_cancel_left hboth
  obtain ⟨index, hindex, hle'⟩ := exists_find_le between (U.toLowercase word) rest'
  refine ⟨index, hsplit ▸ hindex, ?_⟩
  have hlen := congrArg len hbetween
  rw [len_append] at hlen
  omega

theorem lowerOccursAt_of_find {pos index : Nat} {rest : List Char}
    (hrest : dropBytes (U.toLowercase text) pos = some rest)
    (hfind : find rest (U.toLowercase word) = some index) :
    LowerOccursAt U text word (pos + index) :=
  (Meets.first hrest hfind).exists_split

theorem meets_iff {pos o : Nat} {rest : List Char}
    (hrest : dropBytes (U.toLowercase text) pos = some rest) :
    Meets U text word pos o ↔ ∃ index, find rest (U.toLowercase word) = some index ∧
      (o = pos + index ∨ Meets U text word (pos + index + len word) o) := by
  constructor
  · intro h
    cases h with
    | first hrest' hfind =>
      obtain rfl := Option.some.inj (hrest.symm.trans hrest')
      exact ⟨_, hfind, Or.inl rfl⟩
    | later hrest' hfind hlater =>
      obtain rfl := Option.some.inj (hrest.symm.trans hrest')
      exact ⟨_, hfind, Or.inr hlater⟩
  · rintro ⟨index, hfind, rfl | hlater⟩
    · exact Meets.first hrest hfind
    · exact Meets.later hrest hfind hlater

/-- What is reported at a place. -/
def detectionAt (text word : List Char) (leakType : LeakType) (score : UInt32) (o : Nat) :
    Detection :=
  ⟨leakType, (slice text o (o + len word)).getD [], score⟩

/-- **A scan meets the greedy choice of the places of the keyword**, and reports what the text has
there. -/
theorem exists_greedy_of_returns {fuel pos : Nat} {detections : List Detection}
    (h : scanFrom U text word leakType score fuel pos = .returns detections) :
    ∃ positions, Greedy (LowerOccursAt U text word) (len word) pos positions ∧
      (∀ o, o ∈ positions ↔ Meets U text word pos o) ∧
      detections = positions.map (detectionAt text word leakType score) := by
  induction detections generalizing fuel pos with
  | nil =>
    obtain ⟨rest, hrest, ⟨hnone, _⟩ | ⟨_, _, _, _, _, _, _, hcons⟩⟩ := scanFrom_returns_cases h
    · refine ⟨[], .nil fun o hle ho => ?_, fun o => ?_, rfl⟩
      · obtain ⟨index, hindex, _⟩ := find_of_lowerOccursAt hrest hle ho
        rw [hnone] at hindex
        cases hindex
      · simp [meets_iff hrest, hnone]
    · cases hcons
  | cons d later ih =>
    obtain ⟨rest, hrest, ⟨_, hnil⟩ | ⟨_, index, piece, _, hfind, hslice, hlater, hcons⟩⟩ :=
      scanFrom_returns_cases h
    · cases hnil
    · obtain ⟨rfl, rfl⟩ := List.cons.inj hcons
      obtain ⟨positions, hgreedy, hmeets, rfl⟩ := ih hlater
      refine ⟨(pos + index) :: positions, ?_, fun o => ?_, ?_⟩
      · refine .cons (Nat.le_add_right _ _) (lowerOccursAt_of_find hrest hfind) ?_ hgreedy
        intro o hle hlt ho
        obtain ⟨index', hindex', hle'⟩ := find_of_lowerOccursAt hrest hle ho
        obtain rfl := Option.some.inj (hfind.symm.trans hindex')
        omega
      · rw [List.mem_cons, hmeets, meets_iff hrest]
        simp [hfind]
      · rw [List.map_cons, detectionAt, hslice]
        rfl

/-- More rounds do not change what a scan returns. -/
theorem scanFrom_returns_unique {fuel fuel' pos : Nat} {detections detections' : List Detection}
    (h : scanFrom U text word leakType score fuel pos = .returns detections)
    (h' : scanFrom U text word leakType score fuel' pos = .returns detections') :
    detections = detections' := by
  induction detections generalizing fuel fuel' pos detections' with
  | nil =>
    obtain ⟨rest, hrest, ⟨hnone, _⟩ | ⟨_, _, _, _, _, _, _, hcons⟩⟩ := scanFrom_returns_cases h
    · obtain ⟨rest', hrest', ⟨_, hnil⟩ | ⟨_, _, _, _, hfind, _⟩⟩ := scanFrom_returns_cases h'
      · exact hnil.symm
      · obtain rfl := Option.some.inj (hrest.symm.trans hrest')
        rw [hnone] at hfind
        cases hfind
    · cases hcons
  | cons d later ih =>
    obtain ⟨rest, hrest, ⟨_, hnil⟩ | ⟨_, index, piece, _, hfind, hslice, hlater, hcons⟩⟩ :=
      scanFrom_returns_cases h
    · cases hnil
    · obtain ⟨rfl, rfl⟩ := List.cons.inj hcons
      obtain ⟨_, piece', later', hslice', hlater', rfl⟩ := scanFrom_returns_of_find hrest hfind h'
      obtain rfl := Option.some.inj (hslice.symm.trans hslice')
      rw [ih hlater hlater']

/-! ## In ASCII -/

/-- At character `o` of the text there is a piece that is the keyword but for the case. -/
def OccursIgnoringCase (text word : List Char) (o : Nat) : Prop :=
  ∃ front piece rest, text = front ++ piece ++ rest ∧ front.length = o ∧
    piece.map Char.toLower = word.map Char.toLower

/-- **What a scan is to report**: `positions` are the places of `detections`, one behind the
other, and the text has the keyword there; every place of the keyword overlaps one of them, and
there is no larger set of places that do not overlap. -/
structure ExactScan (text word : List Char) (detections : List Detection)
    (positions : List Nat) : Prop where
  pieces : detections.map Detection.matchedText =
    positions.map fun o => (text.drop o).take word.length
  increasing : positions.Pairwise fun a b => a < b ∧ a + word.length ≤ b
  reported : ∀ o ∈ positions, OccursIgnoringCase text word o
  covered : ∀ o, OccursIgnoringCase text word o → ∃ p ∈ positions, Overlap word.length o p
  largest : IsGreatest { k | ∃ S, Packing (OccursIgnoringCase text word) word.length S ∧
    S.card = k } detections.length

/-- In ASCII the places in the lower-cased text are those in the text. -/
theorem lowerOccursAt_iff_of_ascii (htext : ∀ c ∈ text, c.toNat < 128)
    (hword : ∀ c ∈ word, c.toNat < 128) (o : Nat) :
    LowerOccursAt U text word o ↔ OccursIgnoringCase text word o := by
  constructor
  · rintro ⟨front, rest, hsplit, hfront⟩
    have hkept : U.KeepsLength text := UnicodeData.keepsLength_of_ascii htext
    obtain ⟨a, m, b, rfl, hfrontLength, hm⟩ := hkept.exists_split hsplit
    have halone : U.SigmasAlone a m b :=
      (hkept.of_subset fun c hc => by simp [hc]).sigmasAlone
    obtain ⟨ha, _, hlower⟩ := (hkept.of_subset (List.subset_append_left ..)).keepsSize.place hsplit
      hfrontLength hm halone
    have hascii : ∀ c ∈ a, c.toNat < 128 := fun c hc => htext c (by simp [hc])
    refine ⟨a, m, b, rfl, by rw [← len_of_ascii hascii, ha, hfront], ?_⟩
    rwa [UnicodeData.toLowercase_of_ascii fun c hc => htext c (by simp [hc]),
      UnicodeData.toLowercase_of_ascii hword] at hlower
  · rintro ⟨a, m, b, rfl, rfl, hlower⟩
    have hascii : ∀ c ∈ a, c.toNat < 128 := fun c hc => htext c (by simp [hc])
    refine ⟨a.map Char.toLower, b.map Char.toLower, ?_, ?_⟩
    · rw [UnicodeData.toLowercase_of_ascii htext, UnicodeData.toLowercase_of_ascii hword,
        List.map_append, List.map_append, hlower]
    · rw [← UnicodeData.toLowercase_of_ascii (U := U) hascii,
        UnicodeData.toLowercase_of_keepsLength (UnicodeData.keepsLength_of_ascii hascii),
        UnicodeData.len_map_lowerChar (UnicodeData.keepsLength_of_ascii hascii),
        len_of_ascii hascii]

/-- In ASCII the piece at a place is cut out by characters. -/
theorem matchedText_detectionAt (htext : ∀ c ∈ text, c.toNat < 128)
    (hword : ∀ c ∈ word, c.toNat < 128) {o : Nat} (ho : OccursIgnoringCase text word o) :
    (detectionAt text word leakType score o).matchedText = (text.drop o).take word.length := by
  obtain ⟨front, piece, rest, rfl, rfl, hlower⟩ := ho
  have hlength : piece.length = word.length := by
    rw [← List.length_map (f := Char.toLower), hlower, List.length_map]
  have hslice : slice (front ++ piece ++ rest) front.length (front.length + len word) =
      some piece := by
    refine slice_eq_some_iff.2 ⟨front, rest, rfl, ?_, ?_⟩
    · exact len_of_ascii fun c hc => htext c (by simp [hc])
    · rw [len_of_ascii hword, ← hlength]
      exact len_of_ascii fun c hc => htext c (by simp [hc])
  rw [detectionAt, hslice, List.append_assoc, List.drop_left, ← hlength, List.take_left]
  rfl

/-- **In ASCII a scan is exact.**  For every text and every keyword in ASCII that is not empty, the
scan returns, and it reports the keyword at the places it has met: in increasing order, without
overlap, at no place that is not one of the keyword, and at as many places as can be chosen
without overlap. -/
theorem ascii_scan_is_exact (U : UnicodeData) {text word : List Char}
    (htext : ∀ c ∈ text, c.toNat < 128) (hword : ∀ c ∈ word, c.toNat < 128) (hne : word ≠ [])
    (leakType : LeakType) (score : UInt32) :
    ∃ detections positions,
      (∀ fuel, text.length < fuel →
        scanFrom U text word leakType score fuel 0 = .returns detections) ∧
      (∀ o, o ∈ positions ↔ Meets U text word 0 o) ∧
      ExactScan text word detections positions := by
  have hsame : SameOffsets U text word := sameOffsets_of_keepsLength
    (UnicodeData.keepsLength_of_ascii htext) (UnicodeData.keepsLength_of_ascii hword)
  have hlen : len (U.toLowercase text) = text.length := by
    rw [UnicodeData.toLowercase_of_keepsLength (UnicodeData.keepsLength_of_ascii htext),
      UnicodeData.len_map_lowerChar (UnicodeData.keepsLength_of_ascii htext), len_of_ascii htext]
  have hreturns : ∀ fuel, text.length < fuel → ∃ detections,
      scanFrom U text word leakType score fuel 0 = .returns detections := fun fuel hfuel =>
    exists_scanFrom_returns hne (by rwa [hlen]) ⟨[], _, rfl, rfl⟩ hsame
  obtain ⟨detections, hscan⟩ := hreturns (text.length + 1) (Nat.lt_succ_self _)
  obtain ⟨positions, hgreedy, hmeets, rfl⟩ := exists_greedy_of_returns hscan
  -- the greedy choice is one among the places of the text, in characters
  have hplaces : LowerOccursAt U text word = OccursIgnoringCase text word :=
    funext fun o => propext (lowerOccursAt_iff_of_ascii htext hword o)
  rw [hplaces, len_of_ascii hword] at hgreedy
  have hpos : 0 < word.length := List.length_pos_iff.2 hne
  refine ⟨positions.map (detectionAt text word leakType score), positions,
    fun fuel hfuel => ?_, hmeets, ?_, ?_, hgreedy.mem_of_mem, ?_, ?_⟩
  · obtain ⟨detections', hscan'⟩ := hreturns fuel hfuel
    rw [hscan', scanFrom_returns_unique hscan hscan']
  · rw [List.map_map]
    exact List.map_congr_left fun o ho =>
      matchedText_detectionAt htext hword (hgreedy.mem_of_mem o ho)
  · exact hgreedy.pairwise.imp fun hab => ⟨by omega, hab⟩
  · exact fun o ho => hgreedy.exists_overlap hpos (Nat.zero_le o) ho
  · rw [List.length_map]
    exact hgreedy.isGreatest_length hpos

/-- A keyword that overlaps itself. -/
theorem scan_of_ana :
    ∃ detections positions,
      (∀ fuel, "An-ANANAS".toList.length < fuel →
        scanFrom asciiAndDottedI "An-ANANAS".toList "ana".toList .sourceCode 1 fuel 0 =
          .returns detections) ∧
      (∀ o, o ∈ positions ↔ Meets asciiAndDottedI "An-ANANAS".toList "ana".toList 0 o) ∧
      ExactScan "An-ANANAS".toList "ana".toList detections positions :=
  ascii_scan_is_exact asciiAndDottedI (by simp) (by simp) (by simp) .sourceCode 1

/-! ## Scans that end -/

/-- A round with a keyword moves on, so that a scan has no more rounds than there are bytes. -/
theorem scanFrom_ne_running (hne : word ≠ []) {fuel pos : Nat}
    (hfuel : len (U.toLowercase text) + 1 - pos < fuel) :
    scanFrom U text word leakType score fuel pos ≠ .running := by
  induction fuel generalizing pos with
  | zero => exact absurd hfuel (Nat.not_lt_zero _)
  | succ fuel ih =>
    cases hrest : dropBytes (U.toLowercase text) pos with
    | none => simp [scanFrom, hrest]
    | some rest =>
      cases hfind : find rest (U.toLowercase word) with
      | none => simp [scanFrom_of_find_none hrest hfind]
      | some index =>
        cases hslice : slice text (pos + index) (pos + index + len word) with
        | none => simp [scanFrom, hrest, hfind, hslice]
        | some piece =>
          obtain ⟨front, hsplit, hfront⟩ := dropBytes_eq_some_iff.1 hrest
          have htotal := congrArg len hsplit
          rw [len_append] at htotal
          have hadvance := len_pos hne
          rw [scanFrom_of_slice hrest hfind hslice]
          exact Run.map_ne_running (ih (by omega))

/-- The empty keyword is found at 0 in every round. -/
theorem scanFrom_nil_running (fuel : Nat) :
    scanFrom U text [] leakType score fuel 0 = .running := by
  induction fuel with
  | zero => rfl
  | succ fuel ih =>
    have hrest : dropBytes (U.toLowercase text) 0 = some (U.toLowercase text) :=
      dropBytes_append [] _
    have hfind : find (U.toLowercase text) (U.toLowercase []) = some 0 := by
      obtain ⟨index, hindex, hle⟩ := exists_find_le [] (U.toLowercase []) (U.toLowercase text)
      rw [← Nat.le_zero.1 hle]
      exact hindex
    have hslice : slice text (0 + 0) (0 + 0 + len []) = some [] :=
      slice_eq_some_iff.2 ⟨[], text, rfl, rfl, rfl⟩
    rw [scanFrom_of_slice hrest hfind hslice, len_nil, ih]
    rfl

namespace DlpEngine
variable {engine : DlpEngine}

/-- **All scans of a text come to an end**, and so does its analysis.  The scans are those of every
keyword of every rule, also where the analysis does not start them since an earlier one has
panicked. -/
structure Ends (U : UnicodeData) (engine : DlpEngine) (text : List Char) : Prop where
  scans : ∀ word leakType score, engine.HasKeyword word leakType score →
    ∃ fuel, scanFrom U text word leakType score fuel 0 ≠ .running
  analysis : ∃ fuel, engine.analyze U fuel text ≠ .running

theorem analyze_ne_running {fuel : Nat}
    (h : ∀ word leakType score, engine.HasKeyword word leakType score →
      scanFrom U text word leakType score fuel 0 ≠ .running) :
    engine.analyze U fuel text ≠ .running := by
  refine Run.map_ne_running (Run.all_ne_running (List.forall_mem_map.2 fun rule hrule => ?_))
  cases rule with
  | signature findIter leakType score => simp [Rule.detections]
  | dictionary dict leakType =>
    refine Run.map_ne_running (Run.all_ne_running (List.forall_mem_map.2 fun entry hentry => ?_))
    exact h entry.1 leakType entry.2 ⟨dict, hrule, hentry⟩

end DlpEngine

/-- **The scans end exactly if no keyword is empty.** -/
theorem scans_end_iff (U : UnicodeData) (engine : DlpEngine) (text : List Char) :
    engine.Ends U text ↔
      ∀ word leakType score, engine.HasKeyword word leakType score → word ≠ [] := by
  constructor
  · rintro h word leakType score hkey rfl
    obtain ⟨fuel, hfuel⟩ := h.scans [] leakType score hkey
    exact hfuel (scanFrom_nil_running fuel)
  · intro hne
    have hends : ∀ word leakType score, engine.HasKeyword word leakType score →
        scanFrom U text word leakType score (len (U.toLowercase text) + 2) 0 ≠ .running :=
      fun word leakType score hkey =>
        scanFrom_ne_running (hne word leakType score hkey) (Nat.lt_succ_self _)
    exact ⟨fun word leakType score hkey => ⟨_, hends word leakType score hkey⟩,
      _, DlpEngine.analyze_ne_running hends⟩

/-- A dictionary with the empty keyword; `add_rule` takes it. -/
def emptyKeywordEngine : DlpEngine :=
  (DlpEngine.new 20).addRule (.dictionary ⟨[([], 1)], by decide⟩ .confidentialKeyword)

theorem empty_keyword_scans_forever :
    (∀ fuel, emptyKeywordEngine.analyze asciiAndDottedI fuel "a".toList = .running) ∧
      ¬ emptyKeywordEngine.Ends asciiAndDottedI "a".toList := by
  have hkey : emptyKeywordEngine.HasKeyword [] .confidentialKeyword 1 :=
    ⟨⟨[([], 1)], by decide⟩, List.mem_singleton_self _, List.mem_singleton_self _⟩
  have hruns : ∀ fuel, emptyKeywordEngine.analyze asciiAndDottedI fuel "a".toList = .running := by
    intro fuel
    simp [DlpEngine.analyze, emptyKeywordEngine, DlpEngine.new, DlpEngine.addRule,
      Rule.detections, scanFrom_nil_running, Run.all, Run.map, Run.bind]
  refine ⟨hruns, fun h => ?_⟩
  obtain ⟨fuel, hfuel⟩ := h.scans [] .confidentialKeyword 1 hkey
  exact hfuel (scanFrom_nil_running fuel)

end RustSamples.DlpAnalyzer
