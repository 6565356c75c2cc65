import Mathlib.Algebra.BigOperators.Group.List.Basic
import Mathlib.Data.List.Perm.Basic
import Mathlib.Data.Set.Card
import RustSamples.DlpScan

/-! # The verdict of an analysis

`analyze` adds the score of every detection to a `u32`.  The sum wraps: it is the sum of the
scores modulo 2³².  As long as no multiple of 2³² is passed, the verdict is that of the
mathematical sum; beyond, a document is reported by what is left over (`verdict_exact_iff`).

Wrapping addition commutes, and no scan depends on another: the order of the rules, and the order
in which a hash map gives its keywords, do not change the verdict
(`verdict_independent_of_order`).
-/
namespace RustSamples.DlpAnalyzer
open RustStr GreedyIntervals

variable {U : UnicodeData} {text : List Char}

/-- Calls made one after the other, each with its value. -/
theorem Run.all_map_eq_returns_iff {ι α : Type} {f : ι → Run α} {xs : List ι} {as : List α} :
    Run.all (xs.map f) = .returns as ↔ List.Forall₂ (fun x a => f x = .returns a) xs as := by
  rw [Run.all_eq_returns_iff, ← List.forall₂_eq_eq_eq, List.forall₂_map_left_iff,
    List.forall₂_map_right_iff]

/-! ## The sum of the scores -/

/-- The mathematical sum of the scores. -/
def impactSum (detections : List Detection) : Nat :=
  (detections.map fun d => d.scoreImpact.toNat).sum

/-- The class of a mathematical sum: 0, 1 to 10, 11 to 30, above. -/
def severityClass (sum : Nat) : Severity :=
  if sum = 0 then .low else if sum ≤ 10 then .medium else if sum ≤ 30 then .high else .critical

/-- **The verdict is that of the mathematical sum.** -/
structure VerdictExact (engine : DlpEngine) (result : AnalysisResult) : Prop where
  violation : result.isViolation = true ↔ engine.threshold.toNat ≤ impactSum result.detections
  severity : result.severity = severityClass (impactSum result.detections)

theorem impactSum_append (ds es : List Detection) :
    impactSum (ds ++ es) = impactSum ds + impactSum es := by
  simp [impactSum]

theorem impactSum_flatten (dss : List (List Detection)) :
    impactSum dss.flatten = (dss.map impactSum).sum := by
  induction dss with
  | nil => rfl
  | cons ds dss ih => rw [List.flatten_cons, impactSum_append, ih, List.map_cons, List.sum_cons]

theorem impactSum_of_score {ds : List Detection} {score : UInt32}
    (h : ∀ d ∈ ds, d.scoreImpact = score) : impactSum ds = score.toNat * ds.length := by
  have hmap : (ds.map fun d => d.scoreImpact.toNat) = List.replicate ds.length score.toNat := by
    rw [← List.map_const']
    exact List.map_congr_left fun d hd => congrArg UInt32.toNat (h d hd)
  rw [impactSum, hmap, List.sum_replicate_nat, Nat.mul_comm]

/-- `total_score` is the sum modulo 2³². -/
theorem totalScore_result (engine : DlpEngine) (detections : List Detection) :
    (engine.result detections).totalScore.toNat = impactSum detections % 2 ^ 32 := by
  have hfold : ∀ (scores : List UInt32) (start : UInt32),
      (scores.foldl (· + ·) start).toNat =
        (start.toNat + (scores.map UInt32.toNat).sum) % 2 ^ 32 := by
    intro scores
    induction scores with
    | nil =>
      intro start
      exact (Nat.mod_eq_of_lt start.toNat_lt).symm
    | cons score scores ih =>
      intro start
      rw [List.foldl_cons, ih, UInt32.toNat_add, List.map_cons, List.sum_cons, Nat.mod_add_mod,
        Nat.add_assoc]
  have htotal : (engine.result detections).totalScore =
      (detections.map Detection.scoreImpact).foldl (· + ·) 0 := rfl
  rw [htotal, hfold, List.map_map]
  simp [impactSum, Function.comp_def]

theorem severityOf_eq (totalScore : UInt32) :
    severityOf totalScore = severityClass totalScore.toNat := by
  have hzero : totalScore = 0 ↔ totalScore.toNat = 0 := by
    rw [← UInt32.toNat_inj]
    rfl
  simp only [severityOf, severityClass, hzero, UInt32.le_iff_toNat_le]
  rfl

theorem severityClass_eq_critical_iff (sum : Nat) : severityClass sum = .critical ↔ 30 < sum := by
  unfold severityClass
  split_ifs with h₁ h₂ h₃ <;> simp <;> omega

/-- The verdict of a sum that wraps. -/
theorem verdictExact_result_iff (engine : DlpEngine) (detections : List Detection) :
    VerdictExact engine (engine.result detections) ↔ impactSum detections < 2 ^ 32 ∨
      (engine.threshold.toNat ≤ impactSum detections % 2 ^ 32 ∧
        30 < impactSum detections % 2 ^ 32) := by
  have htotal := totalScore_result engine detections
  have hviolation : (engine.result detections).isViolation = true ↔
      engine.threshold.toNat ≤ impactSum detections % 2 ^ 32 := by
    rw [← htotal, ← UInt32.le_iff_toNat_le]
    exact decide_eq_true_iff
  have hseverity : (engine.result detections).severity =
      severityClass (impactSum detections % 2 ^ 32) := by
    rw [← htotal, ← severityOf_eq]
    rfl
  have hthreshold := engine.threshold.toNat_lt
  by_cases hsmall : impactSum detections < 2 ^ 32
  · rw [Nat.mod_eq_of_lt hsmall] at hviolation hseverity
    exact iff_of_true ⟨hviolation, hseverity⟩ (Or.inl hsmall)
  · -- the sum is beyond every threshold, and critical
    have hle : engine.threshold.toNat ≤ impactSum detections := by omega
    have hcritical : severityClass (impactSum detections) = .critical :=
      (severityClass_eq_critical_iff _).2 (by omega)
    rw [← severityClass_eq_critical_iff]
    constructor
    · rintro ⟨hv, hs⟩
      exact Or.inr ⟨hviolation.1 (hv.2 hle), hseverity.symm.trans (hs.trans hcritical)⟩
    · rintro (hlt | ⟨hover, hclass⟩)
      · exact absurd hlt hsmall
      · exact ⟨iff_of_true (hviolation.2 hover) hle, hseverity.trans (hclass.trans hcritical.symm)⟩

/-! ## The weight of the matches -/

/-- The scores of all matches of a rule in a text: its matches that pass the Luhn check where it
is asked for, or the places where the search meets a keyword. -/
noncomputable def Rule.matchWeight (U : UnicodeData) (text : List Char) : Rule → Nat
  | .signature findIter leakType score =>
      score.toNat * ((findIter text).filter fun m =>
        !(leakType = .creditCard && !validateLuhn m)).length
  | .dictionary dict _ =>
      (dict.entries.map fun entry => entry.2.toNat * { o | Meets U text entry.1 0 o }.ncard).sum

noncomputable def DlpEngine.matchWeight (U : UnicodeData) (engine : DlpEngine)
    (text : List Char) : Nat :=
  (engine.rules.map (Rule.matchWeight U text)).sum

theorem impactSum_of_scanFrom {word : List Char} {leakType : LeakType} {score : UInt32}
    {fuel : Nat} {detections : List Detection}
    (h : scanFrom U text word leakType score fuel 0 = .returns detections) :
    impactSum detections = score.toNat * { o | Meets U text word 0 o }.ncard := by
  have hne : word ≠ [] := by
    rintro rfl
    rw [scanFrom_nil_running] at h
    cases h
  obtain ⟨positions, hgreedy, hmeets, rfl⟩ := exists_greedy_of_returns h
  have hset : { o | Meets U text word 0 o } = ↑positions.toFinset := by
    ext o
    simp [hmeets]
  rw [hset, Set.ncard_coe_finset, List.toFinset_card_of_nodup (hgreedy.nodup (len_pos hne)),
    impactSum_of_score, List.length_map]
  intro d hd
  obtain ⟨o, _, rfl⟩ := List.mem_map.1 hd
  rfl

/-- Sums over calls made one after the other. -/
theorem impactSum_flatten_of_forall₂ {ι : Type} {f : ι → Run (List Detection)} {weight : ι → Nat}
    (hweight : ∀ x detections, f x = .returns detections → impactSum detections = weight x)
    {xs : List ι} {dss : List (List Detection)}
    (h : List.Forall₂ (fun x detections => f x = .returns detections) xs dss) :
    impactSum dss.flatten = (xs.map weight).sum := by
  rw [impactSum_flatten]
  induction h with
  | nil => rfl
  | cons hx _ ih => rw [List.map_cons, List.map_cons, List.sum_cons, List.sum_cons, ih,
      hweight _ _ hx]

theorem impactSum_of_detections {fuel : Nat} {rule : Rule} {detections : List Detection}
    (h : rule.detections U fuel text = .returns detections) :
    impactSum detections = rule.matchWeight U text := by
  cases rule with
  | signature findIter leakType score =>
    obtain rfl := Run.returns.inj h
    rw [impactSum_of_score, List.length_map]
    · rfl
    · intro d hd
      obtain ⟨m, _, rfl⟩ := List.mem_map.1 hd
      rfl
  | dictionary dict leakType =>
    obtain ⟨dss, hall, rfl⟩ := Run.map_eq_returns_iff.1 h
    exact impactSum_flatten_of_forall₂ (fun _ _ hscan => impactSum_of_scanFrom hscan)
      (Run.all_map_eq_returns_iff.1 hall)

/-- The scans of all keywords. -/
theorem detections_of_scans {fuel : Nat} {dict : Dictionary} {leakType : LeakType}
    {dss : List (List Detection)}
    (h : List.Forall₂ (fun entry detections => scanFrom U text entry.1 leakType entry.2 fuel 0 =
      .returns detections) dict.entries dss) :
    Rule.detections U fuel text (.dictionary dict leakType) = .returns dss.flatten :=
  Run.map_eq_returns_iff.2 ⟨dss, Run.all_map_eq_returns_iff.2 h, rfl⟩

/-- The detections of all rules. -/
theorem analyze_of_detections {engine : DlpEngine} {fuel : Nat} {dss : List (List Detection)}
    (h : List.Forall₂ (fun rule detections => Rule.detections U fuel text rule =
      .returns detections) engine.rules dss) :
    engine.analyze U fuel text = .returns (engine.result dss.flatten) :=
  Run.map_eq_returns_iff.2 ⟨dss, Run.all_map_eq_returns_iff.2 h, rfl⟩

/-- One rule with one keyword. -/
theorem analyze_of_scan {threshold score : UInt32} {word : List Char} {leakType : LeakType}
    {nodup : ([(word, score)].map Prod.fst).Nodup} {fuel : Nat} {detections : List Detection}
    (hscan : scanFrom U text word leakType score fuel 0 = .returns detections) :
    ((DlpEngine.new threshold).addRule (.dictionary ⟨[(word, score)], nodup⟩ leakType)).analyze U
        fuel text =
      .returns (((DlpEngine.new threshold).addRule
        (.dictionary ⟨[(word, score)], nodup⟩ leakType)).result detections) := by
  have hrule : Rule.detections U fuel text (.dictionary ⟨[(word, score)], nodup⟩ leakType) =
      .returns [detections].flatten := detections_of_scans (.cons hscan .nil)
  rw [List.flatten_singleton] at hrule
  have hanalyze : ((DlpEngine.new threshold).addRule
      (.dictionary ⟨[(word, score)], nodup⟩ leakType)).analyze U fuel text =
        .returns (((DlpEngine.new threshold).addRule
          (.dictionary ⟨[(word, score)], nodup⟩ leakType)).result [detections].flatten) :=
    analyze_of_detections (.cons hrule .nil)
  rwa [List.flatten_singleton] at hanalyze

/-- What an analysis that returns has found. -/
theorem exists_detections_of_analyze {engine : DlpEngine} {fuel : Nat} {result : AnalysisResult}
    (h : engine.analyze U fuel text = .returns result) :
    ∃ dss, List.Forall₂ (fun rule detections => Rule.detections U fuel text rule =
      .returns detections) engine.rules dss ∧ result = engine.result dss.flatten := by
  obtain ⟨dss, hall, rfl⟩ := Run.map_eq_returns_iff.1 h
  exact ⟨dss, Run.all_map_eq_returns_iff.1 hall, rfl⟩

/-- The scores that an analysis adds are the weight of the matches. -/
theorem impactSum_of_analyze {engine : DlpEngine} {fuel : Nat} {result : AnalysisResult}
    (h : engine.analyze U fuel text = .returns result) :
    impactSum result.detections = engine.matchWeight U text := by
  obtain ⟨dss, hdss, rfl⟩ := exists_detections_of_analyze h
  exact impactSum_flatten_of_forall₂ (fun _ _ hrule => impactSum_of_detections hrule) hdss

/-- **When the verdict is exact.**  Of every text whose analysis returns, under all rules, weights
and thresholds: the verdict is that of the mathematical sum exactly if the weight of the matches
stays below 2³², or if what is left of it modulo 2³² reaches the threshold and is above 30. -/
theorem verdict_exact_iff (U : UnicodeData) {engine : DlpEngine} {fuel : Nat} {text : List Char}
    {result : AnalysisResult} (h : engine.analyze U fuel text = .returns result) :
    VerdictExact engine result ↔ engine.matchWeight U text < 2 ^ 32 ∨
      (engine.threshold.toNat ≤ engine.matchWeight U text % 2 ^ 32 ∧
        30 < engine.matchWeight U text % 2 ^ 32) := by
  have hsum := impactSum_of_analyze h
  obtain ⟨dss, _, rfl⟩ := exists_detections_of_analyze h
  rw [verdictExact_result_iff, ← hsum]
  exact Iff.rfl

/-- One keyword, of weight 5, is below the threshold. -/
theorem nda_verdict_exact :
    ∃ result, ndaEngine.analyze asciiAndDottedI 2 "an NDA".toList = .returns result ∧
      VerdictExact ndaEngine result := by
  have hrest : dropBytes (asciiAndDottedI.toLowercase "an NDA".toList) 0 =
      some "an nda".toList := by decide
  have hend : dropBytes (asciiAndDottedI.toLowercase "an NDA".toList) 6 = some [] := by decide
  have hfind : find "an nda".toList (asciiAndDottedI.toLowercase "NDA".toList) = some 3 := by
    decide +kernel
  have hnone : find [] (asciiAndDottedI.toLowercase "NDA".toList) = none := by decide
  have hslice : slice "an NDA".toList 3 6 = some "NDA".toList := by decide
  have hlast : scanFrom asciiAndDottedI "an NDA".toList "NDA".toList .confidentialKeyword 5 1 6 =
      .returns [] := scanFrom_of_find_none hend hnone
  have hscan : scanFrom asciiAndDottedI "an NDA".toList "NDA".toList .confidentialKeyword 5 2 0 =
      .returns [⟨.confidentialKeyword, "NDA".toList, 5⟩] :=
    (scanFrom_of_slice hrest hfind hslice).trans (congrArg (Run.map _) hlast)
  have h : ndaEngine.analyze asciiAndDottedI 2 "an NDA".toList =
      .returns (ndaEngine.result [⟨.confidentialKeyword, "NDA".toList, 5⟩]) :=
    analyze_of_scan hscan
  refine ⟨_, h, (verdict_exact_iff asciiAndDottedI h).2 (Or.inl ?_)⟩
  rw [← impactSum_of_analyze h]
  decide

/-- One keyword, `key`. -/
def keyEngine (score : UInt32) : DlpEngine :=
  (DlpEngine.new 20).addRule
    (.dictionary ⟨[("key".toList, score)], List.nodup_singleton _⟩ .confidentialKeyword)

/-- Two matches, whatever they weigh. -/
theorem scan_key_key (score : UInt32) :
    scanFrom asciiAndDottedI "key, key".toList "key".toList .confidentialKeyword score 3 0 =
      .returns [⟨.confidentialKeyword, "key".toList, score⟩,
        ⟨.confidentialKeyword, "key".toList, score⟩] := by
  have hfirst : dropBytes (asciiAndDottedI.toLowercase "key, key".toList) 0 =
      some "key, key".toList := by decide
  have hsecond : dropBytes (asciiAndDottedI.toLowercase "key, key".toList) 3 =
      some ", key".toList := by decide
  have hend : dropBytes (asciiAndDottedI.toLowercase "key, key".toList) 8 = some [] := by decide
  have hslice : slice "key, key".toList 0 3 = some "key".toList := by decide
  have hslice' : slice "key, key".toList 5 8 = some "key".toList := by decide
  have hfind : find "key, key".toList (asciiAndDottedI.toLowercase "key".toList) = some 0 := by
    decide
  have hfind' : find ", key".toList (asciiAndDottedI.toLowercase "key".toList) = some 2 := by
    decide
  have hnone : find [] (asciiAndDottedI.toLowercase "key".toList) = none := by decide
  have hround₃ : scanFrom asciiAndDottedI "key, key".toList "key".toList .confidentialKeyword score
      1 8 = .returns [] := scanFrom_of_find_none hend hnone
  have hround₂ : scanFrom asciiAndDottedI "key, key".toList "key".toList .confidentialKeyword score
      2 3 = .returns [⟨.confidentialKeyword, "key".toList, score⟩] :=
    (scanFrom_of_slice hsecond hfind' hslice').trans (congrArg (Run.map _) hround₃)
  exact (scanFrom_of_slice hfirst hfind hslice).trans (congrArg (Run.map _) hround₂)

/-- Of weight 2³¹ each, the two matches weigh nothing: no violation, and severity low. -/
theorem two_heavy_keywords_pass :
    ∃ result, (keyEngine 2147483648).analyze asciiAndDottedI 3 "key, key".toList =
        .returns result ∧
      result.isViolation = false ∧ result.severity = .low ∧
      impactSum result.detections = 2 ^ 32 ∧ ¬ VerdictExact (keyEngine 2147483648) result := by
  have h : (keyEngine 2147483648).analyze asciiAndDottedI 3 "key, key".toList = .returns
      ((keyEngine 2147483648).result [⟨.confidentialKeyword, "key".toList, 2147483648⟩,
        ⟨.confidentialKeyword, "key".toList, 2147483648⟩]) :=
    analyze_of_scan (scan_key_key _)
  have hsum : impactSum ((keyEngine 2147483648).result [⟨.confidentialKeyword, "key".toList,
      2147483648⟩, ⟨.confidentialKeyword, "key".toList, 2147483648⟩]).detections = 2 ^ 32 := by
    simp [DlpEngine.result, impactSum]
  have htotal : (keyEngine 2147483648).threshold.toNat ≤ 2 ^ 32 := by decide
  have hpasses : ((keyEngine 2147483648).result [⟨.confidentialKeyword, "key".toList,
      2147483648⟩, ⟨.confidentialKeyword, "key".toList, 2147483648⟩]).isViolation = false := by
    decide
  refine ⟨_, h, hpasses, by decide, hsum, fun hexact => ?_⟩
  have hviolates := hexact.violation.2 (htotal.trans hsum.ge)
  rw [hpasses] at hviolates
  cases hviolates

/-! ## The order of rules and keywords -/

/-- The same rule, but for the order in which its hash map is read. -/
inductive Rule.SameUpToOrder : Rule → Rule → Prop
  | signature (findIter : List Char → List (List Char)) (leakType : LeakType) (score : UInt32) :
      SameUpToOrder (.signature findIter leakType score) (.signature findIter leakType score)
  | dictionary {dict dict' : Dictionary} (leakType : LeakType)
      (perm : dict.entries.Perm dict'.entries) :
      SameUpToOrder (.dictionary dict leakType) (.dictionary dict' leakType)

/-- The same threshold and the same rules, but for the order of the rules and of the hash maps. -/
structure DlpEngine.SameUpToOrder (engine engine' : DlpEngine) : Prop where
  threshold : engine.threshold = engine'.threshold
  rules : ∃ rules, engine.rules.Perm rules ∧ List.Forall₂ Rule.SameUpToOrder rules engine'.rules

/-- Calls made in another order. -/
theorem Run.exists_all_of_perm {ι α : Type} {f : ι → Run α} {xs ys : List ι} (hperm : xs.Perm ys)
    {as : List α} (h : List.Forall₂ (fun x a => f x = .returns a) xs as) :
    ∃ bs, List.Forall₂ (fun x a => f x = .returns a) ys bs ∧ as.Perm bs := by
  obtain ⟨bs, hbs, hperm'⟩ := List.perm_comp_forall₂ hperm.symm h
  exact ⟨bs, hbs, hperm'.symm⟩

/-- A hash map read in another order has the same matches. -/
theorem Rule.SameUpToOrder.detections {rule rule' : Rule} (h : rule.SameUpToOrder rule')
    {fuel : Nat} {detections : List Detection}
    (hrule : rule.detections U fuel text = .returns detections) :
    ∃ detections', rule'.detections U fuel text = .returns detections' ∧
      detections.Perm detections' := by
  cases h with
  | signature => exact ⟨detections, hrule, List.Perm.refl _⟩
  | dictionary leakType perm =>
    obtain ⟨dss, hall, rfl⟩ := Run.map_eq_returns_iff.1 hrule
    obtain ⟨dss', hall', hperm⟩ := Run.exists_all_of_perm perm (Run.all_map_eq_returns_iff.1 hall)
    exact ⟨dss'.flatten, detections_of_scans hall', hperm.flatten⟩

/-- Rule for rule. -/
theorem exists_detections_of_forall₂ {fuel : Nat} {rules rules' : List Rule}
    (h : List.Forall₂ Rule.SameUpToOrder rules rules') {dss : List (List Detection)}
    (hdss : List.Forall₂ (fun rule detections => Rule.detections U fuel text rule =
      .returns detections) rules dss) :
    ∃ dss', List.Forall₂ (fun rule detections => Rule.detections U fuel text rule =
      .returns detections) rules' dss' ∧ dss.flatten.Perm dss'.flatten := by
  induction h generalizing dss with
  | nil =>
    cases hdss
    exact ⟨[], .nil, List.Perm.refl _⟩
  | cons hrule _ ih =>
    cases hdss with
    | cons hds hdss =>
      obtain ⟨detections', hds', hperm⟩ := hrule.detections hds
      obtain ⟨dss', hdss', hperm'⟩ := ih hdss
      exact ⟨detections' :: dss', .cons hds' hdss', hperm.append hperm'⟩

/-- The verdict does not depend on the order of the detections. -/
theorem result_of_perm {engine engine' : DlpEngine} (h : engine.threshold = engine'.threshold)
    {detections detections' : List Detection} (hperm : detections.Perm detections') :
    (engine.result detections).totalScore = (engine'.result detections').totalScore ∧
      (engine.result detections).severity = (engine'.result detections').severity ∧
      (engine.result detections).isViolation = (engine'.result detections').isViolation := by
  have htotal : (detections.map Detection.scoreImpact).foldl (· + ·) 0 =
      (detections'.map Detection.scoreImpact).foldl (· + ·) 0 :=
    (hperm.map _).foldl_eq 0
  simp only [DlpEngine.result, htotal, h, and_self]

/-- **The verdict does not depend on any order.**  When the analysis of a text returns, the
analysis under the same rules in another order, with every hash map read in any order, returns
too, with the same score, severity and verdict and the same detections, in some order. -/
theorem verdict_independent_of_order (U : UnicodeData) {engine engine' : DlpEngine}
    (hsame : engine.SameUpToOrder engine') {fuel : Nat} {text : List Char}
    {result : AnalysisResult} (h : engine.analyze U fuel text = .returns result) :
    ∃ result', engine'.analyze U fuel text = .returns result' ∧
      result.totalScore = result'.totalScore ∧ result.severity = result'.severity ∧
      result.isViolation = result'.isViolation ∧ result.detections.Perm result'.detections := by
  obtain ⟨dss, hdss, rfl⟩ := exists_detections_of_analyze h
  obtain ⟨rules, hperm, hrules⟩ := hsame.rules
  -- first the rules are moved, then each hash map is read in its other order
  obtain ⟨dss₁, hdss₁, hperm₁⟩ := Run.exists_all_of_perm hperm hdss
  obtain ⟨dss₂, hdss₂, hperm₂⟩ := exists_detections_of_forall₂ hrules hdss₁
  have hdetections : dss.flatten.Perm dss₂.flatten := hperm₁.flatten.trans hperm₂
  obtain ⟨htotal, hseverity, hviolation⟩ := result_of_perm hsame.threshold hdetections
  exact ⟨engine'.result dss₂.flatten, analyze_of_detections hdss₂, htotal, hseverity, hviolation,
    hdetections⟩

/-- Two rules, in either order. -/
def keywordsThenCode : DlpEngine :=
  ((DlpEngine.new 20).addRule (.dictionary ⟨[("NDA".toList, 5), ("key".toList, 15)], by decide⟩
    .confidentialKeyword)).addRule (.dictionary ⟨[("fn".toList, 1)], by decide⟩ .sourceCode)

def codeThenKeywords : DlpEngine :=
  ((DlpEngine.new 20).addRule (.dictionary ⟨[("fn".toList, 1)], by decide⟩ .sourceCode)).addRule
    (.dictionary ⟨[("key".toList, 15), ("NDA".toList, 5)], by decide⟩ .confidentialKeyword)

theorem keywordsThenCode_same : keywordsThenCode.SameUpToOrder codeThenKeywords where
  threshold := rfl
  rules := ⟨_, List.Perm.swap _ _ _, .cons (.dictionary _ (List.Perm.refl _))
    (.cons (.dictionary _ (List.Perm.swap _ _ _)) .nil)⟩

/-- Two keywords of different rules, found in either order. -/
theorem keywords_and_code_in_either_order :
    ∃ result result', keywordsThenCode.analyze asciiAndDottedI 2 "fnNDA".toList =
        .returns result ∧ codeThenKeywords.analyze asciiAndDottedI 2 "fnNDA".toList =
        .returns result' ∧ result.totalScore = result'.totalScore ∧
      result.severity = result'.severity ∧ result.isViolation = result'.isViolation ∧
      result.detections.Perm result'.detections := by
  have hnda : scanFrom asciiAndDottedI "fnNDA".toList "NDA".toList .confidentialKeyword 5 2 0 =
      .returns [⟨.confidentialKeyword, "NDA".toList, 5⟩] := rfl
  have hkey : scanFrom asciiAndDottedI "fnNDA".toList "key".toList .confidentialKeyword 15 2 0 =
      .returns [] := rfl
  have hfn : scanFrom asciiAndDottedI "fnNDA".toList "fn".toList .sourceCode 1 2 0 =
      .returns [⟨.sourceCode, "fn".toList, 1⟩] := rfl
  have h : keywordsThenCode.analyze asciiAndDottedI 2 "fnNDA".toList =
      .returns (keywordsThenCode.result [⟨.confidentialKeyword, "NDA".toList, 5⟩,
        ⟨.sourceCode, "fn".toList, 1⟩]) := by
    simp only [keywordsThenCode, DlpEngine.new, DlpEngine.addRule, DlpEngine.analyze,
      Rule.detections, List.nil_append, List.cons_append, List.map_cons, List.map_nil, hnda, hkey,
      hfn, Run.all, Run.map, Run.bind, List.flatten_cons, List.flatten_nil, List.append_nil]
  obtain ⟨result', hresult'⟩ :=
    verdict_independent_of_order asciiAndDottedI keywordsThenCode_same h
  exact ⟨_, result', h, hresult'⟩

end RustSamples.DlpAnalyzer
