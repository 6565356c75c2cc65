import Mathlib.Algebra.Order.BigOperators.Group.List
import Mathlib.Algebra.Order.Ring.Nat
import RustSamples.RustUnicode

/-! # The content rules of `dlp_analyzer`

`analyze` goes through the rules of the engine.  A signature reports the matches of a regular
expression; a dictionary reports, keyword by keyword, what a scan of the lower-cased text finds.

The scan searches `lower_text`, and cuts what it reports out of `text`, at the same byte offsets;
it goes on as many bytes behind a match as the keyword has before lower-casing.  Lower-casing can
change the number of bytes, so an offset of the one text may be none of the other.  The scans do
not panic, and report the keyword, where no keyword occurs behind a character that changes its
length (`analysis_is_safe_of_keepsOffsets`); behind such a character the offsets are right only
by chance.  A `Σ` in a keyword may also be another letter in the text than in the piece alone.

A regular expression is the list of its matches in a text; a dictionary is its entries in the
order in which the hash map gives them.  `total_score` wraps, as in a release build.  A scan
is given `fuel` rounds, since not every scan ends.
-/
namespace RustSamples.DlpAnalyzer
open RustStr

/-! ## The engine -/

/-- How a call stands after some rounds. -/
inductive Run (α : Type)
  | running
  | panics
  | returns (value : α)

namespace Run
variable {α β : Type}

def bind (x : Run α) (f : α → Run β) : Run β :=
  match x with
  | running => running
  | panics => panics
  | returns a => f a

def map (f : α → β) (x : Run α) : Run β := x.bind fun a => returns (f a)

/-- One call after the other. -/
def all : List (Run α) → Run (List α)
  | [] => returns []
  | x :: xs => x.bind fun a => (all xs).map (a :: ·)

theorem bind_eq_returns_iff {x : Run α} {f : α → Run β} {b : β} :
    x.bind f = returns b ↔ ∃ a, x = returns a ∧ f a = returns b := by
  cases x <;> simp [bind]

theorem map_eq_returns_iff {x : Run α} {f : α → β} {b : β} :
    x.map f = returns b ↔ ∃ a, x = returns a ∧ f a = b := by
  simp [map, bind_eq_returns_iff]

/-- All calls return, and these are their values. -/
theorem all_eq_returns_iff {xs : List (Run α)} {as : List α} :
    all xs = returns as ↔ xs = as.map returns := by
  induction xs generalizing as with
  | nil => cases as <;> simp [all]
  | cons x xs ih =>
    rw [all, bind_eq_returns_iff]
    constructor
    · rintro ⟨a, rfl, h⟩
      obtain ⟨as', has, rfl⟩ := map_eq_returns_iff.1 h
      rw [ih.1 has, List.map_cons]
    · intro h
      cases as with
      | nil => cases h
      | cons a as =>
        obtain ⟨rfl, rfl⟩ := List.cons.inj h
        exact ⟨a, rfl, map_eq_returns_iff.2 ⟨as, ih.2 rfl, rfl⟩⟩

theorem exists_all_iff {xs : List (Run α)} :
    (∃ as, all xs = returns as) ↔ ∀ x ∈ xs, ∃ a, x = returns a := by
  simp only [all_eq_returns_iff]
  constructor
  · rintro ⟨as, rfl⟩ x hx
    obtain ⟨a, _, rfl⟩ := List.mem_map.1 hx
    exact ⟨a, rfl⟩
  · intro h
    induction xs with
    | nil => exact ⟨[], rfl⟩
    | cons x xs ih =>
      obtain ⟨hx, hxs⟩ := List.forall_mem_cons.1 h
      obtain ⟨a, rfl⟩ := hx
      obtain ⟨as, rfl⟩ := ih hxs
      exact ⟨a :: as, rfl⟩

theorem exists_map_iff {x : Run α} {f : α → β} :
    (∃ b, x.map f = returns b) ↔ ∃ a, x = returns a := by
  simp only [map_eq_returns_iff]
  exact ⟨fun ⟨_, a, ha, _⟩ => ⟨a, ha⟩, fun ⟨a, ha⟩ => ⟨f a, a, ha, rfl⟩⟩

theorem map_ne_running {x : Run α} {f : α → β} (h : x ≠ running) : x.map f ≠ running := by
  cases x with
  | running => exact absurd rfl h
  | panics => simp [map, bind]
  | returns a => simp [map, bind]

/-- Calls that all end, end one after the other. -/
theorem all_ne_running {xs : List (Run α)} (h : ∀ x ∈ xs, x ≠ running) : all xs ≠ running := by
  induction xs with
  | nil => simp [all]
  | cons x xs ih =>
    obtain ⟨hx, hxs⟩ := List.forall_mem_cons.1 h
    cases x with
    | running => exact absurd rfl hx
    | panics => simp [all, bind]
    | returns a => exact map_ne_running (ih hxs)

end Run

inductive LeakType
  | passport
  | creditCard
  | confidentialKeyword
  | sourceCode
  deriving DecidableEq

inductive Severity
  | low
  | medium
  | high
  | critical
  deriving DecidableEq

structure Detection where
  leakType : LeakType
  matchedText : List Char
  scoreImpact : UInt32
  deriving DecidableEq

structure AnalysisResult where
  isViolation : Bool
  totalScore : UInt32
  severity : Severity
  detections : List Detection
  deriving DecidableEq

/-- A `HashMap<String, u32>`, in the order of its iterator. -/
structure Dictionary where
  entries : List (List Char × UInt32)
  nodup : (entries.map Prod.fst).Nodup

/-- `Rule`.  Of a `Regex` there is what `find_iter` gives. -/
inductive Rule
  | signature (findIter : List Char → List (List Char)) (leakType : LeakType) (score : UInt32)
  | dictionary (dict : Dictionary) (leakType : LeakType)

structure DlpEngine where
  rules : List Rule
  threshold : UInt32

/-- `DlpEngine::new`. -/
def DlpEngine.new (threshold : UInt32) : DlpEngine := ⟨[], threshold⟩

/-- `DlpEngine::add_rule`. -/
def DlpEngine.addRule (engine : DlpEngine) (rule : Rule) : DlpEngine :=
  { engine with rules := engine.rules ++ [rule] }

/-- `is_ascii_digit`. -/
def isAsciiDigit (c : Char) : Bool := 48 ≤ c.toNat && c.toNat ≤ 57

/-- The summand of the digit `digit`, `idx` places from the right. -/
def luhnSummand (idx digit : Nat) : Nat :=
  if idx % 2 = 1 then
    let d := digit * 2
    if d > 9 then d - 9 else d
  else digit

/-- `validate_luhn`. -/
def validateLuhn (cardNumber : List Char) : Bool :=
  let digits := (cardNumber.filter isAsciiDigit).map fun c => c.toNat - 48
  if digits.length < 13 || digits.length > 19 then false
  else ((digits.reverse.zipIdx.map fun p => luhnSummand p.2 p.1).sum) % 10 = 0

variable (U : UnicodeData)

/-- The scan for one keyword, from byte `pos` of the lower-cased text on. -/
def scanFrom (text word : List Char) (leakType : LeakType) (score : UInt32) :
    Nat → Nat → Run (List Detection)
  | 0, _ => .running
  | fuel + 1, pos =>
      match dropBytes (U.toLowercase text) pos with
      | none => .panics
      | some rest =>
          match find rest (U.toLowercase word) with
          | none => .returns []
          | some index =>
              match slice text (pos + index) (pos + index + len word) with
              | none => .panics
              | some exactMatch =>
                  (scanFrom text word leakType score fuel (pos + index + len word)).map
                    (⟨leakType, exactMatch, score⟩ :: ·)

/-- What a rule reports. -/
def Rule.detections (fuel : Nat) (text : List Char) : Rule → Run (List Detection)
  | .signature findIter leakType score =>
      -- a card number must pass the Luhn check
      .returns (((findIter text).filter fun m =>
        !(leakType = .creditCard && !validateLuhn m)).map fun m => ⟨leakType, m, score⟩)
  | .dictionary dict leakType =>
      (Run.all (dict.entries.map fun entry =>
        scanFrom U text entry.1 leakType entry.2 fuel 0)).map List.flatten

/-- The `match total_score`. -/
def severityOf (totalScore : UInt32) : Severity :=
  if totalScore = 0 then .low
  else if totalScore ≤ 10 then .medium
  else if totalScore ≤ 30 then .high
  else .critical

namespace DlpEngine
variable (engine : DlpEngine)

/-- The end of `analyze`; every detection has added its score to `total_score`. -/
def result (detections : List Detection) : AnalysisResult :=
  let totalScore := (detections.map Detection.scoreImpact).foldl (· + ·) 0
  ⟨engine.threshold ≤ totalScore, totalScore, severityOf totalScore, detections⟩

/-- `DlpEngine::analyze`. -/
def analyze (fuel : Nat) (text : List Char) : Run AnalysisResult :=
  (Run.all (engine.rules.map (Rule.detections U fuel text))).map fun detections =>
    engine.result detections.flatten

/-- `DlpEngine::analyze_parallel`: a panic of a thread goes through `join().unwrap()`. -/
def analyzeParallel (fuel : Nat) (documents : List (List Char)) : Run (List AnalysisResult) :=
  Run.all (documents.map (engine.analyze U fuel))

/-- A keyword of one of the dictionaries, as its rule reports it. -/
def HasKeyword (word : List Char) (leakType : LeakType) (score : UInt32) : Prop :=
  ∃ dict, Rule.dictionary dict leakType ∈ engine.rules ∧ (word, score) ∈ dict.entries

/-- **What the analysis is to do.**  It returns, for one document and for many, one result for
each; and what a scan reports for a keyword is a piece of the text that is the keyword, but for
the case. -/
structure SafeAndFaithful (documents : List (List Char)) : Prop where
  analyzed : ∀ text ∈ documents, ∃ fuel result, engine.analyze U fuel text = .returns result
  parallel : ∃ fuel results, engine.analyzeParallel U fuel documents = .returns results ∧
    results.length = documents.length
  matched : ∀ text ∈ documents, ∀ word leakType score, engine.HasKeyword word leakType score →
    ∀ fuel detections, scanFrom U text word leakType score fuel 0 = .returns detections →
      ∀ d ∈ detections, d.matchedText <:+: text ∧
        U.toLowercase d.matchedText = U.toLowercase word

end DlpEngine

/-! ## Matches and their offsets -/

/-- The search of the lower-cased text from `pos` on meets the keyword at byte `o`: as the first
match, or going on `word.len()` bytes behind an earlier one. -/
inductive Meets (text word : List Char) : Nat → Nat → Prop
  | first {pos index : Nat} {rest : List Char} :
      dropBytes (U.toLowercase text) pos = some rest →
      find rest (U.toLowercase word) = some index → Meets text word pos (pos + index)
  | later {pos index o : Nat} {rest : List Char} :
      dropBytes (U.toLowercase text) pos = some rest →
      find rest (U.toLowercase word) = some index →
      Meets text word (pos + index + len word) o → Meets text word pos o

/-- At byte `o` of the text there is a piece as long as the keyword, which is the keyword but for
the case. -/
def OccursAt (text word : List Char) (o : Nat) : Prop :=
  ∃ front piece rest, text = front ++ piece ++ rest ∧ len front = o ∧ len piece = len word ∧
    U.toLowercase piece = U.toLowercase word

/-- Byte `i` of the text is between two characters, or at an end. -/
def IsCharBoundary (s : List Char) (i : Nat) : Prop :=
  ∃ front rest, s = front ++ rest ∧ len front = i

/-- Where the search meets the keyword in the lower-cased text, the text has it at the same offset,
and the search goes on at a character boundary: what the scan relies on. -/
def SameOffsets (text word : List Char) : Prop :=
  ∀ o, Meets U text word 0 o →
    OccursAt U text word o ∧ IsCharBoundary (U.toLowercase text) (o + len word)

/-- **Lower-casing keeps the offsets of the keyword.**  Wherever the lower-cased text has the
lower-cased keyword, the keyword has as many bytes as its lower case, the characters of the text up
to the end of that place keep their size, and those of the place ask for nothing around it. -/
def KeepsOffsets (text word : List Char) : Prop :=
  ∀ front rest, U.toLowercase text = front ++ U.toLowercase word ++ rest →
    len (U.toLowercase word) = len word ∧
      ∃ a m b, text = a ++ m ++ b ∧ a.length = front.length ∧
        m.length = (U.toLowercase word).length ∧ U.KeepsSize (a ++ m) ∧ U.SigmasAlone a m b

variable {U}
variable {text word : List Char} {leakType : LeakType} {score : UInt32}

theorem isCharBoundary_iff {s : List Char} {i : Nat} :
    IsCharBoundary s i ↔ ∃ rest, dropBytes s i = some rest := by
  simp only [dropBytes_eq_some_iff]
  exact exists_comm

theorem occursAt_iff {o : Nat} :
    OccursAt U text word o ↔
      ∃ piece, slice text o (o + len word) = some piece ∧
        U.toLowercase piece = U.toLowercase word := by
  simp only [slice_eq_some_iff]
  constructor
  · rintro ⟨front, piece, rest, htext, hfront, hlen, hlower⟩
    exact ⟨piece, ⟨front, rest, htext, hfront, hlen⟩, hlower⟩
  · rintro ⟨piece, ⟨front, rest, htext, hfront, hlen⟩, hlower⟩
    exact ⟨front, piece, rest, htext, hfront, hlen, hlower⟩

/-- A round that finds nothing is the last one. -/
theorem scanFrom_of_find_none {fuel pos : Nat} {rest : List Char}
    (hrest : dropBytes (U.toLowercase text) pos = some rest)
    (hfind : find rest (U.toLowercase word) = none) :
    scanFrom U text word leakType score (fuel + 1) pos = .returns [] := by
  simp [scanFrom, hrest, hfind]

/-- A round that finds the keyword, and cuts a piece out of the text. -/
theorem scanFrom_of_slice {fuel pos index : Nat} {rest piece : List Char}
    (hrest : dropBytes (U.toLowercase text) pos = some rest)
    (hfind : find rest (U.toLowercase word) = some index)
    (hslice : slice text (pos + index) (pos + index + len word) = some piece) :
    scanFrom U text word leakType score (fuel + 1) pos =
      (scanFrom U text word leakType score fuel (pos + index + len word)).map
        (⟨leakType, piece, score⟩ :: ·) := by
  simp [scanFrom, hrest, hfind, hslice]

/-- **The rounds of a scan that returns.** -/
theorem scanFrom_returns_cases {fuel pos : Nat} {detections : List Detection}
    (h : scanFrom U text word leakType score fuel pos = .returns detections) :
    ∃ rest, dropBytes (U.toLowercase text) pos = some rest ∧
      ((find rest (U.toLowercase word) = none ∧ detections = []) ∨
        ∃ fuel' index piece later, find rest (U.toLowercase word) = some index ∧
          slice text (pos + index) (pos + index + len word) = some piece ∧
          scanFrom U text word leakType score fuel' (pos + index + len word) = .returns later ∧
          detections = ⟨leakType, piece, score⟩ :: later) := by
  cases fuel with
  | zero => simp [scanFrom] at h
  | succ fuel =>
    rw [scanFrom] at h
    cases hrest : dropBytes (U.toLowercase text) pos with
    | none => simp [hrest] at h
    | some rest =>
      refine ⟨rest, rfl, ?_⟩
      cases hfind : find rest (U.toLowercase word) with
      | none => simp_all
      | some index =>
        cases hslice : slice text (pos + index) (pos + index + len word) with
        | none => simp [hrest, hfind, hslice] at h
        | some piece =>
          simp only [hrest, hfind, hslice] at h
          obtain ⟨later, hlater, rfl⟩ := Run.map_eq_returns_iff.1 h
          exact .inr ⟨fuel, index, piece, later, rfl, hslice, hlater, rfl⟩

/-- The rounds of a scan that returns and has found the keyword. -/
theorem scanFrom_returns_of_find {fuel pos index : Nat} {rest : List Char}
    {detections : List Detection} (hrest : dropBytes (U.toLowercase text) pos = some rest)
    (hfind : find rest (U.toLowercase word) = some index)
    (h : scanFrom U text word leakType score fuel pos = .returns detections) :
    ∃ fuel' piece later, slice text (pos + index) (pos + index + len word) = some piece ∧
      scanFrom U text word leakType score fuel' (pos + index + len word) = .returns later ∧
      detections = ⟨leakType, piece, score⟩ :: later := by
  obtain ⟨rest', hrest', hcases⟩ := scanFrom_returns_cases h
  rw [hrest, Option.some.injEq] at hrest'
  subst hrest'
  rcases hcases with ⟨hnone, _⟩ | ⟨fuel', index', piece, later, hfind', hrounds⟩
  · rw [hfind] at hnone
    cases hnone
  · rw [hfind, Option.some.injEq] at hfind'
    subst hfind'
    exact ⟨fuel', piece, later, hrounds⟩

/-- **Same offsets are enough for one scan.**  With more rounds than there are bytes left, it
returns, and reports the keyword only. -/
theorem exists_scanFrom_returns (hword : word ≠ []) {fuel pos : Nat}
    (hfuel : len (U.toLowercase text) < fuel + pos)
    (hpos : IsCharBoundary (U.toLowercase text) pos)
    (hmeets : ∀ o, Meets U text word pos o →
      OccursAt U text word o ∧ IsCharBoundary (U.toLowercase text) (o + len word)) :
    ∃ detections, scanFrom U text word leakType score fuel pos = .returns detections := by
  induction fuel generalizing pos with
  | zero =>
    obtain ⟨front, rest, hsplit, hlen⟩ := hpos
    have htotal := congrArg len hsplit
    rw [len_append] at htotal
    omega
  | succ fuel ih =>
    obtain ⟨rest, hrest⟩ := isCharBoundary_iff.1 hpos
    cases hfind : find rest (U.toLowercase word) with
    | none => exact ⟨[], scanFrom_of_find_none hrest hfind⟩
    | some index =>
      obtain ⟨hoccurs, hnext⟩ := hmeets _ (.first hrest hfind)
      obtain ⟨piece, hslice, _⟩ := occursAt_iff.1 hoccurs
      have hadvance := len_pos hword
      obtain ⟨later, hlater⟩ := ih (by omega) hnext fun o ho => hmeets o (.later hrest hfind ho)
      rw [scanFrom_of_slice hrest hfind hslice, hlater]
      exact ⟨_, rfl⟩

/-- What a scan reports is cut out of the text; with same offsets it is the keyword. -/
theorem matched_of_sameOffsets {fuel pos : Nat} {detections : List Detection}
    (hmeets : ∀ o, Meets U text word pos o → OccursAt U text word o)
    (h : scanFrom U text word leakType score fuel pos = .returns detections) :
    ∀ d ∈ detections, d.matchedText <:+: text ∧
      U.toLowercase d.matchedText = U.toLowercase word := by
  induction detections generalizing fuel pos with
  | nil => simp
  | cons d later ih =>
    obtain ⟨rest, hrest, ⟨_, hnil⟩ | ⟨_, index, piece, _, hfind, hslice, hlater, hcons⟩⟩ :=
      scanFrom_returns_cases h
    · cases hnil
    · obtain ⟨rfl, rfl⟩ := List.cons.inj hcons
      rw [List.forall_mem_cons]
      refine ⟨?_, ih (fun o ho => hmeets o (.later hrest hfind ho)) hlater⟩
      obtain ⟨piece', hslice', hlower⟩ := occursAt_iff.1 (hmeets _ (.first hrest hfind))
      rw [hslice, Option.some.injEq] at hslice'
      subst hslice'
      obtain ⟨front, behind, htext, _⟩ := slice_eq_some_iff.1 hslice
      exact ⟨⟨front, behind, htext.symm⟩, hlower⟩

/-- A scan that returns, and reports the keyword only, has first met it where the text has it. -/
theorem occursAt_of_scanFrom {fuel o : Nat} {detections : List Detection}
    (h : scanFrom U text word leakType score fuel 0 = .returns detections)
    (hmatched : ∀ d ∈ detections, U.toLowercase d.matchedText = U.toLowercase word)
    (hfind : find (U.toLowercase text) (U.toLowercase word) = some o) :
    OccursAt U text word o := by
  have hrest : dropBytes (U.toLowercase text) 0 = some (U.toLowercase text) :=
    dropBytes_append [] _
  obtain ⟨_, piece, _, hslice, _, rfl⟩ := scanFrom_returns_of_find hrest hfind h
  rw [Nat.zero_add] at hslice
  exact occursAt_iff.2 ⟨piece, hslice, hmatched _ List.mem_cons_self⟩

theorem Meets.exists_split {pos o : Nat} (h : Meets U text word pos o) :
    ∃ front rest, U.toLowercase text = front ++ U.toLowercase word ++ rest ∧ len front = o := by
  induction h with
  | first hrest hfind =>
    obtain ⟨front, htext, hfront⟩ := dropBytes_eq_some_iff.1 hrest
    obtain ⟨between, rest, rfl, hbetween⟩ := find_eq_some hfind
    refine ⟨front ++ between, rest, ?_, by rw [len_append, hfront, hbetween]⟩
    rw [htext, List.append_assoc, List.append_assoc, List.append_assoc]
  | later _ _ _ ih => exact ih

/-- Lower-casing keeps all offsets in a text whose characters all keep their length. -/
theorem keepsOffsets_of_keepsLength (htext : U.KeepsLength text) (hword : U.KeepsLength word) :
    KeepsOffsets U text word := by
  intro front rest hsplit
  obtain ⟨a, m, b, rfl, ha, hm⟩ := htext.exists_split hsplit
  refine ⟨?_, a, m, b, rfl, ha, hm, ?_, ?_⟩
  · rw [UnicodeData.toLowercase_of_keepsLength hword, UnicodeData.len_map_lowerChar hword]
  · exact (htext.of_subset (List.subset_append_left ..)).keepsSize
  · exact (htext.of_subset fun c hc => by simp [hc]).sigmasAlone

/-- **Where lower-casing keeps the offsets of the keyword, the text has it where it is met.** -/
theorem sameOffsets_of_keepsOffsets (h : KeepsOffsets U text word) : SameOffsets U text word := by
  intro o hmeets
  obtain ⟨front, rest, hsplit, rfl⟩ := hmeets.exists_split
  obtain ⟨hword, a, piece, b, rfl, ha, hm, hkept, halone⟩ := h front rest hsplit
  obtain ⟨hfront, hpiece, hlower⟩ := hkept.place hsplit ha hm halone
  refine ⟨⟨a, piece, b, rfl, hfront, hpiece.trans hword, hlower⟩, ?_⟩
  exact ⟨front ++ U.toLowercase word, rest, hsplit, by rw [len_append, hword]⟩

theorem sameOffsets_of_keepsLength (htext : U.KeepsLength text) (hword : U.KeepsLength word) :
    SameOffsets U text word := sameOffsets_of_keepsOffsets (keepsOffsets_of_keepsLength htext hword)

/-- It is enough to look at every place of the lower-cased text. -/
theorem keepsOffsets_of_forall {kept behind : List Char} (hkept : U.KeepsLength kept)
    (hword : len (U.toLowercase word) = len word)
    (h : ∀ n ≤ (U.toLowercase (kept ++ behind)).length,
      (U.toLowercase word).isPrefixOf ((U.toLowercase (kept ++ behind)).drop n) →
        n + (U.toLowercase word).length ≤ kept.length) :
    KeepsOffsets U (kept ++ behind) word := by
  intro front rest hsplit
  have hplace := h front.length (by simp [hsplit])
  rw [hsplit, List.append_assoc, List.drop_left] at hplace
  have hle := hplace (List.isPrefixOf_iff_prefix.2 ⟨rest, rfl⟩)
  have hpiece : (kept.drop front.length).take (U.toLowercase word).length ⊆ kept :=
    fun c hc => List.mem_of_mem_drop (List.mem_of_mem_take hc)
  refine ⟨hword, kept.take front.length,
    (kept.drop front.length).take (U.toLowercase word).length,
    (kept.drop front.length).drop (U.toLowercase word).length ++ behind, ?_, ?_, ?_, ?_, ?_⟩
  · rw [List.append_assoc, ← List.append_assoc _ _ behind, List.take_append_drop,
      ← List.append_assoc, List.take_append_drop]
  · exact List.length_take_of_le (by omega)
  · exact List.length_take_of_le (by rw [List.length_drop]; omega)
  · have hfront : kept.take front.length ⊆ kept := List.take_subset ..
    exact (hkept.of_subset (List.append_subset.2 ⟨hfront, hpiece⟩)).keepsSize
  · exact (hkept.of_subset hpiece).sigmasAlone

/-! ## The whole analysis -/

namespace DlpEngine
variable {engine : DlpEngine}

theorem exists_detections_dictionary_iff {fuel : Nat} {dict : Dictionary} :
    (∃ detections, Rule.detections U fuel text (.dictionary dict leakType) = .returns detections) ↔
      ∀ entry ∈ dict.entries, ∃ detections,
        scanFrom U text entry.1 leakType entry.2 fuel 0 = .returns detections := by
  rw [Rule.detections, Run.exists_map_iff, Run.exists_all_iff, List.forall_mem_map]

/-- The analysis of a text returns when all its scans do. -/
theorem exists_analyze_iff {fuel : Nat} :
    (∃ result, engine.analyze U fuel text = .returns result) ↔
      ∀ word leakType score, engine.HasKeyword word leakType score →
        ∃ detections, scanFrom U text word leakType score fuel 0 = .returns detections := by
  rw [analyze, Run.exists_map_iff, Run.exists_all_iff, List.forall_mem_map]
  constructor
  · rintro h word leakType score ⟨dict, hrule, hentry⟩
    exact exists_detections_dictionary_iff.1 (h _ hrule) _ hentry
  · intro h rule hrule
    cases rule with
    | signature findIter leakType score => exact ⟨_, rfl⟩
    | dictionary dict leakType =>
      refine exists_detections_dictionary_iff.2 fun entry hentry => ?_
      exact h entry.1 leakType entry.2 ⟨dict, hrule, hentry⟩

theorem exists_analyzeParallel_iff {fuel : Nat} {documents : List (List Char)} :
    (∃ results, engine.analyzeParallel U fuel documents = .returns results) ↔
      ∀ text ∈ documents, ∃ result, engine.analyze U fuel text = .returns result := by
  rw [analyzeParallel, Run.exists_all_iff, List.forall_mem_map]

/-- One result for each document. -/
theorem length_analyzeParallel {fuel : Nat} {documents : List (List Char)}
    {results : List AnalysisResult}
    (h : engine.analyzeParallel U fuel documents = .returns results) :
    results.length = documents.length := by
  have hlen := congrArg List.length (Run.all_eq_returns_iff.1 h)
  rw [List.length_map, List.length_map] at hlen
  exact hlen.symm

/-- With same offsets, as many rounds as the longest lower-cased text has bytes, and one, are
enough. -/
theorem safeAndFaithful_of_sameOffsets {documents : List (List Char)}
    (hne : ∀ word leakType score, engine.HasKeyword word leakType score → word ≠ [])
    (hsame : ∀ text ∈ documents, ∀ word leakType score,
      engine.HasKeyword word leakType score → SameOffsets U text word) :
    engine.SafeAndFaithful U documents := by
  have hreturns : ∀ text ∈ documents, ∀ fuel, len (U.toLowercase text) < fuel →
      ∃ result, engine.analyze U fuel text = .returns result := by
    intro text htext fuel hfuel
    refine exists_analyze_iff.2 fun word leakType score hkey => ?_
    exact exists_scanFrom_returns (hne word leakType score hkey) hfuel ⟨[], _, rfl, rfl⟩
      (hsame text htext word leakType score hkey)
  refine ⟨fun text htext => ⟨_, hreturns text htext _ (Nat.lt_succ_self _)⟩, ?_, ?_⟩
  · have henough : ∀ text ∈ documents, len (U.toLowercase text) <
        (documents.map fun text => len (U.toLowercase text)).sum + 1 := by
      intro text htext
      refine Nat.lt_succ_of_le (List.single_le_sum (fun _ _ => Nat.zero_le _) _ ?_)
      exact List.mem_map_of_mem htext
    obtain ⟨results, hresults⟩ := exists_analyzeParallel_iff.2 fun text htext =>
      hreturns text htext _ (henough text htext)
    exact ⟨_, results, hresults, length_analyzeParallel hresults⟩
  · intro text htext word leakType score hkey fuel detections h
    exact matched_of_sameOffsets (fun o ho => (hsame text htext word leakType score hkey o ho).1) h

end DlpEngine

/-- **The analysis is safe and faithful where lower-casing keeps the offsets of the keywords.**  For
every engine whose keywords are not empty and all documents: if in no document the lower case of a
keyword ends behind a character whose lower case is not one character of as many bytes, nor has a
`Σ` whose lower case depends on what stands around the keyword, and the keywords that occur are as
long as their lower case, the analysis of each document and of all of them in parallel returns, and
reports pieces of the text that are the keyword but for the case. -/
theorem analysis_is_safe_of_keepsOffsets (U : UnicodeData) (engine : DlpEngine)
    (hne : ∀ word leakType score, engine.HasKeyword word leakType score → word ≠ [])
    (documents : List (List Char))
    (hkeeps : ∀ text ∈ documents, ∀ word leakType score,
      engine.HasKeyword word leakType score → KeepsOffsets U text word) :
    engine.SafeAndFaithful U documents :=
  DlpEngine.safeAndFaithful_of_sameOffsets hne fun text htext word leakType score hkey =>
    sameOffsets_of_keepsOffsets (hkeeps text htext word leakType score hkey)

/-- Of the offsets at least one must be the same: where the lower-cased text first has the keyword,
the text has it too, unless the analysis fails. -/
theorem DlpEngine.SafeAndFaithful.occursAt_of_find {engine : DlpEngine}
    {documents : List (List Char)} (h : engine.SafeAndFaithful U documents)
    (htext : text ∈ documents) (hkey : engine.HasKeyword word leakType score) {o : Nat}
    (hfind : find (U.toLowercase text) (U.toLowercase word) = some o) :
    OccursAt U text word o := by
  obtain ⟨fuel, hresult⟩ := h.analyzed text htext
  obtain ⟨detections, hscan⟩ := DlpEngine.exists_analyze_iff.1 hresult word leakType score hkey
  exact occursAt_of_scanFrom hscan
    (fun d hd => (h.matched text htext word leakType score hkey fuel detections hscan d hd).2) hfind

/-! ### `İ` behind a keyword, and in front of it -/

/-- The data of ASCII and of `İ`, whose lower case has two characters. -/
def asciiAndDottedI : UnicodeData where
  toLower c := if c = 'İ' then ['i', '\u0307'] else [c.toLower]
  isCased c := c.isAlpha || c = 'İ'
  isCaseIgnorable c := c = '\u0307'
  ascii c hc := by
    have hne : c ≠ 'İ' := by
      rintro rfl
      exact absurd hc (by decide)
    rw [if_neg hne]

/-- One of the keywords that `main` looks for. -/
def ndaEngine : DlpEngine :=
  (DlpEngine.new 20).addRule (.dictionary ⟨[("NDA".toList, 5)], by decide⟩ .confidentialKeyword)

theorem ndaEngine_hasKeyword {word : List Char} {leakType : LeakType} {score : UInt32}
    (h : ndaEngine.HasKeyword word leakType score) : word = "NDA".toList := by
  obtain ⟨dict, hrule, hentry⟩ := h
  simp only [ndaEngine, DlpEngine.new, DlpEngine.addRule, List.nil_append, List.mem_singleton,
    Rule.dictionary.injEq] at hrule
  obtain ⟨rfl, _⟩ := hrule
  simpa using congrArg Prod.fst (List.mem_singleton.1 hentry)

/-- The keyword in front of `İ` is reported. -/
theorem ndaEngine_dotted_capital_behind :
    ndaEngine.SafeAndFaithful asciiAndDottedI ["containing an NDA, İ".toList] := by
  refine analysis_is_safe_of_keepsOffsets asciiAndDottedI ndaEngine ?_ _ ?_
  · intro word leakType score hkey
    rw [ndaEngine_hasKeyword hkey]
    decide
  · intro text htext word leakType score hkey
    rw [List.mem_singleton.1 htext, ndaEngine_hasKeyword hkey]
    have hkeeps : KeepsOffsets asciiAndDottedI ("containing an NDA, ".toList ++ "İ".toList)
        "NDA".toList :=
      keepsOffsets_of_forall (UnicodeData.keepsLength_of_ascii (by simp)) (by decide) (by decide)
    exact hkeeps

/-- A second copy of the keyword may stand where the wrong offset points. -/
example : scanFrom asciiAndDottedI "İaaa".toList "aa".toList .sourceCode 1 2 0 =
    .returns [⟨.sourceCode, "aa".toList, 1⟩] := rfl

/-- `İ` has two bytes, its lower case three: behind it the keyword is looked for one byte too far,
and the slice ends behind the text. -/
theorem dotted_capital_panics :
    (∀ fuel, ndaEngine.analyze asciiAndDottedI (fuel + 1) "İNDA".toList = .panics) ∧
      ¬ ndaEngine.SafeAndFaithful asciiAndDottedI ["İNDA".toList] := by
  have hpanics : ∀ fuel, ndaEngine.analyze asciiAndDottedI (fuel + 1) "İNDA".toList = .panics :=
    fun fuel => rfl
  refine ⟨hpanics, fun h => ?_⟩
  obtain ⟨fuel, result, hresult⟩ := h.analyzed _ (List.mem_singleton_self _)
  cases fuel with
  | zero => cases hresult
  | succ fuel =>
    rw [hpanics fuel] at hresult
    cases hresult

end RustSamples.DlpAnalyzer
