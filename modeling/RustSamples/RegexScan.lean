import Mathlib.Data.List.Infix
import Mathlib.Data.Nat.Find

/-! # Patterns in a row, searched from the left

A pattern is a row of items: a character of a class (`\d{4}` is four of them), at most one
character of a class (`[- ]?`), or a word boundary (`\b`).  An optional character is taken if the
rest of the pattern is met behind it, and left out otherwise.

A search finds the first place that meets the pattern, then the first one behind the end of that
match, and so on (`Found`).  `Search` is any search that does so for simple patterns: those that
take a character and meet a place with one text at most.  What it finds is then determined, and
`findIter` finds it (`Search.findIter_eq`).

What is found in a part of a text does not depend on what stands behind, as long as no match
runs out of that part (`exists_findIterFrom_append`).  A character that no class takes, and that is
no word character, divides the text for good (`findIter_append_cons`).
-/
namespace RegexScan
variable {α : Type}

/-! ## Patterns -/

inductive Item (α : Type)
  | one (p : α → Bool)
  | maybe (p : α → Bool)
  | wordBoundary

variable (isWord : α → Bool)

/-- `\b`: exactly one of the neighbours is a word character. -/
def atBoundary (last next : Option α) : Bool := last.any isWord != next.any isWord

/-- The last character when `m` stands behind `last`. -/
def lastOf (last : Option α) : List α → Option α
  | [] => last
  | c :: m => lastOf (some c) m

/-- `m` meets the pattern, behind `last` and in front of `rest`. -/
def Matches : Option α → List (Item α) → List α → List α → Prop
  | _, [], m, _ => m = []
  | _, .one p :: items, m, rest => ∃ c m', m = c :: m' ∧ p c ∧ Matches (some c) items m' rest
  | last, .maybe p :: items, m, rest =>
      (∃ c m', m = c :: m' ∧ p c ∧ Matches (some c) items m' rest) ∨ Matches last items m rest
  | last, .wordBoundary :: items, m, rest =>
      atBoundary isWord last (m ++ rest).head? ∧ Matches last items m rest

/-- The match at the beginning of a text, if there is one. -/
def matchAt : Option α → List (Item α) → List α → Option (List α)
  | _, [], _ => some []
  | _, .one _ :: _, [] => none
  | _, .one p :: items, c :: s =>
      if p c then (matchAt (some c) items s).map (c :: ·) else none
  | last, .maybe _ :: items, [] => matchAt last items []
  | last, .maybe p :: items, c :: s =>
      if p c then ((matchAt (some c) items s).map (c :: ·)).or (matchAt last items (c :: s))
      else matchAt last items (c :: s)
  | last, .wordBoundary :: items, s =>
      if atBoundary isWord last s.head? then matchAt last items s else none

/-- The matches from here on, the next `skip` characters being those of the last match. -/
def findIterFrom (items : List (Item α)) : Option α → Nat → List α → List (List α)
  | _, _, [] => []
  | _, skip + 1, c :: s => findIterFrom items (some c) skip s
  | last, 0, c :: s =>
      match matchAt isWord last items (c :: s) with
      | some m => m :: findIterFrom items (some c) (m.length - 1) s
      | none => findIterFrom items (some c) 0 s

/-- `find_iter`. -/
def findIter (items : List (Item α)) (s : List α) : List (List α) :=
  findIterFrom isWord items none 0 s

/-- **What a search from the left is to find**: behind `last`, the first place that meets the
pattern, and what is found behind this match. -/
inductive Found (items : List (Item α)) : Option α → List α → List (List α) → Prop
  | none {last : Option α} {s : List α}
      (hnone : ∀ front m rest, s = front ++ m ++ rest →
        ¬ Matches isWord (lastOf last front) items m rest) : Found items last s []
  | next {last : Option α} {front m rest : List α} {ms : List (List α)}
      (hm : Matches isWord (lastOf last front) items m rest)
      (hfirst : ∀ front' m' rest', front ++ m ++ rest = front' ++ m' ++ rest' →
        Matches isWord (lastOf last front') items m' rest' → front.length ≤ front'.length)
      (hlater : Found items (lastOf last (front ++ m)) rest ms) :
      Found items last (front ++ m ++ rest) (m :: ms)

variable {isWord} {items : List (Item α)} {last : Option α} {m s t rest : List α}

theorem lastOf_append (last : Option α) (x y : List α) :
    lastOf last (x ++ y) = lastOf (lastOf last x) y := by
  induction x generalizing last with
  | nil => rfl
  | cons c x ih => exact ih (some c)

theorem lastOf_concat (last : Option α) (x : List α) (c : α) : lastOf last (x ++ [c]) = some c := by
  rw [lastOf_append]
  rfl

/-! ## The match at a place -/

/-- What is found is a match. -/
theorem exists_matches_of_matchAt (h : matchAt isWord last items s = some m) :
    ∃ rest, s = m ++ rest ∧ Matches isWord last items m rest := by
  induction items generalizing last s m with
  | nil =>
    obtain rfl := Option.some.inj h
    exact ⟨s, rfl, rfl⟩
  | cons item items ih =>
    cases item with
    | one p =>
      cases s with
      | nil => cases h
      | cons c s =>
        rw [matchAt, Option.ite_none_right_eq_some, Option.map_eq_some_iff] at h
        obtain ⟨hp, m', hm', rfl⟩ := h
        obtain ⟨rest, rfl, hmatches⟩ := ih hm'
        exact ⟨rest, rfl, c, m', rfl, hp, hmatches⟩
    | maybe p =>
      have hskip : matchAt isWord last items s = some m →
          ∃ rest, s = m ++ rest ∧ Matches isWord last (.maybe p :: items) m rest := fun hs => by
        obtain ⟨rest, hrest, hmatches⟩ := ih hs
        exact ⟨rest, hrest, .inr hmatches⟩
      cases s with
      | nil => exact hskip h
      | cons c s =>
        rw [matchAt] at h
        split_ifs at h with hp
        · rw [Option.or_eq_some_iff, Option.map_eq_some_iff] at h
          obtain ⟨m', hm', rfl⟩ | ⟨_, hs⟩ := h
          · obtain ⟨rest, rfl, hmatches⟩ := ih hm'
            exact ⟨rest, rfl, .inl ⟨c, m', rfl, hp, hmatches⟩⟩
          · exact hskip hs
        · exact hskip h
    | wordBoundary =>
      rw [matchAt, Option.ite_none_right_eq_some] at h
      obtain ⟨hb, hs⟩ := h
      obtain ⟨rest, rfl, hmatches⟩ := ih hs
      exact ⟨rest, rfl, hb, hmatches⟩

/-- Where there is a match, one is found. -/
theorem exists_matchAt_of_matches (h : Matches isWord last items m rest) :
    ∃ m', matchAt isWord last items (m ++ rest) = some m' := by
  induction items generalizing last m with
  | nil => exact ⟨[], rfl⟩
  | cons item items ih =>
    cases item with
    | one p =>
      obtain ⟨c, m, rfl, hp, hmatches⟩ := h
      obtain ⟨m', hm'⟩ := ih hmatches
      exact ⟨c :: m', by rw [List.cons_append, matchAt, if_pos hp, hm', Option.map_some]⟩
    | maybe p =>
      obtain ⟨c, m, rfl, hp, hmatches⟩ | hmatches := h
      · obtain ⟨m', hm'⟩ := ih hmatches
        exact ⟨c :: m', by
          rw [List.cons_append, matchAt, if_pos hp, hm', Option.map_some, Option.some_or]⟩
      · obtain ⟨m', hm'⟩ := ih hmatches
        cases hs : m ++ rest with
        | nil => exact ⟨m', by rw [matchAt, ← hs, hm']⟩
        | cons c s =>
          rw [hs] at hm'
          rw [matchAt, hm']
          split_ifs with hp
          · cases matchAt isWord (some c) items s <;> simp
          · exact ⟨m', rfl⟩
    | wordBoundary =>
      obtain ⟨m', hm'⟩ := ih h.2
      exact ⟨m', by rw [matchAt, if_pos h.1, hm']⟩

theorem matches_replicate_append {n : Nat} {p : α → Bool} :
    Matches isWord last (List.replicate n (.one p) ++ items) m rest ↔
      ∃ g m', m = g ++ m' ∧ (g.length = n ∧ ∀ c ∈ g, p c = true) ∧
        Matches isWord (lastOf last g) items m' rest := by
  induction n generalizing last m with
  | zero =>
    constructor
    · exact fun h => ⟨[], m, rfl, ⟨rfl, List.forall_mem_nil _⟩, h⟩
    · rintro ⟨g, m', rfl, ⟨hlen, _⟩, h⟩
      obtain rfl := List.eq_nil_of_length_eq_zero hlen
      exact h
  | succ n ih =>
    constructor
    · rintro ⟨c, m, rfl, hp, h⟩
      obtain ⟨g, m', rfl, ⟨hlen, hg⟩, h⟩ := ih.1 h
      exact ⟨c :: g, m', rfl, ⟨congrArg Nat.succ hlen, List.forall_mem_cons.2 ⟨hp, hg⟩⟩, h⟩
    · rintro ⟨g, m', rfl, ⟨hlen, hg⟩, h⟩
      obtain ⟨c, g, rfl⟩ := List.exists_cons_of_length_eq_add_one hlen
      obtain ⟨hp, hg⟩ := List.forall_mem_cons.1 hg
      exact ⟨c, g ++ m', rfl, hp, ih.2 ⟨g, m', rfl, ⟨Nat.succ.inj hlen, hg⟩, h⟩⟩

theorem matches_maybe_cons {p : α → Bool} :
    Matches isWord last (.maybe p :: items) m rest ↔
      ∃ s m', m = s ++ m' ∧ (s.length ≤ 1 ∧ ∀ c ∈ s, p c = true) ∧
        Matches isWord (lastOf last s) items m' rest := by
  constructor
  · rintro (⟨c, m', rfl, hp, h⟩ | h)
    · exact ⟨[c], m', rfl, ⟨Nat.le_refl 1, List.forall_mem_singleton.2 hp⟩, h⟩
    · exact ⟨[], m, rfl, ⟨Nat.zero_le 1, List.forall_mem_nil _⟩, h⟩
  · rintro ⟨s, m', rfl, ⟨hlen, hs⟩, h⟩
    cases s with
    | nil => exact .inr h
    | cons c s =>
      obtain rfl := List.eq_nil_of_length_eq_zero (Nat.le_zero.1 (Nat.le_of_succ_le_succ hlen))
      exact .inl ⟨c, m', rfl, hs c List.mem_cons_self, h⟩

/-- Every optional character is followed at once by one of another class. -/
def Plain : List (Item α) → Prop
  | [] => True
  | .maybe p :: .one q :: items => (∀ c, p c → q c = false) ∧ Plain (.one q :: items)
  | .maybe _ :: _ => False
  | .one _ :: items => Plain items
  | .wordBoundary :: items => Plain items

/-- A plain pattern has at most one match at a place. -/
theorem Matches.unique (hplain : Plain items) {m' rest' : List α}
    (h : Matches isWord last items m rest) (h' : Matches isWord last items m' rest')
    (heq : m ++ rest = m' ++ rest') : m = m' := by
  induction items generalizing last m m' with
  | nil => exact h.trans h'.symm
  | cons item items ih =>
    cases item with
    | one p =>
      obtain ⟨c, m, rfl, _, hmatches⟩ := h
      obtain ⟨c', m', rfl, _, hmatches'⟩ := h'
      obtain ⟨rfl, htail⟩ := List.cons.inj heq
      exact congrArg (c :: ·) (ih hplain hmatches hmatches' htail)
    | maybe p =>
      cases items with
      | nil => exact hplain.elim
      | cons next items =>
        cases next with
        | maybe => exact hplain.elim
        | wordBoundary => exact hplain.elim
        | one q =>
          obtain ⟨hdisjoint, hplain⟩ := hplain
          obtain ⟨c, m, rfl, hp, hmatches⟩ | hmatches := h
          · obtain ⟨c', m', rfl, _, hmatches'⟩ | ⟨c', m', rfl, hq, _⟩ := h'
            · obtain ⟨rfl, htail⟩ := List.cons.inj heq
              exact congrArg (c :: ·) (ih hplain hmatches hmatches' htail)
            · obtain ⟨rfl, _⟩ := List.cons.inj heq
              exact absurd hq (by rw [hdisjoint c hp]; nofun)
          · obtain ⟨c', m', rfl, hp, _⟩ | hmatches' := h'
            · obtain ⟨c, m, rfl, hq, _⟩ := hmatches
              obtain ⟨rfl, _⟩ := List.cons.inj heq
              exact absurd hq (by rw [hdisjoint c hp]; nofun)
            · exact ih hplain hmatches hmatches' heq
    | wordBoundary => exact ih hplain h.2 h'.2 heq

theorem matchAt_eq_some_iff (hplain : Plain items) :
    matchAt isWord last items (m ++ rest) = some m ↔ Matches isWord last items m rest := by
  constructor
  · intro h
    obtain ⟨rest', heq, hmatches⟩ := exists_matches_of_matchAt h
    rwa [List.append_cancel_left heq]
  · intro h
    obtain ⟨m', hm'⟩ := exists_matchAt_of_matches h
    obtain ⟨rest', heq, hmatches⟩ := exists_matches_of_matchAt hm'
    rw [hm', h.unique hplain hmatches heq]

theorem matchAt_eq_none_iff : matchAt isWord last items s = none ↔
    ∀ m rest, s = m ++ rest → ¬ Matches isWord last items m rest := by
  constructor
  · rintro hnone m rest rfl h
    obtain ⟨m', hm'⟩ := exists_matchAt_of_matches h
    rw [hnone] at hm'
    cases hm'
  · intro h
    rw [Option.eq_none_iff_forall_ne_some]
    intro m hm
    obtain ⟨rest, hs, hmatches⟩ := exists_matches_of_matchAt hm
    exact h m rest hs hmatches

/-! ## The search -/

/-- Behind a match the search goes on as from a fresh place. -/
theorem findIterFrom_skip (x : List α) :
    findIterFrom isWord items last x.length (x ++ s) =
      findIterFrom isWord items (lastOf last x) 0 s := by
  induction x generalizing last with
  | nil => rfl
  | cons c x ih => exact ih

theorem findIterFrom_of_matchAt (hne : m ≠ [])
    (h : matchAt isWord last items (m ++ rest) = some m) :
    findIterFrom isWord items last 0 (m ++ rest) =
      m :: findIterFrom isWord items (lastOf last m) 0 rest := by
  obtain ⟨c, m, rfl⟩ := List.exists_cons_of_ne_nil hne
  rw [List.cons_append] at h ⊢
  rw [findIterFrom, h]
  exact congrArg ((c :: m) :: ·) (findIterFrom_skip m)

/-- Whatever is found stands in the text and meets the pattern there. -/
theorem exists_matches_of_mem_findIterFrom {skip : Nat}
    (h : m ∈ findIterFrom isWord items last skip s) :
    ∃ front rest, s = front ++ m ++ rest ∧ Matches isWord (lastOf last front) items m rest := by
  induction s generalizing last skip with
  | nil => cases h
  | cons c s ih =>
    have hlater : ∀ {skip}, m ∈ findIterFrom isWord items (some c) skip s → ∃ front rest,
        c :: s = front ++ m ++ rest ∧ Matches isWord (lastOf last front) items m rest := by
      intro skip h
      obtain ⟨front, rest, rfl, hmatches⟩ := ih h
      exact ⟨c :: front, rest, rfl, hmatches⟩
    cases skip with
    | succ skip => exact hlater h
    | zero =>
      rw [findIterFrom] at h
      cases hm : matchAt isWord last items (c :: s) with
      | none =>
        rw [hm] at h
        exact hlater h
      | some m' =>
        rw [hm] at h
        obtain rfl | h := List.mem_cons.1 h
        · obtain ⟨rest, hs, hmatches⟩ := exists_matches_of_matchAt hm
          exact ⟨[], rest, hs, hmatches⟩
        · exact hlater h

/-! ## Every search -/

/-- A pattern that takes a character, and meets a place with one text at most. -/
structure Simple (items : List (Item α)) : Prop where
  plain : Plain items
  takes : ∃ p, .one p ∈ items

theorem Matches.ne_nil {p : α → Bool} (hone : .one p ∈ items)
    (h : Matches isWord last items m rest) : m ≠ [] := by
  induction items generalizing last m with
  | nil => cases hone
  | cons item items ih =>
    cases item with
    | one q =>
      obtain ⟨c, m', rfl, _⟩ := h
      exact List.cons_ne_nil c m'
    | maybe q =>
      obtain ⟨c, m', rfl, _⟩ | h := h
      · exact List.cons_ne_nil c m'
      · exact ih ((List.mem_cons.1 hone).resolve_left nofun) h
    | wordBoundary => exact ih ((List.mem_cons.1 hone).resolve_left nofun) h.2

/-- The search goes to the first match, and on behind it. -/
theorem findIterFrom_of_first {front : List α} (hsimple : Simple items)
    (hm : Matches isWord (lastOf last front) items m rest)
    (hfirst : ∀ front' m' rest', front ++ m ++ rest = front' ++ m' ++ rest' →
      Matches isWord (lastOf last front') items m' rest' → front.length ≤ front'.length) :
    findIterFrom isWord items last 0 (front ++ m ++ rest) =
      m :: findIterFrom isWord items (lastOf last (front ++ m)) 0 rest := by
  induction front generalizing last with
  | nil =>
    obtain ⟨p, hone⟩ := hsimple.takes
    exact findIterFrom_of_matchAt (hm.ne_nil hone) ((matchAt_eq_some_iff hsimple.plain).2 hm)
  | cons c front ih =>
    have hnone : matchAt isWord last items (c :: (front ++ m ++ rest)) = none :=
      matchAt_eq_none_iff.2 fun m' rest' heq hm' =>
        Nat.not_succ_le_zero _ (hfirst [] m' rest' heq hm')
    rw [List.cons_append, List.cons_append, findIterFrom, hnone]
    exact ih hm fun front' m' rest' heq hm' =>
      Nat.le_of_succ_le_succ (hfirst (c :: front') m' rest' (congrArg (c :: ·) heq) hm')

/-- **What is to be found is determined.** -/
theorem Found.findIterFrom_eq {ms : List (List α)} (hsimple : Simple items)
    (h : Found isWord items last s ms) : findIterFrom isWord items last 0 s = ms := by
  induction h with
  | none hnone =>
    rw [List.eq_nil_iff_forall_not_mem]
    intro m hm
    obtain ⟨front, rest, hs, hmatches⟩ := exists_matches_of_mem_findIterFrom hm
    exact hnone front m rest hs hmatches
  | next hm hfirst _ ih => rw [findIterFrom_of_first hsimple hm hfirst, ih]

theorem found_findIterFrom (hsimple : Simple items) (last : Option α) (s : List α) :
    Found isWord items last s (findIterFrom isWord items last 0 s) := by
  induction hlen : s.length using Nat.strong_induction_on generalizing last s with
  | _ n ih =>
    subst hlen
    by_cases hany : ∃ k front m rest, s = front ++ m ++ rest ∧ front.length = k ∧
        Matches isWord (lastOf last front) items m rest
    · classical
      -- the first of the matches
      obtain ⟨front, m, rest, hs, hk, hm⟩ := Nat.find_spec hany
      have hfirst : ∀ front' m' rest', front ++ m ++ rest = front' ++ m' ++ rest' →
          Matches isWord (lastOf last front') items m' rest' → front.length ≤ front'.length :=
        fun front' m' rest' heq hm' =>
          hk.trans_le (Nat.find_min' hany ⟨front', m', rest', hs.trans heq, rfl, hm'⟩)
      obtain ⟨p, hone⟩ := hsimple.takes
      have hshort : rest.length < s.length := by
        have hpos := List.length_pos_iff.2 (hm.ne_nil hone)
        rw [hs, List.length_append, List.length_append]
        omega
      rw [hs, findIterFrom_of_first hsimple hm hfirst]
      exact .next hm hfirst (ih _ hshort _ rest rfl)
    · have hnone : Found isWord items last s [] := .none fun front m rest hs hm =>
        hany ⟨_, front, m, rest, hs, rfl, hm⟩
      rw [hnone.findIterFrom_eq hsimple]
      exact hnone

theorem Found.ne_nil_iff {ms : List (List α)} (h : Found isWord items last s ms) :
    ms ≠ [] ↔ ∃ front m rest, s = front ++ m ++ rest ∧
      Matches isWord (lastOf last front) items m rest := by
  cases h with
  | none hnone =>
    refine ⟨fun h => absurd rfl h, ?_⟩
    rintro ⟨front, m, rest, hs, hm⟩
    exact absurd hm (hnone front m rest hs)
  | next hm _ _ => exact ⟨fun _ => ⟨_, _, _, rfl, hm⟩, fun _ => List.cons_ne_nil _ _⟩

/-- A search for patterns, with the word characters `isWord`, and whether there is a match. -/
structure Search (isWord : α → Bool) where
  findIter : List (Item α) → List α → List (List α)
  isMatch : List (Item α) → List α → Bool
  found : ∀ {items}, Simple items → ∀ s, Found isWord items none s (findIter items s)
  isMatch_iff : ∀ {items}, Simple items → ∀ s, isMatch items s = true ↔
    ∃ front m rest, s = front ++ m ++ rest ∧ Matches isWord (lastOf none front) items m rest

namespace Search

theorem findIter_eq (S : Search isWord) (hsimple : Simple items) (s : List α) :
    S.findIter items s = RegexScan.findIter isWord items s :=
  ((S.found hsimple s).findIterFrom_eq hsimple).symm

theorem isMatch_iff_ne_nil (S : Search isWord) (hsimple : Simple items) (s : List α) :
    S.isMatch items s = true ↔ S.findIter items s ≠ [] :=
  (S.isMatch_iff hsimple s).trans (S.found hsimple s).ne_nil_iff.symm

/-- The search that is given above. -/
def fromLeft (isWord : α → Bool) : Search isWord where
  findIter := RegexScan.findIter isWord
  isMatch items s := !(RegexScan.findIter isWord items s).isEmpty
  found hsimple s := found_findIterFrom hsimple none s
  isMatch_iff hsimple s := by
    rw [← (found_findIterFrom hsimple none s).ne_nil_iff, Bool.not_eq_true',
      List.isEmpty_eq_false_iff]
    rfl

end Search

/-! ## Matches that do not run on -/

/-- No match that begins in `x` runs on into `t`. -/
def Confined (isWord : α → Bool) (items : List (Item α)) (last : Option α) (x t : List α) : Prop :=
  ∀ y z m rest, x = y ++ z → z ≠ [] → z ++ t = m ++ rest →
    Matches isWord (lastOf last y) items m rest → m.length ≤ z.length

theorem Confined.tail {c : α} {x : List α} (h : Confined isWord items last (c :: x) t) :
    Confined isWord items (some c) x t :=
  fun y z m rest hx => h (c :: y) z m rest (congrArg (c :: ·) hx)

/-- **What is found in one part does not depend on the next**, if no match runs on. -/
theorem exists_findIterFrom_append {x : List α} (h : Confined isWord items last x t) {skip : Nat}
    (hskip : skip ≤ x.length) : ∃ ms, findIterFrom isWord items last skip (x ++ t) =
      ms ++ findIterFrom isWord items (lastOf last x) 0 t ∧ ∀ m ∈ ms, m <:+: x := by
  induction x generalizing last skip with
  | nil =>
    obtain rfl := Nat.le_zero.1 hskip
    exact ⟨[], rfl, List.forall_mem_nil _⟩
  | cons c x ih =>
    have hlater : ∀ skip ≤ x.length, ∃ ms, findIterFrom isWord items (some c) skip (x ++ t) =
        ms ++ findIterFrom isWord items (lastOf last (c :: x)) 0 t ∧ ∀ m ∈ ms, m <:+: c :: x := by
      intro skip hskip
      obtain ⟨ms, hms, hpieces⟩ := ih h.tail hskip
      exact ⟨ms, hms, fun m hm => (hpieces m hm).trans (List.suffix_cons c x).isInfix⟩
    cases skip with
    | succ skip => exact hlater skip (Nat.le_of_succ_le_succ hskip)
    | zero =>
      rw [List.cons_append, findIterFrom]
      cases hm : matchAt isWord last items (c :: (x ++ t)) with
      | none => exact hlater 0 (Nat.zero_le _)
      | some m =>
        obtain ⟨rest, hs, hmatches⟩ := exists_matches_of_matchAt hm
        have hle : m.length ≤ (c :: x).length := h [] (c :: x) m rest rfl nofun hs hmatches
        have hfront : m <+: c :: x :=
          List.prefix_of_prefix_length_le ⟨rest, hs.symm⟩ ⟨t, rfl⟩ hle
        obtain ⟨ms, hms, hpieces⟩ := hlater (m.length - 1) (Nat.sub_le_of_le_add hle)
        exact ⟨m :: ms, congrArg (m :: ·) hms,
          List.forall_mem_cons.2 ⟨hfront.isInfix, hpieces⟩⟩

/-! ## Characters that divide a text -/

/-- The item does not take the character. -/
def Item.Rejects (c : α) : Item α → Prop
  | .one p => p c = false
  | .maybe p => p c = false
  | .wordBoundary => True

/-- No class takes the character, and it is no word character. -/
structure Foreign (isWord : α → Bool) (items : List (Item α)) (c : α) : Prop where
  notWord : isWord c = false
  rejects : ∀ item ∈ items, item.Rejects c

/-- Such a character is to a match like the end of the text. -/
theorem matchAt_append_cons {c : α} (hc : Foreign isWord items c) (last : Option α)
    (s t : List α) : matchAt isWord last items (s ++ c :: t) = matchAt isWord last items s := by
  obtain ⟨hword, hrejects⟩ := hc
  induction items generalizing last s with
  | nil => rfl
  | cons item items ih =>
    obtain ⟨hitem, hitems⟩ := List.forall_mem_cons.1 hrejects
    cases item with
    | one p =>
      cases s with
      | nil =>
        have hp : p c = false := hitem
        simp only [List.nil_append, matchAt, hp, Bool.false_eq_true, if_false]
      | cons d s => rw [List.cons_append, matchAt, matchAt, ih _ _ hitems]
    | maybe p =>
      cases s with
      | nil =>
        have hp : p c = false := hitem
        simp only [List.nil_append, matchAt, hp, Bool.false_eq_true, if_false]
        exact ih last [] hitems
      | cons d s =>
        rw [List.cons_append, matchAt, matchAt, ih _ _ hitems, ← List.cons_append, ih _ _ hitems]
    | wordBoundary =>
      have hnext : atBoundary isWord last (s ++ c :: t).head? = atBoundary isWord last s.head? := by
        cases s with
        | nil => simp [atBoundary, hword]
        | cons d s => rfl
      rw [matchAt, matchAt, hnext, ih _ _ hitems]

/-- Of what stands in front only this counts: whether it is a word character. -/
theorem matchAt_congr {last' : Option α} (h : last.any isWord = last'.any isWord) (s : List α) :
    matchAt isWord last items s = matchAt isWord last' items s := by
  induction items generalizing s with
  | nil => rfl
  | cons item items ih =>
    cases item with
    | one p => cases s <;> rfl
    | maybe p =>
      cases s with
      | nil => exact ih []
      | cons c s => rw [matchAt, matchAt, ih]
    | wordBoundary => rw [matchAt, matchAt, ih, atBoundary, atBoundary, h]

theorem findIterFrom_congr {last' : Option α} (h : last.any isWord = last'.any isWord)
    (s : List α) : findIterFrom isWord items last 0 s = findIterFrom isWord items last' 0 s := by
  cases s with
  | nil => rfl
  | cons c s => rw [findIterFrom, findIterFrom, matchAt_congr h]

/-- A pattern with a character that must be there is not met at the end of a text. -/
theorem matchAt_nil {p : α → Bool} (h : .one p ∈ items) (last : Option α) :
    matchAt isWord last items [] = none := by
  induction items with
  | nil => cases h
  | cons item items ih =>
    cases item with
    | one q => rfl
    | maybe q => exact ih ((List.mem_cons.1 h).resolve_left nofun)
    | wordBoundary =>
      rw [matchAt, ih ((List.mem_cons.1 h).resolve_left nofun), ite_self]

/-- **The search in two texts that such a character divides** is the search in each. -/
theorem findIter_append_cons {p : α → Bool} (hone : .one p ∈ items) {c : α}
    (hc : Foreign isWord items c) (s t : List α) :
    findIter isWord items (s ++ c :: t) = findIter isWord items s ++ findIter isWord items t := by
  have hfrom : ∀ (last : Option α) (skip : Nat), skip ≤ s.length →
      findIterFrom isWord items last skip (s ++ c :: t) =
        findIterFrom isWord items last skip s ++ findIter isWord items t := by
    induction s with
    | nil =>
      intro last skip hskip
      obtain rfl := Nat.le_zero.1 hskip
      have hnone : matchAt isWord last items ([] ++ c :: t) = none :=
        (matchAt_append_cons hc last [] t).trans (matchAt_nil hone last)
      rw [List.nil_append] at hnone
      simp only [List.nil_append, findIterFrom, hnone]
      exact findIterFrom_congr (show (some c).any isWord = none.any isWord from hc.notWord) t
    | cons d s ih =>
      intro last skip hskip
      cases skip with
      | succ skip => exact ih (some d) skip (Nat.le_of_succ_le_succ hskip)
      | zero =>
        have hat := matchAt_append_cons hc last (d :: s) t
        rw [List.cons_append] at hat ⊢
        rw [findIterFrom, findIterFrom, hat]
        cases hm : matchAt isWord last items (d :: s) with
        | none => exact ih (some d) 0 (Nat.zero_le _)
        | some m =>
          obtain ⟨rest, hs, _⟩ := exists_matches_of_matchAt hm
          have hlen := congrArg List.length hs
          rw [List.length_append, List.length_cons] at hlen
          exact congrArg (m :: ·) (ih (some d) (m.length - 1) (by omega))
  exact hfrom none 0 (Nat.zero_le _)

end RegexScan
