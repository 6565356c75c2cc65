import Mathlib.Data.List.Induction
import Mathlib.Logic.Function.Basic

/-! # What a sequence of writes leaves behind

A log grows at its end, a map keeps the last value written to a key.  Each is the last entry
with a property, `getLast?` of a filtered list, and each lemma says what one more entry does to
it.  `IsLast` says the same without a function that looks for it.
-/
namespace LastWrite
variable {ι α κ ν : Type}

/-- `a` stands in the list, has the property, and none behind it has. -/
def IsLast (p : α → Prop) (l : List α) (a : α) : Prop :=
  p a ∧ ∃ before after, l = before ++ a :: after ∧ ∀ b ∈ after, ¬ p b

theorem IsLast.mem {p : α → Prop} {l : List α} {a : α} (h : IsLast p l a) : a ∈ l := by
  obtain ⟨-, before, after, rfl, -⟩ := h
  exact List.mem_append_right _ List.mem_cons_self

theorem isLast_concat {p : α → Prop} {l : List α} {a b : α} :
    IsLast p (l ++ [b]) a ↔ p b ∧ a = b ∨ ¬ p b ∧ IsLast p l a := by
  constructor
  · rintro ⟨ha, before, after, heq, hafter⟩
    rcases List.eq_nil_or_concat after with rfl | ⟨after, c, rfl⟩
    · obtain ⟨-, hab⟩ := List.append_inj' heq rfl
      obtain rfl := (List.cons.inj hab).1
      exact Or.inl ⟨ha, rfl⟩
    · rw [List.concat_eq_append, ← List.cons_append, ← List.append_assoc] at heq
      obtain ⟨rfl, hbc⟩ := List.append_inj' heq rfl
      obtain rfl := (List.cons.inj hbc).1
      rw [List.concat_eq_append] at hafter
      exact Or.inr ⟨hafter b (List.mem_append_right _ List.mem_cons_self), ha, before, after, rfl,
        fun c hc => hafter c (List.mem_append_left _ hc)⟩
  · rintro (⟨hb, rfl⟩ | ⟨hb, ha, before, after, rfl, hafter⟩)
    · exact ⟨hb, l, [], rfl, List.forall_mem_nil _⟩
    · refine ⟨ha, before, after ++ [b], by rw [List.append_assoc, List.cons_append], ?_⟩
      intro c hc
      rcases List.mem_append.1 hc with hc | hc
      · exact hafter c hc
      · rw [List.mem_singleton.1 hc]
        exact hb

/-- One more entry, if there is one: it is the last with the property, or nothing changes. -/
theorem getLast?_filter_append_toList (p : α → Bool) (l : List α) (x : Option α) :
    ((l ++ x.toList).filter p).getLast? = (x.filter p).or (l.filter p).getLast? := by
  cases x with
  | none => simp
  | some a =>
    by_cases hp : p a
    · simp [hp, Option.filter]
    · simp [hp, Option.filter]

theorem getLast?_filterMap_concat (f : ι → Option α) (l : List ι) (i : ι) :
    ((l ++ [i]).filterMap f).getLast? = (f i).or (l.filterMap f).getLast? := by
  cases h : f i with
  | none => simp [h]
  | some a => simp [h]

/-- The last find of a partial function is what it finds in the last entry where it finds
something. -/
theorem getLast?_filterMap_eq_some_iff {f : ι → Option α} {p : ι → Prop}
    (hp : ∀ i, p i ↔ (f i).isSome) {l : List ι} {a : α} :
    (l.filterMap f).getLast? = some a ↔ ∃ i, IsLast p l i ∧ f i = some a := by
  induction l using List.reverseRecOn with
  | nil =>
    refine iff_of_false (by simp) ?_
    rintro ⟨i, h, -⟩
    exact List.not_mem_nil h.mem
  | append_singleton l b ih =>
    rw [getLast?_filterMap_concat]
    simp only [isLast_concat, hp b]
    cases h : f b with
    | none => simpa [h] using ih
    | some c => simp [h]

theorem getLast?_filter_eq_some_iff {p : α → Prop} [DecidablePred p] {l : List α} {a : α} :
    (l.filter fun b => p b).getLast? = some a ↔ IsLast p l a := by
  induction l using List.reverseRecOn with
  | nil => exact iff_of_false (by simp) fun h => List.not_mem_nil h.mem
  | append_singleton l b ih =>
    rw [isLast_concat, ← ih, List.filter_append]
    by_cases hb : p b
    · simp [hb, eq_comm]
    · simp [hb]

/-- Writing entry after entry into a map: the last one for a key stands. -/
theorem foldl_update_apply [DecidableEq κ] (key : ι → κ) (value : ι → ν)
    (entries : List ι) (m : κ → ν) (k : κ) :
    entries.foldl (fun m i => Function.update m (key i) (value i)) m k =
      ((entries.filter fun i => key i = k).getLast?.map value).getD (m k) := by
  induction entries using List.reverseRecOn with
  | nil => rfl
  | append_singleton entries i ih =>
    rw [List.foldl_append, List.foldl_cons, List.foldl_nil, List.filter_append]
    by_cases hk : key i = k
    · subst hk
      simp
    · rw [Function.update_of_ne (Ne.symm hk), ih]
      simp [hk]

end LastWrite
