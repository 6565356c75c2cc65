import Mathlib.Data.Finset.Card
import Mathlib.Data.List.Pairwise
import Mathlib.Order.Bounds.Defs

/-! # The greedy choice among intervals of one length

Intervals of `n` places begin at the points of a set `P`.  The greedy choice takes the first one,
then the first one that begins behind its end, and so on.

The intervals it takes do not overlap, and every other interval overlaps one of them: it begins
between the end of one choice and the next only if it is that next choice.  No set of intervals
that do not overlap is larger.  This is an exchange: the first of them begins no earlier than the
first choice, and no other of them begins before the first choice ends (`Greedy.card_le`).
-/
namespace GreedyIntervals
variable {P : Nat → Prop} {n : Nat}

/-- `ps` is the greedy choice from `pos` on. -/
inductive Greedy (P : Nat → Prop) (n : Nat) : Nat → List Nat → Prop
  | nil {pos : Nat} (none : ∀ o, pos ≤ o → ¬ P o) : Greedy P n pos []
  | cons {pos p : Nat} {ps : List Nat} (le : pos ≤ p) (mem : P p)
      (first : ∀ o, pos ≤ o → o < p → ¬ P o) (later : Greedy P n (p + n) ps) :
      Greedy P n pos (p :: ps)

/-- The intervals that begin at `a` and at `b` have no place in common. -/
def Apart (n a b : Nat) : Prop := a + n ≤ b ∨ b + n ≤ a

instance (n : Nat) : Std.Symm (Apart n) := ⟨fun _ _ h => h.symm⟩

/-- They have one. -/
def Overlap (n a b : Nat) : Prop := a < b + n ∧ b < a + n

/-- Intervals of the set, no two of which overlap. -/
structure Packing (P : Nat → Prop) (n : Nat) (S : Finset Nat) : Prop where
  mem : ∀ o ∈ S, P o
  apart : ∀ a ∈ S, ∀ b ∈ S, a ≠ b → Apart n a b

namespace Greedy

theorem le_of_mem {pos : Nat} {ps : List Nat} (h : Greedy P n pos ps) : ∀ p ∈ ps, pos ≤ p := by
  induction h with
  | nil => simp
  | cons le _ _ _ ih =>
    rw [List.forall_mem_cons]
    exact ⟨le, fun q hq => by have := ih q hq; omega⟩

theorem mem_of_mem {pos : Nat} {ps : List Nat} (h : Greedy P n pos ps) : ∀ p ∈ ps, P p := by
  induction h with
  | nil => simp
  | cons _ mem _ _ ih => exact List.forall_mem_cons.2 ⟨mem, ih⟩

/-- Each choice ends before the next begins. -/
theorem pairwise {pos : Nat} {ps : List Nat} (h : Greedy P n pos ps) :
    ps.Pairwise fun a b => a + n ≤ b := by
  induction h with
  | nil => exact List.Pairwise.nil
  | cons _ _ _ later ih => exact List.pairwise_cons.2 ⟨later.le_of_mem, ih⟩

theorem nodup (hn : 0 < n) {pos : Nat} {ps : List Nat} (h : Greedy P n pos ps) : ps.Nodup :=
  h.pairwise.imp fun hab => by omega

/-- **Every interval overlaps a choice.** -/
theorem exists_overlap (hn : 0 < n) {pos o : Nat} {ps : List Nat} (h : Greedy P n pos ps)
    (hpos : pos ≤ o) (ho : P o) : ∃ p ∈ ps, Overlap n o p := by
  induction h with
  | nil none => exact absurd ho (none o hpos)
  | @cons pos p ps le mem first later ih =>
    have hp : p ≤ o := by
      by_contra hlt
      exact first o hpos (Nat.lt_of_not_le hlt) ho
    by_cases hend : p + n ≤ o
    · obtain ⟨q, hq, hoverlap⟩ := ih hend
      exact ⟨q, List.mem_cons_of_mem p hq, hoverlap⟩
    · exact ⟨p, List.mem_cons_self, by omega, by omega⟩

/-- **No packing is larger than the greedy choice.** -/
theorem card_le {pos : Nat} {ps : List Nat} (h : Greedy P n pos ps) {S : Finset Nat}
    (hS : Packing P n S) (hpos : ∀ o ∈ S, pos ≤ o) : S.card ≤ ps.length := by
  induction h generalizing S with
  | nil none =>
    rw [List.length_nil, Nat.le_zero, Finset.card_eq_zero]
    exact Finset.eq_empty_of_forall_notMem fun o ho => none o (hpos o ho) (hS.mem o ho)
  | @cons pos p ps le mem first later ih =>
    have hp : ∀ o ∈ S, p ≤ o := by
      intro o ho
      by_contra hlt
      exact first o (hpos o ho) (Nat.lt_of_not_le hlt) (hS.mem o ho)
    -- two intervals that begin before the first choice ends would overlap
    have hearly : (S.filter fun o => ¬ p + n ≤ o).card ≤ 1 := by
      rw [Finset.card_le_one]
      intro a ha b hb
      rw [Finset.mem_filter] at ha hb
      by_contra hne
      have hap := hp a ha.1
      have hbp := hp b hb.1
      rcases hS.apart a ha.1 b hb.1 hne with hab | hba
      · omega
      · omega
    have hlate : (S.filter fun o => p + n ≤ o).card ≤ ps.length := by
      refine ih ⟨fun o ho => ?_, fun a ha b hb => ?_⟩ fun o ho => (Finset.mem_filter.1 ho).2
      · exact hS.mem o (Finset.mem_filter.1 ho).1
      · exact hS.apart a (Finset.mem_filter.1 ha).1 b (Finset.mem_filter.1 hb).1
    have hsplit := S.card_filter_add_card_filter_not (fun o => p + n ≤ o)
    rw [List.length_cons]
    omega

/-- The choice is a packing itself. -/
theorem packing {pos : Nat} {ps : List Nat} (h : Greedy P n pos ps) :
    Packing P n ps.toFinset where
  mem o ho := h.mem_of_mem o (List.mem_toFinset.1 ho)
  apart a ha b hb hne := by
    have hapart : ps.Pairwise (Apart n) := h.pairwise.imp Or.inl
    exact hapart.forall (List.mem_toFinset.1 ha) (List.mem_toFinset.1 hb) hne

/-- **The greedy choice has the size of the largest packing.** -/
theorem isGreatest_length (hn : 0 < n) {ps : List Nat} (h : Greedy P n 0 ps) :
    IsGreatest { k | ∃ S, Packing P n S ∧ S.card = k } ps.length := by
  refine ⟨⟨ps.toFinset, h.packing, List.toFinset_card_of_nodup (h.nodup hn)⟩, ?_⟩
  rintro k ⟨S, hS, rfl⟩
  exact h.card_le hS fun o _ => Nat.zero_le o

end Greedy
end GreedyIntervals
