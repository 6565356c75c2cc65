import Mathlib.Algebra.BigOperators.Group.List.Basic

/-! # Check sums

A check sum adds up what each symbol of a list is worth at its place.  Two lists that differ at
one place have the same sum exactly if the two symbols are worth the same there; two neighbours
can be exchanged exactly if their worth at both places, taken together, stays the same.  What the
other symbols are worth does not matter: it can be cancelled.
-/
namespace CheckSum
variable {α β M N : Type*}

section Monoid
variable [AddMonoid M]

/-- The sum over a list whose first symbol stands at place `i`. -/
def sumFrom (worth : Nat → α → M) : Nat → List α → M
  | _, [] => 0
  | i, d :: ds => worth i d + sumFrom worth (i + 1) ds

variable (worth : Nat → α → M) (i : Nat)

@[simp] theorem sumFrom_nil : sumFrom worth i [] = 0 := rfl

@[simp] theorem sumFrom_cons (d : α) (ds : List α) :
    sumFrom worth i (d :: ds) = worth i d + sumFrom worth (i + 1) ds := rfl

theorem sumFrom_append (ds es : List α) :
    sumFrom worth i (ds ++ es) = sumFrom worth i ds + sumFrom worth (i + ds.length) es := by
  induction ds generalizing i with
  | nil => simp
  | cons d ds ih =>
    have hplace : i + 1 + ds.length = i + (d :: ds).length := by rw [List.length_cons]; omega
    rw [List.cons_append, sumFrom_cons, ih, hplace, sumFrom_cons, add_assoc]

theorem sumFrom_map (f : β → α) (bs : List β) :
    sumFrom worth i (bs.map f) = sumFrom (fun j b => worth j (f b)) i bs := by
  induction bs generalizing i with
  | nil => rfl
  | cons b bs ih => rw [List.map_cons, sumFrom_cons, ih, sumFrom_cons]

/-- The sum as it is computed from the places. -/
theorem sum_map_zipIdx (ds : List α) :
    ((ds.zipIdx i).map fun p => worth p.2 p.1).sum = sumFrom worth i ds := by
  induction ds generalizing i with
  | nil => rfl
  | cons d ds ih => rw [List.zipIdx_cons, List.map_cons, List.sum_cons, ih, sumFrom_cons]

/-- A sum modulo a number is the sum of what the symbols are worth modulo it. -/
theorem map_sumFrom [AddMonoid N] (φ : M →+ N) (ds : List α) :
    φ (sumFrom worth i ds) = sumFrom (fun j d => φ (worth j d)) i ds := by
  induction ds generalizing i with
  | nil => exact map_zero φ
  | cons d ds ih => rw [sumFrom_cons, map_add, ih, sumFrom_cons]

end Monoid

section Cancel
variable [AddCancelMonoid M] {worth : Nat → α → M}

/-- **One symbol replaced.** -/
theorem sumFrom_replace_iff (i : Nat) (ds es : List α) (d e : α) :
    sumFrom worth i (ds ++ d :: es) = sumFrom worth i (ds ++ e :: es) ↔
      worth (i + ds.length) d = worth (i + ds.length) e := by
  simp only [sumFrom_append, sumFrom_cons, add_right_inj, add_left_inj]

/-- **Two neighbours exchanged.** -/
theorem sumFrom_exchange_iff (i : Nat) (ds es : List α) (d e : α) :
    sumFrom worth i (ds ++ d :: e :: es) = sumFrom worth i (ds ++ e :: d :: es) ↔
      worth (i + ds.length) d + worth (i + ds.length + 1) e =
        worth (i + ds.length) e + worth (i + ds.length + 1) d := by
  rw [sumFrom_append, sumFrom_append, add_right_inj]
  simp only [sumFrom_cons]
  rw [← add_assoc, ← add_assoc, add_left_inj]

end Cancel

/-- **A check symbol.**  Where the symbols of a set are worth everything, each once, exactly one
of them in front makes the sum zero. -/
theorem existsUnique_cons [AddGroup M] {worth : Nat → α → M} {symbol : α → Prop} {i : Nat}
    (h : ∀ t, ∃! d, symbol d ∧ worth i d = t) (ds : List α) :
    ∃! d, symbol d ∧ sumFrom worth i (d :: ds) = 0 := by
  simp only [sumFrom_cons, add_eq_zero_iff_eq_neg]
  exact h (-sumFrom worth (i + 1) ds)

end CheckSum
