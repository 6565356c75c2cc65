import Mathlib.Data.List.OfFn
import Mathlib.Data.Nat.ModEq
import Mathlib.Logic.Function.Basic

/-! # Pieces of a ring

A ring has `size` cells.  Positions only grow, and the cell of a position is its remainder modulo
the size; a piece from some position on may so go over the end of the cells.

Pieces that lie apart in one window of `size` positions have no cell in common (`apart_of_window`).
So what is written in one is read there, and does not change the others (`read_write`,
`read_write_of_apart`).
-/
namespace RingBuffer
variable {α : Type} (size : Nat)

/-- The cells after the values have been written from `pos` on. -/
def write (cells : Nat → α) (pos : Nat) : List α → Nat → α
  | [] => cells
  | a :: as => write (Function.update cells (pos % size) a) (pos + 1) as

/-- The `n` values from `pos` on. -/
def read (cells : Nat → α) (pos n : Nat) : List α :=
  List.ofFn fun i : Fin n => cells ((pos + i) % size)

/-- `n` positions from `pos` on and `n'` from `pos'` on have no cell in common. -/
def Apart (pos n pos' n' : Nat) : Prop :=
  ∀ i < n, ∀ j < n', (pos + i) % size ≠ (pos' + j) % size

variable {size} {cells : Nat → α} {pos n pos' n' : Nat} {as : List α}

@[simp]
theorem length_read : (read size cells pos n).length = n := List.length_ofFn

/-- Two positions that are less than the size apart have different cells. -/
theorem mod_ne_of_lt {p q : Nat} (h : p < q) (hq : q < p + size) : p % size ≠ q % size := by
  intro heq
  have hdvd : size ∣ q - p := (Nat.modEq_iff_dvd' (Nat.le_of_lt h)).1 heq
  have hle := Nat.le_of_dvd (by omega) hdvd
  omega

theorem apart_of_window {start : Nat} (hpos : start ≤ pos) (hpos' : start ≤ pos')
    (hend : pos + n ≤ start + size) (hend' : pos' + n' ≤ start + size)
    (h : pos + n ≤ pos' ∨ pos' + n' ≤ pos) : Apart size pos n pos' n' := by
  intro i hi j hj
  obtain h | h := h
  · exact mod_ne_of_lt (by omega) (by omega)
  · exact (mod_ne_of_lt (by omega) (by omega)).symm

theorem Apart.symm (h : Apart size pos n pos' n') : Apart size pos' n' pos n :=
  fun j hj i hi => (h i hi j hj).symm

theorem write_of_ne {cell : Nat} (h : ∀ i < as.length, (pos + i) % size ≠ cell) :
    write size cells pos as cell = cells cell := by
  induction as generalizing cells pos with
  | nil => rfl
  | cons a as ih =>
    have hhead : pos % size ≠ cell := h 0 (Nat.succ_pos _)
    rw [write, ih, Function.update_of_ne hhead.symm]
    intro i hi
    rw [Nat.add_right_comm]
    exact h (i + 1) (Nat.succ_lt_succ hi)

theorem write_append (as bs : List α) : write size cells pos (as ++ bs) =
    write size (write size cells pos as) (pos + as.length) bs := by
  induction as generalizing cells pos with
  | nil => rfl
  | cons a as ih =>
    rw [List.cons_append, write, ih, write, List.length_cons, Nat.add_right_comm, Nat.add_assoc]

theorem write_getElem (hsize : as.length ≤ size) {i : Nat} (hi : i < as.length) :
    write size cells pos as ((pos + i) % size) = as[i] := by
  induction as generalizing cells pos i with
  | nil => cases hi
  | cons a as ih =>
    cases i with
    | zero =>
      have hlater : ∀ j < as.length, (pos + 1 + j) % size ≠ pos % size := fun j hj =>
        (mod_ne_of_lt (by omega) (by rw [List.length_cons] at hsize; omega)).symm
      exact (write_of_ne hlater).trans (Function.update_self ..)
    | succ i =>
      rw [write, ← Nat.add_assoc, Nat.add_right_comm,
        ih (Nat.le_of_succ_le hsize) (Nat.lt_of_succ_lt_succ hi)]
      rfl

/-- **What is written is read.** -/
theorem read_write (hsize : as.length ≤ size) :
    read size (write size cells pos as) pos as.length = as := by
  refine List.ext_getElem length_read fun i _ hi => ?_
  exact (List.getElem_ofFn _).trans (write_getElem hsize hi)

/-- **What is written elsewhere changes nothing.** -/
theorem read_write_of_apart (h : Apart size pos as.length pos' n) :
    read size (write size cells pos as) pos' n = read size cells pos' n := by
  refine congrArg List.ofFn (funext fun j => ?_)
  exact write_of_ne fun i hi => h i hi j j.isLt

end RingBuffer
