import RustSamples.Machine

/-! # Handles

A handle is opened, used, and closed.  The *table* has the handles that are open; what is not in it
can neither be used nor closed, so a run of the table is a sequence of operations in which nothing
is used before it is opened or after it is closed.  What was opened is closed or still in the table
(`count_opened`).  So if no handle is opened twice and the table is empty at the end, every handle
is closed once, and not touched afterwards (`wellUsed_of_run`).
-/
namespace Handles
open Scheduling

/-- What is done with a handle. -/
inductive Op (η : Type)
  | opened (h : η)
  | used (h : η)
  | closed (h : η)
  deriving DecidableEq

variable {η : Type}

def Op.handle : Op η → η
  | .opened h => h
  | .used h => h
  | .closed h => h

variable [DecidableEq η]

/-- What an operation makes of the handles that are open. -/
def step (live : List η) : Op η → Option (List η)
  | .opened h => some (h :: live)
  | .used h => if h ∈ live then some live else none
  | .closed h => if h ∈ live then some (live.erase h) else none

/-- The handles that are open. -/
def table : Machine (List η) (Op η) := ⟨step⟩

theorem run_used {h : η} {live : List η} (hmem : h ∈ live) :
    table.run live [.used h] = some live :=
  (table.run_singleton live _).trans (if_pos hmem)

theorem run_closed (h : η) (live : List η) : table.run (h :: live) [.closed h] = some live := by
  refine (table.run_singleton _ _).trans ((if_pos List.mem_cons_self).trans ?_)
  rw [List.erase_cons_head]

/-- **Every handle is closed once**; it is opened before that and before it is used, and behind its
`closed` it does not appear. -/
structure WellUsed (ops : List (Op η)) : Prop where
  closed_once : ∀ h, .opened h ∈ ops → ops.count (.closed h) = 1
  opened_first : ∀ before op behind, ops = before ++ op :: behind →
    op = .opened op.handle ∨ .opened op.handle ∈ before
  untouched : ∀ before h behind, ops = before ++ .closed h :: behind →
    ∀ op ∈ behind, op.handle ≠ h

/-- What was opened is closed, or in the table. -/
theorem count_opened {ops : List (Op η)} {live : List η} (hrun : table.run [] ops = some live)
    (h : η) : ops.count (.opened h) = ops.count (.closed h) + live.count h := by
  refine table.run_induction (I := fun ops live =>
    ops.count (.opened h) = ops.count (.closed h) + live.count h) rfl ?_ hrun
  intro ops live op live' _ ih hstep
  rw [List.count_append, List.count_append, ih]
  cases op with
  | opened h' =>
    cases hstep
    by_cases heq : h' = h
    · subst heq
      simp [List.count_cons_self]
      omega
    · simp [heq]
  | used h' =>
    dsimp only [table, step] at hstep
    split at hstep
    · cases hstep
      simp
    · cases hstep
  | closed h' =>
    dsimp only [table, step] at hstep
    split at hstep
    · rename_i hmem
      cases hstep
      by_cases heq : h' = h
      · subst heq
        have hpos := List.count_pos_iff.2 hmem
        simp [List.count_erase_self]
        omega
      · simp [heq, List.count_erase_of_ne (Ne.symm heq)]
    · cases hstep

/-- What is used or closed is in the table. -/
theorem mem_of_step {live live' : List η} {op : Op η} (h : table.step live op = some live') :
    op = .opened op.handle ∨ op.handle ∈ live := by
  cases op with
  | opened h' => exact Or.inl rfl
  | used h' =>
    dsimp only [table, step] at h
    split at h
    · exact Or.inr ‹_›
    · cases h
  | closed h' =>
    dsimp only [table, step] at h
    split at h
    · exact Or.inr ‹_›
    · cases h

/-- The state in which an operation of a run is made. -/
theorem exists_state {before behind : List (Op η)} {op : Op η} {live : List η}
    (hrun : table.run [] (before ++ op :: behind) = some live) :
    ∃ live₀, table.run [] before = some live₀ ∧
      (op = .opened op.handle ∨ op.handle ∈ live₀) := by
  rw [Machine.run_append] at hrun
  obtain ⟨live₀, hbefore, hrest⟩ := Option.bind_eq_some_iff.1 hrun
  obtain ⟨live₁, hstep, _⟩ := Option.bind_eq_some_iff.1 hrest
  exact ⟨live₀, hbefore, mem_of_step hstep⟩

/-- **A run to the empty table, in which nothing is opened twice.** -/
theorem wellUsed_of_run {ops : List (Op η)} (hfresh : ∀ h, ops.count (.opened h) ≤ 1)
    (hrun : table.run [] ops = some []) : WellUsed ops where
  closed_once h hmem := by
    have hcount := count_opened hrun h
    have hpos := List.count_pos_iff.2 hmem
    have hle := hfresh h
    rw [List.count_nil, Nat.add_zero] at hcount
    omega
  opened_first before op behind hops := by
    subst hops
    obtain ⟨live, hbefore, hop⟩ := exists_state hrun
    refine hop.imp_right fun hmem => ?_
    have hcount := count_opened hbefore op.handle
    have hpos := List.count_pos_iff.2 hmem
    exact List.count_pos_iff.1 (by omega)
  untouched before h behind hops op hop heq := by
    subst hops heq
    obtain ⟨between, rest, rfl⟩ := List.append_of_mem hop
    rw [← List.cons_append, ← List.append_assoc] at hrun hfresh
    obtain ⟨live, hbefore, hopen⟩ := exists_state hrun
    -- one `opened`, for the `closed`: there is none left for `op`
    have hcount := count_opened hbefore op.handle
    have hclosed : 0 < (before ++ .closed op.handle :: between).count (.closed op.handle) :=
      List.count_pos_iff.2 (List.mem_append_right _ List.mem_cons_self)
    have hle := hfresh op.handle
    rw [List.count_append] at hle
    rcases hopen with hopened | hmem
    · have hagain : 0 < (op :: rest).count (.opened op.handle) :=
        List.count_pos_iff.2 (List.mem_cons.2 (Or.inl hopened.symm))
      omega
    · have hpos := List.count_pos_iff.2 hmem
      omega

end Handles
