import RustSamples.DnsTelemetry

/-! # How large the batch of `dns_telemetry` gets

The worker flushes at a thousand records.  A flush that ends clears the batch, and so does one for
which no insert can be created; a flush whose `write` fails returns before the `clear` and leaves
the batch as it was.

With fewer than a thousand records that does no harm: the batch fills up and is flushed again.  A
full batch however goes back to `select` full, and every record from then on is one too many.
`batch_bounded_iff` says that this is all that can go wrong, and `batch_unbounded` that there is no
limit once it does.
-/
namespace RustSamples.Telemetry
open Scheduling

variable {ρ : Type}

/-- Fewer than a thousand records where the worker waits in `select`, and no more than a thousand in
a flush. -/
structure Worker.Bounded (w : Worker ρ) : Prop where
  selecting : w.phase = .selecting → w.batch.length < 1000
  flush : w.batch.length ≤ 1000

/-- The bound holds in every state that a schedule leads to on its way. -/
def BoundedAlong (as : List (WorkerAction ρ)) : Prop :=
  ∀ pre u, pre <+: as → (worker ρ).run .start pre = some u → u.Bounded

/-- A `write` fails only in a flush of fewer than a thousand records. -/
def NoFullWriteFails (as : List (WorkerAction ρ)) : Prop :=
  ∀ pre u, pre ++ [.write false] <+: as → (worker ρ).run .start pre = some u →
    u.batch.length < 1000

theorem Worker.bounded_start : (Worker.start : Worker ρ).Bounded :=
  ⟨fun _ => Nat.zero_lt_succ _, Nat.zero_le _⟩

/-- An empty batch is within the bound. -/
theorem Worker.bounded_of_empty {w : Worker ρ} (h : w.batch = []) : w.Bounded := by
  constructor
  · intro _
    rw [h]
    exact Nat.zero_lt_succ _
  · rw [h]
    exact Nat.zero_le _

/-- The bound is kept where no `write` of a full batch fails. -/
theorem bounded_step {u v : Worker ρ} {a : WorkerAction ρ} (hu : u.Bounded)
    (h : u.step a = some v) (ha : a = .write false → u.batch.length < 1000) : v.Bounded := by
  cases worker_step h with
  | recv hp r =>
    have hroom := hu.selecting hp
    have hlength : (u.onRecord r).batch.length = u.batch.length + 1 := List.length_append
    constructor
    · intro hselecting
      rw [hlength]
      unfold Worker.onRecord at hselecting
      by_cases hfull : 1000 ≤ u.batch.length + 1
      · simp [hfull] at hselecting
      · exact Nat.not_le.mp hfull
    · rw [hlength]
      exact hroom
  | timer hp => exact ⟨fun _ => hu.selecting hp, hu.flush⟩
  | created hp => exact ⟨fun hselecting => (Phase.noConfusion hselecting), hu.flush⟩
  | notCreated hp => exact Worker.bounded_of_empty rfl
  | write hp hlt ok =>
    cases ok with
    | false => exact ⟨fun _ => ha rfl, hu.flush⟩
    | true => exact ⟨fun hselecting => (Phase.noConfusion hselecting), hu.flush⟩
  | finish hw result => exact Worker.bounded_of_empty rfl

/-- **The batch is bounded in a run if and only if** no `write` fails in a flush of a thousand
records. -/
theorem batch_bounded_iff {as : List (WorkerAction ρ)} {w : Worker ρ}
    (h : (worker ρ).run .start as = some w) : BoundedAlong as ↔ NoFullWriteFails as := by
  constructor
  · intro hbounded pre u hpre hu
    obtain ⟨v, rest, -, hv, -⟩ := (worker ρ).run_prefix_split hpre h
    obtain ⟨t, ht, hstep⟩ := (worker ρ).run_concat.mp hv
    obtain rfl : u = t := Option.some.inj (hu.symm.trans ht)
    have hv' := hbounded _ _ hpre hv
    replace hstep : u.step (.write false) = some v := hstep
    cases worker_step hstep with
    | write hp hlt ok => exact hv'.selecting rfl
  · intro hwrites pre u hpre hu
    refine (worker ρ).run_induction (I := fun done u => done <+: as → u.Bounded)
      (fun _ => Worker.bounded_start) (fun done t a v ht ih hstep hdone => ?_) hu hpre
    refine bounded_step (ih ((List.prefix_append done [a]).trans hdone)) hstep fun ha => ?_
    exact hwrites done t (ha ▸ hdone) ht

/-- A batch is no longer than the schedule. -/
theorem length_batch_le {as : List (WorkerAction ρ)} {w : Worker ρ}
    (h : (worker ρ).run .start as = some w) : w.batch.length ≤ as.length := by
  have hreceived := (committed_append_batch_sublist h).length_le
  rw [received_eq_recordsOf h, List.length_append] at hreceived
  have hrecords : (recordsOf as).length ≤ as.length := List.length_filterMap_le ..
  omega

/-- In the run whose second flush repeats the first, the failed `write` does no harm. -/
theorem retriedFlush_bounded : BoundedAlong retriedFlush := by
  have hrun : (worker Nat).run .start retriedFlush =
      some ⟨[], .selecting, [0, 1, 2], [0, 1]⟩ := by decide
  refine (batch_bounded_iff hrun).2 fun pre u hpre hu => ?_
  have hlength := hpre.length_le
  have hbatch := length_batch_le hu
  rw [List.length_append, List.length_singleton] at hlength
  have hall : retriedFlush.length < 1000 := by decide
  omega

/-! ### A batch that grows -/

/-- `n` records arrive. -/
def arriving (n : Nat) (r : ρ) : List (WorkerAction ρ) := List.replicate n (.recv r)

/-- A record arrives, the batch is flushed, and its first `write` fails. -/
def refused (r : ρ) : List (WorkerAction ρ) := [.recv r, .create true, .write false]

theorem run_arriving (r : ρ) {n : Nat} (h : n < 1000) :
    (worker ρ).run .start (arriving n r) =
      some ⟨List.replicate n r, .selecting, List.replicate n r, []⟩ := by
  induction n with
  | zero => rfl
  | succ n ih =>
    have hroom : ¬ 1000 ≤ (List.replicate n r).length + 1 := by
      rw [List.length_replicate]
      omega
    rw [arriving, List.replicate_succ', (worker ρ).run_concat]
    refine ⟨_, ih (Nat.lt_of_succ_lt h), ?_⟩
    simp only [worker, Worker.step, if_true, Worker.onRecord, if_neg hroom, List.replicate_succ']

/-- From a full batch on, every record stays. -/
theorem run_refused {w : Worker ρ} (hp : w.phase = .selecting) (hfull : 999 ≤ w.batch.length)
    (r : ρ) : (worker ρ).run w (refused r) =
      some { w with batch := w.batch ++ [r], received := w.received ++ [r] } := by
  have hflush : w.onRecord r = { w with
      batch := w.batch ++ [r], phase := .flushing, received := w.received ++ [r] } := by
    rw [Worker.onRecord, if_pos (Nat.succ_le_succ hfull)]
  have hroom : 0 < (w.batch ++ [r]).length := by simp
  obtain ⟨batch, phase, received, committed⟩ := w
  obtain rfl : phase = .selecting := hp
  simp only [refused, Machine.run, worker, hflush, Option.bind_some, Worker.step, if_true,
    Worker.written?, if_pos hroom, Worker.onWrite, Bool.false_eq_true, if_false]

/-- **There is no limit.**  For every number there is a run that waits in `select` with so many
records in the batch. -/
theorem batch_unbounded (r : ρ) (n : Nat) :
    ∃ w, (worker ρ).run .start (arriving 999 r ++ (List.replicate n (refused r)).flatten) = some w ∧
      w.phase = .selecting ∧ w.batch.length = 999 + n := by
  induction n with
  | zero =>
    refine ⟨⟨List.replicate 999 r, .selecting, List.replicate 999 r, []⟩, ?_, rfl,
      List.length_replicate⟩
    rw [List.replicate_zero, List.flatten_nil, List.append_nil]
    exact run_arriving r (by decide)
  | succ n ih =>
    obtain ⟨w, hw, hp, hlength⟩ := ih
    refine ⟨{ w with batch := w.batch ++ [r], received := w.received ++ [r] }, ?_, hp, ?_⟩
    · rw [List.replicate_succ', List.flatten_concat, ← List.append_assoc, (worker ρ).run_append, hw,
        Option.bind_some]
      exact run_refused hp (by omega) r
    · rw [List.length_append, hlength]
      rfl

/-- A thousand records, and the first `write` of their flush fails: the worker waits with a full
batch, and the next flush has one record more. -/
theorem full_batch_waits :
    ¬ BoundedAlong (arriving 999 0 ++ refused 0) ∧
      ∃ u v, (worker Nat).run .start (arriving 999 0 ++ refused 0) = some u ∧
        u.phase = .selecting ∧ u.batch.length = 1000 ∧
        (worker Nat).step u (.recv 0) = some v ∧ v.phase = .flushing ∧ v.batch.length = 1001 := by
  obtain ⟨u, hu, hp, hlength⟩ := batch_unbounded 0 1
  rw [List.replicate_one, List.flatten_singleton] at hu
  refine ⟨fun hbounded => ?_, u, u.onRecord 0, hu, hp, hlength, if_pos hp, ?_, ?_⟩
  · have hselecting := (hbounded _ u (List.prefix_refl _) hu).selecting hp
    omega
  · exact if_pos (by omega)
  · rw [Worker.onRecord, List.length_append, hlength]
    rfl

end RustSamples.Telemetry
