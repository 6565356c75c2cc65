import RustSamples.Machine

/-! # The batch worker of `dns_telemetry`

The worker collects records in a batch and writes the batch to ClickHouse when it holds a
thousand of them or when the timer fires.  A flush is cut at its awaits: the insert is
created, the records are written one by one, and `end` commits them.  Each of these can
fail.  After a failed `write` the batch is kept and the insert is dropped; after a failed
creation, and after `end` however it went, the batch is cleared.

An insert that is never ended commits nothing; one whose `end` failed commits nothing or
everything.  So what is committed and what the batch still holds is at every moment a
subsequence of what was received (`committed_append_batch_sublist`): the batch is cleared
together with every commit, and only a flush that committed nothing keeps it.
-/
namespace RustSamples.Telemetry
open Scheduling

/-- Where the worker stands. -/
inductive Phase
  | selecting
  /-- in `flush_to_clickhouse`, before `client.insert` -/
  | flushing
  /-- the insert is open and has taken so many records -/
  | writing (written : Nat)
  deriving DecidableEq

/-- How `end` ends: an error leaves open whether ClickHouse has the records. -/
inductive EndResult
  | ok
  | failed (committed : Bool)
  deriving DecidableEq

def EndResult.commits : EndResult → Bool
  | .ok => true
  | .failed committed => committed

/-- The worker.  `received` and `committed` are what came in and what ClickHouse has. -/
structure Worker (ρ : Type) where
  batch : List ρ
  phase : Phase
  received : List ρ
  committed : List ρ
  deriving DecidableEq

inductive WorkerAction (ρ : Type)
  | recv (record : ρ)
  | timer
  | create (ok : Bool)
  | write (ok : Bool)
  | finish (result : EndResult)
  deriving DecidableEq

namespace Worker
variable {ρ : Type}

def start : Worker ρ := ⟨[], .selecting, [], []⟩

/-- The insert is complete: the loop over the batch is through. -/
def Written (w : Worker ρ) : Prop := w.phase = .writing w.batch.length

instance (w : Worker ρ) : Decidable w.Written := inferInstanceAs (Decidable (_ = _))

/-- `Some(record) = rx_log.recv()`. -/
def onRecord (w : Worker ρ) (record : ρ) : Worker ρ :=
  { w with
    batch := w.batch ++ [record]
    phase := if 1000 ≤ w.batch.length + 1 then .flushing else .selecting
    received := w.received ++ [record] }

/-- `inserter.write` of the next record of the batch. -/
def onWrite (w : Worker ρ) (ok : Bool) (written : Nat) : Worker ρ :=
  { w with phase := if ok then .writing (written + 1) else .selecting }

/-- `inserter.end`, and the `clear` behind it. -/
def onEnd (w : Worker ρ) (result : EndResult) : Worker ρ :=
  { w with
    batch := []
    phase := .selecting
    committed := w.committed ++ if result.commits then w.batch else [] }

/-- The records that the open insert has taken. -/
def written? (w : Worker ρ) : Option Nat :=
  match w.phase with
  | .writing written => some written
  | _ => none

def step (w : Worker ρ) : WorkerAction ρ → Option (Worker ρ)
  | .recv record => if w.phase = .selecting then some (w.onRecord record) else none
  | .timer =>
      if w.phase = .selecting then
        some { w with phase := if w.batch.isEmpty then .selecting else .flushing }
      else none
  | .create ok =>
      if w.phase = .flushing then
        some (if ok then { w with phase := .writing 0 }
          else { w with batch := [], phase := .selecting })
      else none
  | .write ok => w.written?.bind fun written =>
      if written < w.batch.length then some (w.onWrite ok written) else none
  | .finish result => if w.Written then some (w.onEnd result) else none

end Worker

def worker (ρ : Type) : Machine (Worker ρ) (WorkerAction ρ) := ⟨Worker.step⟩

section Steps
variable {ρ : Type}

/-- What a step of the worker can do. -/
inductive Worker.Step (w : Worker ρ) : WorkerAction ρ → Worker ρ → Prop
  | recv (hp : w.phase = .selecting) (r : ρ) : Step w (.recv r) (w.onRecord r)
  | timer (hp : w.phase = .selecting) :
      Step w .timer { w with phase := if w.batch.isEmpty then .selecting else .flushing }
  | created (hp : w.phase = .flushing) : Step w (.create true) { w with phase := .writing 0 }
  | notCreated (hp : w.phase = .flushing) :
      Step w (.create false) { w with batch := [], phase := .selecting }
  | write {written : Nat} (hp : w.phase = .writing written) (hlt : written < w.batch.length)
      (ok : Bool) : Step w (.write ok) (w.onWrite ok written)
  | finish (hw : w.Written) (result : EndResult) : Step w (.finish result) (w.onEnd result)

theorem Worker.written?_eq_some {w : Worker ρ} {written : Nat} (h : w.written? = some written) :
    w.phase = .writing written := by
  unfold Worker.written? at h
  split at h
  · rename_i hp
    rw [hp, Option.some.inj h]
  · cases h

theorem worker_step {w w' : Worker ρ} {a : WorkerAction ρ} (h : w.step a = some w') :
    w.Step a w' := by
  cases a with
  | recv r =>
    by_cases hp : w.phase = .selecting
    · rw [Worker.step, if_pos hp] at h
      exact Option.some.inj h ▸ .recv hp r
    · rw [Worker.step, if_neg hp] at h
      cases h
  | timer =>
    by_cases hp : w.phase = .selecting
    · rw [Worker.step, if_pos hp] at h
      exact Option.some.inj h ▸ .timer hp
    · rw [Worker.step, if_neg hp] at h
      cases h
  | create ok =>
    by_cases hp : w.phase = .flushing
    · rw [Worker.step, if_pos hp] at h
      cases ok with
      | false => exact Option.some.inj h ▸ .notCreated hp
      | true => exact Option.some.inj h ▸ .created hp
    · rw [Worker.step, if_neg hp] at h
      cases h
  | write ok =>
    obtain ⟨written, hwritten, h⟩ := Option.bind_eq_some_iff.mp h
    by_cases hlt : written < w.batch.length
    · rw [if_pos hlt] at h
      exact Option.some.inj h ▸ .write (Worker.written?_eq_some hwritten) hlt ok
    · rw [if_neg hlt] at h
      cases h
  | finish result =>
    by_cases hw : w.Written
    · rw [Worker.step, if_pos hw] at h
      exact Option.some.inj h ▸ .finish hw result
    · rw [Worker.step, if_neg hw] at h
      cases h

/-- One step keeps committed records and batch a subsequence of what was received. -/
theorem committed_append_batch_step {w w' : Worker ρ} {a : WorkerAction ρ}
    (hw : (w.committed ++ w.batch).Sublist w.received) (h : w.step a = some w') :
    (w'.committed ++ w'.batch).Sublist w'.received := by
  cases worker_step h with
  | recv hp r =>
    change (w.committed ++ (w.batch ++ [r])).Sublist (w.received ++ [r])
    rw [← List.append_assoc]
    exact hw.append (List.Sublist.refl [r])
  | notCreated hp =>
    -- the batch is cleared and nothing is committed
    change (w.committed ++ []).Sublist w.received
    exact (List.Sublist.append_left (List.nil_sublist w.batch) w.committed).trans hw
  | finish hwritten result =>
    change ((w.committed ++ if result.commits then w.batch else []) ++ []).Sublist w.received
    rw [List.append_nil]
    split
    · exact hw
    · exact (List.Sublist.append_left (List.nil_sublist w.batch) w.committed).trans hw
  | timer | created | write => exact hw

theorem committed_append_batch_sublist {as : List (WorkerAction ρ)} {w : Worker ρ}
    (h : (worker ρ).run .start as = some w) : (w.committed ++ w.batch).Sublist w.received :=
  (worker ρ).run_invariant (I := fun w => (w.committed ++ w.batch).Sublist w.received)
    (fun _ _ _ hw ha => committed_append_batch_step hw ha) (List.Sublist.refl _) h

/-- The records a schedule hands to the worker. -/
def recordsOf (as : List (WorkerAction ρ)) : List ρ :=
  as.filterMap fun
    | .recv r => some r
    | _ => none

theorem received_eq_recordsOf {as : List (WorkerAction ρ)} {w : Worker ρ}
    (h : (worker ρ).run .start as = some w) : w.received = recordsOf as := by
  refine (worker ρ).run_induction (I := fun as w => w.received = recordsOf as) rfl
    (fun as w a w' _ ih ha => ?_) h
  rw [recordsOf, List.filterMap_append, ← recordsOf, ← ih]
  cases worker_step ha with
  | recv hp r => rfl
  | timer | created | notCreated | write | finish => exact (List.append_nil _).symm

/-- **At most once, in order.**  Whatever arrives, however the timer fires and wherever
ClickHouse fails: the committed records are a subsequence of the received ones.  The record
type is arbitrary, so records can carry their place in the received sequence: if received
records are numbered upwards, so are the committed ones, and none is committed twice. -/
theorem committed_at_most_once {as : List (WorkerAction ρ)} {w : Worker ρ}
    (h : (worker ρ).run .start as = some w) :
    w.committed.Sublist (recordsOf as) ∧
      ∀ number : ρ → Nat, (recordsOf as).Pairwise (fun r r' => number r < number r') →
        w.committed.Pairwise (fun r r' => number r < number r') ∧ w.committed.Nodup := by
  have hsub : w.committed.Sublist (recordsOf as) := by
    rw [← received_eq_recordsOf h]
    exact (List.sublist_append_left _ _).trans (committed_append_batch_sublist h)
  refine ⟨hsub, fun number hnumber => ?_⟩
  have hcommitted := hnumber.sublist hsub
  refine ⟨hcommitted, hcommitted.imp fun hlt heq => ?_⟩
  rw [heq] at hlt
  exact Nat.lt_irrefl _ hlt

end Steps

/-- Three records; a write fails in the first flush, the retry commits both, and the third
is lost to a failed creation. -/
def retriedFlush : List (WorkerAction Nat) :=
  [.recv 0, .recv 1, .timer, .create true, .write true, .write false, .timer, .create true,
    .write true, .write true, .finish .ok, .recv 2, .timer, .create false]

theorem retriedFlush_committed :
    ∃ w, (worker Nat).run .start retriedFlush = some w ∧ w.committed = [0, 1] ∧
      recordsOf retriedFlush = [0, 1, 2] ∧ w.committed.Nodup := by
  have hrun : (worker Nat).run .start retriedFlush =
      some ⟨[], .selecting, [0, 1, 2], [0, 1]⟩ := by decide
  exact ⟨_, hrun, rfl, rfl, ((committed_at_most_once hrun).2 id (by decide)).2⟩

end RustSamples.Telemetry
