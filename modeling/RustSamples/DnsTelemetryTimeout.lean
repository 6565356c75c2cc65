import RustSamples.Deadline
import RustSamples.DnsTelemetry

/-! # How long a record waits for a flush

The worker of `DnsTelemetry` with a clock.  It looks at the clock at the head of its loop, where the
timer fires three seconds after `last_flush`; what happens in a flush takes as long as it takes, and
`last_flush` is set when it is over, however it went.  A record is kept with the time at which it
came out of the channel.

So each record is in the batch of a flush that begins about three seconds after it came, or it has
not been there for as long.  That is said of attempts: a flush that fails at a `write` leaves its
records to the next one.
-/
namespace RustSamples.Telemetry
open Scheduling Deadline

variable {ρ : Type}

/-- `flush_interval`, in milliseconds. -/
def flushInterval : Nat := 3000

/-- The worker, the time of the last action, the deadline of `sleep_until`, and the flushes that
were begun with their batches.  `fresh` are the records that came since. -/
structure TimedWorker (ρ : Type) where
  worker : Worker (Nat × ρ)
  now : Nat
  deadline : Nat
  fresh : List (Nat × ρ)
  attempts : List (Nat × List (Nat × ρ))

/-- An action, with the time in the record. -/
def stamp (now : Nat) : WorkerAction ρ → WorkerAction (Nat × ρ)
  | .recv record => .recv (now, record)
  | .timer => .timer
  | .create ok => .create ok
  | .write ok => .write ok
  | .finish result => .finish result

/-- The records of an action. -/
def came : WorkerAction ρ → List ρ
  | .recv record => [record]
  | _ => []

namespace TimedWorker

def start (ρ : Type) (now : Nat) : TimedWorker ρ := ⟨.start, now, now + flushInterval, [], []⟩

/-- What the loop head knows of time. -/
def clock (w : TimedWorker ρ) : Clock := ⟨w.now, w.deadline, w.fresh.map (·.1)⟩

/-- The branches of `select!` are taken promptly, and the timer not before its deadline. -/
def MayAct (w : TimedWorker ρ) (latency now : Nat) (a : WorkerAction (Nat × ρ)) : Prop :=
  if w.worker.phase = .selecting then
    w.clock.Prompt latency now ∧ match a with
      | .timer => w.deadline ≤ now
      | _ => True
  else w.now ≤ now

instance (w : TimedWorker ρ) (latency now : Nat) (a : WorkerAction (Nat × ρ)) :
    Decidable (w.MayAct latency now a) := by
  unfold MayAct
  split
  · cases a <;> infer_instance
  · infer_instance

/-- What an action leaves behind, if it makes `worker` of the worker: a flush that begins is noted,
and back at the loop head `last_flush` is new, except behind a record. -/
def next (w : TimedWorker ρ) (now : Nat) (a : WorkerAction (Nat × ρ))
    (worker : Worker (Nat × ρ)) : TimedWorker ρ where
  worker := worker
  now := now
  deadline := if worker.phase = .selecting ∧ came a = [] then now + flushInterval else w.deadline
  fresh := if worker.phase = .flushing then [] else w.fresh ++ came a
  attempts := w.attempts ++ if worker.phase = .flushing then [(now, worker.batch)] else []

def step (latency : Nat) (w : TimedWorker ρ) (a : Nat × WorkerAction ρ) :
    Option (TimedWorker ρ) :=
  if w.MayAct latency a.1 (stamp a.1 a.2) then
    (w.worker.step (stamp a.1 a.2)).map (w.next a.1 (stamp a.1 a.2))
  else none

end TimedWorker

def timedWorker (ρ : Type) (latency : Nat) : Machine (TimedWorker ρ) (Nat × WorkerAction ρ) :=
  ⟨TimedWorker.step latency⟩

/-- What holds at every action: at its head the loop is on time, what came since the last flush is
at the end of the batch, and every other record was in a flush that began in time. -/
structure InTime (latency : Nat) (w : TimedWorker ρ) : Prop where
  onTime : w.worker.phase = .selecting → w.clock.OnTime flushInterval latency
  small : w.fresh.length < 1000
  idle : w.worker.phase ≠ .selecting → w.fresh = []
  suffix : w.worker.phase = .selecting → w.fresh <:+ w.worker.batch
  attempted : ∀ x ∈ w.worker.received, x ∈ w.fresh ∨ ∃ b ∈ w.attempts, x ∈ b.2 ∧
    x.1 ≤ b.1 ∧ b.1 ≤ x.1 + flushInterval + 1000 * latency

variable {latency : Nat}

theorem inTime_start (now : Nat) : InTime latency (.start ρ now) where
  onTime _ := Clock.onTime_restart flushInterval latency now
  small := Nat.zero_lt_succ 999
  idle _ := rfl
  suffix _ := List.suffix_rfl
  attempted _ hx := by cases hx

/-- A flush that begins has the records that came since the last one. -/
theorem InTime.begin {w : TimedWorker ρ} (h : InTime latency w)
    (hp : w.worker.phase = .selecting) {now : Nat} (hprompt : w.clock.Prompt latency now)
    {a : WorkerAction (Nat × ρ)} {worker : Worker (Nat × ρ)} (hphase : worker.phase = .flushing)
    (new : List (Nat × ρ)) (hnew : ∀ x ∈ new, x.1 = now)
    (hbatch : worker.batch = w.worker.batch ++ new)
    (hreceived : worker.received = w.worker.received ++ new) :
    InTime latency (w.next now a worker) where
  onTime hsel := by
    change worker.phase = .selecting at hsel
    rw [hphase] at hsel
    cases hsel
  small := by simp [TimedWorker.next, hphase]
  idle _ := by simp [TimedWorker.next, hphase]
  suffix hsel := by
    change worker.phase = .selecting at hsel
    rw [hphase] at hsel
    cases hsel
  attempted x hx := by
    refine Or.inr ?_
    simp only [TimedWorker.next, hphase, if_true]
    change x ∈ worker.received at hx
    rw [hreceived, List.mem_append] at hx
    rcases hx with hx | hx
    · rcases h.attempted x hx with hfresh | ⟨b, hb, hmem, hin⟩
      · refine ⟨(now, worker.batch), List.mem_append_right _ (List.mem_singleton_self _), ?_, ?_⟩
        · change x ∈ worker.batch
          rw [hbatch]
          exact List.mem_append_left _ ((h.suffix hp).subset hfresh)
        · have hsmall : w.clock.arrivals.length < 1000 := by
            simpa [TimedWorker.clock] using h.small
          exact (h.onTime hp).handed_over hprompt hsmall (List.mem_map_of_mem hfresh)
      · exact ⟨b, List.mem_append_left _ hb, hmem, hin⟩
    · refine ⟨(now, worker.batch), List.mem_append_right _ (List.mem_singleton_self _), ?_, ?_⟩
      · change x ∈ worker.batch
        rw [hbatch]
        exact List.mem_append_right _ hx
      · rw [hnew x hx]
        exact ⟨Nat.le_refl _, Nat.le_trans (Nat.le_add_right _ _) (Nat.le_add_right _ _)⟩

/-- A record that fills no batch waits. -/
theorem InTime.collect {w : TimedWorker ρ} (h : InTime latency w)
    (hp : w.worker.phase = .selecting) {now : Nat} (hprompt : w.clock.Prompt latency now)
    {r : Nat × ρ} (hr : r.1 = now) (hroom : w.worker.batch.length + 1 < 1000) :
    InTime latency (w.next now (.recv r) (w.worker.onRecord r)) := by
  have hphase : (w.worker.onRecord r).phase = .selecting := if_neg (Nat.not_le.2 hroom)
  have hfresh : (w.next now (.recv r) (w.worker.onRecord r)).fresh = w.fresh ++ [r] := by
    simp [TimedWorker.next, hphase, came]
  refine ⟨fun _ => ?_, ?_, fun hne => absurd hphase hne, fun _ => ?_, fun x hx => ?_⟩
  · have hclock := (h.onTime hp).collect hprompt
    simpa [TimedWorker.clock, TimedWorker.next, hphase, came, Clock.collect, hr] using hclock
  · have hle := (h.suffix hp).length_le
    rw [hfresh, List.length_append, List.length_singleton]
    omega
  · obtain ⟨old, hold⟩ := h.suffix hp
    refine ⟨old, ?_⟩
    rw [hfresh, ← List.append_assoc, hold]
    rfl
  · have hattempts : (w.next now (.recv r) (w.worker.onRecord r)).attempts = w.attempts := by
      simp [TimedWorker.next, hphase]
    rw [hfresh, hattempts]
    rcases List.mem_append.1 hx with hx | hx
    · exact (h.attempted x hx).imp_left (List.mem_append_left _)
    · exact Or.inl (List.mem_append_right _ hx)

/-- Without a record, and with no flush that begins: nothing has come, and at the loop head the
timer is set again. -/
theorem InTime.quiet {w : TimedWorker ρ} (h : InTime latency w) (hfresh : w.fresh = []) {now : Nat}
    {a : WorkerAction (Nat × ρ)} (ha : came a = []) {worker : Worker (Nat × ρ)}
    (hphase : worker.phase ≠ .flushing) (hreceived : worker.received = w.worker.received) :
    InTime latency (w.next now a worker) where
  onTime hsel := by
    change worker.phase = .selecting at hsel
    have hclock := Clock.onTime_restart flushInterval latency now
    simpa [TimedWorker.clock, TimedWorker.next, hsel, ha, hfresh, Clock.restart] using hclock
  small := by simp [TimedWorker.next, hphase, hfresh, ha]
  idle _ := by simp [TimedWorker.next, hphase, hfresh, ha]
  suffix _ := by simp [TimedWorker.next, hphase, hfresh, ha]
  attempted x hx := by
    change x ∈ worker.received at hx
    rw [hreceived] at hx
    simp only [TimedWorker.next, if_neg hphase, List.append_nil, hfresh, ha]
    simpa only [hfresh] using h.attempted x hx

theorem inTime_step {w w' : TimedWorker ρ} {a : Nat × WorkerAction ρ} (h : InTime latency w)
    (hstep : (timedWorker ρ latency).step w a = some w') : InTime latency w' := by
  obtain ⟨now, a⟩ := a
  simp only [timedWorker, TimedWorker.step] at hstep
  split at hstep
  · rename_i hmay
    obtain ⟨worker, hworker, rfl⟩ := Option.map_eq_some_iff.1 hstep
    generalize hb : stamp now a = b at hmay hworker ⊢
    cases worker_step hworker with
    | recv hp r =>
      have hr : r.1 = now := by
        cases a with
        | recv record => exact WorkerAction.recv.inj hb ▸ rfl
        | _ => cases hb
      unfold TimedWorker.MayAct at hmay
      rw [if_pos hp] at hmay
      by_cases hfull : 1000 ≤ w.worker.batch.length + 1
      · exact h.begin hp hmay.1 (if_pos hfull) [r] (by simpa using hr) rfl rfl
      · exact h.collect hp hmay.1 hr (Nat.not_le.1 hfull)
    | timer hp =>
      unfold TimedWorker.MayAct at hmay
      rw [if_pos hp] at hmay
      by_cases hempty : w.worker.batch.isEmpty
      · have hfresh : w.fresh = [] :=
          List.suffix_nil.1 (List.isEmpty_iff.1 hempty ▸ h.suffix hp)
        exact h.quiet hfresh rfl (by simp [hempty]) rfl
      · exact h.begin hp hmay.1 (by simp [hempty]) [] (by simp) (by simp) (by simp)
    | created hp => exact h.quiet (h.idle (by simp [hp])) rfl (by simp) rfl
    | notCreated hp => exact h.quiet (h.idle (by simp [hp])) rfl (by simp) rfl
    | write hp hlt ok =>
      refine h.quiet (h.idle (by simp [hp])) rfl ?_ rfl
      cases ok <;> simp [Worker.onWrite]
    | finish hw result =>
      have hphase : w.worker.phase = .writing w.worker.batch.length := hw
      exact h.quiet (h.idle (by simp [hphase])) rfl (by simp [Worker.onEnd]) rfl
  · cases hstep

/-- **No record waits for long.**  If the loop is late by at most `latency` at its head, every
record that came out of the channel was in the batch of a flush that began within three seconds and
a thousand turns, or the worker stands at its head, has it in the batch, and has not had it for
longer. -/
theorem attempts_in_time {t₀ : Nat} {schedule : List (Nat × WorkerAction ρ)} {w : TimedWorker ρ}
    (h : (timedWorker ρ latency).run (.start ρ t₀) schedule = some w) :
    ∀ x ∈ w.worker.received,
      (∃ b ∈ w.attempts, x ∈ b.2 ∧ x.1 ≤ b.1 ∧ b.1 ≤ x.1 + flushInterval + 1000 * latency) ∨
      w.worker.phase = .selecting ∧ x ∈ w.worker.batch ∧
        w.now ≤ x.1 + flushInterval + 1000 * latency := by
  have hin := (timedWorker ρ latency).run_invariant (I := InTime latency)
    (fun _ _ _ hw hs => inTime_step hw hs) (inTime_start t₀) h
  intro x hx
  rcases hin.attempted x hx with hfresh | hattempt
  · have hp : w.worker.phase = .selecting := by
      by_contra hne
      rw [hin.idle hne] at hfresh
      cases hfresh
    refine Or.inr ⟨hp, (hin.suffix hp).subset hfresh, (hin.onTime hp).waits ?_
      (List.mem_map_of_mem hfresh)⟩
    simpa [TimedWorker.clock] using hin.small.le
  · exact Or.inl hattempt

/-- The second record comes when the timer is due, and before it fires; the flush has both records
and fails at its first `write`. -/
theorem failed_flush_in_time : ∃ w : TimedWorker Char,
    (timedWorker Char 10).run (.start Char 0) [(100, .recv 'a'), (3004, .recv 'b'), (3010, .timer),
      (3500, .create true), (9000, .write false), (9001, .recv 'c')] = some w ∧
    w.attempts = [(3010, [(100, 'a'), (3004, 'b')])] ∧
    ∀ x ∈ w.worker.received,
      (∃ b ∈ w.attempts, x ∈ b.2 ∧ x.1 ≤ b.1 ∧ b.1 ≤ x.1 + flushInterval + 1000 * 10) ∨
      w.worker.phase = .selecting ∧ x ∈ w.worker.batch ∧
        w.now ≤ x.1 + flushInterval + 1000 * 10 := by
  refine ⟨_, rfl, rfl, ?_⟩
  exact attempts_in_time (rfl : (timedWorker Char 10).run (.start Char 0) [(100, .recv 'a'),
    (3004, .recv 'b'), (3010, .timer), (3500, .create true), (9000, .write false),
    (9001, .recv 'c')] = some _)

end RustSamples.Telemetry
