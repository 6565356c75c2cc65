import RustSamples.Deadline
import RustSamples.SiemBatching

/-! # How long an event waits in `BatchManager::run`

The machine of `SiemBatching` with a clock: every turn of `select!` has its time, the timer fires
when the deadline is there, and it is set again where `run` resets it, with a batch that is full and
with every expiry.  An event is kept with the time at which it came out of the channel.

How promptly `run` is polled is an assumption on the runtime, and so a number: `latency`.  Under it
no event waits for longer than the timeout, and a turn more for each event of a batch.
-/
namespace RustSamples.Siem
open Scheduling Deadline

variable {Event : Type}

/-- `run` at its loop head: the time of the last turn, the deadline of `sleep`, and the batches with
the times at which they were handed over. -/
structure TimedManager (Event : Type) where
  manager : Manager (Nat × Event)
  now : Nat
  deadline : Nat
  handedAt : List (Nat × List (Nat × Event))

/-- `run` as it enters the loop. -/
def TimedManager.start (Event : Type) (batchTimeout now : Nat) : TimedManager Event :=
  ⟨.start, now, now + batchTimeout, []⟩

/-- What is known of time at the loop head. -/
def TimedManager.clock (m : TimedManager Event) : Clock :=
  ⟨m.now, m.deadline, m.manager.buffer.map (·.1)⟩

/-- A turn, with the time in the event. -/
def stamp (now : Nat) : Turn Event → Turn (Nat × Event)
  | .event e => .event (now, e)
  | .timer => .timer
  | .closed => .closed

/-- The turns that reset `sleep`. -/
def resetsSleep (maxBatchSize : Nat) (buffer : List (Nat × Event)) : Turn Event → Bool
  | .event _ => decide (maxBatchSize ≤ buffer.length + 1)
  | .timer => true
  | .closed => false

/-- `sleep` is not ready before its deadline. -/
def ready (deadline now : Nat) : Turn Event → Bool
  | .timer => decide (deadline ≤ now)
  | _ => true

/-- What a turn leaves behind, if `run` goes on with `manager`. -/
def TimedManager.next (m : TimedManager Event) (maxBatchSize batchTimeout now : Nat)
    (turn : Turn Event) (manager : Manager (Nat × Event)) : TimedManager Event where
  manager := manager
  now := now
  deadline :=
    if resetsSleep maxBatchSize m.manager.buffer turn then now + batchTimeout else m.deadline
  handedAt :=
    m.handedAt ++ (manager.handed.drop m.manager.handed.length).map fun batch => (now, batch)

/-- The loop of `BatchManager::run` with the time of every turn. -/
def timedBatchManager (Event : Type) (maxBatchSize batchTimeout latency : Nat) :
    Machine (TimedManager Event) (Nat × Turn Event) where
  step m turn :=
    if m.clock.Prompt latency turn.1 ∧ ready m.deadline turn.1 turn.2 then
      ((batchManager maxBatchSize).step m.manager (stamp turn.1 turn.2)).map
        (m.next maxBatchSize batchTimeout turn.1 turn.2)
    else none

/-- The events of the turns, each with its time. -/
def receivedAt (turns : List (Nat × Turn Event)) : List (Nat × Event) :=
  received (turns.map fun turn => stamp turn.1 turn.2)

/-- What holds at every loop head: the loop is that of `SiemBatching`, it is on time, and so were
the batches. -/
structure InTime (maxBatchSize batchTimeout latency : Nat) (turns : List (Nat × Turn Event))
    (m : TimedManager Event) : Prop where
  batched : Batched maxBatchSize (turns.map fun turn => stamp turn.1 turn.2) m.manager
  onTime : m.manager.returned = false → m.clock.OnTime batchTimeout latency
  handed : m.handedAt.map (·.2) = m.manager.handed
  inTime : ∀ b ∈ m.handedAt, ∀ a ∈ b.2,
    a.1 ≤ b.1 ∧ b.1 ≤ a.1 + batchTimeout + maxBatchSize * latency

variable {maxBatchSize batchTimeout latency : Nat}

theorem inTime_start (hmax : 0 < maxBatchSize) (now : Nat) :
    InTime maxBatchSize batchTimeout latency [] (.start Event batchTimeout now) where
  batched := batched_run hmax rfl
  onTime _ := Clock.onTime_restart batchTimeout latency now
  handed := rfl
  inTime _ hb := by cases hb

/-- What a turn of the loop does: which batch it hands over, and what it keeps. -/
theorem batchManager_step {manager manager' : Manager (Nat × Event)} {turn : Turn (Nat × Event)}
    (h : (batchManager maxBatchSize).step manager turn = some manager') :
    manager.returned = false ∧ ∃ r returned,
      manager' = { manager.handOver r with returned := returned } ∧
      match turn with
      | .event e => r = onEvent maxBatchSize manager.buffer e ∧ returned = false
      | .timer => r = onTimer manager.buffer ∧ returned = false
      | .closed => r = ([], onClosed manager.buffer) ∧ returned = true := by
  obtain ⟨buffer, handed, returned⟩ := manager
  cases returned with
  | true => cases h
  | false =>
    refine ⟨rfl, ?_⟩
    cases turn with
    | event e => exact ⟨_, false, (Option.some.inj h).symm, rfl, rfl⟩
    | timer => exact ⟨_, false, (Option.some.inj h).symm, rfl, rfl⟩
    | closed => exact ⟨_, true, (Option.some.inj h).symm, rfl, rfl⟩

/-- What is handed over in a prompt turn has not waited for too long. -/
theorem InTime.batch_le {turns : List (Nat × Turn Event)} {m : TimedManager Event}
    (h : InTime maxBatchSize batchTimeout latency turns m) (hopen : m.manager.returned = false)
    {now : Nat} (hprompt : m.clock.Prompt latency now)
    {batch : List (Nat × Event)} (hbatch : ∀ a ∈ batch, a ∈ m.manager.buffer ∨ a.1 = now) :
    ∀ a ∈ batch, a.1 ≤ now ∧ now ≤ a.1 + batchTimeout + maxBatchSize * latency := by
  intro a ha
  rcases hbatch a ha with ha | ha
  · have hsmall : m.clock.arrivals.length < maxBatchSize := by
      simpa [TimedManager.clock] using h.batched.small
    exact (h.onTime hopen).handed_over hprompt hsmall (List.mem_map_of_mem ha)
  · rw [ha]
    omega

/-- A turn keeps the loop in time if its clock is on time, and what it hands over was. -/
theorem InTime.next {turns : List (Nat × Turn Event)} {m : TimedManager Event}
    (h : InTime maxBatchSize batchTimeout latency turns m) (hopen : m.manager.returned = false)
    {now : Nat} (hprompt : m.clock.Prompt latency now) {turn : Turn Event}
    {r : List (Nat × Event) × Option (List (Nat × Event))} {returned : Bool}
    (hbatched : Batched maxBatchSize ((turns ++ [(now, turn)]).map fun turn =>
      stamp turn.1 turn.2) { m.manager.handOver r with returned := returned })
    (hclock : returned = false → (m.next maxBatchSize batchTimeout now turn
      { m.manager.handOver r with returned := returned }).clock.OnTime batchTimeout latency)
    (hr : ∀ batch ∈ r.2, ∀ a ∈ batch, a ∈ m.manager.buffer ∨ a.1 = now) :
    InTime maxBatchSize batchTimeout latency (turns ++ [(now, turn)])
      (m.next maxBatchSize batchTimeout now turn
        { m.manager.handOver r with returned := returned }) where
  batched := hbatched
  onTime := hclock
  handed := by simp [TimedManager.next, Manager.handOver, h.handed, Function.comp_def]
  inTime b hb := by
    simp only [TimedManager.next, Manager.handOver, List.drop_left] at hb
    rcases List.mem_append.1 hb with hb | hb
    · exact h.inTime b hb
    · obtain ⟨batch, hbatch, rfl⟩ := List.mem_map.1 hb
      exact h.batch_le hopen hprompt (hr batch (Option.mem_toList.1 hbatch))

theorem inTime_step (hmax : 0 < maxBatchSize) {turns : List (Nat × Turn Event)}
    {m m' : TimedManager Event} {turn : Nat × Turn Event}
    (h : InTime maxBatchSize batchTimeout latency turns m)
    (hstep : (timedBatchManager Event maxBatchSize batchTimeout latency).step m turn = some m') :
    InTime maxBatchSize batchTimeout latency (turns ++ [turn]) m' := by
  obtain ⟨now, turn⟩ := turn
  simp only [timedBatchManager] at hstep
  split at hstep
  · rename_i hcan
    obtain ⟨manager, hmanager, rfl⟩ := Option.map_eq_some_iff.1 hstep
    have hbatched : Batched maxBatchSize ((turns ++ [(now, turn)]).map fun turn =>
        stamp turn.1 turn.2) manager := by
      rw [List.map_append]
      exact batched_step hmax h.batched hmanager
    obtain ⟨hopen, r, returned, rfl, hturn⟩ := batchManager_step hmanager
    refine h.next hopen hcan.1 hbatched ?_ ?_
    · intro hret
      cases turn with
      | event e =>
        obtain ⟨rfl, -⟩ := hturn
        by_cases hfull : maxBatchSize ≤ m.manager.buffer.length + 1
        · have hclock := Clock.onTime_restart batchTimeout latency now
          simpa [TimedManager.clock, TimedManager.next, Manager.handOver, resetsSleep, onEvent,
            hfull, Clock.restart] using hclock
        · have hclock := (h.onTime hopen).collect hcan.1
          simpa [TimedManager.clock, TimedManager.next, Manager.handOver, resetsSleep, onEvent,
            hfull, Clock.collect] using hclock
      | timer =>
        obtain ⟨rfl, -⟩ := hturn
        have hclock := Clock.onTime_restart batchTimeout latency now
        have hempty : (onTimer m.manager.buffer).1 = [] := (onTimer_spec rfl).2.2
        simpa [TimedManager.clock, TimedManager.next, Manager.handOver, resetsSleep, hempty,
          Clock.restart] using hclock
      | closed =>
        rw [hturn.2] at hret
        cases hret
    · intro batch hbatch a ha
      cases turn with
      | event e =>
        obtain ⟨rfl, -⟩ := hturn
        rw [(onEvent_spec rfl).2.1 batch hbatch] at ha
        rcases List.mem_append.1 ha with ha | ha
        · exact Or.inl ha
        · exact Or.inr (congrArg Prod.fst (List.mem_singleton.1 ha))
      | timer =>
        obtain ⟨rfl, -⟩ := hturn
        rw [((onTimer_spec rfl).2.1 batch hbatch).1] at ha
        exact Or.inl ha
      | closed =>
        obtain ⟨rfl, -⟩ := hturn
        rw [((onClosed_spec m.manager.buffer).2 batch hbatch).1] at ha
        exact Or.inl ha
  · cases hstep

/-- **No event waits for long.**  Under turns that are late by at most `latency`, every event is
handed over within the timeout and a turn for each event of a batch, counted from the time at which
it came out of the channel; an event that is still in the buffer has not waited for longer.  The
batches are the events, with their times, in order; and a loop that has not returned is never stuck
behind its own timer. -/
theorem batches_in_time (hmax : 0 < maxBatchSize) {t₀ : Nat} {turns : List (Nat × Turn Event)}
    {m : TimedManager Event}
    (h : (timedBatchManager Event maxBatchSize batchTimeout latency).run
      (.start Event batchTimeout t₀) turns = some m) :
    (m.handedAt.map (·.2)).flatten ++ m.manager.buffer = receivedAt turns ∧
    (∀ b ∈ m.handedAt, ∀ a ∈ b.2,
      a.1 ≤ b.1 ∧ b.1 ≤ a.1 + batchTimeout + maxBatchSize * latency) ∧
    (m.manager.returned = false →
      (∀ a ∈ m.manager.buffer, m.now ≤ a.1 + batchTimeout + maxBatchSize * latency) ∧
      ∃ t, ((timedBatchManager Event maxBatchSize batchTimeout latency).step m
        (t, .timer)).isSome) := by
  have hin := (timedBatchManager Event maxBatchSize batchTimeout latency).run_induction
    (I := InTime maxBatchSize batchTimeout latency) (inTime_start hmax t₀)
    (fun _ _ _ _ _ hm hs => inTime_step hmax hm hs) h
  refine ⟨?_, hin.inTime, fun hopen => ⟨fun a ha => ?_, max m.now m.deadline, ?_⟩⟩
  · rw [hin.handed]
    exact hin.batched.complete
  · refine (hin.onTime hopen).waits ?_ (List.mem_map_of_mem ha)
    simpa [TimedManager.clock] using hin.batched.small.le
  · simp only [timedBatchManager]
    rw [if_pos ⟨⟨Nat.le_max_left _ _, Nat.le_add_right _ _⟩,
      decide_eq_true (Nat.le_max_right _ _)⟩]
    simp [batchManager, hopen, stamp]

/-- Batches of two and a timeout of 1000, turns that are late by 5: the third event is handed over
by the timer, after 993. -/
theorem third_event_in_time : ∃ m : TimedManager Char,
    (timedBatchManager Char 2 1000 5).run (.start Char 1000 0)
      [(3, .event 'a'), (7, .event 'b'), (19, .event 'c'), (1012, .timer)] = some m ∧
    m.handedAt = [(7, [(3, 'a'), (7, 'b')]), (1012, [(19, 'c')])] ∧
    ∀ b ∈ m.handedAt, ∀ a ∈ b.2, a.1 ≤ b.1 ∧ b.1 ≤ a.1 + 1000 + 2 * 5 := by
  refine ⟨_, rfl, rfl, ?_⟩
  exact (batches_in_time (by decide) (rfl : (timedBatchManager Char 2 1000 5).run
    (.start Char 1000 0) [(3, .event 'a'), (7, .event 'b'), (19, .event 'c'), (1012, .timer)] =
      some _)).2.1

end RustSamples.Siem
