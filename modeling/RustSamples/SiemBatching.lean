import RustSamples.SiemProcessor

/-! # The batches of `BatchManager::run`

The loop of `run` as a machine: each action is one turn of `select!` — an event
received, the timer, or the closed channel, after which `run` returns.  Handing a
batch to `write_batch` is recorded in order, whether the call is spawned or
awaited.

The invariant (`Batched`) relates the buffer, the batches handed over and the
events received: together the batches and the buffer are the events, in order.
-/
namespace RustSamples.Siem
open Scheduling

variable {Event : Type}

/-- The branch of `select!` that is taken. -/
inductive Turn (Event : Type)
  | event (e : Event)
  | timer
  | closed

/-- The state of `run` at its loop head, and the batches handed over so far. -/
structure Manager (Event : Type) where
  buffer : List Event
  handed : List (List Event)
  returned : Bool

/-- `run` as it enters the loop. -/
def Manager.start : Manager Event := ⟨[], [], false⟩

/-- Record a batch that is handed over, if there is one. -/
def Manager.handOver (m : Manager Event) (r : List Event × Option (List Event)) : Manager Event :=
  { m with buffer := r.1, handed := m.handed ++ r.2.toList }

/-- The loop of `BatchManager::run`. -/
def batchManager (maxBatchSize : Nat) : Machine (Manager Event) (Turn Event) where
  step m turn :=
    if m.returned then none
    else
      match turn with
      | .event e => some (m.handOver (onEvent maxBatchSize m.buffer e))
      | .timer => some (m.handOver (onTimer m.buffer))
      | .closed => some { m.handOver ([], onClosed m.buffer) with returned := true }

/-- The events received in the given turns. -/
def received (turns : List (Turn Event)) : List Event :=
  turns.filterMap fun
    | .event e => some e
    | _ => none

/-- What holds at every loop head, and once `run` has returned. -/
structure Batched (maxBatchSize : Nat) (turns : List (Turn Event)) (m : Manager Event) : Prop where
  complete : m.handed.flatten ++ m.buffer = received turns
  sizes : ∀ batch ∈ m.handed, batch ≠ [] ∧ batch.length ≤ maxBatchSize
  small : m.buffer.length < maxBatchSize
  flushed : m.returned → m.buffer = []

theorem batched_handOver {maxBatchSize : Nat} {turns : List (Turn Event)} {m : Manager Event}
    (hm : Batched maxBatchSize turns m) {turn : Turn Event} {buffer' : List Event}
    {batch : Option (List Event)}
    (hflat : batch.toList.flatten ++ buffer' = m.buffer ++ received [turn])
    (hsize : ∀ b ∈ batch, b ≠ [] ∧ b.length ≤ maxBatchSize) (hsmall : buffer'.length < maxBatchSize)
    (returned : Bool) (hret : returned → buffer' = []) :
    Batched maxBatchSize (turns ++ [turn])
      { m.handOver (buffer', batch) with returned := returned } where
  complete := by
    have hrec : received (turns ++ [turn]) = received turns ++ received [turn] :=
      List.filterMap_append
    rw [hrec, ← hm.complete, List.append_assoc, ← hflat]
    simp [Manager.handOver]
  sizes := by
    intro b hb
    rcases List.mem_append.mp hb with hb | hb
    · exact hm.sizes b hb
    · exact hsize b (Option.mem_toList.mp hb)
  small := hsmall
  flushed := hret

theorem batched_step {maxBatchSize : Nat} {turns : List (Turn Event)} {m m' : Manager Event}
    {turn : Turn Event} (hmax : 0 < maxBatchSize) (hm : Batched maxBatchSize turns m)
    (h : (batchManager maxBatchSize).step m turn = some m') :
    Batched maxBatchSize (turns ++ [turn]) m' := by
  have hopen : m.returned = false := by
    cases hr : m.returned with
    | false => rfl
    | true => simp [batchManager, hr] at h
  have hsmall := hm.small
  simp only [batchManager, hopen, Bool.false_eq_true, if_false] at h
  cases turn with
  | event e =>
    obtain rfl := Option.some.inj h
    cases hr : onEvent maxBatchSize m.buffer e with
    | mk buffer' batch =>
      obtain ⟨hflat, hbatch, hfull, hroom⟩ := onEvent_spec hr
      refine batched_handOver hm hflat ?_ ?_ m.returned (by simp [hopen])
      · intro b hb
        rw [hbatch b hb]
        exact ⟨by simp, by simp; omega⟩
      · rcases Nat.lt_or_ge (m.buffer.length + 1) maxBatchSize with hlt | hge
        · rw [hroom hlt]; simpa using hlt
        · rw [hfull hge]; exact hmax
  | timer =>
    obtain rfl := Option.some.inj h
    cases hr : onTimer m.buffer with
    | mk buffer' batch =>
      obtain ⟨hflat, hbatch, rfl⟩ := onTimer_spec hr
      refine batched_handOver hm (by simpa [received] using hflat) ?_ (by simpa using hmax)
        m.returned (by simp)
      intro b hb
      obtain ⟨rfl, hne⟩ := hbatch b hb
      exact ⟨hne, by omega⟩
  | closed =>
    obtain rfl := Option.some.inj h
    obtain ⟨hflat, hbatch⟩ := onClosed_spec m.buffer
    refine batched_handOver hm (by simpa [received] using hflat) ?_ (by simpa using hmax) true
      (by simp)
    intro b hb
    obtain ⟨rfl, hne⟩ := hbatch b hb
    exact ⟨hne, by omega⟩

theorem batched_run {maxBatchSize : Nat} (hmax : 0 < maxBatchSize) {turns : List (Turn Event)}
    {m : Manager Event} (h : (batchManager maxBatchSize).run .start turns = some m) :
    Batched maxBatchSize turns m :=
  (batchManager maxBatchSize).run_induction (I := Batched maxBatchSize)
    ⟨rfl, by simp [Manager.start], by simpa [Manager.start] using hmax, fun _ => rfl⟩
    (fun _ _ _ _ _ hm hs => batched_step hmax hm hs) h

/-- `run` goes round its loop as long as the channel is open. -/
theorem exists_run_of_open (maxBatchSize : Nat) {turns : List (Turn Event)}
    (hopen : ∀ turn ∈ turns, turn ≠ .closed) :
    ∃ m, (batchManager maxBatchSize).run .start turns = some m ∧ m.returned = false := by
  induction turns using List.reverseRecOn with
  | nil => exact ⟨.start, rfl, rfl⟩
  | append_singleton turns turn ih =>
    obtain ⟨m, hm, hret⟩ := ih fun t ht => hopen t (List.mem_append_left _ ht)
    cases turn with
    | closed => exact absurd rfl (hopen .closed (by simp))
    | event e =>
      exact ⟨m.handOver (onEvent maxBatchSize m.buffer e),
        (batchManager _).run_concat.mpr ⟨m, hm, by simp [batchManager, hret]⟩, hret⟩
    | timer =>
      exact ⟨m.handOver (onTimer m.buffer),
        (batchManager _).run_concat.mpr ⟨m, hm, by simp [batchManager, hret]⟩, hret⟩

/-- **The batches are the events.**  For any events, interleaved with any timer
expiries and ended by the closing of the channel, `run` returns; the batches it
handed over are, one after the other, exactly the events received; each is
non-empty and within `max_batch_size`; the buffer is below `max_batch_size` at
every loop head, and empty at the end. -/
theorem batches_are_events {maxBatchSize : Nat} (hmax : 1 ≤ maxBatchSize)
    {turns : List (Turn Event)} (hopen : ∀ turn ∈ turns, turn ≠ .closed) :
    ∃ m, (batchManager maxBatchSize).run .start (turns ++ [.closed]) = some m ∧
      m.returned = true ∧ m.buffer = [] ∧ m.handed.flatten = received turns ∧
      (∀ batch ∈ m.handed, batch ≠ [] ∧ batch.length ≤ maxBatchSize) ∧
      (∀ earlier head, earlier <+: turns →
        (batchManager maxBatchSize).run .start earlier = some head →
        head.buffer.length < maxBatchSize) := by
  obtain ⟨m, hm, hret⟩ := exists_run_of_open maxBatchSize hopen
  have hend : (batchManager maxBatchSize).run .start (turns ++ [.closed]) =
      some { m.handOver ([], onClosed m.buffer) with returned := true } :=
    (batchManager maxBatchSize).run_concat.mpr ⟨m, hm, by simp [batchManager, hret]⟩
  have hb := batched_run hmax hend
  refine ⟨_, hend, rfl, rfl, ?_, hb.sizes, ?_⟩
  · have hc := hb.complete
    rw [hb.flushed rfl, List.append_nil] at hc
    simpa [received] using hc
  · intro earlier head _ hrun
    exact (batched_run hmax hrun).small

/-- Three events and a timer with batches of two: `[1, 2]` by size, `[3]` by the
timer, and nothing is left for the end. -/
theorem batches_are_events_of_three :
    ∃ m : Manager Nat, (batchManager 2).run .start
        ([.event 1, .event 2, .event 3, .timer] ++ [.closed]) = some m ∧
      m.handed.flatten = [1, 2, 3] := by
  have hopen : ∀ turn ∈ [Turn.event 1, .event 2, .event 3, .timer], turn ≠ .closed := by simp
  obtain ⟨m, hrun, -, -, hflat, -⟩ := batches_are_events (show 1 ≤ 2 by decide) hopen
  exact ⟨m, hrun, hflat⟩

end RustSamples.Siem
