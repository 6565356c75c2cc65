import RustSamples.Machine

/-! # The event processor of `siem_clickhouse_processor`

`ClickHouseWriter::write_batch` (with `dump_to_wal`) is an asynchronous call: it
gives up control at every `await`.  It is modelled as a task that moves from one
awaited operation to the next, each answered with success or failure; what an
operation does to ClickHouse and to the log file happens in that step.
`BatchManager::run` is the body of its `select!` loop, one definition per branch.

Events are opaque: the processor never looks inside one.  Of `Config` only
`max_batch_size` decides anything; the timeout decides when the timer branch is
taken, which is left to the schedule.
-/
namespace RustSamples.Siem

variable {Event : Type}

/-! ## `ClickHouseWriter` -/

/-- What one `write_all` adds to the log file: a serialised event, the newline
after it, or, when it fails, the first `written` bytes of a serialised event. -/
inductive Append (Event : Type)
  | record (e : Event)
  | newline
  | torn (e : Event) (written : Nat)
deriving DecidableEq

/-- The two places an event can end in: rows committed to ClickHouse, and the
appends made to the log file, both in order. -/
structure Sinks (Event : Type) where
  committed : List Event
  wal : List (Append Event)
deriving DecidableEq

/-- How an awaited operation ends.  `written` is what a failed append wrote. -/
inductive Answer
  | ok
  | fail (written : Nat)
deriving DecidableEq

/-- The operation a `write_batch` call makes next. -/
inductive Pc (Event : Type)
  /-- `client.insert` -/
  | begin
  /-- `insert.write` of the first event of `rest`; `insert.end` once it is empty -/
  | inserting (rest : List Event)
  /-- the `open` of `dump_to_wal` -/
  | opening
  /-- the append of the first event of `rest`; `flush` once it is empty -/
  | record (rest : List Event)
  /-- the append of the newline, with `rest` to follow -/
  | newline (rest : List Event)
  | finished
deriving DecidableEq

/-- A `write_batch` call under way. -/
structure Task (Event : Type) where
  batch : List Event
  pc : Pc Event
deriving DecidableEq

namespace Task

/-- `write_batch(batch)`, before its first operation. -/
def writeBatch (batch : List Event) : Task Event := ⟨batch, .begin⟩

/-- `dump_to_wal(batch)`, before its first operation. -/
def dumpToWal (batch : List Event) : Task Event := ⟨batch, .opening⟩

/-- One awaited operation of the call and what it does; `none` once the call has
returned.  An insert commits its events when `end` succeeds and not before; every
failure on the way to that goes to `dump_to_wal`, and a failure there is final. -/
def step (sinks : Sinks Event) (t : Task Event) (answer : Answer) :
    Option (Task Event × Sinks Event) :=
  match t.pc, answer with
  | .begin, .ok =>
      some (⟨t.batch, if t.batch.isEmpty then .finished else .inserting t.batch⟩, sinks)
  | .begin, .fail _ => some (⟨t.batch, if t.batch.isEmpty then .finished else .opening⟩, sinks)
  | .inserting (_ :: rest), .ok => some (⟨t.batch, .inserting rest⟩, sinks)
  | .inserting (_ :: _), .fail _ => some (⟨t.batch, .opening⟩, sinks)
  | .inserting [], .ok =>
      some (⟨t.batch, .finished⟩, { sinks with committed := sinks.committed ++ t.batch })
  | .inserting [], .fail _ => some (⟨t.batch, .opening⟩, sinks)
  | .opening, .ok => some (⟨t.batch, .record t.batch⟩, sinks)
  | .opening, .fail _ => some (⟨t.batch, .finished⟩, sinks)
  | .record [], _ => some (⟨t.batch, .finished⟩, sinks)
  | .record (e :: rest), .ok =>
      some (⟨t.batch, .newline rest⟩, { sinks with wal := sinks.wal ++ [.record e] })
  | .record (e :: _), .fail written =>
      some (⟨t.batch, .finished⟩, { sinks with wal := sinks.wal ++ [.torn e written] })
  | .newline rest, .ok =>
      some (⟨t.batch, .record rest⟩, { sinks with wal := sinks.wal ++ [.newline] })
  | .newline _, .fail _ => some (⟨t.batch, .finished⟩, sinks)
  | .finished, _ => none

/-- The call is at an operation on the local disk. -/
def onDisk (t : Task Event) : Bool :=
  match t.pc with
  | .opening | .record _ | .newline _ => true
  | _ => false

end Task

/-! ## `BatchManager` -/

/-- The event branch of `run`: the buffer after it, and the batch it hands over. -/
def onEvent (maxBatchSize : Nat) (buffer : List Event) (event : Event) :
    List Event × Option (List Event) :=
  let buffer := buffer ++ [event]
  if maxBatchSize ≤ buffer.length then ([], some buffer) else (buffer, none)

/-- The timer branch of `run`. -/
def onTimer (buffer : List Event) : List Event × Option (List Event) :=
  if buffer.isEmpty then (buffer, none) else ([], some buffer)

/-- The branch for a closed channel: the batch handed over before `run` returns. -/
def onClosed (buffer : List Event) : Option (List Event) :=
  if buffer.isEmpty then none else some buffer

/-- Neither branch loses an event or reorders any: what is handed over and what
is kept are together the old buffer and the new event. -/
theorem onEvent_spec {maxBatchSize : Nat} {buffer buffer' : List Event} {e : Event}
    {handed : Option (List Event)} (h : onEvent maxBatchSize buffer e = (buffer', handed)) :
    handed.toList.flatten ++ buffer' = buffer ++ [e] ∧
      (∀ batch ∈ handed, batch = buffer ++ [e]) ∧
      (maxBatchSize ≤ buffer.length + 1 → buffer' = []) ∧
      (buffer.length + 1 < maxBatchSize → buffer' = buffer ++ [e]) := by
  unfold onEvent at h
  simp only [List.length_append, List.length_singleton] at h
  split at h
  · obtain ⟨rfl, rfl⟩ := Prod.mk.inj h
    exact ⟨by simp, by simp, fun _ => rfl, fun hlt => by omega⟩
  · obtain ⟨rfl, rfl⟩ := Prod.mk.inj h
    exact ⟨by simp, by simp, fun hle => by omega, fun _ => rfl⟩

theorem onTimer_spec {buffer buffer' : List Event} {handed : Option (List Event)}
    (h : onTimer buffer = (buffer', handed)) :
    handed.toList.flatten ++ buffer' = buffer ∧
      (∀ batch ∈ handed, batch = buffer ∧ batch ≠ []) ∧ buffer' = [] := by
  unfold onTimer at h
  split at h
  · rename_i hempty
    obtain ⟨rfl, rfl⟩ := Prod.mk.inj h
    exact ⟨by simp, by simp, List.isEmpty_iff.mp hempty⟩
  · rename_i hne
    obtain ⟨rfl, rfl⟩ := Prod.mk.inj h
    refine ⟨by simp, ?_, rfl⟩
    intro batch hb
    obtain rfl := Option.some.inj hb
    exact ⟨rfl, fun hnil => hne (List.isEmpty_iff.mpr hnil)⟩

theorem onClosed_spec (buffer : List Event) :
    (onClosed buffer).toList.flatten = buffer ∧
      ∀ batch ∈ onClosed buffer, batch = buffer ∧ batch ≠ [] := by
  unfold onClosed
  split
  · rename_i hempty
    exact ⟨by simp [List.isEmpty_iff.mp hempty], by simp⟩
  · rename_i hne
    refine ⟨by simp, ?_⟩
    intro batch hb
    obtain rfl := Option.some.inj hb
    exact ⟨rfl, fun hnil => hne (List.isEmpty_iff.mpr hnil)⟩

end RustSamples.Siem
