import RustSamples.SiemWal

/-! # The sink of a batch

`write_batch` has as many places to fail as the batch has events, and two more: the insert, every
`write`, and `end`.  All of them lead to one `dump_to_wal` of the whole batch, and behind a
successful `end` nothing leads there.  So the batch is committed, or it is in the log file, line
by line; not both, and not neither as long as the disk works (`write_batch_chooses_one_sink`).

`Reached` says how far a call can be, with the disk's answers so far, and what it has left in the
sinks by then.
-/
namespace RustSamples.Siem
open Scheduling

variable {Event : Type} {batch : List Event} {before after : Sinks Event}

/-! ## What a call leaves -/

/-- The appends of a batch: every event, and a newline behind it. -/
def linesOf (batch : List Event) : List (Append Event) :=
  batch.flatMap fun e => [.record e, .newline]

/-- **In exactly one place.**  The batch is committed, in order, and the log file has not changed;
or nothing of it is committed, and the log file has grown by its events, one line each, in order. -/
def StoredOnce (serialize : Event → List UInt8) (batch : List Event)
    (before after : Sinks Event) : Prop :=
  (after.committed = before.committed ++ batch ∧ after.wal = before.wal) ∨
    (after.committed = before.committed ∧ walFile serialize after.wal =
      walFile serialize before.wal ++ batch.flatMap fun e => serialize e ++ [10])

/-- **A part of the lines.**  Nothing is committed, and the log file has grown by a prefix of the
batch's lines. -/
def StoredPartly (serialize : Event → List UInt8) (batch : List Event)
    (before after : Sinks Event) : Prop :=
  after.committed = before.committed ∧
    ∃ text, text <+: (batch.flatMap fun e => serialize e ++ [10]) ∧
      walFile serialize after.wal = walFile serialize before.wal ++ text

theorem walFile_append (serialize : Event → List UInt8) (wal wal' : List (Append Event)) :
    walFile serialize (wal ++ wal') = walFile serialize wal ++ walFile serialize wal' :=
  List.flatMap_append

theorem walFile_linesOf (serialize : Event → List UInt8) (batch : List Event) :
    walFile serialize (linesOf batch) = batch.flatMap fun e => serialize e ++ [10] := by
  induction batch with
  | nil => rfl
  | cons e batch ih =>
    have hline : walFile serialize (linesOf (e :: batch)) =
        serialize e ++ [10] ++ walFile serialize (linesOf batch) := by
      simp [walFile, linesOf, Append.bytes]
    rw [hline, ih, List.flatMap_cons]

/-! ## One call, alone -/

/-- A call with the sinks to itself: every awaited operation has some answer. -/
def writer : Machine (Task Event × Sinks Event) Answer :=
  ⟨fun s answer => s.1.step s.2 answer⟩

/-- What the disk answers. -/
def diskAnswer (s : Task Event × Sinks Event) (answer : Answer) : List Answer :=
  if s.1.onDisk then [answer] else []

/-- The answers of the disk in a `write_batch` call. -/
def diskAnswers (batch : List Event) (before : Sinks Event) (answers : List Answer) :
    List Answer :=
  writer.observations diskAnswer (.writeBatch batch, before) answers

/-- No operation on the disk has failed. -/
def DiskWorked (answers : List Answer) : Prop := ∀ answer ∈ answers, answer = .ok

/-- How far a call can be when the disk has answered so. -/
inductive Reached (batch : List Event) (before : Sinks Event) :
    List Answer → Task Event × Sinks Event → Prop
  | begin : Reached batch before [] (⟨batch, .begin⟩, before)
  | inserting (rest : List Event) : Reached batch before [] (⟨batch, .inserting rest⟩, before)
  | committed : Reached batch before []
      (⟨batch, .finished⟩, { before with committed := before.committed ++ batch })
  | opening : Reached batch before [] (⟨batch, .opening⟩, before)
  | record {answers : List Answer} {done rest : List Event} (worked : DiskWorked answers)
      (split : batch = done ++ rest) : Reached batch before answers
        (⟨batch, .record rest⟩, { before with wal := before.wal ++ linesOf done })
  | newline {answers : List Answer} {done rest : List Event} {e : Event}
      (worked : DiskWorked answers) (split : batch = done ++ e :: rest) :
      Reached batch before answers (⟨batch, .newline rest⟩,
        { before with wal := before.wal ++ (linesOf done ++ [.record e]) })
  | logged {answers : List Answer} : Reached batch before answers
      (⟨batch, .finished⟩, { before with wal := before.wal ++ linesOf batch })
  | refused {answers : List Answer} (failed : ¬ DiskWorked answers) :
      Reached batch before answers (⟨batch, .finished⟩, before)
  | behindRecord {answers : List Answer} {done rest : List Event} {e : Event}
      (failed : ¬ DiskWorked answers) (split : batch = done ++ e :: rest) :
      Reached batch before answers (⟨batch, .finished⟩,
        { before with wal := before.wal ++ (linesOf done ++ [.record e]) })
  | torn {answers : List Answer} {done rest : List Event} {e : Event} {written : Nat}
      (failed : ¬ DiskWorked answers) (split : batch = done ++ e :: rest) :
      Reached batch before answers (⟨batch, .finished⟩,
        { before with wal := before.wal ++ (linesOf done ++ [.torn e written]) })

theorem DiskWorked.concat {answers : List Answer} (h : DiskWorked answers) :
    DiskWorked (answers ++ [.ok]) := by
  intro answer hanswer
  rcases List.mem_append.1 hanswer with hanswer | hanswer
  · exact h answer hanswer
  · exact List.mem_singleton.1 hanswer

theorem not_diskWorked_concat (answers : List Answer) (written : Nat) :
    ¬ DiskWorked (answers ++ [.fail written]) :=
  fun h => absurd (h _ List.mem_concat_self) (by simp)

theorem linesOf_concat (done : List Event) (e : Event) :
    linesOf (done ++ [e]) = linesOf done ++ [.record e, .newline] := by
  simp [linesOf]

section
variable {answers : List Answer} {answer : Answer} {s' : Task Event × Sinks Event}

theorem reached_of_begin (h : writer.step (⟨batch, .begin⟩, before) answer = some s') :
    Reached batch before [] s' := by
  cases batch with
  | nil =>
    -- nothing to write: as good as committed
    have hcommitted : Reached [] before []
        (⟨[], .finished⟩, { before with committed := before.committed ++ [] }) := .committed
    have hnothing : Reached [] before [] (⟨[], .finished⟩, before) := by simpa using hcommitted
    cases answer <;> obtain rfl := Option.some.inj h <;> exact hnothing
  | cons e rest =>
    cases answer <;> obtain rfl := Option.some.inj h
    · exact .inserting _
    · exact .opening

theorem reached_of_inserting {rest : List Event}
    (h : writer.step (⟨batch, .inserting rest⟩, before) answer = some s') :
    Reached batch before [] s' := by
  cases rest with
  | nil =>
    cases answer <;> obtain rfl := Option.some.inj h
    · exact .committed
    · exact .opening
  | cons e rest =>
    cases answer <;> obtain rfl := Option.some.inj h
    · exact .inserting rest
    · exact .opening

theorem reached_of_opening (h : writer.step (⟨batch, .opening⟩, before) answer = some s') :
    Reached batch before [answer] s' := by
  cases answer with
  | ok =>
    obtain rfl := Option.some.inj h
    have hnone : Reached batch before ([] ++ [.ok])
        (⟨batch, .record batch⟩, { before with wal := before.wal ++ linesOf [] }) :=
      .record (DiskWorked.concat (List.forall_mem_nil _)) rfl
    rwa [linesOf, List.flatMap_nil, List.append_nil] at hnone
  | fail written =>
    obtain rfl := Option.some.inj h
    exact .refused (not_diskWorked_concat [] written)

theorem reached_of_record {done rest : List Event} (worked : DiskWorked answers)
    (split : batch = done ++ rest)
    (h : writer.step (⟨batch, .record rest⟩,
      { before with wal := before.wal ++ linesOf done }) answer = some s') :
    Reached batch before (answers ++ [answer]) s' := by
  cases rest with
  | nil =>
    -- the flush: all is written, whatever it answers
    have hall : Reached batch before (answers ++ [answer])
        (⟨batch, .finished⟩, { before with wal := before.wal ++ linesOf done }) := by
      rw [← List.append_nil done, ← split]
      exact .logged
    cases answer <;> obtain rfl := Option.some.inj h <;> exact hall
  | cons e rest =>
    cases answer with
    | ok =>
      obtain rfl := Option.some.inj h
      have hrecord : Reached batch before (answers ++ [.ok]) (⟨batch, .newline rest⟩,
          { before with wal := before.wal ++ (linesOf done ++ [.record e]) }) :=
        .newline worked.concat split
      rwa [← List.append_assoc] at hrecord
    | fail written =>
      obtain rfl := Option.some.inj h
      have htorn : Reached batch before (answers ++ [.fail written]) (⟨batch, .finished⟩,
          { before with wal := before.wal ++ (linesOf done ++ [.torn e written]) }) :=
        .torn (not_diskWorked_concat answers written) split
      rwa [← List.append_assoc] at htorn

theorem reached_of_newline {done rest : List Event} {e : Event} (worked : DiskWorked answers)
    (split : batch = done ++ e :: rest)
    (h : writer.step (⟨batch, .newline rest⟩,
      { before with wal := before.wal ++ (linesOf done ++ [.record e]) }) answer = some s') :
    Reached batch before (answers ++ [answer]) s' := by
  cases answer with
  | ok =>
    obtain rfl := Option.some.inj h
    have hsplit : batch = (done ++ [e]) ++ rest := by
      rw [split, List.append_assoc, List.singleton_append]
    have hline : Reached batch before (answers ++ [.ok]) (⟨batch, .record rest⟩,
        { before with wal := before.wal ++ linesOf (done ++ [e]) }) :=
      .record worked.concat hsplit
    have hlines : before.wal ++ linesOf (done ++ [e]) =
        before.wal ++ (linesOf done ++ [.record e]) ++ [.newline] := by
      rw [linesOf_concat, List.append_assoc, List.append_assoc]
      rfl
    rwa [hlines] at hline
  | fail written =>
    obtain rfl := Option.some.inj h
    exact .behindRecord (not_diskWorked_concat answers written) split

/-- One operation. -/
theorem reached_step {s : Task Event × Sinks Event} (h : Reached batch before answers s)
    (hstep : writer.step s answer = some s') :
    Reached batch before (answers ++ diskAnswer s answer) s' := by
  cases h with
  | begin => exact reached_of_begin hstep
  | inserting rest => exact reached_of_inserting hstep
  | opening => exact reached_of_opening hstep
  | record worked split => exact reached_of_record worked split hstep
  | newline worked split => exact reached_of_newline worked split hstep
  | committed => cases answer <;> cases hstep
  | logged => cases answer <;> cases hstep
  | refused failed => cases answer <;> cases hstep
  | behindRecord failed split => cases answer <;> cases hstep
  | torn failed split => cases answer <;> cases hstep

end

theorem reached_run {answers : List Answer} {s : Task Event × Sinks Event}
    (h : writer.run (.writeBatch batch, before) answers = some s) :
    Reached batch before (diskAnswers batch before answers) s := by
  refine writer.run_induction (s := (.writeBatch batch, before)) (I := fun answers s =>
    Reached batch before (diskAnswers batch before answers) s) .begin ?_ h
  intro answers s answer s' hrun hreached hstep
  rw [diskAnswers, writer.observations_concat diskAnswer hrun]
  exact reached_step hreached hstep

theorem Reached.batch_eq {answers : List Answer} {s : Task Event × Sinks Event}
    (h : Reached batch before answers s) : s.1.batch = batch := by
  cases h <;> rfl

/-! ## The call comes to an end -/

/-- The operations that a call can still make, at most. -/
def Task.left (t : Task Event) : Nat :=
  match t.pc with
  | .begin => 3 * t.batch.length + 4
  | .inserting rest => rest.length + 2 * t.batch.length + 3
  | .opening => 2 * t.batch.length + 2
  | .record rest => 2 * rest.length + 1
  | .newline rest => 2 * rest.length + 2
  | .finished => 0

/-- Every operation is one less. -/
theorem Task.step_left (t : Task Event) (sinks : Sinks Event) (answer : Answer) :
    t.pc = .finished ∨ ∃ s, t.step sinks answer = some s ∧ s.1.left < t.left := by
  obtain ⟨batch, pc⟩ := t
  cases pc with
  | begin =>
    right
    cases batch <;> cases answer <;> exact ⟨_, rfl, by simp [left]; try omega⟩
  | inserting rest =>
    right
    cases rest <;> cases answer <;> exact ⟨_, rfl, by simp [left]; try omega⟩
  | opening =>
    right
    cases answer <;> exact ⟨_, rfl, by simp [left]⟩
  | record rest =>
    right
    cases rest <;> cases answer <;> exact ⟨_, rfl, by simp [left]; try omega⟩
  | newline rest =>
    right
    cases answer <;> exact ⟨_, rfl, by simp [left]⟩
  | finished => exact Or.inl rfl

/-! ## One sink -/

/-- The lines of some events, and a prefix of the next one. -/
theorem prefix_of_lines (serialize : Event → List UInt8) {done rest : List Event} {e : Event}
    {text : List UInt8} (h : text <+: serialize e) :
    walFile serialize (linesOf done) ++ text <+:
      (done ++ e :: rest).flatMap fun e => serialize e ++ [10] := by
  obtain ⟨tail, htail⟩ := h
  refine ⟨tail ++ [10] ++ rest.flatMap fun e => serialize e ++ [10], ?_⟩
  rw [List.flatMap_append, List.flatMap_cons, walFile_linesOf, ← htail]
  simp only [List.append_assoc]

/-- What a failed append leaves behind some lines. -/
theorem storedPartly_of_prefix {serialize : Event → List UInt8} {done rest : List Event}
    {e : Event} {append : Append Event} (split : batch = done ++ e :: rest)
    (h : append.bytes serialize <+: serialize e) :
    StoredPartly serialize batch before
      { before with wal := before.wal ++ (linesOf done ++ [append]) } := by
  refine ⟨rfl, walFile serialize (linesOf done) ++ append.bytes serialize, ?_, ?_⟩
  · rw [split]
    exact prefix_of_lines serialize h
  · simp [walFile]

/-- Where a call that has returned has left the batch. -/
theorem Reached.stored {answers : List Answer} (serialize : Event → List UInt8)
    (h : Reached batch before answers (⟨batch, .finished⟩, after)) :
    (DiskWorked answers → StoredOnce serialize batch before after) ∧
      (¬ DiskWorked answers → StoredPartly serialize batch before after) := by
  cases h with
  | committed =>
    exact ⟨fun _ => Or.inl ⟨rfl, rfl⟩, fun hfailed => absurd (List.forall_mem_nil _) hfailed⟩
  | logged =>
    have hfile : walFile serialize (before.wal ++ linesOf batch) =
        walFile serialize before.wal ++ batch.flatMap fun e => serialize e ++ [10] := by
      rw [walFile_append, walFile_linesOf]
    exact ⟨fun _ => Or.inr ⟨rfl, hfile⟩, fun _ => ⟨rfl, _, List.prefix_refl _, hfile⟩⟩
  | refused failed =>
    exact ⟨fun hworked => absurd hworked failed,
      fun _ => ⟨rfl, [], List.nil_prefix, (List.append_nil _).symm⟩⟩
  | behindRecord failed split =>
    exact ⟨fun hworked => absurd hworked failed,
      fun _ => storedPartly_of_prefix split (List.prefix_refl _)⟩
  | torn failed split =>
    exact ⟨fun hworked => absurd hworked failed,
      fun _ => storedPartly_of_prefix split (List.take_prefix _ _)⟩

/-- **One sink for every batch.**  For every batch, whatever ClickHouse and the disk answer, the
call comes to an end.  If no operation on the disk has failed, the batch is then in exactly one
place, whole and in order; if one has, nothing of the batch is committed, and the log file has
grown by a prefix of its lines. -/
theorem write_batch_chooses_one_sink (serialize : Event → List UInt8) (batch : List Event)
    (before : Sinks Event) :
    (∀ answers : Nat → Answer, ∃ n after, writer.run (.writeBatch batch, before)
      ((List.range n).map answers) = some (⟨batch, .finished⟩, after)) ∧
    ∀ answers after,
      writer.run (.writeBatch batch, before) answers = some (⟨batch, .finished⟩, after) →
        (DiskWorked (diskAnswers batch before answers) →
          StoredOnce serialize batch before after) ∧
        (¬ DiskWorked (diskAnswers batch before answers) →
          StoredPartly serialize batch before after) := by
  refine ⟨fun answers => ?_, fun answers after hrun => (reached_run hrun).stored serialize⟩
  have hprogress : ∀ (s : Task Event × Sinks Event) answer, s.1.pc = .finished ∨
      ∃ u, writer.step s answer = some u ∧ u.1.left < s.1.left :=
    fun s answer => s.1.step_left s.2 answer
  obtain ⟨n, ⟨t, after⟩, hrun, hfinished⟩ :=
    writer.exists_run_of_rank hprogress (.writeBatch batch, before) answers
  obtain rfl : t = ⟨batch, .finished⟩ := by
    rw [← (reached_run hrun).batch_eq, ← hfinished]
  exact ⟨n, after, hrun⟩

/-- ClickHouse refuses the second of two events, and both are logged. -/
example : writer.run (.writeBatch [1, 2], ⟨[], []⟩)
    [.ok, .ok, .fail 0, .ok, .ok, .ok, .ok, .ok, .ok] =
      some (⟨[1, 2], .finished⟩, ⟨[], [.record 1, .newline, .record 2, .newline]⟩) := by decide

end RustSamples.Siem
