import Mathlib.Algebra.Order.Group.Multiset
import Mathlib.Tactic.Abel
import RustSamples.SiemProcessor

/-! # Where the events are when `siem_clickhouse_processor` exits

The whole service: the generator and its channel, the `BatchManager`, the
`write_batch` tasks it spawned, and `main`, which returns once the generator and
the manager have.  Every interleaving of these is a schedule, and so is every
pattern of ClickHouse failures; the local disk is taken to work, and an insert to
commit nothing unless its `end` succeeds.

Events are conserved (`accounted_run`): the events sent are those in the channel,
in the manager's hands, owed by a task, committed, or logged.  When `main` returns
the channel and the manager are empty, but nobody has waited for the spawned
tasks: what they still owe is cancelled with them.
-/
namespace RustSamples.Siem
open Scheduling

variable {Event : Type}

/-- Where `BatchManager::run` stands: in its loop, in the `write_batch` it awaits
after the channel has closed, or returned. -/
inductive ManagerPc (Event : Type)
  | looping (buffer : List Event)
  | flushing (task : Task Event)
  | returned

/-- The state of the service.  `senderAlive`: the generator has not returned;
`exited`: `main` has. -/
structure Service (Event : Type) where
  channel : List Event
  senderAlive : Bool
  manager : ManagerPc Event
  tasks : List (Task Event)
  sinks : Sinks Event
  exited : Bool

/-- `main` after its two `spawn`s. -/
def Service.start : Service Event := ⟨[], true, .looping [], [], ⟨[], []⟩, false⟩

/-- The capacity of the channel. -/
def channelCapacity : Nat := 100

inductive ServiceAction (Event : Type)
  /-- The generator sends an event. -/
  | send (e : Event)
  /-- The generator returns, and with it the only sender goes. -/
  | dropSender
  | receive
  | timer
  | closed
  /-- The awaited `write_batch` makes an operation. -/
  | flush (answer : Answer)
  /-- Spawned task `i` makes an operation. -/
  | write (i : Nat) (answer : Answer)
  /-- `main` returns; the runtime drops the tasks that are left. -/
  | exit

/-- A task's operation, on a disk that works. -/
def Task.stepOnWorkingDisk (sinks : Sinks Event) (t : Task Event) (answer : Answer) :
    Option (Task Event × Sinks Event) :=
  if t.onDisk && decide (answer ≠ .ok) then none else t.step sinks answer

/-- The manager back in its loop, with the batch it handed over spawned. -/
def Service.spawn (s : Service Event) (r : List Event × Option (List Event)) : Service Event :=
  { s with manager := .looping r.1, tasks := s.tasks ++ r.2.toList.map Task.writeBatch }

def Service.step (maxBatchSize : Nat) (s : Service Event) : ServiceAction Event →
    Option (Service Event)
  | .send e =>
      if s.senderAlive && decide (s.channel.length < channelCapacity) then
        some { s with channel := s.channel ++ [e] }
      else none
  | .dropSender => if s.senderAlive then some { s with senderAlive := false } else none
  | .receive =>
      match s.manager, s.channel with
      | .looping buffer, e :: rest =>
          some ({ s with channel := rest }.spawn (onEvent maxBatchSize buffer e))
      | _, _ => none
  | .timer =>
      match s.manager with
      | .looping buffer => some (s.spawn (onTimer buffer))
      | _ => none
  | .closed =>
      match s.manager, s.channel, s.senderAlive with
      | .looping buffer, [], false =>
          match onClosed buffer with
          | some batch => some { s with manager := .flushing (.writeBatch batch) }
          | none => some { s with manager := .returned }
      | _, _, _ => none
  | .flush answer =>
      match s.manager with
      | .flushing t =>
          (t.stepOnWorkingDisk s.sinks answer).map fun r =>
            { s with
              manager := if r.1.pc matches .finished then .returned else .flushing r.1
              sinks := r.2 }
      | _ => none
  | .write i answer =>
      s.tasks[i]?.bind fun t => (t.stepOnWorkingDisk s.sinks answer).map fun r =>
        { s with tasks := s.tasks.set i r.1, sinks := r.2 }
  | .exit =>
      match s.senderAlive, s.manager with
      | false, .returned => some { s with exited := true }
      | _, _ => none

/-- The service; nothing happens after `main` has returned. -/
def service (maxBatchSize : Nat) : Machine (Service Event) (ServiceAction Event) :=
  ⟨fun s a => if s.exited then none else s.step maxBatchSize a⟩

/-- The events sent in a run. -/
def sent (actions : List (ServiceAction Event)) : List Event :=
  actions.filterMap fun
    | .send e => some e
    | _ => none

/-! ## Conservation of events -/

/-- The events a task has not yet brought to a sink. -/
def Task.owed (t : Task Event) : List Event :=
  match t.pc with
  | .begin | .inserting _ | .opening => t.batch
  | .record rest | .newline rest => rest
  | .finished => []

/-- The events whose record is in the log file. -/
def logged (wal : List (Append Event)) : List Event :=
  wal.filterMap fun
    | .record e => some e
    | _ => none

@[simp] theorem logged_append (wal wal' : List (Append Event)) :
    logged (wal ++ wal') = logged wal ++ logged wal' := List.filterMap_append

/-- The events committed or logged. -/
def Sinks.stored (sinks : Sinks Event) : Multiset Event := sinks.committed + logged sinks.wal

/-- The events the manager holds. -/
def ManagerPc.held : ManagerPc Event → List Event
  | .looping buffer => buffer
  | .flushing t => t.owed
  | .returned => []

/-- The events all the spawned tasks owe. -/
def owedByTasks (tasks : List (Task Event)) : Multiset Event :=
  (tasks.map fun t => (t.owed : Multiset Event)).sum

/-- What one operation moves: nothing, the whole batch into ClickHouse, or the
first event still owed into the log. -/
theorem Task.step_cases {sinks sinks' : Sinks Event} {t t' : Task Event} {answer : Answer}
    (h : t.stepOnWorkingDisk sinks answer = some (t', sinks')) :
    (t'.owed = t.owed ∧ sinks'.committed = sinks.committed ∧
        logged sinks'.wal = logged sinks.wal) ∨
      (t'.owed = [] ∧ sinks' = { sinks with committed := sinks.committed ++ t.owed }) ∨
      ∃ e, t.owed = e :: t'.owed ∧ sinks' = { sinks with wal := sinks.wal ++ [.record e] } := by
  obtain ⟨batch, pc⟩ := t
  cases pc with
  | begin =>
    left
    cases answer <;> obtain ⟨rfl, rfl⟩ := Prod.mk.inj (Option.some.inj h) <;>
      cases batch <;> exact ⟨rfl, rfl, rfl⟩
  | inserting rest =>
    cases rest with
    | cons _ _ =>
      left
      cases answer <;> obtain ⟨rfl, rfl⟩ := Prod.mk.inj (Option.some.inj h) <;>
        exact ⟨rfl, rfl, rfl⟩
    | nil =>
      cases answer <;> obtain ⟨rfl, rfl⟩ := Prod.mk.inj (Option.some.inj h)
      · exact Or.inr (Or.inl ⟨rfl, rfl⟩)
      · exact Or.inl ⟨rfl, rfl, rfl⟩
  | finished => cases answer <;> cases h
  -- on disk only the answer `ok` is possible
  | opening =>
    cases answer with
    | fail _ => cases h
    | ok =>
      obtain ⟨rfl, rfl⟩ := Prod.mk.inj (Option.some.inj h)
      exact Or.inl ⟨rfl, rfl, rfl⟩
  | record rest =>
    cases answer with
    | fail _ => cases h
    | ok =>
      cases rest with
      | nil =>
        obtain ⟨rfl, rfl⟩ := Prod.mk.inj (Option.some.inj h)
        exact Or.inl ⟨rfl, rfl, rfl⟩
      | cons e rest =>
        obtain ⟨rfl, rfl⟩ := Prod.mk.inj (Option.some.inj h)
        exact Or.inr (Or.inr ⟨e, rfl, rfl⟩)
  | newline rest =>
    cases answer with
    | fail _ => cases h
    | ok =>
      obtain ⟨rfl, rfl⟩ := Prod.mk.inj (Option.some.inj h)
      exact Or.inl ⟨rfl, rfl, by simp [logged]⟩

/-- A task moves events from what it owes to the sinks and loses none. -/
theorem Task.step_conserves {sinks sinks' : Sinks Event} {t t' : Task Event} {answer : Answer}
    (h : t.stepOnWorkingDisk sinks answer = some (t', sinks')) :
    (t'.owed : Multiset Event) + sinks'.stored = t.owed + sinks.stored := by
  rcases t.step_cases h with ⟨howed, hcom, hlog⟩ | ⟨howed, rfl⟩ | ⟨e, howed, rfl⟩
  · rw [howed, Sinks.stored, hcom, hlog]; rfl
  · rw [howed, Multiset.coe_nil, Sinks.stored, Sinks.stored, ← Multiset.coe_add]
    abel
  · have hlog : logged [Append.record e] = [e] := rfl
    rw [howed, Sinks.stored, Sinks.stored, logged_append, hlog, ← Multiset.coe_add,
      ← Multiset.cons_coe e t'.owed, ← Multiset.singleton_add, Multiset.coe_singleton]
    abel

theorem owedByTasks_append (tasks tasks' : List (Task Event)) :
    owedByTasks (tasks ++ tasks') = owedByTasks tasks + owedByTasks tasks' := by
  simp [owedByTasks]

/-- Task `i` moves on: its share of what is owed changes and no other. -/
theorem owedByTasks_set {tasks : List (Task Event)} {i : Nat} {t : Task Event}
    (h : tasks[i]? = some t) (t' : Task Event) :
    owedByTasks (tasks.set i t') + t.owed = owedByTasks tasks + t'.owed :=
  sum_map_set (fun t => (t.owed : Multiset Event)) h t'

/-- A batch that is spawned is owed by its task, and by nobody else. -/
theorem owedByTasks_spawn (handed : Option (List Event)) :
    owedByTasks (handed.toList.map Task.writeBatch) = handed.toList.flatten := by
  cases handed with
  | none => rfl
  | some batch => simp [owedByTasks, Task.writeBatch, Task.owed]

/-- The books of the service: every event sent is in exactly one place, and the
channel is closed and empty once the manager has left its loop. -/
structure Accounted (events : List Event) (s : Service Event) : Prop where
  balance : (events : Multiset Event) =
    s.channel + s.manager.held + owedByTasks s.tasks + s.sinks.stored
  drained : (∀ buffer, s.manager ≠ .looping buffer) → s.senderAlive = false ∧ s.channel = []
  joined : s.exited → s.manager = .returned

theorem accounted_spawn {events : List Event} {s : Service Event} (channel' : List Event)
    {r : List Event × Option (List Event)} (hexit : s.exited = false)
    (hbal : (events : Multiset Event) =
      channel' + (r.2.toList.flatten ++ r.1 : List Event) + owedByTasks s.tasks + s.sinks.stored) :
    Accounted events ({ s with channel := channel' }.spawn r) where
  balance := by
    rw [hbal]
    simp only [Service.spawn, ManagerPc.held, owedByTasks_append, owedByTasks_spawn,
      ← Multiset.coe_add]
    abel
  drained := fun h => absurd rfl (h r.1)
  joined := fun h => by simp [Service.spawn, hexit] at h

theorem accounted_send {events : List Event} {s : Service Event} (hs : Accounted events s)
    (hopen : s.senderAlive = true) (e : Event) :
    Accounted (events ++ [e]) { s with channel := s.channel ++ [e] } where
  balance := by
    show ((events ++ [e] : List Event) : Multiset Event) =
      (s.channel ++ [e] : List Event) + s.manager.held + owedByTasks s.tasks + s.sinks.stored
    rw [← Multiset.coe_add, ← Multiset.coe_add, hs.balance]
    abel
  drained := fun hl => absurd ((hs.drained hl).1.symm.trans hopen) (by simp)
  joined := hs.joined

theorem accounted_flush {events : List Event} {s : Service Event} (hs : Accounted events s)
    (hexit : s.exited = false) {t t' : Task Event} {sinks' : Sinks Event} {answer : Answer}
    (hman : s.manager = .flushing t) (h : t.stepOnWorkingDisk s.sinks answer = some (t', sinks')) :
    Accounted events { s with
      manager := if t'.pc matches .finished then .returned else .flushing t'
      sinks := sinks' } where
  balance := by
    have hheld : (if t'.pc matches .finished then ManagerPc.returned else .flushing t').held =
        t'.owed := by
      split
      · cases hpc : t'.pc <;> simp_all [ManagerPc.held, Task.owed]
      · rfl
    calc (events : Multiset Event)
        = s.channel + owedByTasks s.tasks + (t.owed + s.sinks.stored) := by
          rw [hs.balance, hman, ManagerPc.held]; abel
      _ = s.channel + t'.owed + owedByTasks s.tasks + sinks'.stored := by
          rw [← Task.step_conserves h]; abel
      _ = _ := by rw [← hheld]
  drained := fun _ => hs.drained (by simp [hman])
  joined := fun he => by simp [hexit] at he

theorem accounted_write {events : List Event} {s : Service Event} (hs : Accounted events s)
    {i : Nat} {t t' : Task Event} {sinks' : Sinks Event} {answer : Answer}
    (ht : s.tasks[i]? = some t) (h : t.stepOnWorkingDisk s.sinks answer = some (t', sinks')) :
    Accounted events { s with tasks := s.tasks.set i t', sinks := sinks' } where
  balance := by
    -- what task `i` no longer owes is what the sinks gained
    have hkey : owedByTasks (s.tasks.set i t') + sinks'.stored =
        owedByTasks s.tasks + s.sinks.stored := by
      refine add_right_cancel (b := (t.owed : Multiset Event)) ?_
      calc owedByTasks (s.tasks.set i t') + sinks'.stored + t.owed
          = owedByTasks (s.tasks.set i t') + t.owed + sinks'.stored := by abel
        _ = owedByTasks s.tasks + (t'.owed + sinks'.stored) := by
            rw [owedByTasks_set ht t']; abel
        _ = owedByTasks s.tasks + s.sinks.stored + t.owed := by
            rw [Task.step_conserves h]; abel
    rw [hs.balance, add_assoc, ← hkey, ← add_assoc]
  drained := hs.drained
  joined := hs.joined

theorem accounted_closed {events : List Event} {s : Service Event} (hs : Accounted events s)
    (hexit : s.exited = false) {buffer : List Event} (hman : s.manager = .looping buffer)
    (hchan : s.channel = []) (hdead : s.senderAlive = false) {manager' : ManagerPc Event}
    (hheld : manager'.held = buffer) : Accounted events { s with manager := manager' } where
  balance := by rw [hs.balance, hman, ManagerPc.held, hheld]
  drained := fun _ => ⟨hdead, hchan⟩
  joined := fun he => by simp [hexit] at he

/-- Every step keeps the books. -/
theorem accounted_step {maxBatchSize : Nat} {actions : List (ServiceAction Event)}
    {s u : Service Event} {a : ServiceAction Event} (hs : Accounted (sent actions) s)
    (h : (service maxBatchSize).step s a = some u) : Accounted (sent (actions ++ [a])) u := by
  have hexit : s.exited = false := by
    cases he : s.exited with
    | false => rfl
    | true => simp [service, he] at h
  replace h : s.step maxBatchSize a = some u := by simpa [service, hexit] using h
  rw [show sent (actions ++ [a]) = sent actions ++ sent [a] from List.filterMap_append]
  -- all actions but `send` leave the list of events as it is
  have hsilent (hs' : Accounted (sent actions) u) (ha : sent [a] = []) :
      Accounted (sent actions ++ sent [a]) u := by rw [ha, List.append_nil]; exact hs'
  unfold Service.step at h
  cases a with
  | send e =>
    simp only at h
    split at h
    · rename_i hopen
      obtain rfl := Option.some.inj h
      simp only [Bool.and_eq_true] at hopen
      exact accounted_send hs hopen.1 e
    · cases h
  | dropSender =>
    refine hsilent ?_ rfl
    simp only at h
    split at h
    · obtain rfl := Option.some.inj h
      exact ⟨hs.balance, fun hl => ⟨rfl, (hs.drained hl).2⟩, hs.joined⟩
    · cases h
  | receive =>
    refine hsilent ?_ rfl
    simp only at h
    split at h
    · rename_i buffer e rest hman hchan
      obtain rfl := Option.some.inj h
      have hflat := (onEvent_spec (Prod.eta (onEvent maxBatchSize buffer e)).symm).1
      refine accounted_spawn rest hexit ?_
      rw [hflat, hs.balance, hman, hchan, ManagerPc.held, ← Multiset.coe_add,
        ← Multiset.cons_coe e rest, ← Multiset.singleton_add, Multiset.coe_singleton]
      abel
    · cases h
  | timer =>
    refine hsilent ?_ rfl
    simp only at h
    split at h
    · rename_i buffer hman
      obtain rfl := Option.some.inj h
      have hflat := (onTimer_spec (Prod.eta (onTimer buffer)).symm).1
      refine accounted_spawn s.channel hexit ?_
      rw [hflat, hs.balance, hman, ManagerPc.held]
    · cases h
  | closed =>
    refine hsilent ?_ rfl
    simp only at h
    split at h
    · rename_i buffer hman hchan hdead
      have hflat := (onClosed_spec buffer).1
      split at h
      · rename_i batch hbatch
        obtain rfl := Option.some.inj h
        rw [hbatch] at hflat
        exact accounted_closed hs hexit hman hchan hdead
          (by simpa [ManagerPc.held, Task.writeBatch, Task.owed] using hflat)
      · rename_i hnone
        obtain rfl := Option.some.inj h
        rw [hnone] at hflat
        exact accounted_closed hs hexit hman hchan hdead hflat
    · cases h
  | flush answer =>
    refine hsilent ?_ rfl
    simp only at h
    split at h
    · rename_i t hman
      obtain ⟨⟨t', sinks'⟩, hstep, rfl⟩ := Option.map_eq_some_iff.mp h
      exact accounted_flush hs hexit hman hstep
    · cases h
  | write i answer =>
    refine hsilent ?_ rfl
    obtain ⟨t, ht, hwrite⟩ := Option.bind_eq_some_iff.mp h
    obtain ⟨⟨t', sinks'⟩, hstep, rfl⟩ := Option.map_eq_some_iff.mp hwrite
    exact accounted_write hs ht hstep
  | exit =>
    refine hsilent ?_ rfl
    simp only at h
    split at h
    · rename_i hman
      obtain rfl := Option.some.inj h
      exact ⟨hs.balance, hs.drained, fun _ => hman⟩
    · cases h

/-- **Events are conserved** in every run. -/
theorem accounted_run {maxBatchSize : Nat} {actions : List (ServiceAction Event)}
    {s : Service Event} (h : (service maxBatchSize).run .start actions = some s) :
    Accounted (sent actions) s :=
  (service maxBatchSize).run_induction (I := fun done t => Accounted (sent done) t)
    ⟨rfl, fun hl => absurd rfl (hl []), fun he => by cases he⟩
    (fun _ _ _ _ _ ht hs => accounted_step ht hs) h

theorem owedByTasks_eq_zero {tasks : List (Task Event)} :
    owedByTasks tasks = 0 ↔ ∀ t ∈ tasks, t.owed = [] := by
  induction tasks with
  | nil => simp [owedByTasks]
  | cons t tasks ih =>
    have hcons : owedByTasks (t :: tasks) = t.owed + owedByTasks tasks := rfl
    rw [hcons, ← Multiset.card_eq_zero, Multiset.card_add, Nat.add_eq_zero_iff,
      Multiset.card_eq_zero, Multiset.card_eq_zero, ih, Multiset.coe_eq_zero, List.forall_mem_cons]

/-- **When nothing is lost.**  Take any run up to the point where `main` returns.
All events sent are in ClickHouse or in the log exactly when no spawned task still
owes one: each has had its `end` succeed or has appended all its records. -/
theorem nothing_lost_iff {maxBatchSize : Nat} {actions : List (ServiceAction Event)}
    {s s' : Service Event} (hrun : (service maxBatchSize).run .start actions = some s)
    (hexit : (service maxBatchSize).step s .exit = some s') :
    (sent actions : Multiset Event) ≤ s'.sinks.committed + logged s'.sinks.wal ↔
      ∀ t ∈ s.tasks, t.owed = [] := by
  have hacc := accounted_run hrun
  have hret : s.manager = .returned ∧ s'.sinks = s.sinks := by
    simp only [service, Service.step] at hexit
    split at hexit
    · cases hexit
    · split at hexit
      · rename_i hman
        obtain rfl := Option.some.inj hexit
        exact ⟨hman, rfl⟩
      · cases hexit
  obtain ⟨hman, hsinks⟩ := hret
  obtain ⟨-, hchan⟩ := hacc.drained (by simp [hman])
  have hbal : (sent actions : Multiset Event) = owedByTasks s.tasks + s.sinks.stored := by
    rw [hacc.balance, hman, hchan]
    simp [ManagerPc.held]
  rw [hsinks, ← Sinks.stored, hbal, add_le_iff_nonpos_left, Multiset.le_zero,
    owedByTasks_eq_zero]

/-- A run in which the timer's batch is committed before `main` returns. -/
def patientRun : List (ServiceAction Nat) :=
  [.send 1, .receive, .timer, .write 0 .ok, .write 0 .ok, .write 0 .ok,
    .dropSender, .closed]

/-- The same run when the spawned task is not scheduled before `main` returns. -/
def hastyRun : List (ServiceAction Nat) := [.send 1, .receive, .timer, .dropSender, .closed]

theorem nothing_lost_patientRun :
    ∃ s s', (service 20).run .start patientRun = some s ∧ (service 20).step s .exit = some s' ∧
      (sent patientRun : Multiset Nat) ≤ s'.sinks.committed + logged s'.sinks.wal := by
  obtain ⟨s, s', hrun, hexit, howed⟩ : ∃ s s', (service 20).run .start patientRun = some s ∧
      (service 20).step s .exit = some s' ∧ ∀ t ∈ s.tasks, t.owed = [] :=
    ⟨_, _, rfl, rfl, by decide⟩
  exact ⟨s, s', hrun, hexit, (nothing_lost_iff hrun hexit).mpr howed⟩

/-- **An event can be lost on exit**, with ClickHouse and the disk both up: the
task that holds it is cancelled. -/
theorem event_lost_hastyRun :
    ∃ s s', (service 20).run .start hastyRun = some s ∧ (service 20).step s .exit = some s' ∧
      1 ∈ sent hastyRun ∧ 1 ∉ s'.sinks.committed ∧ 1 ∉ logged s'.sinks.wal :=
  ⟨_, _, rfl, rfl, by decide, by decide, by decide⟩

end RustSamples.Siem
