import Mathlib.Data.List.Nodup
import RustSamples.Machine

/-! # The tunnel of `rs_ngrok`

The server accepts one control connection from the client and then, for each visitor of its
public port: writes one trigger byte to the control connection, accepts the next connection
on the control port, and bridges the two.  The client starts a task for each byte it reads;
the task connects to the server and then to the local service.  Neither the byte nor the
connection carries an identifier.

Server, client and the client's tasks run side by side; connections wait in the listeners'
queues, bytes in the control connection, both first in, first out.  Every connect, write and
accept may fail, and the client may end at any time.

Pairing rests on the server's strict alternation (`Paired`): it writes the next trigger only
when the data connection of the last one has been accepted.  So there is never more than one
trigger without a bridge, never more than one task that is still to connect, and never more
than one connection in the queue; a task that fails before it has connected stops the server
for good, but mixes nothing up.

Trigger bytes and visitors are numbered for the statements only.
-/
namespace RustSamples.Ngrok
open Scheduling

/-- Where `run_server` stands. -/
inductive ServerPhase
  | waitingControl
  | acceptingPublic
  /-- before the trigger is written -/
  | notifying (visitor : Nat)
  | acceptingData (visitor : Nat)
  | stopped
  deriving DecidableEq

inductive ClientPhase
  | notConnected
  | reading
  | exited
  deriving DecidableEq

/-- Where a data task of the client stands. -/
inductive TaskPhase
  | connecting
  | connectingLocal
  | bridging
  | returned
  deriving DecidableEq

/-- A task, with the number of the byte it was spawned for. -/
structure Task where
  trigger : Nat
  phase : TaskPhase
  deriving DecidableEq

/-- A connection to the control port: the first one of the client, or that of a task. -/
inductive Connection
  | control
  | data (task : Nat)
  deriving DecidableEq

structure Tunnel where
  server : ServerPhase
  client : ClientPhase
  /-- the visitors so far, and those that wait to be accepted -/
  visitors : Nat
  publicQueue : List Nat
  /-- the visitor of each trigger that was written -/
  triggers : List Nat
  /-- the triggers that the client has not read -/
  inFlight : List Nat
  tasks : List Task
  /-- the connections that wait on the control port -/
  controlQueue : List Connection
  bridged : List (Nat × Connection)
  deriving DecidableEq

inductive Action
  | visit
  | clientConnect
  | acceptControl
  | acceptPublic
  /-- `write_all(&[1])` -/
  | notify (ok : Bool)
  | acceptData
  /-- an `accept` returns an error -/
  | acceptFails
  /-- the client reads a byte and spawns a task -/
  | read
  | connectServer (i : Nat) (ok : Bool)
  | connectLocal (i : Nat) (ok : Bool)
  /-- `run_client` returns, and the process with it -/
  | clientExits
  deriving DecidableEq

namespace Tunnel

def start : Tunnel := ⟨.waitingControl, .notConnected, 0, [], [], [], [], [], []⟩

def onNotify (s : Tunnel) (visitor : Nat) (ok : Bool) : Tunnel :=
  if ok then
    { s with
      server := .acceptingData visitor
      triggers := s.triggers ++ [visitor]
      inFlight := s.inFlight ++ [s.triggers.length] }
  else { s with server := .stopped }

def onAcceptData (s : Tunnel) (visitor : Nat) (c : Connection) : Tunnel :=
  { s with
    server := .acceptingPublic
    controlQueue := s.controlQueue.tail
    bridged := s.bridged ++ [(visitor, c)] }

def onRead (s : Tunnel) (trigger : Nat) : Tunnel :=
  { s with inFlight := s.inFlight.tail, tasks := s.tasks ++ [⟨trigger, .connecting⟩] }

def setTask (s : Tunnel) (i : Nat) (task : Task) (phase : TaskPhase) : Tunnel :=
  { s with tasks := s.tasks.set i { task with phase := phase } }

/-- A task that has connected waits in the queue of the control port. -/
def onConnectServer (s : Tunnel) (i : Nat) (task : Task) (ok : Bool) : Tunnel :=
  if ok then
    { s.setTask i task .connectingLocal with controlQueue := s.controlQueue ++ [.data i] }
  else s.setTask i task .returned

def onClientExits (s : Tunnel) : Tunnel :=
  { s with
    client := .exited
    tasks := s.tasks.map fun task => { task with phase := .returned } }

/-- The visitor that a phase of the server is about. -/
def notifying? (s : Tunnel) : Option Nat :=
  match s.server with
  | .notifying visitor => some visitor
  | _ => none

def acceptingData? (s : Tunnel) : Option Nat :=
  match s.server with
  | .acceptingData visitor => some visitor
  | _ => none

def step (s : Tunnel) : Action → Option Tunnel
  | .visit =>
      some { s with visitors := s.visitors + 1, publicQueue := s.publicQueue ++ [s.visitors] }
  | .clientConnect =>
      if s.client = .notConnected then
        some { s with client := .reading, controlQueue := s.controlQueue ++ [.control] }
      else none
  | .acceptControl =>
      if s.server = .waitingControl then s.controlQueue.head?.map fun _ =>
        { s with server := .acceptingPublic, controlQueue := s.controlQueue.tail }
      else none
  | .acceptPublic =>
      if s.server = .acceptingPublic then s.publicQueue.head?.map fun visitor =>
        { s with server := .notifying visitor, publicQueue := s.publicQueue.tail }
      else none
  | .notify ok => s.notifying?.map fun visitor => s.onNotify visitor ok
  | .acceptData => s.acceptingData?.bind fun visitor =>
      s.controlQueue.head?.map (s.onAcceptData visitor)
  | .acceptFails =>
      if s.notifying?.isNone then some { s with server := .stopped } else none
  | .read => if s.client = .reading then s.inFlight.head?.map s.onRead else none
  | .connectServer i ok => s.tasks[i]?.bind fun task =>
      if task.phase = .connecting then some (s.onConnectServer i task ok) else none
  | .connectLocal i ok => s.tasks[i]?.bind fun task =>
      if task.phase = .connectingLocal then
        some (s.setTask i task (if ok then .bridging else .returned))
      else none
  | .clientExits => if s.client = .reading then some s.onClientExits else none

end Tunnel

def tunnel : Machine Tunnel Action := ⟨Tunnel.step⟩

/-! ## The invariant -/

/-- The queue of the control port holds at most one connection: the client's first one,
before any trigger, or the one that the open trigger asked for. -/
def QueueInOrder (s : Tunnel) : Prop :=
  s.controlQueue = [] ∨
    s.controlQueue = [.control] ∧ s.triggers = [] ∧
      (s.server = .waitingControl ∨ s.server = .stopped) ∨
    s.controlQueue = [.data s.bridged.length] ∧ s.triggers.length = s.bridged.length + 1 ∧
      s.bridged.length < s.tasks.length

/-- The triggers that have no bridge yet, by what the server does. -/
structure Alternates (s : Tunnel) : Prop where
  waiting : s.server = .waitingControl → s.triggers = [] ∧ s.bridged = []
  accepting : s.server = .acceptingPublic → s.triggers.length = s.bridged.length
  notifying : ∀ visitor, s.server = .notifying visitor → s.triggers.length = s.bridged.length
  data : ∀ visitor, s.server = .acceptingData visitor →
    s.triggers.length = s.bridged.length + 1 ∧ s.triggers.getLast? = some visitor
  open_le_one : s.bridged.length ≤ s.triggers.length ∧
    s.triggers.length ≤ s.bridged.length + 1

structure Paired (s : Tunnel) : Prop where
  bridges : ∀ (k : Nat) (p : Nat × Connection), s.bridged[k]? = some p →
    p.2 = .data k ∧ s.triggers[k]? = some p.1
  alternates : Alternates s
  queue : QueueInOrder s
  numbered : s.tasks.map Task.trigger ++ s.inFlight = List.range s.triggers.length
  opened : s.bridged.length ≤ s.tasks.length
  connecting : ∀ i task, s.tasks[i]? = some task → task.phase = .connecting →
    i = s.bridged.length ∧ s.controlQueue = []
  notConnected : s.client = .notConnected → s.triggers = [] ∧ s.controlQueue = [] ∧
    (s.server = .waitingControl ∨ s.server = .stopped)

theorem paired_start : Paired .start where
  bridges k p h := by cases h
  alternates :=
    { waiting := fun _ => ⟨rfl, rfl⟩
      accepting := fun _ => rfl
      notifying := fun _ _ => rfl
      data := fun _ h => by cases h
      open_le_one := ⟨Nat.le_refl _, Nat.zero_le _⟩ }
  queue := Or.inl rfl
  numbered := rfl
  opened := Nat.le_refl _
  connecting i task h := by cases h
  notConnected _ := ⟨rfl, rfl, Or.inl rfl⟩

/-- What a step can do. -/
inductive Tunnel.Step (s : Tunnel) : Action → Tunnel → Prop
  | visit : Step s .visit
      { s with visitors := s.visitors + 1, publicQueue := s.publicQueue ++ [s.visitors] }
  | clientConnect (hc : s.client = .notConnected) : Step s .clientConnect
      { s with client := .reading, controlQueue := s.controlQueue ++ [.control] }
  | acceptControl (hs : s.server = .waitingControl) {c : Connection}
      (hc : s.controlQueue.head? = some c) : Step s .acceptControl
      { s with server := .acceptingPublic, controlQueue := s.controlQueue.tail }
  | acceptPublic (hs : s.server = .acceptingPublic) (visitor : Nat) : Step s .acceptPublic
      { s with server := .notifying visitor, publicQueue := s.publicQueue.tail }
  | notify {visitor : Nat} (hs : s.server = .notifying visitor) (ok : Bool) :
      Step s (.notify ok) (s.onNotify visitor ok)
  | acceptData {visitor : Nat} (hs : s.server = .acceptingData visitor) {c : Connection}
      (hc : s.controlQueue.head? = some c) : Step s .acceptData (s.onAcceptData visitor c)
  | acceptFails : Step s .acceptFails { s with server := .stopped }
  | read (hc : s.client = .reading) {trigger : Nat} (ht : s.inFlight.head? = some trigger) :
      Step s .read (s.onRead trigger)
  | connectServer {i : Nat} {task : Task} (ht : s.tasks[i]? = some task)
      (hp : task.phase = .connecting) (ok : Bool) :
      Step s (.connectServer i ok) (s.onConnectServer i task ok)
  | connectLocal {i : Nat} {task : Task} (ht : s.tasks[i]? = some task) (ok : Bool) :
      Step s (.connectLocal i ok) (s.setTask i task (if ok then .bridging else .returned))
  | clientExits : Step s .clientExits s.onClientExits

theorem notifying?_eq_some {s : Tunnel} {visitor : Nat} (h : s.notifying? = some visitor) :
    s.server = .notifying visitor := by
  unfold Tunnel.notifying? at h
  split at h
  · rename_i heq
    rw [heq, Option.some.inj h]
  · cases h

theorem acceptingData?_eq_some {s : Tunnel} {visitor : Nat} (h : s.acceptingData? = some visitor) :
    s.server = .acceptingData visitor := by
  unfold Tunnel.acceptingData? at h
  split at h
  · rename_i heq
    rw [heq, Option.some.inj h]
  · cases h

theorem step_cases {s t : Tunnel} {a : Action} (h : tunnel.step s a = some t) : s.Step a t := by
  change s.step a = some t at h
  cases a with
  | visit => cases h; exact .visit
  | clientConnect =>
    by_cases hc : s.client = .notConnected
    · rw [Tunnel.step, if_pos hc] at h; cases h; exact .clientConnect hc
    · rw [Tunnel.step, if_neg hc] at h; cases h
  | acceptControl =>
    by_cases hs : s.server = .waitingControl
    · rw [Tunnel.step, if_pos hs] at h
      obtain ⟨c, hc, rfl⟩ := Option.map_eq_some_iff.mp h
      exact .acceptControl hs hc
    · rw [Tunnel.step, if_neg hs] at h; cases h
  | acceptPublic =>
    by_cases hs : s.server = .acceptingPublic
    · rw [Tunnel.step, if_pos hs] at h
      obtain ⟨visitor, -, rfl⟩ := Option.map_eq_some_iff.mp h
      exact .acceptPublic hs visitor
    · rw [Tunnel.step, if_neg hs] at h; cases h
  | notify ok =>
    obtain ⟨visitor, hv, rfl⟩ := Option.map_eq_some_iff.mp h
    exact .notify (notifying?_eq_some hv) ok
  | acceptData =>
    obtain ⟨visitor, hv, h⟩ := Option.bind_eq_some_iff.mp h
    obtain ⟨c, hc, rfl⟩ := Option.map_eq_some_iff.mp h
    exact .acceptData (acceptingData?_eq_some hv) hc
  | acceptFails =>
    by_cases hs : s.notifying?.isNone
    · rw [Tunnel.step, if_pos hs] at h; cases h; exact .acceptFails
    · rw [Tunnel.step, if_neg hs] at h; cases h
  | read =>
    by_cases hc : s.client = .reading
    · rw [Tunnel.step, if_pos hc] at h
      obtain ⟨trigger, ht, rfl⟩ := Option.map_eq_some_iff.mp h
      exact .read hc ht
    · rw [Tunnel.step, if_neg hc] at h; cases h
  | connectServer i ok =>
    obtain ⟨task, ht, h⟩ := Option.bind_eq_some_iff.mp h
    by_cases hp : task.phase = .connecting
    · rw [if_pos hp] at h; cases h; exact .connectServer ht hp ok
    · rw [if_neg hp] at h; cases h
  | connectLocal i ok =>
    obtain ⟨task, ht, h⟩ := Option.bind_eq_some_iff.mp h
    by_cases hp : task.phase = .connectingLocal
    · rw [if_pos hp] at h; cases h; exact .connectLocal ht ok
    · rw [if_neg hp] at h; cases h
  | clientExits =>
    by_cases hc : s.client = .reading
    · rw [Tunnel.step, if_pos hc] at h; cases h; exact .clientExits
    · rw [Tunnel.step, if_neg hc] at h; cases h

/-! ## Every step keeps the pairing -/

/-- The tasks are numbered by the triggers they were spawned for. -/
theorem Paired.trigger_eq {s : Tunnel} (hs : Paired s) {i : Nat} {task : Task}
    (ht : s.tasks[i]? = some task) : task.trigger = i ∧ i < s.triggers.length := by
  have hlen : i < s.tasks.length := (List.getElem?_eq_some_iff.mp ht).1
  have hleft : (s.tasks.map Task.trigger ++ s.inFlight)[i]? = some task.trigger := by
    rw [List.getElem?_append_left (by simpa using hlen), List.getElem?_map, ht]
    rfl
  rw [hs.numbered] at hleft
  obtain ⟨hlt, heq⟩ := List.getElem?_eq_some_iff.mp hleft
  rw [List.getElem_range] at heq
  exact ⟨heq.symm, by simpa using hlt⟩

theorem Paired.tasks_add_inFlight {s : Tunnel} (hs : Paired s) :
    s.tasks.length + s.inFlight.length = s.triggers.length := by
  have h := congrArg List.length hs.numbered
  simpa using h

theorem paired_clientConnect {s : Tunnel} (hs : Paired s) (hc : s.client = .notConnected) :
    Paired { s with client := .reading, controlQueue := s.controlQueue ++ [.control] } := by
  obtain ⟨htriggers, hqueue, hserver⟩ := hs.notConnected hc
  have htasks : s.tasks = [] := by
    have hlen := hs.tasks_add_inFlight
    rw [htriggers, List.length_nil] at hlen
    exact List.length_eq_zero_iff.mp (by omega)
  exact
    { bridges := hs.bridges
      alternates := ⟨hs.alternates.waiting, hs.alternates.accepting, hs.alternates.notifying,
        hs.alternates.data, hs.alternates.open_le_one⟩
      queue := Or.inr (Or.inl ⟨by simp [hqueue], htriggers, hserver⟩)
      numbered := hs.numbered
      opened := hs.opened
      connecting := fun i task ht => by rw [htasks] at ht; cases ht
      notConnected := fun h => by cases h }

/-- In front of the queue of a server that has no open trigger is the control connection. -/
theorem paired_acceptControl {s : Tunnel} (hs : Paired s) (hserver : s.server = .waitingControl)
    {c : Connection} (hc : s.controlQueue.head? = some c) :
    Paired { s with server := .acceptingPublic, controlQueue := s.controlQueue.tail } := by
  obtain ⟨htriggers, hbridged⟩ := hs.alternates.waiting hserver
  have hqueue : s.controlQueue = [.control] := by
    rcases hs.queue with h | ⟨h, -⟩ | ⟨-, hlen, -⟩
    · rw [h] at hc
      cases hc
    · exact h
    · simp [htriggers] at hlen
  exact
    { bridges := hs.bridges
      alternates :=
        { waiting := fun h => by cases h
          accepting := fun _ => by simp [htriggers, hbridged]
          notifying := fun _ h => by cases h
          data := fun _ h => by cases h
          open_le_one := hs.alternates.open_le_one }
      queue := Or.inl (by simp [hqueue])
      numbered := hs.numbered
      opened := hs.opened
      connecting := fun i task ht hp => by
        have hlt := (hs.trigger_eq ht).2
        simp [htriggers] at hlt
      notConnected := fun h => by
        have hnil := (hs.notConnected h).2.1
        rw [hqueue] at hnil
        cases hnil }

/-- A server that is neither waiting for control nor stopped has a client. -/
theorem Paired.connected {s : Tunnel} (hs : Paired s) (hw : s.server ≠ .waitingControl)
    (hst : s.server ≠ .stopped) : s.client ≠ .notConnected := by
  intro h
  rcases (hs.notConnected h).2.2 with h | h
  · exact hw h
  · exact hst h

theorem paired_acceptPublic {s : Tunnel} (hs : Paired s) (hserver : s.server = .acceptingPublic)
    (visitor : Nat) :
    Paired { s with server := .notifying visitor, publicQueue := s.publicQueue.tail } where
  bridges := hs.bridges
  alternates :=
    { waiting := fun h => by cases h
      accepting := fun h => by cases h
      notifying := fun _ _ => hs.alternates.accepting hserver
      data := fun _ h => by cases h
      open_le_one := hs.alternates.open_le_one }
  queue := by
    rcases hs.queue with h | ⟨-, -, h⟩ | h
    · exact Or.inl h
    · simp [hserver] at h
    · exact Or.inr (Or.inr h)
  numbered := hs.numbered
  opened := hs.opened
  connecting := hs.connecting
  notConnected := fun h => absurd h (hs.connected (by simp [hserver]) (by simp [hserver]))

theorem paired_stopped {s : Tunnel} (hs : Paired s) : Paired { s with server := .stopped } where
  bridges := hs.bridges
  alternates :=
    { waiting := fun h => by cases h
      accepting := fun h => by cases h
      notifying := fun _ h => by cases h
      data := fun _ h => by cases h
      open_le_one := hs.alternates.open_le_one }
  queue := by
    rcases hs.queue with h | ⟨h, ht, -⟩ | h
    · exact Or.inl h
    · exact Or.inr (Or.inl ⟨h, ht, Or.inr rfl⟩)
    · exact Or.inr (Or.inr h)
  numbered := hs.numbered
  opened := hs.opened
  connecting := hs.connecting
  notConnected := fun h => ⟨(hs.notConnected h).1, (hs.notConnected h).2.1, Or.inr rfl⟩

/-- A trigger is written when all earlier ones are bridged, so nothing is on its way. -/
theorem paired_notify {s : Tunnel} (hs : Paired s) {visitor : Nat}
    (hserver : s.server = .notifying visitor) (ok : Bool) : Paired (s.onNotify visitor ok) := by
  cases ok with
  | false => exact paired_stopped hs
  | true =>
    have hlen := hs.alternates.notifying visitor hserver
    have hqueue : s.controlQueue = [] := by
      rcases hs.queue with h | ⟨-, -, h⟩ | ⟨-, h, -⟩
      · exact h
      · simp [hserver] at h
      · omega
    refine
      { bridges := fun k p hk => ?_
        alternates :=
          { waiting := fun h => by cases h
            accepting := fun h => by cases h
            notifying := fun _ h => by cases h
            data := fun v h => ?_
            open_le_one := ?_ }
        queue := Or.inl hqueue
        numbered := ?_
        opened := hs.opened
        connecting := hs.connecting
        notConnected := fun h => absurd h (hs.connected (by simp [hserver]) (by simp [hserver])) }
    · obtain ⟨hc, ht⟩ := hs.bridges k p hk
      exact ⟨hc, (List.getElem?_append_left (List.getElem?_eq_some_iff.mp ht).1).trans ht⟩
    · obtain rfl : visitor = v := by simpa [Tunnel.onNotify] using h
      simp [Tunnel.onNotify, hlen]
    · simp only [Tunnel.onNotify, if_true, List.length_append, List.length_singleton]
      omega
    · simp only [Tunnel.onNotify, if_true, List.length_append, List.length_singleton,
        List.range_succ]
      rw [← List.append_assoc, hs.numbered]

/-- The connection in front of the queue is the one the open trigger asked for. -/
theorem paired_acceptData {s : Tunnel} (hs : Paired s) {visitor : Nat}
    (hserver : s.server = .acceptingData visitor) {c : Connection}
    (hc : s.controlQueue.head? = some c) : Paired (s.onAcceptData visitor c) := by
  obtain ⟨hlen, hlast⟩ := hs.alternates.data visitor hserver
  obtain ⟨hqueue, htasks⟩ : s.controlQueue = [.data s.bridged.length] ∧
      s.bridged.length < s.tasks.length := by
    rcases hs.queue with h | ⟨-, -, h⟩ | ⟨h, -, ht⟩
    · rw [h] at hc
      cases hc
    · simp [hserver] at h
    · exact ⟨h, ht⟩
  have hdata : c = .data s.bridged.length := by
    rw [hqueue] at hc
    exact (Option.some.inj hc).symm
  refine
    { bridges := fun k p hk => ?_
      alternates :=
        { waiting := fun h => by cases h
          accepting := fun _ => by simp [Tunnel.onAcceptData, hlen]
          notifying := fun _ h => by cases h
          data := fun _ h => by cases h
          open_le_one := by simp [Tunnel.onAcceptData, hlen] }
      queue := Or.inl (by simp [Tunnel.onAcceptData, hqueue])
      numbered := hs.numbered
      opened := by simpa [Tunnel.onAcceptData] using Nat.succ_le_of_lt htasks
      connecting := fun i task ht hp => ?_
      notConnected := fun h => absurd h (hs.connected (by simp [hserver]) (by simp [hserver])) }
  · change (s.bridged ++ [(visitor, c)])[k]? = some p at hk
    rcases getElem?_concat_cases hk with hk | ⟨rfl, rfl⟩
    · exact hs.bridges k p hk
    · refine ⟨hdata, ?_⟩
      rw [List.getLast?_eq_getElem?, hlen] at hlast
      exact hlast
  · have hnil := (hs.connecting i task ht hp).2
    rw [hqueue] at hnil
    cases hnil

/-- A byte that is read is the open trigger, and its task is the first that can connect. -/
theorem paired_read {s : Tunnel} (hs : Paired s) (hclient : s.client = .reading) {trigger : Nat}
    (ht : s.inFlight.head? = some trigger) : Paired (s.onRead trigger) := by
  obtain ⟨rest, hrest⟩ := List.head?_eq_some_iff.mp ht
  have hlen := hs.tasks_add_inFlight
  have hopen := hs.alternates.open_le_one
  have hopened := hs.opened
  rw [hrest, List.length_cons] at hlen
  have hqueue : s.controlQueue = [] := by
    rcases hs.queue with h | ⟨-, h, -⟩ | ⟨-, -, h⟩
    · exact h
    · rw [h, List.length_nil] at hlen
      omega
    · omega
  refine
    { bridges := hs.bridges
      alternates := ⟨hs.alternates.waiting, hs.alternates.accepting, hs.alternates.notifying,
        hs.alternates.data, hs.alternates.open_le_one⟩
      queue := Or.inl hqueue
      numbered := ?_
      opened := by simp only [Tunnel.onRead, List.length_append]; omega
      connecting := fun i task hi hp => ?_
      notConnected := fun h => by
        change s.client = .notConnected at h
        rw [hclient] at h
        cases h }
  · have hnum := hs.numbered
    rw [hrest] at hnum
    simpa [Tunnel.onRead, hrest] using hnum
  · refine ⟨?_, hqueue⟩
    change (s.tasks ++ [⟨trigger, .connecting⟩])[i]? = some task at hi
    change i = s.bridged.length
    by_cases hlt : i < s.tasks.length
    · rw [List.getElem?_append_left hlt] at hi
      exact (hs.connecting i task hi hp).1
    · have hlast := (List.getElem?_eq_some_iff.mp hi).1
      rw [List.length_append, List.length_singleton] at hlast
      omega

theorem map_trigger_set {tasks : List Task} {i : Nat} {task : Task} (ht : tasks[i]? = some task)
    (phase : TaskPhase) :
    (tasks.set i { task with phase := phase }).map Task.trigger = tasks.map Task.trigger := by
  obtain ⟨hi, rfl⟩ := List.getElem?_eq_some_iff.mp ht
  rw [List.map_set]
  have hself : (tasks.map Task.trigger)[i]? = some tasks[i].trigger := by simp [hi]
  obtain ⟨hi', heq⟩ := List.getElem?_eq_some_iff.mp hself
  rw [← heq, List.set_getElem_self]

/-- A task that moves on without connecting leaves the pairing alone. -/
theorem paired_setTask {s : Tunnel} (hs : Paired s) {i : Nat} {task : Task}
    (ht : s.tasks[i]? = some task) {phase : TaskPhase} (hphase : phase ≠ .connecting) :
    Paired (s.setTask i task phase) where
  bridges := hs.bridges
  alternates := ⟨hs.alternates.waiting, hs.alternates.accepting, hs.alternates.notifying,
    hs.alternates.data, hs.alternates.open_le_one⟩
  queue := by
    rcases hs.queue with h | h | ⟨h, hlen, hlt⟩
    · exact Or.inl h
    · exact Or.inr (Or.inl h)
    · exact Or.inr (Or.inr ⟨h, hlen, by simpa [Tunnel.setTask] using hlt⟩)
  numbered := by
    change (s.tasks.set i { task with phase := phase }).map Task.trigger ++ s.inFlight = _
    rw [map_trigger_set ht]
    exact hs.numbered
  opened := by simpa [Tunnel.setTask] using hs.opened
  connecting := by
    intro j other hj hp
    rcases getElem?_set_cases hj with ⟨-, rfl⟩ | ⟨-, hold⟩
    · exact absurd hp hphase
    · exact hs.connecting j other hold hp
  notConnected := hs.notConnected

/-- The task that connects is the one of the open trigger. -/
theorem paired_connectServer {s : Tunnel} (hs : Paired s) {i : Nat} {task : Task}
    (ht : s.tasks[i]? = some task) (hp : task.phase = .connecting) (ok : Bool) :
    Paired (s.onConnectServer i task ok) := by
  cases ok with
  | false => exact paired_setTask hs ht (by simp)
  | true =>
    have hset : Paired (s.setTask i task .connectingLocal) := paired_setTask hs ht (by simp)
    obtain ⟨hi, hqueue⟩ := hs.connecting i task ht hp
    have hlt := (hs.trigger_eq ht).2
    have hopen := hs.alternates.open_le_one
    have hlen : i < s.tasks.length := (List.getElem?_eq_some_iff.mp ht).1
    refine
      { bridges := hset.bridges
        alternates := ⟨hset.alternates.waiting, hset.alternates.accepting,
          hset.alternates.notifying, hset.alternates.data, hset.alternates.open_le_one⟩
        queue := Or.inr (Or.inr
          ⟨by simp [Tunnel.onConnectServer, Tunnel.setTask, hqueue, hi], ?_, ?_⟩)
        numbered := hset.numbered
        opened := hset.opened
        connecting := fun j other hj hp' => ?_
        notConnected := fun h => ?_ }
    · change s.triggers.length = s.bridged.length + 1
      omega
    · simpa [Tunnel.onConnectServer, Tunnel.setTask, ← hi] using hlen
    · -- no other task is connecting, and this one no longer is
      rcases getElem?_set_cases hj with ⟨-, rfl⟩ | ⟨hne, hold⟩
      · cases hp'
      · exact absurd ((hs.connecting j other hold hp').1.trans hi.symm) hne
    · have hnil := (hs.notConnected h).1
      rw [hnil] at hlt
      cases hlt

theorem paired_clientExits {s : Tunnel} (hs : Paired s) : Paired s.onClientExits where
  bridges := hs.bridges
  alternates := ⟨hs.alternates.waiting, hs.alternates.accepting, hs.alternates.notifying,
    hs.alternates.data, hs.alternates.open_le_one⟩
  queue := by
    rcases hs.queue with h | h | ⟨h, hlen, hlt⟩
    · exact Or.inl h
    · exact Or.inr (Or.inl h)
    · exact Or.inr (Or.inr ⟨h, hlen, by simpa [Tunnel.onClientExits] using hlt⟩)
  numbered := by
    have hmap : s.onClientExits.tasks.map Task.trigger = s.tasks.map Task.trigger := by
      simp [Tunnel.onClientExits, Function.comp_def]
    rw [hmap]
    exact hs.numbered
  opened := by simpa [Tunnel.onClientExits] using hs.opened
  connecting := by
    intro i task hi hp
    obtain ⟨old, -, rfl⟩ :
        ∃ old, s.tasks[i]? = some old ∧ { old with phase := .returned } = task := by
      simpa [Tunnel.onClientExits] using hi
    cases hp
  notConnected := fun h => by cases h

theorem paired_step {s t : Tunnel} {a : Action} (hs : Paired s) (h : tunnel.step s a = some t) :
    Paired t := by
  cases step_cases h with
  | visit => exact ⟨hs.bridges, ⟨hs.alternates.waiting, hs.alternates.accepting,
      hs.alternates.notifying, hs.alternates.data, hs.alternates.open_le_one⟩, hs.queue,
      hs.numbered, hs.opened, hs.connecting, hs.notConnected⟩
  | clientConnect hc => exact paired_clientConnect hs hc
  | acceptControl hserver hc => exact paired_acceptControl hs hserver hc
  | acceptPublic hserver visitor => exact paired_acceptPublic hs hserver visitor
  | notify hserver ok => exact paired_notify hs hserver ok
  | acceptData hserver hc => exact paired_acceptData hs hserver hc
  | acceptFails => exact paired_stopped hs
  | read hclient ht => exact paired_read hs hclient ht
  | connectServer ht hp ok => exact paired_connectServer hs ht hp ok
  | connectLocal ht ok => exact paired_setTask hs ht (by cases ok <;> simp)
  | clientExits => exact paired_clientExits hs

theorem paired_run {as : List Action} {s : Tunnel} (h : tunnel.run .start as = some s) :
    Paired s :=
  tunnel.run_invariant (I := Paired) (fun _ _ _ hs ha => paired_step hs ha) paired_start h

/-- **Pairing.**  In every state that server and client can reach, the `k`-th bridge joins the
visitor for whom the `k`-th trigger was written with the data connection of the task that
was spawned for the `k`-th trigger; no data connection is bridged twice; and at most one
trigger that was written is without its bridge. -/
theorem visitors_meet_their_tasks {as : List Action} {s : Tunnel}
    (h : tunnel.run .start as = some s) :
    (∀ (k : Nat) (p : Nat × Connection), s.bridged[k]? = some p →
      p.2 = .data k ∧ s.triggers[k]? = some p.1 ∧
        ∃ task, s.tasks[k]? = some task ∧ task.trigger = k) ∧
    (s.bridged.map Prod.snd).Nodup ∧
    s.triggers.length ≤ s.bridged.length + 1 := by
  have hs := paired_run h
  refine ⟨fun k p hk => ?_, ?_, hs.alternates.open_le_one.2⟩
  · obtain ⟨hdata, htrigger⟩ := hs.bridges k p hk
    have hlt : k < s.tasks.length :=
      Nat.lt_of_lt_of_le (List.getElem?_eq_some_iff.mp hk).1 hs.opened
    have htask := List.getElem?_eq_getElem hlt
    exact ⟨hdata, htrigger, _, htask, (hs.trigger_eq htask).1⟩
  · have heq : s.bridged.map Prod.snd = (List.range s.bridged.length).map Connection.data := by
      refine List.ext_getElem (by simp) fun k hk hk' => ?_
      have hlt : k < s.bridged.length := by simpa using hk
      simpa using (hs.bridges k _ (List.getElem?_eq_getElem hlt)).1
    rw [heq]
    refine List.Nodup.map (fun i j hij => ?_) List.nodup_range
    exact Connection.data.inj hij

/-- Two visitors.  The first task reaches the local service; the second connects to the
server and then fails. -/
def twoVisitors : List Action :=
  [.clientConnect, .acceptControl, .visit, .visit, .acceptPublic, .notify true, .read,
    .connectServer 0 true, .acceptData, .acceptPublic, .connectLocal 0 true, .notify true, .read,
    .connectServer 1 true, .connectLocal 1 false, .acceptData]

theorem twoVisitors_meet_their_tasks :
    ∃ s, tunnel.run .start twoVisitors = some s ∧
      s.bridged = [(0, .data 0), (1, .data 1)] ∧ (s.bridged.map Prod.snd).Nodup ∧
      s.triggers.length ≤ s.bridged.length + 1 := by
  have hrun : tunnel.run .start twoVisitors =
      some ⟨.acceptingPublic, .reading, 2, [], [0, 1], [], [⟨0, .bridging⟩, ⟨1, .returned⟩], [],
        [(0, .data 0), (1, .data 1)]⟩ := by decide
  exact ⟨_, hrun, rfl, (visitors_meet_their_tasks hrun).2⟩

end RustSamples.Ngrok
