import Mathlib.Data.List.AList
import Mathlib.Logic.Function.Basic
import RustSamples.Machine

/-! # The nodes of `hl_websocket_server`

A node accepts connections, numbers them with its own counter and runs two tasks for
each: `handle_connection`, which registers the session, sends the Welcome frame and reads,
and the write task, which sends what other tasks queue for the client.  A third task
listens to Redis and hands every message to the sessions of its node.  Nodes know of one
another through Redis only.

All tasks run side by side, so each is cut into atomic moves: at its `await`s, and around
every access to `connections`.  How a move ends (a frame that cannot be sent, a client
that goes away, a publication that fails) is part of the schedule.  A write that fails or
is cut off may or may not have reached the client.  `abort` only marks the write task,
which can go on until it next awaits.

`connections` is a `DashMap`: its iterator locks one shard after the other, so a fan-out
is one move for each shard, and sessions come and go between two of them.

Redis hands a published message once to every node that is subscribed at that time, in the
order of publication; a node that loses its connection loses what it has not taken yet.
Postcard is a pair of functions of which nothing is assumed here.  Frames that carry no
message of the program, except the Ping frames of the write task, are left out of `sent`.

Three fields are there for the statements only and are read by no move: the number of
a publication, the history `queued` of a channel, and `offered`, the publications that
found the session in the map.
-/
namespace RustSamples.Hl
open Scheduling

/-! ## Messages -/

inductive ClientMessage
  | ping
  | auth (userId : UInt64) (token : String)
  | broadcast (text : String)
deriving DecidableEq

inductive ServerMessage
  | pong
  | welcome (sessionId : UInt64)
  | notification (fromUser : UInt64) (text : String)
  | error (code : UInt16) (msg : String)
deriving DecidableEq

/-- The frames of `tungstenite`. -/
inductive WsMessage
  | binary (data : List UInt8)
  | text (data : List UInt8)
  | ping (data : List UInt8)
  | pong (data : List UInt8)
  | close
deriving DecidableEq

/-- `postcard`, the shards of a `DashMap`, and the build profile: with overflow checks
`+= 1` panics on overflow, without them it wraps. -/
structure Env where
  toAllocvec : ServerMessage → Option (List UInt8)
  serverFromBytes : List UInt8 → Option ServerMessage
  clientFromBytes : List UInt8 → Option ClientMessage
  shards : Nat
  shardOf : UInt64 → Fin shards
  overflowChecks : Bool

/-! ## A session -/

/-- How `handle_connection` returns. -/
inductive Exit
  | handshakeFailed
  /-- the Welcome frame could not be encoded or sent -/
  | welcomeFailed
  | readLoopEnded
deriving DecidableEq

/-- Where `handle_connection` stands. -/
inductive HandlerPc
  | handshaking
  /-- registered, before the Welcome frame is sent -/
  | welcoming
  | reading
  /-- in `process_message`, with a message for Redis -/
  | publishing (payload : List UInt8) (text : String)
  /-- out of the read loop, before `connections.remove` -/
  | removing
  /-- before `write_task.abort` -/
  | aborting
  | returned (exit : Exit)
deriving DecidableEq

/-- Where the write task stands. -/
inductive WriterPc
  | notSpawned
  | selecting
  | sending (frame : WsMessage)
  | closing
  /-- before `connections.remove` -/
  | removing
  | finished
  | cancelled
deriving DecidableEq

structure Session where
  id : UInt64
  handler : HandlerPc
  writer : WriterPc
  abortRequested : Bool
  /-- the messages in the channel -/
  queue : List ServerMessage
  /-- every message that was ever in the channel, with the number of its publication -/
  queued : List (ServerMessage × Option Nat)
  /-- the publications whose fan-out found the session in the map -/
  offered : List Nat
  /-- the frames that reached the client -/
  sent : List WsMessage
deriving DecidableEq

/-- How the sending of a frame ends. -/
inductive SendResult
  | sent
  | failed (written : Bool)
deriving DecidableEq

/-- What reached the client of a frame that was to be sent. -/
def SendResult.reached (frame : WsMessage) : SendResult → List WsMessage
  | .sent | .failed true => [frame]
  | .failed false => []

/-- Why the read loop ends, a Close frame apart. -/
inductive ReadEnd
  | error
  | closed
  | timeout
deriving DecidableEq

/-- The moves of the two tasks of a session. -/
inductive Move
  | handshakeFailed
  | register
  | welcome (result : SendResult)
  | frame (msg : WsMessage)
  | readEnded (reason : ReadEnd)
  | publish (delivered : Bool)
  | removeEntry
  | abort
  | recv
  | tick
  | sendDone (result : SendResult)
  | closeDone
  | writerRemove
  | cancel (written : Bool)
deriving DecidableEq

/-- What a move does outside its session. -/
inductive Effect
  | none
  | insert
  | remove
  /-- `sender.send(Pong)` to the session registered under the own id -/
  | pong
  | publish (payload : List UInt8) (text : String)
deriving DecidableEq

/-- The fan-out of a message: the shards below `next` have been visited. -/
structure FanOut where
  number : Nat
  serverMsg : ServerMessage
  originSender : UInt64
  next : Nat
deriving DecidableEq

namespace Session

/-- A session that was just accepted. -/
def start (id : UInt64) : Session := ⟨id, .handshaking, .notSpawned, false, [], [], [], []⟩

/-- `rx` has not been dropped. -/
def receiverAlive (s : Session) : Bool :=
  match s.writer with
  | .notSpawned => decide (s.handler = .welcoming)
  | .finished | .cancelled => false
  | _ => true

/-- `let _ = sender.send(message)`. -/
def send (m : ServerMessage) (publication : Option Nat) (s : Session) : Session :=
  if s.receiverAlive then
    { s with queue := s.queue ++ [m], queued := s.queued ++ [(m, publication)] }
  else s

/-- The body of the loop over `connections`, on the entry `key` of the session. -/
def offer (key : UInt64) (f : FanOut) (s : Session) : Session :=
  let s := { s with offered := s.offered ++ [f.number] }
  if key ≠ f.originSender then s.send f.serverMsg (some f.number) else s

/-- A frame whose sending has ended. -/
def write (frame : WsMessage) (result : SendResult) (s : Session) : Session :=
  { s with sent := s.sent ++ result.reached frame }

/-- A frame from the client, with `process_message` up to its first `await`. -/
def onFrame (E : Env) (s : Session) : WsMessage → Session × Effect
  | .binary data =>
      match E.clientFromBytes data with
      | some .ping => (s, .pong)
      | some (.broadcast text) =>
          match E.toAllocvec (.notification s.id text) with
          | some payload => ({ s with handler := .publishing payload text }, .none)
          | none => (s, .none)
      | some (.auth _ _) | none => (s, .none)
  | .close => ({ s with handler := .removing }, .none)
  | .text _ | .ping _ | .pong _ => (s, .none)

/-- The Welcome frame, and on success the write task. -/
def onWelcome (E : Env) (s : Session) (result : SendResult) : Session :=
  match E.toAllocvec (.welcome s.id) with
  | none => { s with handler := .returned .welcomeFailed }
  | some bytes =>
      match result with
      | .sent => { s.write (.binary bytes) .sent with handler := .reading, writer := .selecting }
      | .failed written =>
          { s.write (.binary bytes) (.failed written) with handler := .returned .welcomeFailed }

/-- A message taken from the channel; one that cannot be encoded is dropped. -/
def onRecv (E : Env) (s : Session) (m : ServerMessage) (rest : List ServerMessage) : Session :=
  match E.toAllocvec m with
  | some bytes => { s with queue := rest, writer := .sending (.binary bytes) }
  | none => { s with queue := rest }

/-- A move of `handle_connection`. -/
def handlerStep (E : Env) (s : Session) : Move → Option (Session × Effect)
  | .handshakeFailed =>
      if s.handler = .handshaking then
        some ({ s with handler := .returned .handshakeFailed }, .none)
      else none
  | .register =>
      if s.handler = .handshaking then some ({ s with handler := .welcoming }, .insert) else none
  | .welcome result =>
      if s.handler = .welcoming then some (s.onWelcome E result, .none) else none
  | .frame msg => if s.handler = .reading then some (s.onFrame E msg) else none
  | .readEnded _ =>
      if s.handler = .reading then some ({ s with handler := .removing }, .none) else none
  | .publish delivered =>
      match s.handler with
      | .publishing payload text =>
          some ({ s with handler := .reading },
            if delivered then .publish payload text else .none)
      | _ => none
  | .removeEntry =>
      if s.handler = .removing then some ({ s with handler := .aborting }, .remove) else none
  | .abort =>
      if s.handler = .aborting then
        some ({ s with handler := .returned .readLoopEnded, abortRequested := true }, .none)
      else none
  | _ => none

/-- A move of the write task. -/
def writerStep (E : Env) (s : Session) : Move → Option (Session × Effect)
  | .recv =>
      match s.writer, s.queue with
      | .selecting, m :: rest => some (s.onRecv E m rest, .none)
      | _, _ => none
  | .tick =>
      if s.writer = .selecting then some ({ s with writer := .sending (.ping []) }, .none)
      else none
  | .sendDone result =>
      match s.writer with
      | .sending frame =>
          some ({ s.write frame result with
            writer := if result = .sent then .selecting else .closing }, .none)
      | _ => none
  | .closeDone =>
      if s.writer = .closing then some ({ s with writer := .removing }, .none) else none
  | .writerRemove =>
      if s.writer = .removing then some ({ s with writer := .finished }, .remove) else none
  | .cancel written =>
      if s.abortRequested then
        match s.writer with
        | .selecting | .closing => some ({ s with writer := .cancelled }, .none)
        | .sending frame =>
            some ({ s.write frame (.failed written) with writer := .cancelled }, .none)
        | _ => none
      else none
  | _ => none

/-- A move of the session. -/
def step (E : Env) (s : Session) (m : Move) : Option (Session × Effect) :=
  match m with
  | .recv | .tick | .sendDone _ | .closeDone | .writerRemove | .cancel _ => s.writerStep E m
  | _ => s.handlerStep E m

end Session

/-! ## Nodes -/

/-- A message on its way from Redis to a node. -/
structure Delivery where
  number : Nat
  payload : List UInt8
deriving DecidableEq

/-- `match &server_msg`: the sender of a notification. -/
def originSender : ServerMessage → UInt64
  | .notification fromUser _ => fromUser
  | _ => 0

structure Node where
  sessionCounter : UInt64
  /-- every session there has been, in the order of `accept` -/
  sessions : List Session
  /-- a `ClientSender` is the place of its session -/
  connections : AList fun _ : UInt64 => Nat
  subscribed : Bool
  inbox : List Delivery
  fanOut : Option FanOut

namespace Node

def start : Node := ⟨0, [], ∅, false, [], none⟩

/-- `session_counter += 1`; `none` is the panic. -/
def nextSession (E : Env) (n : Node) : Option UInt64 :=
  if n.sessionCounter.toNat + 1 < 2 ^ 64 then some (n.sessionCounter + 1)
  else if E.overflowChecks then none else some 0

/-- The entries of a shard. -/
def shard (E : Env) (n : Node) (k : Nat) : List (Σ _ : UInt64, Nat) :=
  n.connections.entries.filter fun target => (E.shardOf target.1).val = k

/-- The loop over `connections`, on the next shard. -/
def visit (E : Env) (n : Node) (f : FanOut) : Node :=
  { n with
    sessions := (n.shard E f.next).foldl
      (fun sessions target => sessions.modify target.2 (Session.offer target.1 f)) n.sessions
    fanOut := if f.next + 1 < E.shards then some { f with next := f.next + 1 } else none }

/-- A message from Redis; one that does not decode is dropped. -/
def take (E : Env) (n : Node) (d : Delivery) (rest : List Delivery) : Node :=
  { n with
    inbox := rest
    fanOut := (E.serverFromBytes d.payload).map fun m => ⟨d.number, m, originSender m, 0⟩ }

/-- Redis hands over a message. -/
def deliver (n : Node) (d : Delivery) : Node :=
  if n.subscribed then { n with inbox := n.inbox ++ [d] } else n

/-- The node after session `i` has become `s`, with what that does to `connections` and to
the channel registered there. -/
def commit (n : Node) (i : Nat) (s : Session) : Effect → Node
  | .none | .publish _ _ => { n with sessions := n.sessions.set i s }
  | .insert => { n with
      sessions := n.sessions.set i s, connections := n.connections.insert s.id i }
  | .remove => { n with
      sessions := n.sessions.set i s, connections := n.connections.erase s.id }
  | .pong =>
      match n.connections.lookup s.id with
      | some j => { n with sessions := (n.sessions.set i s).modify j (·.send .pong none) }
      | none => { n with sessions := n.sessions.set i s }

end Node

/-! ## The cluster -/

variable {ι : Type}

/-- A message that reached Redis: who broadcast it, under which id, and its text. -/
structure Publication (ι : Type) where
  origin : ι × Nat
  fromUser : UInt64
  text : String
deriving DecidableEq

structure Cluster (ι : Type) where
  node : ι → Node
  published : List (Publication ι)

inductive Event (ι : Type)
  | accept (b : ι)
  | move (b : ι) (i : Nat) (m : Move)
  | subscribe (b : ι)
  | disconnect (b : ι)
  | take (b : ι)
  | visit (b : ι)
deriving DecidableEq

namespace Cluster

def start : Cluster ι := ⟨fun _ => .start, []⟩

/-- Session `i` of node `b`. -/
def session (c : Cluster ι) (b : ι) (i : Nat) : Option Session := (c.node b).sessions[i]?

/-- Redis publishes a message to every node that is subscribed. -/
def publish (c : Cluster ι) (p : Publication ι) (payload : List UInt8) : Cluster ι :=
  ⟨fun b => (c.node b).deliver ⟨c.published.length, payload⟩, c.published ++ [p]⟩

variable [DecidableEq ι]

/-- Node `b` has become `n`. -/
def setNode (c : Cluster ι) (b : ι) (n : Node) : Cluster ι :=
  { c with node := Function.update c.node b n }

/-- Session `i` of node `b` has become `s`, with the effect of its move. -/
def commit (c : Cluster ι) (b : ι) (i : Nat) (s : Session) (effect : Effect) : Cluster ι :=
  let c' := c.setNode b ((c.node b).commit i s effect)
  match effect with
  | .publish payload text => c'.publish ⟨(b, i), s.id, text⟩ payload
  | _ => c'

end Cluster

variable [DecidableEq ι]

/-- The nodes of a cluster under every interleaving of their tasks. -/
def cluster (E : Env) : Machine (Cluster ι) (Event ι) where
  step c
    | .accept b => ((c.node b).nextSession E).map fun id => c.setNode b { c.node b with
        sessionCounter := id, sessions := (c.node b).sessions ++ [.start id] }
    | .move b i m => (c.session b i).bind fun s => (s.step E m).map fun r => c.commit b i r.1 r.2
    | .subscribe b =>
        if (c.node b).subscribed then none
        else some (c.setNode b { c.node b with subscribed := true })
    | .disconnect b =>
        if (c.node b).fanOut.isSome then none
        else some (c.setNode b { c.node b with subscribed := false, inbox := [] })
    | .take b =>
        match (c.node b).fanOut, (c.node b).inbox with
        | none, d :: rest => some (c.setNode b ((c.node b).take E d rest))
        | _, _ => none
    | .visit b => (c.node b).fanOut.map fun f => c.setNode b ((c.node b).visit E f)

/-! ## What a step does -/

namespace Session
variable {E : Env}

/-- **What a move of a session does**, one constructor for each way it can go. -/
inductive Step (E : Env) (s : Session) : Move → Session → Effect → Prop
  | handshakeFailed (h : s.handler = .handshaking) :
      Step E s .handshakeFailed { s with handler := .returned .handshakeFailed } .none
  | register (h : s.handler = .handshaking) :
      Step E s .register { s with handler := .welcoming } .insert
  | welcomeSent {bytes : List UInt8} (h : s.handler = .welcoming)
      (hbytes : E.toAllocvec (.welcome s.id) = some bytes) :
      Step E s (.welcome .sent) { s with
        handler := .reading, writer := .selecting, sent := s.sent ++ [.binary bytes] } .none
  | welcomeUnencodable {result : SendResult} (h : s.handler = .welcoming)
      (hbytes : E.toAllocvec (.welcome s.id) = none) :
      Step E s (.welcome result) { s with handler := .returned .welcomeFailed } .none
  | welcomeUnsent {bytes : List UInt8} {written : Bool} (h : s.handler = .welcoming)
      (hbytes : E.toAllocvec (.welcome s.id) = some bytes) :
      Step E s (.welcome (.failed written)) { s.write (.binary bytes) (.failed written) with
        handler := .returned .welcomeFailed } .none
  | ignored {msg : WsMessage} (h : s.handler = .reading) : Step E s (.frame msg) s .none
  | ping {msg : WsMessage} (h : s.handler = .reading) : Step E s (.frame msg) s .pong
  | broadcast {msg : WsMessage} {payload : List UInt8} {text : String} (h : s.handler = .reading)
      (hpayload : E.toAllocvec (.notification s.id text) = some payload) :
      Step E s (.frame msg) { s with handler := .publishing payload text } .none
  | leave {m : Move} (h : s.handler = .reading) (hm : ∀ result, m ≠ .welcome result) :
      Step E s m { s with handler := .removing } .none
  | publish {payload : List UInt8} {text : String} {delivered : Bool}
      (h : s.handler = .publishing payload text) :
      Step E s (.publish delivered) { s with handler := .reading }
        (if delivered then .publish payload text else .none)
  | removeEntry (h : s.handler = .removing) :
      Step E s .removeEntry { s with handler := .aborting } .remove
  | abort (h : s.handler = .aborting) :
      Step E s .abort { s with handler := .returned .readLoopEnded, abortRequested := true } .none
  | recv {m : ServerMessage} {rest : List ServerMessage} {bytes : List UInt8}
      (h : s.writer = .selecting) (hqueue : s.queue = m :: rest)
      (hbytes : E.toAllocvec m = some bytes) :
      Step E s .recv { s with queue := rest, writer := .sending (.binary bytes) } .none
  | recvUnencodable {m : ServerMessage} {rest : List ServerMessage}
      (h : s.writer = .selecting) (hqueue : s.queue = m :: rest)
      (hbytes : E.toAllocvec m = none) : Step E s .recv { s with queue := rest } .none
  | tick (h : s.writer = .selecting) :
      Step E s .tick { s with writer := .sending (.ping []) } .none
  | sendDone {frame : WsMessage} (h : s.writer = .sending frame) :
      Step E s (.sendDone .sent)
        { s with sent := s.sent ++ [frame], writer := .selecting } .none
  | sendFailed {frame : WsMessage} {written : Bool} (h : s.writer = .sending frame) :
      Step E s (.sendDone (.failed written))
        { s.write frame (.failed written) with writer := .closing } .none
  | closeDone (h : s.writer = .closing) :
      Step E s .closeDone { s with writer := .removing } .none
  | writerRemove (h : s.writer = .removing) :
      Step E s .writerRemove { s with writer := .finished } .remove
  | cancelIdle {written : Bool} (habort : s.abortRequested = true)
      (h : s.writer = .selecting ∨ s.writer = .closing) :
      Step E s (.cancel written) { s with writer := .cancelled } .none
  | cancelSending {frame : WsMessage} {written : Bool} (habort : s.abortRequested = true)
      (h : s.writer = .sending frame) :
      Step E s (.cancel written)
        { s.write frame (.failed written) with writer := .cancelled } .none

theorem step_onFrame {s : Session} (hr : s.handler = .reading) (msg : WsMessage) :
    Step E s (.frame msg) (s.onFrame E msg).1 (s.onFrame E msg).2 := by
  cases msg with
  | binary data =>
    cases hmsg : E.clientFromBytes data with
    | none => simp only [onFrame, hmsg]; exact .ignored hr
    | some msg =>
      cases msg with
      | ping => simp only [onFrame, hmsg]; exact .ping hr
      | auth => simp only [onFrame, hmsg]; exact .ignored hr
      | broadcast text =>
        cases hpayload : E.toAllocvec (.notification s.id text) with
        | none => simp only [onFrame, hmsg, hpayload]; exact .ignored hr
        | some payload => simp only [onFrame, hmsg, hpayload]; exact .broadcast hr hpayload
  | close => exact .leave hr nofun
  | text | ping | pong => exact .ignored hr

theorem step_onWelcome {s : Session} (hw : s.handler = .welcoming) (result : SendResult) :
    Step E s (.welcome result) (s.onWelcome E result) .none := by
  unfold onWelcome
  split
  · exact .welcomeUnencodable hw ‹_›
  · cases result with
    | sent => exact .welcomeSent hw ‹_›
    | failed written => exact .welcomeUnsent hw ‹_›

theorem handlerStep_spec {s s' : Session} {m : Move} {effect : Effect}
    (h : s.handlerStep E m = some (s', effect)) : Step E s m s' effect := by
  cases m with
  | handshakeFailed | register | removeEntry | abort =>
    simp only [handlerStep] at h
    split at h
    · obtain ⟨rfl, rfl⟩ := Prod.mk.inj (Option.some.inj h)
      first
        | exact .handshakeFailed ‹_›
        | exact .register ‹_›
        | exact .removeEntry ‹_›
        | exact .abort ‹_›
    · cases h
  | welcome result =>
    simp only [handlerStep] at h
    split at h
    · obtain ⟨rfl, rfl⟩ := Prod.mk.inj (Option.some.inj h)
      exact step_onWelcome ‹_› result
    · cases h
  | frame msg =>
    simp only [handlerStep] at h
    split at h
    · have hstep := step_onFrame (E := E) ‹_› msg
      rwa [Option.some.inj h] at hstep
    · cases h
  | readEnded reason =>
    simp only [handlerStep] at h
    split at h
    · obtain ⟨rfl, rfl⟩ := Prod.mk.inj (Option.some.inj h)
      exact .leave ‹_› nofun
    · cases h
  | publish delivered =>
    simp only [handlerStep] at h
    split at h
    · obtain ⟨rfl, rfl⟩ := Prod.mk.inj (Option.some.inj h)
      exact .publish ‹_›
    · cases h
  | recv | tick | sendDone | closeDone | writerRemove | cancel => cases h

theorem writerStep_spec {s s' : Session} {m : Move} {effect : Effect}
    (h : s.writerStep E m = some (s', effect)) : Step E s m s' effect := by
  cases m with
  | recv =>
    simp only [writerStep] at h
    split at h
    · rename_i m rest hwriter hqueue
      obtain ⟨rfl, rfl⟩ := Prod.mk.inj (Option.some.inj h)
      unfold onRecv
      split
      · exact .recv hwriter hqueue ‹_›
      · exact .recvUnencodable hwriter hqueue ‹_›
    · cases h
  | tick | closeDone | writerRemove =>
    simp only [writerStep] at h
    split at h
    · obtain ⟨rfl, rfl⟩ := Prod.mk.inj (Option.some.inj h)
      first
        | exact .tick ‹_›
        | exact .closeDone ‹_›
        | exact .writerRemove ‹_›
    · cases h
  | sendDone result =>
    simp only [writerStep] at h
    split at h
    · obtain ⟨rfl, rfl⟩ := Prod.mk.inj (Option.some.inj h)
      cases result with
      | sent => exact .sendDone ‹_›
      | failed written => exact .sendFailed ‹_›
    · cases h
  | cancel written =>
    simp only [writerStep] at h
    split at h
    · split at h
      · obtain ⟨rfl, rfl⟩ := Prod.mk.inj (Option.some.inj h)
        exact .cancelIdle ‹_› (Or.inl ‹_›)
      · obtain ⟨rfl, rfl⟩ := Prod.mk.inj (Option.some.inj h)
        exact .cancelIdle ‹_› (Or.inr ‹_›)
      · obtain ⟨rfl, rfl⟩ := Prod.mk.inj (Option.some.inj h)
        exact .cancelSending ‹_› ‹_›
      · cases h
    · cases h
  | handshakeFailed | register | welcome | frame | readEnded | publish | removeEntry | abort =>
    cases h

theorem step_spec {s s' : Session} {m : Move} {effect : Effect}
    (h : s.step E m = some (s', effect)) : Step E s m s' effect := by
  unfold step at h
  split at h
  all_goals first
    | exact writerStep_spec h
    | exact handlerStep_spec h

/-- The handler has not come to the point where it spawns the write task, or returned
before it. -/
def NotWelcomed (s : Session) : Prop :=
  s.handler = .handshaking ∨ s.handler = .welcoming ∨ s.handler = .returned .handshakeFailed ∨
    s.handler = .returned .welcomeFailed

/-- There is no write task before the Welcome frame is sent. -/
def WriterWaits (s : Session) : Prop := s.NotWelcomed → s.writer = .notSpawned

theorem writerWaits_step {s s' : Session} {m : Move} {effect : Effect} (hs : s.WriterWaits)
    (h : Step E s m s' effect) : s'.WriterWaits := by
  have hnot : ∀ w, s.writer = w → w ≠ .notSpawned → ¬ s.NotWelcomed :=
    fun w hw hne hn => hne (hw.symm.trans (hs hn))
  cases h with
  | handshakeFailed h => exact fun _ => hs (Or.inl h)
  | register h => exact fun _ => hs (Or.inl h)
  | welcomeUnencodable h | welcomeUnsent h => exact fun _ => hs (Or.inr (Or.inl h))
  | welcomeSent | broadcast | leave | publish | removeEntry | abort =>
    rintro (h | h | h | h) <;> cases h
  | ignored | ping => exact hs
  | recv h | recvUnencodable h | tick h | sendDone h | sendFailed h | closeDone h
  | writerRemove h | cancelSending _ h =>
    exact fun hn => absurd hn (hnot _ h (by nofun))
  | cancelIdle _ h =>
    rcases h with h | h <;> exact fun hn => absurd hn (hnot _ h (by nofun))

/-- A session keeps its id. -/
theorem Step.id_eq {s s' : Session} {m : Move} {effect : Effect} (h : Step E s m s' effect) :
    s'.id = s.id := by
  cases h <;> rfl

end Session

/-- What other tasks leave alone in a session. -/
def Session.core (s : Session) : UInt64 × HandlerPc × WriterPc := (s.id, s.handler, s.writer)

@[simp] theorem Session.core_send (s : Session) (m : ServerMessage) (p : Option Nat) :
    (s.send m p).core = s.core := by
  unfold send
  split <;> rfl

@[simp] theorem Session.core_offer (s : Session) (key : UInt64) (f : FanOut) :
    (s.offer key f).core = s.core := by
  unfold offer
  split
  · exact core_send _ _ _
  · rfl

theorem Session.WriterWaits.of_core {s s' : Session} (hs : s.WriterWaits)
    (h : s'.core = s.core) : s'.WriterWaits := by
  obtain ⟨-, hh, hw⟩ : s'.id = s.id ∧ s'.handler = s.handler ∧ s'.writer = s.writer := by
    simpa [core] using h
  unfold WriterWaits NotWelcomed
  rw [hh, hw]
  exact hs

/-- What a step of the cluster can do. -/
theorem cluster_step_cases {E : Env} {c u : Cluster ι} {e : Event ι}
    (h : (cluster E).step c e = some u) :
    (∃ b id, e = .accept b ∧ (c.node b).nextSession E = some id ∧
        u = c.setNode b { c.node b with
          sessionCounter := id, sessions := (c.node b).sessions ++ [.start id] }) ∨
      (∃ b i m s s' effect, e = .move b i m ∧ c.session b i = some s ∧
        Session.Step E s m s' effect ∧ u = c.commit b i s' effect) ∨
      (∃ b, e = .subscribe b ∧ u = c.setNode b { c.node b with subscribed := true }) ∨
      (∃ b, e = .disconnect b ∧ (c.node b).fanOut = none ∧
        u = c.setNode b { c.node b with subscribed := false, inbox := [] }) ∨
      (∃ b d rest, e = .take b ∧ (c.node b).fanOut = none ∧ (c.node b).inbox = d :: rest ∧
        u = c.setNode b ((c.node b).take E d rest)) ∨
      ∃ b f, e = .visit b ∧ (c.node b).fanOut = some f ∧
        u = c.setNode b ((c.node b).visit E f) := by
  cases e with
  | accept b =>
    obtain ⟨id, hid, rfl⟩ := Option.map_eq_some_iff.mp h
    exact Or.inl ⟨b, id, rfl, hid, rfl⟩
  | move b i m =>
    obtain ⟨s, hs, hmap⟩ := Option.bind_eq_some_iff.mp h
    obtain ⟨⟨s', effect⟩, hstep, rfl⟩ := Option.map_eq_some_iff.mp hmap
    exact Or.inr (Or.inl ⟨b, i, m, s, s', effect, rfl, hs, Session.step_spec hstep, rfl⟩)
  | subscribe b =>
    simp only [cluster] at h
    split at h
    · cases h
    · exact Or.inr (Or.inr (Or.inl ⟨b, rfl, (Option.some.inj h).symm⟩))
  | disconnect b =>
    simp only [cluster] at h
    split at h
    · cases h
    · rename_i hnone
      exact Or.inr (Or.inr (Or.inr (Or.inl
        ⟨b, rfl, by simpa using hnone, (Option.some.inj h).symm⟩)))
  | take b =>
    simp only [cluster] at h
    split at h
    · exact Or.inr (Or.inr (Or.inr (Or.inr (Or.inl
        ⟨b, _, _, rfl, ‹_›, ‹_›, (Option.some.inj h).symm⟩))))
    · cases h
  | visit b =>
    obtain ⟨f, hf, rfl⟩ := Option.map_eq_some_iff.mp h
    exact Or.inr (Or.inr (Or.inr (Or.inr (Or.inr ⟨b, f, rfl, hf, rfl⟩))))

/-! ## Sessions of a node after a step -/

omit [DecidableEq ι] in
@[simp] theorem Cluster.session_start (b : ι) (i : Nat) : (start : Cluster ι).session b i = none :=
  rfl

@[simp] theorem Cluster.node_setNode (c : Cluster ι) (b : ι) (n : Node) :
    (c.setNode b n).node b = n := by
  simp [setNode]

theorem Cluster.node_setNode_of_ne (c : Cluster ι) {b b' : ι} (h : b' ≠ b) (n : Node) :
    (c.setNode b n).node b' = c.node b' := by
  simp [setNode, h]

/-- What holds of the new node, and of the others as they were, holds of every node. -/
theorem Cluster.setNode_cases (c : Cluster ι) {P : Node → Prop} {b b' : ι} {n : Node}
    (hhere : b' = b → P n) (helsewhere : b' ≠ b → P (c.node b')) :
    P ((c.setNode b n).node b') := by
  by_cases hb : b' = b
  · rw [hb, node_setNode]; exact hhere hb
  · rw [node_setNode_of_ne c hb]; exact helsewhere hb

/-- Beyond its own node a move can only add to the inboxes. -/
theorem Cluster.node_commit (c : Cluster ι) (b : ι) (i : Nat) (s : Session) (effect : Effect)
    (b' : ι) : ∃ inbox, (c.commit b i s effect).node b' =
      { (c.setNode b ((c.node b).commit i s effect)).node b' with inbox := inbox } := by
  cases effect with
  | none | insert | remove | pong => exact ⟨_, rfl⟩
  | publish payload text =>
    simp only [commit, publish, Node.deliver]
    split
    · exact ⟨_, rfl⟩
    · exact ⟨_, rfl⟩

/-- A move sets the session that makes it; a Pong reply changes no core. -/
theorem Node.cores_commit (n : Node) (i : Nat) (s : Session) (effect : Effect) :
    (n.commit i s effect).sessions.map Session.core = (n.sessions.set i s).map Session.core := by
  cases effect with
  | none | insert | remove | publish => rfl
  | pong =>
    simp only [commit]
    split
    · exact map_modify_eq (fun s => s.core_send _ _) _ _
    · rfl

/-- A fan-out changes no core. -/
theorem Node.cores_visit (E : Env) (n : Node) (f : FanOut) :
    (n.visit E f).sessions.map Session.core = n.sessions.map Session.core := by
  unfold visit
  simp only
  generalize n.shard E f.next = targets
  generalize n.sessions = sessions
  induction targets generalizing sessions with
  | nil => rfl
  | cons target targets ih =>
    rw [List.foldl_cons, ih, map_modify_eq fun s => s.core_offer _ _]

/-- A property of a node that every step of the cluster keeps: the four ways in which a
node changes. -/
structure Node.KeptBySteps (E : Env) (P : Node → Prop) : Prop where
  accept : ∀ n id, P n → n.nextSession E = some id →
    P { n with sessionCounter := id, sessions := n.sessions ++ [.start id] }
  commit : ∀ n i s m s' effect, P n → n.sessions[i]? = some s → Session.Step E s m s' effect →
    P (n.commit i s' effect)
  redis : ∀ n subscribed inbox fanOut, P n →
    P { n with subscribed := subscribed, inbox := inbox, fanOut := fanOut }
  visit : ∀ n f, P n → P (n.visit E f)

theorem Node.KeptBySteps.step {E : Env} {P : Node → Prop} (hP : KeptBySteps E P)
    {c u : Cluster ι} {e : Event ι} {b' : ι} (hc : P (c.node b'))
    (h : (cluster E).step c e = some u) : P (u.node b') := by
  -- only the node of the step changes
  have hnode : ∀ b n, (P (c.node b) → P n) → P ((c.setNode b n).node b') := by
    intro b n hn
    exact c.setNode_cases (fun hb => hn (hb ▸ hc)) (fun _ => hc)
  rcases cluster_step_cases h with ⟨b, id, -, hid, rfl⟩ | ⟨b, i, m, s, s', effect, -, hs, hm, rfl⟩ |
    ⟨b, -, rfl⟩ | ⟨b, -, -, rfl⟩ | ⟨b, d, rest, -, -, -, rfl⟩ | ⟨b, f, -, -, rfl⟩
  · exact hnode b _ fun hb => hP.accept _ id hb hid
  · obtain ⟨inbox, hcommit⟩ := c.node_commit b i s' effect b'
    rw [hcommit]
    exact hP.redis _ _ inbox _ (hnode b _ fun hb => hP.commit _ i s m s' effect hb hs hm)
  · exact hnode b _ fun hb => hP.redis _ true _ _ hb
  · exact hnode b _ fun hb => hP.redis _ false [] _ hb
  · exact hnode b _ fun hb => hP.redis _ _ rest _ hb
  · exact hnode b _ fun hb => hP.visit _ f hb

/-- **The rule for one node.** -/
theorem Node.KeptBySteps.run {E : Env} {P : Node → Prop} (hP : KeptBySteps E P)
    (hstart : P .start) {events : List (Event ι)} {c : Cluster ι}
    (hrun : (cluster E).run .start events = some c) (b : ι) : P (c.node b) :=
  (cluster E).run_invariant (I := fun c => P (c.node b)) (fun _ _ _ hc h => hP.step hc h)
    hstart hrun

section
variable {E : Env} {P : Session → Prop}

theorem Node.forall_sessions_commit (hsend : ∀ s, P s → ∀ m p, P (s.send m p)) {n : Node}
    (hn : ∀ s ∈ n.sessions, P s) {i : Nat} {s : Session} (hs : P s) (effect : Effect) :
    ∀ t ∈ (n.commit i s effect).sessions, P t := by
  have hset : ∀ t ∈ n.sessions.set i s, P t := by
    intro t ht
    rcases List.mem_or_eq_of_mem_set ht with ht | rfl
    · exact hn t ht
    · exact hs
  cases effect with
  | none | insert | remove | publish => exact hset
  | pong =>
    intro t ht
    simp only [commit] at ht
    split at ht
    · rcases mem_modify ht with ht | ⟨y, hy, rfl⟩
      · exact hset t ht
      · exact hsend y (hset y hy) _ _
    · exact hset t ht

theorem Node.forall_sessions_visit (hoffer : ∀ s, P s → ∀ key f, P (s.offer key f)) {n : Node}
    (hn : ∀ s ∈ n.sessions, P s) (f : FanOut) : ∀ t ∈ (n.visit E f).sessions, P t := by
  unfold visit
  simp only
  generalize n.shard E f.next = targets
  generalize n.sessions = sessions at hn
  induction targets generalizing sessions with
  | nil => exact hn
  | cons target targets ih =>
    refine ih _ fun t ht => ?_
    rcases mem_modify ht with ht | ⟨y, hy, rfl⟩
    · exact hn t ht
    · exact hoffer y (hn y hy) _ _

/-- **The rule for one session.**  What holds of a session just accepted and is kept by
its own moves, by a message put into its channel and by a fan-out that finds it, holds of
every session at every point of every run. -/
theorem session_invariant (hstart : ∀ id, P (.start id))
    (hstep : ∀ s m s' effect, P s → Session.Step E s m s' effect → P s')
    (hsend : ∀ s, P s → ∀ m p, P (s.send m p))
    (hoffer : ∀ s, P s → ∀ key f, P (s.offer key f))
    {events : List (Event ι)} {c : Cluster ι} (hrun : (cluster E).run .start events = some c)
    {b : ι} {i : Nat} {s : Session} (hs : c.session b i = some s) : P s := by
  have hkept : Node.KeptBySteps E fun n => ∀ s ∈ n.sessions, P s := by
    constructor
    · intro n id hn _ s hs
      rcases List.mem_append.mp hs with hs | hs
      · exact hn s hs
      · rw [List.mem_singleton.mp hs]; exact hstart id
    · intro n i s m s' effect hn hs hm
      have hold : P s := hn s (List.mem_iff_getElem?.mpr ⟨i, hs⟩)
      exact Node.forall_sessions_commit hsend hn (hstep s m s' effect hold hm) effect
    · exact fun n _ _ _ hn => hn
    · exact fun n f hn => Node.forall_sessions_visit hoffer hn f
  exact hkept.run (fun s hs => absurd hs List.not_mem_nil) hrun b s
    (List.mem_iff_getElem?.mpr ⟨i, hs⟩)

end

/-! ### A cluster to evaluate -/

/-- The Postcard bytes of a few messages, and a map of two shards. -/
def sampleEnv : Env where
  toAllocvec
    | .welcome 1 => some [1, 1]
    | .notification 1 "hi" => some [2, 1, 2, 104, 105]
    | _ => none
  serverFromBytes
    | [1, 1] => some (.welcome 1)
    | [2, 1, 2, 104, 105] => some (.notification 1 "hi")
    | _ => none
  clientFromBytes
    | [0] => some .ping
    | [2, 2, 104, 105] => some (.broadcast "hi")
    | _ => none
  shards := 2
  shardOf id := ⟨id.toNat % 2, Nat.mod_lt _ Nat.two_pos⟩
  overflowChecks := false

end RustSamples.Hl
