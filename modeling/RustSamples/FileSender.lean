import RustSamples.Relay

/-! # Sending a file: `file_sender`

The server accepts one connection and copies what comes through it into its output file; a client
copies its input file into a connection.  Any number of clients may be started, each with its own
file, and the server takes the connection that came first.  Every call may fail, and a process may
be killed at any time.

There is nothing on the wire but the bytes of the file.  So the server cannot tell the end of a file
from the end of a client: it reports "file saved" for any front part of the file, and for nothing
else (`saved_iff`).  A client cannot tell that it was accepted: as many clients as the backlog has
room for may report that all was sent, where one file is saved (`sent_without_receipt`).

The machine has sockets and a backlog without a size, so that its runs include those of every
kernel.  Where a run is shown to exist that leaves bytes or connections waiting, it is one of the
machine with a size for both (`bounded`).

The file of a client does not change while it is sent, and no two processes share a path.
-/
namespace RustSamples.FileSender
open Scheduling Relay

/-- An error of a call, or the one that `run_client` makes. -/
inductive IoError
  | notFound (message : String)
  | other
  deriving DecidableEq

/-- Where `run_client` stands.  How far it is with `io::copy` and `shutdown` says its chain. -/
inductive ClientPhase
  | checking
  | opening
  | connecting
  | copying
  | failed (error : IoError)
  deriving DecidableEq

/-- A client and what is at its input path.  Its bytes go through two copies: its own, into the
socket, and the server's, into the output file. -/
structure Client where
  input : Option (List UInt8)
  phase : ClientPhase
  chain : Chain UInt8
  deriving DecidableEq

/-- Where `run_server` stands.  How far it is with `io::copy` and `flush` says the chain. -/
inductive ServerPhase
  | binding
  | accepting
  | creating (client : Nat)
  | copying (client : Nat)
  | failed
  deriving DecidableEq

structure Transfer where
  server : ServerPhase
  /-- the connections that were not accepted -/
  queue : List Nat
  clients : List Client
  /-- what was at the output path before `File::create` -/
  old : Option (List UInt8)
  deriving DecidableEq

inductive Action
  | bind (ok : Bool)
  | accept (ok : Bool)
  | create (ok : Bool)
  /-- `io::copy` into the file and `flush` -/
  | receive (op : HopOp)
  /-- a client is started -/
  | launch (input : Option (List UInt8))
  | check (i : Nat)
  | openFile (i : Nat) (ok : Bool)
  | connect (i : Nat) (ok : Bool)
  /-- `io::copy` into the socket and `shutdown` -/
  | send (i : Nat) (op : HopOp)
  deriving DecidableEq

/-- What a function of the program returned, with the number that it prints; nothing while it
runs. -/
def resultOf (state : Option HopState) (copied : Nat) : Option (Except IoError Nat) :=
  match state with
  | some .finished => some (.ok copied)
  | some .failed => some (.error .other)
  | _ => none

namespace Client

def start (input : Option (List UInt8)) : Client :=
  ⟨input, .checking, .start ⟨[], input.getD [], true⟩ 2⟩

/-- What the client put into its socket. -/
def sent (c : Client) : List UInt8 := (c.chain.pipe 1).written

def result (c : Client) : Option (Except IoError Nat) :=
  match c.phase with
  | .failed error => some (.error error)
  | .copying => resultOf c.chain.states[0]? c.sent.length
  | _ => none

def check (c : Client) : Option Client :=
  if c.phase = .checking then
    some { c with
      phase :=
        if c.input.isSome then .opening
        else .failed (.notFound "specified file not found ..") }
  else none

def openFile (c : Client) (ok : Bool) : Option Client :=
  if c.phase = .opening then
    some { c with phase := if ok then .connecting else .failed .other }
  else none

def connect (c : Client) (ok : Bool) : Option Client :=
  if c.phase = .connecting then
    some { c with phase := if ok then .copying else .failed .other }
  else none

def copy (c : Client) (hop : Nat) (op : HopOp) : Option Client :=
  if c.phase = .copying then (c.chain.step (.hop hop op)).map fun chain => { c with chain }
  else none

end Client

namespace Transfer

def start (old : Option (List UInt8)) : Transfer := ⟨.binding, [], [], old⟩

/-- The client whose bytes go to the output file. -/
def source (s : Transfer) : Option Client :=
  match s.server with
  | .copying i => s.clients[i]?
  | _ => none

/-- What is at the output path; `File::create` empties it. -/
def output (s : Transfer) : Option (List UInt8) :=
  s.source.elim s.old fun c => some c.chain.sink.written

def result (s : Transfer) : Option (Except IoError Nat) :=
  match s.server with
  | .failed => some (.error .other)
  | _ => s.source.bind fun c => resultOf c.chain.states[1]? c.chain.sink.written.length

/-- The listener is open until `run_server` returns. -/
def listening (s : Transfer) : Bool := s.server ≠ .binding && s.result.isNone

def onClient (s : Transfer) (i : Nat) (f : Client → Option Client) : Option Transfer :=
  s.clients[i]?.bind fun c => (f c).map fun c' => { s with clients := s.clients.set i c' }

def step (s : Transfer) : Action → Option Transfer
  | .bind ok =>
      if s.server = .binding then
        some { s with server := if ok then .accepting else .failed }
      else none
  | .accept ok =>
      if s.server = .accepting then
        if ok then
          s.queue.head?.map fun i => { s with server := .creating i, queue := s.queue.tail }
        else some { s with server := .failed }
      else none
  | .create ok =>
      match s.server with
      | .creating i => some { s with server := if ok then .copying i else .failed }
      | _ => none
  | .receive op =>
      match s.server with
      | .copying i => s.onClient i fun c => c.copy 1 op
      | _ => none
  | .launch input => some { s with clients := s.clients ++ [.start input] }
  | .check i => s.onClient i Client.check
  | .openFile i ok => s.onClient i fun c => c.openFile ok
  | .connect i ok =>
      if ok then
        if s.listening then
          (s.onClient i fun c => c.connect true).map fun t => { t with queue := t.queue ++ [i] }
        else none
      else s.onClient i fun c => c.connect false
  | .send i op => s.onClient i fun c => c.copy 0 op

end Transfer

def machine : Machine Transfer Action := ⟨Transfer.step⟩

/-! ## What each process keeps -/

/-- A client that is past its check has a file, and this file is what its chain begins with. -/
structure Client.Sound (c : Client) : Prop where
  linked : c.chain.Linked
  source : c.chain.source.written = c.input.getD []
  hops : c.chain.states.length = 2
  found : c.phase = .opening ∨ c.phase = .connecting ∨ c.phase = .copying → c.input.isSome

namespace Client

theorem sound_start (input : Option (List UInt8)) : (start input).Sound where
  linked := Chain.linked_start rfl 2
  source := List.nil_append _
  hops := by simp [start]
  found h := by simp [start] at h

/-- A step in another phase than the copy. -/
theorem Sound.moves {c : Client} (h : c.Sound) {phase : ClientPhase}
    (hfound : phase = .opening ∨ phase = .connecting ∨ phase = .copying → c.input.isSome) :
    ({ c with phase } : Client).Sound :=
  ⟨h.linked, h.source, h.hops, hfound⟩

theorem Sound.check {c c' : Client} (h : c.Sound) (hstep : c.check = some c') :
    c'.Sound ∧ c.phase ≠ .copying := by
  obtain ⟨hphase, heq⟩ := Option.ite_none_right_eq_some.1 hstep
  obtain rfl := Option.some.inj heq
  refine ⟨h.moves fun hp => ?_, by simp [hphase]⟩
  by_contra hnone
  simp [hnone] at hp

theorem Sound.openFile {c c' : Client} {ok : Bool} (h : c.Sound)
    (hstep : c.openFile ok = some c') : c'.Sound ∧ c.phase ≠ .copying := by
  obtain ⟨hphase, heq⟩ := Option.ite_none_right_eq_some.1 hstep
  obtain rfl := Option.some.inj heq
  exact ⟨h.moves fun _ => h.found (Or.inl hphase), by simp [hphase]⟩

theorem Sound.connect {c c' : Client} {ok : Bool} (h : c.Sound) (hstep : c.connect ok = some c') :
    c'.Sound ∧ c.phase ≠ .copying := by
  obtain ⟨hphase, heq⟩ := Option.ite_none_right_eq_some.1 hstep
  obtain rfl := Option.some.inj heq
  exact ⟨h.moves fun _ => h.found (Or.inr (Or.inl hphase)), by simp [hphase]⟩

theorem Sound.copy {c c' : Client} {hop : Nat} {op : HopOp} (h : c.Sound)
    (hstep : c.copy hop op = some c') : c'.Sound ∧ c'.phase = .copying := by
  obtain ⟨hphase, heq⟩ := Option.ite_none_right_eq_some.1 hstep
  obtain ⟨chain, hchain, rfl⟩ := Option.map_eq_some_iff.1 heq
  refine ⟨⟨h.linked.step hchain, (h.linked.source_hop hchain).1.trans h.source, ?_, h.found⟩,
    hphase⟩
  rw [(Chain.step_hop hchain).2, List.length_set]
  exact h.hops

end Client

namespace Transfer

/-- The connection that the server holds. -/
def accepted (s : Transfer) : List Nat :=
  match s.server with
  | .creating i | .copying i => [i]
  | _ => []

/-- Every connection, held or waiting, is of a client that copies its file into it. -/
structure Sound (s : Transfer) : Prop where
  clients : ∀ c ∈ s.clients, c.Sound
  connected : ∀ i ∈ s.accepted ++ s.queue, ∃ c, s.clients[i]? = some c ∧ c.phase = .copying

theorem sound_start (old : Option (List UInt8)) : (start old).Sound where
  clients _ hc := nomatch hc
  connected _ hi := nomatch hi

/-- A step of the server alone takes no connection that was not there. -/
theorem Sound.serves {s t : Transfer} (h : s.Sound) (hclients : t.clients = s.clients)
    (hconnected : ∀ i ∈ t.accepted ++ t.queue, i ∈ s.accepted ++ s.queue) : t.Sound where
  clients := hclients ▸ h.clients
  connected i hi := hclients ▸ h.connected i (hconnected i hi)

theorem onClient_eq_some {s t : Transfer} {i : Nat} {f : Client → Option Client}
    (h : s.onClient i f = some t) : ∃ c c', s.clients[i]? = some c ∧ f c = some c' ∧
      t = { s with clients := s.clients.set i c' } := by
  obtain ⟨c, hc, hmap⟩ := Option.bind_eq_some_iff.1 h
  obtain ⟨c', hf, rfl⟩ := Option.map_eq_some_iff.1 hmap
  exact ⟨c, c', hc, hf, rfl⟩

theorem Sound.onClient {s : Transfer} {i : Nat} {c c' : Client} (h : s.Sound)
    (hc : s.clients[i]? = some c) (hc' : c'.Sound)
    (hphase : c.phase = .copying → c'.phase = .copying) :
    ({ s with clients := s.clients.set i c' } : Transfer).Sound where
  clients d hd := by
    rcases List.mem_or_eq_of_mem_set hd with hd | rfl
    · exact h.clients d hd
    · exact hc'
  connected j hj := by
    obtain ⟨d, hd, hcopy⟩ := h.connected j hj
    by_cases hij : i = j
    · subst hij
      obtain rfl := Option.some.inj (hc.symm.trans hd)
      exact ⟨c', List.getElem?_set_self (List.getElem?_eq_some_iff.1 hc).1, hphase hcopy⟩
    · exact ⟨d, (List.getElem?_set_ne hij).trans hd, hcopy⟩

/-- A client that begins or ends is no client that copies. -/
theorem Sound.onClient_moves {s t : Transfer} {i : Nat} {f : Client → Option Client} (h : s.Sound)
    (hf : ∀ c c', c.Sound → f c = some c' → c'.Sound ∧ c.phase ≠ .copying)
    (ht : s.onClient i f = some t) : t.Sound := by
  obtain ⟨c, c', hc, hstep, rfl⟩ := onClient_eq_some ht
  obtain ⟨hsound, hphase⟩ := hf c c' (h.clients c (List.mem_of_getElem? hc)) hstep
  exact h.onClient hc hsound fun hcopy => absurd hcopy hphase

theorem Sound.onClient_copies {s t : Transfer} {i hop : Nat} {op : HopOp} (h : s.Sound)
    (ht : s.onClient i (fun c => c.copy hop op) = some t) : t.Sound := by
  obtain ⟨c, c', hc, hstep, rfl⟩ := onClient_eq_some ht
  obtain ⟨hsound, hphase⟩ := (h.clients c (List.mem_of_getElem? hc)).copy hstep
  exact h.onClient hc hsound fun _ => hphase

theorem Sound.step {s t : Transfer} {a : Action} (h : s.Sound) (hstep : s.step a = some t) :
    t.Sound := by
  cases a with
  | bind ok =>
    obtain ⟨hserver, heq⟩ := Option.ite_none_right_eq_some.1 hstep
    obtain rfl := Option.some.inj heq
    refine h.serves rfl fun i hi => ?_
    cases ok <;> simpa [accepted, hserver] using hi
  | accept ok =>
    obtain ⟨hserver, heq⟩ := Option.ite_none_right_eq_some.1 hstep
    cases ok with
    | false =>
      obtain rfl := Option.some.inj heq
      exact h.serves rfl fun i hi => by simpa [accepted, hserver] using hi
    | true =>
      obtain ⟨i, hi, rfl⟩ := Option.map_eq_some_iff.1 heq
      refine h.serves rfl fun j hj => ?_
      have hqueue : s.queue = i :: s.queue.tail := (List.cons_head?_tail hi).symm
      rw [hqueue]
      simpa [accepted, hserver] using hj
  | create ok =>
    cases hserver : s.server with
    | creating i =>
      simp only [Transfer.step, hserver] at hstep
      obtain rfl := Option.some.inj hstep
      refine h.serves rfl fun j hj => ?_
      cases ok with
      | true => simpa [accepted, hserver] using hj
      | false =>
        have hj : j ∈ s.queue := by simpa [accepted] using hj
        exact List.mem_append_right _ hj
    | _ => simp [Transfer.step, hserver] at hstep
  | receive op =>
    cases hserver : s.server with
    | copying i =>
      simp only [Transfer.step, hserver] at hstep
      exact h.onClient_copies hstep
    | _ => simp [Transfer.step, hserver] at hstep
  | launch input =>
    obtain rfl := Option.some.inj hstep
    refine ⟨fun c hc => ?_, fun i hi => ?_⟩
    · rcases List.mem_append.1 hc with hc | hc
      · exact h.clients c hc
      · rw [List.mem_singleton.1 hc]
        exact Client.sound_start input
    · obtain ⟨c, hc, hphase⟩ := h.connected i hi
      exact ⟨c, (List.getElem?_append_left (List.getElem?_eq_some_iff.1 hc).1).trans hc, hphase⟩
  | check i => exact h.onClient_moves (fun _ _ hc => hc.check) hstep
  | openFile i ok => exact h.onClient_moves (fun _ _ hc => hc.openFile) hstep
  | connect i ok =>
    cases ok with
    | false => exact h.onClient_moves (fun _ _ hc => hc.connect) hstep
    | true =>
      obtain ⟨-, heq⟩ := Option.ite_none_right_eq_some.1 hstep
      obtain ⟨t₀, ht₀, rfl⟩ := Option.map_eq_some_iff.1 heq
      have hsound := h.onClient_moves (fun _ _ hc => hc.connect) ht₀
      obtain ⟨c, c', hc, hconnect, rfl⟩ := onClient_eq_some ht₀
      refine ⟨hsound.clients, fun j hj => ?_⟩
      rw [← List.append_assoc] at hj
      rcases List.mem_append.1 hj with hj | hj
      · exact hsound.connected j hj
      · obtain rfl := List.mem_singleton.1 hj
        obtain ⟨-, heq'⟩ := Option.ite_none_right_eq_some.1 hconnect
        obtain rfl := Option.some.inj heq'
        exact ⟨_, List.getElem?_set_self (List.getElem?_eq_some_iff.1 hc).1, rfl⟩
  | send i op => exact h.onClient_copies hstep

end Transfer

theorem sound_of_run {old : Option (List UInt8)} {schedule : List Action} {s : Transfer}
    (h : machine.run (.start old) schedule = some s) : s.Sound :=
  machine.run_invariant (fun _ _ _ ht hstep => ht.step hstep) (Transfer.sound_start old) h

/-! ## What the server reports -/

theorem resultOf_eq_ok {state : Option HopState} {copied n : Nat}
    (h : resultOf state copied = some (.ok n)) : state = some .finished ∧ copied = n := by
  cases state with
  | none => cases h
  | some state =>
    cases state with
    | finished => exact ⟨rfl, Except.ok.inj (Option.some.inj h)⟩
    | running => cases h
    | failed => cases h

theorem Transfer.result_eq_ok {s : Transfer} {n : Nat} (h : s.result = some (.ok n)) :
    ∃ i c, s.server = .copying i ∧ s.clients[i]? = some c ∧
      c.chain.states[1]? = some .finished ∧ c.chain.sink.written.length = n := by
  cases hserver : s.server with
  | copying i =>
    simp only [Transfer.result, Transfer.source, hserver] at h
    obtain ⟨c, hc, hresult⟩ := Option.bind_eq_some_iff.1 h
    exact ⟨i, c, rfl, hc, resultOf_eq_ok hresult⟩
  | _ => simp [Transfer.result, Transfer.source, hserver] at h

/-- Behind a file that is reported saved stands a client with a file, and what came out of its
chain is the output. -/
theorem Transfer.Sound.source_of_saved {s : Transfer} (h : s.Sound) {n : Nat}
    (hsaved : s.result = some (.ok n)) :
    ∃ c content, s.source = some c ∧ c.input = some content ∧ c.phase = .copying ∧ c.Sound ∧
      c.chain.source.written = content ∧ c.chain.states[1]? = some .finished ∧
      s.output = some c.chain.sink.written ∧ c.chain.sink.written.length = n := by
  obtain ⟨i, c, hserver, hc, hfinished, hlength⟩ := Transfer.result_eq_ok hsaved
  have hclient := h.clients c (List.mem_of_getElem? hc)
  obtain ⟨c', hc', hphase⟩ := h.connected i (by simp [Transfer.accepted, hserver])
  obtain rfl := Option.some.inj (hc.symm.trans hc')
  obtain ⟨content, hcontent⟩ := Option.isSome_iff_exists.1 (hclient.found (Or.inr (Or.inr hphase)))
  have hsource : c.chain.source.written = content := by rw [hclient.source, hcontent]; rfl
  have hread : s.source = some c := by rw [Transfer.source, hserver]; exact hc
  have houtput : s.output = some c.chain.sink.written := by rw [Transfer.output, hread]; rfl
  exact ⟨c, content, hread, hcontent, hphase, hclient, hsource, hfinished, houtput, hlength⟩

/-- **What "file saved" means**: the output is what one client put into its socket, all of its file
if the client reports success, and else as much as it had sent. -/
theorem saved_is_sent {old : Option (List UInt8)} {schedule : List Action} {s : Transfer}
    (h : machine.run (.start old) schedule = some s) {n : Nat} (hsaved : s.result = some (.ok n)) :
    ∃ c content data, s.source = some c ∧ c.input = some content ∧
      s.output = some data ∧ data.length = n ∧ data = c.sent ∧
        (c.result = some (.ok n) ∧ data = content ∨
          c.result = some (.error .other) ∧ data <+: content) := by
  obtain ⟨c, content, hread, hcontent, hphase, hclient, hsource, hfinished, houtput, hlength⟩ :=
    (sound_of_run h).source_of_saved hsaved
  obtain ⟨state, hstate, hstopped⟩ := hclient.linked.stopped_before hfinished
  have hstates : c.chain.states = [state, .finished] := by
    obtain ⟨a, b, hab⟩ := List.length_eq_two.1 hclient.hops
    rw [hab] at hstate hfinished
    obtain rfl := Option.some.inj hstate
    obtain rfl := Option.some.inj hfinished
    exact hab
  have hsent : c.chain.sink.written = c.sent :=
    hclient.linked.sink_eq_pipe (by simp [hstates])
  refine ⟨c, content, _, hread, hcontent, houtput, hlength, hsent, ?_⟩
  cases state with
  | running => exact absurd rfl hstopped
  | finished =>
    have hall : c.sent = content :=
      (hclient.linked.pipe_whole (by simp [hstates])).trans hsource
    refine Or.inl ⟨?_, hsent.trans hall⟩
    rw [Client.result, hphase, ← hlength, hsent, hstates]
    rfl
  | failed =>
    refine Or.inr ⟨?_, hsource ▸ hclient.linked.sink_isPrefix⟩
    rw [Client.result, hphase, hstates]
    rfl

/-- A client that is killed behind two of its three bytes: the file is saved. -/
def cutSchedule : List Action :=
  [.bind true, .launch (some [7, 8, 9]), .check 0, .openFile 0 true, .connect 0 true, .accept true,
    .create true, .send 0 (.fill 3), .send 0 (.drain 2), .receive (.fill 1), .send 0 .fail,
    .receive (.drain 1), .receive (.fill 1), .receive (.drain 1), .receive .finish]

theorem two_bytes_saved : ∃ s, machine.run (.start none) cutSchedule = some s ∧
    ∃ c content data, s.source = some c ∧ c.input = some content ∧ s.output = some data ∧
      data.length = 2 ∧ data = c.sent ∧ (c.result = some (.ok 2) ∧ data = content ∨
        c.result = some (.error .other) ∧ data <+: content) :=
  ⟨_, rfl, saved_is_sent (rfl : machine.run (.start none) cutSchedule = some _) rfl⟩

/-! ## What the reports leave open -/

/-- The bytes that are in the socket of a client, of which the server has read none. -/
def Client.inSocket (c : Client) : List UInt8 := (c.chain.pipe 1).pending

/-- A socket holds no more than `capacity` bytes, and no more than `backlog` connections wait. -/
def Transfer.Fits (capacity backlog : Nat) (s : Transfer) : Prop :=
  s.queue.length ≤ backlog ∧ ∀ c ∈ s.clients, c.inSocket.length ≤ capacity

instance (capacity backlog : Nat) : DecidablePred (Transfer.Fits capacity backlog) :=
  fun _ => inferInstanceAs (Decidable (_ ∧ _))

/-- The machine with sockets and a backlog of a kernel, which have a size. -/
def bounded (capacity backlog : Nat) : Machine Transfer Action :=
  machine.restrict (Transfer.Fits capacity backlog)

/-- A client that has put the first `k` bytes of its file into the socket and then stopped. -/
def stoppedClient (content : List UInt8) (k : Nat) (op : HopOp) : Client :=
  ⟨some content, .copying, ⟨⟨content.take k, content.drop k, true⟩,
    [⟨[], op.next, ⟨[], content.take k, true⟩⟩, .start]⟩⟩

def connecting (i : Nat) (content : List UInt8) : List Action :=
  [.launch (some content), .check i, .openFile i true, .connect i true]

def sending (i k : Nat) (op : HopOp) : List Action :=
  [.send i (.fill k), .send i (.drain k), .send i op]

section
variable {capacity backlog : Nat}

theorem step_bounded {s t : Transfer} {a : Action} (h : s.step a = some t)
    (hqueue : t.queue.length ≤ backlog) (hsockets : ∀ c ∈ t.clients, c.inSocket.length ≤ capacity) :
    (bounded capacity backlog).step s a = some t :=
  machine.restrict_step_eq_some_iff.2 ⟨h, hqueue, hsockets⟩

theorem sockets_last {cs : List Client} {c : Client} (hcs : ∀ d ∈ cs, d.inSocket.length ≤ capacity)
    (hc : c.inSocket.length ≤ capacity) : ∀ d ∈ cs ++ [c], d.inSocket.length ≤ capacity :=
  List.forall_mem_append.2 ⟨hcs, List.forall_mem_singleton.2 hc⟩

theorem onClient_last (server : ServerPhase) (q : List Nat) (cs : List Client) (c : Client)
    (old : Option (List UInt8)) (f : Client → Option Client) :
    Transfer.onClient ⟨server, q, cs ++ [c], old⟩ cs.length f =
      (f c).map fun c' => ⟨server, q, cs ++ [c'], old⟩ := by
  simp [Transfer.onClient]

theorem run_connecting (q : List Nat) (cs : List Client) (old : Option (List UInt8))
    (content : List UInt8) (hq : q.length < backlog)
    (hcs : ∀ d ∈ cs, d.inSocket.length ≤ capacity) :
    (bounded capacity backlog).run ⟨.accepting, q, cs, old⟩ (connecting cs.length content) =
      some ⟨.accepting, q ++ [cs.length],
        cs ++ [{ Client.start (some content) with phase := .copying }], old⟩ := by
  have hsockets (phase : ClientPhase) : ∀ d ∈ cs ++ [{ Client.start (some content) with phase }],
      d.inSocket.length ≤ capacity := sockets_last hcs (Nat.zero_le _)
  have hcheck : Transfer.step ⟨.accepting, q, cs ++ [Client.start (some content)], old⟩
      (.check cs.length) = some ⟨.accepting, q,
        cs ++ [{ Client.start (some content) with phase := .opening }], old⟩ :=
    onClient_last ..
  have hopen : Transfer.step ⟨.accepting, q,
      cs ++ [{ Client.start (some content) with phase := .opening }], old⟩
      (.openFile cs.length true) = some ⟨.accepting, q,
        cs ++ [{ Client.start (some content) with phase := .connecting }], old⟩ :=
    onClient_last ..
  have hconnect : Transfer.step ⟨.accepting, q,
      cs ++ [{ Client.start (some content) with phase := .connecting }], old⟩
      (.connect cs.length true) = some ⟨.accepting, q ++ [cs.length],
        cs ++ [{ Client.start (some content) with phase := .copying }], old⟩ := by
    simp [Transfer.step, onClient_last, Client.connect, Transfer.listening, Transfer.result,
      Transfer.source]
  have hlaunch : Transfer.step ⟨.accepting, q, cs, old⟩ (.launch (some content)) =
      some ⟨.accepting, q, cs ++ [Client.start (some content)], old⟩ := rfl
  have hlength : (q ++ [cs.length]).length ≤ backlog := by
    rw [List.length_append]
    exact hq
  exact Machine.run_cons _ (step_bounded hlaunch hq.le (hsockets _)) <|
    Machine.run_cons _ (step_bounded hcheck hq.le (hsockets _)) <|
      Machine.run_cons _ (step_bounded hopen hq.le (hsockets _)) <|
        Machine.run_cons _ (step_bounded hconnect hlength (hsockets _)) rfl

theorem run_sending (q : List Nat) (cs : List Client) (old : Option (List UInt8))
    {content : List UInt8} {k : Nat} {op : HopOp}
    (hop : op = .fail ∨ op = .finish ∧ content.length ≤ k)
    (hk : (content.take k).length ≤ capacity) (hq : q.length ≤ backlog)
    (hcs : ∀ d ∈ cs, d.inSocket.length ≤ capacity) :
    (bounded capacity backlog).run
      ⟨.accepting, q, cs ++ [{ Client.start (some content) with phase := .copying }], old⟩
      (sending cs.length k op) =
      some ⟨.accepting, q, cs ++ [stoppedClient content k op], old⟩ := by
  have hfill : (Client.start (some content)).chain.step (.hop 0 (.fill k)) =
      some ⟨⟨content.take k, content.drop k, true⟩,
        [⟨content.take k, .running, .empty⟩, .start]⟩ := rfl
  have hdrain : (⟨⟨content.take k, content.drop k, true⟩,
      [⟨content.take k, .running, .empty⟩, .start]⟩ : Chain UInt8).step (.hop 0 (.drain k)) =
        some ⟨⟨content.take k, content.drop k, true⟩,
          [⟨[], .running, ⟨[], content.take k, false⟩⟩, .start]⟩ := by
    simp [Chain.step, actAt, Hop.act, Chain.ofPair, Pipe.write, Pipe.empty, List.take_take]
  have hstop : (⟨⟨content.take k, content.drop k, true⟩,
      [⟨[], .running, ⟨[], content.take k, false⟩⟩, .start]⟩ : Chain UInt8).step (.hop 0 op) =
        some (stoppedClient content k op).chain := by
    rcases hop with rfl | ⟨rfl, hlength⟩
    · rfl
    · simp [stoppedClient, Chain.step, actAt, Hop.act, Pipe.close, Chain.ofPair, HopOp.next,
        hlength]
  have hsend {chain chain' : Chain UInt8} {op : HopOp} (h : chain.step (.hop 0 op) = some chain') :
      Transfer.step ⟨.accepting, q, cs ++ [⟨some content, .copying, chain⟩], old⟩
        (.send cs.length op) =
        some ⟨.accepting, q, cs ++ [⟨some content, .copying, chain'⟩], old⟩ := by
    simp [Transfer.step, onClient_last, Client.copy, h]
  exact Machine.run_cons _ (step_bounded (hsend hfill) hq (sockets_last hcs (Nat.zero_le _))) <|
    Machine.run_cons _ (step_bounded (hsend hdrain) hq (sockets_last hcs hk)) <|
      Machine.run_cons _ (step_bounded (hsend hstop) hq (sockets_last hcs hk)) rfl

/-- One client after the other is started, sends its file and reports success. -/
theorem run_sessions (q : List Nat) (cs : List Client) (old : Option (List UInt8))
    {files : List (List UInt8)} (hfiles : ∀ file ∈ files, file.length ≤ capacity)
    (hq : q.length + files.length ≤ backlog) (hcs : ∀ d ∈ cs, d.inSocket.length ≤ capacity) :
    ∃ schedule q',
    (bounded capacity backlog).run ⟨.accepting, q, cs, old⟩ schedule =
      some ⟨.accepting, q ++ q',
        cs ++ files.map fun content => stoppedClient content content.length .finish, old⟩ ∧
      q'.length = files.length := by
  induction files generalizing q cs with
  | nil => exact ⟨[], [], by simp, rfl⟩
  | cons content files ih =>
    obtain ⟨hcontent, hfiles⟩ := List.forall_mem_cons.1 hfiles
    rw [List.length_cons] at hq
    have hk : (content.take content.length).length ≤ capacity := by rwa [List.take_length]
    obtain ⟨schedule, q', hrun, hlength⟩ := ih (q ++ [cs.length])
      (cs ++ [stoppedClient content content.length .finish]) hfiles
      (by rw [List.length_append, List.length_singleton]; omega) (sockets_last hcs hk)
    refine ⟨connecting cs.length content ++ (sending cs.length content.length .finish ++ schedule),
      cs.length :: q', ?_, congrArg (· + 1) hlength⟩
    have hqueue : (q ++ [cs.length]).length ≤ backlog := by
      rw [List.length_append, List.length_singleton]
      omega
    rw [Machine.run_append, run_connecting q cs old content (by omega) hcs, Option.bind_some,
      Machine.run_append, run_sending _ cs old (Or.inr ⟨rfl, le_rfl⟩) hk hqueue hcs,
      Option.bind_some, hrun]
    simp

/-- The server takes what the client at the head of the queue has sent. -/
def receiving (k : Nat) : List Action :=
  [.accept true, .create true, .receive (.fill k), .receive (.drain k), .receive .finish]

/-- The client when the server has saved what it sent. -/
def savedClient (content : List UInt8) (k : Nat) (op : HopOp) : Client :=
  ⟨some content, .copying, ⟨⟨content.take k, content.drop k, true⟩,
    [⟨[], op.next, ⟨content.take k, [], true⟩⟩, ⟨[], .finished, ⟨[], content.take k, true⟩⟩]⟩⟩

theorem receive_head {chain chain' : Chain UInt8} {op : HopOp}
    (h : chain.step (.hop 1 op) = some chain') (q : List Nat) (cs : List Client)
    (old input : Option (List UInt8)) :
    Transfer.step ⟨.copying 0, q, ⟨input, .copying, chain⟩ :: cs, old⟩ (.receive op) =
      some ⟨.copying 0, q, ⟨input, .copying, chain'⟩ :: cs, old⟩ := by
  simp [Transfer.step, Transfer.onClient, Client.copy, h]

theorem run_receiving (q : List Nat) (cs : List Client) (old : Option (List UInt8))
    (content : List UInt8) (k : Nat) (op : HopOp)
    (hk : (content.take k).length ≤ capacity) (hq : q.length ≤ backlog)
    (hcs : ∀ d ∈ cs, d.inSocket.length ≤ capacity) :
    (bounded capacity backlog).run ⟨.accepting, 0 :: q, stoppedClient content k op :: cs, old⟩
        (receiving k) =
      some ⟨.copying 0, q, savedClient content k op :: cs, old⟩ := by
  have hfill : (stoppedClient content k op).chain.step (.hop 1 (.fill k)) =
      some ⟨⟨content.take k, content.drop k, true⟩, [⟨[], op.next, ⟨content.take k, [], true⟩⟩,
        ⟨content.take k, .running, .empty⟩]⟩ := by
    simp [stoppedClient, Chain.step, actAt, Hop.act, Hop.start, Chain.ofPair, Pipe.take,
      List.take_take]
  have hdrain : (⟨⟨content.take k, content.drop k, true⟩,
      [⟨[], op.next, ⟨content.take k, [], true⟩⟩, ⟨content.take k, .running, .empty⟩]⟩ :
        Chain UInt8).step (.hop 1 (.drain k)) =
        some ⟨⟨content.take k, content.drop k, true⟩, [⟨[], op.next, ⟨content.take k, [], true⟩⟩,
          ⟨[], .running, ⟨[], content.take k, false⟩⟩]⟩ := by
    simp [Chain.step, actAt, Hop.act, Chain.ofPair, Pipe.write, Pipe.empty, List.take_take]
  have hfinish : (⟨⟨content.take k, content.drop k, true⟩,
      [⟨[], op.next, ⟨content.take k, [], true⟩⟩, ⟨[], .running, ⟨[], content.take k, false⟩⟩]⟩ :
        Chain UInt8).step (.hop 1 .finish) = some (savedClient content k op).chain := rfl
  have hsockets {c : Client} (hc : c.inSocket.length ≤ capacity) :
      ∀ d ∈ c :: cs, d.inSocket.length ≤ capacity := List.forall_mem_cons.2 ⟨hc, hcs⟩
  have hstopped : (stoppedClient content k op).inSocket.length ≤ capacity := hk
  have haccept : Transfer.step ⟨.accepting, 0 :: q, stoppedClient content k op :: cs, old⟩
      (.accept true) = some ⟨.creating 0, q, stoppedClient content k op :: cs, old⟩ := rfl
  have hcreate : Transfer.step ⟨.creating 0, q, stoppedClient content k op :: cs, old⟩
      (.create true) = some ⟨.copying 0, q, stoppedClient content k op :: cs, old⟩ := rfl
  refine Machine.run_cons _ (step_bounded haccept hq (hsockets hstopped)) <|
    Machine.run_cons _ (step_bounded hcreate hq (hsockets hstopped)) ?_
  exact Machine.run_cons _
      (step_bounded (receive_head hfill q cs old _) hq (hsockets (Nat.zero_le _))) <|
    Machine.run_cons _
      (step_bounded (receive_head hdrain q cs old _) hq (hsockets (Nat.zero_le _))) <|
      Machine.run_cons _
        (step_bounded (receive_head hfinish q cs old _) hq (hsockets (Nat.zero_le _))) rfl

theorem run_bind (old : Option (List UInt8)) :
    (bounded capacity backlog).run (.start old) [.bind true] = some ⟨.accepting, [], [], old⟩ :=
  Machine.run_cons _ (step_bounded rfl (Nat.zero_le _) (List.forall_mem_nil _)) rfl

end

/-- **"File saved" says that what was saved is a front part**, and nothing more. -/
theorem saved_iff (content data : List UInt8) :
    (∃ old schedule s c, machine.run (.start old) schedule = some s ∧ s.source = some c ∧
      c.input = some content ∧ s.output = some data ∧ s.result = some (.ok data.length)) ↔
    data <+: content := by
  constructor
  · rintro ⟨old, schedule, s, c, hrun, hsource, hinput, houtput, hresult⟩
    obtain ⟨c', content', hread, hcontent, -, hclient, hwritten, -, hsink, -⟩ :=
      (sound_of_run hrun).source_of_saved hresult
    obtain rfl := Option.some.inj (hsource.symm.trans hread)
    obtain rfl := Option.some.inj (hinput.symm.trans hcontent)
    obtain rfl := Option.some.inj (houtput.symm.trans hsink)
    rw [← hwritten]
    exact hclient.linked.sink_isPrefix
  · intro hprefix
    have hdata : content.take data.length = data := (List.prefix_iff_eq_take.1 hprefix).symm
    have hk : (content.take data.length).length ≤ data.length := List.length_take_le ..
    have hnone : ∀ d ∈ ([] : List Client), d.inSocket.length ≤ data.length :=
      List.forall_mem_nil _
    refine ⟨none, [.bind true] ++ (connecting 0 content ++ (sending 0 data.length .fail ++
      receiving data.length)), ⟨.copying 0, [], [savedClient content data.length .fail], none⟩,
      savedClient content data.length .fail, ?_, rfl, rfl, ?_, ?_⟩
    · refine machine.run_of_restrict (P := Transfer.Fits data.length 1) ?_
      exact Machine.run_trans _ (run_bind none) <|
        Machine.run_trans _ (run_connecting [] [] none content Nat.zero_lt_one hnone) <|
          Machine.run_trans _ (run_sending [0] [] none (Or.inl rfl) hk le_rfl hnone) <|
            run_receiving [] [] none content data.length .fail hk (Nat.zero_le _) hnone
    · exact congrArg some hdata
    · exact congrArg (fun l : List UInt8 => some (Except.ok l.length)) hdata

/-- **"Successfully sent" says nothing about the server**: of files that each fit into a socket, and
no more than the backlog has room for, every client reports success, and the server saved the file
of the first. -/
theorem sent_without_receipt {capacity backlog : Nat} (old : Option (List UInt8))
    (content : List UInt8) (files : List (List UInt8))
    (hsizes : ∀ file ∈ content :: files, file.length ≤ capacity)
    (hnumber : (content :: files).length ≤ backlog) :
    ∃ schedule s, (bounded capacity backlog).run (.start old) schedule = some s ∧
      s.clients.map (fun c => (c.input, c.result)) =
        (content :: files).map (fun file => (some file, some (.ok file.length))) ∧
      s.output = some content ∧ s.result = some (.ok content.length) := by
  obtain ⟨hcontent, hfiles⟩ := List.forall_mem_cons.1 hsizes
  rw [List.length_cons] at hnumber
  have hresult (file : List UInt8) :
      (stoppedClient file file.length .finish).result = some (.ok file.length) :=
    congrArg (fun l : List UInt8 => some (Except.ok l.length)) file.take_length
  have hsaved :
      (savedClient content content.length .finish).result = some (.ok content.length) := by
    simp [savedClient, Client.result, Client.sent, Chain.pipe, lastPipe, Pipe.written,
      Chain.states, HopOp.next, resultOf]
  have hk {file : List UInt8} (h : file.length ≤ capacity) :
      (file.take file.length).length ≤ capacity := by rwa [List.take_length]
  have hstopped : ∀ d ∈ files.map fun file => stoppedClient file file.length .finish,
      d.inSocket.length ≤ capacity :=
    List.forall_mem_map.2 fun file hfile => hk (hfiles file hfile)
  have hnone : ∀ d ∈ ([] : List Client), d.inSocket.length ≤ capacity := List.forall_mem_nil _
  have hroom : [0].length + files.length ≤ backlog := by
    rw [List.length_singleton]
    omega
  obtain ⟨schedule, q', hrun, hlength⟩ := run_sessions [0]
    [stoppedClient content content.length .finish] old hfiles hroom
    (List.forall_mem_singleton.2 (hk hcontent))
  refine ⟨[.bind true] ++ (connecting 0 content ++ (sending 0 content.length .finish ++
    (schedule ++ receiving content.length))), _, Machine.run_trans _ (run_bind old) <|
      Machine.run_trans _ (run_connecting [] [] old content (by simp; omega) hnone) <|
        Machine.run_trans _ (run_sending [0] [] old (Or.inr ⟨rfl, le_rfl⟩) (hk hcontent)
          (by simp; omega) hnone) <|
          Machine.run_trans _ hrun (run_receiving q' _ old content content.length .finish
            (hk hcontent) (by omega) hstopped),
    ?_, ?_, ?_⟩
  · have hmap : files.map ((fun c : Client => (c.input, c.result)) ∘
        fun file => stoppedClient file file.length .finish) =
          files.map fun file => (some file, some (.ok file.length)) :=
      List.map_congr_left fun file _ => Prod.ext rfl (hresult file)
    rw [List.map_cons, List.map_cons, ← hmap, ← List.map_map]
    exact congrArg (· :: _) (Prod.ext rfl hsaved)
  · exact congrArg some content.take_length
  · exact hresult content

/-- Three clients, and room for their files. -/
theorem three_files_sent : ∃ schedule s,
    (bounded 65536 1024).run (.start none) schedule = some s ∧
      s.clients.map (fun c => (c.input, c.result)) =
        [(some [7, 8, 9], some (.ok 3)), (some [], some (.ok 0)), (some [1, 2], some (.ok 2))] ∧
      s.output = some [7, 8, 9] ∧ s.result = some (.ok 3) :=
  sent_without_receipt none [7, 8, 9] [[], [1, 2]] (by simp) (by simp)

end RustSamples.FileSender
