import RustSamples.AntiDdosAccounting
import RustSamples.Relay

/-! # The bytes behind the `anti_ddos` shield

Here every handler of the shield has its two streams, the client's and the one to the protected
server.  The first read goes into a buffer of 4096 bytes; after the rate block the handler connects
to the server, writes what it read, and copies both ways, each direction with a buffer of its own,
until the first of the two ends.  `select!` then drops the other, and the handler both streams.

The machine is the shield with these streams beside it: a move of a handler that reads, or that ends
the copying, is one step with what it does to the bytes.  Clients and the server may write, close
and read at any time.  On its way out a handler drops its streams, which is here one step with the
move that leaves.
-/
namespace RustSamples.AntiDdos
open Scheduling Relay

/-- The length of `buffer` in `handle_client`. -/
def bufferLength : Nat := 4096

/-- How far `handle_client` is with the server. -/
inductive Stage
  | notConnected
  /-- `write_all` of the first bytes -/
  | forwarding
  /-- in the `select!` -/
  | copying
  deriving DecidableEq

inductive Direction
  | toUpstream
  | toClient
  deriving DecidableEq

/-- The streams of a handler. -/
structure Session where
  stage : Stage
  /-- from the client to the protected server -/
  up : Chain UInt8
  down : Chain UInt8
  deriving DecidableEq

/-- What a client or the server does with its end. -/
inductive EndOp
  | write (data : List UInt8)
  | close
  | read (k : Nat)
  deriving DecidableEq

/-- What a handler does between the rate block and the end of the `select!`. -/
inductive Work
  | connect
  /-- `write_all` writes a piece -/
  | forward (k : Nat)
  | select
  | fill (d : Direction) (k : Nat)
  | drain (d : Direction) (k : Nat)
  deriving DecidableEq

/-- The handler is on its way out. -/
def Phase.leaves : Phase → Bool
  | .returning | .releasing | .done => true
  | _ => false

namespace Session

def start : Session := ⟨.notConnected, .start .empty 1, .start .empty 1⟩

def onUp (ss : Session) (op : ChainOp UInt8) : Option Session :=
  (ss.up.step op).map fun up => { ss with up }

def onDown (ss : Session) (op : ChainOp UInt8) : Option Session :=
  (ss.down.step op).map fun down => { ss with down }

def copy (ss : Session) (op : HopOp) : Direction → Option Session
  | .toUpstream => ss.onUp (.hop 0 op)
  | .toClient => ss.onDown (.hop 0 op)

/-- The timed read returns bytes. -/
def read (k : Nat) (ss : Session) : Option Session :=
  if 0 < k ∧ k ≤ bufferLength ∧ k ≤ ss.up.source.pending.length then ss.onUp (.hop 0 (.fill k))
  else none

/-- The timed read returns 0. -/
def eof (ss : Session) : Option Session :=
  if ss.up.source.closed ∧ ss.up.source.pending.isEmpty then some ss else none

/-- What the handler holds of the client's bytes. -/
def buffered (ss : Session) : List UInt8 := ss.up.hops.flatMap Hop.buffer

def work (ss : Session) : Work → Option Session
  | .connect => if ss.stage = .notConnected then some { ss with stage := .forwarding } else none
  | .forward k => if ss.stage = .forwarding then ss.onUp (.hop 0 (.drain k)) else none
  | .select =>
      if ss.stage = .forwarding ∧ ss.buffered.isEmpty then some { ss with stage := .copying }
      else none
  | .fill d k => if ss.stage = .copying then ss.copy (.fill k) d else none
  | .drain d k => if ss.stage = .copying then ss.copy (.drain k) d else none

/-- One direction of the `select!` has come to its end. -/
def ends (d : Direction) (ss : Session) : Option Session :=
  if ss.stage = .copying then ss.copy .finish d else none

def client (ss : Session) : EndOp → Option Session
  | .write data => ss.onUp (.write data)
  | .close => ss.onUp .close
  | .read k => ss.onDown (.take k)

def upstream (ss : Session) (op : EndOp) : Option Session :=
  if ss.stage = .notConnected then none
  else
    match op with
    | .write data => ss.onDown (.write data)
    | .close => ss.onDown .close
    | .read k => ss.onUp (.take k)

/-- The streams are dropped when the handler leaves. -/
def settle (ss : Session) (phase : Phase) : Session :=
  if phase.leaves then ⟨ss.stage, ss.up.failAt 0, ss.down.failAt 0⟩ else ss

end Session

variable {Addr : Type} [DecidableEq Addr]

/-- The shield, and the streams of each handler. -/
structure Proxy (Addr : Type) where
  shield : Shield Addr
  sessions : List Session

inductive ProxyAction (Addr : Type)
  | accept (addr : Addr)
  | sweep (key : Addr) (now : Nat)
  /-- a move that reads nothing -/
  | move (i : Nat) (m : Move)
  | read (i k : Nat)
  | eof (i : Nat)
  | work (i : Nat) (w : Work)
  | ends (i : Nat) (d : Direction)
  | client (i : Nat) (op : EndOp)
  | upstream (i : Nat) (op : EndOp)
  deriving DecidableEq

/-- The timed read has something to return. -/
def Move.reads : Move → Bool
  | .read .data | .read .eof => true
  | _ => false

namespace Proxy

def start : Proxy Addr := ⟨.start, []⟩

/-- A move of handler `i` and what it does to the bytes. -/
def moves (s : Proxy Addr) (i : Nat) (m : Move) (f : Session → Option Session) :
    Option (Proxy Addr) :=
  (AntiDdos.shield.step s.shield (.handler i m)).bind fun sh =>
    sh.handlers[i]?.bind fun h => s.sessions[i]?.bind fun ss => (f ss).map fun ss' =>
      ⟨sh, s.sessions.set i (ss'.settle h.phase)⟩

/-- Something happens to the bytes of handler `i`, which is not on its way out. -/
def works (s : Proxy Addr) (i : Nat) (enabled : Phase → Bool) (f : Session → Option Session) :
    Option (Proxy Addr) :=
  s.shield.handlers[i]?.bind fun h => s.sessions[i]?.bind fun ss =>
    if enabled h.phase then (f ss).map fun ss' => { s with sessions := s.sessions.set i ss' }
    else none

def step (s : Proxy Addr) : ProxyAction Addr → Option (Proxy Addr)
  | .accept addr =>
      (AntiDdos.shield.step s.shield (.accept addr)).map fun sh => ⟨sh, s.sessions ++ [.start]⟩
  | .sweep key now =>
      (AntiDdos.shield.step s.shield (.sweep key now)).map fun sh => { s with shield := sh }
  | .move i m => if m.reads then none else s.moves i m some
  | .read i k => s.moves i (.read .data) (Session.read k)
  | .eof i => s.moves i (.read .eof) Session.eof
  | .work i w => s.works i (fun p => p = .proxying) fun ss => ss.work w
  | .ends i d => s.moves i .finishProxying (Session.ends d)
  | .client i op => s.works i (fun _ => true) fun ss => ss.client op
  | .upstream i op => s.works i (fun _ => true) fun ss => ss.upstream op

end Proxy

/-- The proxy under every interleaving of its handlers, its clients and the server. -/
def proxy : Machine (Proxy Addr) (ProxyAction Addr) := ⟨Proxy.step⟩

/-! ## One session -/

/-- What every step keeps of the streams: a byte is written to the server only when there is a
connection to it. -/
structure Session.Sound (ss : Session) : Prop where
  up : ss.up.Linked
  down : ss.down.Linked
  single : ss.up.states.length = 1 ∧ ss.down.states.length = 1
  unopened : ss.stage = .notConnected → ss.up.sink.written = [] ∧ ss.down.source.written = []

namespace Session

theorem sound_start : start.Sound where
  up := Chain.linked_start rfl 1
  down := Chain.linked_start rfl 1
  single := ⟨rfl, rfl⟩
  unopened _ := ⟨rfl, rfl⟩

theorem Sound.onUp {ss ss' : Session} {op : ChainOp UInt8} (h : ss.Sound)
    (hdrain : ss.stage = .notConnected → ∀ i k, op ≠ .hop i (.drain k))
    (hstep : ss.onUp op = some ss') :
    ss'.Sound ∧ ∃ up, ss.up.step op = some up ∧ ss' = { ss with up } := by
  obtain ⟨up, hup, rfl⟩ := Option.map_eq_some_iff.1 hstep
  refine ⟨⟨h.up.step hup, h.down, ⟨?_, h.single.2⟩, fun hstage => ?_⟩, up, hup, rfl⟩
  · change up.states.length = 1
    rw [Chain.states_step hup]
    cases op with
    | hop i op => exact List.length_set.trans h.single.1
    | _ => exact h.single.1
  · have hhops : ss.up.hops ≠ [] := by
      intro hnil
      have hlen := h.single.1
      rw [Chain.states, hnil] at hlen
      cases hlen
    exact ⟨(Chain.sink_step (hdrain hstage) hhops hup).trans (h.unopened hstage).1,
      (h.unopened hstage).2⟩

theorem Sound.onDown {ss ss' : Session} {op : ChainOp UInt8} (h : ss.Sound)
    (hwrite : ss.stage = .notConnected → ∀ data, op ≠ .write data)
    (hstep : ss.onDown op = some ss') :
    ss'.Sound ∧ ∃ down, ss.down.step op = some down ∧ ss' = { ss with down } := by
  obtain ⟨down, hdown, rfl⟩ := Option.map_eq_some_iff.1 hstep
  refine ⟨⟨h.up, h.down.step hdown, ⟨h.single.1, ?_⟩, fun hstage => ?_⟩, down, hdown, rfl⟩
  · change down.states.length = 1
    rw [Chain.states_step hdown]
    cases op with
    | hop i op => exact List.length_set.trans h.single.2
    | _ => exact h.single.2
  · exact ⟨(h.unopened hstage).1,
      (h.down.source_step (hwrite hstage) hdown).trans (h.unopened hstage).2⟩

theorem stage_onUp {ss ss' : Session} {op : ChainOp UInt8} (hstep : ss.onUp op = some ss') :
    ss'.stage = ss.stage := by
  obtain ⟨up, -, rfl⟩ := Option.map_eq_some_iff.1 hstep
  rfl

theorem stage_onDown {ss ss' : Session} {op : ChainOp UInt8} (hstep : ss.onDown op = some ss') :
    ss'.stage = ss.stage := by
  obtain ⟨down, -, rfl⟩ := Option.map_eq_some_iff.1 hstep
  rfl

theorem stage_copy {ss ss' : Session} {op : HopOp} {d : Direction}
    (hstep : ss.copy op d = some ss') : ss'.stage = ss.stage := by
  cases d with
  | toUpstream => exact stage_onUp hstep
  | toClient => exact stage_onDown hstep

theorem stage_client {ss ss' : Session} {op : EndOp} (hstep : ss.client op = some ss') :
    ss'.stage = ss.stage := by
  cases op with
  | read k => exact stage_onDown hstep
  | _ => exact stage_onUp hstep

theorem stage_upstream {ss ss' : Session} {op : EndOp} (hstep : ss.upstream op = some ss') :
    ss'.stage = ss.stage := by
  obtain ⟨-, heq⟩ := Option.ite_none_left_eq_some.1 hstep
  cases op with
  | read k => exact stage_onUp heq
  | _ => exact stage_onDown heq

/-- Where the two directions stand. -/
def states (ss : Session) : List HopState × List HopState := (ss.up.states, ss.down.states)

/-- There is an open connection to the server. -/
def connected (ss : Session) : Bool :=
  decide (ss.stage ≠ .notConnected) && decide (ss.states = ([.running], [.running]))

/-- Neither direction has ended. -/
def Running (ss : Session) : Prop := ss.states = ([.running], [.running])

/-- Not both directions have come to their end. -/
def OneCut (ss : Session) : Prop := ss.states ≠ ([.finished], [.finished])

theorem Running.oneCut {ss : Session} (h : ss.Running) : ss.OneCut := by
  rw [OneCut, h]
  decide

theorem Sound.copy {ss ss' : Session} {op : HopOp} {d : Direction} (h : ss.Sound)
    (hrun : ss.Running) (hdrain : ss.stage = .notConnected → ∀ k, op ≠ .drain k)
    (hstep : ss.copy op d = some ss') :
    ss'.Sound ∧ ss'.stage = ss.stage ∧ (ss'.states = ([op.next], [.running]) ∨
      ss'.states = ([.running], [op.next])) := by
  obtain ⟨hup, hdown⟩ := Prod.mk.inj hrun
  cases d with
  | toUpstream =>
    obtain ⟨hsound, up, hchain, rfl⟩ := h.onUp (fun hstage i k he =>
      hdrain hstage k (ChainOp.hop.inj he).2) hstep
    refine ⟨hsound, rfl, Or.inl (Prod.ext ?_ hdown)⟩
    rw [states, Chain.states_step hchain, hup]
    rfl
  | toClient =>
    obtain ⟨hsound, down, hchain, rfl⟩ := h.onDown (fun _ => by nofun) hstep
    refine ⟨hsound, rfl, Or.inr (Prod.ext hup ?_)⟩
    rw [states, Chain.states_step hchain, hdown]
    rfl

theorem Sound.copy_running {ss ss' : Session} {op : HopOp} {d : Direction} (h : ss.Sound)
    (hrun : ss.Running) (hdrain : ss.stage = .notConnected → ∀ k, op ≠ .drain k)
    (hnext : op.next = .running) (hstep : ss.copy op d = some ss') :
    ss'.Sound ∧ ss'.stage = ss.stage ∧ ss'.Running := by
  obtain ⟨hsound, hstage, hstates⟩ := h.copy hrun hdrain hstep
  rw [hnext, or_self] at hstates
  exact ⟨hsound, hstage, hstates⟩

theorem Sound.read {ss ss' : Session} {k : Nat} (h : ss.Sound) (hrun : ss.Running)
    (hstep : ss.read k = some ss') : ss'.Sound ∧ ss'.stage = ss.stage ∧ ss'.Running := by
  obtain ⟨-, hup⟩ := Option.ite_none_right_eq_some.1 hstep
  exact h.copy_running (d := .toUpstream) hrun (fun _ => by nofun) rfl hup

/-- Another stage, behind the connection. -/
theorem Sound.connected {ss : Session} (h : ss.Sound) {stage : Stage}
    (hstage : stage ≠ .notConnected) : ({ ss with stage } : Session).Sound :=
  ⟨h.up, h.down, h.single, fun he => absurd he hstage⟩

theorem Sound.work {ss ss' : Session} {w : Work} (h : ss.Sound) (hrun : ss.Running)
    (hstep : ss.work w = some ss') : ss'.Sound ∧ ss'.Running := by
  cases w with
  | connect =>
    obtain ⟨-, heq⟩ := Option.ite_none_right_eq_some.1 hstep
    obtain rfl := Option.some.inj heq
    exact ⟨h.connected (by decide), hrun⟩
  | select =>
    obtain ⟨-, heq⟩ := Option.ite_none_right_eq_some.1 hstep
    obtain rfl := Option.some.inj heq
    exact ⟨h.connected (by decide), hrun⟩
  | forward k =>
    obtain ⟨hstage, heq⟩ := Option.ite_none_right_eq_some.1 hstep
    obtain ⟨hsound, -, hrunning⟩ := h.copy_running (d := .toUpstream) hrun
      (fun he => by rw [hstage] at he; cases he) rfl heq
    exact ⟨hsound, hrunning⟩
  | fill d k =>
    obtain ⟨-, heq⟩ := Option.ite_none_right_eq_some.1 hstep
    obtain ⟨hsound, -, hrunning⟩ := h.copy_running hrun (fun _ => by nofun) rfl heq
    exact ⟨hsound, hrunning⟩
  | drain d k =>
    obtain ⟨hstage, heq⟩ := Option.ite_none_right_eq_some.1 hstep
    obtain ⟨hsound, -, hrunning⟩ := h.copy_running hrun
      (fun he => by rw [hstage] at he; cases he) rfl heq
    exact ⟨hsound, hrunning⟩

/-- One direction has come to its end, and the other has not. -/
theorem Sound.ends {ss ss' : Session} {d : Direction} (h : ss.Sound) (hrun : ss.Running)
    (hstep : ss.ends d = some ss') : ss'.Sound ∧ ss'.stage = ss.stage ∧ ss'.OneCut := by
  obtain ⟨-, heq⟩ := Option.ite_none_right_eq_some.1 hstep
  obtain ⟨hsound, hstage, hstates⟩ := h.copy hrun (fun _ => by nofun) heq
  refine ⟨hsound, hstage, ?_⟩
  rcases hstates with hstates | hstates <;>
  · rw [OneCut, hstates]
    decide

/-- What the two ends do is nothing to the handler. -/
theorem Sound.client {ss ss' : Session} {op : EndOp} (h : ss.Sound)
    (hstep : ss.client op = some ss') :
    ss'.Sound ∧ ss'.stage = ss.stage ∧ ss'.states = ss.states := by
  cases op with
  | write data =>
    obtain ⟨hsound, up, hup, rfl⟩ := h.onUp (fun _ => by nofun) hstep
    exact ⟨hsound, rfl, Prod.ext (Chain.states_step hup) rfl⟩
  | close =>
    obtain ⟨hsound, up, hup, rfl⟩ := h.onUp (fun _ => by nofun) hstep
    exact ⟨hsound, rfl, Prod.ext (Chain.states_step hup) rfl⟩
  | read k =>
    obtain ⟨hsound, down, hdown, rfl⟩ := h.onDown (fun _ => by nofun) hstep
    exact ⟨hsound, rfl, Prod.ext rfl (Chain.states_step hdown)⟩

theorem Sound.upstream {ss ss' : Session} {op : EndOp} (h : ss.Sound)
    (hstep : ss.upstream op = some ss') :
    ss'.Sound ∧ ss'.stage = ss.stage ∧ ss'.states = ss.states := by
  obtain ⟨hstage, heq⟩ := Option.ite_none_left_eq_some.1 hstep
  cases op with
  | write data =>
    obtain ⟨hsound, down, hdown, rfl⟩ := h.onDown (fun he => absurd he hstage) heq
    exact ⟨hsound, rfl, Prod.ext rfl (Chain.states_step hdown)⟩
  | close =>
    obtain ⟨hsound, down, hdown, rfl⟩ := h.onDown (fun _ => by nofun) heq
    exact ⟨hsound, rfl, Prod.ext rfl (Chain.states_step hdown)⟩
  | read k =>
    obtain ⟨hsound, up, hup, rfl⟩ := h.onUp (fun _ => by nofun) heq
    exact ⟨hsound, rfl, Prod.ext (Chain.states_step hup) rfl⟩

end Session

/-! ## A handler and its session -/

/-- The handler has not passed the rate block. -/
def Phase.early : Phase → Bool
  | .spawned | .permitted | .reading | .received => true
  | _ => false

/-- **What a handler's phase says of its streams.** -/
structure Paired (phase : Phase) (ss : Session) : Prop where
  sound : ss.Sound
  early : phase.early = true → ss.stage = .notConnected
  running : phase.leaves = false → ss.Running
  stopped : phase.leaves = true → ss.up.states ≠ [.running] ∧ ss.down.states ≠ [.running]
  oneCut : ss.OneCut

theorem paired_start : Paired .spawned Session.start where
  sound := Session.sound_start
  early _ := rfl
  running _ := rfl
  stopped h := nomatch h
  oneCut := Session.Running.oneCut rfl

/-- A step that neither the stage nor the directions show. -/
theorem Paired.same {phase : Phase} {ss ss' : Session} (h : Paired phase ss) (hsound : ss'.Sound)
    (hstage : ss'.stage = ss.stage) (hstates : ss'.states = ss.states) : Paired phase ss' := by
  obtain ⟨hup, hdown⟩ := Prod.mk.inj hstates
  exact ⟨hsound, fun he => hstage.trans (h.early he), fun hl => hstates.trans (h.running hl),
    fun hl => hup ▸ hdown ▸ h.stopped hl, fun he => h.oneCut (hstates.symm.trans he)⟩

/-- The order in which a handler goes through its phases. -/
theorem Phase.step_order {sh sh' : Shared Addr} {addr : Addr} {p p' : Phase} {m : Move}
    (h : p.step sh addr m = some (p', sh')) :
    (p'.early = true → p.early = true) ∧ (p'.leaves = false → p.leaves = false) ∧
      (m.reads = true ∨ m = .finishProxying → p.leaves = false) := by
  unfold Phase.step at h
  split at h
  case h_1 => split at h <;> obtain ⟨rfl, -⟩ := Prod.mk.inj (Option.some.inj h) <;> decide
  case h_3 =>
    obtain ⟨rfl, -⟩ := Prod.mk.inj (Option.some.inj h)
    split <;> exact ⟨fun _ => rfl, fun _ => rfl, fun _ => rfl⟩
  case h_7 =>
    obtain ⟨rfl, -⟩ := Prod.mk.inj (Option.some.inj h)
    split <;> exact ⟨fun _ => rfl, fun _ => rfl, fun _ => rfl⟩
  case h_12 => cases h
  all_goals
    obtain ⟨rfl, -⟩ := Prod.mk.inj (Option.some.inj h)
    simp [early, leaves, Move.reads]

/-- A direction that ran is cut when the streams are dropped; the others stay as they are. -/
theorem failAt_single {c : Chain UInt8} (h : c.states.length = 1) :
    (c.failAt 0).states.length = 1 ∧ (c.failAt 0).states ≠ [.running] ∧
      ((c.failAt 0).states = [.finished] → c.states = [.finished]) := by
  obtain ⟨state, hstate⟩ := List.length_eq_one_iff.1 h
  rw [(c.failAt_spec 0).2.2, hstate]
  cases state <;> decide

theorem paired_settle {phase : Phase} {ss : Session} (hsound : ss.Sound)
    (hearly : phase.early = true → ss.stage = .notConnected)
    (hrunning : phase.leaves = false → ss.Running) (hcut : ss.OneCut) :
    Paired phase (ss.settle phase) := by
  cases hleaves : phase.leaves with
  | false =>
    have hsame : ss.settle phase = ss := by rw [Session.settle, hleaves]; rfl
    rw [hsame]
    exact ⟨hsound, hearly, hrunning, fun h => (Bool.false_ne_true (hleaves.symm.trans h)).elim,
      hcut⟩
  | true =>
    have hdrop : ss.settle phase = ⟨ss.stage, ss.up.failAt 0, ss.down.failAt 0⟩ := by
      rw [Session.settle, hleaves]
      rfl
    rw [hdrop]
    obtain ⟨hupLength, hup, hupFinished⟩ := failAt_single hsound.single.1
    obtain ⟨hdownLength, hdown, hdownFinished⟩ := failAt_single hsound.single.2
    refine ⟨⟨hsound.up.failAt 0, hsound.down.failAt 0, ⟨hupLength, hdownLength⟩, fun hstage => ?_⟩,
      hearly, fun h => (Bool.false_ne_true (h.symm.trans hleaves)).elim,
      fun _ => ⟨hup, hdown⟩, fun he => ?_⟩
    · rw [(ss.up.failAt_spec 0).1, (ss.down.failAt_spec 0).2.1]
      exact hsound.unopened hstage
    · obtain ⟨heUp, heDown⟩ := Prod.mk.inj he
      exact hcut (Prod.ext (hupFinished heUp) (hdownFinished heDown))

namespace Proxy

/-- Every handler has its session, and the two agree. -/
structure Sound (s : Proxy Addr) : Prop where
  accounting : Accounting s.shield
  length : s.sessions.length = s.shield.handlers.length
  paired : ∀ (i : Nat) (h : Handler Addr) (ss : Session), s.shield.handlers[i]? = some h →
    s.sessions[i]? = some ss → Paired h.phase ss

theorem sound_start : (start : Proxy Addr).Sound :=
  ⟨accounting_start, rfl, fun _ _ _ h => nomatch h⟩

/-- What a move of a handler does, to the shield and to its own session. -/
theorem moves_eq_some {s t : Proxy Addr} {i : Nat} {m : Move} {f : Session → Option Session}
    (h : s.moves i m f = some t) : ∃ hd phase shared ss ss', s.shield.handlers[i]? = some hd ∧
      hd.phase.step s.shield.shared hd.addr m = some (phase, shared) ∧
      s.sessions[i]? = some ss ∧ f ss = some ss' ∧
      AntiDdos.shield.step s.shield (.handler i m) = some t.shield ∧
      t = ⟨⟨shared, s.shield.handlers.set i ⟨hd.addr, phase⟩⟩,
        s.sessions.set i (ss'.settle phase)⟩ := by
  obtain ⟨sh, hsh, hrest⟩ := Option.bind_eq_some_iff.1 h
  obtain ⟨hd', hhd', hrest⟩ := Option.bind_eq_some_iff.1 hrest
  obtain ⟨ss, hss, hrest⟩ := Option.bind_eq_some_iff.1 hrest
  obtain ⟨ss', hf, rfl⟩ := Option.map_eq_some_iff.1 hrest
  rcases shield_step_cases hsh with ⟨_, hact, -⟩ |
    ⟨j, m', hd, phase, shared, hact, hhd, hstep, rfl⟩ | ⟨_, _, hact, -⟩
  · cases hact
  · obtain ⟨rfl, rfl⟩ := Action.handler.inj hact
    have hset := List.getElem?_set_self (a := (⟨hd.addr, phase⟩ : Handler Addr))
      (List.getElem?_eq_some_iff.1 hhd).1
    obtain rfl := Option.some.inj (hset.symm.trans hhd')
    exact ⟨hd, phase, shared, ss, ss', hhd, hstep, hss, hf, hsh, rfl⟩
  · cases hact

omit [DecidableEq Addr] in
theorem works_eq_some {s t : Proxy Addr} {i : Nat} {enabled : Phase → Bool}
    {f : Session → Option Session} (h : s.works i enabled f = some t) :
    ∃ hd ss ss', s.shield.handlers[i]? = some hd ∧ s.sessions[i]? = some ss ∧
      enabled hd.phase = true ∧ f ss = some ss' ∧
      t = { s with sessions := s.sessions.set i ss' } := by
  obtain ⟨hd, hhd, hrest⟩ := Option.bind_eq_some_iff.1 h
  obtain ⟨ss, hss, hrest⟩ := Option.bind_eq_some_iff.1 hrest
  obtain ⟨henabled, hmap⟩ := Option.ite_none_right_eq_some.1 hrest
  obtain ⟨ss', hf, rfl⟩ := Option.map_eq_some_iff.1 hmap
  exact ⟨hd, ss, ss', hhd, hss, henabled, hf, rfl⟩

theorem Sound.moves {s t : Proxy Addr} {i : Nat} {m : Move} {f : Session → Option Session}
    (h : s.Sound) (ht : s.moves i m f = some t)
    (hf : ∀ (p : Phase) (ss ss' : Session), Paired p ss →
      (m.reads = true ∨ m = .finishProxying → p.leaves = false) → f ss = some ss' →
        ss'.Sound ∧ ss'.stage = ss.stage ∧ ss'.OneCut ∧
          (m ≠ .finishProxying → p.leaves = false → ss'.Running)) : t.Sound := by
  obtain ⟨hd, phase, shared, ss, ss', hhd, hstep, hss, hfss, hshield, rfl⟩ := moves_eq_some ht
  have hpaired := h.paired i hd ss hhd hss
  obtain ⟨hearly, hleaves, hstay⟩ := Phase.step_order hstep
  obtain ⟨hsound, hstage, hcut, hrunning⟩ := hf hd.phase ss ss' hpaired hstay hfss
  refine ⟨accounting_step h.accounting hshield, ?_, fun j hd' st hhd' hst => ?_⟩
  · exact List.length_set.trans (h.length.trans List.length_set.symm)
  · rcases getElem?_set_cases hhd' with ⟨rfl, rfl⟩ | ⟨hne, hhd'⟩
    · have hset := List.getElem?_set_self (a := ss'.settle phase)
        (List.getElem?_eq_some_iff.1 hss).1
      obtain rfl := Option.some.inj (hset.symm.trans hst)
      refine paired_settle hsound (fun he => hstage.trans (hpaired.early (hearly he)))
        (fun hl => hrunning ?_ (hleaves hl)) hcut
      -- what ends the proxying leaves
      rintro rfl
      cases hphase : hd.phase <;> rw [hphase] at hstep <;> cases hstep
      cases hl
    · rw [List.getElem?_set_ne (Ne.symm hne)] at hst
      exact h.paired j hd' st hhd' hst

theorem Sound.works {s t : Proxy Addr} {i : Nat} {enabled : Phase → Bool}
    {f : Session → Option Session} (h : s.Sound) (ht : s.works i enabled f = some t)
    (hf : ∀ (p : Phase) (ss ss' : Session), Paired p ss → enabled p = true → f ss = some ss' →
      Paired p ss') : t.Sound := by
  obtain ⟨hd, ss, ss', hhd, hss, henabled, hfss, rfl⟩ := works_eq_some ht
  refine ⟨h.accounting, List.length_set.trans h.length, fun j hd' st hhd' hst => ?_⟩
  rcases getElem?_set_cases hst with ⟨rfl, rfl⟩ | ⟨-, hst⟩
  · obtain rfl := Option.some.inj (hhd.symm.trans hhd')
    exact hf hd.phase ss st (h.paired j hd ss hhd hss) henabled hfss
  · exact h.paired j hd' st hhd' hst

theorem Sound.step {s t : Proxy Addr} {a : ProxyAction Addr} (h : s.Sound)
    (hstep : s.step a = some t) : t.Sound := by
  cases a with
  | accept addr =>
    obtain rfl := Option.some.inj hstep
    have haccept : AntiDdos.shield.step s.shield (.accept addr) = some _ := rfl
    refine ⟨accounting_step h.accounting haccept, ?_, fun i hd ss hhd hss => ?_⟩
    · simp [h.length]
    · rcases getElem?_concat_cases hhd with hhd | ⟨hi, rfl⟩
      · rcases getElem?_concat_cases hss with hss | ⟨hi, -⟩
        · exact h.paired i hd ss hhd hss
        · have hlt := (List.getElem?_eq_some_iff.1 hhd).1
          have := h.length
          omega
      · rcases getElem?_concat_cases hss with hss | ⟨-, rfl⟩
        · have hlt := (List.getElem?_eq_some_iff.1 hss).1
          have := h.length
          omega
        · exact paired_start
  | sweep key now =>
    obtain rfl := Option.some.inj hstep
    have hsweep : AntiDdos.shield.step s.shield (.sweep key now) = some _ := rfl
    exact ⟨accounting_step h.accounting hsweep, h.length, h.paired⟩
  | move i m =>
    obtain ⟨-, ht⟩ := Option.ite_none_left_eq_some.1 hstep
    refine h.moves ht fun p ss ss' hp _ hss => ?_
    obtain rfl := Option.some.inj hss
    exact ⟨hp.sound, rfl, hp.oneCut, fun _ => hp.running⟩
  | read i k =>
    refine h.moves hstep fun p ss ss' hp hstay hss => ?_
    obtain ⟨hsound, hstage, hrun⟩ := hp.sound.read (hp.running (hstay (Or.inl rfl))) hss
    exact ⟨hsound, hstage, hrun.oneCut, fun _ _ => hrun⟩
  | eof i =>
    refine h.moves hstep fun p ss ss' hp _ hss => ?_
    obtain ⟨-, heq⟩ := Option.ite_none_right_eq_some.1 hss
    obtain rfl := Option.some.inj heq
    exact ⟨hp.sound, rfl, hp.oneCut, fun _ => hp.running⟩
  | ends i d =>
    refine h.moves hstep fun p ss ss' hp hstay hss => ?_
    obtain ⟨hsound, hstage, hcut⟩ := hp.sound.ends (hp.running (hstay (Or.inr rfl))) hss
    exact ⟨hsound, hstage, hcut, fun hne => absurd rfl hne⟩
  | work i w =>
    have ht : s.works i (fun p => p = .proxying) (fun ss => ss.work w) = some t := hstep
    refine h.works ht fun p ss ss' hp henabled hss => ?_
    obtain rfl := of_decide_eq_true henabled
    obtain ⟨hsound, hrun⟩ := hp.sound.work (hp.running rfl) hss
    exact ⟨hsound, nofun, fun _ => hrun, nofun, hrun.oneCut⟩
  | client i op =>
    have ht : s.works i (fun _ => true) (fun ss => ss.client op) = some t := hstep
    refine h.works ht fun p ss ss' hp _ hss => ?_
    obtain ⟨hsound, hstage, hstates⟩ := hp.sound.client hss
    exact hp.same hsound hstage hstates
  | upstream i op =>
    have ht : s.works i (fun _ => true) (fun ss => ss.upstream op) = some t := hstep
    refine h.works ht fun p ss ss' hp _ hss => ?_
    obtain ⟨hsound, hstage, hstates⟩ := hp.sound.upstream hss
    exact hp.same hsound hstage hstates

end Proxy

theorem sound_of_run {s : Proxy Addr} {actions : List (ProxyAction Addr)}
    (h : proxy.run .start actions = some s) : s.Sound :=
  proxy.run_invariant (fun _ _ _ ht hstep => ht.step hstep) Proxy.sound_start h

/-! ## Who reaches the server -/

/-- The handler is past the rate block, or was. -/
def Opened (hd : Handler Addr) (ss : Session) : Prop :=
  hd.phase = .proxying ∨ ss.stage ≠ .notConnected

/-- The rate block has let handler `i` pass. -/
def Passed (actions : List (ProxyAction Addr)) (i : Nat) : Prop :=
  ∃ before created now after s hd,
    actions = before ++ .move i (.checkRate created now) :: after ∧
      proxy.run .start before = some s ∧ s.shield.handlers[i]? = some hd ∧
      (rateCheck created now (s.shield.shared.registry hd.addr)).1 = true

theorem Passed.append {actions : List (ProxyAction Addr)} {i : Nat} (h : Passed actions i)
    (more : List (ProxyAction Addr)) : Passed (actions ++ more) i := by
  obtain ⟨before, created, now, after, s, hd, rfl, hrest⟩ := h
  exact ⟨before, created, now, after ++ more, s, hd, List.append_assoc .., hrest⟩

/-- Only the rate block leads to the server. -/
theorem Phase.step_proxying {sh sh' : Shared Addr} {addr : Addr} {p : Phase} {m : Move}
    (h : p.step sh addr m = some (.proxying, sh')) :
    ∃ created now, m = .checkRate created now ∧
      (rateCheck created now (sh.registry addr)).1 = true := by
  unfold Phase.step at h
  split at h
  case h_1 => split at h <;> cases (Prod.mk.inj (Option.some.inj h)).1
  case h_3 =>
    have hphase := (Prod.mk.inj (Option.some.inj h)).1
    split at hphase <;> cases hphase
  case h_7 created now =>
    have hphase := (Prod.mk.inj (Option.some.inj h)).1
    split at hphase
    · exact ⟨created, now, rfl, ‹_›⟩
    · cases hphase
  case h_12 => cases h
  all_goals cases (Prod.mk.inj (Option.some.inj h)).1

namespace Proxy

theorem moves_opened {s t : Proxy Addr} {i j : Nat} {m : Move} {f : Session → Option Session}
    (ht : s.moves i m f = some t) (hf : ∀ ss ss', f ss = some ss' → ss'.stage = ss.stage)
    {hd' : Handler Addr} {ss' : Session} (hhd' : t.shield.handlers[j]? = some hd')
    (hss' : t.sessions[j]? = some ss') (hopened : Opened hd' ss') :
    ∃ hd ss, s.shield.handlers[j]? = some hd ∧ s.sessions[j]? = some ss ∧
      (Opened hd ss ∨ ∃ created now, i = j ∧ m = .checkRate created now ∧
        (rateCheck created now (s.shield.shared.registry hd.addr)).1 = true) := by
  obtain ⟨hd, phase, shared, ss, st, hhd, hstep, hss, hfss, -, rfl⟩ := moves_eq_some ht
  rcases getElem?_set_cases hhd' with ⟨rfl, rfl⟩ | ⟨hne, hhd'⟩
  · have hset := List.getElem?_set_self (a := st.settle phase) (List.getElem?_eq_some_iff.1 hss).1
    obtain rfl := Option.some.inj (hset.symm.trans hss')
    refine ⟨hd, ss, hhd, hss, ?_⟩
    rcases hopened with hphase | hstage
    · obtain rfl : phase = .proxying := hphase
      obtain ⟨created, now, hm, hpass⟩ := Phase.step_proxying hstep
      exact Or.inr ⟨created, now, rfl, hm, hpass⟩
    · refine Or.inl (Or.inr fun he => hstage ?_)
      have hsettle : (st.settle phase).stage = st.stage := by
        unfold Session.settle
        split <;> rfl
      rw [hsettle, hf ss st hfss, he]
  · rw [List.getElem?_set_ne (Ne.symm hne)] at hss'
    exact ⟨hd', ss', hhd', hss', Or.inl hopened⟩

omit [DecidableEq Addr] in
theorem works_opened {s t : Proxy Addr} {i j : Nat} {enabled : Phase → Bool}
    {f : Session → Option Session} (ht : s.works i enabled f = some t)
    (hf : ∀ p ss ss', enabled p = true → f ss = some ss' → p = .proxying ∨ ss'.stage = ss.stage)
    {hd' : Handler Addr} {ss' : Session} (hhd' : t.shield.handlers[j]? = some hd')
    (hss' : t.sessions[j]? = some ss') (hopened : Opened hd' ss') :
    ∃ ss, s.shield.handlers[j]? = some hd' ∧ s.sessions[j]? = some ss ∧ Opened hd' ss := by
  obtain ⟨hd, ss, st, hhd, hss, henabled, hfss, rfl⟩ := works_eq_some ht
  rcases getElem?_set_cases hss' with ⟨rfl, rfl⟩ | ⟨-, hss'⟩
  · obtain rfl := Option.some.inj (hhd.symm.trans hhd')
    refine ⟨ss, hhd, hss, ?_⟩
    rcases hf hd.phase ss ss' henabled hfss with hphase | hstage
    · exact Or.inl hphase
    · rcases hopened with hphase | hopen
      · exact Or.inl hphase
      · exact Or.inr (hstage ▸ hopen)
  · exact ⟨ss', hhd', hss', hopened⟩

/-- **What a step can do for a handler that is past the rate block**: it was past it before, or the
step is the block that lets it pass. -/
theorem Sound.step_opened {s t : Proxy Addr} {a : ProxyAction Addr} (h : s.Sound)
    (hstep : s.step a = some t) {j : Nat} {hd' : Handler Addr} {ss' : Session}
    (hhd' : t.shield.handlers[j]? = some hd') (hss' : t.sessions[j]? = some ss')
    (hopened : Opened hd' ss') :
    ∃ hd ss, s.shield.handlers[j]? = some hd ∧ s.sessions[j]? = some ss ∧
      (Opened hd ss ∨ ∃ created now, a = .move j (.checkRate created now) ∧
        (rateCheck created now (s.shield.shared.registry hd.addr)).1 = true) := by
  have hreads {i : Nat} {m : Move} {f : Session → Option Session} (hm : ∀ c n, m ≠ .checkRate c n)
      (ht : s.moves i m f = some t) (hf : ∀ ss ss', f ss = some ss' → ss'.stage = ss.stage) :
      ∃ hd ss, s.shield.handlers[j]? = some hd ∧ s.sessions[j]? = some ss ∧ Opened hd ss := by
    obtain ⟨hd, ss, hhd, hss, ho | ⟨created, now, -, he, -⟩⟩ :=
      moves_opened ht hf hhd' hss' hopened
    · exact ⟨hd, ss, hhd, hss, ho⟩
    · exact absurd he (hm created now)
  have hworks {i : Nat} {enabled : Phase → Bool} {f : Session → Option Session}
      (ht : s.works i enabled f = some t)
      (hf : ∀ p ss ss', enabled p = true → f ss = some ss' →
        p = .proxying ∨ ss'.stage = ss.stage) :
      ∃ hd ss, s.shield.handlers[j]? = some hd ∧ s.sessions[j]? = some ss ∧ Opened hd ss := by
    obtain ⟨ss, hhd, hss, ho⟩ := works_opened ht hf hhd' hss' hopened
    exact ⟨hd', ss, hhd, hss, ho⟩
  have hbefore (hb : ∃ hd ss, s.shield.handlers[j]? = some hd ∧ s.sessions[j]? = some ss ∧
      Opened hd ss) :
      ∃ hd ss, s.shield.handlers[j]? = some hd ∧ s.sessions[j]? = some ss ∧
        (Opened hd ss ∨ ∃ created now, a = .move j (.checkRate created now) ∧
          (rateCheck created now (s.shield.shared.registry hd.addr)).1 = true) := by
    obtain ⟨hd, ss, hhd, hss, ho⟩ := hb
    exact ⟨hd, ss, hhd, hss, Or.inl ho⟩
  cases a with
  | accept addr =>
    obtain rfl := Option.some.inj hstep
    have hlength := h.length
    rcases getElem?_concat_cases hhd' with hhd | ⟨hj, rfl⟩
    · rcases getElem?_concat_cases hss' with hss | ⟨hj, -⟩
      · exact hbefore ⟨hd', ss', hhd, hss, hopened⟩
      · have hlt := (List.getElem?_eq_some_iff.1 hhd).1
        omega
    · rcases getElem?_concat_cases hss' with hss | ⟨-, rfl⟩
      · have hlt := (List.getElem?_eq_some_iff.1 hss).1
        omega
      · rcases hopened with hphase | hstage
        · cases hphase
        · exact absurd rfl hstage
  | sweep key now =>
    obtain rfl := Option.some.inj hstep
    exact hbefore ⟨hd', ss', hhd', hss', hopened⟩
  | move i m =>
    obtain ⟨-, ht⟩ := Option.ite_none_left_eq_some.1 hstep
    obtain ⟨hd, ss, hhd, hss, ho | ⟨created, now, rfl, rfl, hpass⟩⟩ :=
      moves_opened ht (fun ss ss' he => Option.some.inj he ▸ rfl) hhd' hss' hopened
    · exact ⟨hd, ss, hhd, hss, Or.inl ho⟩
    · exact ⟨hd, ss, hhd, hss, Or.inr ⟨created, now, rfl, hpass⟩⟩
  | read i k =>
    exact hbefore (hreads (fun _ _ => by nofun) hstep fun ss ss' he =>
      Session.stage_onUp (Option.ite_none_right_eq_some.1 he).2)
  | eof i =>
    exact hbefore (hreads (fun _ _ => by nofun) hstep fun ss ss' he =>
      Option.some.inj (Option.ite_none_right_eq_some.1 he).2 ▸ rfl)
  | ends i d =>
    exact hbefore (hreads (fun _ _ => by nofun) hstep fun ss ss' he =>
      Session.stage_copy (Option.ite_none_right_eq_some.1 he).2)
  | work i w =>
    have ht : s.works i (fun p => p = .proxying) (fun ss => ss.work w) = some t := hstep
    exact hbefore (hworks ht fun p ss ss' hp _ => Or.inl (of_decide_eq_true hp))
  | client i op =>
    have ht : s.works i (fun _ => true) (fun ss => ss.client op) = some t := hstep
    exact hbefore (hworks ht fun p ss ss' _ he => Or.inr (Session.stage_client he))
  | upstream i op =>
    have ht : s.works i (fun _ => true) (fun ss => ss.upstream op) = some t := hstep
    exact hbefore (hworks ht fun p ss ss' _ he => Or.inr (Session.stage_upstream he))

/-- The number of open connections to the server. -/
def openTo (s : Proxy Addr) : Nat := s.sessions.countP Session.connected

/-- The number of open connections to the server for the clients of a key. -/
def openFrom (s : Proxy Addr) (key : Addr) : Nat :=
  (s.shield.handlers.zip s.sessions).countP fun x => decide (x.1.addr = key) && x.2.connected

end Proxy

theorem passed_of_opened {s : Proxy Addr} {actions : List (ProxyAction Addr)}
    (h : proxy.run .start actions = some s) {i : Nat} {hd : Handler Addr} {ss : Session}
    (hhd : s.shield.handlers[i]? = some hd) (hss : s.sessions[i]? = some ss)
    (hopened : Opened hd ss) : Passed actions i := by
  have hall : ∀ (i : Nat) hd ss, s.shield.handlers[i]? = some hd → s.sessions[i]? = some ss →
      Opened hd ss → Passed actions i := by
    refine proxy.run_induction (I := fun as t => ∀ (i : Nat) hd ss,
      t.shield.handlers[i]? = some hd → t.sessions[i]? = some ss → Opened hd ss → Passed as i)
      (fun _ _ _ h => by cases h) ?_ h
    intro as t a u hrun ih hstep j hd' ss' hhd' hss' hopened
    obtain ⟨hd, ss, hhd, hss, ho | ⟨created, now, rfl, hpass⟩⟩ :=
      (sound_of_run hrun).step_opened hstep hhd' hss' hopened
    · exact (ih j hd ss hhd hss ho).append [a]
    · exact ⟨as, created, now, [], t, hd, rfl, hrun, hhd, hpass⟩
  exact hall i hd ss hhd hss hopened

/-- A connection to the server is open in the hands of a handler that copies. -/
theorem Paired.proxying_of_connected {phase : Phase} {ss : Session} (h : Paired phase ss)
    (hconnected : ss.connected = true) : phase = .proxying := by
  obtain ⟨hstage, hstates⟩ := Bool.and_eq_true_iff.1 hconnected
  have hstage := of_decide_eq_true hstage
  obtain ⟨hup, -⟩ := Prod.mk.inj (of_decide_eq_true hstates)
  cases phase with
  | proxying => rfl
  | spawned | permitted | reading | received => exact absurd (h.early rfl) hstage
  | returning | releasing | done => exact absurd hup (h.stopped rfl).1

theorem Proxy.Sound.countP_le {s : Proxy Addr} (h : s.Sound)
    (p : Handler Addr × Session → Bool) (q : Handler Addr → Bool)
    (hpq : ∀ hd ss, Paired hd.phase ss → p (hd, ss) = true → q hd = true) :
    (s.shield.handlers.zip s.sessions).countP p ≤ s.shield.handlers.countP q := by
  have hfst : (s.shield.handlers.zip s.sessions).map Prod.fst = s.shield.handlers :=
    List.map_fst_zip h.length.ge
  calc (s.shield.handlers.zip s.sessions).countP p
      ≤ (s.shield.handlers.zip s.sessions).countP (q ∘ Prod.fst) := by
        apply List.countP_mono_left
        rintro ⟨hd, ss⟩ hmem hp
        obtain ⟨i, hi⟩ := List.mem_iff_getElem?.1 hmem
        obtain ⟨hhd, hss⟩ := List.getElem?_zip_eq_some.1 hi
        exact hpq hd ss (h.paired i hd ss hhd hss) hp
    _ = s.shield.handlers.countP q := by rw [← List.countP_map, hfst]

/-- **What the shield lets through**: in every run each stream comes out unchanged; a byte passes
between a client and the server only when the rate block has let the handler pass; and the server
never has more open connections than there are permits, nor more for one key than its limit. -/
theorem shield_lets_through {s : Proxy Addr} {actions : List (ProxyAction Addr)}
    (h : proxy.run .start actions = some s) :
    (∀ (i : Nat) (ss : Session), s.sessions[i]? = some ss →
      (ss.up.sink.written <+: ss.up.source.written ∧
        ss.down.sink.written <+: ss.down.source.written) ∧
      (ss.up.sink.written ≠ [] ∨ ss.down.sink.written ≠ [] → Passed actions i)) ∧
    s.openTo ≤ maxGlobalConnections ∧ ∀ key, s.openFrom key ≤ maxConnPerIp := by
  have hsound := sound_of_run h
  refine ⟨fun i ss hss => ?_, ?_, fun key => ?_⟩
  · have hlt : i < s.shield.handlers.length := hsound.length ▸ (List.getElem?_eq_some_iff.1 hss).1
    have hhd := List.getElem?_eq_getElem hlt
    have hpaired := hsound.paired i _ ss hhd hss
    refine ⟨⟨hpaired.sound.up.sink_isPrefix, hpaired.sound.down.sink_isPrefix⟩, fun hbytes => ?_⟩
    refine passed_of_opened h hhd hss (Or.inr fun hstage => ?_)
    obtain ⟨hup, hdown⟩ := hpaired.sound.unopened hstage
    rcases hbytes with hbytes | hbytes
    · exact hbytes hup
    · have hprefix := hpaired.sound.down.sink_isPrefix
      rw [hdown] at hprefix
      exact hbytes (List.prefix_nil.1 hprefix)
  · have hsnd : (s.shield.handlers.zip s.sessions).map Prod.snd = s.sessions :=
      List.map_snd_zip hsound.length.le
    have hholders := hsound.accounting.permits
    calc s.openTo
        = (s.shield.handlers.zip s.sessions).countP fun x => x.2.connected := by
          rw [Proxy.openTo, ← hsnd, List.countP_map, hsnd]
          rfl
      _ ≤ s.shield.permitHolders := hsound.countP_le _ (fun hd => hd.phase.holdsPermit)
          fun hd ss hp hc => by rw [hp.proxying_of_connected hc]; rfl
      _ ≤ maxGlobalConnections := by omega
  · calc s.openFrom key
        ≤ s.shield.admittedAt key := hsound.countP_le _
          (fun hd => decide (hd.addr = key) && hd.phase.admitted) fun hd ss hp hx => by
            obtain ⟨haddr, hc⟩ := Bool.and_eq_true_iff.1 hx
            rw [hp.proxying_of_connected hc]
            exact Bool.and_eq_true_iff.2 ⟨haddr, rfl⟩
      _ = s.shield.connectionCount key := (hsound.accounting.counts key).symm
      _ ≤ maxConnPerIp := hsound.accounting.limit key

/-- One client, whose two bytes reach the server. -/
def oneClient : List (ProxyAction Nat) :=
  [.accept 7, .client 0 (.write [1, 2]), .move 0 .acquire, .move 0 (.admission 0), .read 0 2,
    .move 0 (.checkRate 0 0), .work 0 .connect, .work 0 (.forward 2), .work 0 .select]

theorem oneClient_passes : ∃ s ss, proxy.run .start oneClient = some s ∧
    s.sessions[0]? = some ss ∧ ss.up.sink.written = [1, 2] ∧ s.openTo = 1 ∧ Passed oneClient 0 :=
  ⟨_, _, rfl, rfl, rfl, rfl,
    ((shield_lets_through (rfl : proxy.run .start oneClient = some _)).1 0 _ rfl).2
      (Or.inl (by decide))⟩

end RustSamples.AntiDdos
