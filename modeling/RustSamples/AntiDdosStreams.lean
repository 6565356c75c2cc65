import RustSamples.AntiDdosProxy

/-! # What the `anti_ddos` proxy leaves to its clients

Three things follow from how `handle_client` is written, each for every run.  The first of the two
directions that ends cuts the other (`one_direction_cut`), so a client that closes its side when it
has sent its request can lose the response from any byte on (`response_cut_anywhere`).  And the rate
is looked at once for each connection, whatever comes through it later (`requests_uncounted`).

What holds of every run holds of connections of any size.  The runs that are shown to exist are
runs of the proxy whose connections have a size (`boundedProxy`).
-/
namespace RustSamples.AntiDdos
open Scheduling Relay

variable {Addr : Type} [DecidableEq Addr]

/-! ## The end of a session -/

/-- **One direction cuts the other**: where one direction has come to its end, the other was
dropped, in every run. -/
theorem one_direction_cut {s : Proxy Addr} {actions : List (ProxyAction Addr)}
    (h : proxy.run .start actions = some s) {i : Nat} {ss : Session}
    (hss : s.sessions[i]? = some ss) :
    (ss.up.states = [.finished] → ss.down.states = [.failed]) ∧
      (ss.down.states = [.finished] → ss.up.states = [.failed]) := by
  have hsound := sound_of_run h
  have hlt : i < s.shield.handlers.length := hsound.length ▸ (List.getElem?_eq_some_iff.1 hss).1
  have hpaired := hsound.paired i _ ss (List.getElem?_eq_getElem hlt) hss
  obtain ⟨up, hup⟩ := List.length_eq_one_iff.1 hpaired.sound.single.1
  obtain ⟨down, hdown⟩ := List.length_eq_one_iff.1 hpaired.sound.single.2
  have hcut := hpaired.oneCut
  cases hleaves : s.shield.handlers[i].phase.leaves with
  | false =>
    obtain ⟨hrunUp, hrunDown⟩ := Prod.mk.inj (hpaired.running hleaves)
    rw [hrunUp, hrunDown]
    decide
  | true =>
    obtain ⟨hstopUp, hstopDown⟩ := hpaired.stopped hleaves
    rw [Session.OneCut, Session.states, hup, hdown] at hcut
    rw [hup] at hstopUp
    rw [hdown] at hstopDown
    rw [hup, hdown]
    cases up <;> cases down <;> simp_all

/-- The client of `oneClient` closes its side, and the server has not answered. -/
def oneClientCloses : List (ProxyAction Nat) :=
  oneClient ++ [.client 0 .close, .ends 0 .toUpstream]

theorem oneClient_cut : ∃ s ss, proxy.run .start oneClientCloses = some s ∧
    s.sessions[0]? = some ss ∧ ss.up.states = [.finished] ∧ ss.down.states = [.failed] :=
  ⟨_, _, rfl, rfl, rfl,
    (one_direction_cut (i := 0) (rfl : proxy.run .start oneClientCloses = some _) rfl).1 rfl⟩

/-- The proxy with one handler. -/
def oneHandler (shared : Shared Addr) (addr : Addr) (phase : Phase) (ss : Session) : Proxy Addr :=
  ⟨⟨shared, [⟨addr, phase⟩]⟩, [ss]⟩

section
variable {shared shared' : Shared Addr} {addr : Addr} {p p' : Phase} {ss ss' : Session}

theorem step_move {m : Move} (hm : m.reads = false)
    (h : p.step shared addr m = some (p', shared')) (hleaves : p'.leaves = false) :
    proxy.step (oneHandler shared addr p ss) (.move 0 m) =
      some (oneHandler shared' addr p' ss) := by
  simp [proxy, oneHandler, Proxy.step, hm, Proxy.moves, shield, h, Session.settle, hleaves]

theorem step_read {k : Nat} (h : ss.read k = some ss') :
    proxy.step (oneHandler shared addr .reading ss) (.read 0 k) =
      some (oneHandler shared addr .received ss') := by
  simp [proxy, oneHandler, Proxy.step, Proxy.moves, shield, Phase.step, h, Session.settle,
    Phase.leaves]

theorem step_work {w : Work} (h : ss.work w = some ss') :
    proxy.step (oneHandler shared addr .proxying ss) (.work 0 w) =
      some (oneHandler shared addr .proxying ss') := by
  simp [proxy, oneHandler, Proxy.step, Proxy.works, h]

theorem step_client {op : EndOp} (h : ss.client op = some ss') :
    proxy.step (oneHandler shared addr p ss) (.client 0 op) =
      some (oneHandler shared addr p ss') := by
  simp [proxy, oneHandler, Proxy.step, Proxy.works, h]

theorem step_upstream {op : EndOp} (h : ss.upstream op = some ss') :
    proxy.step (oneHandler shared addr p ss) (.upstream 0 op) =
      some (oneHandler shared addr p ss') := by
  simp [proxy, oneHandler, Proxy.step, Proxy.works, h]

theorem step_ends {d : Direction} (h : ss.ends d = some ss') :
    proxy.step (oneHandler shared addr .proxying ss) (.ends 0 d) =
      some (oneHandler shared addr .returning (ss'.settle .returning)) := by
  simp [proxy, oneHandler, Proxy.step, Proxy.moves, shield, Phase.step, h]

end

/-- No connection holds more than `capacity` bytes that were not read, in any direction. -/
def Session.Fits (capacity : Nat) (ss : Session) : Prop :=
  ss.up.source.pending.length ≤ capacity ∧ ss.up.sink.pending.length ≤ capacity ∧
    ss.down.source.pending.length ≤ capacity ∧ ss.down.sink.pending.length ≤ capacity

instance (capacity : Nat) : DecidablePred (Session.Fits capacity) :=
  fun _ => inferInstanceAs (Decidable (_ ∧ _ ∧ _ ∧ _))

/-- The proxy with connections of a kernel, which have a size. -/
def boundedProxy (capacity : Nat) : Machine (Proxy Addr) (ProxyAction Addr) :=
  proxy.restrict fun s => ∀ ss ∈ s.sessions, ss.Fits capacity

theorem step_bounded {capacity : Nat} {s : Proxy Addr} {a : ProxyAction Addr}
    {shared : Shared Addr} {addr : Addr} {p : Phase} {ss : Session}
    (h : proxy.step s a = some (oneHandler shared addr p ss)) (hfits : ss.Fits capacity) :
    (boundedProxy capacity).step s a = some (oneHandler shared addr p ss) :=
  proxy.restrict_step_eq_some_iff.2 ⟨h, List.forall_mem_singleton.2 hfits⟩

/-- A client sends its first bytes, and the handler comes to the `select!`. -/
def prologue (addr : Addr) (bytes : List UInt8) : List (ProxyAction Addr) :=
  [.accept addr, .client 0 (.write bytes), .move 0 .acquire, .move 0 (.admission 0), .read 0 1,
    .move 0 (.checkRate 0 0), .work 0 .connect, .work 0 (.forward 1), .work 0 .select]

/-- The streams in the `select!`: what the server got, and what is on its way to it. -/
def copyingSession (sent pending : List UInt8) : Session :=
  ⟨.copying, ⟨⟨sent, pending, false⟩, [⟨[], .running, ⟨[], sent, false⟩⟩]⟩, .start .empty 1⟩

/-- What the shield knows of a client that it has admitted. -/
def admittedOne (addr : Addr) : Shared Addr :=
  ⟨Function.update (fun _ => none) addr (some ⟨1, 0, 0⟩), maxGlobalConnections - 1⟩

/-- What it knows of it behind the rate block. -/
def passedOne (addr : Addr) : Shared Addr :=
  { admittedOne addr with
    registry := Function.update (admittedOne addr).registry addr (some ⟨1, 1, 0⟩) }

theorem run_prologue {capacity : Nat} (addr : Addr) (b : UInt8) {bytes : List UInt8}
    (hlen : (b :: bytes).length ≤ capacity) :
    (boundedProxy capacity).run .start (prologue addr (b :: bytes)) =
      some (oneHandler (passedOne addr) addr .proxying (copyingSession [b] bytes)) := by
  have haccept : proxy.step Proxy.start (.accept addr) =
      some (oneHandler ⟨fun _ => none, maxGlobalConnections⟩ addr .spawned .start) := rfl
  have hadmission : Phase.permitted.step ⟨fun _ => none, maxGlobalConnections - 1⟩ addr
      (.admission 0) = some (.reading, admittedOne addr) := rfl
  have hrate : Phase.received.step (admittedOne addr) addr (.checkRate 0 0) =
      some (.proxying, passedOne addr) := by
    simp [Phase.step, admittedOne, passedOne, rateCheck, maxRpsPerIp]
  have hread : Session.read 1 ⟨.notConnected, ⟨⟨[], b :: bytes, false⟩, [.start]⟩,
      .start .empty 1⟩ = some ⟨.notConnected, ⟨⟨[b], bytes, false⟩, [⟨[b], .running, .empty⟩]⟩,
        .start .empty 1⟩ := by
    simp [Session.read, bufferLength, Session.onUp, Chain.step, actAt, Hop.act, Hop.start,
      Pipe.take, Chain.ofPair]
  have hrest : bytes.length ≤ capacity := (Nat.le_succ _).trans hlen
  have hfirst : [b].length ≤ capacity := (Nat.succ_le_succ (Nat.zero_le _)).trans hlen
  have hfits {ss : Session} (hsource : ss.up.source.pending.length ≤ capacity)
      (hsink : ss.up.sink.pending.length ≤ capacity) (hdown : ss.down = .start .empty 1) :
      ss.Fits capacity := by
    rw [Session.Fits, hdown]
    exact ⟨hsource, hsink, Nat.zero_le _, Nat.zero_le _⟩
  -- the request is in the first connection, and what is read of it goes into the second
  exact Machine.run_cons _ (step_bounded haccept (hfits (Nat.zero_le _) (Nat.zero_le _) rfl)) <|
    Machine.run_cons _ (step_bounded (step_client rfl) (hfits hlen (Nat.zero_le _) rfl)) <|
    Machine.run_cons _ (step_bounded (step_move rfl rfl rfl) (hfits hlen (Nat.zero_le _) rfl)) <|
    Machine.run_cons _
      (step_bounded (step_move rfl hadmission rfl) (hfits hlen (Nat.zero_le _) rfl)) <|
    Machine.run_cons _ (step_bounded (step_read hread) (hfits hrest (Nat.zero_le _) rfl)) <|
    Machine.run_cons _ (step_bounded (step_move rfl hrate rfl) (hfits hrest (Nat.zero_le _) rfl)) <|
    Machine.run_cons _ (step_bounded (step_work rfl) (hfits hrest (Nat.zero_le _) rfl)) <|
    Machine.run_cons _ (step_bounded (step_work rfl) (hfits hrest hfirst rfl)) <|
    Machine.run_cons _ (step_bounded (step_work rfl) (hfits hrest hfirst rfl)) rfl

/-- The streams in the `select!` when the server has read what it got. -/
def readSession (sent : List UInt8) : Session :=
  ⟨.copying, ⟨⟨sent, [], false⟩, [⟨[], .running, ⟨sent, [], false⟩⟩]⟩, .start .empty 1⟩

theorem run_readFirst {capacity : Nat} (shared : Shared Addr) (addr : Addr) (b : UInt8) :
    (boundedProxy capacity).run (oneHandler shared addr .proxying (copyingSession [b] []))
        [.upstream 0 (.read 1)] =
      some (oneHandler shared addr .proxying (readSession [b])) := by
  have hread : (copyingSession [b] []).upstream (.read 1) = some (readSession [b]) := rfl
  exact (Machine.run_singleton _ _ _).trans (step_bounded (step_upstream hread)
    ⟨Nat.zero_le _, Nat.zero_le _, Nat.zero_le _, Nat.zero_le _⟩)

/-- One more byte of the client, without another look at the rate. -/
def passOn (c : UInt8) : List (ProxyAction Addr) :=
  [.client 0 (.write [c]), .work 0 (.fill .toUpstream 1), .work 0 (.drain .toUpstream 1),
    .upstream 0 (.read 1)]

theorem run_passOn {capacity : Nat} (hone : 1 ≤ capacity) (shared : Shared Addr) (addr : Addr)
    (sent : List UInt8) (c : UInt8) :
    (boundedProxy capacity).run (oneHandler shared addr .proxying (readSession sent)) (passOn c) =
      some (oneHandler shared addr .proxying (readSession (sent ++ [c]))) := by
  have hwrite : (readSession sent).client (.write [c]) = some ⟨.copying,
      ⟨⟨sent, [c], false⟩, [⟨[], .running, ⟨sent, [], false⟩⟩]⟩, .start .empty 1⟩ := rfl
  have hfill : Session.work ⟨.copying, ⟨⟨sent, [c], false⟩, [⟨[], .running, ⟨sent, [], false⟩⟩]⟩,
      .start .empty 1⟩ (.fill .toUpstream 1) = some ⟨.copying,
        ⟨⟨sent ++ [c], [], false⟩, [⟨[c], .running, ⟨sent, [], false⟩⟩]⟩, .start .empty 1⟩ := rfl
  have hdrain : Session.work ⟨.copying, ⟨⟨sent ++ [c], [], false⟩,
      [⟨[c], .running, ⟨sent, [], false⟩⟩]⟩, .start .empty 1⟩ (.drain .toUpstream 1) =
        some ⟨.copying, ⟨⟨sent ++ [c], [], false⟩, [⟨[], .running, ⟨sent, [c], false⟩⟩]⟩,
          .start .empty 1⟩ := rfl
  have hread : Session.upstream ⟨.copying, ⟨⟨sent ++ [c], [], false⟩,
      [⟨[], .running, ⟨sent, [c], false⟩⟩]⟩, .start .empty 1⟩ (.read 1) =
        some (readSession (sent ++ [c])) := rfl
  have hnone : ([] : List UInt8).length ≤ capacity := Nat.zero_le _
  exact Machine.run_cons _ (step_bounded (step_client hwrite) ⟨hone, hnone, hnone, hnone⟩) <|
    Machine.run_cons _ (step_bounded (step_work hfill) ⟨hnone, hnone, hnone, hnone⟩) <|
    Machine.run_cons _ (step_bounded (step_work hdrain) ⟨hnone, hone, hnone, hnone⟩) <|
    Machine.run_cons _ (step_bounded (step_upstream hread) ⟨hnone, hnone, hnone, hnone⟩) rfl

/-! ## The rate counts connections -/

/-- A look of handler `i` at the rate. -/
def looksAtRate (i : Nat) : ProxyAction Addr → Bool
  | .move j (.checkRate _ _) => i = j
  | _ => false

theorem Proxy.early_of_moves {s t : Proxy Addr} {i j : Nat} {m : Move}
    {f : Session → Option Session} (ht : s.moves i m f = some t) {hd : Handler Addr}
    (hhd : s.shield.handlers[j]? = some hd) (h : hd.phase.early = false) :
    ∃ hd', t.shield.handlers[j]? = some hd' ∧ hd'.phase.early = false := by
  obtain ⟨hd₀, phase, shared, ss, ss', hhd₀, hstep, -, -, -, rfl⟩ := moves_eq_some ht
  by_cases hij : i = j
  · subst hij
    obtain rfl := Option.some.inj (hhd.symm.trans hhd₀)
    refine ⟨_, List.getElem?_set_self (List.getElem?_eq_some_iff.1 hhd₀).1, ?_⟩
    by_contra hearly
    rw [(Phase.step_order hstep).1 (by simpa using hearly)] at h
    cases h
  · exact ⟨hd, (List.getElem?_set_ne hij).trans hhd, h⟩

/-- No handler comes back before the rate block. -/
theorem Proxy.early_of_step {s t : Proxy Addr} {a : ProxyAction Addr} (hstep : s.step a = some t)
    {j : Nat} {hd : Handler Addr} (hhd : s.shield.handlers[j]? = some hd)
    (h : hd.phase.early = false) :
    ∃ hd', t.shield.handlers[j]? = some hd' ∧ hd'.phase.early = false := by
  have hworks {i : Nat} {enabled : Phase → Bool} {f : Session → Option Session}
      (ht : s.works i enabled f = some t) :
      ∃ hd', t.shield.handlers[j]? = some hd' ∧ hd'.phase.early = false := by
    obtain ⟨-, -, -, -, -, -, -, rfl⟩ := works_eq_some ht
    exact ⟨hd, hhd, h⟩
  cases a with
  | accept addr =>
    obtain rfl := Option.some.inj hstep
    exact ⟨hd, (List.getElem?_append_left (List.getElem?_eq_some_iff.1 hhd).1).trans hhd, h⟩
  | sweep key now =>
    obtain rfl := Option.some.inj hstep
    exact ⟨hd, hhd, h⟩
  | move i m => exact early_of_moves (Option.ite_none_left_eq_some.1 hstep).2 hhd h
  | read i k => exact early_of_moves hstep hhd h
  | eof i => exact early_of_moves hstep hhd h
  | ends i d => exact early_of_moves hstep hhd h
  | work i w =>
    have ht : s.works i (fun p => p = .proxying) (fun ss => ss.work w) = some t := hstep
    exact hworks ht
  | client i op =>
    have ht : s.works i (fun _ => true) (fun ss => ss.client op) = some t := hstep
    exact hworks ht
  | upstream i op =>
    have ht : s.works i (fun _ => true) (fun ss => ss.upstream op) = some t := hstep
    exact hworks ht

/-- A look at the rate ends the part before the rate block. -/
theorem Proxy.early_of_look {s t : Proxy Addr} {i created now : Nat}
    (hstep : s.step (.move i (.checkRate created now)) = some t) :
    (∃ hd, s.shield.handlers[i]? = some hd ∧ hd.phase.early = true) ∧
      ∃ hd', t.shield.handlers[i]? = some hd' ∧ hd'.phase.early = false := by
  have ht : s.moves i (.checkRate created now) some = some t := hstep
  obtain ⟨hd, phase, shared, ss, ss', hhd, hmove, -, -, -, rfl⟩ := moves_eq_some ht
  have hset := List.getElem?_set_self (a := (⟨hd.addr, phase⟩ : Handler Addr))
    (List.getElem?_eq_some_iff.1 hhd).1
  cases hphase : hd.phase with
  | received =>
    rw [hphase] at hmove
    obtain ⟨rfl, -⟩ := Prod.mk.inj (Option.some.inj hmove)
    refine ⟨⟨hd, hhd, hphase ▸ rfl⟩, _, hset, ?_⟩
    dsimp only
    split <;> rfl
  | _ => rw [hphase] at hmove; cases hmove

/-- A handler looks at the rate once: it is past the rate block then. -/
theorem looks_at_most_once {s : Proxy Addr} {actions : List (ProxyAction Addr)}
    (h : proxy.run .start actions = some s) (i : Nat) : actions.countP (looksAtRate i) ≤ 1 := by
  have hall : actions.countP (looksAtRate i) = 0 ∨ actions.countP (looksAtRate i) = 1 ∧
      ∃ hd, s.shield.handlers[i]? = some hd ∧ hd.phase.early = false := by
    refine proxy.run_induction (I := fun as t => as.countP (looksAtRate i) = 0 ∨
      as.countP (looksAtRate i) = 1 ∧
        ∃ hd, t.shield.handlers[i]? = some hd ∧ hd.phase.early = false) (Or.inl rfl) ?_ h
    intro as t a u _ ih hstep
    rw [List.countP_append, List.countP_singleton]
    cases hlook : looksAtRate i a with
    | false =>
      rcases ih with hnone | ⟨hone, hd, hhd, hearly⟩
      · exact Or.inl hnone
      · exact Or.inr ⟨hone, Proxy.early_of_step hstep hhd hearly⟩
    | true =>
      obtain ⟨created, now, rfl⟩ : ∃ created now, a = .move i (.checkRate created now) := by
        unfold looksAtRate at hlook
        split at hlook
        · obtain rfl := of_decide_eq_true hlook
          exact ⟨_, _, rfl⟩
        · cases hlook
      obtain ⟨⟨hd, hhd, hbefore⟩, hafter⟩ := Proxy.early_of_look hstep
      rcases ih with hnone | ⟨-, hd', hhd', hearly⟩
      · exact Or.inr ⟨by rw [hnone]; rfl, hafter⟩
      · obtain rfl := Option.some.inj (hhd.symm.trans hhd')
        rw [hbefore] at hearly
        cases hearly
  rcases hall with hnone | ⟨hone, -⟩
  · exact hnone.le.trans (Nat.zero_le 1)
  · exact hone.le

theorem run_passAllOn {capacity : Nat} (hone : 1 ≤ capacity) (shared : Shared Addr) (addr : Addr)
    (sent bytes : List UInt8) :
    (boundedProxy capacity).run (oneHandler shared addr .proxying (readSession sent))
        (bytes.flatMap passOn) =
      some (oneHandler shared addr .proxying (readSession (sent ++ bytes))) := by
  induction bytes generalizing sent with
  | nil => rw [List.append_nil]; rfl
  | cons c bytes ih =>
    rw [List.append_cons]
    exact Machine.run_trans _ (run_passOn hone shared addr sent c) (ih (sent ++ [c]))

/-- **However many requests a client sends, the shield counts one**: no handler looks at the rate
twice, and for every list of requests there is a run in which all of them reach the server behind
one look, through connections that hold no more than one byte. -/
theorem requests_uncounted :
    (∀ (actions : List (ProxyAction Addr)) s i, proxy.run .start actions = some s →
      actions.countP (looksAtRate i) ≤ 1) ∧
    ∀ (addr : Addr) (b : UInt8) (requests : List (List UInt8)),
      ∃ (actions : List (ProxyAction Addr)) (s : Proxy Addr) (ss : Session),
        (boundedProxy 1).run .start actions = some s ∧
        s.shield.handlers.map Handler.addr = [addr] ∧
        s.sessions[0]? = some ss ∧ ss.up.sink.written = b :: requests.flatten ∧
        actions.countP (looksAtRate 0) = 1 := by
  refine ⟨fun actions s i h => looks_at_most_once h i, fun addr b requests => ?_⟩
  refine ⟨_, _, _, Machine.run_trans _ (run_prologue addr b le_rfl) (Machine.run_trans _
    (run_readFirst (passedOne addr) addr b)
      (run_passAllOn le_rfl (passedOne addr) addr [b] requests.flatten)), rfl, rfl,
    List.append_nil _, ?_⟩
  have hrest : (requests.flatten.flatMap passOn : List (ProxyAction Addr)).countP
      (looksAtRate 0) = 0 := by
    refine List.countP_eq_zero.2 fun a hmem => ?_
    obtain ⟨c, -, hc⟩ := List.mem_flatMap.1 hmem
    simp only [passOn, List.mem_cons, List.not_mem_nil, or_false] at hc
    rcases hc with rfl | rfl | rfl | rfl <;> exact Bool.false_ne_true
  rw [List.countP_append, List.countP_append, hrest]
  rfl

/-! ## The response is cut -/

/-- The client has closed its side, the server has got the whole request and written its response,
and the first `k` bytes of the response are passed on. -/
def answering (request response : List UInt8) (k : Nat) : Session :=
  ⟨.copying, ⟨⟨request, [], true⟩, [⟨[], .running, ⟨[], request, false⟩⟩]⟩,
    ⟨⟨response.take k, response.drop k, true⟩,
      [⟨[], .running, ⟨[], response.take k, false⟩⟩]⟩⟩

def exchange (request response : List UInt8) (k : Nat) : List (ProxyAction Addr) :=
  [.client 0 .close, .work 0 (.fill .toUpstream request.length),
    .work 0 (.drain .toUpstream request.length), .upstream 0 (.write response),
    .upstream 0 .close, .work 0 (.fill .toClient k), .work 0 (.drain .toClient k)]

theorem run_exchange {capacity : Nat} (shared : Shared Addr) (addr : Addr) (sent : List UInt8)
    {request response : List UInt8} (k : Nat)
    (hrequest : (sent ++ request).length ≤ capacity) (hresponse : response.length ≤ capacity) :
    (boundedProxy capacity).run
        (oneHandler shared addr .proxying (copyingSession sent request))
        (exchange request response k) =
      some (oneHandler shared addr .proxying (answering (sent ++ request) response k)) := by
  have hfill : Session.work ⟨.copying, ⟨⟨sent, request, true⟩, [⟨[], .running, ⟨[], sent, false⟩⟩]⟩,
      .start .empty 1⟩ (.fill .toUpstream request.length) = some ⟨.copying,
        ⟨⟨sent ++ request, [], true⟩, [⟨request, .running, ⟨[], sent, false⟩⟩]⟩,
        .start .empty 1⟩ := by
    simp [Session.work, Session.copy, Session.onUp, Chain.step, actAt, Hop.act, Pipe.take,
      Chain.ofPair]
  have hdrain : Session.work ⟨.copying, ⟨⟨sent ++ request, [], true⟩,
      [⟨request, .running, ⟨[], sent, false⟩⟩]⟩, .start .empty 1⟩
      (.drain .toUpstream request.length) = some ⟨.copying, ⟨⟨sent ++ request, [], true⟩,
        [⟨[], .running, ⟨[], sent ++ request, false⟩⟩]⟩, .start .empty 1⟩ := by
    simp [Session.work, Session.copy, Session.onUp, Chain.step, actAt, Hop.act, Pipe.write,
      Chain.ofPair]
  have hpass (up : Chain UInt8) : Session.work ⟨.copying, up, ⟨⟨response.take k, response.drop k,
      true⟩, [⟨response.take k, .running, .empty⟩]⟩⟩ (.drain .toClient k) = some ⟨.copying, up,
        ⟨⟨response.take k, response.drop k, true⟩,
          [⟨[], .running, ⟨[], response.take k, false⟩⟩]⟩⟩ := by
    simp [Session.work, Session.copy, Session.onDown, Chain.step, actAt, Hop.act, Pipe.write,
      Pipe.empty, Chain.ofPair, List.take_take]
  have hsent : sent.length ≤ capacity := by
    rw [List.length_append] at hrequest
    omega
  have hbytes : request.length ≤ capacity := by
    rw [List.length_append] at hrequest
    omega
  have hbehind : (response.drop k).length ≤ capacity := by
    rw [List.length_drop]
    omega
  have hfront : (response.take k).length ≤ capacity := (List.length_take_le' ..).trans hresponse
  have hnone : ([] : List UInt8).length ≤ capacity := Nat.zero_le _
  exact Machine.run_cons _ (step_bounded (step_client rfl) ⟨hbytes, hsent, hnone, hnone⟩) <|
    Machine.run_cons _ (step_bounded (step_work hfill) ⟨hnone, hsent, hnone, hnone⟩) <|
    Machine.run_cons _ (step_bounded (step_work hdrain) ⟨hnone, hrequest, hnone, hnone⟩) <|
    Machine.run_cons _ (step_bounded (step_upstream rfl) ⟨hnone, hrequest, hresponse, hnone⟩) <|
    Machine.run_cons _ (step_bounded (step_upstream rfl) ⟨hnone, hrequest, hresponse, hnone⟩) <|
    Machine.run_cons _ (step_bounded (step_work rfl) ⟨hnone, hrequest, hbehind, hnone⟩) <|
    Machine.run_cons _ (step_bounded (step_work (hpass _)) ⟨hnone, hrequest, hbehind, hfront⟩) rfl

/-- **A response can be cut anywhere**: a client that has sent its request and closes its side, as a
client may, gets any front part of the response that the server has sent in full, and the end of the
stream behind it.  No connection holds more than `capacity` bytes in this run, so it is for requests
and responses that are no longer. -/
theorem response_cut_anywhere {capacity : Nat} (addr : Addr) (b : UInt8)
    (request response : List UInt8) (hrequest : (b :: request).length ≤ capacity)
    (hresponse : response.length ≤ capacity) (k : Nat) :
    ∃ (actions : List (ProxyAction Addr)) (s : Proxy Addr) (ss : Session),
      (boundedProxy capacity).run .start actions = some s ∧
      s.shield.handlers.map Handler.addr = [addr] ∧
      s.sessions[0]? = some ss ∧
      (ss.up.source.written = b :: request ∧ ss.up.source.closed = true ∧
        ss.up.sink.written = b :: request ∧ ss.up.sink.closed = true) ∧
      (ss.down.source.written = response ∧ ss.down.source.closed = true ∧
        ss.down.sink.written = response.take k ∧ ss.down.sink.closed = true) := by
  have hbehind : (response.drop k).length ≤ capacity := by
    rw [List.length_drop]
    omega
  have hfront : (response.take k).length ≤ capacity := (List.length_take_le' ..).trans hresponse
  have hend : (answering (b :: request) response k).ends .toUpstream = some ⟨.copying,
      ⟨⟨b :: request, [], true⟩, [⟨[], .finished, ⟨[], b :: request, true⟩⟩]⟩,
      (answering (b :: request) response k).down⟩ := rfl
  refine ⟨_, _, _, Machine.run_trans _ (run_prologue addr b hrequest) (Machine.run_trans _
    (run_exchange (passedOne addr) addr [b] k hrequest hresponse)
      ((Machine.run_singleton _ _ _).trans (step_bounded (step_ends hend)
        ⟨Nat.zero_le _, hrequest, hbehind, hfront⟩))), rfl, rfl,
    ⟨List.append_nil _, rfl, rfl, rfl⟩, List.take_append_drop k response, rfl, rfl, rfl⟩

/-- One byte of a response of three. -/
theorem two_bytes_cut : ∃ (actions : List (ProxyAction Nat)) (s : Proxy Nat) (ss : Session),
    (boundedProxy 65536).run .start actions = some s ∧
    s.shield.handlers.map Handler.addr = [10] ∧ s.sessions[0]? = some ss ∧
    (ss.up.source.written = [71, 69, 84] ∧ ss.up.source.closed = true ∧
      ss.up.sink.written = [71, 69, 84] ∧ ss.up.sink.closed = true) ∧
    (ss.down.source.written = [1, 2, 3] ∧ ss.down.source.closed = true ∧
      ss.down.sink.written = [1] ∧ ss.down.sink.closed = true) :=
  response_cut_anywhere 10 71 [69, 84] [1, 2, 3] (by decide) (by decide) 1

end RustSamples.AntiDdos
