import RustSamples.Heartbeat
import RustSamples.HlWebsocket

/-! # The heartbeat of `hl_websocket_server`

A session of `HlWebsocket` with a clock.  The write task sends a Ping frame every 20 s, counted from
the start of its ticker, whatever else it sends; the read loop gives the client up when no frame has
come for 45 s, counted from the end of the frame before.  Ticks that come late do not move those
after them.

How late the runtime and the connection let a Ping be, and how long the client takes to answer it,
are numbers: `latency` and `response`.  A client that answers is never given up while the write task
runs exactly if two latencies and a response are less than 25 s (`heartbeat_keeps_iff`); one latency
is the Ping's, the other is the start of the write task.

Times are milliseconds.
-/
namespace RustSamples.Hl
open Scheduling Heartbeat

/-- `HEARTBEAT_INTERVAL`. -/
def heartbeatInterval : Nat := 20000

/-- `CLIENT_TIMEOUT`. -/
def clientTimeout : Nat := 45000

/-- A session behind its Welcome frame, its timers, and what is on its way. -/
structure TimedSession where
  session : Session
  now : Nat
  /-- when `heartbeat_ticker` fires next -/
  ticker : Nat
  /-- when `timeout` was called -/
  readSince : Nat
  /-- the frames that came and were not read -/
  inbox : List WsMessage
  /-- when the Pings were sent that the client has not answered -/
  unanswered : List Nat

inductive TimedAction
  /-- a move of the session that is not about a frame from the client -/
  | move (m : Move)
  /-- `ws_rx.next()` returns a frame -/
  | read
  /-- a frame comes that answers no Ping -/
  | arrive (msg : WsMessage)
  /-- the Pong frame for the oldest Ping comes -/
  | answer
  /-- another task queues a message for the client -/
  | queue (m : ServerMessage)

/-- The write task is in its loop. -/
def Session.pinging (s : Session) : Bool :=
  match s.writer with
  | .selecting | .sending _ => true
  | _ => false

/-- The write task has taken a tick and not sent its Ping. -/
def Session.ticked (s : Session) : Bool := s.writer = .sending (.ping [])

namespace TimedSession

/-- The read loop begins, and the write task starts its ticker; the first tick is skipped. -/
def opened (session : Session) (readSince started : Nat) : TimedSession :=
  ⟨session, readSince, started + heartbeatInterval, readSince, [], []⟩

/-- When the next Ping is to be sent. -/
def pingDue (s : TimedSession) : Nat :=
  if s.session.ticked then s.ticker - heartbeatInterval else s.ticker

/-- At the time `t` no Ping is late by more than `latency` and no answer by more than `response`. -/
def Prompt (latency response : Nat) (s : TimedSession) (t : Nat) : Prop :=
  s.now ≤ t ∧ (s.session.pinging = true → t ≤ s.pingDue + latency) ∧
    ∀ p ∈ s.unanswered.head?, t ≤ p + response

instance (latency response : Nat) (s : TimedSession) (t : Nat) :
    Decidable (s.Prompt latency response t) :=
  inferInstanceAs (Decidable (_ ∧ _ ∧ ∀ p ∈ s.unanswered.head?, t ≤ p + response))

/-- A timer does not fire before its time, and `timeout` asks for a frame first. -/
def ready (s : TimedSession) (t : Nat) : Move → Bool
  | .tick => decide (s.ticker ≤ t)
  | .readEnded .timeout => decide (s.readSince + clientTimeout ≤ t) && s.inbox.isEmpty
  | .frame _ => false
  | _ => true

/-- What a move does to the timers. -/
def after (s : TimedSession) (t : Nat) : Move → TimedSession
  | .tick => { s with ticker := s.ticker + heartbeatInterval }
  | .sendDone .sent =>
      if s.session.ticked then { s with unanswered := s.unanswered ++ [t] } else s
  | .publish _ => { s with readSince := t }
  | _ => s

def act (E : Env) (s : TimedSession) (t : Nat) : TimedAction → Option TimedSession
  | .move m =>
      if s.ready t m then
        (s.session.step E m).map fun r => { s.after t m with now := t, session := r.1 }
      else none
  | .read =>
      match s.inbox with
      | [] => none
      | msg :: rest =>
          (s.session.step E (.frame msg)).map fun r => { s with
            now := t, session := r.1, inbox := rest,
            readSince := if r.1.handler = .reading then t else s.readSince }
  | .arrive msg => some { s with now := t, inbox := s.inbox ++ [msg] }
  | .answer =>
      match s.unanswered with
      | [] => none
      | _ :: rest => some { s with now := t, inbox := s.inbox ++ [.pong []], unanswered := rest }
  | .queue m => some { s with now := t, session := s.session.send m none }

end TimedSession

/-- The session under every schedule in which nobody is late by more than that. -/
def timedSession (E : Env) (latency response : Nat) :
    Machine TimedSession (Nat × TimedAction) where
  step s a := if s.Prompt latency response a.1 then s.act E a.1 a.2 else none

/-! ## What the timers keep -/

/-- The handler is behind the Welcome frame. -/
def Session.Welcomed (s : Session) : Prop := s.handler ≠ .handshaking ∧ s.handler ≠ .welcoming

theorem Session.pinging_of_ticked {s : Session} (h : s.ticked = true) : s.pinging = true := by
  have hw : s.writer = .sending (.ping []) := of_decide_eq_true h
  rw [pinging, hw]

theorem Session.pinging_congr {s s' : Session} (h : s'.writer = s.writer) :
    s'.pinging = s.pinging := by
  rw [pinging, pinging, h]

theorem Session.ticked_congr {s s' : Session} (h : s'.writer = s.writer) :
    s'.ticked = s.ticked := by
  rw [ticked, ticked, h]

/-- What a move that is neither a tick nor the end of a sending does to the write task. -/
theorem Session.Step.other {E : Env} {s s' : Session} {m : Move} {effect : Effect}
    (h : Step E s m s' effect) (hs : s.Welcomed) (htick : m ≠ .tick) (hsent : m ≠ .sendDone .sent) :
    s'.Welcomed ∧ (s'.pinging = true → s.pinging = true ∧ s'.ticked = s.ticked) ∧
      (s'.handler = .reading → s.handler = .reading ∨ ∃ delivered, m = .publish delivered) := by
  cases h with
  | handshakeFailed h | register h => exact absurd h hs.1
  | welcomeSent h | welcomeUnencodable h | welcomeUnsent h => exact absurd h hs.2
  | ignored h | ping h => exact ⟨hs, fun hp => ⟨hp, rfl⟩, Or.inl⟩
  | broadcast | leave | removeEntry | abort =>
    exact ⟨⟨nofun, nofun⟩, fun hp => ⟨hp, rfl⟩, nofun⟩
  | publish h => exact ⟨⟨nofun, nofun⟩, fun hp => ⟨hp, rfl⟩, fun _ => Or.inr ⟨_, rfl⟩⟩
  | recv h => exact ⟨hs, fun _ => ⟨by rw [pinging, h], by simp [ticked, h]⟩, Or.inl⟩
  | recvUnencodable => exact ⟨hs, fun hp => ⟨hp, rfl⟩, Or.inl⟩
  | tick => exact absurd rfl htick
  | sendDone => exact absurd rfl hsent
  | sendFailed | closeDone | writerRemove | cancelIdle | cancelSending =>
    exact ⟨hs, nofun, Or.inl⟩

namespace TimedSession

/-- What is known of the Pings. -/
def beat (s : TimedSession) (due : Nat) : Beat := ⟨s.now, due, s.unanswered, s.readSince⟩

/-- **The timers keep time**: Pings are sent when the ticker says, and where no frame waits, the
client was heard when it answered last. -/
structure Timely (latency due : Nat) (s : TimedSession) : Prop where
  welcomed : s.session.Welcomed
  onTime : (s.beat due).OnTime heartbeatInterval latency
  idle : s.session.pinging = true → s.session.ticked = false →
    s.ticker = (s.beat due).nextDue heartbeatInterval
  ticked : s.session.ticked = true →
    s.ticker = (s.beat due).nextDue heartbeatInterval + heartbeatInterval ∧
      (s.beat due).nextDue heartbeatInterval ≤ s.now
  silent : s.session.handler = .reading → s.inbox = [] →
    (s.beat due).Silent heartbeatInterval latency

theorem Timely.pingDue_eq {latency due : Nat} {s : TimedSession} (h : s.Timely latency due)
    (hp : s.session.pinging = true) : s.pingDue = (s.beat due).nextDue heartbeatInterval := by
  unfold pingDue
  cases hticked : s.session.ticked with
  | true => rw [if_pos rfl, (h.ticked hticked).1, Nat.add_sub_cancel]
  | false => rw [if_neg Bool.false_ne_true, h.idle hp hticked]

/-- A prompt time is prompt for the Pings. -/
theorem Timely.prompt {latency response due t : Nat} {s : TimedSession} (h : s.Timely latency due)
    (hp : s.session.pinging = true) (ht : s.Prompt latency response t) :
    (s.beat due).Prompt heartbeatInterval latency response t :=
  ⟨ht.1, h.pingDue_eq hp ▸ ht.2.1 hp, ht.2.2⟩

theorem timely_opened {latency readSince started : Nat} {session : Session}
    (hread : session.handler = .reading) (hwrite : session.writer = .selecting)
    (hstart : started ≤ readSince + latency) :
    (opened session readSince started).Timely latency (started + heartbeatInterval) where
  welcomed := by simp [Session.Welcomed, opened, hread]
  onTime := ⟨by simp only [beat, opened]; omega, nofun⟩
  idle _ _ := by simp [opened, beat, Beat.nextDue]
  ticked h := by simp [opened, Session.ticked, hwrite] at h
  silent _ _ := by simp only [Beat.Silent, beat, opened]; omega

section
variable {E : Env} {latency response due t : Nat} {s : TimedSession}

/-- A move of the session beside its timers; `readSince` is when the handler last read, or now. -/
theorem Timely.other (h : s.Timely latency due) (ht : s.now ≤ t) {session : Session}
    {inbox : List WsMessage} {readSince : Nat} (hwelcomed : session.Welcomed)
    (hwriter : session.pinging = true →
      s.session.pinging = true ∧ session.ticked = s.session.ticked)
    (hread : session.handler = .reading →
      readSince = t ∨ readSince = s.readSince ∧ s.session.handler = .reading ∧ inbox = s.inbox) :
    Timely latency due ⟨session, t, s.ticker, readSince, inbox, s.unanswered⟩ where
  welcomed := hwelcomed
  onTime := ⟨(h.onTime.wait ht).due, (h.onTime.wait ht).sent⟩
  idle hp hticked := h.idle (hwriter hp).1 ((hwriter hp).2.symm.trans hticked)
  ticked hticked := by
    have hsame := (hwriter (Session.pinging_of_ticked hticked)).2
    obtain ⟨hticker, hnow⟩ := h.ticked (hsame.symm.trans hticked)
    exact ⟨hticker, hnow.trans ht⟩
  silent hreading hinbox := by
    rcases hread hreading with rfl | ⟨rfl, hwas, rfl⟩
    · exact h.onTime.silent_hear ht
    · exact h.silent hwas hinbox

/-- Something comes from the client. -/
theorem Timely.arrive (h : s.Timely latency due) (ht : s.now ≤ t) (msg : WsMessage) :
    Timely latency due { s with now := t, inbox := s.inbox ++ [msg] } where
  welcomed := h.welcomed
  onTime := h.onTime.wait ht
  idle := h.idle
  ticked hticked := ⟨(h.ticked hticked).1, (h.ticked hticked).2.trans ht⟩
  silent _ hinbox := absurd hinbox (List.append_ne_nil_of_right_ne_nil _ (List.cons_ne_nil _ _))

theorem Timely.answer (h : s.Timely latency due) (ht : s.now ≤ t) {p : Nat} {rest : List Nat}
    (hp : s.unanswered = p :: rest) (msg : WsMessage) :
    Timely latency (due + heartbeatInterval)
      { s with now := t, inbox := s.inbox ++ [msg], unanswered := rest } := by
  have hfirst : (s.beat due).unanswered[0]? = some p := by rw [beat, hp]; rfl
  have hnext : (s.beat due).nextDue heartbeatInterval =
      due + heartbeatInterval + rest.length * heartbeatInterval := by
    rw [Beat.nextDue, beat, hp, List.length_cons]
    ring
  have hanswer := h.onTime.answer ht hfirst
  have htail : ((s.beat due).answer heartbeatInterval t).unanswered = rest := by
    rw [Beat.answer, beat, hp]
    rfl
  refine ⟨h.welcomed, ⟨hanswer.due, htail ▸ hanswer.sent⟩, fun hping hidle => ?_, fun hticked => ?_,
    fun _ hinbox => ?_⟩
  · exact (h.idle hping hidle).trans hnext
  · obtain ⟨hticker, hnow⟩ := h.ticked hticked
    exact ⟨hticker.trans (congrArg (· + heartbeatInterval) hnext),
      (hnext.symm.le.trans hnow).trans ht⟩
  · exact absurd hinbox (List.append_ne_nil_of_right_ne_nil _ (List.cons_ne_nil _ _))

theorem Timely.tick (h : s.Timely latency due) (ht : s.now ≤ t) (hready : s.ticker ≤ t)
    (hwriter : s.session.writer = .selecting) :
    Timely latency due { s with
      now := t
      session := { s.session with writer := .sending (.ping []) }
      ticker := s.ticker + heartbeatInterval } := by
  have hidle : s.ticker = (s.beat due).nextDue heartbeatInterval :=
    h.idle (by rw [Session.pinging, hwriter]) (by simp [Session.ticked, hwriter])
  refine ⟨h.welcomed, h.onTime.wait ht, fun _ hticked => ?_, fun _ => ?_, h.silent⟩
  · simp [Session.ticked] at hticked
  · exact ⟨congrArg (· + heartbeatInterval) hidle, hidle.symm.le.trans hready⟩

/-- The Ping is sent. -/
theorem Timely.pinged {response : Nat} (h : s.Timely latency due)
    (ht : s.Prompt latency response t) (hticked : s.session.ticked = true)
    {sent : List WsMessage} :
    Timely latency due { s with
      now := t
      session := { s.session with sent := sent, writer := .selecting }
      unanswered := s.unanswered ++ [t] } := by
  obtain ⟨hticker, hdue⟩ := h.ticked hticked
  obtain ⟨hnow, hlate, -⟩ := h.prompt (Session.pinging_of_ticked hticked) ht
  have hping := h.onTime.ping hnow (hdue.trans hnow) hlate
  refine ⟨h.welcomed, hping, fun _ _ => ?_, fun he => ?_, h.silent⟩
  · simp only [beat, Beat.nextDue, List.length_append, List.length_singleton] at hticker ⊢
    rw [hticker]
    ring
  · simp [Session.ticked] at he

/-- A frame is sent, a Ping or another. -/
theorem Timely.sendDone {response : Nat} {session : Session} {effect : Effect}
    (h : s.Timely latency due) (hprompt : s.Prompt latency response t)
    (hmove : s.session.step E (.sendDone .sent) = some (session, effect)) :
    Timely latency due { s.after t (.sendDone .sent) with now := t, session := session } := by
  cases hwriter : s.session.writer with
  | sending frame =>
    have hstep : s.session.step E (.sendDone .sent) = some
        ({ s.session with sent := s.session.sent ++ [frame], writer := .selecting }, .none) := by
      simp [Session.step, Session.writerStep, hwriter, Session.write, SendResult.reached]
    obtain ⟨rfl, -⟩ := Prod.mk.inj (Option.some.inj (hstep.symm.trans hmove))
    cases hticked : s.session.ticked with
    | true =>
      have hafter : s.after t (.sendDone .sent) =
          { s with unanswered := s.unanswered ++ [t] } := if_pos hticked
      rw [hafter]
      exact h.pinged hprompt hticked
    | false =>
      have hafter : s.after t (.sendDone .sent) = s :=
        if_neg fun he => Bool.false_ne_true (hticked.symm.trans he)
      rw [hafter]
      refine h.other hprompt.1 h.welcomed (fun _ => ?_) fun hr => Or.inr ⟨rfl, hr, rfl⟩
      exact ⟨by rw [Session.pinging, hwriter], by rw [hticked]; rfl⟩
  | _ => simp [Session.step, Session.writerStep, hwriter] at hmove

omit s t in
theorem after_of_ne (s : TimedSession) (t : Nat) {m : Move} (htick : m ≠ .tick)
    (hsent : m ≠ .sendDone .sent) (hpublish : ¬ ∃ delivered, m = .publish delivered) :
    s.after t m = s := by
  unfold after
  split
  · exact absurd rfl htick
  · exact absurd rfl hsent
  · exact absurd ⟨_, rfl⟩ hpublish
  · rfl

/-- **One step keeps time.** -/
theorem Timely.step {response : Nat} {a : TimedAction} {u : TimedSession}
    (h : s.Timely latency due) (hstep : (timedSession E latency response).step s (t, a) = some u) :
    ∃ due', u.Timely latency due' := by
  obtain ⟨hprompt, hact⟩ := Option.ite_none_right_eq_some.1 hstep
  have ht := hprompt.1
  cases a with
  | move m =>
    obtain ⟨hready, hmap⟩ := Option.ite_none_right_eq_some.1 hact
    obtain ⟨⟨session, effect⟩, hmove, rfl⟩ := Option.map_eq_some_iff.1 hmap
    by_cases htick : m = .tick
    · subst htick
      obtain ⟨hwriter, heq⟩ := Option.ite_none_right_eq_some.1 hmove
      obtain ⟨rfl, -⟩ := Prod.mk.inj (Option.some.inj heq)
      exact ⟨due, h.tick ht (of_decide_eq_true hready) hwriter⟩
    by_cases hsent : m = .sendDone .sent
    · subst hsent
      exact ⟨due, h.sendDone hprompt hmove⟩
    obtain ⟨hwelcomed, hwriter, hread⟩ := (Session.step_spec hmove).other h.welcomed htick hsent
    by_cases hpublish : ∃ delivered, m = .publish delivered
    · obtain ⟨delivered, rfl⟩ := hpublish
      exact ⟨due, h.other ht hwelcomed hwriter fun _ => Or.inl rfl⟩
    · rw [after_of_ne s t htick hsent hpublish]
      refine ⟨due, h.other ht hwelcomed hwriter fun hr => Or.inr ⟨rfl, ?_, rfl⟩⟩
      exact (hread hr).resolve_right hpublish
  | read =>
    cases hinbox : s.inbox with
    | nil => simp [act, hinbox] at hact
    | cons msg rest =>
      simp only [act, hinbox] at hact
      obtain ⟨⟨session, effect⟩, hmove, rfl⟩ := Option.map_eq_some_iff.1 hact
      obtain ⟨hwelcomed, hwriter, -⟩ :=
        (Session.step_spec hmove).other h.welcomed nofun nofun
      exact ⟨due, h.other ht hwelcomed hwriter fun hr => Or.inl (if_pos hr)⟩
  | arrive msg =>
    obtain rfl := Option.some.inj hact
    exact ⟨due, h.arrive ht msg⟩
  | answer =>
    cases hpings : s.unanswered with
    | nil => simp [act, hpings] at hact
    | cons p rest =>
      simp only [act, hpings] at hact
      obtain rfl := Option.some.inj hact
      exact ⟨_, h.answer ht hpings _⟩
  | queue m =>
    obtain rfl := Option.some.inj hact
    have hcore := s.session.core_send m none
    have hhandler : (s.session.send m none).handler = s.session.handler :=
      congrArg (·.2.1) hcore
    have hwriter : (s.session.send m none).writer = s.session.writer := congrArg (·.2.2) hcore
    refine ⟨due, h.other ht ?_ (fun hp => ?_) fun hr => Or.inr ⟨rfl, hhandler ▸ hr, rfl⟩⟩
    · rw [Session.Welcomed, hhandler]
      exact h.welcomed
    · exact ⟨Session.pinging_congr hwriter ▸ hp, Session.ticked_congr hwriter⟩

end

end TimedSession

/-! ## The client that answers -/

theorem timely_of_run {E : Env} {latency response due : Nat} {s u : TimedSession}
    {schedule : List (Nat × TimedAction)} (hs : s.Timely latency due)
    (h : (timedSession E latency response).run s schedule = some u) :
    ∃ due', u.Timely latency due' :=
  (timedSession E latency response).run_invariant (I := fun u => ∃ due', u.Timely latency due')
    (fun _ a _ ⟨_, ht⟩ hstep => ht.step (t := a.1) (a := a.2) hstep) ⟨due, hs⟩ h

/-- In no run in which Pings are late by at most `latency` and answers by at most `response` does
the read loop give the client up while the write task runs. -/
def KeepsClient (E : Env) (latency response : Nat) : Prop :=
  ∀ (session : Session) (readSince started : Nat) (schedule : List (Nat × TimedAction))
    (s u : TimedSession) (t : Nat), session.handler = .reading → session.writer = .selecting →
    started ≤ readSince + latency →
    (timedSession E latency response).run (.opened session readSince started) schedule = some s →
    (timedSession E latency response).step s (t, .move (.readEnded .timeout)) = some u →
    s.session.pinging = false

theorem keepsClient_of_lt {E : Env} {latency response : Nat}
    (hlt : 2 * latency + response < clientTimeout - heartbeatInterval) :
    KeepsClient E latency response := by
  intro session readSince started schedule s u t hread hwrite hstart hrun hstep
  obtain ⟨due, htimely⟩ := timely_of_run (TimedSession.timely_opened hread hwrite hstart) hrun
  obtain ⟨hprompt, hact⟩ := Option.ite_none_right_eq_some.1 hstep
  obtain ⟨hready, hmap⟩ := Option.ite_none_right_eq_some.1 hact
  obtain ⟨⟨session', effect⟩, hmove, -⟩ := Option.map_eq_some_iff.1 hmap
  obtain ⟨hreading, -⟩ := Option.ite_none_right_eq_some.1 hmove
  obtain ⟨hexpired, hinbox⟩ := Bool.and_eq_true_iff.1 hready
  by_contra hpinging
  have hpinging : s.session.pinging = true := by simpa using hpinging
  have hsilent := htimely.silent hreading (List.isEmpty_iff.1 hinbox)
  have hheard := htimely.onTime.heard_again hsilent (htimely.prompt hpinging hprompt)
  have hexpired := of_decide_eq_true hexpired
  simp only [TimedSession.beat, clientTimeout, heartbeatInterval] at hheard hexpired hlt
  omega

/-- A session whose client sends nothing. -/
def silentSession (sent : List WsMessage) : Session :=
  { Session.start 0 with handler := .reading, writer := .selecting, sent := sent }

section
variable {E : Env} {latency response now ticker t : Nat} {sent : List WsMessage} {pings : List Nat}

theorem run_ping (hnow : now ≤ t) (hticker : ticker ≤ t) (hlate : t ≤ ticker + latency)
    (hanswer : ∀ p ∈ pings.head?, t ≤ p + response) :
    (timedSession E latency response).run ⟨silentSession sent, now, ticker, 0, [], pings⟩
        [(t, .move .tick), (t, .move (.sendDone .sent))] =
      some ⟨silentSession (sent ++ [.ping []]), t, ticker + heartbeatInterval, 0, [],
        pings ++ [t]⟩ := by
  have htick : (timedSession E latency response).step
      ⟨silentSession sent, now, ticker, 0, [], pings⟩ (t, .move .tick) =
        some ⟨{ silentSession sent with writer := .sending (.ping []) }, t,
          ticker + heartbeatInterval, 0, [], pings⟩ := by
    refine (if_pos ⟨hnow, fun _ => hlate, hanswer⟩).trans (if_pos ?_)
    exact decide_eq_true hticker
  refine Machine.run_cons _ htick (Machine.run_cons _ ?_ rfl)
  refine (if_pos ⟨le_rfl, fun _ => ?_, hanswer⟩).trans rfl
  simp only [TimedSession.pingDue, Session.ticked, decide_true, if_true, Nat.add_sub_cancel]
  exact hlate

theorem exists_timeout (hexpired : clientTimeout ≤ t) (hnow : now ≤ t)
    (hlate : t ≤ ticker + latency) (hanswer : ∀ p ∈ pings.head?, t ≤ p + response) :
    ∃ u, (timedSession E latency response).step ⟨silentSession sent, now, ticker, 0, [], pings⟩
      (t, .move (.readEnded .timeout)) = some u := by
  have hprompt : TimedSession.Prompt latency response
      ⟨silentSession sent, now, ticker, 0, [], pings⟩ t := ⟨hnow, fun _ => hlate, hanswer⟩
  have hready : TimedSession.ready ⟨silentSession sent, now, ticker, 0, [], pings⟩ t
      (.readEnded .timeout) = true := by
    simp [TimedSession.ready, hexpired]
  exact ⟨_, (if_pos hprompt).trans (if_pos hready)⟩

/-- A client that answers later than that can be given up, with Pings on their way. -/
theorem not_keepsClient_of_le
    (hle : clientTimeout - heartbeatInterval ≤ 2 * latency + response) :
    ¬ KeepsClient E latency response := by
  intro hkeeps
  have hgiven (schedule : List (Nat × TimedAction)) {sent : List WsMessage} {now ticker : Nat}
      {pings : List Nat} (hrun : (timedSession E latency response).run
        (.opened (silentSession []) 0 latency) schedule =
          some ⟨silentSession sent, now, ticker, 0, [], pings⟩)
      (hnow : now ≤ clientTimeout) (hlate : clientTimeout ≤ ticker + latency)
      (hanswer : ∀ p ∈ pings.head?, clientTimeout ≤ p + response) : False := by
    obtain ⟨u, hu⟩ := exists_timeout le_rfl hnow hlate hanswer
    exact Bool.noConfusion
      (hkeeps (silentSession []) 0 latency schedule _ u _ rfl rfl (by omega) hrun hu)
  have hthird : clientTimeout ≤ 3 * heartbeatInterval := by decide
  rcases Nat.lt_or_ge (2 * latency + heartbeatInterval) clientTimeout with hfirst | hnone
  · have hone : (timedSession E latency response).run (.opened (silentSession []) 0 latency) _ =
        some _ :=
      run_ping (Nat.zero_le (2 * latency + heartbeatInterval)) (by omega) (by omega) nofun
    have hanswer {t : Nat} (ht : t ≤ 2 * latency + heartbeatInterval + response) :
        ∀ p ∈ [2 * latency + heartbeatInterval].head?, t ≤ p + response := by
      intro p hp
      obtain rfl := Option.some.inj hp
      exact ht
    rcases Nat.lt_or_ge (2 * latency + 2 * heartbeatInterval) clientTimeout with hsecond | hlate
    · have htwo : (timedSession E latency response).run ⟨silentSession [.ping []],
          2 * latency + heartbeatInterval, latency + heartbeatInterval + heartbeatInterval, 0, [],
          [2 * latency + heartbeatInterval]⟩ _ = some _ :=
        run_ping (t := 2 * latency + 2 * heartbeatInterval) (by omega) (by omega) (by omega)
          (hanswer (by omega))
      exact hgiven _ (Machine.run_trans _ hone htwo) hsecond.le (by omega) (hanswer (by omega))
    · exact hgiven _ hone hfirst.le (by omega) (hanswer (by omega))
  · exact hgiven [] rfl (Nat.zero_le _) (by omega) nofun

end

/-- **The heartbeat keeps exactly the clients that answer in 25 s**, less two latencies. -/
theorem heartbeat_keeps_iff (E : Env) (latency response : Nat) :
    KeepsClient E latency response ↔
      2 * latency + response < clientTimeout - heartbeatInterval :=
  ⟨fun h => Nat.lt_of_not_le fun hle => not_keepsClient_of_le hle h, keepsClient_of_lt⟩

end RustSamples.Hl
