import RustSamples.HlWebsocket
import RustSamples.RustStr

/-! # The order of the frames of a session

A session is in the map before its Welcome frame is sent, and its socket is written from
two tasks.  But the write task is spawned only when the Welcome frame is out, nobody else
takes messages from the channel, and the task finishes one frame before it takes the next
message.  So what has been queued is, at any time, what was sent, then at most one message
that is being sent, then what is still in the channel (`InOrder`).  When the task stops,
the rest of that list is cut off.
-/
namespace RustSamples.Hl
open Scheduling

/-- The content of a binary frame. -/
def WsMessage.binaryData : WsMessage → Option (List UInt8)
  | .binary data => some data
  | _ => none

/-- The binary frames that reached the client. -/
def Session.binaryFrames (s : Session) : List (List UInt8) := s.sent.filterMap WsMessage.binaryData

/-- The messages queued for the client so far, in queue order. -/
def Session.messages (s : Session) : List ServerMessage := s.queued.map Prod.fst

/-- The binary frame the write task is sending. -/
def WriterPc.inFlight : WriterPc → List (List UInt8)
  | .sending frame => [frame].filterMap WsMessage.binaryData
  | _ => []

/-- The write task is in its loop. -/
def WriterPc.InLoop (w : WriterPc) : Prop := w = .selecting ∨ ∃ frame, w = .sending frame

/-- The write task has left its loop. -/
def WriterPc.Over (w : WriterPc) : Prop :=
  w = .closing ∨ w = .removing ∨ w = .finished ∨ w = .cancelled

/-- Where the queued messages of a session are. -/
inductive InOrder (enc : ServerMessage → List UInt8) (s : Session) : Prop
  | before (hw : s.writer = .notSpawned) (hframes : s.binaryFrames = [])
      (hqueue : s.messages = s.queue)
  | unwelcome (hw : s.writer = .notSpawned) (hexit : s.handler = .returned .welcomeFailed)
      (hframes : s.binaryFrames = [enc (.welcome s.id)])
  | inLoop (taken held : List ServerMessage) (hw : s.writer.InLoop)
      (hheld : held.map enc = s.writer.inFlight)
      (hframes : s.binaryFrames = enc (.welcome s.id) :: taken.map enc)
      (hqueue : s.messages = taken ++ held ++ s.queue)
  | stopped (taken : List ServerMessage) (hw : s.writer.Over)
      (hframes : s.binaryFrames = enc (.welcome s.id) :: taken.map enc)
      (hqueue : taken <+: s.messages)

section
variable {E : Env} {enc : ServerMessage → List UInt8} {s s' : Session}

/-- A step that touches neither the channel nor the socket nor the write task. -/
theorem InOrder.congr (h : InOrder enc s) (hexit : s.handler ≠ .returned .welcomeFailed)
    (hid : s'.id = s.id) (hw : s'.writer = s.writer) (hq : s'.queue = s.queue)
    (hm : s'.messages = s.messages) (hf : s'.binaryFrames = s.binaryFrames) : InOrder enc s' := by
  cases h with
  | before h₁ h₂ h₃ => exact .before (by rw [hw, h₁]) (by rw [hf, h₂]) (by rw [hm, hq, h₃])
  | unwelcome _ h₂ _ => exact absurd h₂ hexit
  | inLoop taken held h₁ h₂ h₃ h₄ =>
    exact .inLoop taken held (by rwa [hw]) (by rwa [hw]) (by rw [hf, h₃, hid]) (by rw [hm, hq, h₄])
  | stopped taken h₁ h₂ h₃ => exact .stopped taken (by rwa [hw]) (by rw [hf, h₂, hid]) (by rwa [hm])

theorem inOrder_start (id : UInt64) : InOrder enc (.start id) := .before rfl rfl rfl

/-- Of a frame that was being sent, the client has nothing or all. -/
theorem reached_binaryData (frame : WsMessage) (written : Bool) :
    ((SendResult.failed written).reached frame).filterMap WsMessage.binaryData = [] ∨
      ((SendResult.failed written).reached frame).filterMap WsMessage.binaryData =
        (WriterPc.sending frame).inFlight := by
  cases written with
  | false => exact Or.inl rfl
  | true => exact Or.inr rfl

/-- The write task leaves its loop in the middle of a frame. -/
theorem InOrder.cut (h : InOrder enc s) {frame : WsMessage} (hw : s.writer = .sending frame)
    (written : Bool) {w : WriterPc} (hover : w.Over) :
    InOrder enc { s.write frame (.failed written) with writer := w } := by
  cases h with
  | before h₁ _ _ => rw [hw] at h₁; cases h₁
  | unwelcome h₁ _ _ => rw [hw] at h₁; cases h₁
  | stopped _ h₁ _ _ => rw [hw] at h₁; rcases h₁ with h₁ | h₁ | h₁ | h₁ <;> cases h₁
  | inLoop taken held _ hheld hframes hqueue =>
    rw [hw] at hheld
    have hsent : ({ s.write frame (.failed written) with writer := w } : Session).binaryFrames =
        s.binaryFrames ++
          ((SendResult.failed written).reached frame).filterMap WsMessage.binaryData :=
      List.filterMap_append
    rcases reached_binaryData frame written with hno | hall
    · refine .stopped taken hover (by rw [hsent, hno, List.append_nil, hframes]; rfl) ?_
      exact ⟨held ++ s.queue, by rw [← List.append_assoc]; exact hqueue.symm⟩
    · refine .stopped (taken ++ held) hover ?_ ⟨s.queue, hqueue.symm⟩
      rw [hsent, hall, ← hheld, hframes, List.map_append]
      rfl

theorem InOrder.loop (h : InOrder enc s) (hw : s.writer.InLoop) :
    ∃ taken held, held.map enc = s.writer.inFlight ∧
      s.binaryFrames = enc (.welcome s.id) :: taken.map enc ∧
      s.messages = taken ++ held ++ s.queue := by
  cases h with
  | inLoop taken held _ hheld hframes hqueue => exact ⟨taken, held, hheld, hframes, hqueue⟩
  | before h₁ | unwelcome h₁ =>
    rw [h₁] at hw; rcases hw with hw | ⟨_, hw⟩ <;> cases hw
  | stopped _ h₁ _ _ =>
    rcases hw with hw | ⟨_, hw⟩ <;> rw [hw] at h₁ <;> rcases h₁ with h₁ | h₁ | h₁ | h₁ <;> cases h₁

/-- Between two frames, what was queued is what was sent and what is in the channel. -/
theorem InOrder.select (h : InOrder enc s) (hw : s.writer = .selecting) :
    ∃ taken, s.binaryFrames = enc (.welcome s.id) :: taken.map enc ∧
      s.messages = taken ++ s.queue := by
  obtain ⟨taken, held, hheld, hframes, hqueue⟩ := h.loop (Or.inl hw)
  rw [hw] at hheld
  obtain rfl : held = [] := List.map_eq_nil_iff.mp hheld
  exact ⟨taken, hframes, by simpa using hqueue⟩

/-- The write task leaves its loop, or goes on after it. -/
theorem InOrder.stop (h : InOrder enc s) (hspawned : s.writer ≠ .notSpawned) {w : WriterPc}
    (hover : w.Over) : InOrder enc { s with writer := w } := by
  cases h with
  | before h₁ | unwelcome h₁ => exact absurd h₁ hspawned
  | stopped taken _ hframes hqueue => exact .stopped taken hover hframes hqueue
  | inLoop taken held _ _ hframes hqueue =>
    refine .stopped taken hover hframes ⟨held ++ s.queue, ?_⟩
    rw [← List.append_assoc]
    exact hqueue.symm

/-- A handler before the Welcome frame. -/
theorem InOrder.waiting (h : InOrder enc s) (hwaits : s.WriterWaits)
    (hh : s.handler = .welcoming) : s.binaryFrames = [] ∧ s.messages = s.queue := by
  have hw : s.writer = .notSpawned := hwaits (Or.inr (Or.inl hh))
  cases h with
  | before _ hframes hqueue => exact ⟨hframes, hqueue⟩
  | unwelcome _ hexit _ => rw [hh] at hexit; cases hexit
  | inLoop _ _ h₁ _ _ _ => rw [hw] at h₁; rcases h₁ with h₁ | ⟨_, h₁⟩ <;> cases h₁
  | stopped _ h₁ _ _ => rw [hw] at h₁; rcases h₁ with h₁ | h₁ | h₁ | h₁ <;> cases h₁

theorem inOrder_step (henc : ∀ m, E.toAllocvec m = some (enc m)) {m : Move} {effect : Effect}
    (h : InOrder enc s) (hwaits : s.WriterWaits) (hstep : Session.Step E s m s' effect) :
    InOrder enc s' := by
  cases hstep with
  | handshakeFailed hh | register hh | broadcast hh | leave hh | publish hh | removeEntry hh
  | abort hh => exact h.congr (by rw [hh]; nofun) rfl rfl rfl rfl rfl
  | ignored | ping => exact h
  | welcomeUnencodable _ hbytes | recvUnencodable _ _ hbytes => rw [henc] at hbytes; cases hbytes
  | welcomeSent hh hbytes =>
    obtain rfl := Option.some.inj ((henc _).symm.trans hbytes)
    obtain ⟨hframes, hqueue⟩ := h.waiting hwaits hh
    refine .inLoop [] [] (Or.inl rfl) rfl ?_ hqueue
    exact List.filterMap_append.trans (congrArg (· ++ [enc (.welcome s.id)]) hframes)
  | welcomeUnsent hh hbytes =>
    rename_i written
    obtain rfl := Option.some.inj ((henc _).symm.trans hbytes)
    obtain ⟨hframes, hqueue⟩ := h.waiting hwaits hh
    have hw : s.writer = .notSpawned := hwaits (Or.inr (Or.inl hh))
    cases written with
    | false => exact .before hw ((congrArg _ (List.append_nil s.sent)).trans hframes) hqueue
    | true =>
      exact .unwelcome hw rfl
        (List.filterMap_append.trans (congrArg (· ++ [enc (.welcome s.id)]) hframes))
  | recv hw hcons hbytes =>
    rename_i m rest bytes
    obtain rfl := Option.some.inj ((henc _).symm.trans hbytes)
    obtain ⟨taken, hframes, hqueue⟩ := h.select hw
    refine .inLoop taken [m] (Or.inr ⟨_, rfl⟩) rfl hframes ?_
    show s.messages = taken ++ [m] ++ rest
    rw [hqueue, hcons, List.append_assoc]
    rfl
  | tick hw =>
    obtain ⟨taken, hframes, hqueue⟩ := h.select hw
    exact .inLoop taken [] (Or.inr ⟨_, rfl⟩) rfl hframes (by rw [List.append_nil]; exact hqueue)
  | sendDone hw =>
    rename_i frame
    obtain ⟨taken, held, hheld, hframes, hqueue⟩ := h.loop (Or.inr ⟨_, hw⟩)
    rw [hw] at hheld
    refine .inLoop (taken ++ held) [] (Or.inl rfl) rfl ?_ (by rw [List.append_nil]; exact hqueue)
    refine List.filterMap_append.trans ?_
    rw [List.map_append, hheld]
    exact congrArg (· ++ _) hframes
  | sendFailed hw => exact h.cut hw _ (Or.inl rfl)
  | closeDone hw => exact h.stop (by rw [hw]; nofun) (Or.inr (Or.inl rfl))
  | writerRemove hw => exact h.stop (by rw [hw]; nofun) (Or.inr (Or.inr (Or.inl rfl)))
  | cancelIdle _ hw =>
    exact h.stop (by rcases hw with hw | hw <;> rw [hw] <;> nofun) (Or.inr (Or.inr (Or.inr rfl)))
  | cancelSending _ hw => exact h.cut hw _ (Or.inr (Or.inr (Or.inr rfl)))

/-- A message put into the channel comes behind the others. -/
theorem inOrder_send (h : InOrder enc s) (m : ServerMessage) (p : Option Nat) :
    InOrder enc (s.send m p) := by
  unfold Session.send
  split
  · have hmsgs : ({ s with queue := s.queue ++ [m], queued := s.queued ++ [(m, p)] } :
        Session).messages = s.messages ++ [m] := List.map_append
    cases h with
    | before hw hframes hqueue => exact .before hw hframes (by rw [hmsgs, hqueue])
    | unwelcome hw hexit hframes => exact .unwelcome hw hexit hframes
    | inLoop taken held hw hheld hframes hqueue =>
      exact .inLoop taken held hw hheld hframes (by rw [hmsgs, hqueue, List.append_assoc])
    | stopped taken hw hframes hqueue =>
      exact .stopped taken hw hframes (by rw [hmsgs]; exact hqueue.trans (List.prefix_append _ _))
  · exact h

theorem inOrder_offer (h : InOrder enc s) (key : UInt64) (f : FanOut) :
    InOrder enc (s.offer key f) := by
  have hs : InOrder enc { s with offered := s.offered ++ [f.number] } := by
    cases h with
    | before hw hframes hqueue => exact .before hw hframes hqueue
    | unwelcome hw hexit hframes => exact .unwelcome hw hexit hframes
    | inLoop taken held hw hheld hframes hqueue => exact .inLoop taken held hw hheld hframes hqueue
    | stopped taken hw hframes hqueue => exact .stopped taken hw hframes hqueue
  unfold Session.offer
  simp only
  split
  · exact inOrder_send hs _ _
  · exact hs

end

/-- **A client sees Welcome, then a prefix of its queue.**  At any point of any run of any
cluster, the binary frames a client has received are none, or the Welcome frame with its
session's id followed by the first so many messages ever queued for it, in queue order. -/
theorem frames_are_welcome_then_queue {ι : Type} [DecidableEq ι] (E : Env)
    (enc : ServerMessage → List UInt8) (henc : ∀ m, E.toAllocvec m = some (enc m))
    {events : List (Event ι)} {c : Cluster ι} (hrun : (cluster E).run .start events = some c)
    {b : ι} {i : Nat} {s : Session} (hs : c.session b i = some s) :
    s.binaryFrames = [] ∨
      ∃ k, s.binaryFrames = (ServerMessage.welcome s.id :: s.messages.take k).map enc := by
  have hinv : InOrder enc s ∧ s.WriterWaits :=
    session_invariant (E := E) (P := fun s => InOrder enc s ∧ s.WriterWaits)
      (fun id => ⟨inOrder_start id, fun _ => rfl⟩)
      (fun s m s' effect hs h => ⟨inOrder_step henc hs.1 hs.2 h, Session.writerWaits_step hs.2 h⟩)
      (fun s hs m p => ⟨inOrder_send hs.1 m p, hs.2.of_core (by simp)⟩)
      (fun s hs key f => ⟨inOrder_offer hs.1 key f, hs.2.of_core (by simp)⟩)
      hrun hs
  cases hinv.1 with
  | before _ hframes => exact Or.inl hframes
  | unwelcome _ _ hframes => exact Or.inr ⟨0, hframes⟩
  | inLoop taken held _ _ hframes hqueue =>
    refine Or.inr ⟨taken.length, ?_⟩
    rw [hframes, hqueue, List.append_assoc, List.take_left]
    rfl
  | stopped taken _ hframes hqueue =>
    obtain ⟨rest, hrest⟩ := hqueue
    refine Or.inr ⟨taken.length, ?_⟩
    rw [hframes, ← hrest, List.take_left]
    rfl

/-! ### Postcard -/

/-- A number in groups of seven bits, the least significant first, at most `groups` of
them; all but the last have the top bit set. -/
def varint : Nat → Nat → List UInt8
  | 0, _ => []
  | groups + 1, n =>
      if n < 128 then [UInt8.ofNat n] else UInt8.ofNat (n % 128 + 128) :: varint groups (n / 128)

/-- A string: its length, then its bytes. -/
def postcardStr (s : String) : List UInt8 :=
  varint 10 (RustStr.asBytes s).length ++ RustStr.asBytes s

/-- `postcard::to_allocvec`: the place of the variant, then the fields. -/
def postcardBytes : ServerMessage → List UInt8
  | .pong => [0]
  | .welcome sessionId => 1 :: varint 10 sessionId.toNat
  | .notification fromUser text => 2 :: (varint 10 fromUser.toNat ++ postcardStr text)
  | .error code msg => 3 :: (varint 3 code.toNat ++ postcardStr msg)

/-- A client that sends a Ping; a heartbeat goes out before its Pong. -/
def pingedSession : List (Event Unit) :=
  [.accept (), .move () 0 .register, .move () 0 (.welcome .sent),
    .move () 0 (.frame (.binary [0])), .move () 0 .tick, .move () 0 (.sendDone .sent),
    .move () 0 .recv, .move () 0 (.sendDone .sent)]

/-- It gets its Welcome and its Pong, with a Ping frame between them. -/
theorem pinged_session_frames :
    ∃ c s, (cluster { sampleEnv with toAllocvec := fun m => some (postcardBytes m) }).run .start
        pingedSession = some c ∧ c.session () 0 = some s ∧ s.messages = [.pong] ∧
      s.binaryFrames = [[1, 1], [0]] ∧ s.sent = [.binary [1, 1], .ping [], .binary [0]] ∧
      ∃ k, s.binaryFrames =
        (ServerMessage.welcome s.id :: s.messages.take k).map postcardBytes := by
  obtain ⟨c, s, hrun, hs, hmessages, hframes, hsent⟩ : ∃ c s,
      (cluster { sampleEnv with toAllocvec := fun m => some (postcardBytes m) }).run .start
        pingedSession = some c ∧ c.session () 0 = some s ∧ s.messages = [.pong] ∧
      s.binaryFrames = [[1, 1], [0]] ∧ s.sent = [.binary [1, 1], .ping [], .binary [0]] :=
    ⟨_, _, rfl, rfl, rfl, rfl, rfl⟩
  refine ⟨c, s, hrun, hs, hmessages, hframes, hsent, ?_⟩
  rcases frames_are_welcome_then_queue _ postcardBytes (fun _ => rfl) hrun hs with hempty | h
  · rw [hframes] at hempty
    cases hempty
  · exact h

end RustSamples.Hl
