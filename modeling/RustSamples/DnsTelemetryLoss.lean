import Mathlib.Data.List.Nodup
import RustSamples.DnsTelemetry

/-! # Where `dns_telemetry` loses packets

The capture thread, the parsing loop and the batch worker are joined by two bounded
channels.  Both sends are `try_send` with the result ignored, so a full channel drops what
it is offered.  The worker clears its batch after a failed creation of an insert and after a
failed `end`.  And when the capture thread ends, the parsing loop drains its channel and
`main` returns, with the records in the second channel and in the batch.

Packets are numbered as they are captured; the numbers and the list `captured` are there for
the statements only.  No number is in two places at once (`Placed`), so what one of these
steps drops is nowhere else.  `no_loss_iff` turns that into the exact condition.

Slicing an Ethernet frame and decoding a DNS message are parameters.
-/
namespace RustSamples.Telemetry
open Scheduling

/-! ## The pipeline -/

structure Query where
  name : String
  queryType : String
  deriving DecidableEq

inductive MessageType
  | query
  | response
  deriving DecidableEq

/-- A decoded DNS message; an answer may have no data to print. -/
structure Message where
  id : UInt16
  messageType : MessageType
  queries : List Query
  answers : List (Option String)
  deriving DecidableEq

structure DnsRecord where
  timestamp : Nat
  txId : UInt16
  msgType : String
  queryType : String
  domain : String
  answers : List String
  deriving DecidableEq

/-- `parse_dns_to_record`, with the clock at `now`. -/
def parseDnsToRecord (now : Nat) (msg : Message) : Option DnsRecord :=
  msg.queries.head?.map fun query =>
    match msg.messageType with
    | .query => ⟨now, msg.id, "Query", query.queryType, query.name, []⟩
    | .response => ⟨now, msg.id, "Response", query.queryType, query.name, msg.answers.filterMap id⟩

/-- `SlicedPacket::from_ethernet` down to the payload of a UDP packet, and
`Message::from_bytes`. -/
structure Env where
  udpPayload : List UInt8 → Option (List UInt8)
  fromBytes : List UInt8 → Option Message

variable (E : Env)

/-- The body of the parsing loop, up to the send. -/
def Env.parse (now : Nat) (packet : List UInt8) : Option DnsRecord :=
  (E.udpPayload packet).bind fun payload =>
    if payload.isEmpty then none else (E.fromBytes payload).bind (parseDnsToRecord now)

/-- The packet parses to a record. -/
def Env.Parses (packet : List UInt8) : Prop := (E.parse 0 packet).isSome

/-- `try_send` on a channel with the given capacity. -/
def trySend {α : Type} (capacity : Nat) (channel : List α) (x : α) : List α :=
  if channel.length < capacity then channel ++ [x] else channel

structure Pipeline where
  captured : List (List UInt8)
  capturing : Bool
  packets : List (Nat × List UInt8)
  log : List (Nat × DnsRecord)
  worker : Worker (Nat × DnsRecord)
  exited : Bool

inductive Event
  /-- `cap.next_packet` gives a packet -/
  | capture (packet : List UInt8)
  /-- `cap.next_packet` fails and the capture thread ends -/
  | captureEnds
  /-- one round of the parsing loop -/
  | parse (now : Nat)
  /-- the worker takes a record from the second channel -/
  | recv
  | timer
  | create (ok : Bool)
  | write (ok : Bool)
  | finish (result : EndResult)
  /-- `main` returns; an `end` that is under way may still commit -/
  | exit (committed : Bool)

namespace Pipeline

def start : Pipeline := ⟨[], true, [], [], .start, false⟩

def onCapture (s : Pipeline) (packet : List UInt8) : Pipeline :=
  { s with
    captured := s.captured ++ [packet]
    packets := trySend 10000 s.packets (s.captured.length, packet) }

def onParse (s : Pipeline) (now : Nat) (packet : Nat × List UInt8) : Pipeline :=
  { s with
    packets := s.packets.tail
    log := (E.parse now packet.2).elim s.log fun r => trySend 50000 s.log (packet.1, r) }

def onExit (s : Pipeline) (committed : Bool) : Pipeline :=
  { s with
    log := []
    worker := { s.worker with
      batch := []
      committed := s.worker.committed ++
        if committed ∧ s.worker.Written then s.worker.batch else [] }
    exited := true }

def onWorker (s : Pipeline) (a : WorkerAction (Nat × DnsRecord)) : Option Pipeline :=
  (s.worker.step a).map fun w => { s with worker := w }

def stepRunning (s : Pipeline) : Event → Option Pipeline
  | .capture packet => if s.capturing then some (s.onCapture packet) else none
  | .captureEnds => if s.capturing then some { s with capturing := false } else none
  | .parse now => s.packets.head?.map (s.onParse E now)
  | .recv => s.log.head?.bind fun r =>
      (s.worker.step (.recv r)).map fun w => { s with log := s.log.tail, worker := w }
  | .timer => s.onWorker .timer
  | .create ok => s.onWorker (.create ok)
  | .write ok => s.onWorker (.write ok)
  | .finish result => s.onWorker (.finish result)
  | .exit committed =>
      if s.capturing = false ∧ s.packets = [] then some (s.onExit committed) else none

def step (s : Pipeline) (e : Event) : Option Pipeline :=
  if s.exited then none else s.stepRunning E e

end Pipeline

def pipeline : Machine Pipeline Event := ⟨Pipeline.step E⟩

/-! ## Places -/

/-- A packet is in the first channel, or its record is in the second, in the batch or in
ClickHouse. -/
def Held (s : Pipeline) (n : Nat) (packet : List UInt8) : Prop :=
  (n, packet) ∈ s.packets ∨ ∃ now r, E.parse now packet = some r ∧
    ((n, r) ∈ s.log ∨ (n, r) ∈ s.worker.batch ∨ (n, r) ∈ s.worker.committed)

/-- Every captured packet that parses is held. -/
def NoLoss (s : Pipeline) : Prop :=
  ∀ n packet, s.captured[n]? = some packet → E.Parses packet → Held E s n packet

/-- What a step needs so as not to lose a packet that is held: room in the channel a packet
or record is sent to, a commit for a batch that is cleared, and nothing left at exit. -/
def Keeps (s : Pipeline) : Event → Prop
  | .capture packet => E.Parses packet → s.packets.length < 10000
  | .parse _ => ∀ p, s.packets.head? = some p → E.Parses p.2 → s.log.length < 50000
  | .create ok => ok = true ∨ s.worker.batch = []
  | .finish result => result.commits = true ∨ s.worker.batch = []
  | .exit committed =>
      s.log = [] ∧ (s.worker.batch = [] ∨ committed = true ∧ s.worker.Written)
  | _ => True

/-- The numbers of everything that is held. -/
def Pipeline.numbers (s : Pipeline) : List Nat :=
  s.packets.map Prod.fst ++ (s.log.map Prod.fst ++
    (s.worker.batch.map Prod.fst ++ s.worker.committed.map Prod.fst))

/-- Everything is in one place, and is what was captured under its number. -/
structure Placed (s : Pipeline) : Prop where
  nodup : s.numbers.Nodup
  packets : ∀ p ∈ s.packets, s.captured[p.1]? = some p.2
  records : ∀ p, p ∈ s.log ∨ p ∈ s.worker.batch ∨ p ∈ s.worker.committed →
    ∃ packet now, s.captured[p.1]? = some packet ∧ E.parse now packet = some p.2

/-- Parsing does not depend on the clock. -/
theorem parses_iff {packet : List UInt8} (now : Nat) :
    E.Parses packet ↔ (E.parse now packet).isSome := by
  unfold Env.Parses Env.parse
  cases E.udpPayload packet with
  | none => rfl
  | some payload =>
    by_cases hp : payload = []
    · simp [hp]
    · cases hm : E.fromBytes payload <;> simp [hp, hm, parseDnsToRecord]

/-- What a step can do to the channels, the batch and the table. -/
inductive Pipeline.Step (s : Pipeline) : Event → Pipeline → Prop
  | capture (packet : List UInt8) : Step s (.capture packet) (s.onCapture packet)
  | captureEnds : Step s .captureEnds { s with capturing := false }
  | parse {p : Nat × List UInt8} (hp : s.packets.head? = some p) (now : Nat) :
      Step s (.parse now) (s.onParse E now p)
  | recv {r : Nat × DnsRecord} (hr : s.log.head? = some r) :
      Step s .recv { s with log := s.log.tail, worker := s.worker.onRecord r }
  | drop : Step s (.create false)
      { s with worker := { s.worker with batch := [], phase := .selecting } }
  | finish (result : EndResult) (hw : s.worker.Written) :
      Step s (.finish result) { s with worker := s.worker.onEnd result }
  | phase {e : Event} (phase : Phase) (he : e = .timer ∨ e = .create true ∨ ∃ ok, e = .write ok) :
      Step s e { s with worker := { s.worker with phase := phase } }
  | exit (hp : s.packets = []) (committed : Bool) : Step s (.exit committed) (s.onExit committed)

variable {E}

theorem onWorker_cases {s t : Pipeline} {a : WorkerAction (Nat × DnsRecord)}
    (h : s.onWorker a = some t) : ∃ w, s.worker.step a = some w ∧ t = { s with worker := w } := by
  obtain ⟨w, hw, rfl⟩ := Option.map_eq_some_iff.mp h
  exact ⟨w, hw, rfl⟩

theorem pipeline_step_cases {s t : Pipeline} {e : Event}
    (h : (pipeline E).step s e = some t) : s.Step E e t := by
  have hrun : s.stepRunning E e = some t := by
    by_cases hx : s.exited
    · simp [pipeline, Pipeline.step, hx] at h
    · simpa [pipeline, Pipeline.step, hx] using h
  cases e with
  | capture packet =>
    by_cases hc : s.capturing
    · rw [Pipeline.stepRunning, if_pos hc] at hrun
      obtain rfl := Option.some.inj hrun
      exact .capture packet
    · rw [Pipeline.stepRunning, if_neg hc] at hrun
      cases hrun
  | captureEnds =>
    by_cases hc : s.capturing
    · rw [Pipeline.stepRunning, if_pos hc] at hrun
      obtain rfl := Option.some.inj hrun
      exact .captureEnds
    · rw [Pipeline.stepRunning, if_neg hc] at hrun
      cases hrun
  | parse now =>
    obtain ⟨p, hp, rfl⟩ := Option.map_eq_some_iff.mp hrun
    exact .parse hp now
  | recv =>
    obtain ⟨r, hr, hrun⟩ := Option.bind_eq_some_iff.mp hrun
    obtain ⟨w, hw, rfl⟩ := Option.map_eq_some_iff.mp hrun
    cases worker_step hw with
    | recv hp r => exact .recv hr
  | timer =>
    obtain ⟨w, hw, rfl⟩ := onWorker_cases hrun
    cases worker_step hw with
    | timer hp => exact .phase _ (Or.inl rfl)
  | create ok =>
    obtain ⟨w, hw, rfl⟩ := onWorker_cases hrun
    cases worker_step hw with
    | created hp => exact .phase _ (Or.inr (Or.inl rfl))
    | notCreated hp => exact .drop
  | write ok =>
    obtain ⟨w, hw, rfl⟩ := onWorker_cases hrun
    cases worker_step hw with
    | write hp hlt ok => exact .phase _ (Or.inr (Or.inr ⟨ok, rfl⟩))
  | finish result =>
    obtain ⟨w, hw, rfl⟩ := onWorker_cases hrun
    cases worker_step hw with
    | finish hwritten result => exact .finish result hwritten
  | exit committed =>
    by_cases hc : s.capturing = false ∧ s.packets = []
    · rw [Pipeline.stepRunning, if_pos hc] at hrun
      obtain rfl := Option.some.inj hrun
      exact .exit hc.2 committed
    · rw [Pipeline.stepRunning, if_neg hc] at hrun
      cases hrun

/-! ### How often a number is held -/

theorem count_numbers (s : Pipeline) (n : Nat) :
    s.numbers.count n = (s.packets.map Prod.fst).count n + ((s.log.map Prod.fst).count n +
      ((s.worker.batch.map Prod.fst).count n + (s.worker.committed.map Prod.fst).count n)) := by
  simp [Pipeline.numbers, List.count_append]

theorem count_pos_of_mem {α : Type} {l : List (Nat × α)} {p : Nat × α} (h : p ∈ l) :
    0 < (l.map Prod.fst).count p.1 :=
  List.count_pos_iff.mpr (List.mem_map_of_mem h)

theorem count_head_tail {α : Type} {l : List (Nat × α)} {p : Nat × α} (h : l.head? = some p)
    (n : Nat) : (l.map Prod.fst).count n = [p.1].count n + (l.tail.map Prod.fst).count n := by
  obtain ⟨tail, rfl⟩ := List.head?_eq_some_iff.mp h
  rw [List.tail_cons, List.map_cons, ← List.singleton_append, List.count_append]

theorem count_concat {α : Type} (l : List (Nat × α)) (p : Nat × α) (n : Nat) :
    ((l ++ [p]).map Prod.fst).count n = (l.map Prod.fst).count n + [p.1].count n := by
  simp [List.count_append]

theorem Held.count_pos {s : Pipeline} {n : Nat} {packet : List UInt8} (h : Held E s n packet) :
    0 < s.numbers.count n := by
  rw [count_numbers]
  rcases h with h | ⟨_, r, -, h | h | h⟩
  all_goals
    have hpos := count_pos_of_mem h
    simp only at hpos
    omega

/-- A number that was held once and is held less often now is lost. -/
theorem Placed.lost {s t : Pipeline} (hs : Placed E s) (hcaptured : t.captured = s.captured)
    {n : Nat} {packet : List UInt8} (hn : s.captured[n]? = some packet) (hp : E.Parses packet)
    (hcount : t.numbers.count n < s.numbers.count n) : ¬ NoLoss E t := by
  intro hloss
  have hheld := (hloss n packet (hcaptured ▸ hn) hp).count_pos
  have hone := List.nodup_iff_count_le_one.mp hs.nodup n
  omega

theorem Placed.parses_of_record {s : Pipeline} (hs : Placed E s) {p : Nat × DnsRecord}
    (h : p ∈ s.log ∨ p ∈ s.worker.batch ∨ p ∈ s.worker.committed) :
    ∃ packet, s.captured[p.1]? = some packet ∧ E.Parses packet := by
  obtain ⟨packet, now, hcap, hparse⟩ := hs.records p h
  exact ⟨packet, hcap, (parses_iff E now).mpr (by rw [hparse]; rfl)⟩

/-- Numbers in use are below the number of the next packet. -/
theorem Placed.fresh {s : Pipeline} (hs : Placed E s) : s.numbers.count s.captured.length = 0 := by
  refine List.count_eq_zero.mpr fun hmem => ?_
  have hsome : ∃ packet, s.captured[s.captured.length]? = some packet := by
    rcases List.mem_append.mp hmem with h | h
    · obtain ⟨p, hp, hn⟩ := List.mem_map.mp h
      exact ⟨p.2, hn ▸ hs.packets p hp⟩
    · simp only [List.mem_append, List.mem_map] at h
      rcases h with ⟨p, hp, hn⟩ | ⟨p, hp, hn⟩ | ⟨p, hp, hn⟩
      · obtain ⟨packet, hcap, -⟩ := hs.parses_of_record (Or.inl hp)
        exact ⟨packet, hn ▸ hcap⟩
      · obtain ⟨packet, hcap, -⟩ := hs.parses_of_record (Or.inr (Or.inl hp))
        exact ⟨packet, hn ▸ hcap⟩
      · obtain ⟨packet, hcap, -⟩ := hs.parses_of_record (Or.inr (Or.inr hp))
        exact ⟨packet, hn ▸ hcap⟩
  obtain ⟨packet, hcap⟩ := hsome
  have hnone : s.captured[s.captured.length]? = none := List.getElem?_eq_none (Nat.le_refl _)
  rw [hnone] at hcap
  cases hcap

theorem trySend_of_room {α : Type} {capacity : Nat} {channel : List α}
    (h : channel.length < capacity) (x : α) : trySend capacity channel x = channel ++ [x] :=
  if_pos h

theorem trySend_of_full {α : Type} {capacity : Nat} {channel : List α}
    (h : ¬ channel.length < capacity) (x : α) : trySend capacity channel x = channel :=
  if_neg h

theorem mem_trySend {α : Type} {capacity : Nat} {channel : List α} {x y : α}
    (h : y ∈ trySend capacity channel x) : y ∈ channel ∨ y = x := by
  unfold trySend at h
  split at h
  · simpa using h
  · exact Or.inl h

theorem subset_trySend {α : Type} {capacity : Nat} {channel : List α} {x y : α}
    (h : y ∈ channel) : y ∈ trySend capacity channel x := by
  unfold trySend
  split
  · exact List.mem_append_left _ h
  · exact h

theorem count_trySend_le {α : Type} (capacity : Nat) (channel : List (Nat × α)) (p : Nat × α)
    (n : Nat) : ((trySend capacity channel p).map Prod.fst).count n ≤
      (channel.map Prod.fst).count n + [p.1].count n := by
  unfold trySend
  split
  · exact (count_concat channel p n).le
  · omega

/-! ### Every step keeps things in place -/

theorem nodup_of_count_le {s t : Pipeline} (hs : s.numbers.Nodup)
    (h : ∀ n, t.numbers.count n ≤ s.numbers.count n) : t.numbers.Nodup :=
  List.nodup_iff_count_le_one.mpr fun n => (h n).trans (List.nodup_iff_count_le_one.mp hs n)

theorem count_onParse_le {s : Pipeline} {p : Nat × List UInt8} (hp : s.packets.head? = some p)
    (now n : Nat) : (s.onParse E now p).numbers.count n ≤ s.numbers.count n := by
  rw [count_numbers, count_numbers, count_head_tail hp]
  cases hr : E.parse now p.2 with
  | none =>
    simp only [Pipeline.onParse, hr, Option.elim_none]
    omega
  | some r =>
    simp only [Pipeline.onParse, hr, Option.elim_some]
    have hlog := count_trySend_le 50000 s.log (p.1, r) n
    simp only at hlog
    omega

theorem count_step_le {s t : Pipeline} {e : Event} (h : s.Step E e t)
    (he : ∀ packet, e ≠ .capture packet) (n : Nat) : t.numbers.count n ≤ s.numbers.count n := by
  cases h with
  | capture packet => exact absurd rfl (he packet)
  | captureEnds => exact Nat.le_refl _
  | parse hp now => exact count_onParse_le hp now n
  | recv hr =>
    rw [count_numbers, count_numbers, count_head_tail hr]
    simp only [Worker.onRecord, count_concat]
    omega
  | drop =>
    rw [count_numbers, count_numbers]
    simp only [List.map_nil, List.count_nil]
    omega
  | finish result hw =>
    rw [count_numbers, count_numbers]
    simp only [Worker.onEnd, List.map_append, List.count_append, List.map_nil, List.count_nil]
    split <;> simp
    omega
  | phase phase he => exact Nat.le_refl _
  | exit hp committed =>
    rw [count_numbers, count_numbers]
    simp only [Pipeline.onExit, List.map_append, List.count_append, List.map_nil, List.count_nil]
    split <;> simp
    all_goals omega

theorem placed_start : Placed E .start where
  nodup := List.nodup_nil
  packets p h := absurd h List.not_mem_nil
  records p h := by simp [Pipeline.start, Worker.start] at h

theorem nodup_capture {s : Pipeline} (hs : Placed E s) (packet : List UInt8) :
    (s.onCapture packet).numbers.Nodup := by
  refine List.nodup_iff_count_le_one.mpr fun n => ?_
  have hone := List.nodup_iff_count_le_one.mp hs.nodup n
  have hfresh := hs.fresh
  have hsend := count_trySend_le 10000 s.packets (s.captured.length, packet) n
  rw [count_numbers] at hone hfresh ⊢
  simp only [Pipeline.onCapture] at hsend ⊢
  by_cases hn : s.captured.length = n
  · subst hn
    rw [List.count_singleton_self] at hsend
    omega
  · have hzero : [s.captured.length].count n = 0 :=
      List.count_eq_zero.mpr (by simpa using Ne.symm hn)
    omega

/-- Packets come into the first channel by their capture only. -/
theorem packets_step {s t : Pipeline} {e : Event} (h : s.Step E e t) {p : Nat × List UInt8}
    (hp : p ∈ t.packets) : p ∈ s.packets ∨ t.captured[p.1]? = some p.2 := by
  cases h with
  | capture packet =>
    rcases mem_trySend hp with hold | rfl
    · exact Or.inl hold
    · exact Or.inr (by simp [Pipeline.onCapture])
  | parse hq now => exact Or.inl (List.mem_of_mem_tail hp)
  | captureEnds | recv hr | drop | finish result hw | phase phase he | exit hx committed =>
    exact Or.inl hp

/-- Records come into the second channel by parsing the packet in front only. -/
theorem records_step {s t : Pipeline} {e : Event} (h : s.Step E e t) {p : Nat × DnsRecord}
    (hp : p ∈ t.log ∨ p ∈ t.worker.batch ∨ p ∈ t.worker.committed) :
    (p ∈ s.log ∨ p ∈ s.worker.batch ∨ p ∈ s.worker.committed) ∨
      ∃ q ∈ s.packets, ∃ now, q.1 = p.1 ∧ E.parse now q.2 = some p.2 := by
  cases h with
  | capture packet => exact Or.inl hp
  | captureEnds => exact Or.inl hp
  | @parse q hq now =>
    rcases hp with hp | hp
    · cases hr : E.parse now q.2 with
      | none =>
        simp only [Pipeline.onParse, hr, Option.elim_none] at hp
        exact Or.inl (Or.inl hp)
      | some r =>
        simp only [Pipeline.onParse, hr, Option.elim_some] at hp
        rcases mem_trySend hp with hold | rfl
        · exact Or.inl (Or.inl hold)
        · exact Or.inr ⟨q, List.mem_of_head? hq, now, rfl, hr⟩
    · exact Or.inl (Or.inr hp)
  | @recv r hr =>
    rcases hp with hp | hp | hp
    · exact Or.inl (Or.inl (List.mem_of_mem_tail hp))
    · rcases List.mem_append.mp hp with hold | hnew
      · exact Or.inl (Or.inr (Or.inl hold))
      · rw [List.mem_singleton.mp hnew]
        exact Or.inl (Or.inl (List.mem_of_head? hr))
    · exact Or.inl (Or.inr (Or.inr hp))
  | drop =>
    rcases hp with hp | hp | hp
    · exact Or.inl (Or.inl hp)
    · cases hp
    · exact Or.inl (Or.inr (Or.inr hp))
  | finish result hw =>
    rcases hp with hp | hp | hp
    · exact Or.inl (Or.inl hp)
    · cases hp
    · rcases List.mem_append.mp hp with hold | hnew
      · exact Or.inl (Or.inr (Or.inr hold))
      · split at hnew
        · exact Or.inl (Or.inr (Or.inl hnew))
        · cases hnew
  | phase phase he => exact Or.inl hp
  | exit hx committed =>
    rcases hp with hp | hp | hp
    · cases hp
    · cases hp
    · rcases List.mem_append.mp hp with hold | hnew
      · exact Or.inl (Or.inr (Or.inr hold))
      · split at hnew
        · exact Or.inl (Or.inr (Or.inl hnew))
        · cases hnew

theorem captured_step {s t : Pipeline} {e : Event} (h : s.Step E e t) {n : Nat}
    {packet : List UInt8} (hn : s.captured[n]? = some packet) :
    t.captured[n]? = some packet := by
  cases h with
  | capture p =>
    exact (List.getElem?_append_left (List.getElem?_eq_some_iff.mp hn).1).trans hn
  | captureEnds | parse hq now | recv hr | drop | finish result hw | phase phase he
  | exit hx committed => exact hn

theorem placed_step {s t : Pipeline} {e : Event} (hs : Placed E s) (h : s.Step E e t) :
    Placed E t := by
  refine ⟨?_, fun p hp => ?_, fun p hp => ?_⟩
  · by_cases he : ∃ packet, e = .capture packet
    · obtain ⟨packet, rfl⟩ := he
      cases h with
      | capture _ => exact nodup_capture hs packet
      | phase phase he => simp at he
    · exact nodup_of_count_le hs.nodup (count_step_le h fun packet hc => he ⟨packet, hc⟩)
  · rcases packets_step h hp with hold | hnew
    · exact captured_step h (hs.packets p hold)
    · exact hnew
  · rcases records_step h hp with hold | ⟨q, hq, now, hnum, hparse⟩
    · obtain ⟨packet, now, hcap, hparse⟩ := hs.records p hold
      exact ⟨packet, now, captured_step h hcap, hparse⟩
    · exact ⟨q.2, now, captured_step h (hnum ▸ hs.packets q hq), hparse⟩

theorem placed_run {es : List Event} {s : Pipeline} (h : (pipeline E).run .start es = some s) :
    Placed E s :=
  (pipeline E).run_invariant (I := Placed E)
    (fun _ _ _ hs ha => placed_step hs (pipeline_step_cases ha)) placed_start h

/-! ## When nothing is lost -/

/-- A packet stays held when no packet leaves the first channel, and no record the places of
records. -/
theorem Held.of_moved {s t : Pipeline} {n : Nat} {packet : List UInt8} (hheld : Held E s n packet)
    (hpackets : s.packets ⊆ t.packets)
    (hrecords : ∀ p, p ∈ s.log ∨ p ∈ s.worker.batch ∨ p ∈ s.worker.committed →
      p ∈ t.log ∨ p ∈ t.worker.batch ∨ p ∈ t.worker.committed) : Held E t n packet := by
  rcases hheld with hheld | ⟨now, r, hr, hheld⟩
  · exact Or.inl (hpackets hheld)
  · exact Or.inr ⟨now, r, hr, hrecords _ hheld⟩

/-- A packet whose record is held stays held under a step that keeps it. -/
theorem held_step {s t : Pipeline} {e : Event} (h : s.Step E e t) (hk : Keeps E s e) {n : Nat}
    {packet : List UInt8} (hp : E.Parses packet) (hheld : Held E s n packet) :
    Held E t n packet := by
  cases h with
  | capture p => exact hheld.of_moved (fun _ => subset_trySend) fun _ h => h
  | captureEnds => exact hheld
  | @parse q hq now =>
    obtain ⟨rest, hrest⟩ := List.head?_eq_some_iff.mp hq
    rcases hheld with hheld | ⟨now', r, hr, hheld | hheld⟩
    · rw [hrest] at hheld
      rcases List.mem_cons.mp hheld with hfront | htail
      · -- the packet in front is parsed and its record finds room
        subst hfront
        obtain ⟨r, hr⟩ := Option.isSome_iff_exists.mp ((parses_iff E now).mp hp)
        refine Or.inr ⟨now, r, hr, Or.inl ?_⟩
        simp only [Pipeline.onParse, hr, Option.elim_some, trySend_of_room (hk _ hq hp)]
        exact List.mem_append_right _ (List.mem_singleton_self _)
      · exact Or.inl (by simpa [Pipeline.onParse, hrest] using htail)
    · refine Or.inr ⟨now', r, hr, Or.inl ?_⟩
      cases hq' : E.parse now q.2 with
      | none => simpa [Pipeline.onParse, hq'] using hheld
      | some r' =>
        simp only [Pipeline.onParse, hq', Option.elim_some]
        exact subset_trySend hheld
    · exact Or.inr ⟨now', r, hr, Or.inr hheld⟩
  | @recv q hq =>
    obtain ⟨rest, hrest⟩ := List.head?_eq_some_iff.mp hq
    refine hheld.of_moved (List.Subset.refl _) ?_
    rintro p (hlog | hbatch | hcommitted)
    · rw [hrest] at hlog
      rcases List.mem_cons.mp hlog with rfl | htail
      · exact Or.inr (Or.inl (List.mem_append_right _ (List.mem_singleton_self _)))
      · exact Or.inl (by simpa [hrest] using htail)
    · exact Or.inr (Or.inl (List.mem_append_left _ hbatch))
    · exact Or.inr (Or.inr hcommitted)
  | drop =>
    have hempty : s.worker.batch = [] := hk.resolve_left (by simp)
    refine hheld.of_moved (List.Subset.refl _) fun p hstored => ?_
    rwa [hempty] at hstored
  | finish result hw =>
    refine hheld.of_moved (List.Subset.refl _) ?_
    rintro p (hlog | hbatch | hcommitted)
    · exact Or.inl hlog
    · refine Or.inr (Or.inr (List.mem_append_right _ ?_))
      rcases hk with hcommits | hempty
      · rwa [if_pos hcommits]
      · rw [hempty] at hbatch
        cases hbatch
    · exact Or.inr (Or.inr (List.mem_append_left _ hcommitted))
  | phase phase he => exact hheld
  | exit hx committed =>
    obtain ⟨hnone, hflushed⟩ := hk
    refine hheld.of_moved (List.Subset.refl _) ?_
    rintro p (hlog | hbatch | hcommitted)
    · rw [hnone] at hlog
      cases hlog
    · refine Or.inr (Or.inr (List.mem_append_right _ ?_))
      rcases hflushed with hempty | hwritten
      · rw [hempty] at hbatch
        cases hbatch
      · rwa [if_pos hwritten]
    · exact Or.inr (Or.inr (List.mem_append_left _ hcommitted))

theorem noLoss_step {s t : Pipeline} {e : Event} (h : s.Step E e t) (hk : Keeps E s e)
    (hs : NoLoss E s) : NoLoss E t := by
  intro n packet hn hp
  by_cases hold : s.captured[n]? = some packet
  · exact held_step h hk hp (hs n packet hold hp)
  · cases h with
    | capture p =>
      -- the packet is the one just captured, and it found room
      have hge : s.captured.length ≤ n := by
        by_contra hlt
        have hsame : (s.captured ++ [p])[n]? = s.captured[n]? :=
          List.getElem?_append_left (Nat.not_le.mp hlt)
        exact hold (hsame.symm.trans hn)
      have hlt : n < (s.captured ++ [p]).length := (List.getElem?_eq_some_iff.mp hn).1
      have hnew : n = s.captured.length := by
        rw [List.length_append, List.length_singleton] at hlt
        omega
      subst hnew
      have hpacket : p = packet := by simpa [Pipeline.onCapture] using hn
      subst hpacket
      refine Or.inl ?_
      simp only [Pipeline.onCapture, trySend_of_room (hk hp)]
      exact List.mem_append_right _ (List.mem_singleton_self _)
    | captureEnds | parse hq now | recv hr | drop | finish result hw | phase phase he
    | exit hx committed => exact absurd hn hold

theorem noLoss_start : NoLoss E .start := by
  intro n packet hn
  cases hn

/-- Records that disappear from the batch or from the second channel are lost. -/
theorem Placed.lost_records {s t : Pipeline} (hs : Placed E s)
    (hcaptured : t.captured = s.captured) {records : List (Nat × DnsRecord)}
    (hne : records ≠ []) (hheld : ∀ p ∈ records, p ∈ s.log ∨ p ∈ s.worker.batch)
    (hcount : ∀ p ∈ records, t.numbers.count p.1 < s.numbers.count p.1) : ¬ NoLoss E t := by
  obtain ⟨p, hmem⟩ := List.exists_mem_of_ne_nil _ hne
  have hp := hheld p hmem
  have hplace : p ∈ s.log ∨ p ∈ s.worker.batch ∨ p ∈ s.worker.committed := by tauto
  obtain ⟨packet, hcap, hparses⟩ := hs.parses_of_record hplace
  exact hs.lost hcaptured hcap hparses (hcount p hmem)

/-- A step that does not keep what it should loses a packet. -/
theorem lost_step {s t : Pipeline} {e : Event} (hs : Placed E s) (h : s.Step E e t)
    (hk : ¬ Keeps E s e) : ¬ NoLoss E t := by
  cases h with
  | capture packet =>
    obtain ⟨hparses, hfull⟩ : E.Parses packet ∧ ¬ s.packets.length < 10000 := by
      simpa [Keeps] using hk
    intro hloss
    have hpos := (hloss s.captured.length packet (by simp [Pipeline.onCapture]) hparses).count_pos
    have hfresh := hs.fresh
    rw [count_numbers] at hpos hfresh
    simp only [Pipeline.onCapture, trySend_of_full hfull] at hpos
    omega
  | captureEnds => exact absurd trivial hk
  | @parse q hq now =>
    obtain ⟨q', hq', hparses, hfull⟩ : ∃ q', s.packets.head? = some q' ∧ E.Parses q'.2 ∧
        ¬ s.log.length < 50000 := by
      simpa [Keeps] using hk
    obtain rfl := Option.some.inj (hq.symm.trans hq')
    obtain ⟨r, hr⟩ := Option.isSome_iff_exists.mp ((parses_iff E now).mp hparses)
    refine hs.lost rfl (hs.packets q (List.mem_of_head? hq)) hparses ?_
    rw [count_numbers, count_numbers, count_head_tail hq]
    simp only [Pipeline.onParse, hr, Option.elim_some, trySend_of_full hfull,
      List.count_singleton_self]
    omega
  | recv hr => exact absurd trivial hk
  | drop =>
    have hbatch : s.worker.batch ≠ [] := by simpa [Keeps] using hk
    refine hs.lost_records rfl hbatch (fun p hp => Or.inr hp) fun p hp => ?_
    have hpos := count_pos_of_mem hp
    rw [count_numbers, count_numbers]
    simp only [List.map_nil, List.count_nil]
    omega
  | finish result hw =>
    obtain ⟨hfailed, hbatch⟩ : result.commits = false ∧ s.worker.batch ≠ [] := by
      simpa [Keeps] using hk
    refine hs.lost_records rfl hbatch (fun p hp => Or.inr hp) fun p hp => ?_
    have hpos := count_pos_of_mem hp
    rw [count_numbers, count_numbers]
    simp only [Worker.onEnd, hfailed, Bool.false_eq_true, if_false, List.append_nil, List.map_nil,
      List.count_nil]
    omega
  | phase phase he =>
    rcases he with rfl | rfl | ⟨ok, rfl⟩
    · exact absurd trivial hk
    · exact absurd (Or.inl rfl) hk
    · exact absurd trivial hk
  | exit hx committed =>
    by_cases hlog : s.log = []
    · have hbatch : ¬ (s.worker.batch = [] ∨ committed = true ∧ s.worker.Written) := fun h =>
        hk ⟨hlog, h⟩
      obtain ⟨hne, hwritten⟩ := not_or.mp hbatch
      refine hs.lost_records rfl hne (fun p hp => Or.inr hp) fun p hp => ?_
      have hpos := count_pos_of_mem hp
      rw [count_numbers, count_numbers]
      simp only [Pipeline.onExit, if_neg hwritten, List.append_nil, List.map_nil, List.count_nil]
      omega
    · refine hs.lost_records rfl hlog (fun p hp => Or.inl hp) fun p hp => ?_
      have hpos := count_pos_of_mem hp
      rw [count_numbers, count_numbers]
      simp only [Pipeline.onExit, List.map_append, List.count_append, List.map_nil, List.count_nil]
      split <;> simp <;> omega

/-- **When no packet is lost, over every run.**  Take any interleaving of the capture
thread, the parsing loop and the worker, with any failures of ClickHouse.  In every state it
goes through, every captured packet that parses is in a channel, in the batch or committed,
if and only if every step finds room for what it sends, commits the batch that it clears,
and no record is left when `main` returns. -/
theorem no_loss_iff (E : Env) (es : List Event) :
    (∀ earlier s, earlier <+: es → (pipeline E).run .start earlier = some s → NoLoss E s) ↔
      ∀ earlier e s, earlier ++ [e] <+: es → (pipeline E).run .start earlier = some s →
        ((pipeline E).step s e).isSome → Keeps E s e := by
  constructor
  · intro hloss earlier e s hpre hrun hstep
    obtain ⟨t, ht⟩ := Option.isSome_iff_exists.mp hstep
    by_contra hk
    exact lost_step (placed_run hrun) (pipeline_step_cases ht) hk
      (hloss _ t hpre ((pipeline E).run_concat.mpr ⟨s, hrun, ht⟩))
  · intro hkeeps earlier s hpre hrun
    refine (pipeline E).run_induction (I := fun done t => done <+: es → NoLoss E t)
      (fun _ => noLoss_start) (fun done t e u ht ih hstep hpre' => ?_) hrun hpre
    exact noLoss_step (pipeline_step_cases hstep)
      (hkeeps done e t hpre' ht (Option.isSome_iff_exists.mpr ⟨u, hstep⟩))
      (ih ((List.prefix_append _ _).trans hpre'))

/-- A frame is its payload, and every payload is one query. -/
def oneQuery : Env where
  udpPayload packet := some packet
  fromBytes _ := some ⟨7, .query, [⟨"example.org.", "A"⟩], []⟩

/-- One packet is captured and parsed, and the flush of its record cannot be ended. -/
def failedFlush : List Event :=
  [.capture [1], .parse 0, .recv, .timer, .create true, .write true, .finish (.failed false)]

/-- **A failed `end` loses the batch.** -/
theorem failed_flush_loses_a_packet :
    ¬ ∀ (E : Env) (es : List Event) (s : Pipeline), (pipeline E).run .start es = some s →
      NoLoss E s := by
  intro hall
  have hrun : (pipeline oneQuery).run .start failedFlush =
      some ⟨[[1]], true, [], [],
        ⟨[], .selecting, [(0, ⟨0, 7, "Query", "A", "example.org.", []⟩)], []⟩, false⟩ := rfl
  rcases hall oneQuery failedFlush _ hrun 0 [1] rfl rfl with h | ⟨now, r, -, h | h | h⟩ <;> cases h

end RustSamples.Telemetry
