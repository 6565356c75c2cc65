import RustSamples.Machine
import RustSamples.ProcControl
import RustSamples.RingBuffer
import RustSamples.RustBytes

/-! # The ring buffer of `proc-control`

The tracepoints run on all processors and put their records into one ring buffer of 256 KB; one task
of `proc-control` takes them out.  A tracepoint reserves its record, fills it in and submits it, and
others may do so in between.  The task takes the records in the order in which they were reserved,
and waits at one that is not submitted.  It takes at most one and then sleeps for 100 µs.

A call gets no record if less than one is free.  Otherwise its record is never written by another
call until it is read, so the lines are the reports of the records, one each and in their order
(`lines_are_records`).  The first 2520 records lie in memory that was never used, and so their names
are right (`first_names_right`); the name of a later one may end with what was there before.  Of
calls that come faster than one in 100 µs all are lost but 2520, one more, and those that the task
has time for (`busy_calls_lost`).

The memory is that of the bytes of the records.  Times are microseconds.
-/
namespace RustSamples.ProcControl
open Scheduling RingBuffer RustBytes

/-- The size of `EVENTS`. -/
def ringBytes : Nat := 1024 * 256

/-- A record: eight bytes of the ring buffer, the event, and four bytes so that the next record
begins at a multiple of eight. -/
def recordBytes : Nat := 104

/-- The sleep of the reader. -/
def pollInterval : Nat := 100

/-! ## Events in memory -/

/-- An event as it lies in memory. -/
def eventBytes (e : ProcessEvent) : List UInt8 :=
  layout [(4, e.pid.toNat), (4, e.tgid.toNat), (4, e.eventType.toNat)] ++
    (e.comm.val ++ e.filename.val)

def fieldBytes (bytes : Bytes 92) (offset n : Nat) (h : offset + n ≤ 92) : Bytes n :=
  ⟨(bytes.val.drop offset).take n, by
    rw [List.length_take, List.length_drop, bytes.property]
    omega⟩

/-- The bytes of a record as an event. -/
def eventOf (bytes : Bytes 92) : ProcessEvent where
  pid := UInt32.ofNat (fieldAt bytes.val 0 4)
  tgid := UInt32.ofNat (fieldAt bytes.val 4 4)
  eventType := UInt32.ofNat (fieldAt bytes.val 8 4)
  comm := fieldBytes bytes 12 16 (by decide)
  filename := fieldBytes bytes 28 64 (by decide)

theorem length_eventBytes (e : ProcessEvent) : (eventBytes e).length = 92 := by
  rw [eventBytes, List.length_append, List.length_append, length_layout, e.comm.property,
    e.filename.property]
  rfl

/-- The event that was put into memory is there. -/
theorem eventOf_eventBytes (e : ProcessEvent) :
    eventOf ⟨eventBytes e, length_eventBytes e⟩ = e := by
  have hfield : ∀ {i : Nat} {n : UInt32}, ([(4, e.pid.toNat), (4, e.tgid.toNat),
        (4, e.eventType.toNat)] : List (Nat × Nat))[i]? = some (4, n.toNat) →
      UInt32.ofNat (fieldAt (eventBytes e) (([(4, e.pid.toNat), (4, e.tgid.toNat),
        (4, e.eventType.toNat)].take i).map Prod.fst).sum 4) = n := by
    intro i n hi
    have hfound := fieldAt_layout hi n.toNat_lt [] (e.comm.val ++ e.filename.val)
    rw [List.nil_append, List.length_nil, Nat.zero_add] at hfound
    rw [eventBytes, hfound, UInt32.ofNat_toNat]
  have hlen : (layout [(4, e.pid.toNat), (4, e.tgid.toNat), (4, e.eventType.toNat)]).length = 12 :=
    length_layout _
  have hcomm : ((eventBytes e).drop 12).take 16 = e.comm.val := by
    rw [eventBytes, ← hlen, List.drop_left, List.take_left' e.comm.property]
  have hname : ((eventBytes e).drop 28).take 64 = e.filename.val := by
    have hfront : (layout [(4, e.pid.toNat), (4, e.tgid.toNat), (4, e.eventType.toNat)] ++
        e.comm.val).length = 28 := by rw [List.length_append, hlen, e.comm.property]
    rw [eventBytes, ← List.append_assoc, ← hfront, List.drop_left,
      List.take_of_length_le (Nat.le_of_eq e.filename.property)]
  have hpid := hfield (i := 0) (n := e.pid) rfl
  have htgid := hfield (i := 1) (n := e.tgid) rfl
  have htype := hfield (i := 2) (n := e.eventType) rfl
  cases e
  simp only [eventOf, ProcessEvent.mk.injEq]
  exact ⟨hpid, htgid, htype, Subtype.ext hcomm, Subtype.ext hname⟩

/-! ## The pipeline -/

/-- A call of a tracepoint, with what the kernel's helpers give it. -/
structure Call where
  tracepoint : Tracepoint
  helpers : Helpers
  ctx : TracePointContext

/-- The event that a call makes of the record that it has reserved. -/
def Call.fill (c : Call) (reserved : ProcessEvent) : Option ProcessEvent :=
  c.tracepoint.handle c.helpers c.ctx (some reserved)

/-- A record, and its event once it is submitted. -/
structure Record where
  call : Call
  submitted : Option ProcessEvent

structure Pipeline where
  now : Nat
  /-- when the reader wakes -/
  wakes : Nat
  cells : Nat → UInt8
  /-- all that were reserved -/
  records : List Record
  /-- the calls that got no record -/
  lost : List Call
  /-- how many records were read -/
  taken : Nat
  /-- what was printed -/
  lines : List (List Char)

inductive Action
  /-- a tracepoint is called and reserves a record, or finds no room -/
  | call (c : Call)
  /-- the call of this record has filled it in and submits it -/
  | submit (i : Nat)
  /-- `ring_buf.next()` and what is done with the item -/
  | poll
  | wait (d : Nat)

/-- The event in the memory of a record. -/
def eventAt (cells : Nat → UInt8) (i : Nat) : ProcessEvent :=
  eventOf ⟨RingBuffer.read ringBytes cells (recordBytes * i + 8) 92, length_read⟩

namespace Pipeline

/-- What `reserve` asks: with a record more, fewer bytes than the buffer has are not read yet. -/
def HasRoom (s : Pipeline) : Prop := recordBytes * (s.records.length + 1 - s.taken) ≤ ringBytes - 1

instance (s : Pipeline) : Decidable s.HasRoom := inferInstanceAs (Decidable (_ ≤ _))

/-- One round of the reader; a record that is not submitted stops it. -/
def poll (s : Pipeline) : Pipeline :=
  match s.records[s.taken]? with
  | some ⟨_, some _⟩ => { s with
      wakes := s.now + pollInterval, taken := s.taken + 1,
      lines := s.lines ++ (eventAt s.cells s.taken).report.toList }
  | _ => { s with wakes := s.now + pollInterval }

end Pipeline

/-- The memory before the first record. -/
def pipelineStart : Pipeline := ⟨0, 0, fun _ => 0, [], [], 0, []⟩

/-- The tracepoints and the reader, with what the ring buffer has in front of each event. -/
def pipeline (header : Nat → Bytes 8) : Machine Pipeline Action where
  step s
    | .call c =>
        if s.HasRoom then some { s with records := s.records ++ [⟨c, none⟩] }
        else some { s with lost := s.lost ++ [c] }
    | .submit i =>
        match s.records[i]? with
        | some ⟨c, none⟩ =>
            (c.fill (eventAt s.cells i)).map fun e => { s with
              cells := write ringBytes s.cells (recordBytes * i) ((header i).val ++ eventBytes e)
              records := s.records.set i ⟨c, some e⟩ }
        | _ => none
    | .poll => if s.now < s.wakes then none else some s.poll
    | .wait d => some { s with now := s.now + d }

/-! ## What a call makes of its record -/

theorem eventType_of_sysEnter {eventType : UInt32} {offset : Nat} {h : Helpers}
    {ctx : TracePointContext} {prev e : ProcessEvent}
    (he : sysEnter eventType offset h ctx (some prev) = some e) : e.eventType = eventType := by
  rw [sysEnter, initEvent, Option.map_some, Option.map_some] at he
  obtain rfl := Option.some.inj he
  dsimp only
  split_ifs <;> rfl

/-- A call makes an event that the reader has a line for. -/
theorem Call.exists_report {c : Call} {prev e : ProcessEvent} (h : c.fill prev = some e) :
    ∃ line, e.report = some line := by
  obtain ⟨t, helpers, ctx⟩ := c
  unfold ProcessEvent.report
  cases t with
  | execve => exact ⟨_, if_pos (eventType_of_sysEnter h)⟩
  | openat =>
    rw [eventType_of_sysEnter h]
    exact ⟨_, rfl⟩
  | memfdCreate =>
    rw [eventType_of_sysEnter h]
    exact ⟨_, rfl⟩

/-- In a record that was never used the name is right. -/
theorem Call.decodedFilename_of_fill {c : Call} {prev e : ProcessEvent} (h : c.fill prev = some e)
    (hzero : ∀ b ∈ prev.filename.val, b = 0) {argument : Option (List UInt8)}
    (hargument : NameArgument c.helpers c.ctx c.tracepoint.offset argument) :
    e.decodedFilename = asciiText (expectedName argument) := by
  obtain ⟨e', he', nul, hnul, hfilename⟩ := filename_of_handle c.tracepoint hargument prev
  obtain rfl := Option.some.inj (he'.symm.trans h)
  rw [ProcessEvent.decodedFilename, hfilename,
    decodeField_append_eq_iff (ascii_of_nameArgument hargument), List.forall_mem_append]
  exact ⟨hnul, fun b hb => hzero b (List.mem_of_mem_drop hb)⟩

/-! ## Records in the ring -/

/-- Records in one window of the ring do not touch. -/
theorem apart_records {start i j : Nat} (hi : start ≤ i) (hj : start ≤ j)
    (hiend : recordBytes * (i + 1) ≤ recordBytes * start + ringBytes)
    (hjend : recordBytes * (j + 1) ≤ recordBytes * start + ringBytes) (hne : j ≠ i) :
    Apart ringBytes (recordBytes * j) 100 (recordBytes * i + 8) 92 := by
  simp only [recordBytes] at *
  have hwindow : 104 * start ≤ 104 * j := by omega
  exact apart_of_window hwindow (by omega) (by omega) (by omega) (by omega)

theorem eventAt_write_self (cells : Nat → UInt8) (i : Nat) (front : Bytes 8) (e : ProcessEvent) :
    eventAt (write ringBytes cells (recordBytes * i) (front.val ++ eventBytes e)) i = e := by
  have hread : RingBuffer.read ringBytes (write ringBytes cells (recordBytes * i)
      (front.val ++ eventBytes e)) (recordBytes * i + 8) 92 = eventBytes e := by
    rw [write_append, front.property, ← length_eventBytes e]
    exact read_write (by rw [length_eventBytes]; decide)
  rw [eventAt]
  exact (congrArg eventOf (Subtype.ext hread)).trans (eventOf_eventBytes e)

theorem eventAt_write_of_apart {i j : Nat}
    (h : Apart ringBytes (recordBytes * j) 100 (recordBytes * i + 8) 92) (cells : Nat → UInt8)
    (front : Bytes 8) (e : ProcessEvent) :
    eventAt (write ringBytes cells (recordBytes * j) (front.val ++ eventBytes e)) i =
      eventAt cells i := by
  have hlen : (front.val ++ eventBytes e).length = 100 := by
    rw [List.length_append, front.property, length_eventBytes]
  exact congrArg eventOf (Subtype.ext (read_write_of_apart (hlen.symm ▸ h)))

/-! ## What every run keeps -/

/-- **The invariant.**  Fewer bytes are not read than the ring has; what was read was submitted; an
event that was submitted and not read is in memory; a record of the first round that nothing was
submitted in is as it was; and the lines are the reports of the records that were read. -/
structure Sound (s : Pipeline) : Prop where
  taken_le : s.taken ≤ s.records.length
  room : recordBytes * (s.records.length - s.taken) < ringBytes
  done : ∀ i < s.taken, ∃ c e, s.records[i]? = some ⟨c, some e⟩
  stored : ∀ i c e, s.taken ≤ i → s.records[i]? = some ⟨c, some e⟩ → eventAt s.cells i = e
  fresh : ∀ i : Nat, recordBytes * (i + 1) ≤ ringBytes →
    (∀ c e, s.records[i]? ≠ some ⟨c, some e⟩) → ∀ b ∈ (eventAt s.cells i).filename.val, b = 0
  made : ∀ i c e, s.records[i]? = some ⟨c, some e⟩ → ∃ prev, c.fill prev = some e ∧
    (recordBytes * (i + 1) ≤ ringBytes → ∀ b ∈ prev.filename.val, b = 0)
  printed : s.lines.map some =
    (s.records.take s.taken).map fun r => r.submitted.bind ProcessEvent.report

namespace Sound
variable {s : Pipeline}

theorem start : Sound pipelineStart where
  taken_le := Nat.le_refl 0
  room := by decide
  done i hi := absurd hi (Nat.not_lt_zero i)
  stored i c e _ h := by cases h
  fresh i _ _ b hb := by
    have hread : ∀ b ∈ RingBuffer.read ringBytes (fun _ => (0 : UInt8)) (recordBytes * i + 8) 92,
        b = 0 := fun b hb => by
      obtain ⟨_, rfl⟩ := List.mem_ofFn.1 hb
      rfl
    exact hread b (List.mem_of_mem_drop (List.mem_of_mem_take hb))
  made i c e h := by cases h
  printed := rfl

/-- A call reserves a record. -/
theorem reserve (h : Sound s) (hroom : s.HasRoom) (c : Call) :
    Sound { s with records := s.records ++ [⟨c, none⟩] } := by
  have hold : ∀ {i : Nat} {c' : Call} {e : ProcessEvent},
      (s.records ++ [⟨c, none⟩])[i]? = some ⟨c', some e⟩ → s.records[i]? = some ⟨c', some e⟩ := by
    intro i c' e hi
    obtain hi | ⟨_, hi⟩ := getElem?_concat_cases hi
    · exact hi
    · cases hi
  have hnew : ∀ {i : Nat} {r : Record}, s.records[i]? = some r →
      (s.records ++ [⟨c, none⟩])[i]? = some r := fun hi => by
    rw [List.getElem?_append_left (List.getElem?_eq_some_iff.1 hi).1, hi]
  have hle := h.taken_le
  constructor
  · exact Nat.le_trans hle (by simp)
  · have hbytes : recordBytes * (s.records.length + 1 - s.taken) ≤ ringBytes - 1 := hroom
    rw [List.length_append, List.length_singleton]
    exact Nat.lt_of_le_of_lt hbytes (by decide)
  · intro i hi
    obtain ⟨c', e, hr⟩ := h.done i hi
    exact ⟨c', e, hnew hr⟩
  · exact fun i c' e hi hr => h.stored i c' e hi (hold hr)
  · exact fun i hi hnot => h.fresh i hi fun c' e hr => hnot c' e (hnew hr)
  · exact fun i c' e hr => h.made i c' e (hold hr)
  · rw [h.printed, List.take_append_of_le_length hle]

/-- Records that are not read lie in one window of the ring. -/
theorem window_end (h : Sound s) {i : Nat} (hi : i < s.records.length) :
    recordBytes * (i + 1) ≤ recordBytes * s.taken + ringBytes := by
  have hroom := h.room
  have hle := h.taken_le
  simp only [recordBytes] at *
  omega

theorem taken_le_of_not_submitted (h : Sound s) {i : Nat}
    (hi : ∀ c e, s.records[i]? ≠ some ⟨c, some e⟩) : s.taken ≤ i := by
  by_contra hread
  obtain ⟨c, e, hdone⟩ := h.done i (Nat.lt_of_not_le hread)
  exact hi c e hdone

/-- Submitting a record does not change another one that waits or was never used. -/
theorem eventAt_write (h : Sound s) {i j : Nat} (hi : s.taken ≤ i) (hlt : i < s.records.length)
    (hj : s.taken ≤ j) (hne : j ≠ i)
    (hwhere : j < s.records.length ∨ recordBytes * (j + 1) ≤ ringBytes) (front : Bytes 8)
    (e : ProcessEvent) :
    eventAt (write ringBytes s.cells (recordBytes * i) (front.val ++ eventBytes e)) j =
      eventAt s.cells j := by
  refine eventAt_write_of_apart ?_ _ _ _
  by_cases hjlt : j < s.records.length
  · exact apart_records hj hi (h.window_end hjlt) (h.window_end hlt) hne.symm
  · -- both are in the first round
    have hjend := hwhere.resolve_left hjlt
    have hiend : recordBytes * (i + 1) ≤ ringBytes :=
      Nat.le_trans (Nat.mul_le_mul_left _ (by omega)) hjend
    exact apart_records (Nat.zero_le _) (Nat.zero_le _) (Nat.le_add_left_of_le hjend)
      (Nat.le_add_left_of_le hiend) hne.symm

/-- A call submits its record. -/
theorem submit (h : Sound s) {i : Nat} {c : Call} {e : ProcessEvent}
    (hr : s.records[i]? = some ⟨c, none⟩) (he : c.fill (eventAt s.cells i) = some e)
    (front : Bytes 8) : Sound { s with
      cells := write ringBytes s.cells (recordBytes * i) (front.val ++ eventBytes e)
      records := s.records.set i ⟨c, some e⟩ } := by
  have hlt : i < s.records.length := (List.getElem?_eq_some_iff.1 hr).1
  have hbusy : ∀ c' e', s.records[i]? ≠ some ⟨c', some e'⟩ := by
    rw [hr]
    intro c' e' hsub
    cases hsub
  have hnot : s.taken ≤ i := h.taken_le_of_not_submitted hbusy
  have hother : ∀ {j : Nat}, j ≠ i → (s.records.set i ⟨c, some e⟩)[j]? = s.records[j]? :=
    fun hne => List.getElem?_set_ne hne.symm
  constructor
  · rw [List.length_set]
    exact h.taken_le
  · rw [List.length_set]
    exact h.room
  · intro j hj
    have hne : j ≠ i := Nat.ne_of_lt (Nat.lt_of_lt_of_le hj hnot)
    rw [hother hne]
    exact h.done j hj
  · intro j c' e' hj hset
    obtain ⟨rfl, heq⟩ | ⟨hne, hold⟩ := getElem?_set_cases hset
    · cases heq
      exact eventAt_write_self _ _ _ _
    · have hwhere := List.getElem?_eq_some_iff.1 hold
      exact (h.eventAt_write hnot hlt hj hne (.inl hwhere.1) _ _).trans
        (h.stored j c' e' hj hold)
  · intro j hj hunused
    have hne : j ≠ i := by
      rintro rfl
      exact hunused c e (List.getElem?_set_self hlt)
    have hunused' : ∀ c' e', s.records[j]? ≠ some ⟨c', some e'⟩ := by
      rw [← hother hne]
      exact hunused
    have htaken := h.taken_le_of_not_submitted hunused'
    dsimp only
    rw [h.eventAt_write hnot hlt htaken hne (.inr hj)]
    exact h.fresh j hj hunused'
  · intro j c' e' hset
    obtain ⟨rfl, heq⟩ | ⟨_, hold⟩ := getElem?_set_cases hset
    · cases heq
      exact ⟨_, he, fun hfirst => h.fresh j hfirst hbusy⟩
    · exact h.made j c' e' hold
  · rw [h.printed, List.take_set_of_le hnot]

/-- The reader takes a record, or waits at one. -/
theorem poll (h : Sound s) : Sound s.poll := by
  unfold Pipeline.poll
  split
  · rename_i c e hr
    have hlt : s.taken < s.records.length := (List.getElem?_eq_some_iff.1 hr).1
    constructor
    · exact hlt
    · exact Nat.lt_of_le_of_lt (Nat.mul_le_mul_left _ (Nat.sub_le_sub_left (Nat.le_succ _) _))
        h.room
    · intro i hi
      obtain hi | rfl := Nat.lt_succ_iff_lt_or_eq.1 hi
      · exact h.done i hi
      · exact ⟨c, e, hr⟩
    · exact fun i c' e' hi => h.stored i c' e' (Nat.le_of_succ_le hi)
    · exact h.fresh
    · exact h.made
    · obtain ⟨prev, hfill, _⟩ := h.made _ _ _ hr
      obtain ⟨line, hline⟩ := Call.exists_report hfill
      rw [h.stored _ _ _ (Nat.le_refl _) hr, hline, List.map_append, h.printed, List.take_add_one,
        hr, List.map_append]
      exact congrArg (_ ++ ·) (congrArg (fun x => [x]) hline.symm)
  · exact ⟨h.taken_le, h.room, h.done, h.stored, h.fresh, h.made, h.printed⟩

end Sound

/-- Every step keeps the invariant. -/
theorem sound_step {header : Nat → Bytes 8} {s t : Pipeline} {a : Action} (h : Sound s)
    (hstep : (pipeline header).step s a = some t) : Sound t := by
  cases a with
  | call c =>
    have ht : (if s.HasRoom then some { s with records := s.records ++ [⟨c, none⟩] }
        else some { s with lost := s.lost ++ [c] }) = some t := hstep
    split_ifs at ht with hroom
    · obtain rfl := Option.some.inj ht
      exact h.reserve hroom c
    · obtain rfl := Option.some.inj ht
      exact ⟨h.taken_le, h.room, h.done, h.stored, h.fresh, h.made, h.printed⟩
  | submit i =>
    dsimp only [pipeline] at hstep
    split at hstep
    · rename_i c hr
      obtain ⟨e, he, rfl⟩ := Option.map_eq_some_iff.1 hstep
      exact h.submit hr he (header i)
    · cases hstep
  | poll =>
    dsimp only [pipeline] at hstep
    split_ifs at hstep
    obtain rfl := Option.some.inj hstep
    exact h.poll
  | wait d =>
    obtain rfl := Option.some.inj hstep
    exact ⟨h.taken_le, h.room, h.done, h.stored, h.fresh, h.made, h.printed⟩

theorem sound_of_run {header : Nat → Bytes 8} {schedule : List Action} {s : Pipeline}
    (h : (pipeline header).run pipelineStart schedule = some s) : Sound s :=
  (pipeline header).run_invariant (fun _ _ _ ht => sound_step ht) Sound.start h

/-! ## The lines -/

/-- The calls of a schedule. -/
def callsOf (schedule : List Action) : List Call :=
  schedule.filterMap fun | .call c => some c | _ => none

/-- Every call has a record or is lost, and both in the order of the calls. -/
structure Kept (schedule : List Action) (s : Pipeline) : Prop where
  perm : (s.records.map Record.call ++ s.lost).Perm (callsOf schedule)
  reserved : (s.records.map Record.call).Sublist (callsOf schedule)
  lost : s.lost.Sublist (callsOf schedule)

theorem map_call_set {records : List Record} {i : Nat} {c : Call} {o : Option ProcessEvent}
    (h : records[i]? = some ⟨c, o⟩) (o' : Option ProcessEvent) :
    (records.set i ⟨c, o'⟩).map Record.call = records.map Record.call := by
  obtain ⟨hlt, hget⟩ := List.getElem?_eq_some_iff.1 h
  have hself := List.set_getElem_self
    (show i < (records.map Record.call).length by rwa [List.length_map])
  rw [List.getElem_map, hget] at hself
  rw [List.map_set]
  exact hself

theorem callsOf_call (schedule : List Action) (c : Call) :
    callsOf (schedule ++ [.call c]) = callsOf schedule ++ [c] := List.filterMap_append ..

theorem callsOf_map_call (calls : List Call) : callsOf (calls.map .call) = calls := by
  rw [callsOf, List.filterMap_map]
  exact List.filterMap_some

namespace Kept
variable {schedule : List Action} {s t : Pipeline} {a : Action}

theorem same (h : Kept schedule s)
    (hrecords : t.records.map Record.call = s.records.map Record.call) (hlost : t.lost = s.lost)
    (hcalls : callsOf (schedule ++ [a]) = callsOf schedule) :
    Kept (schedule ++ [a]) t := by
  constructor
  · rw [hrecords, hlost, hcalls]
    exact h.perm
  · rw [hrecords, hcalls]
    exact h.reserved
  · rw [hlost, hcalls]
    exact h.lost

theorem reserve (h : Kept schedule s) (c : Call) : Kept (schedule ++ [.call c])
    { s with records := s.records ++ [⟨c, none⟩] } := by
  constructor
  · rw [callsOf_call, List.map_append, List.append_assoc]
    refine (List.perm_append_comm.append_left _).trans ?_
    rw [← List.append_assoc]
    exact h.perm.append_right [c]
  · rw [callsOf_call, List.map_append]
    exact h.reserved.append (List.Sublist.refl [c])
  · rw [callsOf_call]
    exact h.lost.trans (List.sublist_append_left _ _)

theorem lose (h : Kept schedule s) (c : Call) : Kept (schedule ++ [.call c])
    { s with lost := s.lost ++ [c] } := by
  constructor
  · rw [callsOf_call, ← List.append_assoc]
    exact h.perm.append_right [c]
  · rw [callsOf_call]
    exact h.reserved.trans (List.sublist_append_left _ _)
  · rw [callsOf_call]
    exact h.lost.append (List.Sublist.refl [c])

theorem step {header : Nat → Bytes 8} (h : Kept schedule s)
    (hstep : (pipeline header).step s a = some t) : Kept (schedule ++ [a]) t := by
  cases a with
  | call c =>
    have ht : (if s.HasRoom then some { s with records := s.records ++ [⟨c, none⟩] }
        else some { s with lost := s.lost ++ [c] }) = some t := hstep
    split_ifs at ht with hroom
    · obtain rfl := Option.some.inj ht
      exact h.reserve c
    · obtain rfl := Option.some.inj ht
      exact h.lose c
  | submit i =>
    dsimp only [pipeline] at hstep
    split at hstep
    · rename_i c hr
      obtain ⟨e, he, rfl⟩ := Option.map_eq_some_iff.1 hstep
      exact h.same (map_call_set hr _) rfl (by simp [callsOf])
    · cases hstep
  | poll =>
    dsimp only [pipeline] at hstep
    split_ifs at hstep
    obtain rfl := Option.some.inj hstep
    have hpoll : s.poll.records = s.records ∧ s.poll.lost = s.lost := by
      unfold Pipeline.poll
      split <;> exact ⟨rfl, rfl⟩
    exact h.same (congrArg _ hpoll.1) hpoll.2 (by simp [callsOf])
  | wait d =>
    obtain rfl := Option.some.inj hstep
    exact h.same rfl rfl (by simp [callsOf])

end Kept

theorem kept_of_run {header : Nat → Bytes 8} {schedule : List Action} {s : Pipeline}
    (h : (pipeline header).run pipelineStart schedule = some s) : Kept schedule s :=
  (pipeline header).run_induction ⟨.refl _, .refl _, .refl _⟩
    (fun _ _ _ _ _ hkept hstep => hkept.step hstep) h

/-- There is room for 2520 records. -/
theorem Sound.waiting_le {s : Pipeline} (h : Sound s) : s.records.length ≤ s.taken + 2520 := by
  have hroom := h.room
  simp only [recordBytes, ringBytes] at hroom
  omega

theorem Sound.hasRoom_iff {s : Pipeline} (h : Sound s) :
    s.HasRoom ↔ s.records.length ≠ s.taken + 2520 := by
  have hle := h.taken_le
  have hwaiting := h.waiting_le
  simp only [Pipeline.HasRoom, recordBytes, ringBytes]
  omega

/-! ### One call, read -/

def lsCall : Call := ⟨.execve, twoStrings, argumentsAt 0x2000⟩

def zeroHeader (_ : Nat) : Bytes 8 := zeros 8

def oneCall : List Action := [.call lsCall, .submit 0, .poll]

theorem oneCall_run : ∃ s e, (pipeline zeroHeader).run pipelineStart oneCall = some s ∧
    s.records[0]? = some ⟨lsCall, some e⟩ ∧ s.records.length = 1 ∧ s.taken = 1 :=
  ⟨_, _, rfl, rfl, rfl, rfl⟩

/-- **The lines are the records, in their order.**  In every run, however the calls on all
processors and the reader interleave: every call has a record or is lost, in the order of the calls;
a call is lost exactly if 2520 records wait to be read; and the lines are the reports of the first
records, one for each, of the events that their calls submitted. -/
theorem lines_are_records {header : Nat → Bytes 8} {schedule : List Action} {s : Pipeline}
    (h : (pipeline header).run pipelineStart schedule = some s) :
    Kept schedule s ∧
      (∀ c, (pipeline header).step s (.call c) = some
        (if s.records.length = s.taken + 2520 then { s with lost := s.lost ++ [c] }
          else { s with records := s.records ++ [⟨c, none⟩] })) ∧
      s.lines.map some =
        (s.records.take s.taken).map (fun r => r.submitted.bind ProcessEvent.report) ∧
      ∀ r ∈ s.records.take s.taken, ∃ prev e, r.submitted = some e ∧ r.call.fill prev = some e := by
  have hsound := sound_of_run h
  refine ⟨kept_of_run h, fun c => ?_, hsound.printed, fun r hr => ?_⟩
  · have hstep : (pipeline header).step s (.call c) =
        if s.HasRoom then some { s with records := s.records ++ [⟨c, none⟩] }
        else some { s with lost := s.lost ++ [c] } := rfl
    rw [hstep]
    by_cases hroom : s.HasRoom
    · rw [if_pos hroom, if_neg (hsound.hasRoom_iff.1 hroom)]
    · rw [if_neg hroom, if_pos (by_contra fun hne => hroom (hsound.hasRoom_iff.2 hne))]
  · obtain ⟨i, hi, rfl⟩ := List.mem_take_iff_getElem.1 hr
    obtain ⟨c, e, hdone⟩ := hsound.done i (by omega)
    obtain ⟨prev, hfill, _⟩ := hsound.made i c e hdone
    rw [List.getElem?_eq_getElem (by omega)] at hdone
    rw [Option.some.inj hdone]
    exact ⟨prev, e, rfl, hfill⟩

theorem oneCall_line : ∃ s e, (pipeline zeroHeader).run pipelineStart oneCall = some s ∧
    s.records[0]? = some ⟨lsCall, some e⟩ ∧ s.lines.map some = [e.report] := by
  obtain ⟨s, e, hrun, hrecord, hlen, htaken⟩ := oneCall_run
  refine ⟨s, e, hrun, hrecord, ?_⟩
  obtain ⟨r, hr⟩ := List.length_eq_one_iff.1 hlen
  rw [hr] at hrecord
  obtain rfl := Option.some.inj hrecord
  rw [(lines_are_records hrun).2.2.1, hr, htaken]
  rfl

/-- **The first 2520 names are right.**  In every run, of each of the first 2520 records that is
submitted, the name is that of its call, up to 63 bytes; and once the record is read, this is the
line at its place. -/
theorem first_names_right {header : Nat → Bytes 8} {schedule : List Action} {s : Pipeline}
    (h : (pipeline header).run pipelineStart schedule = some s) {i : Nat} (hi : i < 2520) {c : Call}
    {e : ProcessEvent} (hr : s.records[i]? = some ⟨c, some e⟩) {argument : Option (List UInt8)}
    (hargument : NameArgument c.helpers c.ctx c.tracepoint.offset argument) :
    e.decodedFilename = asciiText (expectedName argument) ∧
      (i < s.taken → s.lines[i]? = e.report) := by
  have hsound := sound_of_run h
  obtain ⟨prev, hfill, hzero⟩ := hsound.made i c e hr
  refine ⟨Call.decodedFilename_of_fill hfill (hzero ?_) hargument, fun htaken => ?_⟩
  · simp only [recordBytes, ringBytes]
    omega
  · obtain ⟨line, hline⟩ := Call.exists_report hfill
    have hat := congrArg (·[i]?) hsound.printed
    simp only [List.getElem?_map, List.getElem?_take_of_lt htaken, hr, Option.map_some,
      Option.bind_some, hline] at hat
    obtain ⟨line', hline', heq⟩ := Option.map_eq_some_iff.1 hat
    rw [hline', hline]
    exact heq

theorem oneCall_name : ∃ (s : Pipeline) (e : ProcessEvent),
    (pipeline zeroHeader).run pipelineStart oneCall = some s ∧
      e.decodedFilename = "/bin/ls".toList ∧ s.lines[0]? = e.report := by
  obtain ⟨s, e, hrun, hrecord, _, htaken⟩ := oneCall_run
  obtain ⟨hname, hline⟩ := first_names_right hrun (by decide) hrecord (nameArgument_ls _)
  exact ⟨s, e, hrun, hname.trans (by decide), hline (by rw [htaken]; decide)⟩

/-- How fast the reader is. -/
def Paced (s : Pipeline) : Prop :=
  s.taken * pollInterval ≤ s.wakes ∧ s.wakes ≤ s.now + pollInterval

theorem paced_of_run {header : Nat → Bytes 8} {schedule : List Action} {s : Pipeline}
    (h : (pipeline header).run pipelineStart schedule = some s) : Paced s := by
  have hstart : Paced pipelineStart := ⟨Nat.le_refl 0, Nat.zero_le _⟩
  refine (pipeline header).run_invariant (I := Paced) ?_ hstart h
  intro s a t ⟨htaken, hwakes⟩ hstep
  cases a with
  | call c =>
    have ht : (if s.HasRoom then some { s with records := s.records ++ [⟨c, none⟩] }
        else some { s with lost := s.lost ++ [c] }) = some t := hstep
    split_ifs at ht
    · obtain rfl := Option.some.inj ht
      exact ⟨htaken, hwakes⟩
    · obtain rfl := Option.some.inj ht
      exact ⟨htaken, hwakes⟩
  | submit i =>
    dsimp only [pipeline] at hstep
    split at hstep
    · obtain ⟨e, _, rfl⟩ := Option.map_eq_some_iff.1 hstep
      exact ⟨htaken, hwakes⟩
    · cases hstep
  | poll =>
    dsimp only [pipeline] at hstep
    split_ifs at hstep with hawake
    obtain rfl := Option.some.inj hstep
    unfold Pipeline.poll
    split
    · refine ⟨?_, Nat.le_refl _⟩
      dsimp only
      rw [Nat.succ_mul]
      omega
    · exact ⟨by dsimp only; omega, Nat.le_refl _⟩
  | wait d =>
    obtain rfl := Option.some.inj hstep
    exact ⟨htaken, by dsimp only; omega⟩

/-- A call never waits. -/
theorem exists_run_calls (header : Nat → Bytes 8) (s : Pipeline) (calls : List Call) :
    ∃ t, (pipeline header).run s (calls.map .call) = some t ∧ t.now = s.now := by
  induction calls generalizing s with
  | nil => exact ⟨s, rfl, rfl⟩
  | cons c calls ih =>
    have hstep : (pipeline header).step s (.call c) =
        if s.HasRoom then some { s with records := s.records ++ [⟨c, none⟩] }
        else some { s with lost := s.lost ++ [c] } := rfl
    by_cases hroom : s.HasRoom
    · rw [if_pos hroom] at hstep
      obtain ⟨t, hrun, hnow⟩ := ih { s with records := s.records ++ [⟨c, none⟩] }
      exact ⟨t, (pipeline header).run_cons hstep hrun, hnow⟩
    · rw [if_neg hroom] at hstep
      obtain ⟨t, hrun, hnow⟩ := ih { s with lost := s.lost ++ [c] }
      exact ⟨t, (pipeline header).run_cons hstep hrun, hnow⟩

/-- **What is lost of many calls.**  In every run at least all calls are lost but 2521 and one for
each 100 µs that have passed, however many processors make them. -/
theorem busy_calls_lost {header : Nat → Bytes 8} {schedule : List Action} {s : Pipeline}
    (h : (pipeline header).run pipelineStart schedule = some s) :
    (callsOf schedule).length ≤ s.lost.length + 2520 + (s.now / pollInterval + 1) := by
  have hwaiting := (sound_of_run h).waiting_le
  have hcalls := (kept_of_run h).perm.length_eq
  rw [List.length_append, List.length_map] at hcalls
  obtain ⟨htaken, hwakes⟩ := paced_of_run h
  have hpolls : s.taken ≤ s.now / pollInterval + 1 := by
    have hle : s.taken * pollInterval ≤ s.now + pollInterval := htaken.trans hwakes
    simp only [pollInterval] at *
    omega
  omega

/-- Of 3000 calls at one time. -/
theorem many_calls_lost : ∃ s, (pipeline zeroHeader).run pipelineStart
    ((List.replicate 3000 lsCall).map .call) = some s ∧ 479 ≤ s.lost.length := by
  obtain ⟨s, hrun, hnow⟩ :=
    exists_run_calls zeroHeader pipelineStart (List.replicate 3000 lsCall)
  have hlost := busy_calls_lost hrun
  rw [callsOf_map_call, List.length_replicate, hnow] at hlost
  have hzero : pipelineStart.now / pollInterval = 0 := rfl
  exact ⟨s, hrun, by omega⟩

/-! ## All records can be read -/

theorem Call.exists_fill (c : Call) (prev : ProcessEvent) : ∃ e, c.fill prev = some e := by
  obtain ⟨eventType, heq⟩ := c.tracepoint.handle_eq
  rw [Call.fill, heq]
  exact ⟨_, rfl⟩

/-- The next record can be read: its call submits it, if it has not, and the reader wakes. -/
theorem Pipeline.exists_next (header : Nat → Bytes 8) {s : Pipeline}
    (hlt : s.taken < s.records.length) : ∃ more t, (pipeline header).run s more = some t ∧
      t.taken = s.taken + 1 ∧ t.records.map Record.call = s.records.map Record.call ∧
      callsOf more = [] := by
  have hpoll : ∀ {u : Pipeline} {c : Call} {e : ProcessEvent},
      u.records[u.taken]? = some ⟨c, some e⟩ → ∃ t, (pipeline header).run u
        [.wait (u.wakes - u.now), .poll] = some t ∧ t.taken = u.taken + 1 ∧
        t.records = u.records := by
    intro u c e hu
    have hawake : ¬ u.now + (u.wakes - u.now) < u.wakes := by omega
    refine ⟨{ u with now := u.now + (u.wakes - u.now) }.poll, ?_, ?_, ?_⟩
    · refine (pipeline header).run_cons rfl ?_
      rw [(pipeline header).run_singleton]
      exact if_neg hawake
    · simp only [Pipeline.poll, hu]
    · simp only [Pipeline.poll, hu]
  cases hr : s.records[s.taken]? with
  | none => exact absurd (List.getElem?_eq_none_iff.1 hr) (by omega)
  | some r =>
    obtain ⟨c, submitted⟩ := r
    cases submitted with
    | some e =>
      obtain ⟨t, hrun, htaken, hrecords⟩ := hpoll hr
      exact ⟨_, t, hrun, htaken, congrArg _ hrecords, rfl⟩
    | none =>
      obtain ⟨e, he⟩ := c.exists_fill (eventAt s.cells s.taken)
      have hsubmit : (pipeline header).step s (.submit s.taken) = some { s with
          cells := write ringBytes s.cells (recordBytes * s.taken)
            ((header s.taken).val ++ eventBytes e)
          records := s.records.set s.taken ⟨c, some e⟩ } := by
        simp only [pipeline, hr, he, Option.map_some]
      obtain ⟨t, hrun, htaken, hrecords⟩ := hpoll (u := { s with
          cells := write ringBytes s.cells (recordBytes * s.taken)
            ((header s.taken).val ++ eventBytes e)
          records := s.records.set s.taken ⟨c, some e⟩ }) (List.getElem?_set_self hlt)
      exact ⟨_, t, (pipeline header).run_cons hsubmit hrun, htaken,
        (congrArg _ hrecords).trans (map_call_set hr _), rfl⟩

/-- **No record stays in the ring.**  After every run the calls that have records can submit them,
and the reader can then read all of them, without another call. -/
theorem records_can_be_read {header : Nat → Bytes 8} {schedule : List Action} {s : Pipeline}
    (h : (pipeline header).run pipelineStart schedule = some s) : ∃ more t,
      (pipeline header).run pipelineStart (schedule ++ more) = some t ∧ callsOf more = [] ∧
        t.records.map Record.call = s.records.map Record.call ∧
        t.lines.map some = t.records.map fun r => r.submitted.bind ProcessEvent.report := by
  induction hwait : s.records.length - s.taken generalizing schedule s with
  | zero =>
    have hsound := sound_of_run h
    refine ⟨[], s, by rwa [List.append_nil], rfl, rfl, ?_⟩
    rw [hsound.printed, List.take_of_length_le (by omega)]
  | succ n ih =>
    obtain ⟨first, u, hfirst, htaken, hcalls, hnone⟩ :=
      Pipeline.exists_next header (s := s) (by omega)
    have hlen := congrArg List.length hcalls
    rw [List.length_map, List.length_map] at hlen
    obtain ⟨more, t, hmore, hnone', hcalls', hlines⟩ :=
      ih ((pipeline header).run_trans h hfirst) (by omega)
    refine ⟨first ++ more, t, by rwa [← List.append_assoc], ?_, hcalls'.trans hcalls, hlines⟩
    rw [callsOf, List.filterMap_append]
    exact congrArg₂ (· ++ ·) hnone hnone'

/-- A call that has only reserved its record. -/
theorem reserved_can_be_read : ∃ more t,
    (pipeline zeroHeader).run pipelineStart ([.call lsCall] ++ more) = some t ∧
      callsOf more = [] ∧ t.records.map Record.call = [lsCall] ∧
      t.lines.map some = t.records.map fun r => r.submitted.bind ProcessEvent.report :=
  records_can_be_read (rfl : (pipeline zeroHeader).run pipelineStart [.call lsCall] = some _)

end RustSamples.ProcControl
