import Mathlib.Data.List.Forall2
import RustSamples.CallTrace
import RustSamples.RustBytes
import RustSamples.RustUtf8

/-! # The permission events of `dlp_fanotify_hooks`

`run_fanotify_monitor` reads events from the kernel into a buffer of 4096 bytes.  In the buffer they
stand one behind the other, and the length of each is its own first field: behind the 24 bytes of
the metadata there may be more.  A process that opens a file waits until the event is answered.

The program takes a reference to the metadata where it stands.  Such a reference must be to an
address that is a multiple of 8, and nothing sees to that: the buffer is an array of bytes, and an
event whose length is no multiple of 8 puts the next one to another address.  There a debug build
aborts, and for any other nothing is defined; the run ends there as `misaligned`.  So every event is
answered once exactly if no event begins at such an address (`every_event_answered_once_iff`).

The files, the kernel and the channel are the surroundings.  A descriptor is a number, and the loads
from the buffer are put in the trace as calls, so that the trace says which bytes were looked at.
`matches_pattern` and the module it is in are not in the repository; a configuration is what it
gives for every text.
-/
namespace RustSamples.DlpFanotify
open RustStr RustBytes CallTrace

/-- `FanotifyEventMetadata`. -/
structure FanotifyEventMetadata where
  eventLen : UInt32
  vers : UInt8
  reserved : UInt8
  metadataLen : UInt16
  mask : UInt64
  fd : Int32
  pid : Int32
  deriving DecidableEq

/-- `FanotifyResponse`. -/
structure FanotifyResponse where
  fd : Int32
  response : UInt32
  deriving DecidableEq

/-- `FAN_ALLOW`. -/
def fanAllow : UInt32 := 0x01

/-- `FAN_DENY`. -/
def fanDeny : UInt32 := 0x02

/-- `DlpConfig`, by what `matches_pattern` gives. -/
structure DlpConfig where
  matchesPattern : List Char → Bool

/-- `DlpEvent::FileAccess`. -/
structure FileAccess where
  pid : Int32
  path : List Char
  fd : Int32
  deriving DecidableEq

inductive Call
  | fanotifyInit
  | fanotifyMark (fd : Int32) (path : String)
  | read (fd : Int32) (count : Nat)
  /-- a load of `size` bytes of the buffer, from `offset` on -/
  | load (offset size : Nat)
  | readLink (path : String)
  | pread (fd : Int32) (count offset : Nat)
  | write (fd : Int32) (response : FanotifyResponse)
  | close (fd : Int32)
  | println (line : String)
  | send (event : FileAccess)
  deriving DecidableEq

/-- Where a call writes into a buffer, the answer has the bytes, and is `none` for a negative
result. -/
@[reducible]
def Answer : Call → Type
  | .fanotifyInit => Int32
  | .fanotifyMark _ _ => Int32
  | .read _ _ => Option (List UInt8)
  | .load _ _ => Unit
  | .readLink _ => Option (List UInt8)
  | .pread _ _ _ => Option (List UInt8)
  | .write _ _ => Int
  | .close _ => Int32
  | .println _ => Unit
  | .send _ => Bool

abbrev Monitor := Program Answer

/-- The length of `file_buf` in `evaluate_file_safety`. -/
def fileBufLen : Nat := 1024

/-- `evaluate_file_safety` after the `pread`. -/
def safetyOf (config : DlpConfig) : Option (List UInt8) → UInt32
  | none => fanAllow
  | some fileBuf =>
      if 0 < fileBuf.length then
        match decodeUtf8 fileBuf with
        | some contentStr => if config.matchesPattern contentStr then fanDeny else fanAllow
        | none => fanAllow
      else fanAllow

/-- `evaluate_file_safety`. -/
def evaluateFileSafety (fd : Int32) (config : DlpConfig) : Monitor UInt32 := do
  let res ← Program.call (.pread fd fileBufLen 0)
  pure (safetyOf config res)

/-- The link to the file of a descriptor. -/
def procPath (fd : Int32) : String := "/proc/self/fd/" ++ toString fd

/-- `get_path_from_fd`, with the text for an error. -/
def pathText : Option (List UInt8) → List Char
  | some path => fromUtf8Lossy path
  | none => "Unknown".toList

def getPathFromFd (fd : Int32) : Monitor (List Char) := do
  let link ← Program.call (.readLink (procPath fd))
  pure (pathText link)

/-- The line for an event that is denied. -/
def blockLine (path : List Char) (pid : Int32) : String :=
  "[BLOCK] File leak prevented: " ++ String.ofList path ++ " by process PID " ++ toString pid

def reportBlock (decision : UInt32) (path : List Char) (pid : Int32) : Monitor Unit :=
  if decision = fanDeny then Program.call (Call.println (blockLine path pid)) else pure ()

/-- What is done about an event; one without a descriptor is left alone. -/
def answerEvent (config : DlpConfig) (fanotifyFd : Int32) (metadata : FanotifyEventMetadata) :
    Monitor Unit :=
  if 0 ≤ metadata.fd then do
    let path ← getPathFromFd metadata.fd
    let decision ← evaluateFileSafety metadata.fd config
    let _ ← Program.call (.write fanotifyFd ⟨metadata.fd, decision⟩)
    let _ ← Program.call (.close metadata.fd)
    reportBlock decision path metadata.pid
    let _ ← Program.call (.send ⟨metadata.pid, path, metadata.fd⟩)
    pure ()
  else pure ()

/-- `size_of::<FanotifyEventMetadata>()`. -/
def metadataSize : Nat := 24

/-- The structure that stands in the buffer from `offset` on. -/
def metadataAt (buffer : List UInt8) (offset : Nat) : FanotifyEventMetadata where
  eventLen := UInt32.ofNat (fieldAt buffer offset 4)
  vers := UInt8.ofNat (fieldAt buffer (offset + 4) 1)
  reserved := UInt8.ofNat (fieldAt buffer (offset + 5) 1)
  metadataLen := UInt16.ofNat (fieldAt buffer (offset + 6) 2)
  mask := UInt64.ofNat (fieldAt buffer (offset + 8) 8)
  fd := (UInt32.ofNat (fieldAt buffer (offset + 16) 4)).toInt32
  pid := (UInt32.ofNat (fieldAt buffer (offset + 20) 4)).toInt32

/-- What is read is what the load covers. -/
theorem metadataAt_take (buffer : List UInt8) (offset : Nat) :
    metadataAt (buffer.take (offset + metadataSize)) offset = metadataAt buffer offset := by
  have htake {skip k : Nat} (h : skip + k ≤ metadataSize) :=
    fieldAt_take (show offset + skip + k ≤ offset + metadataSize by omega) buffer
  have hfirst := htake (show 0 + 4 ≤ metadataSize by decide)
  rw [Nat.add_zero] at hfirst
  simp only [metadataAt, hfirst, htake (show 4 + 1 ≤ metadataSize by decide),
    htake (show 5 + 1 ≤ metadataSize by decide), htake (show 6 + 2 ≤ metadataSize by decide),
    htake (show 8 + 8 ≤ metadataSize by decide), htake (show 16 + 4 ≤ metadataSize by decide),
    htake (show 20 + 4 ≤ metadataSize by decide)]

/-- `align_of::<FanotifyEventMetadata>()`, for its `u64`. -/
def metadataAlign : Nat := 8

/-- How the loop over the buffer ends. -/
inductive Ending
  /-- there is no room for another event -/
  | over
  /-- a reference to an address that is no multiple of the alignment -/
  | misaligned
  deriving DecidableEq

/-- A round of the loop over the buffer, which stands at `address`, and where the next one
begins. -/
def handleEvent (config : DlpConfig) (fanotifyFd : Int32) (address : Nat) (buffer : List UInt8)
    (bytesRead offset : Nat) : Monitor (Nat ⊕ Ending) :=
  if offset + metadataSize ≤ bytesRead then
    if metadataAlign ∣ address + offset then do
      let _ ← Program.call (.load offset metadataSize)
      answerEvent config fanotifyFd (metadataAt buffer offset)
      pure (.inl (offset + (metadataAt buffer offset).eventLen.toNat))
    else pure (.inr .misaligned)
  else pure (.inr .over)

/-- The inner loop of `run_fanotify_monitor`. -/
def handleEvents (config : DlpConfig) (fanotifyFd : Int32) (address : Nat) (buffer : List UInt8)
    (bytesRead fuel : Nat) : Monitor Ending :=
  Program.loopTo (handleEvent config fanotifyFd address buffer bytesRead) fuel 0

/-- The length of `buffer` in `run_fanotify_monitor`. -/
def bufferLen : Nat := 4096

/-- A round of the outer loop, and the buffer after it; `none` is the end of the program. -/
def monitorRound (config : DlpConfig) (fanotifyFd : Int32) (address fuel : Nat)
    (buffer : List UInt8) : Monitor (Option (List UInt8)) := do
  let bytesRead ← Program.call (Call.read fanotifyFd bufferLen)
  match bytesRead with
  | none => pure (some buffer)
  | some bytes =>
      if bytes.length = 0 then pure (some buffer)
      else do
        let ending ← handleEvents config fanotifyFd address (bytes ++ buffer.drop bytes.length)
          bytes.length fuel
        pure (if ending = .over then some (bytes ++ buffer.drop bytes.length) else none)

/-- The first rounds of the outer loop, which has no end of its own. -/
def monitorRounds (config : DlpConfig) (fanotifyFd : Int32) (address fuel : Nat) :
    Nat → List UInt8 → Monitor Ending
  | 0, _ => pure .over
  | rounds + 1, buffer => do
      let buffer ← monitorRound config fanotifyFd address fuel buffer
      match buffer with
      | some buffer => monitorRounds config fanotifyFd address fuel rounds buffer
      | none => pure .misaligned

/-- `run_fanotify_monitor`, for a number of rounds. -/
def runFanotifyMonitor (config : DlpConfig) (address fuel rounds : Nat) :
    Monitor (Except String Ending) := do
  let fd ← Program.call Call.fanotifyInit
  if fd < 0 then
    pure (.error "Failed to initialize fanotify. Root privileges are required ..")
  else do
    let markRes ← Program.call (Call.fanotifyMark fd "/")
    if markRes < 0 then
      pure (.error "Failed to set up the fanotify interception point")
    else do
      let _ ← Program.call (.println
        "[*] The fanotify module is active. File system monitoring is running in BLOCKING mode...")
      let ending ← monitorRounds config fd address fuel rounds (List.replicate bufferLen 0)
      pure (.ok ending)

/-! ## Events in the buffer -/

namespace FanotifyEventMetadata
variable (m : FanotifyEventMetadata)

/-- The fields with their widths. -/
def fields : List (Nat × Nat) :=
  [(4, m.eventLen.toNat), (1, m.vers.toNat), (1, m.reserved.toNat), (2, m.metadataLen.toNat),
    (8, m.mask.toNat), (4, m.fd.toUInt32.toNat), (4, m.pid.toUInt32.toNat)]

/-- The metadata is read as it was written. -/
theorem metadataAt_layout (before behind : List UInt8) :
    metadataAt (before ++ (layout m.fields ++ behind)) before.length = m := by
  have hfield {i k n : Nat} (hi : m.fields[i]? = some (k, n)) (hn : n < 256 ^ k) :=
    fieldAt_layout hi hn before behind
  have heventLen := hfield (i := 0) rfl m.eventLen.toNat_lt
  have hvers := hfield (i := 1) rfl m.vers.toNat_lt
  have hreserved := hfield (i := 2) rfl m.reserved.toNat_lt
  have hmetadataLen := hfield (i := 3) rfl m.metadataLen.toNat_lt
  have hmask := hfield (i := 4) rfl m.mask.toNat_lt
  have hfd := hfield (i := 5) rfl m.fd.toUInt32.toNat_lt
  have hpid := hfield (i := 6) rfl m.pid.toUInt32.toNat_lt
  simp only [fields, List.take, List.map, List.sum_cons, List.sum_nil, Nat.reduceAdd, Nat.add_zero]
    at heventLen hvers hreserved hmetadataLen hmask hfd hpid
  simp [metadataAt, heventLen, hvers, hreserved, hmetadataLen, hmask, hfd, hpid, fields]

end FanotifyEventMetadata

/-- An event as the kernel writes it: behind the metadata there may be more. -/
structure FanotifyEvent where
  metadata : FanotifyEventMetadata
  info : List UInt8
  eventLen_eq : metadata.eventLen.toNat = metadataSize + info.length

def FanotifyEvent.toBytes (e : FanotifyEvent) : List UInt8 := layout e.metadata.fields ++ e.info

theorem FanotifyEvent.length_toBytes (e : FanotifyEvent) :
    e.toBytes.length = e.metadata.eventLen.toNat := by
  rw [toBytes, List.length_append, length_layout, e.eventLen_eq]
  rfl

/-- What one `read` returns. -/
def encodeEvents (events : List FanotifyEvent) : List UInt8 := events.flatMap FanotifyEvent.toBytes

/-- **No event begins at an address that is no multiple of 8**: the buffer does not, and the length
of each event but the last one is a multiple of 8. -/
def Aligned (address : Nat) (events : List FanotifyEvent) : Prop :=
  (events = [] ∨ metadataAlign ∣ address) ∧
    ∀ e ∈ events.dropLast, metadataAlign ∣ e.metadata.eventLen.toNat

instance (address : Nat) (events : List FanotifyEvent) : Decidable (Aligned address events) :=
  inferInstanceAs (Decidable (_ ∧ _))

theorem aligned_nil (address : Nat) : Aligned address [] :=
  ⟨Or.inl rfl, List.forall_mem_nil _⟩

theorem aligned_cons {address : Nat} {e : FanotifyEvent} {events : List FanotifyEvent} :
    Aligned address (e :: events) ↔
      metadataAlign ∣ address ∧ Aligned (address + e.metadata.eventLen.toNat) events := by
  cases events with
  | nil => simp [Aligned]
  | cons e' events =>
    simp only [Aligned, reduceCtorEq, false_or, List.dropLast_cons_cons, List.forall_mem_cons]
    refine and_congr_right fun haddress => ?_
    rw [(Nat.dvd_add_iff_right haddress).symm]

/-- What is done about an event that has a descriptor, if `link` and `res` are the answers about
its file. -/
def answering (config : DlpConfig) (fanotifyFd : Int32) (m : FanotifyEventMetadata)
    (link res : Option (List UInt8)) : List Call :=
  [.readLink (procPath m.fd), .pread m.fd fileBufLen 0,
    .write fanotifyFd ⟨m.fd, safetyOf config res⟩, .close m.fd] ++
  (if safetyOf config res = fanDeny then [.println (blockLine (pathText link) m.pid)] else []) ++
  [.send ⟨m.pid, pathText link, m.fd⟩]

def Call.isLoad : Call → Bool
  | .load _ _ => true
  | _ => false

/-- The calls of a trace other than loads. -/
def actions (piece : Trace Answer) : List Call :=
  (piece.map Event.call).filter fun c => !c.isLoad

/-- **A piece of a trace answers an event once**: one response, with the decision about the file,
one `close` and one event for the engine, and nothing for an event without a descriptor.  No load
reaches behind what was read. -/
structure AnswersOnce (config : DlpConfig) (fanotifyFd : Int32) (bytesRead : Nat)
    (m : FanotifyEventMetadata) (piece : Trace Answer) : Prop where
  inside : ∀ offset size, .load offset size ∈ piece.map Event.call → offset + size ≤ bytesRead
  answered : 0 ≤ m.fd → ∃ link res, ⟨.readLink (procPath m.fd), link⟩ ∈ piece ∧
    ⟨.pread m.fd fileBufLen 0, res⟩ ∈ piece ∧
    actions piece = answering config fanotifyFd m link res
  left_alone : m.fd < 0 → actions piece = []

/-! ## The loop -/

section
variable {config : DlpConfig} {fanotifyFd : Int32} {E : Surroundings Answer} {t : Trace Answer}

theorem getPathFromFd_returns {fd : Int32} :
    (getPathFromFd fd).Returns E t fun path t' =>
      ∃ link, path = pathText link ∧ t' = t ++ [⟨.readLink (procPath fd), link⟩] :=
  Program.returns_call_bind fun link _ => Program.returns_pure.2 ⟨link, rfl, rfl⟩

theorem evaluateFileSafety_returns {fd : Int32} :
    (evaluateFileSafety fd config).Returns E t fun decision t' =>
      ∃ res, decision = safetyOf config res ∧ t' = t ++ [⟨.pread fd fileBufLen 0, res⟩] :=
  Program.returns_call_bind fun res _ => Program.returns_pure.2 ⟨res, rfl, rfl⟩

theorem reportBlock_returns {decision : UInt32} {path : List Char} {pid : Int32} :
    (reportBlock decision path pid).Returns E t fun _ t' => ∃ line, t' = t ++ line ∧
      line.map Event.call =
        if decision = fanDeny then [.println (blockLine path pid)] else [] := by
  unfold reportBlock
  split
  · exact Program.returns_call.2 ⟨_, rfl, rfl⟩
  · exact Program.returns_pure.2 ⟨[], (List.append_nil t).symm, rfl⟩

theorem isLoad_of_mem_answering {m : FanotifyEventMetadata} {link res : Option (List UInt8)}
    {c : Call} (h : c ∈ answering config fanotifyFd m link res) : c.isLoad = false := by
  have hall : (answering config fanotifyFd m link res).all (fun c => !c.isLoad) = true := by
    unfold answering
    split <;> rfl
  simpa using List.all_eq_true.1 hall c h

/-- A piece of these calls, behind the load, answers the event. -/
theorem answersOnce_of_calls {m : FanotifyEventMetadata} {offset bytesRead : Nat}
    {piece : Trace Answer} {link res : Option (List UInt8)} (hfd : 0 ≤ m.fd)
    (hoffset : offset + metadataSize ≤ bytesRead)
    (hlink : ⟨.readLink (procPath m.fd), link⟩ ∈ piece)
    (hres : ⟨.pread m.fd fileBufLen 0, res⟩ ∈ piece)
    (hcalls : piece.map Event.call = answering config fanotifyFd m link res) :
    AnswersOnce config fanotifyFd bytesRead m (⟨.load offset metadataSize, ()⟩ :: piece) where
  inside offset' size' hmem := by
    rw [List.map_cons, hcalls, List.mem_cons] at hmem
    rcases hmem with hmem | hmem
    · cases hmem
      exact hoffset
    · exact absurd (isLoad_of_mem_answering hmem) (by simp [Call.isLoad])
  answered _ := by
    refine ⟨link, res, List.mem_cons_of_mem _ hlink, List.mem_cons_of_mem _ hres, ?_⟩
    rw [actions, List.map_cons, hcalls, List.filter_cons_of_neg (by simp [Call.isLoad])]
    exact List.filter_eq_self.2 fun c hc => by rw [isLoad_of_mem_answering hc]; rfl
  left_alone hneg := absurd hfd (by simpa using hneg)

/-- Behind the load of its metadata, an event is answered once. -/
theorem answerEvent_returns {m : FanotifyEventMetadata} {offset bytesRead : Nat}
    (hoffset : offset + metadataSize ≤ bytesRead) :
    (answerEvent config fanotifyFd m).Returns E t fun _ t' => ∃ piece, t' = t ++ piece ∧
      AnswersOnce config fanotifyFd bytesRead m (⟨.load offset metadataSize, ()⟩ :: piece) := by
  unfold answerEvent
  split
  · rename_i hfd
    refine Program.returns_bind.2 (getPathFromFd_returns.mono ?_)
    rintro _ _ ⟨link, rfl, rfl⟩
    refine Program.returns_bind.2 (evaluateFileSafety_returns.mono ?_)
    rintro _ _ ⟨res, rfl, rfl⟩
    refine Program.returns_call_bind fun written _ => ?_
    refine Program.returns_call_bind fun closed _ => ?_
    refine Program.returns_bind.2 (reportBlock_returns.mono ?_)
    rintro _ _ ⟨line, rfl, hline⟩
    refine Program.returns_call_bind fun sent _ => Program.returns_pure.2 ?_
    let piece : Trace Answer := [⟨.readLink (procPath m.fd), link⟩,
      ⟨.pread m.fd fileBufLen 0, res⟩, ⟨.write fanotifyFd ⟨m.fd, safetyOf config res⟩, written⟩,
      ⟨.close m.fd, closed⟩] ++ line ++ [⟨.send ⟨m.pid, pathText link, m.fd⟩, sent⟩]
    have hcalls : piece.map Event.call = answering config fanotifyFd m link res := by
      simp only [piece, List.map_append, hline]
      rfl
    refine ⟨piece, by simp only [piece, List.append_assoc, List.cons_append, List.nil_append], ?_⟩
    exact answersOnce_of_calls hfd hoffset (by simp [piece]) (by simp [piece]) hcalls
  · rename_i hfd
    refine Program.returns_pure.2 ⟨[], (List.append_nil t).symm, fun offset' size' hmem => ?_,
      fun hpos => absurd hpos hfd, fun _ => rfl⟩
    cases List.mem_singleton.1 hmem
    exact hoffset

theorem encodeEvents_cons (e : FanotifyEvent) (events : List FanotifyEvent) :
    encodeEvents (e :: events) = e.toBytes ++ encodeEvents events := List.flatMap_cons

/-- **A round answers the event that stands at its place**, and goes on behind it, if its address is
a multiple of 8. -/
theorem handleEvent_returns (e : FanotifyEvent) (before behind : List UInt8)
    {address bytesRead : Nat} (hinside : before.length + e.toBytes.length ≤ bytesRead) :
    (handleEvent config fanotifyFd address (before ++ (e.toBytes ++ behind)) bytesRead
      before.length).Returns E t fun next t' =>
        if metadataAlign ∣ address + before.length then
          next = .inl (before ++ e.toBytes).length ∧
            ∃ piece, t' = t ++ piece ∧ AnswersOnce config fanotifyFd bytesRead e.metadata piece
        else next = .inr .misaligned := by
  have hlen := e.length_toBytes
  have hload : before.length + metadataSize ≤ bytesRead := by
    rw [hlen, e.eventLen_eq] at hinside
    omega
  have hmetadata : metadataAt (before ++ (e.toBytes ++ behind)) before.length = e.metadata := by
    rw [FanotifyEvent.toBytes, List.append_assoc]
    exact e.metadata.metadataAt_layout before _
  rw [handleEvent, if_pos hload, hmetadata]
  by_cases haddress : metadataAlign ∣ address + before.length
  · simp only [if_pos haddress]
    refine Program.returns_call_bind fun _ _ =>
      Program.returns_bind.2 ((answerEvent_returns hload).mono ?_)
    rintro _ _ ⟨piece, rfl, hpiece⟩
    refine Program.returns_pure.2 ⟨by rw [List.length_append, hlen], _, ?_, hpiece⟩
    rw [List.append_assoc, List.singleton_append]
  · simp only [if_neg haddress]
    exact Program.returns_pure.2 rfl

/-- **The loop answers one event after the other**, from the place on where the first stands, and
ends before the first one that does not begin at a multiple of 8. -/
theorem handleEvents_returns (events : List FanotifyEvent) (before stale : List UInt8)
    {address bytesRead fuel : Nat}
    (hread : before.length + (encodeEvents events).length = bytesRead)
    (hfuel : events.length < fuel) :
    (Program.loopTo (handleEvent config fanotifyFd address
      (before ++ (encodeEvents events ++ stale)) bytesRead) fuel before.length).Returns E t
        fun ending t' => if Aligned (address + before.length) events then ending = .over ∧
            ∃ pieces, t' = t ++ pieces.flatten ∧
              List.Forall₂ (AnswersOnce config fanotifyFd bytesRead)
                (events.map FanotifyEvent.metadata) pieces
          else ending = .misaligned := by
  induction events generalizing before fuel t with
  | nil =>
    obtain ⟨fuel, rfl⟩ : ∃ k, fuel = k + 1 := ⟨fuel - 1, by omega⟩
    have hend : ¬ before.length + metadataSize ≤ bytesRead := by
      rw [encodeEvents, List.flatMap_nil, List.length_nil] at hread
      rw [metadataSize]
      omega
    rw [Program.returns_loopTo_succ, handleEvent, if_neg hend, Program.returns_pure, Sum.elim_inr,
      if_pos (aligned_nil _)]
    exact ⟨rfl, [], (List.append_nil t).symm, List.Forall₂.nil⟩
  | cons e events ih =>
    obtain ⟨fuel, rfl⟩ : ∃ k, fuel = k + 1 := ⟨fuel - 1, by omega⟩
    rw [encodeEvents_cons, List.length_append, ← Nat.add_assoc, ← List.length_append] at hread
    rw [encodeEvents_cons, List.append_assoc, Program.returns_loopTo_succ]
    refine (handleEvent_returns e before (encodeEvents events ++ stale) ?_).mono fun next t' h => ?_
    · rw [← List.length_append]
      omega
    by_cases haddress : metadataAlign ∣ address + before.length
    · rw [if_pos haddress] at h
      obtain ⟨rfl, piece, rfl, hpiece⟩ := h
      -- the next round begins behind this event
      have hiff : Aligned (address + before.length) (e :: events) ↔
          Aligned (address + (before ++ e.toBytes).length) events := by
        rw [aligned_cons, and_iff_right haddress, List.length_append, e.length_toBytes,
          Nat.add_assoc]
      rw [Sum.elim_inl, ← List.append_assoc before]
      refine (ih (before ++ e.toBytes) hread (Nat.lt_of_succ_lt_succ hfuel)).mono ?_
      intro ending t' h
      simp only [hiff]
      split
      · rename_i haligned
        rw [if_pos haligned] at h
        obtain ⟨rfl, pieces, rfl, hpieces⟩ := h
        refine ⟨rfl, piece :: pieces, ?_, List.Forall₂.cons hpiece hpieces⟩
        rw [List.flatten_cons, List.append_assoc]
      · rename_i haligned
        rwa [if_neg haligned] at h
    · rw [if_neg haddress] at h
      obtain rfl := h
      rw [Sum.elim_inr, if_neg fun haligned => haddress (aligned_cons.1 haligned).1]

/-- The loop over all that a `read` returned. -/
theorem handleEvents_answers (config : DlpConfig) (fanotifyFd : Int32) (address : Nat)
    (events : List FanotifyEvent) (stale : List UInt8) (E : Surroundings Answer)
    (t : Trace Answer) {fuel : Nat} (hfuel : events.length < fuel) :
    (handleEvents config fanotifyFd address (encodeEvents events ++ stale)
      (encodeEvents events).length fuel).Returns E t fun ending t' =>
        if Aligned address events then ending = .over ∧
            ∃ pieces, t' = t ++ pieces.flatten ∧
              List.Forall₂ (AnswersOnce config fanotifyFd (encodeEvents events).length)
                (events.map FanotifyEvent.metadata) pieces
          else ending = .misaligned :=
  handleEvents_returns events [] stale (Nat.zero_add _) hfuel

/-- **Every event of a `read` is answered once, in the order of the events**: the loop comes to its
end, and what it did is one piece for each event. -/
def AnswersEach (config : DlpConfig) (fanotifyFd : Int32) (address : Nat)
    (events : List FanotifyEvent) (stale : List UInt8) (fuel : Nat) (E : Surroundings Answer)
    (t : Trace Answer) : Prop :=
  (handleEvents config fanotifyFd address (encodeEvents events ++ stale)
    (encodeEvents events).length fuel).Returns E t fun ending t' => ending = .over ∧
      ∃ pieces, t' = t ++ pieces.flatten ∧
        List.Forall₂ (AnswersOnce config fanotifyFd (encodeEvents events).length)
          (events.map FanotifyEvent.metadata) pieces

/-- **Every event is answered once exactly if none begins at an address that is no multiple of 8**,
whatever the surroundings answer and whatever stands in the buffer behind what was read. -/
theorem every_event_answered_once_iff (config : DlpConfig) (fanotifyFd : Int32) (address : Nat)
    (events : List FanotifyEvent) (stale : List UInt8) (E : Surroundings Answer)
    (t : Trace Answer) {fuel : Nat} (hfuel : events.length < fuel) :
    AnswersEach config fanotifyFd address events stale fuel E t ↔ Aligned address events := by
  have hreturns := handleEvents_answers config fanotifyFd address events stale E t hfuel
  constructor
  · intro hanswers
    by_contra haligned
    obtain ⟨ending, t', -, ⟨rfl, -⟩, hmisaligned⟩ := hanswers.and hreturns
    rw [if_neg haligned] at hmisaligned
    cases hmisaligned
  · intro haligned
    refine hreturns.mono fun ending t' h => ?_
    rwa [if_pos haligned] at h

/-- An open with 4 bytes behind its metadata, and an event that tells of an overflow. -/
def twoEvents : List FanotifyEvent :=
  [⟨⟨28, 3, 0, 24, 0x10000, 7, 1234⟩, [1, 2, 3, 4], by decide⟩,
    ⟨⟨24, 3, 0, 24, 0x4000, -1, 0⟩, [], by decide⟩]

/-- The same two in the other order. -/
def overflowFirst : List FanotifyEvent :=
  [⟨⟨24, 3, 0, 24, 0x4000, -1, 0⟩, [], by decide⟩,
    ⟨⟨28, 3, 0, 24, 0x10000, 7, 1234⟩, [1, 2, 3, 4], by decide⟩]

/-- Surroundings in which every file is empty. -/
def quietKernel : Surroundings Answer := fun _ c =>
  match c with
  | .fanotifyInit => (3 : Int32)
  | .fanotifyMark _ _ => (0 : Int32)
  | .read _ _ => none
  | .load _ _ => ()
  | .readLink _ => none
  | .pread _ _ _ => some []
  | .write _ _ => (8 : Int)
  | .close _ => (0 : Int32)
  | .println _ => ()
  | .send _ => true

/-- Two events, the first of which has no descriptor and the second 28 bytes, are answered once. -/
theorem overflow_first_answered_once :
    AnswersEach ⟨fun _ => true⟩ 3 4096 overflowFirst (List.replicate 100 0xFF) 3 quietKernel [] :=
  (every_event_answered_once_iff ⟨fun _ => true⟩ 3 4096 overflowFirst (List.replicate 100 0xFF)
    quietKernel [] (by decide)).2 (by decide)

/-- **Behind an event of 28 bytes the loop does not come to its end.** -/
theorem event_behind_28_bytes_unanswered : ¬ ∀ (config : DlpConfig) (fanotifyFd : Int32)
    (address : Nat) (events : List FanotifyEvent) (stale : List UInt8) (fuel : Nat)
    (E : Surroundings Answer) (t : Trace Answer), (encodeEvents events).length ≤ bufferLen →
      events.length < fuel → AnswersEach config fanotifyFd address events stale fuel E t := by
  intro h
  have hanswers := h ⟨fun _ => true⟩ 3 4096 twoEvents [] 3 quietKernel [] (by decide) (by decide)
  have hreturns := handleEvents_answers ⟨fun _ => true⟩ 3 4096 twoEvents [] quietKernel []
    (show twoEvents.length < 3 by decide)
  obtain ⟨ending, t', -, ⟨rfl, -⟩, hmisaligned⟩ := hanswers.and hreturns
  have haligned : ¬ Aligned 4096 twoEvents := by decide
  rw [if_neg haligned] at hmisaligned
  cases hmisaligned

/-! ## Every round -/

theorem length_le_length_encodeEvents (events : List FanotifyEvent) :
    events.length ≤ (encodeEvents events).length := by
  induction events with
  | nil => exact Nat.le_refl 0
  | cons e events ih =>
    have hlen := e.length_toBytes
    have heventLen := e.eventLen_eq
    rw [encodeEvents_cons, List.length_append, List.length_cons]
    have hpos : 1 ≤ e.toBytes.length := by rw [hlen, heventLen, metadataSize]; omega
    omega

/-- The kernel writes whole events, none of them at an address that is no multiple of 8, or there is
none. -/
def ReadsEvents (E : Surroundings Answer) (address : Nat) : Prop :=
  ∀ t fd count bytes, E t (.read fd count) = some bytes →
    bytes.length ≤ count ∧ ∃ events, bytes = encodeEvents events ∧ Aligned address events

/-- A piece of a trace in which a `read` is made, and every event that it returns is answered
once. -/
def AnswersRead (config : DlpConfig) (fanotifyFd : Int32) (round : Trace Answer) : Prop :=
  round = [⟨.read fanotifyFd bufferLen, none⟩] ∨
  ∃ events pieces, round = ⟨.read fanotifyFd bufferLen, some (encodeEvents events)⟩ ::
      List.flatten pieces ∧
    List.Forall₂ (AnswersOnce config fanotifyFd (encodeEvents events).length)
      (events.map FanotifyEvent.metadata) pieces

theorem monitorRound_returns {address : Nat} (hE : ReadsEvents E address) {fuel : Nat}
    (hfuel : bufferLen < fuel) (buffer : List UInt8) :
    (monitorRound config fanotifyFd address fuel buffer).Returns E t fun next t' =>
      next.isSome ∧ ∃ round, t' = t ++ round ∧ AnswersRead config fanotifyFd round := by
  refine Program.returns_call_bind fun bytesRead hread => ?_
  cases bytesRead with
  | none => exact Program.returns_pure.2 ⟨rfl, _, rfl, Or.inl rfl⟩
  | some bytes =>
    obtain ⟨hlen, events, rfl, haligned⟩ := hE t fanotifyFd bufferLen bytes hread
    have hevents := length_le_length_encodeEvents events
    dsimp only
    split
    · rename_i hzero
      obtain rfl := List.length_eq_zero_iff.1 (Nat.le_zero.1 (hzero ▸ hevents))
      exact Program.returns_pure.2 ⟨rfl, _, rfl, Or.inr ⟨[], [], rfl, List.Forall₂.nil⟩⟩
    · have hbelow : events.length < fuel :=
        Nat.lt_of_le_of_lt (Nat.le_trans hevents hlen) hfuel
      refine Program.returns_bind.2 (Program.Returns.mono
        (handleEvents_answers config fanotifyFd address events _ E _ hbelow) ?_)
      intro ending t' h
      rw [if_pos haligned] at h
      obtain ⟨rfl, pieces, rfl, hpieces⟩ := h
      refine Program.returns_pure.2 ⟨rfl, _, ?_, Or.inr ⟨events, pieces, rfl, hpieces⟩⟩
      rw [List.append_assoc, List.singleton_append]

/-- **In every run, every event of every `read` is answered once.** -/
theorem every_read_answered {address : Nat} (hE : ReadsEvents E address) {fuel : Nat}
    (hfuel : bufferLen < fuel) (rounds : Nat) (buffer : List UInt8) :
    (monitorRounds config fanotifyFd address fuel rounds buffer).Returns E t fun ending t' =>
      ending = .over ∧ ∃ reads, t' = t ++ List.flatten reads ∧ reads.length = rounds ∧
        ∀ round ∈ reads, AnswersRead config fanotifyFd round := by
  induction rounds generalizing t buffer with
  | zero =>
    exact Program.returns_pure.2 ⟨rfl, [], (List.append_nil t).symm, rfl, List.forall_mem_nil _⟩
  | succ rounds ih =>
    refine Program.returns_bind.2 ((monitorRound_returns hE hfuel buffer).mono ?_)
    rintro next _ ⟨hnext, round, rfl, hround⟩
    obtain ⟨buffer', rfl⟩ := Option.isSome_iff_exists.1 hnext
    refine (ih buffer').mono ?_
    rintro _ _ ⟨rfl, reads, rfl, hlen, hreads⟩
    refine ⟨rfl, round :: reads, by rw [List.flatten_cons, List.append_assoc],
      by rw [List.length_cons, hlen], List.forall_mem_cons.2 ⟨hround, hreads⟩⟩

/-- `run_fanotify_monitor` fails at its beginning, or every `read` that it makes is answered. -/
theorem monitor_answers_every_read {address : Nat} (hE : ReadsEvents E address) {fuel : Nat}
    (hfuel : bufferLen < fuel) (rounds : Nat) :
    (runFanotifyMonitor config address fuel rounds).Returns E [] fun result t =>
      (∃ message, result = .error message ∧ t.length ≤ 2) ∨
      ∃ fd start reads, result = .ok .over ∧ t = start ++ List.flatten reads ∧ start.length = 3 ∧
        reads.length = rounds ∧ ∀ round ∈ reads, AnswersRead config fd round := by
  refine Program.returns_call_bind fun fd _ => ?_
  split
  · exact Program.returns_pure.2 (Or.inl ⟨_, rfl, Nat.le_succ 1⟩)
  refine Program.returns_call_bind fun markRes _ => ?_
  split
  · exact Program.returns_pure.2 (Or.inl ⟨_, rfl, Nat.le_refl 2⟩)
  refine Program.returns_call_bind fun _ _ =>
    Program.returns_bind.2 ((every_read_answered hE hfuel rounds _).mono ?_)
  rintro _ _ ⟨rfl, reads, rfl, hlen, hreads⟩
  exact Program.returns_pure.2 (Or.inr ⟨fd, _, reads, rfl, rfl, rfl, hlen, hreads⟩)

end

end RustSamples.DlpFanotify
