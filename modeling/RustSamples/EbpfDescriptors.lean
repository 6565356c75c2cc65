import RustSamples.CallTrace
import RustSamples.EbpfProtect
import RustSamples.Handles
import RustSamples.RustUtf8

/-! # The descriptors of `ebpf_protect`

`check_and_enforce` asks for the next program until there is none, and opens each; a program that is
not in the whitelist goes to `force_unload_bpf_program`, which closes it after the walk over the
pins that `remove_bpf_pins_by_id` makes, and that opens every pin.  Here the functions are programs
that make calls, and the surroundings answer them as they like.  Of the ids it is assumed that they
increase, or the loop has no end.

The kernel gives the number of a descriptor again when it is closed.  Which one is meant is told by
the place of the call that returned it, which the program does not know and never looks at.

A walk is one call, which is answered with the entries, `none` for an error; the descriptors of the
directories are the library's own.  What goes to the console is left out.  In the log of the system
a path stands as `{:?}` prints it; here a record has the path itself.
-/
namespace RustSamples.EbpfDescriptors
open RustStr CallTrace Handles
open RustSamples.EbpfProtect (WhitelistKey whitelistMapPinPath)

/-- A descriptor, and how many calls were made before the one that returned it. -/
structure Descriptor where
  number : Int32
  openedAt : Nat
  deriving DecidableEq

/-- `bpf_prog_info`, as far as it is read. -/
structure BpfProgInfo where
  type : UInt32
  id : UInt32
  name : List UInt8

/-- What is written to the log of the system. -/
inductive LogRecord
  | crit (alertMsg : String)
  /-- `EBPF_FW_ERROR: Failed to delete pin {:?}` -/
  | err (path : List UInt8)
  /-- `EBPF_FW_CLEANUP: Unpinned path {:?}` -/
  | notice (path : List UInt8)
  | warning (mitigateMsg : String)

inductive Call
  | bpfProgGetNextId (id : UInt32)
  | bpfProgGetFdById (id : UInt32)
  | bpfObjGet (path : List UInt8)
  | bpfObjGetInfoByFd (fd : Descriptor)
  | bpfProgDetach (fd : Descriptor)
  | bpfMapLookupElem (mapFd : Int32) (key : WhitelistKey)
  | close (fd : Descriptor)
  | walkDir (root : String)
  | isFile (path : List UInt8)
  | removeFile (path : List UInt8)
  | syslog (record : LogRecord)

/-- `none` for an id, if the result is not zero; what has no result but success is a `Bool`. -/
@[reducible]
def Answer : Call → Type
  | .bpfProgGetNextId _ => Option UInt32
  | .bpfProgGetFdById _ => Int32
  | .bpfObjGet _ => Int32
  | .bpfObjGetInfoByFd _ => Int32 × BpfProgInfo
  | .bpfProgDetach _ => Int32
  | .bpfMapLookupElem _ _ => Int
  | .close _ => Int32
  | .walkDir _ => List (Option (List UInt8))
  | .isFile _ => Bool
  | .removeFile _ => Bool
  | .syslog _ => Bool

abbrev Service := Program Answer

/-- `BPF_FS_PATH`. -/
def bpfFsPath : String := "/sys/fs/bpf"

/-- `BPF_OBJ_NAME_LEN`. -/
def bpfObjNameLen : Nat := 16

/-- A call that returns a descriptor. -/
def openBy (c : Call) (number : Answer c → Int32) : Service Descriptor := do
  let openedAt ← Program.position
  let result ← Program.call c
  pure ⟨number result, openedAt⟩

def bpfProgGetFdById (id : UInt32) : Service Descriptor :=
  openBy (.bpfProgGetFdById id) fun number => number

def bpfObjGet (path : List UInt8) : Service Descriptor :=
  openBy (.bpfObjGet path) fun number => number

def close (fd : Descriptor) : Service Unit := do
  let _ ← Program.call (.close fd)
  pure ()

def syslog (record : LogRecord) : Service Unit := do
  let _ ← Program.call (.syslog record)
  pure ()

/-- A pin of the program is removed. -/
def removeIfPinned (progId : UInt32) (path : List UInt8) (infoRes : Int32) (info : BpfProgInfo) :
    Service Unit :=
  if infoRes = 0 ∧ info.id = progId then do
    let removed ← Program.call (Call.removeFile path)
    syslog (if removed = true then .notice path else .err path)
  else pure ()

/-- A file in the walk of `remove_bpf_pins_by_id`.  A path with a zero in it is no C string. -/
def checkPin (progId : UInt32) (path : List UInt8) : Service Unit :=
  if fromUtf8Lossy path = whitelistMapPinPath.toList then pure ()
  else if 0 ∈ path then pure ()
  else do
    let fd ← bpfObjGet path
    if fd.number < 0 then pure ()
    else do
      let answer ← Program.call (Call.bpfObjGetInfoByFd fd)
      removeIfPinned progId path answer.1 answer.2
      close fd

/-- `remove_bpf_pins_by_id`. -/
def removeBpfPinsById (progId : UInt32) : Service Unit := do
  let entries ← Program.call (Call.walkDir bpfFsPath)
  Program.forEach (fun path => do
    let file ← Program.call (Call.isFile path)
    if file = true then checkPin progId path else pure ()) (entries.filterMap id)

/-- `is_prog_allowed`. -/
def isProgAllowed (mapFd : Int32) (name : List Char) (progType : UInt32) : Service Bool := do
  let res ← Program.call (Call.bpfMapLookupElem mapFd
    ⟨progType, (utf8 name).take (min (utf8 name).length (bpfObjNameLen - 1)) ++
      List.replicate (bpfObjNameLen - min (utf8 name).length (bpfObjNameLen - 1)) 0⟩)
  pure (decide (res = 0))

/-- `force_unload_bpf_program`. -/
def forceUnloadBpfProgram (fd : Descriptor) (id : UInt32) : Service Unit := do
  let _ ← Program.call (.bpfProgDetach fd)
  removeBpfPinsById id
  close fd

/-- A program that is not allowed is reported and unloaded. -/
def enforce (mapFd : Int32) (id : UInt32) (fd : Descriptor) (progName : List Char)
    (progType : UInt32) : Service Unit := do
  let allowed ← isProgAllowed mapFd progName progType
  if allowed = true then close fd
  else do
    syslog (.crit ("SECURITY_ALERT: Unauthorized eBPF program detected! ID=" ++ toString id ++
      ", Name='" ++ String.ofList progName ++ "', Type=" ++ toString progType ++
      ". Action: Force Unload."))
    forceUnloadBpfProgram fd id
    syslog (.warning ("eBPF program ID=" ++ toString id ++ " has been purged .."))

/-- A program in the loop of `check_and_enforce`. -/
def checkProgram (mapFd : Int32) (id : UInt32) : Service Unit := do
  let fd ← bpfProgGetFdById id
  if fd.number < 0 then pure ()
  else do
    let answer ← Program.call (Call.bpfObjGetInfoByFd fd)
    if answer.1 ≠ 0 then close fd
    else enforce mapFd id fd (fromUtf8Lossy (answer.2.name.takeWhile (· ≠ 0))) answer.2.type

/-- A round of the loop in `check_and_enforce`, and the id behind which the next one looks. -/
def checkNext (mapFd : Int32) (id : UInt32) : Service (Option UInt32) := do
  let next ← Program.call (Call.bpfProgGetNextId id)
  match next with
  | none => pure none
  | some nextId => do
      checkProgram mapFd nextId
      pure (some nextId)

/-- `check_and_enforce`. -/
def checkAndEnforce (mapFd : Int32) (fuel : Nat) : Service Unit :=
  Program.loop (checkNext mapFd) fuel 0

/-! ## What happens to descriptors -/

/-- A descriptor that is returned, if it is not negative. -/
def opened (number : Int32) (openedAt : Nat) : List (Op Descriptor) :=
  if number < 0 then [] else [.opened ⟨number, openedAt⟩]

/-- What a call does to descriptors, if `i` calls were made before. -/
def opsAt (i : Nat) : Event Answer → List (Op Descriptor)
  | ⟨.bpfProgGetFdById _, number⟩ => opened number i
  | ⟨.bpfObjGet _, number⟩ => opened number i
  | ⟨.bpfObjGetInfoByFd fd, _⟩ => [.used fd]
  | ⟨.bpfProgDetach fd, _⟩ => [.used fd]
  | ⟨.close fd, _⟩ => [.closed fd]
  | ⟨.bpfProgGetNextId _, _⟩ => []
  | ⟨.bpfMapLookupElem _ _, _⟩ => []
  | ⟨.walkDir _, _⟩ => []
  | ⟨.isFile _, _⟩ => []
  | ⟨.removeFile _, _⟩ => []
  | ⟨.syslog _, _⟩ => []

/-- What happens to descriptors in a trace. -/
def descriptorOps (t : Trace Answer) : List (Op Descriptor) :=
  t.zipIdx.flatMap fun e => opsAt e.2 e.1

theorem descriptorOps_concat (t : Trace Answer) (e : Event Answer) :
    descriptorOps (t ++ [e]) = descriptorOps t ++ opsAt t.length e := by
  rw [descriptorOps, List.zipIdx_append, List.flatMap_append, Nat.zero_add]
  exact congrArg _ (List.append_nil _)

/-- What is opened by a call has its place. -/
theorem eq_of_opened_mem_opsAt {i : Nat} {e : Event Answer} {d : Descriptor}
    (h : .opened d ∈ opsAt i e) : d.openedAt = i ∧ (opsAt i e).count (.opened d) = 1 := by
  have hopened {number : Int32} (h : .opened d ∈ opened number i) :
      d.openedAt = i ∧ (opened number i).count (.opened d) = 1 := by
    unfold opened at h ⊢
    split at h
    · cases h
    · rename_i hneg
      obtain rfl := Op.opened.inj (List.mem_singleton.1 h)
      rw [if_neg hneg]
      exact ⟨rfl, List.count_singleton_self⟩
  unfold opsAt at h ⊢
  split at h
  · exact hopened h
  · exact hopened h
  all_goals simp at h

theorem openedAt_lt {t : Trace Answer} {d : Descriptor} (h : .opened d ∈ descriptorOps t) :
    d.openedAt < t.length := by
  obtain ⟨⟨e, i⟩, he, hd⟩ := List.mem_flatMap.1 h
  rw [(eq_of_opened_mem_opsAt hd).1]
  simpa using List.snd_lt_of_mem_zipIdx he

/-- **No descriptor is opened twice.** -/
theorem count_opened_le_one (t : Trace Answer) (d : Descriptor) :
    (descriptorOps t).count (.opened d) ≤ 1 := by
  induction t using List.reverseRecOn with
  | nil => exact Nat.zero_le 1
  | append_singleton t e ih =>
    rw [descriptorOps_concat, List.count_append]
    by_cases he : .opened d ∈ opsAt t.length e
    · obtain ⟨hplace, hcount⟩ := eq_of_opened_mem_opsAt he
      have hnew : (descriptorOps t).count (.opened d) = 0 :=
        List.count_eq_zero.2 fun hmem => Nat.ne_of_lt (openedAt_lt hmem) hplace
      rw [hnew, hcount]
    · rw [List.count_eq_zero.2 he]
      exact ih

/-- The descriptors that are open after a trace. -/
def Owns (t : Trace Answer) (live : List Descriptor) : Prop :=
  table.run [] (descriptorOps t) = some live

theorem owns_nil : Owns [] [] := rfl

theorem Owns.concat {t : Trace Answer} {live live' : List Descriptor} {e : Event Answer}
    (h : Owns t live) (hrun : table.run live (opsAt t.length e) = some live') :
    Owns (t ++ [e]) live' := by
  rw [Owns, descriptorOps_concat, Scheduling.Machine.run_append, h]
  exact hrun

theorem run_opened (live : List Descriptor) (number : Int32) (i : Nat) :
    table.run live (opened number i) =
      some (if number < 0 then live else ⟨number, i⟩ :: live) := by
  unfold opened
  split <;> rfl

/-! ## A pass -/

section
variable {E : Surroundings Answer} {t : Trace Answer} {live : List Descriptor} {fd : Descriptor}

/-- What is returned is owned, unless it is negative. -/
theorem openBy_returns (h : Owns t live) {c : Call} {number : Answer c → Int32}
    (hops : ∀ result i, opsAt i ⟨c, result⟩ = opened (number result) i) :
    (openBy c number).Returns E t fun fd t' =>
      Owns t' (if fd.number < 0 then live else fd :: live) := by
  refine Program.returns_bind.2 (Program.returns_position.2 ?_)
  refine Program.returns_call_bind fun result _ => Program.returns_pure.2 (h.concat ?_)
  rw [hops]
  exact run_opened live (number result) t.length

theorem close_returns (h : Owns t (fd :: live)) :
    (close fd).Returns E t fun _ t' => Owns t' live :=
  Program.returns_call_bind fun _ _ => Program.returns_pure.2 (h.concat (run_closed fd live))

theorem syslog_returns (h : Owns t live) (record : LogRecord) :
    (syslog record).Returns E t fun _ t' => Owns t' live :=
  Program.returns_call_bind fun _ _ => Program.returns_pure.2 (h.concat rfl)

theorem removeIfPinned_returns (h : Owns t live) (progId : UInt32) (path : List UInt8)
    (infoRes : Int32) (info : BpfProgInfo) :
    (removeIfPinned progId path infoRes info).Returns E t fun _ t' => Owns t' live := by
  unfold removeIfPinned
  split
  · exact Program.returns_call_bind fun removed _ => syslog_returns (h.concat rfl) _
  · exact Program.returns_pure.2 h

/-- What is opened for a pin is closed. -/
theorem checkPin_returns (h : Owns t live) (progId : UInt32) (path : List UInt8) :
    (checkPin progId path).Returns E t fun _ t' => Owns t' live := by
  unfold checkPin
  split
  · exact Program.returns_pure.2 h
  split
  · exact Program.returns_pure.2 h
  refine Program.returns_bind.2 ((openBy_returns h fun _ _ => rfl).mono fun fd t' h' => ?_)
  split
  · rename_i hneg
    rw [if_pos hneg] at h'
    exact Program.returns_pure.2 h'
  · rename_i hneg
    rw [if_neg hneg] at h'
    refine Program.returns_call_bind fun answer _ => Program.returns_bind.2 ?_
    have hused := h'.concat (e := ⟨.bpfObjGetInfoByFd fd, answer⟩) (run_used List.mem_cons_self)
    exact (removeIfPinned_returns hused progId path answer.1 answer.2).mono fun _ _ h'' =>
      close_returns h''

theorem removeBpfPinsById_returns (h : Owns t live) (progId : UInt32) :
    (removeBpfPinsById progId).Returns E t fun _ t' => Owns t' live := by
  refine Program.returns_call_bind fun entries _ => ?_
  refine Program.returns_forEach (I := fun t => Owns t live) (fun path _ t ht => ?_) (h.concat rfl)
  refine Program.returns_call_bind fun file _ => ?_
  split
  · exact checkPin_returns (ht.concat rfl) progId path
  · exact Program.returns_pure.2 (ht.concat rfl)

theorem isProgAllowed_returns (h : Owns t live) (mapFd : Int32) (name : List Char)
    (progType : UInt32) :
    (isProgAllowed mapFd name progType).Returns E t fun _ t' => Owns t' live :=
  Program.returns_call_bind fun _ _ => Program.returns_pure.2 (h.concat rfl)

/-- The descriptor that is handed over is closed. -/
theorem forceUnloadBpfProgram_returns (h : Owns t (fd :: live)) (id : UInt32) :
    (forceUnloadBpfProgram fd id).Returns E t fun _ t' => Owns t' live := by
  refine Program.returns_call_bind fun detached _ => Program.returns_bind.2 ?_
  have hused := h.concat (e := ⟨.bpfProgDetach fd, detached⟩) (run_used List.mem_cons_self)
  exact (removeBpfPinsById_returns hused id).mono fun _ _ h' => close_returns h'

theorem enforce_returns (h : Owns t (fd :: live)) (mapFd : Int32) (id : UInt32)
    (progName : List Char) (progType : UInt32) :
    (enforce mapFd id fd progName progType).Returns E t fun _ t' => Owns t' live := by
  refine Program.returns_bind.2 ((isProgAllowed_returns h mapFd progName progType).mono ?_)
  intro allowed t₁ h₁
  split
  · exact close_returns h₁
  · refine Program.returns_bind.2 ((syslog_returns h₁ _).mono fun _ t₂ h₂ => ?_)
    refine Program.returns_bind.2 ((forceUnloadBpfProgram_returns h₂ id).mono fun _ t₃ h₃ => ?_)
    exact syslog_returns h₃ _

/-- What is opened for a program is closed. -/
theorem checkProgram_returns (h : Owns t live) (mapFd : Int32) (id : UInt32) :
    (checkProgram mapFd id).Returns E t fun _ t' => Owns t' live := by
  refine Program.returns_bind.2 ((openBy_returns h fun _ _ => rfl).mono fun fd t' h' => ?_)
  split
  · rename_i hneg
    rw [if_pos hneg] at h'
    exact Program.returns_pure.2 h'
  · rename_i hneg
    rw [if_neg hneg] at h'
    refine Program.returns_call_bind fun answer _ => ?_
    have hused := h'.concat (e := ⟨.bpfObjGetInfoByFd fd, answer⟩) (run_used List.mem_cons_self)
    split
    · exact close_returns hused
    · exact enforce_returns hused mapFd id _ _

/-- The ids that `bpf_prog_get_next_id` gives are greater than those that it is asked with. -/
def IdsIncrease (E : Surroundings Answer) : Prop :=
  ∀ t id next, E t (.bpfProgGetNextId id) = some next → id < next

/-- A pass comes to an end, with the descriptors that were open before. -/
theorem checkAndEnforce_returns (hids : IdsIncrease E) (h : Owns t live) (mapFd : Int32)
    {fuel : Nat} (hfuel : UInt32.size ≤ fuel) :
    (checkAndEnforce mapFd fuel).Returns E t fun _ t' => Owns t' live := by
  have hsize : 0 < UInt32.size := by decide
  refine Program.returns_loop (I := fun _ t => Owns t live) (fun id => UInt32.size - 1 - id.toNat)
    (fun id t ht => ?_) h (Nat.lt_of_lt_of_le ?_ hfuel)
  · refine Program.returns_call_bind fun next hnext => ?_
    cases next with
    | none => exact Program.returns_pure.2 (ht.concat rfl)
    | some nextId =>
      refine Program.returns_bind.2 ((checkProgram_returns (ht.concat rfl) mapFd nextId).mono ?_)
      intro _ t' ht'
      have hlt := UInt32.lt_iff_toNat_lt.1 (hids t id nextId hnext)
      have hbound := nextId.toNat_lt_size
      exact Program.returns_pure.2 ⟨ht', by omega⟩
  · omega

/-- **Every descriptor of a pass is closed once, and not used afterwards**, whatever the kernel
answers and whatever the walk finds, if only the ids increase. -/
theorem descriptors_balanced (hids : IdsIncrease E) (mapFd : Int32) {fuel : Nat}
    (hfuel : UInt32.size ≤ fuel) :
    (checkAndEnforce mapFd fuel).Returns E [] fun _ t => WellUsed (descriptorOps t) :=
  (checkAndEnforce_returns hids owns_nil mapFd hfuel).mono fun _ t ht =>
    wellUsed_of_run (count_opened_le_one t) ht

/-- Program 5 is pinned and not in the whitelist. -/
def onePinnedProgram : Surroundings Answer := fun _ c =>
  match c with
  | .bpfProgGetNextId id => if id < 5 then some 5 else none
  | .bpfProgGetFdById _ => (7 : Int32)
  | .bpfObjGet _ => (8 : Int32)
  | .bpfObjGetInfoByFd _ => ((0 : Int32), ⟨2, 5, utf8 "evil".toList ++ List.replicate 12 0⟩)
  | .bpfProgDetach _ => (0 : Int32)
  | .bpfMapLookupElem _ _ => (-1 : Int)
  | .close _ => (0 : Int32)
  | .walkDir _ => [some (utf8 "/sys/fs/bpf/evil".toList), none]
  | .isFile _ => true
  | .removeFile _ => true
  | .syslog _ => true

theorem idsIncrease_onePinnedProgram : IdsIncrease onePinnedProgram := by
  intro t id next h
  have hnext : (if id < 5 then some 5 else none) = some next := h
  split at hnext
  · rename_i hlt
    rwa [← Option.some.inj hnext]
  · cases hnext

theorem descriptors_of_one_pass_balanced :
    (checkAndEnforce 3 UInt32.size).Returns onePinnedProgram [] fun _ t =>
      WellUsed (descriptorOps t) :=
  descriptors_balanced idsIncrease_onePinnedProgram 3 (Nat.le_refl _)

end

/-- The passes that `main` makes, of which there is no last one. -/
def passes (mapFd : Int32) (fuel n : Nat) : Service Unit :=
  Program.forEach (fun _ => checkAndEnforce mapFd fuel) (List.range n)

/-- **After any number of passes every descriptor is closed.** -/
theorem passes_balanced {E : Surroundings Answer} (hids : IdsIncrease E) (mapFd : Int32)
    {fuel : Nat} (hfuel : UInt32.size ≤ fuel) (n : Nat) :
    (passes mapFd fuel n).Returns E [] fun _ t => WellUsed (descriptorOps t) := by
  refine (Program.returns_forEach (I := fun t => Owns t []) (fun _ _ t ht => ?_) owns_nil).mono
    fun _ t ht => wellUsed_of_run (count_opened_le_one t) ht
  exact checkAndEnforce_returns hids ht mapFd hfuel

end RustSamples.EbpfDescriptors
