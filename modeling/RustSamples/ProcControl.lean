import RustSamples.RustUtf8

/-! # The file names of `proc-control`

A tracepoint of `proc-control-ebpf` reserves a record of the ring buffer, fills it in and submits
it; the reader in `proc-control` takes the record as a `ProcessEvent` and prints it.

A reserved record still has the bytes of an event that was there before.  `init_event` writes all
fields but the file name.  `bpf_probe_read_user_str` writes the name with a NUL behind it, and
nothing behind the NUL; without a name nothing is written at all.  The reader decodes all 64 bytes
and trims NULs at both ends, but does not stop at the first.  So the name is right exactly if what
the tracepoint did not write is zero (`reported_filename_iff`).

The kernel's helpers are `Helpers`.  The name in the ring buffer is what the helper leaves there.
-/
namespace RustSamples.ProcControl
open RustStr

/-! ## Events -/

/-- `[u8; n]`. -/
abbrev Bytes (n : Nat) := { bs : List UInt8 // bs.length = n }

def eventExec : UInt32 := 1

def eventOpen : UInt32 := 2

def eventMemfd : UInt32 := 3

structure ProcessEvent where
  pid : UInt32
  tgid : UInt32
  eventType : UInt32
  comm : Bytes 16
  filename : Bytes 64
  deriving DecidableEq

/-! ## The tracepoints -/

/-- What the kernel's helpers return, and what they leave in their destination. -/
structure Helpers where
  getCurrentPidTgid : UInt64
  getCurrentComm : Bytes 16 → Bytes 16
  probeReadUserStr : UInt64 → Bytes 64 → Bytes 64

/-- `TracePointContext`: what can be read at an offset of the arguments. -/
structure TracePointContext where
  readAt : Nat → Option UInt64

/-- `init_event`, of the record that was reserved; `none` if there was no room. -/
def initEvent (h : Helpers) (eventType : UInt32) (reserved : Option ProcessEvent) :
    Option ProcessEvent :=
  reserved.map fun entry => { entry with
    eventType := eventType
    pid := (h.getCurrentPidTgid >>> 32).toUInt32
    tgid := h.getCurrentPidTgid.toUInt32
    comm := h.getCurrentComm entry.comm }

/-- What the three tracepoints do: the event that is submitted, with the string that the argument at
`offset` points to. -/
def sysEnter (eventType : UInt32) (offset : Nat) (h : Helpers) (ctx : TracePointContext)
    (reserved : Option ProcessEvent) : Option ProcessEvent :=
  (initEvent h eventType reserved).map fun entry =>
    let filenamePtr := (ctx.readAt offset).getD 0
    if filenamePtr ≠ 0 then
      { entry with filename := h.probeReadUserStr filenamePtr entry.filename }
    else entry

/-- `sys_enter_execve`. -/
def sysEnterExecve := sysEnter eventExec 8

/-- `sys_enter_openat`. -/
def sysEnterOpenat := sysEnter eventOpen 16

/-- `sys_enter_memfd_create`. -/
def sysEnterMemfdCreate := sysEnter eventMemfd 8

/-! ## The reader -/

/-- `String::from_utf8_lossy(..).trim_matches('\0')`. -/
def decodeField (bytes : List UInt8) : List Char := trimMatches (· == '\x00') (fromUtf8Lossy bytes)

def ProcessEvent.decodedFilename (e : ProcessEvent) : List Char := decodeField e.filename.val

/-- The line that is printed for an event, if any. -/
def ProcessEvent.report (e : ProcessEvent) : Option (List Char) :=
  let pid := (toString e.pid).toList
  let comm := decodeField e.comm.val
  let filename := e.decodedFilename
  if e.eventType = eventExec then
    some ("[EXEC] PID: ".toList ++ pid ++ " | Process: ".toList ++ comm ++
      " launched a command: ".toList ++ filename)
  else if e.eventType = eventOpen then
    some ("[OPEN] PID: ".toList ++ pid ++ " | Process: ".toList ++ comm ++
      " opened file: ".toList ++ filename)
  else if e.eventType = eventMemfd then
    some ("[MEMFD] PID: ".toList ++ pid ++ " | Process: ".toList ++ comm ++
      " is attempting to create a RAM file: ".toList ++ filename)
  else none

/-! ## Which names arrive -/

inductive Tracepoint
  | execve
  | openat
  | memfdCreate
  deriving DecidableEq

def Tracepoint.handle : Tracepoint → Helpers → TracePointContext → Option ProcessEvent →
    Option ProcessEvent
  | .execve => sysEnterExecve
  | .openat => sysEnterOpenat
  | .memfdCreate => sysEnterMemfdCreate

/-- Where the code reads the pointer to the name. -/
def Tracepoint.offset : Tracepoint → Nat
  | .execve => 8
  | .openat => 16
  | .memfdCreate => 8

/-- A file name: ASCII, not empty, and without NUL. -/
structure IsFileName (name : List UInt8) : Prop where
  nonempty : name ≠ []
  ascii : ∀ b ∈ name, 0 < b.toNat ∧ b.toNat < 0x80

/-- At most 63 bytes of the string and a NUL, in front of what was there. -/
def copyUserStr (name : List UInt8) (dest : Bytes 64) : Bytes 64 :=
  ⟨name.take 63 ++ 0 :: dest.val.drop (min 63 name.length + 1), by
    have hdest := dest.property
    simp only [List.length_append, List.length_take, List.length_cons, List.length_drop]
    omega⟩

/-- **What is assumed of a call**: at the offset where the code reads the name pointer, the record
of the tracepoint has a null pointer, or one to a file name that can be read.  How the kernel lays
out this record is not in the code. -/
inductive NameArgument (h : Helpers) (ctx : TracePointContext) (offset : Nat) :
    Option (List UInt8) → Prop
  | null (hnull : (ctx.readAt offset).getD 0 = 0) : NameArgument h ctx offset none
  | name {ptr : UInt64} {name : List UInt8} (hptr : ctx.readAt offset = some ptr) (hne : ptr ≠ 0)
      (hname : IsFileName name)
      (hread : ∀ dest, h.probeReadUserStr ptr dest = copyUserStr name dest) :
      NameArgument h ctx offset (some name)

/-- The name that the reader is to see. -/
def expectedName : Option (List UInt8) → List UInt8
  | none => []
  | some name => name.take 63

/-- How many bytes of the field are written. -/
def writtenBytes : Option (List UInt8) → Nat
  | none => 0
  | some name => min 63 name.length + 1

/-- ASCII as text. -/
def asciiText (bytes : List UInt8) : List Char := bytes.map fun b => Char.ofNat b.toNat

/-- A name is decoded as it is exactly if only zeros follow. -/
theorem decodeField_append_eq_iff {front rest : List UInt8}
    (hfront : ∀ b ∈ front, 0 < b.toNat ∧ b.toNat < 0x80) :
    decodeField (front ++ rest) = asciiText front ↔ ∀ b ∈ rest, b = 0 := by
  have hnul : ∀ c ∈ asciiText front, (c == '\x00') = false := by
    intro c hc
    obtain ⟨b, hb, rfl⟩ := List.mem_map.1 hc
    obtain ⟨hpos, hascii⟩ := hfront b hb
    have hvalid : b.toNat.isValidChar := Or.inl (Nat.lt_trans hascii (by decide))
    rw [beq_eq_false_iff_ne]
    intro hzero
    have hvalue := toNat_ofNat_of_isValidChar hvalid
    rw [hzero] at hvalue
    exact absurd hvalue (Nat.ne_of_lt hpos)
  rw [decodeField, fromUtf8Lossy_ascii_append fun b hb => (hfront b hb).2, ← asciiText,
    trimMatches_append_eq_iff hnul, ← fromUtf8Lossy_nul_iff]
  simp only [beq_iff_eq]

/-- The three tracepoints differ in the type of the event and in the argument. -/
theorem Tracepoint.handle_eq (t : Tracepoint) :
    ∃ eventType, t.handle = sysEnter eventType t.offset := by
  cases t with
  | execve => exact ⟨eventExec, rfl⟩
  | openat => exact ⟨eventOpen, rfl⟩
  | memfdCreate => exact ⟨eventMemfd, rfl⟩

/-- The file name of the submitted event: the name with its NUL, and what was there behind it. -/
theorem filename_of_handle (t : Tracepoint) {h : Helpers} {ctx : TracePointContext}
    {argument : Option (List UInt8)} (hargument : NameArgument h ctx t.offset argument)
    (prev : ProcessEvent) : ∃ e, t.handle h ctx (some prev) = some e ∧
      ∃ nul : List UInt8, (∀ b ∈ nul, b = 0) ∧ e.filename.val =
        expectedName argument ++ (nul ++ prev.filename.val.drop (writtenBytes argument)) := by
  obtain ⟨eventType, hhandle⟩ := t.handle_eq
  rw [hhandle, sysEnter, initEvent, Option.map_some, Option.map_some]
  refine ⟨_, rfl, ?_⟩
  cases hargument with
  | null hnull =>
    refine ⟨[], List.forall_mem_nil _, ?_⟩
    simp only [hnull, ne_eq, not_true_eq_false, if_false]
    rfl
  | name hptr hne hname hread =>
    refine ⟨[0], List.forall_mem_singleton.2 rfl, ?_⟩
    simp only [hptr, Option.getD_some, ne_eq, hne, not_false_eq_true, if_true, hread]
    rfl

theorem ascii_of_nameArgument {h : Helpers} {ctx : TracePointContext} {offset : Nat}
    {argument : Option (List UInt8)} (hargument : NameArgument h ctx offset argument) :
    ∀ b ∈ expectedName argument, 0 < b.toNat ∧ b.toNat < 0x80 := by
  cases hargument with
  | null hnull => exact List.forall_mem_nil _
  | name hptr hne hname hread => exact fun b hb => hname.ascii b (List.mem_of_mem_take hb)

/-- **The reported name is right if and only if** the record was zero where the call does not write:
behind the NUL of the name, or in the whole field if the pointer is null. -/
theorem reported_filename_iff (t : Tracepoint) {h : Helpers} {ctx : TracePointContext}
    {argument : Option (List UInt8)} (hargument : NameArgument h ctx t.offset argument)
    (prev : ProcessEvent) :
    (t.handle h ctx (some prev)).map ProcessEvent.decodedFilename =
        some (asciiText (expectedName argument)) ↔
      ∀ b ∈ prev.filename.val.drop (writtenBytes argument), b = 0 := by
  obtain ⟨e, he, nul, hnul, hfilename⟩ := filename_of_handle t hargument prev
  rw [he, Option.map_some, Option.some.injEq, ProcessEvent.decodedFilename, hfilename,
    decodeField_append_eq_iff (ascii_of_nameArgument hargument), List.forall_mem_append]
  exact and_iff_right hnul

/-! ### A slot that is used again -/

def pythonPath : List UInt8 := asBytes "/usr/bin/python3"

def lsPath : List UInt8 := asBytes "/bin/ls"

def zeros (n : Nat) : Bytes n := ⟨List.ofFn fun _ : Fin n => 0, List.length_ofFn⟩

/-- User memory with two strings. -/
def twoStrings : Helpers where
  getCurrentPidTgid := 0x0000002a0000002a
  getCurrentComm _ := ⟨asBytes "bash" ++ List.replicate 12 0, by decide⟩
  probeReadUserStr ptr dest :=
    if ptr = 0x1000 then copyUserStr pythonPath dest
    else if ptr = 0x2000 then copyUserStr lsPath dest
    else zeros 64

/-- Arguments that are all this value. -/
def argumentsAt (value : UInt64) : TracePointContext := ⟨fun _ => some value⟩

/-- A record that was never used. -/
def freshRecord : ProcessEvent := ⟨0, 0, 0, zeros 16, zeros 64⟩

/-- What the slot holds when `python3` has been launched. -/
def usedRecord : Option ProcessEvent :=
  sysEnterExecve twoStrings (argumentsAt 0x1000) (some freshRecord)

theorem ascii_lsPath : lsPath.all (fun b => decide (0 < b.toNat ∧ b.toNat < 0x80)) = true := by
  decide

theorem nameArgument_ls (offset : Nat) :
    NameArgument twoStrings (argumentsAt 0x2000) offset (some lsPath) :=
  .name rfl (by decide)
    ⟨by decide, fun _ hb => of_decide_eq_true (List.all_eq_true.1 ascii_lsPath _ hb)⟩
    fun _ => rfl

/-- In a fresh slot the name is right. -/
theorem fresh_slot_reports_ls :
    (sysEnterExecve twoStrings (argumentsAt 0x2000) (some freshRecord)).map
      ProcessEvent.decodedFilename = some "/bin/ls".toList :=
  (reported_filename_iff .execve (nameArgument_ls 8) freshRecord).2 fun b hb => by
    obtain ⟨_, rfl⟩ := List.mem_ofFn.1 (List.mem_of_mem_drop hb)
    rfl

/-- In the slot of the longer name its end is still there, and so is all of it without a name. -/
theorem used_slot_reports_both_names :
    NameArgument twoStrings (argumentsAt 0x2000) 8 (some lsPath) ∧
      (sysEnterExecve twoStrings (argumentsAt 0x2000) usedRecord).map
        ProcessEvent.decodedFilename = some "/bin/ls\x00/python3".toList ∧
      NameArgument twoStrings (argumentsAt 0) 16 none ∧
      (sysEnterOpenat twoStrings (argumentsAt 0) usedRecord).map
        ProcessEvent.decodedFilename = some "/usr/bin/python3".toList :=
  ⟨nameArgument_ls 8, by decide, .null rfl, by decide⟩

end RustSamples.ProcControl
