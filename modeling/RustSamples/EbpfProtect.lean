import Mathlib.Data.List.Nodup
import RustSamples.RustStr

/-! # One pass of `ebpf_protect`

`check_and_enforce` goes through the loaded eBPF programs by increasing id.  A program whose
type and name are not in the whitelist is unloaded, and its pin files are removed: the walk
over the BPF file system opens every pin, asks the kernel for the object's info, and removes
the file if the id in the info is the program's.

The info is read as that of a program, whatever is pinned there.  All info structures begin
with a type and an id, but programs, maps and links have ids of their own: a map or a link
whose number happens to be that of an offending program loses its pin.
`removes_only_offenders_pins_iff` says that this is the only way in which a pass goes wrong.

The kernel is a value: the programs in the order of their ids, the whitelist map, and the
pins with their paths.  Names are texts of at most 15 bytes, as the kernel keeps them.
-/
namespace RustSamples.EbpfProtect
open RustStr

/-- `WHITELIST_MAP_PIN_PATH`. -/
def whitelistMapPinPath : String := "/sys/fs/bpf/fw_whitelist_map"

/-- `WhitelistKey`: the name is padded with zeros to 16 bytes. -/
structure WhitelistKey where
  progType : UInt32
  name : List UInt8
  deriving DecidableEq

/-- A loaded program.  `opens` and `infoSucceeds` are how `bpf_prog_get_fd_by_id` and
`bpf_obj_get_info_by_fd` end for it. -/
structure Program where
  id : UInt32
  type : UInt32
  name : List Char
  opens : Bool
  infoSucceeds : Bool
  deriving DecidableEq

/-- What is pinned under a path. -/
inductive Object
  | program (id : UInt32)
  | map (type id : UInt32)
  | link (type id : UInt32)
  deriving DecidableEq

/-- The `id` field of the info that the kernel fills in. -/
def Object.infoId : Object → UInt32
  | .program id => id
  | .map _ id => id
  | .link _ id => id

structure Pin where
  path : String
  object : Object
  deriving DecidableEq

structure Kernel where
  programs : List Program
  whitelist : WhitelistKey → Bool
  pins : List Pin
  /-- the order of `bpf_prog_get_next_id`; ids begin with 1 -/
  increasing : programs.Pairwise fun p q => p.id < q.id
  positive : ∀ p ∈ programs, 0 < p.id
  names : ∀ p ∈ programs, (utf8 p.name).length ≤ 15
  /-- the kernel gives the info of what is pinned -/
  infos : ∀ pin ∈ pins, ∀ p ∈ programs, pin.object = .program p.id → p.infoSucceeds = true

/-- The key of a type and a name. -/
def whitelistKey (progType : UInt32) (name : List Char) : WhitelistKey :=
  ⟨progType, utf8 name ++ List.replicate (16 - (utf8 name).length) 0⟩

namespace Kernel
variable (k : Kernel)

/-- The type and the name of the program are in the whitelist. -/
def Whitelisted (p : Program) : Prop := k.whitelist (whitelistKey p.type p.name) = true

instance (p : Program) : Decidable (k.Whitelisted p) := inferInstanceAs (Decidable (_ = _))

/-- `is_prog_allowed`: at most 15 bytes of the name go into the key. -/
def isProgAllowed (name : List Char) (progType : UInt32) : Bool :=
  let len := min (utf8 name).length 15
  k.whitelist ⟨progType, (utf8 name).take len ++ List.replicate (16 - len) 0⟩

/-- `bpf_prog_get_next_id`, with the program it finds. -/
def getNext (id : UInt32) : Option Program := k.programs.find? fun p => id < p.id

end Kernel

/-- `remove_bpf_pins_by_id`: what is left of the pins. -/
def removeBpfPinsById (progId : UInt32) (pins : List Pin) : List Pin :=
  pins.filter fun pin => pin.path = whitelistMapPinPath ∨ pin.object.infoId ≠ progId

namespace Kernel
variable (k : Kernel)

/-- One round of the loop in `check_and_enforce`. -/
def enforce (pins : List Pin) (p : Program) : List Pin :=
  if p.opens = true ∧ p.infoSucceeds = true then
    if k.isProgAllowed p.name p.type then pins else removeBpfPinsById p.id pins
  else pins

/-- **What comes behind an id begins with the program that `getNext` finds.** -/
theorem filter_lt_of_getNext {id : UInt32} {p : Program} (h : k.getNext id = some p) :
    (k.programs.filter fun q => id < q.id) = p :: k.programs.filter fun q => p.id < q.id := by
  obtain ⟨hp, before, behind, hsplit, hbefore⟩ := List.find?_eq_some_iff_append.1 h
  have hlt : id < p.id := of_decide_eq_true hp
  have hsorted := k.increasing
  rw [hsplit, List.pairwise_append, List.pairwise_cons] at hsorted
  have hbehind : ∀ q ∈ behind, p.id < q.id := hsorted.2.1.1
  have hnone : ∀ q ∈ before, ¬ id < q.id := fun q hq => by simpa using hbefore q hq
  have hnil : before.filter (fun q => id < q.id) = [] :=
    List.filter_eq_nil_iff.2 fun q hq => by simpa using hnone q hq
  have hnil' : before.filter (fun q => p.id < q.id) = [] := by
    refine List.filter_eq_nil_iff.2 fun q hq => ?_
    simpa using fun hpq => hnone q hq (UInt32.lt_trans hlt hpq)
  have hall : behind.filter (fun q => id < q.id) = behind :=
    List.filter_eq_self.2 fun q hq => by simpa using UInt32.lt_trans hlt (hbehind q hq)
  have hall' : behind.filter (fun q => p.id < q.id) = behind :=
    List.filter_eq_self.2 fun q hq => by simpa using hbehind q hq
  rw [hsplit, List.filter_append, List.filter_append, hnil, hnil', List.nil_append,
    List.nil_append]
  simp [hlt, hall, hall']

/-- The loop of `check_and_enforce`, from the program behind `id`. -/
def checkAndEnforceFrom (id : UInt32) (pins : List Pin) : List Pin :=
  match _h : k.getNext id with
  | none => pins
  | some p => checkAndEnforceFrom p.id (k.enforce pins p)
termination_by (k.programs.filter fun q => id < q.id).length
decreasing_by
  rw [k.filter_lt_of_getNext _h]
  exact Nat.lt_succ_self _

/-- `check_and_enforce`: the pins after a pass. -/
def checkAndEnforce : List Pin := k.checkAndEnforceFrom 0 k.pins

/-- A program that the pass opens, gets the info of, and does not find in the whitelist. -/
def Offender (p : Program) : Prop :=
  p ∈ k.programs ∧ p.opens = true ∧ p.infoSucceeds = true ∧ ¬ k.Whitelisted p

/-- **What the pass is to do.**  A deleted pin pins a program that is not whitelisted, every pin
of such a program goes if the program can be opened (unless the pin is where the whitelist is),
and the pins of whitelisted programs, of maps and of links stay. -/
structure RemovesOnlyOffendersPins : Prop where
  deleted : ∀ pin ∈ k.pins, pin ∉ k.checkAndEnforce →
    ∃ p ∈ k.programs, pin.object = .program p.id ∧ ¬ k.Whitelisted p
  purged : ∀ p ∈ k.programs, p.opens = true → ¬ k.Whitelisted p → ∀ pin ∈ k.pins,
    pin.path ≠ whitelistMapPinPath → pin.object = .program p.id → pin ∉ k.checkAndEnforce
  programs_stay : ∀ p ∈ k.programs, k.Whitelisted p → ∀ pin ∈ k.pins,
    pin.object = .program p.id → pin ∈ k.checkAndEnforce
  maps_stay : ∀ pin ∈ k.pins, ∀ type id, pin.object = .map type id → pin ∈ k.checkAndEnforce
  links_stay : ∀ pin ∈ k.pins, ∀ type id, pin.object = .link type id → pin ∈ k.checkAndEnforce

/-! ## What is left after a pass -/

/-- The key is the program's own: no name is cut off. -/
theorem isProgAllowed_iff {p : Program} (hp : p ∈ k.programs) :
    k.isProgAllowed p.name p.type = true ↔ k.Whitelisted p := by
  have hlen : min (utf8 p.name).length 15 = (utf8 p.name).length :=
    Nat.min_eq_left (k.names p hp)
  simp only [isProgAllowed, Whitelisted, whitelistKey, hlen, List.take_length]

theorem mem_removeBpfPinsById {id : UInt32} {pins : List Pin} {pin : Pin} :
    pin ∈ removeBpfPinsById id pins ↔
      pin ∈ pins ∧ (pin.path = whitelistMapPinPath ∨ pin.object.infoId ≠ id) := by
  simp [removeBpfPinsById]

/-- One round deletes for an offender only. -/
theorem mem_enforce {p : Program} (hp : p ∈ k.programs) {pins : List Pin} {pin : Pin} :
    pin ∈ k.enforce pins p ↔ pin ∈ pins ∧
      (k.Offender p → pin.path = whitelistMapPinPath ∨ pin.object.infoId ≠ p.id) := by
  unfold enforce
  by_cases hopen : p.opens = true ∧ p.infoSucceeds = true
  · rw [if_pos hopen]
    by_cases hw : k.Whitelisted p
    · have hno : ¬ k.Offender p := fun ho => ho.2.2.2 hw
      simp [(k.isProgAllowed_iff hp).2 hw, hno]
    · have ho : k.Offender p := ⟨hp, hopen.1, hopen.2, hw⟩
      rw [if_neg (mt (k.isProgAllowed_iff hp).1 hw), mem_removeBpfPinsById]
      simp [ho]
  · have hno : ¬ k.Offender p := fun ho => hopen ⟨ho.2.1, ho.2.2.1⟩
    simp [hopen, hno]

/-- The loop visits the programs behind `id`, each of them once. -/
theorem checkAndEnforceFrom_eq_foldl (id : UInt32) (pins : List Pin) :
    k.checkAndEnforceFrom id pins =
      (k.programs.filter fun q => id < q.id).foldl k.enforce pins := by
  induction id, pins using checkAndEnforceFrom.induct k with
  | case1 id pins h =>
    have hnil : (k.programs.filter fun q => id < q.id) = [] := by
      rw [List.filter_eq_nil_iff]
      exact List.find?_eq_none.1 h
    rw [checkAndEnforceFrom, hnil]
    split
    · rfl
    · rename_i p hp
      rw [h] at hp
      exact absurd hp (by simp)
  | case2 id pins p h ih =>
    rw [checkAndEnforceFrom, k.filter_lt_of_getNext h, List.foldl_cons, ← ih]
    split
    · rename_i hp
      rw [h] at hp
      exact absurd hp (by simp)
    · rename_i q hq
      rw [h] at hq
      cases hq
      rfl

theorem mem_foldl_enforce {pin : Pin} (programs : List Program)
    (hsub : ∀ p ∈ programs, p ∈ k.programs) (pins : List Pin) :
    pin ∈ programs.foldl k.enforce pins ↔ pin ∈ pins ∧ ∀ p ∈ programs,
      k.Offender p → pin.path = whitelistMapPinPath ∨ pin.object.infoId ≠ p.id := by
  induction programs generalizing pins with
  | nil => simp
  | cons p programs ih =>
    rw [List.foldl_cons, ih (fun q hq => hsub q (List.mem_cons_of_mem p hq)),
      k.mem_enforce (hsub p (List.mem_cons_self ..)), List.forall_mem_cons, and_assoc]

/-- **What is left: the pins whose info id is no offender's, and the whitelist.** -/
theorem mem_checkAndEnforce {pin : Pin} :
    pin ∈ k.checkAndEnforce ↔ pin ∈ k.pins ∧ ∀ p, k.Offender p →
      pin.path = whitelistMapPinPath ∨ pin.object.infoId ≠ p.id := by
  have hall : (k.programs.filter fun q => 0 < q.id) = k.programs :=
    List.filter_eq_self.2 fun q hq => by simpa using k.positive q hq
  rw [checkAndEnforce, checkAndEnforceFrom_eq_foldl, hall,
    k.mem_foldl_enforce k.programs (fun _ h => h)]
  refine and_congr_right fun _ => ⟨fun h p ho => h p ho.1 ho, fun h p _ ho => h p ho⟩

theorem eq_of_id_eq {p q : Program} (hp : p ∈ k.programs) (hq : q ∈ k.programs)
    (h : p.id = q.id) : p = q := by
  have hids : (k.programs.map Program.id).Nodup :=
    List.pairwise_map.2 (k.increasing.imp fun hlt => UInt32.ne_of_lt hlt)
  exact List.inj_on_of_nodup_map hids hp hq h

/-- An offender's pin goes, unless it is where the whitelist is. -/
theorem not_mem_checkAndEnforce {p : Program} (ho : k.Offender p) {pin : Pin}
    (hpath : pin.path ≠ whitelistMapPinPath) (hid : pin.object.infoId = p.id) :
    pin ∉ k.checkAndEnforce := fun h =>
  (k.mem_checkAndEnforce.1 h).2 p ho |>.elim hpath (fun hne => hne hid)

/-- A pin that goes has the info id of an offender. -/
theorem exists_offender {pin : Pin} (hpin : pin ∈ k.pins) (h : pin ∉ k.checkAndEnforce) :
    ∃ p, k.Offender p ∧ pin.path ≠ whitelistMapPinPath ∧ pin.object.infoId = p.id := by
  by_contra hno
  refine h (k.mem_checkAndEnforce.2 ⟨hpin, fun p ho => ?_⟩)
  by_contra hor
  rw [not_or, not_not] at hor
  exact hno ⟨p, ho, hor.1, hor.2⟩

/-- A map or a link that is pinned elsewhere than the whitelist has the number of an offender. -/
def SharesNumber : Prop :=
  ∃ pin ∈ k.pins, pin.path ≠ whitelistMapPinPath ∧ (∀ id, pin.object ≠ .program id) ∧
    ∃ p, k.Offender p ∧ pin.object.infoId = p.id

/-- Without a shared number, what goes is the pin of an offender. -/
theorem exists_offender_of_not_sharesNumber (hno : ¬ k.SharesNumber) {pin : Pin}
    (hpin : pin ∈ k.pins) (h : pin ∉ k.checkAndEnforce) :
    ∃ p, k.Offender p ∧ pin.object = .program p.id := by
  obtain ⟨p, ho, hpath, hid⟩ := k.exists_offender hpin h
  refine ⟨p, ho, ?_⟩
  by_contra hne
  refine hno ⟨pin, hpin, hpath, fun id hobj => hne ?_, p, ho, hid⟩
  rw [hobj] at hid
  rw [hobj, show id = p.id from hid]

theorem removesOnlyOffendersPins_of_not_sharesNumber (hno : ¬ k.SharesNumber) :
    k.RemovesOnlyOffendersPins where
  deleted pin hpin h := by
    obtain ⟨p, ho, hobj⟩ := k.exists_offender_of_not_sharesNumber hno hpin h
    exact ⟨p, ho.1, hobj, ho.2.2.2⟩
  purged p hp hopens hw pin hpin hpath hobj := by
    have ho : k.Offender p := ⟨hp, hopens, k.infos pin hpin p hp hobj, hw⟩
    exact k.not_mem_checkAndEnforce ho hpath (by rw [hobj]; rfl)
  programs_stay p hp hw pin hpin hobj := by
    by_contra h
    obtain ⟨q, ho, hq⟩ := k.exists_offender_of_not_sharesNumber hno hpin h
    have hid : q.id = p.id := by simpa [hobj] using hq.symm
    rw [k.eq_of_id_eq ho.1 hp hid] at ho
    exact ho.2.2.2 hw
  maps_stay pin hpin type id hobj := by
    by_contra h
    obtain ⟨q, _, hq⟩ := k.exists_offender_of_not_sharesNumber hno hpin h
    simp [hobj] at hq
  links_stay pin hpin type id hobj := by
    by_contra h
    obtain ⟨q, _, hq⟩ := k.exists_offender_of_not_sharesNumber hno hpin h
    simp [hobj] at hq

end Kernel

/-- **A pass removes only offenders' pins, all of them, exactly when no number is shared.**
It goes wrong if a map or a link, pinned at a path that is not the whitelist's, has the number of
a program that the pass opens and that is not whitelisted; in no other case. -/
theorem removes_only_offenders_pins_iff (k : Kernel) :
    k.RemovesOnlyOffendersPins ↔ ¬ k.SharesNumber := by
  refine ⟨fun h hshares => ?_, k.removesOnlyOffendersPins_of_not_sharesNumber⟩
  obtain ⟨pin, hpin, hpath, hkind, p, ho, hid⟩ := hshares
  -- the pin of the map or of the link goes, and `deleted` calls it a program's
  obtain ⟨q, _, hobj, _⟩ := h.deleted pin hpin (k.not_mem_checkAndEnforce ho hpath hid)
  exact hkind q.id hobj

/-- Program 5 is not whitelisted, and map 5 has nothing to do with it. -/
def sharedNumber : Kernel where
  programs := [⟨5, 2, "evil".toList, true, true⟩]
  whitelist := fun _ => false
  pins := [⟨"/sys/fs/bpf/m", .map 1 5⟩]
  increasing := by simp
  positive := by simp
  names := by decide
  infos := by decide

theorem unrelated_map_loses_its_pin : ¬ sharedNumber.RemovesOnlyOffendersPins := by
  intro h
  have hstay := h.maps_stay ⟨"/sys/fs/bpf/m", .map 1 5⟩ (List.mem_singleton_self _) 1 5 rfl
  refine sharedNumber.not_mem_checkAndEnforce (p := ⟨5, 2, "evil".toList, true, true⟩) ?_ ?_ ?_
    hstay
  · exact ⟨List.mem_singleton_self _, rfl, rfl, Bool.false_ne_true⟩
  · decide
  · rfl

end RustSamples.EbpfProtect
