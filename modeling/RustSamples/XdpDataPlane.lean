import RustSamples.XdpFirewall
import RustSamples.XdpRouter

/-! # The data plane of `xdp_router`

`try_xdp_router` finds the destination of a frame, behind one VLAN tag if there is one, looks up
its route and overwrites the two MACs in place.  Every pointer comes from `ptr_at`, which returns
`Err(())` where the packet is too short.

A program here is a function of the packet.  It may stop with `Err(())`, the packet being as it
was left; and an access outside of the packet has no result at all, so that a program with a
result for every packet has made no such access.  The map is a function of the fields of a key.

`Carries` reads a frame by its format.  The program redirects exactly the frames that carry a
destination with a route, and leaves all others as they are (`data_plane_exact`).  The control
plane installs no route with a VLAN, so that no frame of a VLAN is ever redirected.
-/
namespace RustSamples.XdpRouter
open RustNet Xdp

/-! ## The program -/

/-- A program on a packet; `none` is an access outside of it. -/
abbrev Program (α : Type) := ExceptT Unit (StateT (List UInt8) Option) α

/-- The bytes from `ptr` on. -/
def bytesAt (packet : List UInt8) (ptr len : Nat) : List UInt8 := (packet.drop ptr).take len

/-- `ptr_at`, for a type of `len` bytes.  A pointer is an offset. -/
def ptrAt (len offset : Nat) : Program Nat :=
  ExceptT.mk fun packet =>
    if packet.length < offset + len then some (.error (), packet) else some (.ok offset, packet)

/-- Reading through a pointer. -/
def readAt (ptr len : Nat) : Program (List UInt8) :=
  ExceptT.mk fun packet =>
    if ptr + len ≤ packet.length then some (.ok (bytesAt packet ptr len), packet) else none

/-- Writing through a pointer. -/
def writeAt (ptr : Nat) (bytes : List UInt8) : Program Unit :=
  ExceptT.mk fun packet =>
    if ptr + bytes.length ≤ packet.length then
      some (.ok (), packet.take ptr ++ bytes ++ packet.drop (ptr + bytes.length))
    else none

/-- Reading a `u16`. -/
def readU16 (e : Endian) (ptr : Nat) : Program (BitVec 16) := do
  let bytes ← readAt ptr 2
  pure (e.loadU16 (bytes.getD 0 0) (bytes.getD 1 0))

/-- `size_of::<VlanHdr>()`. -/
def vlanHdrSize : Nat := 4

def ethP8021Q : BitVec 16 := 0x8100

/-- What the action says, and where the packet is redirected to. -/
inductive Verdict
  | pass
  | redirect (ifIndex : UInt32)
  deriving DecidableEq

section
variable (e : Endian)

/-- The block for the VLAN tag: `ether_type`, `offset` and `vlan_id` behind it. -/
def parseVlan (etherType : BitVec 16) (offset : Nat) : Program (BitVec 16 × Nat × BitVec 16) :=
  if etherType = ethP8021Q then do
    let vlan ← ptrAt vlanHdrSize offset
    let tci ← readU16 e vlan
    let inner ← readU16 e (vlan + 2)
    pure (e.fromBe inner, offset + vlanHdrSize, e.fromBe tci &&& 0x0FFF)
  else pure (etherType, offset, 0)

/-- The extraction of the address; `none` is the early `XDP_PASS`. -/
def extractKey (etherType : BitVec 16) (offset : Nat) (vlanId : BitVec 16) :
    Program (Option RouteKey) :=
  if etherType = ethPIp then do
    let dstIpPtr ← ptrAt 4 (offset + 16)
    let ipV4 ← readAt dstIpPtr 4
    pure (some ⟨4, ipV4, List.replicate 16 0, .ofBitVec vlanId⟩)
  else if etherType = ethPIpv6 then do
    let dstIpPtr ← ptrAt 16 (offset + 24)
    let ipV6 ← readAt dstIpPtr 16
    pure (some ⟨6, List.replicate 4 0, ipV6, .ofBitVec vlanId⟩)
  else pure none

/-- The key of the destination of the frame at `eth`. -/
def lookupKey (eth : Nat) : Program (Option RouteKey) := do
  let etherType ← readU16 e (eth + 12)
  let (etherType, offset, vlanId) ← parseVlan e (e.fromBe etherType) ethhdrSize
  extractKey etherType offset vlanId

/-- The new MACs, in place, and the redirection. -/
def forward (eth : Nat) (route : RouteValue) : Program Verdict := do
  writeAt eth route.dstMac.val
  writeAt (eth + 6) route.srcMac.val
  pure (.redirect route.ifIndex)

/-- `try_xdp_router`. -/
def tryXdpRouter (routes : Routes) : Program Verdict := do
  let eth ← ptrAt ethhdrSize 0
  let key ← lookupKey e eth
  match key.bind routes with
  | some route => forward eth route
  | none => pure .pass

/-- `xdp_router`: the verdict, and the packet as it is left. -/
def xdpRouter (routes : Routes) (packet : List UInt8) : Option (Verdict × List UInt8) :=
  ((tryXdpRouter e routes).run packet).map fun r =>
    (match r.1 with
      | .ok action => action
      | .error _ => .pass, r.2)

end

/-! ## The format of a frame -/

/-- The VLAN id in the two bytes of a tag: the lower twelve bits. -/
def vlanOf (hi lo : UInt8) : UInt16 := UInt16.ofNat (hi.toNat % 16 * 256 + lo.toNat)

/-- At `pos` there is the type of an IP header, and behind it the header, long enough to hold the
destination address `ip`. -/
def IpAt (packet : List UInt8) (pos : Nat) : IpAddr → Prop
  | .v4 addr => bytesAt packet pos 2 = [0x08, 0x00] ∧ bytesAt packet (pos + 2 + 16) 4 = octets addr
  | .v6 addr => bytesAt packet pos 2 = [0x86, 0xDD] ∧ bytesAt packet (pos + 2 + 24) 16 = octets addr

/-- The frame has a tag with these two bytes. -/
def Tagged (packet : List UInt8) (hi lo : UInt8) : Prop :=
  bytesAt packet 12 2 = [0x81, 0x00] ∧ bytesAt packet 14 2 = [hi, lo]

/-- **What a frame carries**: an IP packet to `ip`, untagged, or behind one tag with VLAN id
`vlan`. -/
def Carries (packet : List UInt8) (ip : IpAddr) (vlan : UInt16) : Prop :=
  (IpAt packet 12 ip ∧ vlan = 0) ∨
    ∃ hi lo, Tagged packet hi lo ∧ IpAt packet 16 ip ∧ vlan = vlanOf hi lo

/-- The key of an address in a VLAN. -/
def keyOf (ip : IpAddr) (vlan : UInt16) : RouteKey := { routeKey ip with vlanId := vlan }

/-! ## Programs, step by step -/

section
variable {α β : Type} {packet : List UInt8} {ptr len offset : Nat}

theorem run_pure (a : α) : (pure a : Program α).run packet = some (.ok a, packet) := rfl

theorem run_bind (m : Program α) (k : α → Program β) (packet : List UInt8) :
    (m >>= k).run packet = (m.run packet).bind fun r =>
      match r.1 with
      | .ok a => (k a).run r.2
      | .error () => some (.error (), r.2) := by
  change Option.bind (m packet) _ = _
  cases h : m packet with
  | none => simp [ExceptT.run, h]
  | some r =>
    obtain ⟨r, packet'⟩ := r
    cases r with
    | ok a => simp [ExceptT.run, h]; rfl
    | error u => simp [ExceptT.run, h]; rfl

theorem run_bind_ok {m : Program α} {a : α} {packet' : List UInt8}
    (h : m.run packet = some (.ok a, packet')) (k : α → Program β) :
    (m >>= k).run packet = (k a).run packet' := by
  rw [run_bind, h, Option.bind_some]

theorem run_bind_error {m : Program α} {packet' : List UInt8}
    (h : m.run packet = some (.error (), packet')) (k : α → Program β) :
    (m >>= k).run packet = some (.error (), packet') := by
  rw [run_bind, h, Option.bind_some]

theorem ptrAt_of_le (h : offset + len ≤ packet.length) :
    (ptrAt len offset).run packet = some (.ok offset, packet) :=
  if_neg (Nat.not_lt.2 h)

theorem ptrAt_of_lt (h : packet.length < offset + len) :
    (ptrAt len offset).run packet = some (.error (), packet) :=
  if_pos h

theorem readAt_of_le (h : ptr + len ≤ packet.length) :
    (readAt ptr len).run packet = some (.ok (bytesAt packet ptr len), packet) :=
  if_pos h

theorem length_bytesAt (h : ptr + len ≤ packet.length) : (bytesAt packet ptr len).length = len := by
  rw [bytesAt, List.length_take, List.length_drop]
  omega

/-- Bytes that are there lie inside the packet. -/
theorem le_of_bytesAt_eq {bytes : List UInt8} (h : bytesAt packet ptr len = bytes)
    (hlen : bytes.length = len) (hpos : 0 < len) : ptr + len ≤ packet.length := by
  have hlength := congrArg List.length h
  rw [bytesAt, List.length_take, List.length_drop] at hlength
  omega

theorem exists_two_bytesAt (ptr : Nat) (h : ptr + 2 ≤ packet.length) :
    ∃ hi lo, bytesAt packet ptr 2 = [hi, lo] :=
  List.length_eq_two.1 (length_bytesAt h)

/-- A `u16` in network byte order, whatever the order of the machine. -/
theorem fromBe_loadU16 (e : Endian) (hi lo : UInt8) :
    e.fromBe (e.loadU16 hi lo) = hi.toBitVec ++ lo.toBitVec := by
  cases e with
  | little =>
    rw [Endian.loadU16, Endian.fromBe, BitVec.extractLsb'_append_eq_left,
      BitVec.extractLsb'_append_eq_right]
  | big => rfl

theorem append_toBitVec_inj (a b hi lo : UInt8) :
    a.toBitVec ++ b.toBitVec = hi.toBitVec ++ lo.toBitVec ↔ [a, b] = [hi, lo] := by
  have h : a.toBitVec ++ b.toBitVec = hi.toBitVec ++ lo.toBitVec ↔
      a.toBitVec = hi.toBitVec ∧ b.toBitVec = lo.toBitVec := loadU16_eq_fromBe .big a b _ _
  rw [h, UInt8.toBitVec_inj, UInt8.toBitVec_inj]
  simp

theorem readU16_of_bytesAt (e : Endian) {hi lo : UInt8} (h : bytesAt packet ptr 2 = [hi, lo]) :
    (readU16 e ptr).run packet = some (.ok (e.loadU16 hi lo), packet) := by
  have hread := readAt_of_le (le_of_bytesAt_eq h rfl (by decide))
  rw [readU16, run_bind_ok hread, h]
  rfl

/-- The lower twelve bits of a tag. -/
theorem vlanOf_eq (hi lo : UInt8) :
    UInt16.ofBitVec ((hi.toBitVec ++ lo.toBitVec) &&& 0x0FFF) = vlanOf hi lo := by
  have hhi := hi.toNat_lt
  have hlo := lo.toNat_lt
  have hmask : (0x0FFF : BitVec 16).toNat = 2 ^ 12 - 1 := rfl
  have hvalue : hi.toBitVec.toNat <<< 8 ||| lo.toBitVec.toNat = hi.toNat * 256 + lo.toNat := by
    change hi.toNat <<< 8 ||| lo.toNat = _
    rw [← Nat.shiftLeft_add_eq_or_of_lt hlo, Nat.shiftLeft_eq]
  refine congrArg UInt16.ofBitVec (BitVec.eq_of_toNat_eq ?_)
  rw [BitVec.toNat_and, BitVec.toNat_append, hvalue, hmask, Nat.and_two_pow_sub_one_eq_mod]
  change _ = (hi.toNat % 16 * 256 + lo.toNat) % 2 ^ 16
  omega

end

/-! ## The key of a frame -/

variable {packet : List UInt8}

/-- What a program for a key says of a packet: no access outside, no change, and a key exactly
for these destinations. -/
def Finds (m : Program (Option RouteKey)) (packet : List UInt8)
    (destination : IpAddr → UInt16 → Prop) : Prop :=
  ∃ r, m.run packet = some (r, packet) ∧
    ∀ key, r = .ok (some key) ↔ ∃ ip vlan, destination ip vlan ∧ key = keyOf ip vlan

theorem Finds.congr {m : Program (Option RouteKey)} {destination destination' :
    IpAddr → UInt16 → Prop} (h : Finds m packet destination)
    (hiff : ∀ ip vlan, destination' ip vlan ↔ destination ip vlan) :
    Finds m packet destination' := by
  obtain ⟨r, hr, hkey⟩ := h
  exact ⟨r, hr, fun key => by simp only [hiff, hkey]⟩

/-- Behind a step that only reads. -/
theorem Finds.of_bind {α : Type} {m : Program α} {a : α}
    {k : α → Program (Option RouteKey)} {destination : IpAddr → UInt16 → Prop}
    (h : m.run packet = some (.ok a, packet)) (hk : Finds (k a) packet destination) :
    Finds (m >>= k) packet destination := by
  obtain ⟨r, hr, hkey⟩ := hk
  exact ⟨r, (run_bind_ok h k).trans hr, hkey⟩

/-- Where a check fails, there must be no destination. -/
theorem finds_of_error {α : Type} {m : Program α} {k : α → Program (Option RouteKey)}
    {destination : IpAddr → UInt16 → Prop} (h : m.run packet = some (.error (), packet))
    (hnone : ∀ ip vlan, ¬ destination ip vlan) : Finds (m >>= k) packet destination :=
  ⟨_, run_bind_error h k, fun _ => iff_of_false (by simp) fun ⟨ip, vlan, hip, _⟩ =>
    hnone ip vlan hip⟩

/-- The bytes of an address, behind a check. -/
theorem finds_address {w len ptr : Nat} {vlan : UInt16} (ipOf : BitVec w → IpAddr)
    (key : List UInt8 → RouteKey) (hw : 8 * len = w) (hpos : 0 < len)
    (hkey : ∀ addr, key (octets addr) = keyOf (ipOf addr) vlan)
    {destination : IpAddr → UInt16 → Prop}
    (hdestination : ∀ ip vlan', destination ip vlan' ↔
      ∃ addr, ip = ipOf addr ∧ bytesAt packet ptr len = octets addr ∧ vlan' = vlan) :
    Finds (do
      let dstIpPtr ← ptrAt len ptr
      let bytes ← readAt dstIpPtr len
      pure (some (key bytes))) packet destination := by
  by_cases hlen : ptr + len ≤ packet.length
  · obtain ⟨addr, haddr⟩ : ∃ addr : BitVec w, octets addr = bytesAt packet ptr len :=
      exists_octets_eq (by rw [length_bytesAt hlen, hw])
    refine ⟨_, (run_bind_ok (ptrAt_of_le hlen) _).trans (run_bind_ok (readAt_of_le hlen) _),
      fun found => ?_⟩
    rw [← haddr, hkey]
    constructor
    · intro h
      obtain rfl : keyOf (ipOf addr) vlan = found := by simpa using h
      exact ⟨ipOf addr, vlan, (hdestination _ _).2 ⟨addr, rfl, haddr.symm, rfl⟩, rfl⟩
    · rintro ⟨ip, vlan', hip, rfl⟩
      obtain ⟨addr', rfl, hbytes, rfl⟩ := (hdestination _ _).1 hip
      rw [← hkey, ← hkey, ← hbytes, haddr]
  · refine finds_of_error (ptrAt_of_lt (not_le.1 hlen)) fun ip vlan' hip => ?_
    obtain ⟨addr, -, hbytes, -⟩ := (hdestination _ _).1 hip
    exact hlen (le_of_bytesAt_eq hbytes (by rw [length_octets]; omega) hpos)

/-- No key at all, without an access. -/
theorem finds_none {destination : IpAddr → UInt16 → Prop} (h : ∀ ip vlan, ¬ destination ip vlan) :
    Finds (pure none) packet destination :=
  ⟨_, run_pure _, fun _ => iff_of_false (by simp) fun ⟨ip, vlan, hip, _⟩ => h ip vlan hip⟩

theorem finds_extractKey {pos : Nat} {hi lo : UInt8} (vlanId : BitVec 16)
    (htype : bytesAt packet pos 2 = [hi, lo]) :
    Finds (extractKey (hi.toBitVec ++ lo.toBitVec) (pos + 2) vlanId) packet
      fun ip vlan => IpAt packet pos ip ∧ vlan = .ofBitVec vlanId := by
  have hv4 : hi.toBitVec ++ lo.toBitVec = ethPIp ↔ [hi, lo] = [0x08, 0x00] :=
    append_toBitVec_inj hi lo 0x08 0x00
  have hv6 : hi.toBitVec ++ lo.toBitVec = ethPIpv6 ↔ [hi, lo] = [0x86, 0xDD] :=
    append_toBitVec_inj hi lo 0x86 0xDD
  rw [← htype] at hv4 hv6
  unfold extractKey
  split_ifs with h4 h6
  · refine finds_address .v4 (fun ipV4 => ⟨4, ipV4, List.replicate 16 0, .ofBitVec vlanId⟩) rfl
      (by decide) (fun addr => rfl) fun ip vlan => ?_
    cases ip with
    | v4 addr => simp [IpAt, hv4.1 h4]
    | v6 addr => simp [IpAt, hv4.1 h4]
  · refine finds_address .v6 (fun ipV6 => ⟨6, List.replicate 4 0, ipV6, .ofBitVec vlanId⟩) rfl
      (by decide) (fun addr => rfl) fun ip vlan => ?_
    cases ip with
    | v4 addr => simp [IpAt, hv6.1 h6]
    | v6 addr => simp [IpAt, hv6.1 h6]
  · refine finds_none fun ip vlan hip => ?_
    cases ip with
    | v4 addr => exact h4 (hv4.2 hip.1.1)
    | v6 addr => exact h6 (hv6.2 hip.1.1)

/-- An IP header begins with its type. -/
theorem IpAt.type {pos : Nat} {ip : IpAddr} (h : IpAt packet pos ip) :
    bytesAt packet pos 2 = [0x08, 0x00] ∨ bytesAt packet pos 2 = [0x86, 0xDD] := by
  cases ip with
  | v4 addr => exact Or.inl h.1
  | v6 addr => exact Or.inr h.1

theorem IpAt.le_length {pos : Nat} {ip : IpAddr} (h : IpAt packet pos ip) :
    pos + 2 ≤ packet.length := by
  rcases h.type with htype | htype
  · exact le_of_bytesAt_eq htype rfl (by decide)
  · exact le_of_bytesAt_eq htype rfl (by decide)

/-- A tag is no IP header. -/
theorem IpAt.not_tag {ip : IpAddr} (h : IpAt packet 12 ip) :
    bytesAt packet 12 2 ≠ [0x81, 0x00] := by
  rcases h.type with htype | htype
  · rw [htype]
    decide
  · rw [htype]
    decide

theorem carries_iff_of_tagged {hi lo : UInt8} (htag : Tagged packet hi lo) (ip : IpAddr)
    (vlan : UInt16) : Carries packet ip vlan ↔ IpAt packet 16 ip ∧ vlan = vlanOf hi lo := by
  constructor
  · rintro (⟨hip, -⟩ | ⟨hi', lo', htag', hip, hvlan⟩)
    · exact absurd htag.1 hip.not_tag
    · have hsame : [hi', lo'] = [hi, lo] := htag'.2.symm.trans htag.2
      obtain ⟨rfl, rfl⟩ : hi' = hi ∧ lo' = lo := by simpa using hsame
      exact ⟨hip, hvlan⟩
  · exact fun ⟨hip, hvlan⟩ => Or.inr ⟨hi, lo, htag, hip, hvlan⟩

theorem carries_iff_of_untagged (htag : bytesAt packet 12 2 ≠ [0x81, 0x00]) (ip : IpAddr)
    (vlan : UInt16) : Carries packet ip vlan ↔ IpAt packet 12 ip ∧ vlan = 0 :=
  or_iff_left fun ⟨_, _, htag', _⟩ => htag htag'.1

/-- The tag, read. -/
theorem run_parseVlan (e : Endian) {tciHi tciLo hi lo : UInt8}
    (htci : bytesAt packet 14 2 = [tciHi, tciLo]) (htype : bytesAt packet 16 2 = [hi, lo]) :
    (parseVlan e ethP8021Q ethhdrSize).run packet = some (.ok (hi.toBitVec ++ lo.toBitVec, 18,
      (tciHi.toBitVec ++ tciLo.toBitVec) &&& 0x0FFF), packet) := by
  have hlen : 16 + 2 ≤ packet.length := le_of_bytesAt_eq htype rfl (by decide)
  have hvlan : (ptrAt vlanHdrSize ethhdrSize).run packet = some (.ok 14, packet) :=
    ptrAt_of_le hlen
  rw [parseVlan, if_pos rfl, run_bind_ok hvlan, run_bind_ok (readU16_of_bytesAt e htci),
    run_bind_ok (readU16_of_bytesAt e htype), fromBe_loadU16, fromBe_loadU16]
  rfl

/-- **The key of a frame is that of the destination it carries.** -/
theorem finds_lookupKey (e : Endian) (hlen : ethhdrSize ≤ packet.length) :
    Finds (lookupKey e 0) packet (Carries packet) := by
  obtain ⟨hi, lo, htype⟩ := exists_two_bytesAt 12 hlen
  have hvlan : hi.toBitVec ++ lo.toBitVec = ethP8021Q ↔ bytesAt packet 12 2 = [0x81, 0x00] := by
    rw [htype]
    exact append_toBitVec_inj hi lo 0x81 0x00
  refine Finds.of_bind (readU16_of_bytesAt e htype) ?_
  rw [fromBe_loadU16]
  by_cases htag : bytesAt packet 12 2 = [0x81, 0x00]
  · rw [hvlan.2 htag]
    by_cases hlen' : ethhdrSize + vlanHdrSize ≤ packet.length
    · have htciLen : 14 + 2 ≤ packet.length := le_trans (by decide) hlen'
      obtain ⟨tciHi, tciLo, htci⟩ := exists_two_bytesAt 14 htciLen
      obtain ⟨hi', lo', htype'⟩ := exists_two_bytesAt 16 hlen'
      refine Finds.of_bind (run_parseVlan e htci htype')
        ((finds_extractKey _ htype').congr fun ip vlan => ?_)
      rw [vlanOf_eq, carries_iff_of_tagged ⟨htag, htci⟩]
    · -- the packet ends inside the tag or behind it
      have herror : (parseVlan e ethP8021Q ethhdrSize).run packet = some (.error (), packet) := by
        rw [parseVlan, if_pos rfl, run_bind_error (ptrAt_of_lt (not_le.1 hlen'))]
      refine finds_of_error herror fun ip vlan hcarries => ?_
      rcases hcarries with ⟨hip, -⟩ | ⟨_, _, -, hip, -⟩
      · exact hip.not_tag htag
      · exact hlen' hip.le_length
  · have huntagged : (parseVlan e (hi.toBitVec ++ lo.toBitVec) ethhdrSize).run packet =
        some (.ok (hi.toBitVec ++ lo.toBitVec, ethhdrSize, 0), packet) := by
      rw [parseVlan, if_neg fun h => htag (hvlan.1 h), run_pure]
    exact Finds.of_bind huntagged
      ((finds_extractKey 0 htype).congr (carries_iff_of_untagged htag))

/-! ## Redirected, or left alone -/

theorem writeAt_of_le {packet : List UInt8} {ptr : Nat} {bytes : List UInt8}
    (h : ptr + bytes.length ≤ packet.length) : (writeAt ptr bytes).run packet =
      some (.ok (), packet.take ptr ++ bytes ++ packet.drop (ptr + bytes.length)) :=
  if_pos h

/-- Both MACs, one behind the other. -/
theorem run_forward (route : RouteValue) (hlen : ethhdrSize ≤ packet.length) :
    (forward 0 route).run packet = some (.ok (.redirect route.ifIndex),
      route.dstMac.val ++ route.srcMac.val ++ packet.drop 12) := by
  have hlen : 14 ≤ packet.length := hlen
  have hdst := route.dstMac.property
  have hsrc := route.srcMac.property
  have hfirst : (writeAt 0 route.dstMac.val).run packet =
      some (.ok (), route.dstMac.val ++ packet.drop 6) := by
    rw [writeAt_of_le (by omega), hdst, List.take_zero, List.nil_append]
  have hsecond : (writeAt (0 + 6) route.srcMac.val).run (route.dstMac.val ++ packet.drop 6) =
      some (.ok (), route.dstMac.val ++ route.srcMac.val ++ packet.drop 12) := by
    rw [writeAt_of_le (by rw [List.length_append, List.length_drop]; omega), hsrc,
      List.take_left' hdst, ← List.drop_drop, List.drop_left' hdst, List.drop_drop]
  rw [forward, run_bind_ok hfirst, run_bind_ok hsecond, run_pure]

theorem xdpRouter_of_route (e : Endian) {routes : Routes} {key : RouteKey} {route : RouteValue}
    (hlen : ethhdrSize ≤ packet.length)
    (hkey : (lookupKey e 0).run packet = some (.ok (some key), packet))
    (hroute : routes key = some route) : xdpRouter e routes packet =
      some (.redirect route.ifIndex, route.dstMac.val ++ route.srcMac.val ++ packet.drop 12) := by
  have heth : (ptrAt ethhdrSize 0).run packet = some (.ok 0, packet) :=
    ptrAt_of_le (by rwa [Nat.zero_add])
  rw [xdpRouter, tryXdpRouter, run_bind_ok heth, run_bind_ok hkey, Option.bind_some, hroute]
  simp only [run_forward route hlen, Option.map_some]

theorem xdpRouter_of_no_route (e : Endian) {routes : Routes}
    {r : Except Unit (Option RouteKey)} (hlen : ethhdrSize ≤ packet.length)
    (hkey : (lookupKey e 0).run packet = some (r, packet))
    (hnone : ∀ key, r = .ok (some key) → routes key = none) :
    xdpRouter e routes packet = some (.pass, packet) := by
  have heth : (ptrAt ethhdrSize 0).run packet = some (.ok 0, packet) :=
    ptrAt_of_le (by rwa [Nat.zero_add])
  rw [xdpRouter, tryXdpRouter, run_bind_ok heth]
  cases r with
  | error u => rw [run_bind_error hkey, Option.map_some]
  | ok key =>
    have hbind : key.bind routes = none := by
      cases key with
      | none => rfl
      | some key => exact hnone key rfl
    rw [run_bind_ok hkey, hbind]
    rfl

/-- A packet too short for an Ethernet header. -/
theorem xdpRouter_of_short (e : Endian) (routes : Routes) (hlen : packet.length < ethhdrSize) :
    xdpRouter e routes packet = some (.pass, packet) := by
  have heth : (ptrAt ethhdrSize 0).run packet = some (.error (), packet) :=
    ptrAt_of_lt (by rwa [Nat.zero_add])
  rw [xdpRouter, tryXdpRouter, run_bind_error heth, Option.map_some]

/-- A frame that carries something has an Ethernet header. -/
theorem Carries.le_length {ip : IpAddr} {vlan : UInt16} (h : Carries packet ip vlan) :
    ethhdrSize ≤ packet.length := by
  rcases h with ⟨hip, -⟩ | ⟨_, _, -, hip, -⟩
  · exact hip.le_length
  · exact le_trans (by decide) hip.le_length

/-- A frame without a route is left alone. -/
theorem xdpRouter_of_unrouted (e : Endian) {routes : Routes}
    (h : ∀ ip vlan, Carries packet ip vlan → routes (keyOf ip vlan) = none) :
    xdpRouter e routes packet = some (.pass, packet) := by
  by_cases hlen : ethhdrSize ≤ packet.length
  · obtain ⟨r, hr, hkey⟩ := finds_lookupKey e hlen
    refine xdpRouter_of_no_route e hlen hr fun key hsome => ?_
    obtain ⟨ip, vlan, hcarries, rfl⟩ := (hkey key).1 hsome
    exact h ip vlan hcarries
  · exact xdpRouter_of_short e routes (not_le.1 hlen)

/-- The control plane installs no route of a VLAN. -/
theorem monitorArpUpdates_vlan (interfaces : List NetworkInterface)
    (stream : List (Option (List NeighbourAttribute))) (ip : IpAddr) {vlan : UInt16}
    (hvlan : vlan ≠ 0) : monitorArpUpdates (install interfaces) stream (keyOf ip vlan) = none := by
  have hkey : ∀ ip', keyOf ip vlan ≠ routeKey ip' := by
    intro ip' h
    have hzero := congrArg RouteKey.vlanId h
    cases ip' <;> exact hvlan hzero
  rw [monitorArpUpdates_other _ _ hkey, install_other _ hkey]

/-- **The data plane, exactly.**  For every packet and every content of `ROUTES`, on a machine of
either byte order, no byte outside of the packet is accessed, and: a frame that carries a
destination with a route is redirected to the interface of the route, with its destination and
source MAC in front and everything else as it was; any other packet is passed on, unchanged.  With
the routes of the control plane, of any interfaces and after any messages, a frame of a VLAN is
passed on unchanged.  (An installation under way is that of a shorter list.) -/
theorem data_plane_exact (e : Endian) (routes : Routes) (packet : List UInt8) :
    (∀ ip vlan route, Carries packet ip vlan → routes (keyOf ip vlan) = some route →
      xdpRouter e routes packet = some (.redirect route.ifIndex,
          route.dstMac.val ++ route.srcMac.val ++ packet.drop 12) ∧
        (route.dstMac.val ++ route.srcMac.val ++ packet.drop 12).length = packet.length) ∧
    ((∀ ip vlan, Carries packet ip vlan → routes (keyOf ip vlan) = none) →
      xdpRouter e routes packet = some (.pass, packet)) ∧
    ∀ interfaces stream, routes = monitorArpUpdates (install interfaces) stream →
      ∀ hi lo, Tagged packet hi lo → vlanOf hi lo ≠ 0 →
        xdpRouter e routes packet = some (.pass, packet) := by
  refine ⟨fun ip vlan route hcarries hroute => ⟨?_, ?_⟩, xdpRouter_of_unrouted e, ?_⟩
  · obtain ⟨r, hr, hkey⟩ := finds_lookupKey e hcarries.le_length
    obtain rfl := (hkey _).2 ⟨ip, vlan, hcarries, rfl⟩
    exact xdpRouter_of_route e hcarries.le_length hr hroute
  · have hlen : 14 ≤ packet.length := hcarries.le_length
    rw [List.length_append, List.length_append, List.length_drop, route.dstMac.property,
      route.srcMac.property]
    omega
  · rintro interfaces stream rfl hi lo htag hvlan
    refine xdpRouter_of_unrouted e fun ip vlan hcarries => ?_
    obtain ⟨-, rfl⟩ := (carries_iff_of_tagged htag ip vlan).1 hcarries
    exact monitorArpUpdates_vlan interfaces stream ip hvlan

/-- A route to 10.0.0.2. -/
def routeOf10 : Routes := fun key =>
  if key = keyOf (.v4 0x0A000002#32) 0 then
    some ⟨⟨[1, 1, 1, 1, 1, 1], rfl⟩, ⟨[2, 2, 2, 2, 2, 2], rfl⟩, 7, 0⟩
  else none

/-- A frame to 10.0.0.2 is redirected. -/
theorem frame_to_route_redirected : xdpRouter .little routeOf10
    (List.replicate 12 9 ++ [8, 0] ++ List.replicate 16 5 ++ octets 0x0A000002#32) =
      some (.redirect 7, [2, 2, 2, 2, 2, 2, 1, 1, 1, 1, 1, 1] ++
        [8, 0] ++ List.replicate 16 5 ++ octets 0x0A000002#32) :=
  ((data_plane_exact .little routeOf10 _).1 (.v4 0x0A000002#32) 0
    ⟨⟨[1, 1, 1, 1, 1, 1], rfl⟩, ⟨[2, 2, 2, 2, 2, 2], rfl⟩, 7, 0⟩
    (Or.inl ⟨⟨by decide, by decide⟩, rfl⟩) (by decide)).1

-- with a priority tag, and in VLAN 1
example : xdpRouter .big routeOf10
    (List.replicate 12 9 ++ [0x81, 0, 0x20, 0, 8, 0] ++ List.replicate 16 5 ++ [10, 0, 0, 2]) =
      some (.redirect 7, [2, 2, 2, 2, 2, 2, 1, 1, 1, 1, 1, 1] ++
        [0x81, 0, 0x20, 0, 8, 0] ++ List.replicate 16 5 ++ [10, 0, 0, 2]) := by decide
example : (xdpRouter .little routeOf10
    (List.replicate 12 9 ++ [0x81, 0, 0x20, 1, 8, 0] ++ List.replicate 16 5 ++
      [10, 0, 0, 2])).map Prod.fst = some .pass := by decide

end RustSamples.XdpRouter
