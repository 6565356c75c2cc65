import RustSamples.LastWrite
import RustSamples.RustNet

/-! # The control plane of `xdp_router`

`main` installs a route for every address of every interface that has a MAC, and
`monitor_arp_updates` then follows the neighbour messages of the kernel: a message that
names an address and a six-byte link-layer address sets the destination MAC of the route
to that address, if there is one.

A message is a list of attributes, any of which may be missing, repeated or of an odd
length.  The scan of a message starts from the *first* link-layer address (`refLlAddr`) but
goes on to overwrite it, so that the last one counts, as for the destination
(`scan_eq`).  What the routes are in the end is told in the bytes of the messages (`Tells`).

The map is a function of the fields of the key; insertions succeed.  The two bytes of padding behind
`vlan_id`, which are part of the key that the kernel compares, are left out.
-/
namespace RustSamples.XdpRouter
open RustStr RustNet LastWrite

/-! ## Routes -/

/-- `[u8; 6]`. -/
abbrev Mac := { bytes : List UInt8 // bytes.length = 6 }

structure RouteKey where
  ipType : UInt32
  ipV4 : List UInt8
  ipV6 : List UInt8
  vlanId : UInt16
  deriving DecidableEq

structure RouteValue where
  srcMac : Mac
  dstMac : Mac
  ifIndex : UInt32
  vlanId : UInt16
  deriving DecidableEq

/-- The eBPF map `ROUTES`, as a function of the fields of a key: `RouteKey` has two bytes of
padding, which are taken to be the same in every key. -/
abbrev Routes := RouteKey → Option RouteValue

/-- The key of an address: type 4 or 6, the other address field zero, no VLAN. -/
def routeKey : IpAddr → RouteKey
  | .v4 v4 => ⟨4, octets v4, List.replicate 16 0, 0⟩
  | .v6 v6 => ⟨6, List.replicate 4 0, octets v6, 0⟩

/-- ff:ff:ff:ff:ff:ff. -/
def broadcast : Mac := ⟨List.replicate 6 0xff, rfl⟩

/-- `parse_mac`: a part that is no hexadecimal byte counts as zero, and so does everything
unless there are six parts. -/
def parseMac (macStr : List Char) : Mac :=
  if h : (macStr.splitOn ':').length = 6 then
    ⟨(macStr.splitOn ':').map fun part => (u8FromStrRadix16 part).toOption.getD 0, by
      rw [List.length_map, h]⟩
  else ⟨List.replicate 6 0, rfl⟩

structure NetworkInterface where
  index : UInt32
  macAddr : Option (List Char)
  addr : List IpAddr
  deriving DecidableEq

/-- The loop over the interfaces: one without a MAC is skipped. -/
def installInterface (routes : Routes) (iface : NetworkInterface) : Routes :=
  iface.macAddr.elim routes fun mac =>
    iface.addr.foldl (fun routes ip => Function.update routes (routeKey ip)
      (some ⟨parseMac mac, broadcast, iface.index, 0⟩)) routes

def install (interfaces : List NetworkInterface) : Routes :=
  interfaces.foldl installInterface fun _ => none

/-! ## Neighbour messages -/

inductive NeighbourAttribute
  | destination (ipBytes : List UInt8)
  | linkLayerAddress (mac : List UInt8)
  | other
  deriving DecidableEq

/-- The address of a destination attribute: four or sixteen bytes. -/
def ipOfBytes (ipBytes : List UInt8) : Option IpAddr :=
  if ipBytes.length = 4 then
    some (.v4 (ipv4OfOctets (ipBytes.getD 0 0) (ipBytes.getD 1 0) (ipBytes.getD 2 0)
      (ipBytes.getD 3 0)))
  else if ipBytes.length = 16 then
    some (.v6 (BitVec.ofNat 128 (ipBytes.foldl (fun n b => 256 * n + b.toNat) 0)))
  else none

/-- `ref_ll_addr`. -/
def refLlAddr (nlas : List NeighbourAttribute) : Option (List UInt8) :=
  nlas.findSome? fun
    | .linkLayerAddress mac => some mac
    | _ => none

/-- The two variables of the scan. -/
structure Scan where
  destinationIp : Option IpAddr
  llAddr : Option (List UInt8)
  deriving DecidableEq

/-- The body of the loop over the attributes. -/
def Scan.attribute (s : Scan) : NeighbourAttribute → Scan
  | .destination ipBytes => { s with destinationIp := (ipOfBytes ipBytes).or s.destinationIp }
  | .linkLayerAddress mac => { s with llAddr := some mac }
  | .other => s

def scan (nlas : List NeighbourAttribute) : Scan :=
  nlas.foldl Scan.attribute ⟨none, refLlAddr nlas⟩

/-- A slice of six bytes as an array. -/
def macOfBytes (mac : List UInt8) : Option Mac :=
  if h : mac.length = 6 then some ⟨mac, h⟩ else none

/-- The address and the MAC that a message sets, if it sets any. -/
def Scan.mapping (s : Scan) : Option (IpAddr × Mac) :=
  s.destinationIp.bind fun ip => s.llAddr.bind fun mac => (macOfBytes mac).map fun mac => (ip, mac)

/-- A route that exists gets a new destination MAC. -/
def setDstMac (routes : Routes) (ip : IpAddr) (mac : Mac) : Routes :=
  (routes (routeKey ip)).elim routes fun currentRoute =>
    Function.update routes (routeKey ip) (some { currentRoute with dstMac := mac })

/-- One round of `monitor_arp_updates`; `none` is a stream error, which is only logged. -/
def onMessage (routes : Routes) (msg : Option (List NeighbourAttribute)) : Routes :=
  (msg.bind fun nlas => (scan nlas).mapping).elim routes fun m => setDstMac routes m.1 m.2

def monitorArpUpdates (routes : Routes) (stream : List (Option (List NeighbourAttribute))) :
    Routes :=
  stream.foldl onMessage routes

/-! ## What is installed and what the messages leave -/

/-- The address that an attribute gives. -/
def NeighbourAttribute.destination? : NeighbourAttribute → Option IpAddr
  | .destination ipBytes => ipOfBytes ipBytes
  | _ => none

def NeighbourAttribute.linkLayer? : NeighbourAttribute → Option (List UInt8)
  | .linkLayerAddress mac => some mac
  | _ => none

/-- The address of the last destination attribute of four or sixteen bytes. -/
def lastDestination (nlas : List NeighbourAttribute) : Option IpAddr :=
  (nlas.filterMap NeighbourAttribute.destination?).getLast?

/-- The last link-layer address. -/
def lastLinkLayer (nlas : List NeighbourAttribute) : Option (List UInt8) :=
  (nlas.filterMap NeighbourAttribute.linkLayer?).getLast?

/-- The MAC that a message gives the address `ip`: the last link-layer address, if it has six
bytes and the last destination is `ip`. -/
def neighbourMac (ip : IpAddr) (nlas : List NeighbourAttribute) : Option Mac :=
  if lastDestination nlas = some ip then (lastLinkLayer nlas).bind macOfBytes else none

/-- The MAC from the latest message that gives `ip` one. -/
def lastNeighbour (ip : IpAddr) (stream : List (Option (List NeighbourAttribute))) : Option Mac :=
  (stream.filterMap fun msg => msg.bind (neighbourMac ip)).getLast?

/-- The last listed interface that has a MAC and carries `ip`, with its MAC. -/
def lastCarrier (ip : IpAddr) (interfaces : List NetworkInterface) :
    Option (NetworkInterface × List Char) :=
  (interfaces.filterMap fun iface =>
    iface.macAddr.bind fun mac => if ip ∈ iface.addr then some (iface, mac) else none).getLast?

theorem octets_injective {w : Nat} (hw : 8 ∣ w) {a b : BitVec w} (h : octets a = octets b) :
    a = b := by
  refine BitVec.eq_of_getMsbD_eq fun i hi => ?_
  rw [← bitAt_octets hw a hi, ← bitAt_octets hw b hi, h]

theorem routeKey_injective {a b : IpAddr} (h : routeKey a = routeKey b) : a = b := by
  cases a <;> cases b <;> simp only [routeKey, RouteKey.mk.injEq] at h
  · exact congrArg IpAddr.v4 (octets_injective (by decide) h.2.1)
  · exact absurd h.1 (by decide)
  · exact absurd h.1 (by decide)
  · exact congrArg IpAddr.v6 (octets_injective (by decide) h.2.2.1)

/-- What one interface writes: its own value for each of its addresses. -/
theorem installInterface_apply (routes : Routes) (iface : NetworkInterface) (key : RouteKey) :
    installInterface routes iface key =
      (iface.macAddr.bind fun mac => if key ∈ iface.addr.map routeKey then
        some ⟨parseMac mac, broadcast, iface.index, 0⟩ else none).or (routes key) := by
  unfold installInterface
  cases iface.macAddr with
  | none => rfl
  | some mac =>
    rw [Option.elim_some, Option.bind_some, LastWrite.foldl_update_apply]
    by_cases hmem : key ∈ iface.addr.map routeKey
    · have hne : (iface.addr.filter fun ip => routeKey ip = key) ≠ [] := by
        obtain ⟨ip, hip, rfl⟩ := List.mem_map.mp hmem
        exact List.ne_nil_of_mem (List.mem_filter.mpr ⟨hip, by simp⟩)
      rw [List.getLast?_eq_some_getLast hne, if_pos hmem]
      rfl
    · have hnil : (iface.addr.filter fun ip => routeKey ip = key) = [] := by
        refine List.filter_eq_nil_iff.mpr fun ip hip heq => hmem ?_
        exact List.mem_map.mpr ⟨ip, hip, by simpa using heq⟩
      rw [hnil, if_neg hmem]
      rfl

theorem lastCarrier_concat (ip : IpAddr) (interfaces : List NetworkInterface)
    (iface : NetworkInterface) :
    lastCarrier ip (interfaces ++ [iface]) =
      (iface.macAddr.bind fun mac => if ip ∈ iface.addr then some (iface, mac) else none).or
        (lastCarrier ip interfaces) :=
  LastWrite.getLast?_filterMap_concat _ _ _

/-- **What is installed for an address**: the last interface listed with it, if it has a
MAC. -/
theorem install_routeKey (interfaces : List NetworkInterface) (ip : IpAddr) :
    install interfaces (routeKey ip) =
      (lastCarrier ip interfaces).map fun carrier =>
        ⟨parseMac carrier.2, broadcast, carrier.1.index, 0⟩ := by
  induction interfaces using List.reverseRecOn with
  | nil => rfl
  | append_singleton interfaces iface ih =>
    have hmem : routeKey ip ∈ iface.addr.map routeKey ↔ ip ∈ iface.addr :=
      List.mem_map_of_injective fun _ _ => routeKey_injective
    rw [install, List.foldl_append, List.foldl_cons, List.foldl_nil, ← install,
      installInterface_apply, ih, lastCarrier_concat, Option.map_or]
    congr 1
    cases iface.macAddr with
    | none => rfl
    | some mac =>
      by_cases hip : ip ∈ iface.addr
      · simp [hmem, hip]
      · simp [hmem, hip]

/-- Other keys stay free. -/
theorem install_other (interfaces : List NetworkInterface) {key : RouteKey}
    (hkey : ∀ ip, key ≠ routeKey ip) : install interfaces key = none := by
  induction interfaces using List.reverseRecOn with
  | nil => rfl
  | append_singleton interfaces iface ih =>
    have hmem : key ∉ iface.addr.map routeKey := fun h => by
      obtain ⟨ip, -, rfl⟩ := List.mem_map.mp h
      exact hkey ip rfl
    rw [install, List.foldl_append, List.foldl_cons, List.foldl_nil, ← install,
      installInterface_apply, ih]
    cases iface.macAddr <;> simp [hmem]

/-- The scan of the attributes from any start: the last find of each kind. -/
theorem foldl_attribute (nlas : List NeighbourAttribute) (s : Scan) :
    nlas.foldl Scan.attribute s =
      ⟨(lastDestination nlas).or s.destinationIp, (lastLinkLayer nlas).or s.llAddr⟩ := by
  induction nlas using List.reverseRecOn with
  | nil => rfl
  | append_singleton nlas a ih =>
    have hdest : lastDestination (nlas ++ [a]) = a.destination?.or (lastDestination nlas) :=
      LastWrite.getLast?_filterMap_concat _ _ _
    have hll : lastLinkLayer (nlas ++ [a]) = a.linkLayer?.or (lastLinkLayer nlas) :=
      LastWrite.getLast?_filterMap_concat _ _ _
    rw [List.foldl_append, List.foldl_cons, List.foldl_nil, ih, hdest, hll]
    cases a with
    | destination ipBytes =>
      simp [Scan.attribute, NeighbourAttribute.destination?, NeighbourAttribute.linkLayer?,
        Option.or_assoc]
    | linkLayerAddress mac =>
      simp [Scan.attribute, NeighbourAttribute.destination?, NeighbourAttribute.linkLayer?]
    | other => rfl

/-- **Last wins, for both fields**: the first link-layer address only matters where it is
the last one too. -/
theorem scan_eq (nlas : List NeighbourAttribute) :
    scan nlas = ⟨lastDestination nlas, lastLinkLayer nlas⟩ := by
  have hfirst : lastLinkLayer nlas = none → refLlAddr nlas = none := by
    intro h
    rw [lastLinkLayer, List.getLast?_eq_none_iff, List.filterMap_eq_nil_iff] at h
    refine List.findSome?_eq_none_iff.mpr fun a ha => ?_
    have hnone := h a ha
    cases a <;> simp_all [NeighbourAttribute.linkLayer?]
  rw [scan, foldl_attribute, Option.or_none]
  cases h : lastLinkLayer nlas with
  | none => rw [hfirst h]; rfl
  | some mac => rfl

theorem mapping_scan_eq_some_iff {nlas : List NeighbourAttribute} {ip : IpAddr} {mac : Mac} :
    (scan nlas).mapping = some (ip, mac) ↔ neighbourMac ip nlas = some mac := by
  rw [scan_eq, Scan.mapping, neighbourMac]
  cases lastDestination nlas with
  | none => simp
  | some ip' =>
    by_cases h : ip' = ip
    · subst h
      cases lastLinkLayer nlas with
      | none => simp
      | some bytes => cases hmac : macOfBytes bytes <;> simp [hmac]
    · simp [h, Option.bind_eq_some_iff]

theorem setDstMac_self (routes : Routes) (ip : IpAddr) (mac : Mac) :
    setDstMac routes ip mac (routeKey ip) =
      (routes (routeKey ip)).map fun route => { route with dstMac := mac } := by
  unfold setDstMac
  cases h : routes (routeKey ip) with
  | none => simp [h]
  | some route => simp

theorem setDstMac_of_ne (routes : Routes) (ip : IpAddr) (mac : Mac) {key : RouteKey}
    (hkey : key ≠ routeKey ip) : setDstMac routes ip mac key = routes key := by
  unfold setDstMac
  cases routes (routeKey ip) with
  | none => rfl
  | some route => exact Function.update_of_ne hkey _ _

/-- One message changes the destination MAC of one route, and nothing else. -/
theorem onMessage_routeKey (routes : Routes) (msg : Option (List NeighbourAttribute))
    (ip : IpAddr) :
    onMessage routes msg (routeKey ip) = (routes (routeKey ip)).map fun route =>
      { route with dstMac := (msg.bind (neighbourMac ip)).getD route.dstMac } := by
  have hsame : (routes (routeKey ip)).map (fun route =>
      { route with dstMac := (none : Option Mac).getD route.dstMac }) = routes (routeKey ip) := by
    cases routes (routeKey ip) <;> rfl
  unfold onMessage
  cases msg with
  | none => exact hsame.symm
  | some nlas =>
    rw [Option.bind_some, Option.bind_some]
    cases hmap : (scan nlas).mapping with
    | none =>
      have hmac : neighbourMac ip nlas = none := by
        cases h : neighbourMac ip nlas with
        | none => rfl
        | some mac => exact absurd (mapping_scan_eq_some_iff.mpr h) (by simp [hmap])
      rw [hmac]
      exact hsame.symm
    | some mapping =>
      obtain ⟨ip', mac⟩ := mapping
      rw [Option.elim_some]
      by_cases hip : ip' = ip
      · subst hip
        rw [setDstMac_self, mapping_scan_eq_some_iff.mp hmap]
        rfl
      · have hmac : neighbourMac ip nlas = none := by
          cases h : neighbourMac ip nlas with
          | none => rfl
          | some mac' =>
            have heq := hmap.symm.trans (mapping_scan_eq_some_iff.mpr h)
            exact absurd (congrArg Prod.fst (Option.some.inj heq)) hip
        rw [setDstMac_of_ne routes ip' mac fun h => hip (routeKey_injective h).symm, hmac]
        exact hsame.symm

theorem onMessage_other (routes : Routes) (msg : Option (List NeighbourAttribute))
    {key : RouteKey} (hkey : ∀ ip, key ≠ routeKey ip) : onMessage routes msg key = routes key := by
  unfold onMessage
  cases msg.bind fun nlas => (scan nlas).mapping with
  | none => rfl
  | some mapping => exact setDstMac_of_ne routes mapping.1 mapping.2 (hkey mapping.1)

/-- **What a stream of messages leaves**: the same route, with the MAC of the latest message
that gives its address one. -/
theorem monitorArpUpdates_routeKey (routes : Routes)
    (stream : List (Option (List NeighbourAttribute))) (ip : IpAddr) :
    monitorArpUpdates routes stream (routeKey ip) = (routes (routeKey ip)).map fun route =>
      { route with dstMac := (lastNeighbour ip stream).getD route.dstMac } := by
  induction stream using List.reverseRecOn with
  | nil =>
    change routes (routeKey ip) = _
    cases routes (routeKey ip) <;> rfl
  | append_singleton stream msg ih =>
    have hlast : lastNeighbour ip (stream ++ [msg]) =
        (msg.bind (neighbourMac ip)).or (lastNeighbour ip stream) :=
      LastWrite.getLast?_filterMap_concat _ _ _
    rw [monitorArpUpdates, List.foldl_append, List.foldl_cons, List.foldl_nil, ← monitorArpUpdates,
      onMessage_routeKey, ih, Option.map_map, hlast]
    congr 1
    funext route
    cases msg.bind (neighbourMac ip) <;> rfl

theorem monitorArpUpdates_other (routes : Routes)
    (stream : List (Option (List NeighbourAttribute))) {key : RouteKey}
    (hkey : ∀ ip, key ≠ routeKey ip) : monitorArpUpdates routes stream key = routes key := by
  induction stream using List.reverseRecOn with
  | nil => rfl
  | append_singleton stream msg ih =>
    rw [monitorArpUpdates, List.foldl_append, List.foldl_cons, List.foldl_nil, ← monitorArpUpdates,
      onMessage_other _ _ hkey, ih]

theorem lastCarrier_isSome_iff {ip : IpAddr} {interfaces : List NetworkInterface} :
    (lastCarrier ip interfaces).isSome ↔
      ∃ iface ∈ interfaces, iface.macAddr.isSome ∧ ip ∈ iface.addr := by
  rw [lastCarrier, List.getLast?_isSome, ne_eq, List.filterMap_eq_nil_iff]
  push Not
  refine exists_congr fun iface => and_congr_right fun _ => ?_
  cases iface.macAddr <;> simp

/-! ## In the bytes of the messages -/

/-- The key of an address: type 4 or 6, the other address field zero, no VLAN. -/
def AddressKey (ip : IpAddr) (key : RouteKey) : Prop :=
  key.vlanId = 0 ∧
    match ip with
    | .v4 addr => key.ipType = 4 ∧ key.ipV4 = octets addr ∧ key.ipV6 = List.replicate 16 0
    | .v6 addr => key.ipType = 6 ∧ key.ipV4 = List.replicate 4 0 ∧ key.ipV6 = octets addr

theorem addressKey_iff {ip : IpAddr} {key : RouteKey} : AddressKey ip key ↔ key = routeKey ip := by
  obtain ⟨ipType, ipV4, ipV6, vlanId⟩ := key
  cases ip <;> simp only [AddressKey, routeKey, RouteKey.mk.injEq] <;> tauto

/-- A destination of four or sixteen bytes. -/
def NeighbourAttribute.IsDestination (a : NeighbourAttribute) : Prop :=
  ∃ bytes : List UInt8, a = .destination bytes ∧ (bytes.length = 4 ∨ bytes.length = 16)

def NeighbourAttribute.IsLinkLayer (a : NeighbourAttribute) : Prop :=
  ∃ bytes : List UInt8, a = .linkLayerAddress bytes

/-- **A message tells the MAC of an address**: its last destination of four or sixteen bytes has the
octets of the address, and its last link-layer address the six bytes of the MAC. -/
def Tells (ip : IpAddr) (mac : Mac) (nlas : List NeighbourAttribute) : Prop :=
  IsLast NeighbourAttribute.IsDestination nlas (.destination ip.toBytes) ∧
    IsLast NeighbourAttribute.IsLinkLayer nlas (.linkLayerAddress mac.val)

/-- **What the neighbours have made of a destination MAC**: the one that the latest message about
the address tells, or ff:ff:ff:ff:ff:ff if there was none. -/
def DstMac (ip : IpAddr) (stream : List (Option (List NeighbourAttribute))) (mac : Mac) : Prop :=
  (∃ nlas, Tells ip mac nlas ∧
    IsLast (fun msg => ∃ nlas mac, msg = some nlas ∧ Tells ip mac nlas) stream (some nlas)) ∨
  (∀ nlas, some nlas ∈ stream → ∀ mac, ¬ Tells ip mac nlas) ∧
    mac.val = [0xff, 0xff, 0xff, 0xff, 0xff, 0xff]

/-- **A route of an address**: source MAC and index of the last interface listed that has a MAC and
carries it, and the destination MAC that the neighbours have left. -/
structure IsRoute (ip : IpAddr) (interfaces : List NetworkInterface)
    (stream : List (Option (List NeighbourAttribute))) (route : RouteValue) : Prop where
  carrier : ∃ iface text, IsLast (fun iface => iface.macAddr.isSome ∧ ip ∈ iface.addr)
    interfaces iface ∧ iface.macAddr = some text ∧ route.srcMac = parseMac text ∧
      route.ifIndex = iface.index
  vlanId : route.vlanId = 0
  dstMac : DstMac ip stream route.dstMac

/-- A MAC as text, such as 02:00:00:00:00:09. -/
def macText (mac : Mac) : List Char := [':'].intercalate (mac.val.map lowerHex)

/-- A MAC reads back. -/
theorem parseMac_macText (mac : Mac) : parseMac (macText mac) = mac := by
  have hcolon : ∀ part ∈ mac.val.map lowerHex, ':' ∉ part := by
    intro part hpart hmem
    obtain ⟨b, -, rfl⟩ := List.mem_map.1 hpart
    have hne : ∀ d < 16, hexDigit d ≠ ':' := by decide
    have hb := b.toNat_lt
    rcases List.mem_pair.1 hmem with h | h
    · exact hne _ (by omega) h.symm
    · exact hne _ (by omega) h.symm
  have hne : mac.val.map lowerHex ≠ [] := by
    intro h
    have hnil := congrArg List.length h
    rw [List.length_map, mac.property] at hnil
    cases hnil
  have hsplit : (macText mac).splitOn ':' = mac.val.map lowerHex :=
    List.splitOn_intercalate ':' hcolon hne
  have hbyte : (fun part => (u8FromStrRadix16 part).toOption.getD 0) ∘ lowerHex = id := by
    funext b
    rw [Function.comp_apply, u8FromStrRadix16_lowerHex]
    rfl
  rw [parseMac, dif_pos (by rw [hsplit, List.length_map, mac.property])]
  refine Subtype.ext ?_
  change ((macText mac).splitOn ':').map _ = mac.val
  rw [hsplit, List.map_map, hbyte, List.map_id]

theorem ipOfBytes_toBytes (ip : IpAddr) : ipOfBytes ip.toBytes = some ip := by
  cases ip with
  | v4 addr =>
    rw [ipOfBytes, IpAddr.toBytes, if_pos (length_octets addr), octets_v4]
    exact congrArg (some ∘ IpAddr.v4) (ipv4OfOctets_octets addr)
  | v6 addr =>
    have hfour : (octets addr).length ≠ 4 := by
      rw [length_octets]
      decide
    rw [ipOfBytes, IpAddr.toBytes, if_neg hfour, if_pos (length_octets addr),
      foldl_octets (by decide), BitVec.ofNat_toNat, BitVec.setWidth_eq]

/-- What is read as an address is its octets. -/
theorem ipOfBytes_eq_some_iff {bytes : List UInt8} {ip : IpAddr} :
    ipOfBytes bytes = some ip ↔ bytes = ip.toBytes := by
  constructor
  · intro h
    have hlen : bytes.length = 4 ∨ bytes.length = 16 := by
      by_contra! hno
      rw [ipOfBytes, if_neg hno.1, if_neg hno.2] at h
      cases h
    obtain ⟨ip', rfl⟩ : ∃ ip' : IpAddr, bytes = ip'.toBytes := by
      rcases hlen with hlen | hlen
      · obtain ⟨addr, rfl⟩ := exists_octets_eq (w := 32) (by rw [hlen])
        exact ⟨.v4 addr, rfl⟩
      · obtain ⟨addr, rfl⟩ := exists_octets_eq (w := 128) (by rw [hlen])
        exact ⟨.v6 addr, rfl⟩
    rw [ipOfBytes_toBytes] at h
    exact Option.some.inj h ▸ rfl
  · rintro rfl
    exact ipOfBytes_toBytes ip

theorem macOfBytes_eq_some_iff {bytes : List UInt8} {mac : Mac} :
    macOfBytes bytes = some mac ↔ bytes = mac.val := by
  unfold macOfBytes
  split
  · rename_i hlen
    rw [Option.some_inj]
    exact ⟨fun h => congrArg Subtype.val h, fun h => Subtype.ext h⟩
  · rename_i hlen
    exact iff_of_false nofun fun h => hlen (h ▸ mac.property)

theorem lastDestination_eq_some_iff {ip : IpAddr} {nlas : List NeighbourAttribute} :
    lastDestination nlas = some ip ↔
      IsLast NeighbourAttribute.IsDestination nlas (.destination ip.toBytes) := by
  have hlength : ip.toBytes.length = 4 ∨ ip.toBytes.length = 16 := by
    cases ip with
    | v4 addr => exact Or.inl (length_octets addr)
    | v6 addr => exact Or.inr (length_octets addr)
  have hfound : ∀ a : NeighbourAttribute, a.IsDestination ↔ a.destination?.isSome := by
    intro a
    cases a with
    | destination bytes =>
      rw [NeighbourAttribute.destination?, ipOfBytes]
      constructor
      · rintro ⟨_, heq, hlen⟩
        obtain rfl := NeighbourAttribute.destination.inj heq
        rcases hlen with hlen | hlen <;> simp [hlen]
      · intro hsome
        refine ⟨bytes, rfl, ?_⟩
        by_contra hlen
        rw [not_or] at hlen
        simp [hlen.1, hlen.2] at hsome
    | linkLayerAddress bytes => exact iff_of_false nofun Bool.false_ne_true
    | other => exact iff_of_false nofun Bool.false_ne_true
  rw [lastDestination, getLast?_filterMap_eq_some_iff hfound]
  constructor
  · rintro ⟨a, hlast, ha⟩
    cases a with
    | destination bytes => exact (ipOfBytes_eq_some_iff.1 ha) ▸ hlast
    | linkLayerAddress bytes => cases ha
    | other => cases ha
  · exact fun hlast => ⟨_, hlast, ipOfBytes_eq_some_iff.2 rfl⟩

theorem lastLinkLayer_eq_some_iff {bytes : List UInt8} {nlas : List NeighbourAttribute} :
    lastLinkLayer nlas = some bytes ↔
      IsLast NeighbourAttribute.IsLinkLayer nlas (.linkLayerAddress bytes) := by
  have hfound : ∀ a : NeighbourAttribute, a.IsLinkLayer ↔ a.linkLayer?.isSome := by
    intro a
    cases a <;> simp [NeighbourAttribute.IsLinkLayer, NeighbourAttribute.linkLayer?]
  rw [lastLinkLayer, getLast?_filterMap_eq_some_iff hfound]
  constructor
  · rintro ⟨a, hlast, ha⟩
    cases a with
    | linkLayerAddress bytes' => exact Option.some.inj ha ▸ hlast
    | destination bytes' => cases ha
    | other => cases ha
  · exact fun hlast => ⟨_, hlast, rfl⟩

/-- What is found in a message is what it tells. -/
theorem neighbourMac_eq_some_iff {ip : IpAddr} {mac : Mac} {nlas : List NeighbourAttribute} :
    neighbourMac ip nlas = some mac ↔ Tells ip mac nlas := by
  rw [neighbourMac, Tells, ← lastDestination_eq_some_iff, ← lastLinkLayer_eq_some_iff]
  by_cases hip : lastDestination nlas = some ip
  · rw [if_pos hip, Option.bind_eq_some_iff]
    simp only [macOfBytes_eq_some_iff, hip, true_and]
    exact ⟨fun ⟨bytes, hbytes, hmac⟩ => hmac ▸ hbytes, fun h => ⟨_, h, rfl⟩⟩
  · rw [if_neg hip]
    exact iff_of_false nofun fun h => hip h.1

theorem lastNeighbour_eq_some_iff {ip : IpAddr} {stream : List (Option (List NeighbourAttribute))}
    {mac : Mac} : lastNeighbour ip stream = some mac ↔ ∃ nlas, Tells ip mac nlas ∧
      IsLast (fun msg => ∃ nlas mac, msg = some nlas ∧ Tells ip mac nlas) stream (some nlas) := by
  have hfound : ∀ msg : Option (List NeighbourAttribute),
      (∃ nlas mac, msg = some nlas ∧ Tells ip mac nlas) ↔ (msg.bind (neighbourMac ip)).isSome := by
    intro msg
    cases msg with
    | none => simp
    | some nlas => simp [Option.isSome_iff_exists, neighbourMac_eq_some_iff]
  rw [lastNeighbour, getLast?_filterMap_eq_some_iff hfound]
  constructor
  · rintro ⟨msg, hlast, hmsg⟩
    obtain ⟨nlas, rfl, hmac⟩ := Option.bind_eq_some_iff.1 hmsg
    exact ⟨nlas, neighbourMac_eq_some_iff.1 hmac, hlast⟩
  · rintro ⟨nlas, htells, hlast⟩
    exact ⟨some nlas, hlast, neighbourMac_eq_some_iff.2 htells⟩

theorem lastNeighbour_eq_none_iff {ip : IpAddr}
    {stream : List (Option (List NeighbourAttribute))} :
    lastNeighbour ip stream = none ↔ ∀ nlas, some nlas ∈ stream → ∀ mac, ¬ Tells ip mac nlas := by
  rw [lastNeighbour, List.getLast?_eq_none_iff, List.filterMap_eq_nil_iff]
  constructor
  · intro h nlas hmem mac htells
    have hmsg := h _ hmem
    rw [Option.bind_some, neighbourMac_eq_some_iff.2 htells] at hmsg
    cases hmsg
  · intro h msg hmem
    cases msg with
    | none => rfl
    | some nlas =>
      refine Option.eq_none_iff_forall_ne_some.2 fun mac hmac => ?_
      exact h nlas hmem mac (neighbourMac_eq_some_iff.1 hmac)

/-- What is left of a stream is the MAC that `DstMac` tells. -/
theorem lastNeighbour_eq_iff {ip : IpAddr} {stream : List (Option (List NeighbourAttribute))}
    {mac : Mac} : (lastNeighbour ip stream).getD broadcast = mac ↔ DstMac ip stream mac := by
  rw [DstMac, ← lastNeighbour_eq_some_iff, ← lastNeighbour_eq_none_iff]
  cases lastNeighbour ip stream with
  | none => simp [Subtype.ext_iff, broadcast, eq_comm]
  | some mac' => simp

/-- The last carrier, without a function that looks for it. -/
theorem lastCarrier_eq_some_iff {ip : IpAddr} {interfaces : List NetworkInterface}
    {iface : NetworkInterface} {text : List Char} :
    lastCarrier ip interfaces = some (iface, text) ↔
      IsLast (fun iface => iface.macAddr.isSome ∧ ip ∈ iface.addr) interfaces iface ∧
        iface.macAddr = some text := by
  have hfound : ∀ iface : NetworkInterface, iface.macAddr.isSome ∧ ip ∈ iface.addr ↔
      (iface.macAddr.bind fun mac =>
        if ip ∈ iface.addr then some (iface, mac) else none).isSome := by
    intro iface
    cases iface.macAddr <;> simp
  rw [lastCarrier, getLast?_filterMap_eq_some_iff hfound]
  constructor
  · rintro ⟨iface', hlast, hcarrier⟩
    obtain ⟨mac, hmac, hif⟩ := Option.bind_eq_some_iff.1 hcarrier
    obtain ⟨-, heq⟩ := Option.ite_none_right_eq_some.1 hif
    obtain ⟨rfl, rfl⟩ := Prod.mk.inj (Option.some.inj heq)
    exact ⟨hlast, hmac⟩
  · rintro ⟨hlast, hmac⟩
    refine ⟨iface, hlast, ?_⟩
    rw [hmac, Option.bind_some, if_pos hlast.1.2]

/-- **The control plane, whole.**  After installing any interfaces and processing any stream
of neighbour messages, the keys of `ROUTES` are exactly those of the addresses of interfaces
with a MAC.  The route of an address has the source MAC and the index of the last listed
such interface, no VLAN, and as destination MAC the last link-layer address of the latest
message that names the address last and whose last link-layer address has six bytes, or
ff:ff:ff:ff:ff:ff if there was none.  The MAC of an interface is read as it is written. -/
theorem routes_after_messages (interfaces : List NetworkInterface)
    (stream : List (Option (List NeighbourAttribute))) :
    (∀ key, (monitorArpUpdates (install interfaces) stream key).isSome ↔
      ∃ iface ∈ interfaces, iface.macAddr.isSome ∧ ∃ ip ∈ iface.addr, AddressKey ip key) ∧
    (∀ ip key route, AddressKey ip key →
      (monitorArpUpdates (install interfaces) stream key = some route ↔
        IsRoute ip interfaces stream route)) ∧
    ∀ mac, parseMac (macText mac) = mac := by
  have hroute : ∀ ip, monitorArpUpdates (install interfaces) stream (routeKey ip) =
      (lastCarrier ip interfaces).map fun carrier =>
        ⟨parseMac carrier.2, (lastNeighbour ip stream).getD broadcast, carrier.1.index, 0⟩ := by
    intro ip
    rw [monitorArpUpdates_routeKey, install_routeKey, Option.map_map]
    rfl
  refine ⟨fun key => ?_, fun ip key route hkey => ?_, parseMac_macText⟩
  · by_cases hkey : ∃ ip, key = routeKey ip
    · obtain ⟨ip, rfl⟩ := hkey
      rw [hroute, Option.isSome_map, lastCarrier_isSome_iff]
      constructor
      · rintro ⟨iface, hmem, hmac, hip⟩
        exact ⟨iface, hmem, hmac, ip, hip, addressKey_iff.2 rfl⟩
      · rintro ⟨iface, hmem, hmac, ip', hip, hkey⟩
        exact ⟨iface, hmem, hmac, routeKey_injective (addressKey_iff.1 hkey) ▸ hip⟩
    · rw [monitorArpUpdates_other _ _ (fun ip h => hkey ⟨ip, h⟩),
        install_other _ (fun ip h => hkey ⟨ip, h⟩)]
      refine iff_of_false (by simp) ?_
      rintro ⟨iface, -, -, ip, -, hip⟩
      exact hkey ⟨ip, addressKey_iff.1 hip⟩
  · obtain rfl := addressKey_iff.1 hkey
    rw [hroute, Option.map_eq_some_iff]
    constructor
    · rintro ⟨⟨iface, text⟩, hcarrier, rfl⟩
      obtain ⟨hlast, hmac⟩ := lastCarrier_eq_some_iff.1 hcarrier
      exact ⟨⟨iface, text, hlast, hmac, rfl, rfl⟩, rfl, lastNeighbour_eq_iff.1 rfl⟩
    · rintro ⟨⟨iface, text, hlast, hmac, hsrc, hindex⟩, hvlan, hdst⟩
      refine ⟨(iface, text), lastCarrier_eq_some_iff.2 ⟨hlast, hmac⟩, ?_⟩
      rw [lastNeighbour_eq_iff.2 hdst]
      cases route
      cases hsrc
      cases hindex
      cases hvlan
      rfl

/-- One interface, 01:01:01:01:01:01, with the address 10.0.0.2. -/
def oneInterface : List NetworkInterface :=
  [⟨7, some "01:01:01:01:01:01".toList, [.v4 0x0A000002#32]⟩]

/-- A message that tells a MAC of 10.0.0.2, behind two attributes that do not count. -/
def tellsMac : List NeighbourAttribute :=
  [.linkLayerAddress [1], .destination [10, 0, 0, 1], .destination [10, 0, 0, 2],
    .destination [10], .linkLayerAddress [2, 0, 0, 0, 0, 9]]

theorem tells_tellsMac : Tells (.v4 0x0A000002#32) ⟨[2, 0, 0, 0, 0, 9], rfl⟩ tellsMac := by
  refine ⟨⟨⟨_, rfl, Or.inl (by decide)⟩, [.linkLayerAddress [1], .destination [10, 0, 0, 1]],
    [.destination [10], .linkLayerAddress [2, 0, 0, 0, 0, 9]], by decide, ?_⟩,
    ⟨⟨_, rfl⟩, tellsMac.take 4, [], by decide, List.forall_mem_nil _⟩⟩
  simp [NeighbourAttribute.IsDestination]

/-- The neighbour becomes known, and a stream error and another neighbour change nothing. -/
theorem neighbour_becomes_known :
    monitorArpUpdates (install oneInterface) [some tellsMac, none, some [.destination [10, 0, 0, 3],
      .linkLayerAddress [5, 5, 5, 5, 5, 5]]] ⟨4, [10, 0, 0, 2], List.replicate 16 0, 0⟩ =
        some ⟨⟨[1, 1, 1, 1, 1, 1], rfl⟩, ⟨[2, 0, 0, 0, 0, 9], rfl⟩, 7, 0⟩ := by
  have hkey : AddressKey (.v4 0x0A000002#32) ⟨4, [10, 0, 0, 2], List.replicate 16 0, 0⟩ :=
    ⟨rfl, rfl, by decide, rfl⟩
  refine ((routes_after_messages oneInterface _).2.1 _ _ _ hkey).2
    ⟨⟨_, _, ⟨⟨rfl, List.mem_singleton_self _⟩, [], [], rfl, List.forall_mem_nil _⟩, rfl, by decide,
      rfl⟩, rfl, Or.inl ⟨tellsMac, tells_tellsMac, ⟨_, _, rfl, tells_tellsMac⟩, [], _, rfl, ?_⟩⟩
  intro msg hmsg
  rcases List.mem_pair.1 hmsg with rfl | rfl
  · rintro ⟨nlas, mac, hnone, -⟩
    cases hnone
  · rintro ⟨nlas, mac, hsome, hdestination, -⟩
    obtain rfl := Option.some.inj hsome
    have hbytes := hdestination.mem
    simp only [List.mem_cons, NeighbourAttribute.destination.injEq, List.not_mem_nil, or_false,
      reduceCtorEq] at hbytes
    revert hbytes
    decide

-- of two destinations and two link-layer addresses the later ones count, a destination of an
-- odd length does not
example : scan [.linkLayerAddress [1], .destination [10, 0, 0, 1], .destination [10, 0, 0, 2],
    .destination [10], .linkLayerAddress [2, 0, 0, 0, 0, 9]] =
      ⟨some (.v4 0x0A000002#32), some [2, 0, 0, 0, 0, 9]⟩ := by decide

end RustSamples.XdpRouter
