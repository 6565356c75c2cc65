import RustSamples.RustNet
import RustSamples.RustStr

/-! # The two programs of `xdp_firewall`

The userspace program reads a blocklist again and again and inserts a key for every
network it lists into a map; the eBPF program looks up the source of every TCP packet
in that map.  They share no code: each builds its keys by itself.

What is outside the repository is a parameter.  The map is a trie with the law of
longest-prefix matching, in which no insertion fails; the parsers are any two
functions, of which it is only known that a text which is a network is not an address.
A `HashSet` is iterated in some order, different at every load, so that order is part
of a load.
-/
namespace RustSamples.Xdp
open Lpm RustNet RustStr

/-- `dst[0..src.len()].copy_from_slice(src)`. -/
def copyFromSlice (dst src : List UInt8) : List UInt8 := src ++ dst.drop src.length

/-! ## Userspace -/

/-- `IpNet::from_str` and `IpAddr::from_str`.  A network is written with a slash, an
address without. -/
structure Parsers where
  ipNet : List Char → Option IpNet
  ipAddr : List Char → Option IpAddr
  disjoint : ∀ s net, ipNet s = some net → ipAddr s = none

/-- What one line of the file adds to `current_networks`. -/
def Parsers.lineNetwork (P : Parsers) (line : List Char) : Option IpNet :=
  let entry := trim line
  if entry.isEmpty || entry.head? = some '#' then none
  else
    match P.ipNet entry with
    | some net => some net
    | none => (P.ipAddr entry).map IpNet.ofAddr

/-- The networks inserted into `current_networks`, in the order of the file. -/
def Parsers.currentNetworks (P : Parsers) (contents : String) : List IpNet :=
  (lines contents.toList).filterMap P.lineNetwork

/-- The userspace `IpKey`. -/
structure IpKey where
  ipType : UInt8
  addr : List UInt8
deriving DecidableEq

/-- `Key::new(prefix_len, data)`, as the map sees it: the bytes of `IpKey` in order. -/
def IpKey.toKey (data : IpKey) (prefixLen : UInt32) : Key :=
  ⟨prefixLen.toNat, data.ipType :: data.addr⟩

/-- The key of a network.  The sum is one of `u8`. -/
def netKey : IpNet → Key
  | .v4 net =>
      IpKey.toKey ⟨4, copyFromSlice (List.replicate 16 0) (octets net.network)⟩
        (net.prefixLen + 8).toUInt32
  | .v6 net => IpKey.toKey ⟨6, octets net.network⟩ (net.prefixLen + 8).toUInt32

/-- A file that was read, and the order in which its `current_networks` are iterated. -/
structure Load (P : Parsers) where
  contents : String
  order : List IpNet
  nodup : order.Nodup
  mem_order : ∀ net, net ∈ order ↔ net ∈ P.currentNetworks contents

/-- An iteration of the loop. -/
inductive Iteration (P : Parsers)
  | openFailed
  | readFailed
  | loaded (load : Load P)

/-- The map after an iteration. -/
def Iteration.apply {P : Parsers} (T : Trie) (map : T.State) : Iteration P → T.State
  | .openFailed | .readFailed => map
  | .loaded load => load.order.foldl (fun map net => T.insert map (netKey net)) map

/-- The map after some iterations; it is created empty. -/
def blockedIps {P : Parsers} (T : Trie) (iterations : List (Iteration P)) : T.State :=
  iterations.foldl (Iteration.apply T) T.empty

/-! ## The eBPF program -/

/-- `xdp_action`. -/
inductive XdpAction
  | aborted
  | drop
  | pass
  | tx
  | redirect
deriving DecidableEq

/-- The byte order of the machine. -/
inductive Endian
  | little
  | big
deriving DecidableEq

/-- A `u16` load. -/
def Endian.loadU16 : Endian → UInt8 → UInt8 → BitVec 16
  | .little, b₀, b₁ => b₁.toBitVec ++ b₀.toBitVec
  | .big, b₀, b₁ => b₀.toBitVec ++ b₁.toBitVec

/-- `u16::from_be`. -/
def Endian.fromBe : Endian → BitVec 16 → BitVec 16
  | .little, n => n.extractLsb' 0 8 ++ n.extractLsb' 8 8
  | .big, n => n

/-- A `u32` load. -/
def Endian.loadU32 : Endian → UInt8 → UInt8 → UInt8 → UInt8 → BitVec 32
  | .little, b₀, b₁, b₂, b₃ => b₃.toBitVec ++ b₂.toBitVec ++ b₁.toBitVec ++ b₀.toBitVec
  | .big, b₀, b₁, b₂, b₃ => b₀.toBitVec ++ b₁.toBitVec ++ b₂.toBitVec ++ b₃.toBitVec

/-- `to_ne_bytes` of a `u32`. -/
def Endian.toNeBytes : Endian → BitVec 32 → List UInt8
  | .little, n => [0, 8, 16, 24].map fun i => UInt8.ofBitVec (n.extractLsb' i 8)
  | .big, n => [24, 16, 8, 0].map fun i => UInt8.ofBitVec (n.extractLsb' i 8)

/-- The eBPF `IpKey`. -/
structure EbpfIpKey where
  prefixlen : UInt32
  ipType : UInt8
  addr : List UInt8
deriving DecidableEq

/-- The key as the map sees it: a prefix length, then bytes. -/
def EbpfIpKey.toKey (key : EbpfIpKey) : Key := ⟨key.prefixlen.toNat, key.ipType :: key.addr⟩

/-- `size_of::<ethhdr>()`, `size_of::<iphdr>()` and `size_of::<ipv6hdr>()`. -/
def ethhdrSize : Nat := 14
def iphdrSize : Nat := 20
def ipv6hdrSize : Nat := 40

def ethPIp : BitVec 16 := 0x0800
def ethPIpv6 : BitVec 16 := 0x86DD

section
variable (T : Trie) (e : Endian) (map : T.State)

/-- `try_xdp_firewall` on the bytes between `data` and `data_end`.  In an `iphdr` the
protocol is byte 9 and the source address bytes 12 to 15, in an `ipv6hdr` the next
header is byte 6 and the source address bytes 8 to 23. -/
def tryXdpFirewall (packet : List UInt8) : Except Unit XdpAction :=
  if heth : packet.length < ethhdrSize then .error ()
  else
    have : 14 ≤ packet.length := Nat.not_lt.mp heth
    let proto := e.loadU16 packet[12] packet[13]
    if proto = e.fromBe ethPIp then
      if hip : packet.length < ethhdrSize + iphdrSize then .error ()
      else
        have : 34 ≤ packet.length := Nat.not_lt.mp hip
        if packet[23] ≠ 6 then .ok .pass
        else
          let srcIp := e.loadU32 packet[26] packet[27] packet[28] packet[29]
          let key : EbpfIpKey :=
            ⟨40, 4, copyFromSlice (List.replicate 16 0) (e.toNeBytes srcIp)⟩
          if T.get map key.toKey then .ok .drop else .ok .pass
    else if proto = e.fromBe ethPIpv6 then
      if hip6 : packet.length < ethhdrSize + ipv6hdrSize then .error ()
      else
        have : 54 ≤ packet.length := Nat.not_lt.mp hip6
        if packet[20] ≠ 6 then .ok .pass
        else
          let key : EbpfIpKey := ⟨136, 6, (packet.drop 22).take 16⟩
          if T.get map key.toKey then .ok .drop else .ok .pass
    else .ok .pass

def xdpFirewall (packet : List UInt8) : XdpAction :=
  match tryXdpFirewall T e map packet with
  | .ok action => action
  | .error _ => .pass

end

/-! ## What is read of a packet -/

/-- The type of an Ethernet header is compared byte by byte, in either byte order. -/
theorem loadU16_eq_fromBe (e : Endian) (b₀ b₁ : UInt8) (hi lo : BitVec 8) :
    e.loadU16 b₀ b₁ = e.fromBe (hi ++ lo) ↔ b₀.toBitVec = hi ∧ b₁.toBitVec = lo := by
  have hinj : ∀ x y z w : BitVec 8, x ++ y = z ++ w ↔ x = z ∧ y = w := by
    intro x y z w
    constructor
    · intro h
      refine ⟨?_, ?_⟩
      · rw [← BitVec.extractLsb'_append_eq_left (a := x) (b := y), h,
          BitVec.extractLsb'_append_eq_left]
      · rw [← BitVec.extractLsb'_append_eq_right (a := x) (b := y), h,
          BitVec.extractLsb'_append_eq_right]
    · rintro ⟨rfl, rfl⟩; rfl
  cases e with
  | little =>
    rw [Endian.loadU16, Endian.fromBe, BitVec.extractLsb'_append_eq_left,
      BitVec.extractLsb'_append_eq_right, hinj, and_comm]
  | big => rw [Endian.loadU16, Endian.fromBe, hinj]

theorem extractLsb'_bytes (x y z w : BitVec 8) :
    (x ++ y ++ z ++ w).extractLsb' 24 8 = x ∧ (x ++ y ++ z ++ w).extractLsb' 16 8 = y ∧
      (x ++ y ++ z ++ w).extractLsb' 8 8 = z ∧ (x ++ y ++ z ++ w).extractLsb' 0 8 = w := by
  refine ⟨?_, ?_, ?_, ?_⟩
  · rw [BitVec.extractLsb'_append_eq_of_le (by decide),
      BitVec.extractLsb'_append_eq_of_le (by decide), BitVec.extractLsb'_append_eq_left]
  · rw [BitVec.extractLsb'_append_eq_of_le (by decide),
      BitVec.extractLsb'_append_eq_of_le (by decide), BitVec.extractLsb'_append_eq_right]
  · rw [BitVec.extractLsb'_append_eq_of_le (by decide), BitVec.extractLsb'_append_eq_right]
  · rw [BitVec.extractLsb'_append_eq_right]

/-- Loading the source address and storing it gives its bytes, in either byte order. -/
theorem toNeBytes_loadU32 (e : Endian) (b₀ b₁ b₂ b₃ : UInt8) :
    e.toNeBytes (e.loadU32 b₀ b₁ b₂ b₃) = [b₀, b₁, b₂, b₃] := by
  cases e with
  | little =>
    obtain ⟨h₃, h₂, h₁, h₀⟩ := extractLsb'_bytes b₃.toBitVec b₂.toBitVec b₁.toBitVec b₀.toBitVec
    simp only [Endian.toNeBytes, Endian.loadU32, List.map_cons, List.map_nil, List.cons.injEq,
      and_true]
    exact ⟨congrArg UInt8.ofBitVec h₀, congrArg UInt8.ofBitVec h₁, congrArg UInt8.ofBitVec h₂,
      congrArg UInt8.ofBitVec h₃⟩
  | big =>
    obtain ⟨h₀, h₁, h₂, h₃⟩ := extractLsb'_bytes b₀.toBitVec b₁.toBitVec b₂.toBitVec b₃.toBitVec
    simp only [Endian.toNeBytes, Endian.loadU32, List.map_cons, List.map_nil, List.cons.injEq,
      and_true]
    exact ⟨congrArg UInt8.ofBitVec h₀, congrArg UInt8.ofBitVec h₁, congrArg UInt8.ofBitVec h₂,
      congrArg UInt8.ofBitVec h₃⟩

theorem proto_eq_iff (e : Endian) {packet : List UInt8} (h : 14 ≤ packet.length)
    (hi lo : BitVec 8) : e.loadU16 packet[12] packet[13] = e.fromBe (hi ++ lo) ↔
      packet[12]? = some (.ofBitVec hi) ∧ packet[13]? = some (.ofBitVec lo) := by
  rw [loadU16_eq_fromBe, List.getElem?_eq_getElem (show 12 < packet.length by omega),
    List.getElem?_eq_getElem (show 13 < packet.length by omega), Option.some.injEq,
    Option.some.injEq, ← UInt8.toBitVec_inj, ← UInt8.toBitVec_inj]

/-- The program takes a packet for IPv4 when bytes 12 and 13 say so. -/
theorem proto_eq_ip_iff (e : Endian) {packet : List UInt8} (h : 14 ≤ packet.length) :
    e.loadU16 packet[12] packet[13] = e.fromBe ethPIp ↔
      packet[12]? = some 0x08 ∧ packet[13]? = some 0x00 := proto_eq_iff e h 0x08 0x00

theorem proto_eq_ipv6_iff (e : Endian) {packet : List UInt8} (h : 14 ≤ packet.length) :
    e.loadU16 packet[12] packet[13] = e.fromBe ethPIpv6 ↔
      packet[12]? = some 0x86 ∧ packet[13]? = some 0xDD := proto_eq_iff e h 0x86 0xDD

theorem take_drop_four {packet : List UInt8} (h : 34 ≤ packet.length) :
    (packet.drop 26).take 4 = [packet[26], packet[27], packet[28], packet[29]] := by
  rw [List.drop_eq_getElem_cons (show 26 < packet.length by omega),
    List.drop_eq_getElem_cons (show 27 < packet.length by omega),
    List.drop_eq_getElem_cons (show 28 < packet.length by omega),
    List.drop_eq_getElem_cons (show 29 < packet.length by omega)]
  rfl

end RustSamples.Xdp
