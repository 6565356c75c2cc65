import Mathlib.Data.List.Dedup
import RustSamples.XdpFirewall

/-! # The two programs of `xdp_firewall` agree

What the firewall is for: drop a TCP packet whose source address a loaded file lists.
The statement is in terms of the wire format (`TcpFrom`) and of the text of the files
(`Listed`), and the two programs are connected to it one by one.  On the eBPF side, a
packet is looked up at all exactly when it is a TCP packet, under the key of its source
(`xdpFirewall_eq_drop_iff`); on the userspace side, the map holds the keys of the listed
networks (`get_blockedIps`).  They meet in the keys: the key of a network matches the
key of a source exactly when the source belongs to the network (`netKey_matches`).
-/
namespace RustSamples.Xdp
open Lpm RustNet RustStr

/-! ## What is specified -/

/-- The bytes are an Ethernet header followed by an IPv4 or IPv6 base header that
announces TCP, then anything; the address is the source. -/
inductive TcpFrom : List UInt8 → IpAddr → Prop
  | v4 {macs head check dst rest : List UInt8} {src : BitVec 32} (hmacs : macs.length = 12)
      (hhead : head.length = 9) (hcheck : check.length = 2) (hdst : dst.length = 4) :
      TcpFrom (macs ++ [0x08, 0x00] ++ head ++ [6] ++ check ++ octets src ++ dst ++ rest) (.v4 src)
  | v6 {macs head dst rest : List UInt8} {hop : UInt8} {src : BitVec 128}
      (hmacs : macs.length = 12) (hhead : head.length = 6) (hdst : dst.length = 16) :
      TcpFrom (macs ++ [0x86, 0xDD] ++ head ++ [6, hop] ++ octets src ++ dst ++ rest) (.v6 src)

/-- A line of the file that is neither blank nor a comment is a network with the
address in it, or is the address. -/
def Listed (P : Parsers) (contents : String) (src : IpAddr) : Prop :=
  ∃ line ∈ lines contents.toList, trim line ≠ [] ∧ (trim line).head? ≠ some '#' ∧
    ((∃ net, P.ipNet (trim line) = some net ∧ net.Contains src) ∨ P.ipAddr (trim line) = some src)

/-- The files that were loaded. -/
def loadedFiles {P : Parsers} (iterations : List (Iteration P)) : List String :=
  iterations.filterMap fun
    | .loaded load => some load.contents
    | _ => none

/-! ## The keys -/

/-- The key the eBPF program looks up for a source. -/
def lookupKey : IpAddr → Key
  | .v4 src => EbpfIpKey.toKey ⟨40, 4, copyFromSlice (List.replicate 16 0) (octets src)⟩
  | .v6 src => EbpfIpKey.toKey ⟨136, 6, octets src⟩

/-- The prefix lengths are far from the end of `u8`. -/
theorem toNat_prefixLen_add {w : Nat} (net : Net w) (hw : w ≤ 128) :
    (net.prefixLen + 8).toUInt32.toNat = 8 + net.prefixLen.toNat := by
  have hle := net.le
  rw [UInt8.toNat_toUInt32, UInt8.toNat_add]
  simp only [UInt8.reduceToNat]
  omega

theorem netKey_v4 (net : Net 32) : netKey (.v4 net) =
    ⟨8 + net.prefixLen.toNat, 4 :: (octets net.network ++ List.replicate 12 0)⟩ := by
  rw [netKey, IpKey.toKey, toNat_prefixLen_add net (by decide), copyFromSlice, length_octets]
  rfl

theorem netKey_v6 (net : Net 128) : netKey (.v6 net) =
    ⟨8 + net.prefixLen.toNat, 6 :: octets net.network⟩ := by
  rw [netKey, IpKey.toKey, toNat_prefixLen_add net (by decide)]

theorem lookupKey_v4 (src : BitVec 32) :
    lookupKey (.v4 src) = ⟨40, 4 :: (octets src ++ List.replicate 12 0)⟩ := by
  rw [lookupKey, EbpfIpKey.toKey, copyFromSlice, length_octets]
  rfl

theorem lookupKey_v6 (src : BitVec 128) : lookupKey (.v6 src) = ⟨136, 6 :: octets src⟩ := rfl

/-- **The two encodings meet.**  The key of a network matches the key of a source if and
only if the source belongs to the network. -/
theorem netKey_matches (net : IpNet) (src : IpAddr) :
    ((netKey net).prefixLen ≤ (lookupKey src).prefixLen ∧
        AgreeOn (netKey net).prefixLen (netKey net).data (lookupKey src).data) ↔
      net.Contains src := by
  cases net with
  | v4 net =>
    have hle := net.le
    cases src with
    | v4 src =>
      rw [netKey_v4, lookupKey_v4, agreeOn_cons, agreeOn_append (by simp; omega) (by simp; omega),
        agreeOn_octets_network (by decide)]
      constructor
      · exact fun h => h.2.2
      · exact fun h => ⟨show 8 + net.prefixLen.toNat ≤ 40 by omega, rfl, h⟩
    | v6 src =>
      -- the type bytes differ
      rw [netKey_v4, lookupKey_v6, agreeOn_cons]
      exact ⟨fun h => absurd h.2.1 (by decide), False.elim⟩
  | v6 net =>
    have hle := net.le
    cases src with
    | v4 src =>
      rw [netKey_v6, lookupKey_v4, agreeOn_cons]
      exact ⟨fun h => absurd h.2.1 (by decide), False.elim⟩
    | v6 src =>
      rw [netKey_v6, lookupKey_v6, agreeOn_cons, agreeOn_octets_network (by decide)]
      constructor
      · exact fun h => h.2.2
      · exact fun h => ⟨show 8 + net.prefixLen.toNat ≤ 136 by omega, rfl, h⟩

/-! ## Userspace -/

/-- What a line adds to `current_networks`. -/
theorem lineNetwork_eq_some_iff (P : Parsers) (line : List Char) (net : IpNet) :
    P.lineNetwork line = some net ↔
      trim line ≠ [] ∧ (trim line).head? ≠ some '#' ∧
        (P.ipNet (trim line) = some net ∨
          ∃ addr, P.ipAddr (trim line) = some addr ∧ net = .ofAddr addr) := by
  rw [Parsers.lineNetwork]
  by_cases hskip : trim line = [] ∨ (trim line).head? = some '#'
  · rcases hskip with h | h <;> simp [h]
  · obtain ⟨hne, hhash⟩ := not_or.mp hskip
    cases hnet : P.ipNet (trim line) with
    | some listed =>
      have hno := P.disjoint _ listed hnet
      simp [hne, hhash, hno]
    | none =>
      simp only [List.isEmpty_iff, hne, decide_false, hhash, Bool.or_false, if_false,
        Option.map_eq_some_iff, not_false_eq_true, ne_eq, true_and, reduceCtorEq, false_or]
      exact exists_congr fun addr => and_congr_right fun _ => eq_comm

/-- It has the address in it if and only if the line lists the address. -/
theorem lineNetwork_contains_iff (P : Parsers) (line : List Char) (src : IpAddr) :
    (∃ net, P.lineNetwork line = some net ∧ net.Contains src) ↔
      trim line ≠ [] ∧ (trim line).head? ≠ some '#' ∧
        ((∃ net, P.ipNet (trim line) = some net ∧ net.Contains src) ∨
          P.ipAddr (trim line) = some src) := by
  simp only [lineNetwork_eq_some_iff]
  constructor
  · rintro ⟨net, ⟨hne, hhash, hnet | ⟨addr, haddr, rfl⟩⟩, hsrc⟩
    · exact ⟨hne, hhash, Or.inl ⟨net, hnet, hsrc⟩⟩
    · rw [contains_ofAddr] at hsrc
      exact ⟨hne, hhash, Or.inr (hsrc ▸ haddr)⟩
  · rintro ⟨hne, hhash, ⟨net, hnet, hsrc⟩ | haddr⟩
    · exact ⟨net, ⟨hne, hhash, Or.inl hnet⟩, hsrc⟩
    · exact ⟨.ofAddr src, ⟨hne, hhash, Or.inr ⟨src, haddr, rfl⟩⟩, (contains_ofAddr _ _).mpr rfl⟩

/-- A file lists an address if and only if one of its `current_networks` has it. -/
theorem listed_iff (P : Parsers) (contents : String) (src : IpAddr) :
    Listed P contents src ↔ ∃ net ∈ P.currentNetworks contents, net.Contains src := by
  simp only [Listed, Parsers.currentNetworks, List.mem_filterMap]
  constructor
  · rintro ⟨line, hmem, h⟩
    obtain ⟨net, hnet, hsrc⟩ := (lineNetwork_contains_iff P line src).mpr h
    exact ⟨net, ⟨line, hmem, hnet⟩, hsrc⟩
  · rintro ⟨net, ⟨line, hmem, hnet⟩, hsrc⟩
    exact ⟨line, hmem, (lineNetwork_contains_iff P line src).mp ⟨net, hnet, hsrc⟩⟩

/-- The keys an iteration inserts, in order. -/
def Iteration.keys {P : Parsers} : Iteration P → List Key
  | .loaded load => load.order.map netKey
  | _ => []

theorem blockedIps_eq {P : Parsers} (T : Trie) (iterations : List (Iteration P)) :
    blockedIps T iterations = (iterations.flatMap Iteration.keys).foldl T.insert T.empty := by
  rw [blockedIps, List.foldl_flatMap]
  congr 1
  funext map iteration
  cases iteration with
  | openFailed => rfl
  | readFailed => rfl
  | loaded load => rw [Iteration.keys, List.foldl_map]; rfl

/-- **The map holds what the files list**: a source is found in it if and only if a file
loaded so far lists it. -/
theorem get_blockedIps {P : Parsers} (T : Trie) (iterations : List (Iteration P)) (src : IpAddr) :
    T.get (blockedIps T iterations) (lookupKey src) = true ↔
      ∃ contents ∈ loadedFiles iterations, Listed P contents src := by
  rw [blockedIps_eq, T.get_foldl]
  simp only [List.mem_flatMap, loadedFiles, List.mem_filterMap, listed_iff]
  constructor
  · rintro ⟨key, ⟨iteration, hmem, hkey⟩, hmatch⟩
    cases iteration with
    | openFailed => cases hkey
    | readFailed => cases hkey
    | loaded load =>
      obtain ⟨net, hnet, rfl⟩ := List.mem_map.mp hkey
      exact ⟨load.contents, ⟨_, hmem, rfl⟩, net, (load.mem_order net).mp hnet,
        (netKey_matches net src).mp hmatch⟩
  · rintro ⟨contents, ⟨iteration, hmem, hfile⟩, net, hnet, hsrc⟩
    cases iteration with
    | openFailed => cases hfile
    | readFailed => cases hfile
    | loaded load =>
      obtain rfl := Option.some.inj hfile
      exact ⟨netKey net, ⟨_, hmem, List.mem_map_of_mem ((load.mem_order net).mpr hnet)⟩,
        (netKey_matches net src).mpr hsrc⟩

/-! ## The eBPF program: the wire format by positions -/

theorem drop_of_getElem? {l : List UInt8} {i : Nat} {b : UInt8} (h : l[i]? = some b) :
    l.drop i = b :: l.drop (i + 1) := by
  obtain ⟨hi, rfl⟩ := List.getElem?_eq_some_iff.mp h
  exact List.drop_eq_getElem_cons hi

theorem drop_eq_take_append (l : List UInt8) (i n : Nat) :
    l.drop i = (l.drop i).take n ++ l.drop (i + n) := by
  rw [← List.drop_drop, List.take_append_drop]

theorem tcpFrom_v4_iff {packet : List UInt8} {src : BitVec 32} :
    TcpFrom packet (.v4 src) ↔ 34 ≤ packet.length ∧ packet[12]? = some 0x08 ∧
      packet[13]? = some 0x00 ∧ packet[23]? = some 6 ∧ (packet.drop 26).take 4 = octets src := by
  constructor
  · intro h
    cases h with
    | @v4 macs head check dst rest _ hmacs hhead hcheck hdst =>
      refine ⟨?_, ?_, ?_, ?_, ?_⟩
      · simp [hmacs, hhead, hcheck, hdst]; omega
      · simp [hmacs]
      · simp [List.getElem?_append, hmacs]
      · simp [List.getElem?_append, hmacs, hhead]
      · rw [List.append_assoc, List.append_assoc, List.drop_left' (by simp [hmacs, hhead, hcheck]),
          List.take_left' (by simp)]
  · rintro ⟨hlen, h12, h13, h23, hsrc⟩
    have hpacket : packet.take 12 ++ [0x08, 0x00] ++ (packet.drop 14).take 9 ++ [6] ++
        (packet.drop 24).take 2 ++ octets src ++ (packet.drop 30).take 4 ++ packet.drop 34 =
          packet := by
      simp only [List.append_assoc, List.cons_append, List.nil_append, ← hsrc]
      rw [← drop_eq_take_append packet 30 4, ← drop_eq_take_append packet 26 4,
        ← drop_eq_take_append packet 24 2, ← drop_of_getElem? h23,
        ← drop_eq_take_append packet 14 9, ← drop_of_getElem? h13, ← drop_of_getElem? h12,
        List.take_append_drop]
    rw [← hpacket]
    exact .v4 (by simp; omega) (by simp; omega) (by simp; omega) (by simp; omega)

theorem tcpFrom_v6_iff {packet : List UInt8} {src : BitVec 128} :
    TcpFrom packet (.v6 src) ↔ 54 ≤ packet.length ∧ packet[12]? = some 0x86 ∧
      packet[13]? = some 0xDD ∧ packet[20]? = some 6 ∧ (packet.drop 22).take 16 = octets src := by
  constructor
  · intro h
    cases h with
    | @v6 macs head dst rest hop _ hmacs hhead hdst =>
      refine ⟨?_, ?_, ?_, ?_, ?_⟩
      · simp [hmacs, hhead, hdst]; omega
      · simp [hmacs]
      · simp [List.getElem?_append, hmacs]
      · simp [List.getElem?_append, hmacs, hhead]
      · rw [List.append_assoc, List.append_assoc, List.drop_left' (by simp [hmacs, hhead]),
          List.take_left' (by simp)]
  · rintro ⟨hlen, h12, h13, h20, hsrc⟩
    have h21 : packet[21]? = some packet[21] := List.getElem?_eq_getElem _
    have hpacket : packet.take 12 ++ ([0x86, 0xDD] : List UInt8) ++ (packet.drop 14).take 6 ++
        ([6, packet[21]] : List UInt8) ++ octets src ++ (packet.drop 38).take 16 ++
        packet.drop 54 = packet := by
      simp only [List.append_assoc, List.cons_append, List.nil_append, ← hsrc]
      rw [← drop_eq_take_append packet 38 16, ← drop_eq_take_append packet 22 16,
        ← drop_of_getElem? h21, ← drop_of_getElem? h20, ← drop_eq_take_append packet 14 6,
        ← drop_of_getElem? h13, ← drop_of_getElem? h12, List.take_append_drop]
    rw [← hpacket]
    exact .v6 (by simp; omega) (by simp; omega) (by simp; omega)

/-! ## The eBPF program: the verdict -/

section
variable (T : Trie) (e : Endian) (map : T.State) {packet : List UInt8}

/-- An IPv4 TCP packet is looked up under the key of its source. -/
theorem xdpFirewall_v4 {src : BitVec 32} (h : TcpFrom packet (.v4 src)) :
    xdpFirewall T e map packet =
      if T.get map (lookupKey (.v4 src)) then .drop else .pass := by
  obtain ⟨hlen, h12, h13, h23, hsrc⟩ := tcpFrom_v4_iff.mp h
  have heth : ¬ packet.length < ethhdrSize := by simp only [ethhdrSize]; omega
  have hip : ¬ packet.length < ethhdrSize + iphdrSize := by simp only [ethhdrSize, iphdrSize]; omega
  have hproto := (proto_eq_ip_iff e (by omega)).mpr ⟨h12, h13⟩
  have htcp : packet[23] = 6 := by
    rw [List.getElem?_eq_getElem (by omega)] at h23
    exact Option.some.inj h23
  have hkey : e.toNeBytes (e.loadU32 packet[26] packet[27] packet[28] packet[29]) = octets src := by
    rw [toNeBytes_loadU32, ← take_drop_four hlen, hsrc]
  rw [xdpFirewall, tryXdpFirewall, dif_neg heth]
  simp only
  rw [if_pos hproto, dif_neg hip, if_neg (not_not.mpr htcp), hkey, lookupKey]
  generalize T.get map _ = found
  cases found <;> rfl

/-- An IPv6 TCP packet is looked up under the key of its source. -/
theorem xdpFirewall_v6 {src : BitVec 128} (h : TcpFrom packet (.v6 src)) :
    xdpFirewall T e map packet =
      if T.get map (lookupKey (.v6 src)) then .drop else .pass := by
  obtain ⟨hlen, h12, h13, h20, hsrc⟩ := tcpFrom_v6_iff.mp h
  have heth : ¬ packet.length < ethhdrSize := by simp only [ethhdrSize]; omega
  have hip6 : ¬ packet.length < ethhdrSize + ipv6hdrSize := by
    simp only [ethhdrSize, ipv6hdrSize]; omega
  have hnot : ¬ e.loadU16 packet[12] packet[13] = e.fromBe ethPIp := by
    rw [proto_eq_ip_iff e (by omega), h12]
    exact fun h => absurd (Option.some.inj h.1) (by decide)
  have hproto := (proto_eq_ipv6_iff e (by omega)).mpr ⟨h12, h13⟩
  have htcp : packet[20] = 6 := by
    rw [List.getElem?_eq_getElem (by omega)] at h20
    exact Option.some.inj h20
  rw [xdpFirewall, tryXdpFirewall, dif_neg heth]
  simp only
  rw [if_neg hnot, if_pos hproto, dif_neg hip6, if_neg (not_not.mpr htcp), hsrc, lookupKey]
  generalize T.get map _ = found
  cases found <;> rfl

/-- Every other packet is passed. -/
theorem xdpFirewall_other (h : ∀ src, ¬ TcpFrom packet src) :
    xdpFirewall T e map packet = .pass := by
  rw [xdpFirewall, tryXdpFirewall]
  split
  · rename_i action hok
    split at hok
    · cases hok
    · rename_i heth
      simp only [ethhdrSize, Nat.not_lt] at heth
      simp only at hok
      split at hok
      · rename_i hproto
        obtain ⟨h12, h13⟩ := (proto_eq_ip_iff e heth).mp hproto
        split at hok
        · cases hok
        · rename_i hip
          simp only [ethhdrSize, iphdrSize, Nat.not_lt] at hip
          split at hok
          · exact (Except.ok.inj hok).symm
          · -- a complete IPv4 header that announces TCP
            rename_i htcp
            obtain ⟨src, hsrc⟩ : ∃ src : BitVec 32, octets src = (packet.drop 26).take 4 :=
              exists_octets_eq (by simp; omega)
            refine absurd (tcpFrom_v4_iff.mpr ⟨hip, h12, h13, ?_, hsrc.symm⟩) (h _)
            rw [List.getElem?_eq_getElem (by omega), not_not.mp htcp]
      · split at hok
        · rename_i hproto
          obtain ⟨h12, h13⟩ := (proto_eq_ipv6_iff e heth).mp hproto
          split at hok
          · cases hok
          · rename_i hip6
            simp only [ethhdrSize, ipv6hdrSize, Nat.not_lt] at hip6
            split at hok
            · exact (Except.ok.inj hok).symm
            · rename_i htcp
              obtain ⟨src, hsrc⟩ : ∃ src : BitVec 128, octets src = (packet.drop 22).take 16 :=
                exists_octets_eq (by simp; omega)
              refine absurd (tcpFrom_v6_iff.mpr ⟨hip6, h12, h13, ?_, hsrc.symm⟩) (h _)
              rw [List.getElem?_eq_getElem (by omega), not_not.mp htcp]
        · exact (Except.ok.inj hok).symm
  · rfl

/-- A TCP packet is looked up under the key of its source. -/
theorem xdpFirewall_tcp {src : IpAddr} (h : TcpFrom packet src) :
    xdpFirewall T e map packet = if T.get map (lookupKey src) then .drop else .pass := by
  cases src with
  | v4 src => exact xdpFirewall_v4 T e map h
  | v6 src => exact xdpFirewall_v6 T e map h

end

/-- **The firewall drops what the files list.**  After any iterations of the userspace
loop, a TCP packet with a complete IPv4 or IPv6 header is dropped if and only if a file
loaded so far lists its source address; a packet that is no such packet is passed, and
so is every packet that is not dropped. -/
theorem drops_exactly_the_listed {P : Parsers} (T : Trie) (e : Endian)
    (iterations : List (Iteration P)) (packet : List UInt8) :
    (∀ src, TcpFrom packet src →
      (xdpFirewall T e (blockedIps T iterations) packet = .drop ↔
        ∃ contents ∈ loadedFiles iterations, Listed P contents src)) ∧
    ((∀ src, ¬ TcpFrom packet src) →
      xdpFirewall T e (blockedIps T iterations) packet = .pass) ∧
    (xdpFirewall T e (blockedIps T iterations) packet ≠ .drop →
      xdpFirewall T e (blockedIps T iterations) packet = .pass) := by
  refine ⟨fun src htcp => ?_, xdpFirewall_other T e _, fun hkeep => ?_⟩
  · rw [xdpFirewall_tcp T e _ htcp, ← get_blockedIps T iterations src]
    cases T.get (blockedIps T iterations) (lookupKey src) <;> simp
  · by_cases htcp : ∃ src, TcpFrom packet src
    · obtain ⟨src, htcp⟩ := htcp
      rw [xdpFirewall_tcp T e _ htcp] at hkeep ⊢
      cases hget : T.get (blockedIps T iterations) (lookupKey src) with
      | true => simp [hget] at hkeep
      | false => rfl
    · exact xdpFirewall_other T e _ (not_exists.mp htcp)

/-! ### A file of IPv4 lines -/

/-- `Ipv4Net::from_str`: an address, and a prefix length of one or two digits. -/
def ipv4NetFromStr (s : List Char) : Option (Net 32) :=
  match s.splitOn '/' with
  | [addr, digits] =>
      if digits.isEmpty || 2 < digits.length || !digits.all Char.isDigit then none
      else (ipv4FromStr addr).bind fun a =>
        if h : (UInt8.ofNat (digitsValue digits)).toNat ≤ 32 then some ⟨a, _, h⟩ else none
  | _ => none

/-- The parsers on texts that are not IPv6. -/
def ipv4Parsers : Parsers where
  ipNet s := if '/' ∈ s then (ipv4NetFromStr s).map .v4 else none
  ipAddr s := if '/' ∈ s then none else (ipv4FromStr s).map .v4
  disjoint s net h := by
    by_cases hslash : '/' ∈ s
    · rw [if_pos hslash]
    · rw [if_neg hslash] at h; cases h

/-- A file whose networks are iterated in the order of their last mention. -/
def Load.inFileOrder (P : Parsers) (contents : String) : Load P where
  contents := contents
  order := (P.currentNetworks contents).dedup
  nodup := List.nodup_dedup _
  mem_order _ := List.mem_dedup

/-- The first bytes of a TCP packet over IPv4. -/
def tcpPacket (src : BitVec 32) : List UInt8 :=
  List.replicate 12 1 ++ [0x08, 0x00] ++ [0x45, 0, 0, 40, 0, 0, 0x40, 0, 64] ++ [6] ++ [0, 0] ++
    octets src ++ [192, 168, 1, 1] ++ []

/-- With `10.0.0.9/24` in the file, a packet from `10.0.0.77` is dropped. -/
theorem drops_listed_neighbour :
    xdpFirewall listTrie .little
      (blockedIps listTrie [.loaded (.inFileOrder ipv4Parsers "# IPv4\n192.168.1.15\n10.0.0.9/24")])
      (tcpPacket 0x0a00004d) = .drop := by
  refine ((drops_exactly_the_listed listTrie .little _ _).1 (.v4 0x0a00004d)
    (.v4 (by decide) (by decide) (by decide) (by decide))).mpr
    ⟨_, List.mem_singleton.mpr rfl, "10.0.0.9/24".toList, by decide, by decide, by decide,
      Or.inl ?_⟩
  exact ⟨.v4 ⟨0x0a000009, 24, by decide⟩, by decide, by unfold IpNet.Contains Net.Contains; decide⟩

end RustSamples.Xdp
