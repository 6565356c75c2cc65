import Mathlib.Algebra.Ring.Nat
import RustSamples.LpmTrie
import RustSamples.RustStr

/-! # The addresses of `std::net` and the networks of `ipnet`

An address is a number of 32 or 128 bits; its octets are the big-endian bytes of
that number.  A network is an address and a prefix length; the address may have bits
set beyond the prefix.
-/
namespace RustNet
open Lpm

/-- `std::net::IpAddr`. -/
inductive IpAddr
  | v4 (addr : BitVec 32)
  | v6 (addr : BitVec 128)
deriving DecidableEq

/-- `std::net::SocketAddr`.  Equality and hashing look at every field. -/
inductive SocketAddr
  | v4 (addr : BitVec 32) (port : UInt16)
  | v6 (addr : BitVec 128) (port : UInt16) (flowinfo scopeId : UInt32)
deriving DecidableEq

def SocketAddr.ip : SocketAddr → IpAddr
  | .v4 addr _ => .v4 addr
  | .v6 addr _ _ _ => .v6 addr

/-- `octets`: the bytes of an address, the most significant first. -/
def octets {w : Nat} (addr : BitVec w) : List UInt8 :=
  (List.range (w / 8)).map fun i => UInt8.ofBitVec (addr.extractLsb' (w - 8 * (i + 1)) 8)

@[simp] theorem length_octets {w : Nat} (addr : BitVec w) : (octets addr).length = w / 8 := by
  simp [octets]

/-- The octets of an address of either version. -/
def IpAddr.toBytes : IpAddr → List UInt8
  | .v4 addr => octets addr
  | .v6 addr => octets addr

/-- The bits of the octets are the bits of the address. -/
theorem bitAt_octets {w : Nat} (hw : 8 ∣ w) (addr : BitVec w) {i : Nat} (hi : i < w) :
    bitAt (octets addr) i = addr.getMsbD i := by
  have hlt : i / 8 < w / 8 := by omega
  rw [bitAt, List.getD_eq_getElem _ _ (by simpa using hlt)]
  simp only [octets, List.getElem_map, List.getElem_range, UInt8.toBitVec_ofBitVec]
  have hpos : w - 8 * (i / 8 + 1) + (8 - 1 - i % 8) = w - 1 - i := by omega
  have hmod : 8 - 1 - i % 8 < 8 := by omega
  simp only [BitVec.getMsbD_eq_getLsbD, BitVec.getLsbD_extractLsb', hpos, hmod, hi,
    Nat.mod_lt i (show 8 > 0 by decide), decide_true, Bool.true_and]

/-- Bytes of the right number are the octets of an address. -/
theorem exists_octets_eq {w : Nat} {data : List UInt8} (hlen : 8 * data.length = w) :
    ∃ addr : BitVec w, octets addr = data := by
  refine ⟨(BitVec.ofBoolListBE ((List.range w).map (bitAt data))).cast (by simp),
    eq_of_agreeOn (by simp; omega) fun i hi => ?_⟩
  have hw : i < w := by simp at hi; omega
  rw [bitAt_octets ⟨data.length, hlen.symm⟩ _ hw]
  simp [List.getD, hw]

/-- The number of an address is that of its octets. -/
theorem foldl_octets {w : Nat} (hw : 8 ∣ w) (addr : BitVec w) :
    (octets addr).foldl (fun n b => 256 * n + b.toNat) 0 = addr.toNat := by
  -- the first `k` octets are the address without its other bits
  have hfront : ∀ k ≤ w / 8, ((List.range k).map fun i =>
      UInt8.ofBitVec (addr.extractLsb' (w - 8 * (i + 1)) 8)).foldl
        (fun n b => 256 * n + b.toNat) 0 = addr.toNat / 2 ^ (w - 8 * k) := by
    intro k hk
    induction k with
    | zero => exact (Nat.div_eq_of_lt addr.isLt).symm
    | succ k ih =>
      have hexp : w - 8 * k = w - 8 * (k + 1) + 8 := by omega
      have hbyte : (UInt8.ofBitVec (addr.extractLsb' (w - 8 * (k + 1)) 8)).toNat =
          addr.toNat / 2 ^ (w - 8 * (k + 1)) % 256 := by
        simp [Nat.shiftRight_eq_div_pow]
      rw [List.range_succ, List.map_append, List.foldl_append, ih (Nat.le_of_succ_le hk),
        List.map_singleton, List.foldl_cons, List.foldl_nil, hbyte, hexp, Nat.pow_add,
        ← Nat.div_div_eq_div_mul]
      exact Nat.div_add_mod _ 256
  have hall := hfront (w / 8) (Nat.le_refl _)
  rwa [Nat.mul_div_cancel' hw, Nat.sub_self, Nat.pow_zero, Nat.div_one] at hall

/-! ### Dotted decimal text -/

/-- The address of four octets. -/
def ipv4OfOctets (a b c d : UInt8) : BitVec 32 :=
  BitVec.ofNat 32 (((a.toNat * 256 + b.toNat) * 256 + c.toNat) * 256 + d.toNat)

/-- An octet in decimal: one to three digits without a leading zero, at most 255. -/
def readOctet (s : List Char) : Option (UInt8 × List Char) :=
  let ds := s.takeWhile Char.isDigit
  if ds.length = 0 ∨ 3 < ds.length ∨ 1 < ds.length ∧ ds.head? = some '0' ∨
      255 < RustStr.digitsValue ds then none
  else some (UInt8.ofNat (RustStr.digitsValue ds), s.dropWhile Char.isDigit)

/-- `Ipv4Addr::from_str`. -/
def ipv4FromStr (s : List Char) : Option (BitVec 32) :=
  if 15 < RustStr.len s then none else do
    let (a, s) ← readOctet s
    let s ← RustStr.scanChar ['.'] s
    let (b, s) ← readOctet s
    let s ← RustStr.scanChar ['.'] s
    let (c, s) ← readOctet s
    let s ← RustStr.scanChar ['.'] s
    let (d, s) ← readOctet s
    if s.isEmpty then some (ipv4OfOctets a b c d) else none

/-- `{}` of a `u8`. -/
def decimal (b : UInt8) : List Char := Nat.toDigits 10 b.toNat

/-- `Ipv4Addr::to_string`. -/
def ipv4ToString (addr : BitVec 32) : List Char :=
  List.intercalate ['.'] ((octets addr).map decimal)

theorem decimal_spec (b : UInt8) :
    (decimal b).all Char.isDigit ∧ RustStr.digitsValue (decimal b) = b.toNat ∧
      RustStr.len (decimal b) ≤ 3 ∧ (decimal b).length ≠ 0 ∧ (decimal b).length ≤ 3 ∧
      ¬ (1 < (decimal b).length ∧ (decimal b).head? = some '0') := by
  have h : ∀ n : Fin 256, (Nat.toDigits 10 n).all Char.isDigit ∧
      RustStr.digitsValue (Nat.toDigits 10 n) = n ∧ RustStr.len (Nat.toDigits 10 n) ≤ 3 ∧
      (Nat.toDigits 10 n).length ≠ 0 ∧ (Nat.toDigits 10 n).length ≤ 3 ∧
      ¬ (1 < (Nat.toDigits 10 n).length ∧ (Nat.toDigits 10 n).head? = some '0') := by
    decide +kernel
  exact h ⟨b.toNat, b.toNat_lt⟩

/-- An octet reads back up to what is no digit. -/
theorem readOctet_decimal (b : UInt8) {rest : List Char}
    (hrest : rest.takeWhile Char.isDigit = []) :
    readOctet (decimal b ++ rest) = some (b, rest) := by
  obtain ⟨hdigits, hvalue, -, hpos, hle, hzero⟩ := decimal_spec b
  have htake : (decimal b ++ rest).takeWhile Char.isDigit = decimal b := by
    rw [List.takeWhile_append_of_pos (List.all_eq_true.mp hdigits), hrest, List.append_nil]
  have hdrop : (decimal b ++ rest).dropWhile Char.isDigit = rest := by
    have hsplit := List.takeWhile_append_dropWhile (p := Char.isDigit) (l := rest)
    rw [hrest, List.nil_append] at hsplit
    rw [List.dropWhile_append_of_pos (List.all_eq_true.mp hdigits), hsplit]
  have hbyte := b.toNat_lt
  have hgood : ¬ ((decimal b).length = 0 ∨ 3 < (decimal b).length ∨
      1 < (decimal b).length ∧ (decimal b).head? = some '0' ∨
      255 < RustStr.digitsValue (decimal b)) := by
    rintro (h | h | h | h)
    · exact hpos h
    · omega
    · exact hzero h
    · omega
  rw [hvalue] at hgood
  simp only [readOctet, htake, hdrop, hvalue, UInt8.ofNat_toNat, if_neg hgood]

theorem octets_v4 (addr : BitVec 32) :
    octets addr = [UInt8.ofNat (addr.toNat / 16777216 % 256),
      UInt8.ofNat (addr.toNat / 65536 % 256), UInt8.ofNat (addr.toNat / 256 % 256),
      UInt8.ofNat (addr.toNat % 256)] := by
  simp [octets, List.range_succ, ← UInt8.toNat_inj, Nat.shiftRight_eq_div_pow]

theorem ipv4OfOctets_octets (addr : BitVec 32) :
    ipv4OfOctets (UInt8.ofNat (addr.toNat / 16777216 % 256))
      (UInt8.ofNat (addr.toNat / 65536 % 256)) (UInt8.ofNat (addr.toNat / 256 % 256))
      (UInt8.ofNat (addr.toNat % 256)) = addr := by
  have hlt := addr.isLt
  apply BitVec.eq_of_toNat_eq
  simp [ipv4OfOctets]
  omega

theorem ipv4FromStr_dotted (a b c d : UInt8) :
    ipv4FromStr (decimal a ++
      '.' :: (decimal b ++ '.' :: (decimal c ++ '.' :: (decimal d ++ [])))) =
      some (ipv4OfOctets a b c d) := by
  have hdot : ∀ s : List Char, ('.' :: s).takeWhile Char.isDigit = [] := fun s => by
    simp [Char.isDigit]
  have hend : ([] : List Char).takeWhile Char.isDigit = [] := rfl
  have hlen : ¬ 15 < RustStr.len (decimal a ++ '.' :: (decimal b ++ '.' :: (decimal c ++
      '.' :: (decimal d ++ [])))) := by
    have hpoint : ∀ s : List Char, RustStr.len ('.' :: s) = 1 + RustStr.len s := fun _ => rfl
    have hnil : RustStr.len [] = 0 := rfl
    have ha := (decimal_spec a).2.2.1
    have hb := (decimal_spec b).2.2.1
    have hc := (decimal_spec c).2.2.1
    have hd := (decimal_spec d).2.2.1
    simp only [RustStr.len_append, hpoint, hnil]
    omega
  rw [ipv4FromStr, if_neg hlen, readOctet_decimal a (hdot _)]
  simp only [Option.bind_eq_bind, Option.bind_some, RustStr.scanChar, List.mem_singleton, if_true,
    readOctet_decimal b (hdot _), readOctet_decimal c (hdot _), readOctet_decimal d hend,
    List.isEmpty_nil]

/-- **The text of an address reads back as the address.** -/
theorem ipv4FromStr_ipv4ToString (addr : BitVec 32) :
    ipv4FromStr (ipv4ToString addr) = some addr := by
  have htext : ∀ a b c d : UInt8, List.intercalate ['.'] ([a, b, c, d].map decimal) =
      decimal a ++ '.' :: (decimal b ++ '.' :: (decimal c ++ '.' :: (decimal d ++ []))) := by
    intro a b c d
    simp [List.intercalate, List.intersperse]
  rw [ipv4ToString, octets_v4, htext, ipv4FromStr_dotted, ipv4OfOctets_octets]

/-! ### Networks -/

/-- `Ipv4Net` and `Ipv6Net`. -/
structure Net (w : Nat) where
  addr : BitVec w
  prefixLen : UInt8
  le : prefixLen.toNat ≤ w
deriving DecidableEq

/-- `ipnet::IpNet`. -/
inductive IpNet
  | v4 (net : Net 32)
  | v6 (net : Net 128)
deriving DecidableEq

/-- `netmask`: as many ones as the prefix is long. -/
def Net.netmask {w : Nat} (net : Net w) : BitVec w :=
  BitVec.allOnes w <<< (w - net.prefixLen.toNat)

/-- `network`: the address with the bits beyond the prefix cleared. -/
def Net.network {w : Nat} (net : Net w) : BitVec w := net.addr &&& net.netmask

/-- An address belongs to a network: both fall into the same block of
`2 ^ (w - prefixLen)` consecutive addresses. -/
def Net.Contains {w : Nat} (net : Net w) (addr : BitVec w) : Prop :=
  addr.toNat / 2 ^ (w - net.prefixLen.toNat) = net.addr.toNat / 2 ^ (w - net.prefixLen.toNat)

/-- An address belongs to a network of its own version. -/
def IpNet.Contains : IpNet → IpAddr → Prop
  | .v4 net, .v4 addr => net.Contains addr
  | .v6 net, .v6 addr => net.Contains addr
  | _, _ => False

/-- Two texts of one network: the bits of the address beyond the prefix do not count. -/
def IpNet.Same : IpNet → IpNet → Prop
  | .v4 a, .v4 b => a.prefixLen = b.prefixLen ∧ a.network = b.network
  | .v6 a, .v6 b => a.prefixLen = b.prefixLen ∧ a.network = b.network
  | _, _ => False

/-- The network of one address, `Ipv4Net::new(v4, 32)` or `Ipv6Net::new(v6, 128)`. -/
def IpNet.ofAddr : IpAddr → IpNet
  | .v4 addr => .v4 ⟨addr, 32, Nat.le_refl 32⟩
  | .v6 addr => .v6 ⟨addr, 128, Nat.le_refl 128⟩

/-- Numbers in the same block of `2 ^ (w - p)` agree on their first `p` bits. -/
theorem div_two_pow_eq_iff {w p : Nat} (hp : p ≤ w) (x y : BitVec w) :
    x.toNat / 2 ^ (w - p) = y.toNat / 2 ^ (w - p) ↔ ∀ i < p, x.getMsbD i = y.getMsbD i := by
  constructor
  · intro h i hi
    have hbit := congrArg (Nat.testBit · (p - 1 - i)) h
    simp only [Nat.testBit_div_two_pow] at hbit
    have hpos : p - 1 - i + (w - p) = w - 1 - i := by omega
    rw [hpos] at hbit
    simp only [BitVec.getMsbD_eq_getLsbD, ← BitVec.testBit_toNat, hbit]
  · intro h
    refine Nat.eq_of_testBit_eq fun k => ?_
    rw [Nat.testBit_div_two_pow, Nat.testBit_div_two_pow, BitVec.testBit_toNat,
      BitVec.testBit_toNat]
    rcases Nat.lt_or_ge k p with hk | hk
    · have hbit := h (p - 1 - k) (by omega)
      have hpos : w - 1 - (p - 1 - k) = k + (w - p) := by omega
      have hlt : p - 1 - k < w := by omega
      simpa only [BitVec.getMsbD_eq_getLsbD, hpos, hlt, decide_true, Bool.true_and] using hbit
    · rw [BitVec.getLsbD_of_ge _ _ (by omega), BitVec.getLsbD_of_ge _ _ (by omega)]

theorem getMsbD_network {w : Nat} (net : Net w) {i : Nat} (hi : i < net.prefixLen.toNat) :
    net.network.getMsbD i = net.addr.getMsbD i := by
  have hle := net.le
  have hmask : net.netmask.getMsbD i = true := by
    simp [Net.netmask, BitVec.getMsbD_shiftLeft]
    omega
  rw [Net.network, BitVec.getMsbD_and, hmask, Bool.and_true]

/-- **Membership is agreement of the octets on the prefix.** -/
theorem agreeOn_octets_network {w : Nat} (hw : 8 ∣ w) (net : Net w) (addr : BitVec w) :
    AgreeOn net.prefixLen.toNat (octets net.network) (octets addr) ↔ net.Contains addr := by
  have hle := net.le
  rw [Net.Contains, div_two_pow_eq_iff hle]
  refine forall_congr' fun i => forall_congr' fun hi => ?_
  rw [bitAt_octets hw _ (by omega), bitAt_octets hw _ (by omega), getMsbD_network net hi]
  exact eq_comm

theorem getMsbD_network_of_le {w : Nat} (net : Net w) {i : Nat}
    (hi : net.prefixLen.toNat ≤ i) : net.network.getMsbD i = false := by
  have hmask : net.netmask.getMsbD i = false := by
    simp [Net.netmask, BitVec.getMsbD_shiftLeft]
    omega
  rw [Net.network, BitVec.getMsbD_and, hmask, Bool.and_false]

/-- Networks of one prefix length are the same when their octets agree on the prefix. -/
theorem agreeOn_octets_networks {w : Nat} (hw : 8 ∣ w) {a b : Net w}
    (hlen : a.prefixLen = b.prefixLen) :
    AgreeOn a.prefixLen.toNat (octets a.network) (octets b.network) ↔ a.network = b.network := by
  have hle := a.le
  constructor
  · intro h
    refine BitVec.eq_of_getMsbD_eq fun i hi => ?_
    rcases Nat.lt_or_ge i a.prefixLen.toNat with hlt | hge
    · have hbit := h i hlt
      rwa [bitAt_octets hw _ hi, bitAt_octets hw _ hi] at hbit
    · -- beyond the prefix both are cleared
      rw [getMsbD_network_of_le a hge, getMsbD_network_of_le b (hlen ▸ hge)]
  · intro h i _
    rw [h]

theorem contains_ofAddr (a b : IpAddr) : (IpNet.ofAddr a).Contains b ↔ b = a := by
  cases a <;> cases b <;> simp [IpNet.ofAddr, IpNet.Contains, Net.Contains, BitVec.toNat_inj]

end RustNet
