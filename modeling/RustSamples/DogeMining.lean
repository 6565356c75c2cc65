import RustSamples.DogeLedger

/-! # Mining in `doge-rust`

`Block::mine` tests the cached hash of the block, increments the nonce and computes the hash anew.
So the hash it tests is always that of the nonce it stands at, which `Block::new` sets up and
`tryNextNonce` keeps.  The search goes up from 0 and stops at the first nonce whose hash has the
zeros (`mine_finds_least_nonce`); if no `u64` has them it does not come back
(`mine_new_comes_back_iff`).

The hash function is arbitrary.
-/
namespace RustSamples.Doge
open RustStr

variable {A : Type}

namespace Block
variable (E : Env A)

/-- A text that begins with so many zero characters. -/
def BeginsWithZeros (d : Nat) (s : String) : Prop := List.replicate d '0' <+: s.toList

instance (d : Nat) (s : String) : Decidable (BeginsWithZeros d s) :=
  inferInstanceAs (Decidable (_ <+: _))

theorem startsWith_target_iff {d : Nat} {s : String} :
    startsWith s (target d) = true ↔ BeginsWithZeros d s := by
  rw [startsWith, List.isPrefixOf_iff_prefix, target, String.toList_ofList, BeginsWithZeros]

/-- With this nonce the hash of the block has the zeros. -/
def Solves (d : Nat) (b : Block A) (nonce : UInt64) : Prop :=
  BeginsWithZeros d ({ b with nonce := nonce }.calculateHash E)

instance (d : Nat) (b : Block A) (nonce : UInt64) : Decidable (Solves E d b nonce) :=
  inferInstanceAs (Decidable (BeginsWithZeros _ _))

/-- The test of the loop, of a block whose hash is that of its nonce. -/
theorem startsWith_hash_iff {d : Nat} {b : Block A} (hb : b.hash = b.calculateHash E) :
    startsWith b.hash (target d) = true ↔ Solves E d b b.nonce := by
  rw [startsWith_target_iff, hb, Solves]

theorem toNat_add_one {n : UInt64} (h : n.toNat + 1 < 2 ^ 64) : (n + 1).toNat = n.toNat + 1 := by
  rw [UInt64.toNat_add, UInt64.toNat_one, Nat.mod_eq_of_lt h]

/-- **The loop from a nonce on finds the next one that solves the block**, if there is one before
the nonce overflows. -/
theorem mineLoop_least {d left : Nat} {b : Block A} (hb : b.hash = b.calculateHash E)
    (hleft : b.nonce.toNat + left = 2 ^ 64 - 1) {n : UInt64} (hn : b.nonce ≤ n)
    (hsolves : Solves E d b n) :
    ∃ b', mineLoop E (target d) left b = some b' ∧
      ∀ m, b.nonce ≤ m → Solves E d b m → b'.nonce ≤ m := by
  induction left generalizing b with
  | zero =>
    -- the last nonce is the only one left
    have hlast : n = b.nonce := UInt64.toNat_inj.1 (by
      have := n.toNat_lt
      have := UInt64.le_iff_toNat_le.1 hn
      omega)
    refine ⟨b, if_pos ((startsWith_hash_iff E hb).2 (hlast ▸ hsolves)), fun m hm _ => hm⟩
  | succ left ih =>
    rw [mineLoop]
    by_cases hzeros : startsWith b.hash (target d) = true
    · rw [if_pos hzeros]
      exact ⟨b, rfl, fun m hm _ => hm⟩
    · rw [if_neg hzeros]
      have hnot : ¬ Solves E d b b.nonce := mt (startsWith_hash_iff E hb).2 hzeros
      have hsucc : (tryNextNonce E b).nonce.toNat = b.nonce.toNat + 1 :=
        toNat_add_one (by omega)
      have hnext : ∀ m, b.nonce ≤ m → Solves E d b m → (tryNextNonce E b).nonce ≤ m := by
        intro m hm hsolves
        have hne : b.nonce ≠ m := fun h => hnot (h ▸ hsolves)
        have hlt := UInt64.lt_iff_toNat_lt.1 (UInt64.lt_of_le_of_ne hm hne)
        exact UInt64.le_iff_toNat_le.2 (by omega)
      obtain ⟨b', hmine, hleast⟩ := ih (b := tryNextNonce E b) rfl (by omega) (hnext n hn hsolves)
        hsolves
      exact ⟨b', hmine, fun m hm hsolves => hleast m (hnext m hm hsolves) hsolves⟩

/-- The hash of a block that differs in its nonce. -/
theorem solves_of_fields {d : Nat} {b b' : Block A} (hb' : b'.hash = b'.calculateHash E)
    (hindex : b'.index = b.index) (htimestamp : b'.timestamp = b.timestamp)
    (htransactions : b'.transactions = b.transactions)
    (hprevious : b'.previousHash = b.previousHash) (hzeros : BeginsWithZeros d b'.hash) :
    Solves E d b b'.nonce := by
  rw [hb', calculateHash_eq, preimage, hindex, htimestamp, htransactions, hprevious] at hzeros
  exact hzeros

/-- A block is solved by the least nonce from its own on. -/
theorem mine_least {d : Nat} {b : Block A} (hb : b.hash = b.calculateHash E) {n : UInt64}
    (hn : b.nonce ≤ n) (hsolves : Solves E d b n) :
    ∃ b', b.mine E d = some b' ∧ Solves E d b b'.nonce ∧
      ∀ m, b.nonce ≤ m → Solves E d b m → b'.nonce ≤ m := by
  have hleft : b.nonce.toNat + (2 ^ 64 - 1 - b.nonce.toNat) = 2 ^ 64 - 1 := by
    have := b.nonce.toNat_lt
    omega
  obtain ⟨b', hmine, hleast⟩ := mineLoop_least E hb hleft hn hsolves
  obtain ⟨hhash, hstarts⟩ := mineLoop_hash E hb hmine
  obtain ⟨hindex, htimestamp, htransactions, hprevious⟩ := mineLoop_fields E hmine
  exact ⟨b', hmine, solves_of_fields E hhash hindex htimestamp htransactions hprevious
    (startsWith_target_iff.1 hstarts), hleast⟩

theorem new_nonce_le (now : UInt64) (index : UInt32) (transactions : List (Transaction A))
    (previousHash : String) (m : UInt64) :
    (Block.new E now index transactions previousHash).nonce ≤ m :=
  UInt64.le_iff_toNat_le.2 (Nat.zero_le m.toNat)

/-- Mining a new block comes back exactly if some nonce solves it. -/
theorem mine_new_comes_back_iff (d : Nat) (now : UInt64) (index : UInt32)
    (transactions : List (Transaction A)) (previousHash : String) :
    (∃ b', (Block.new E now index transactions previousHash).mine E d = some b') ↔
      ∃ n, Solves E d (.new E now index transactions previousHash) n := by
  constructor
  · rintro ⟨b', hmine⟩
    obtain ⟨hhash, hstarts⟩ := mineLoop_hash E rfl hmine
    obtain ⟨hindex, htimestamp, htransactions, hprevious⟩ := mineLoop_fields E hmine
    exact ⟨b'.nonce, solves_of_fields E hhash hindex htimestamp htransactions hprevious
      (startsWith_target_iff.1 hstarts)⟩
  · rintro ⟨n, hn⟩
    obtain ⟨b', hmine, -⟩ := mine_least E rfl (new_nonce_le E _ _ _ _ n) hn
    exact ⟨b', hmine⟩

end Block

/-- **Mining finds the least nonce.**  If some `u64` solves the block that `Block::new` makes,
`mine` comes back.  The block that it leaves has the least nonce that does, the hash of that nonce,
which begins with the zeros, and is otherwise unchanged. -/
theorem mine_finds_least_nonce (E : Env A) (d : Nat) (now : UInt64) (index : UInt32)
    (transactions : List (Transaction A)) (previousHash : String) {n : UInt64}
    (hn : Block.Solves E d (.new E now index transactions previousHash) n) :
    ∃ b', (Block.new E now index transactions previousHash).mine E d = some b' ∧
      Block.Solves E d (.new E now index transactions previousHash) b'.nonce ∧
      (∀ m, Block.Solves E d (.new E now index transactions previousHash) m → b'.nonce ≤ m) ∧
      b'.hash = b'.calculateHash E ∧ Block.BeginsWithZeros d b'.hash ∧
      b'.index = index ∧ b'.timestamp = now ∧ b'.transactions = transactions ∧
      b'.previousHash = previousHash := by
  have hzero := Block.new_nonce_le E now index transactions previousHash
  obtain ⟨b', hmine, hsolves, hleast⟩ := Block.mine_least E rfl (hzero n) hn
  obtain ⟨hhash, hstarts⟩ := Block.mineLoop_hash E rfl hmine
  obtain ⟨hindex, htimestamp, htransactions, hprevious⟩ := Block.mineLoop_fields E hmine
  exact ⟨b', hmine, hsolves, fun m hm => hleast m (hzero m) hm, hhash,
    Block.startsWith_target_iff.1 hstarts, hindex, htimestamp, htransactions, hprevious⟩

/-- A digest to evaluate: the distance of the last byte from the digit 3. -/
def lastByteDigest : Env Nat where
  sha256 text := [51 - text.getLast?.getD 0]
  txsToJson _ := "[]"
  encodeMessage _ := []
  decodeMessage _ := none
  displayAmount := toString
  keyParses _ := true
  signatureParses _ := true
  verify _ _ _ := false
  sign _ _ := zeroSignature
  overflowChecks := true

/-- The hashes of the nonces 0, 1 and 2 have one zero, and that of 3 has two. -/
theorem nonce_three_is_found :
    ∃ b', (Block.new lastByteDigest 7 1 [] "0").mine lastByteDigest 2 = some b' ∧
      b'.nonce = 3 ∧ Block.BeginsWithZeros 2 b'.hash := by
  have hsolves : Block.Solves lastByteDigest 2 (.new lastByteDigest 7 1 [] "0") 3 := by decide
  have hbelow : ∀ k < 3, ¬ Block.Solves lastByteDigest 2 (.new lastByteDigest 7 1 [] "0")
      (UInt64.ofNat k) := by decide
  obtain ⟨b', hmine, hfound, hleast, -, hzeros, -⟩ :=
    mine_finds_least_nonce lastByteDigest 2 7 1 [] "0" hsolves
  refine ⟨b', hmine, UInt64.le_antisymm (hleast 3 hsolves) (UInt64.not_lt.1 fun hlt => ?_), hzeros⟩
  have hno := hbelow b'.nonce.toNat (UInt64.lt_iff_toNat_lt.1 hlt)
  rw [UInt64.ofNat_toNat] at hno
  exact hno hfound

end RustSamples.Doge
