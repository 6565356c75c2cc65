import RustSamples.RustStr

/-! # The ledger of `doge-rust`

Transactions, blocks and the chain, as `doge-rust/src/main.rs` computes them.

What the program takes from other crates is in `Env`: the SHA-256 digest, the
JSON text of a transaction list and of a message, the Ed25519 key and signature
checks.  Nothing is assumed of these functions here.  The clock is an argument
(`now`) wherever the source reads it.

The declaration of `Transaction` in the source has lost its `amount` field, which
every function of the file uses; it is read with the field.  Amounts are `f64` in
the source.  The functions only use literals, comparison and display of an
amount, so they are written over any type with these (`Amount`); `F64` is the
IEEE 754 instance.

A call that does not come back — a panic, or a mining loop that finds no nonce —
returns `Outcome.abort`.
-/
namespace RustSamples.Doge
open RustStr

/-! ## Amounts -/

/-- What the ledger uses of its amount type: the value of an integral literal
`n.0`, and the two comparisons. -/
class Amount (A : Type) where
  literal : Nat → A
  le : A → A → Bool
  lt : A → A → Bool

/-- An `f64`, by its bit pattern. -/
structure F64 where
  bits : BitVec 64
deriving DecidableEq

namespace F64

/-- Exponent and fraction, that is, the bit pattern without its sign. -/
def magnitude (x : F64) : Nat := x.bits.toNat % 2 ^ 63

/-- All exponent bits set and a fraction that is not zero. -/
def isNaN (x : F64) : Bool := 0x7ff0000000000000 < x.magnitude

/-- The position of a number in the order of `f64`: both zeros are 0. -/
def rank (x : F64) : Int :=
  if x.bits.toNat < 2 ^ 63 then (x.magnitude : Int) else -(x.magnitude : Int)

/-- The `f64` of an integer below 2⁵³, which is exact. -/
def ofNat (n : Nat) : F64 :=
  if n = 0 then ⟨0⟩
  else ⟨BitVec.ofNat 64 ((1023 + n.log2) * 2 ^ 52 + (n * 2 ^ (52 - n.log2) - 2 ^ 52))⟩

end F64

/-- A comparison with a NaN is false, whichever way round. -/
instance : Amount F64 where
  literal := F64.ofNat
  le x y := !x.isNaN && !y.isNaN && decide (x.rank ≤ y.rank)
  lt x y := !x.isNaN && !y.isNaN && decide (x.rank < y.rank)

/-- `MINING_REWARD` is the `f64` 50.0, bit for bit. -/
example : (Amount.literal 50 : F64) = ⟨0x4049000000000000⟩ := by decide

/-! ## Transactions -/

/-- `[u8; n]`. -/
abbrev Bytes (n : Nat) := { bs : List UInt8 // bs.length = n }

/-- `bs.try_into().unwrap_or([0; n])`. -/
def Bytes.tryIntoOrZero (n : Nat) (bs : List UInt8) : Bytes n :=
  if h : bs.length = n then ⟨bs, h⟩ else ⟨List.replicate n 0, List.length_replicate⟩

structure Transaction (A : Type) where
  sender : String
  receiver : String
  amount : A
  signature : Option (List UInt8)
deriving DecidableEq

structure Block (A : Type) where
  index : UInt32
  timestamp : UInt64
  transactions : List (Transaction A)
  previousHash : String
  hash : String
  nonce : UInt64
deriving DecidableEq

inductive Message (A : Type)
  | newTransaction (tx : Transaction A)
  | newBlock (block : Block A)
deriving DecidableEq

/-- The other crates: `sha2`, `serde_json`, `ed25519_dalek`, and the text `{}`
gives an amount.  A parsed key or signature is represented by its bytes.
`overflowChecks` is the build profile's: with it `+` panics on overflow, without
it `+` wraps. -/
structure Env (A : Type) where
  sha256 : List UInt8 → List UInt8
  txsToJson : List (Transaction A) → String
  encodeMessage : Message A → List UInt8
  decodeMessage : List UInt8 → Option (Message A)
  displayAmount : A → String
  keyParses : Bytes 32 → Bool
  signatureParses : Bytes 64 → Bool
  verify : Bytes 32 → List UInt8 → Bytes 64 → Bool
  sign : Bytes 32 → List UInt8 → Bytes 64
  overflowChecks : Bool

variable {A : Type}

/-! ### `mod hex` -/

/-- `hex::encode`. -/
def hexEncode (bytes : List UInt8) : String := String.ofList (bytes.flatMap lowerHex)

/-- The pairs of `hex::decode` from byte positions `is` on.  `none` is the panic
of `&s[i..i + 2]`; `collect` stops at the first error, so no later slice is
taken. -/
def hexDecodeAt (s : List Char) : List Nat → Option (Except ParseIntError (List UInt8))
  | [] => some (.ok [])
  | i :: is =>
      match slice s i (i + 2) with
      | none => none
      | some pair =>
          match u8FromStrRadix16 pair with
          | .error e => some (.error e)
          | .ok b => (hexDecodeAt s is).map (Except.map (b :: ·))

/-- `hex::decode`: the positions are `(0..s.len()).step_by(2)`. -/
def hexDecode (s : String) : Option (Except ParseIntError (List UInt8)) :=
  hexDecodeAt s.toList ((List.range ((len s.toList + 1) / 2)).map (2 * ·))

namespace Transaction

/-- `Transaction::new`. -/
def new (sender receiver : String) (amount : A) : Transaction A :=
  ⟨sender, receiver, amount, none⟩

/-- `Transaction::calculate_hash`. -/
def calculateHash (E : Env A) (tx : Transaction A) : List UInt8 :=
  E.sha256 (asBytes (tx.sender ++ tx.receiver ++ E.displayAmount tx.amount))

/-- `Transaction::sign`. -/
def sign (E : Env A) (signingKey : Bytes 32) (tx : Transaction A) : Transaction A :=
  { tx with signature := some (E.sign signingKey (tx.calculateHash E)).val }

/-- `Transaction::verify_signature`; `none` if `hex::decode` panics.  A key or a
signature of the wrong length is replaced by zeros, not refused. -/
def verifySignature (E : Env A) (tx : Transaction A) : Option Bool :=
  if tx.sender = "SYSTEM" then some true
  else
    match tx.signature with
    | none => some false
    | some sigBytes =>
        match hexDecode tx.sender with
        | none => none
        | some (.error _) => some false
        | some (.ok publicKeyBytes) =>
            let key := Bytes.tryIntoOrZero 32 publicKeyBytes
            let signature := Bytes.tryIntoOrZero 64 sigBytes
            if !E.keyParses key then some false
            else if !E.signatureParses signature then some false
            else some (E.verify key (tx.calculateHash E) signature)

end Transaction

/-! ## Blocks -/

/-- `DIFFICULTY`. -/
def difficulty : Nat := 4

/-- `MINING_REWARD`. -/
def miningReward [Amount A] : A := Amount.literal 50

namespace Block

/-- `Block::calculate_hash`. -/
def calculateHash (E : Env A) (b : Block A) : String :=
  hexEncode (E.sha256 (asBytes (toString b.index ++ toString b.timestamp ++
    E.txsToJson b.transactions ++ b.previousHash ++ toString b.nonce)))

/-- The text it digests. -/
def preimage (E : Env A) (b : Block A) : String :=
  toString b.index ++ toString b.timestamp ++ E.txsToJson b.transactions ++ b.previousHash ++
    toString b.nonce

theorem calculateHash_eq (E : Env A) (b : Block A) :
    b.calculateHash E = hexEncode (E.sha256 (asBytes (b.preimage E))) := rfl

/-- The assignment `block.hash = block.calculate_hash()`. -/
def rehash (E : Env A) (b : Block A) : Block A := { b with hash := b.calculateHash E }

/-- `Block::new`, at clock reading `now`. -/
def new (E : Env A) (now : UInt64) (index : UInt32) (transactions : List (Transaction A))
    (previousHash : String) : Block A :=
  rehash E ⟨index, now, transactions, previousHash, "", 0⟩

/-- `"0".repeat(difficulty)`. -/
def target (difficulty : Nat) : String := String.ofList (List.replicate difficulty '0')

/-- The body of the mining loop. -/
def tryNextNonce (E : Env A) (b : Block A) : Block A := rehash E { b with nonce := b.nonce + 1 }

/-- The mining loop, with the number of increments left before the nonce
overflows. -/
def mineLoop (E : Env A) (target : String) : Nat → Block A → Option (Block A)
  | 0, b => if startsWith b.hash target then some b else none
  | left + 1, b =>
      if startsWith b.hash target then some b else mineLoop E target left (tryNextNonce E b)

/-- `Block::mine`.  `none`: every nonce up to `u64::MAX` has been tried.  With
overflow checks the next `+= 1` panics; without them the search starts over from
0, and for a block fresh from `Block::new` it has then no end. -/
def mine (E : Env A) (difficulty : Nat) (b : Block A) : Option (Block A) :=
  mineLoop E (target difficulty) (2 ^ 64 - 1 - b.nonce.toNat) b

end Block

/-! ## The chain -/

structure Blockchain (A : Type) where
  chain : List (Block A)
  pendingTransactions : List (Transaction A)
deriving DecidableEq

/-- How a call ends.  `abort`: it does not come back. -/
inductive Outcome (α : Type)
  | ok (value : α)
  | err (message : String)
  | abort
deriving DecidableEq

namespace Blockchain

/-- The genesis transaction of `create_genesis_block`. -/
def genesisTx [Amount A] : Transaction A :=
  .new "SYSTEM" "Genesis_Receiver" (Amount.literal 1000000)

/-- `Blockchain::new`, with `create_genesis_block`; `none` if no nonce gives the
genesis block its zeros. -/
def new [Amount A] (E : Env A) (now : UInt64) : Option (Blockchain A) :=
  ((Block.new E now 0 [genesisTx] "0").mine E difficulty).map fun genesis => ⟨[genesis], []⟩

/-- `Blockchain::get_latest_block`; `none` is the panic of `unwrap`. -/
def getLatestBlock (bc : Blockchain A) : Option (Block A) := bc.chain.getLast?

/-- `Blockchain::add_transaction`. -/
def addTransaction [Amount A] (E : Env A) (tx : Transaction A) (bc : Blockchain A) :
    Outcome Unit × Blockchain A :=
  if Amount.le tx.amount (Amount.literal 0) then
    (.err "The transaction amount must be greater than 0", bc)
  else
    match tx.verifySignature E with
    | none => (.abort, bc)
    | some false => (.err "Critical error: Transaction digital signature is invalid!", bc)
    | some true => (.ok (), { bc with pendingTransactions := bc.pendingTransactions ++ [tx] })

/-- `index + 1` on a `u32`. -/
def nextIndex (E : Env A) (index : UInt32) : Option UInt32 :=
  if index.toNat + 1 < 2 ^ 32 then some (index + 1)
  else if E.overflowChecks then none else some 0

/-- The block that `mine_pending_transactions` starts to mine on `lastBlock`. -/
def candidate [Amount A] (E : Env A) (minerAddress : String) (now : UInt64) (index : UInt32)
    (lastBlock : Block A) (bc : Blockchain A) : Block A :=
  .new E now index (.new "SYSTEM" minerAddress miningReward :: bc.pendingTransactions)
    lastBlock.hash

/-- `Blockchain::mine_pending_transactions`. -/
def minePendingTransactions [Amount A] (E : Env A) (minerAddress : String) (now : UInt64)
    (bc : Blockchain A) : Outcome (Block A) × Blockchain A :=
  match bc.getLatestBlock with
  | none => (.abort, bc)
  | some lastBlock =>
      match nextIndex E lastBlock.index with
      | none => (.abort, bc)
      | some index =>
          match (candidate E minerAddress now index lastBlock bc).mine E difficulty with
          | none => (.abort, bc)
          | some newBlock => (.ok newBlock, ⟨bc.chain ++ [newBlock], []⟩)

/-- `Blockchain::add_block_from_network`. -/
def addBlockFromNetwork (E : Env A) (block : Block A) (bc : Blockchain A) :
    Outcome Unit × Blockchain A :=
  match bc.getLatestBlock with
  | none => (.abort, bc)
  | some lastBlock =>
      if block.previousHash ≠ lastBlock.hash then (.err "The previous hash does not match ..", bc)
      else if block.hash ≠ block.calculateHash E then (.err "Block hash is corrupted ..", bc)
      else (.ok (), ⟨bc.chain ++ [block], []⟩)

/-- `handle_connection`, given the bytes of its one `read`: the message they
decode to is applied, and a refusal is only printed. -/
def handleConnection [Amount A] (E : Env A) (received : List UInt8) (bc : Blockchain A) :
    Blockchain A :=
  if received.length = 0 then bc
  else
    match E.decodeMessage received with
    | none => bc
    | some (.newTransaction tx) => (bc.addTransaction E tx).2
    | some (.newBlock block) => (bc.addBlockFromNetwork E block).2

end Blockchain

/-! ## What each operation does -/

namespace Block
variable (E : Env A)

theorem mineLoop_hash {target : String} {left : Nat} {b b' : Block A}
    (hb : b.hash = b.calculateHash E) (h : mineLoop E target left b = some b') :
    b'.hash = b'.calculateHash E ∧ startsWith b'.hash target := by
  induction left generalizing b with
  | zero =>
    unfold mineLoop at h
    split at h
    · obtain rfl := Option.some.inj h; exact ⟨hb, ‹_›⟩
    · cases h
  | succ left ih =>
    unfold mineLoop at h
    split at h
    · obtain rfl := Option.some.inj h; exact ⟨hb, ‹_›⟩
    · exact ih rfl h

/-- Mining changes the nonce and the hash of a block, nothing else. -/
theorem mineLoop_fields {target : String} {left : Nat} {b b' : Block A}
    (h : mineLoop E target left b = some b') :
    b'.index = b.index ∧ b'.timestamp = b.timestamp ∧ b'.transactions = b.transactions ∧
      b'.previousHash = b.previousHash := by
  induction left generalizing b with
  | zero =>
    unfold mineLoop at h
    split at h
    · obtain rfl := Option.some.inj h; exact ⟨rfl, rfl, rfl, rfl⟩
    · cases h
  | succ left ih =>
    unfold mineLoop at h
    split at h
    · obtain rfl := Option.some.inj h; exact ⟨rfl, rfl, rfl, rfl⟩
    · have hnext := ih (b := tryNextNonce E b) h
      exact hnext

/-- What `mine` returns on a block whose hash is up to date. -/
theorem mine_spec {d : Nat} {b b' : Block A} (hb : b.hash = b.calculateHash E)
    (h : b.mine E d = some b') :
    b'.hash = b'.calculateHash E ∧ startsWith b'.hash (target d) ∧ b'.index = b.index ∧
      b'.transactions = b.transactions ∧ b'.previousHash = b.previousHash := by
  obtain ⟨hhash, hzeros⟩ := mineLoop_hash E hb h
  obtain ⟨hindex, -, htxs, hprev⟩ := mineLoop_fields E h
  exact ⟨hhash, hzeros, hindex, htxs, hprev⟩

/-- A block that already has its zeros is returned as it is. -/
theorem mine_of_startsWith {d : Nat} {b : Block A} (h : startsWith b.hash (target d)) :
    b.mine E d = some b := by
  unfold mine
  cases 2 ^ 64 - 1 - b.nonce.toNat <;> simp [mineLoop, h]

end Block

namespace Blockchain

/-- `Blockchain::new` returns a chain of one block, mined on no predecessor. -/
theorem new_spec [Amount A] (E : Env A) {now : UInt64} {bc : Blockchain A}
    (h : new E now = some bc) :
    ∃ genesis, bc = ⟨[genesis], []⟩ ∧ genesis.hash = genesis.calculateHash E ∧
      genesis.index = 0 := by
  unfold new at h
  obtain ⟨genesis, hmine, rfl⟩ := Option.map_eq_some_iff.mp h
  obtain ⟨hhash, -, hindex, -, -⟩ := Block.mine_spec E rfl hmine
  exact ⟨genesis, rfl, hhash, hindex⟩

/-- The transactions of that block, and what it names as its predecessor. -/
theorem new_genesis [Amount A] (E : Env A) {now : UInt64} {bc : Blockchain A}
    (h : new E now = some bc) :
    ∃ genesis, bc = ⟨[genesis], []⟩ ∧ genesis.hash = genesis.calculateHash E ∧
      genesis.transactions = [genesisTx] ∧ genesis.previousHash = "0" := by
  unfold new at h
  obtain ⟨genesis, hmine, rfl⟩ := Option.map_eq_some_iff.mp h
  obtain ⟨hhash, -, -, htxs, hprev⟩ := Block.mine_spec E rfl hmine
  exact ⟨genesis, rfl, hhash, htxs, hprev⟩

/-- `add_transaction` either queues a transaction that passed both tests, and
returns `Ok`, or changes nothing and does not. -/
theorem addTransaction_cases [Amount A] (E : Env A) (tx : Transaction A) (bc : Blockchain A) :
    (addTransaction E tx bc =
          (.ok (), { bc with pendingTransactions := bc.pendingTransactions ++ [tx] }) ∧
        Amount.le tx.amount (Amount.literal 0) = false ∧ tx.verifySignature E = some true) ∨
      ((addTransaction E tx bc).2 = bc ∧ (addTransaction E tx bc).1 ≠ .ok ()) := by
  unfold addTransaction
  split
  · right; simp
  · split
    · right; simp
    · right; simp
    · left; simp_all

/-- `mine_pending_transactions` either appends the block it mined on the tip and
empties the queue, or does not come back and changes nothing. -/
theorem minePendingTransactions_cases [Amount A] (E : Env A) (minerAddress : String)
    (now : UInt64) (bc : Blockchain A) :
    (∃ last index b, bc.getLatestBlock = some last ∧ nextIndex E last.index = some index ∧
        minePendingTransactions E minerAddress now bc = (.ok b, ⟨bc.chain ++ [b], []⟩) ∧
        b.hash = b.calculateHash E ∧ startsWith b.hash (Block.target difficulty) ∧
        b.index = index ∧ b.previousHash = last.hash ∧
        b.transactions = .new "SYSTEM" minerAddress miningReward :: bc.pendingTransactions) ∨
      minePendingTransactions E minerAddress now bc = (.abort, bc) := by
  unfold minePendingTransactions
  split
  · exact Or.inr rfl
  · rename_i last hlast
    split
    · exact Or.inr rfl
    · rename_i index hindex
      split
      · exact Or.inr rfl
      · rename_i b hmine
        obtain ⟨hhash, hzeros, hidx, htxs, hprev⟩ := Block.mine_spec E rfl hmine
        exact Or.inl ⟨last, index, b, hlast, hindex, rfl, hhash, hzeros, hidx, hprev, htxs⟩

/-- When the candidate has its zeros from the start, mining it is immediate. -/
theorem minePendingTransactions_of_startsWith [Amount A] (E : Env A) (minerAddress : String)
    (now : UInt64) (bc : Blockchain A) {last : Block A} {index : UInt32}
    (hlast : bc.getLatestBlock = some last) (hindex : nextIndex E last.index = some index)
    (hzeros : startsWith (candidate E minerAddress now index last bc).hash
      (Block.target difficulty)) :
    minePendingTransactions E minerAddress now bc =
      (.ok (candidate E minerAddress now index last bc),
        ⟨bc.chain ++ [candidate E minerAddress now index last bc], []⟩) := by
  simp only [minePendingTransactions, hlast, hindex, Block.mine_of_startsWith E hzeros]

/-- `add_block_from_network` accepts exactly the blocks that name the tip's hash
and carry their own; it appends such a block and empties the queue, and changes
nothing otherwise. -/
theorem addBlockFromNetwork_cases (E : Env A) (block : Block A) (bc : Blockchain A) :
    (∃ last, bc.getLatestBlock = some last ∧ block.previousHash = last.hash ∧
        block.hash = block.calculateHash E ∧
        addBlockFromNetwork E block bc = (.ok (), ⟨bc.chain ++ [block], []⟩)) ∨
      ((addBlockFromNetwork E block bc).2 = bc ∧ (addBlockFromNetwork E block bc).1 ≠ .ok () ∧
        ∀ last, bc.getLatestBlock = some last →
          block.previousHash ≠ last.hash ∨ block.hash ≠ block.calculateHash E) := by
  unfold addBlockFromNetwork
  split
  · right; simp_all
  · rename_i last hlast
    split
    · right; simp_all
    · split
      · right; simp_all
      · left; exact ⟨last, hlast, by simp_all, by simp_all, rfl⟩

/-- A block that passes both hash tests is accepted. -/
theorem addBlockFromNetwork_of_hashes (E : Env A) {block last : Block A} {bc : Blockchain A}
    (hlast : bc.getLatestBlock = some last) (hprev : block.previousHash = last.hash)
    (hhash : block.hash = block.calculateHash E) :
    addBlockFromNetwork E block bc = (.ok (), ⟨bc.chain ++ [block], []⟩) := by
  rcases addBlockFromNetwork_cases E block bc with ⟨_, -, -, -, h⟩ | ⟨-, -, hrej⟩
  · exact h
  · rcases hrej last hlast with hne | hne
    · exact absurd hprev hne
    · exact absurd hhash hne

end Blockchain

end RustSamples.Doge
