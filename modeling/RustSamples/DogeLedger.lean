import Mathlib.Data.List.Chain
import RustSamples.Machine
import RustSamples.DogeBlockchain

/-! # The integrity of a `doge-rust` ledger

A node's ledger is a machine whose actions are the three calls that change it,
in any order and with any arguments: `add_transaction`, `mine_pending_transactions`
and `add_block_from_network`, the last with a block a peer made up.  All calls go
through one mutex, so a run of the node is a sequence of whole calls.

Every call either leaves the chain alone or appends one block that carries its
own hash and names the hash of the tip (`Call.exec_chain`).  The integrity of the
whole chain, at every point of every run, is the induction on that.
-/
namespace RustSamples.Doge
open Scheduling RustStr

variable {A : Type}

/-- Forget the value a call returns. -/
def Outcome.forget {α : Type} : Outcome α → Outcome Unit
  | .ok _ => .ok ()
  | .err message => .err message
  | .abort => .abort

/-- The calls that can change a node's ledger. -/
inductive Call (A : Type)
  | addTransaction (tx : Transaction A)
  | minePendingTransactions (minerAddress : String) (now : UInt64)
  | addBlockFromNetwork (block : Block A)

variable [Amount A] (E : Env A)

/-- How a call ends, and the ledger after it. -/
def Call.exec (bc : Blockchain A) : Call A → Outcome Unit × Blockchain A
  | .addTransaction tx => bc.addTransaction E tx
  | .minePendingTransactions minerAddress now =>
      let r := bc.minePendingTransactions E minerAddress now
      (r.1.forget, r.2)
  | .addBlockFromNetwork block => bc.addBlockFromNetwork E block

/-- A node's ledger. -/
def ledger : Machine (Blockchain A) (Call A) := ⟨fun bc c => some (c.exec E bc).2⟩

theorem ledger_step {bc bc' : Blockchain A} {c : Call A} :
    (ledger E).step bc c = some bc' ↔ (c.exec E bc).2 = bc' := by
  simp [ledger]

theorem ledger_run_addTransaction (bc : Blockchain A) (tx : Transaction A)
    (calls : List (Call A)) : (ledger E).run bc (.addTransaction tx :: calls) =
      (ledger E).run (bc.addTransaction E tx).2 calls := rfl

theorem ledger_run_mine (bc : Blockchain A) (minerAddress : String) (now : UInt64)
    (calls : List (Call A)) :
    (ledger E).run bc (.minePendingTransactions minerAddress now :: calls) =
      (ledger E).run (bc.minePendingTransactions E minerAddress now).2 calls := rfl

theorem ledger_run_addBlock (bc : Blockchain A) (block : Block A) (calls : List (Call A)) :
    (ledger E).run bc (.addBlockFromNetwork block :: calls) =
      (ledger E).run (bc.addBlockFromNetwork E block).2 calls := rfl

/-- **What a call can do.**  It returns `Ok` and queues a transaction, or appends a block
that names the hash of the tip and carries its own and empties the queue: the block it
mined, which holds the queue, or the peer's.  Otherwise it does not return `Ok` and changes
nothing. -/
theorem Call.exec_cases (bc : Blockchain A) (c : Call A) :
    (∃ tx, c = .addTransaction tx ∧ Amount.le tx.amount (Amount.literal 0) = false ∧
      c.exec E bc =
        (.ok (), { bc with pendingTransactions := bc.pendingTransactions ++ [tx] })) ∨
    (∃ last b, bc.getLatestBlock = some last ∧ b.previousHash = last.hash ∧
      b.hash = b.calculateHash E ∧ c.exec E bc = (.ok (), ⟨bc.chain ++ [b], []⟩) ∧
      (c = .addBlockFromNetwork b ∨
        ∃ minerAddress now, c = .minePendingTransactions minerAddress now ∧
          b.transactions = .new "SYSTEM" minerAddress miningReward :: bc.pendingTransactions)) ∨
    ((c.exec E bc).2 = bc ∧ (c.exec E bc).1 ≠ .ok ()) := by
  cases c with
  | addTransaction tx =>
    rcases bc.addTransaction_cases E tx with ⟨h, hle, -⟩ | h
    · exact Or.inl ⟨tx, rfl, hle, h⟩
    · exact Or.inr (Or.inr h)
  | minePendingTransactions minerAddress now =>
    rcases bc.minePendingTransactions_cases E minerAddress now with
      ⟨last, index, b, hlast, -, h, hhash, -, -, hprev, htxs⟩ | h
    · refine Or.inr (Or.inl ⟨last, b, hlast, hprev, hhash, ?_, Or.inr ⟨_, _, rfl, htxs⟩⟩)
      rw [exec, h]
      rfl
    · refine Or.inr (Or.inr ?_)
      rw [exec, h]
      exact ⟨rfl, by simp [Outcome.forget]⟩
  | addBlockFromNetwork block =>
    rcases bc.addBlockFromNetwork_cases E block with ⟨last, hlast, hprev, hhash, h⟩ | ⟨h, hne, -⟩
    · exact Or.inr (Or.inl ⟨last, block, hlast, hprev, hhash, h, Or.inl rfl⟩)
    · exact Or.inr (Or.inr ⟨h, hne⟩)

/-- A call leaves the chain alone, or appends one block that names the hash of the tip and
carries its own. -/
theorem Call.exec_chain (bc : Blockchain A) (c : Call A) :
    (c.exec E bc).2.chain = bc.chain ∨
      ∃ last b, bc.getLatestBlock = some last ∧ b.previousHash = last.hash ∧
        b.hash = b.calculateHash E ∧ (c.exec E bc).2.chain = bc.chain ++ [b] := by
  rcases c.exec_cases E bc with
    ⟨_, -, -, h⟩ | ⟨last, b, hlast, hprev, hhash, h, -⟩ | ⟨h, -⟩
  · exact Or.inl (by rw [h])
  · exact Or.inr ⟨last, b, hlast, hprev, hhash, by rw [h]⟩
  · exact Or.inl (by rw [h])

/-- **A failed call is not half applied.** -/
theorem Call.exec_of_err {bc : Blockchain A} {c : Call A} {message : String}
    (h : (c.exec E bc).1 = .err message) : (c.exec E bc).2 = bc := by
  rcases c.exec_cases E bc with ⟨_, -, -, h'⟩ | ⟨_, _, -, -, -, h', -⟩ | ⟨h', -⟩
  · rw [h'] at h; cases h
  · rw [h'] at h; cases h
  · exact h'

/-! ## Integrity -/

/-- The chain is not empty, every block carries its own hash, and every block but
the first names the hash of the one before it. -/
structure Integrity (chain : List (Block A)) : Prop where
  nonempty : chain ≠ []
  hashes : ∀ b ∈ chain, b.hash = b.calculateHash E
  links : chain.IsChain fun a b => b.previousHash = a.hash

omit [Amount A] in
theorem Integrity.append {chain : List (Block A)} (hi : Integrity E chain) {last b : Block A}
    (hlast : chain.getLast? = some last) (hprev : b.previousHash = last.hash)
    (hhash : b.hash = b.calculateHash E) : Integrity E (chain ++ [b]) where
  nonempty := by simp
  hashes := by
    intro a ha
    rcases List.mem_append.mp ha with ha | ha
    · exact hi.hashes a ha
    · rw [List.mem_singleton.mp ha, hhash]
  links := by
    refine List.isChain_append.mpr ⟨hi.links, List.isChain_singleton b, ?_⟩
    intro x hx y hy
    have hxl : last = x := Option.some.inj (hlast.symm.trans hx)
    have hyb : b = y := Option.some.inj hy
    rw [← hxl, ← hyb, hprev]

theorem integrity_new {now : UInt64} {bc : Blockchain A} (h : Blockchain.new E now = some bc) :
    Integrity E bc.chain := by
  obtain ⟨genesis, rfl, hhash, -⟩ := Blockchain.new_spec E h
  exact ⟨by simp, by simpa using hhash, List.isChain_singleton _⟩

theorem integrity_step {bc bc' : Blockchain A} {c : Call A} (hi : Integrity E bc.chain)
    (h : (ledger E).step bc c = some bc') : Integrity E bc'.chain := by
  rw [ledger_step] at h
  subst bc'
  rcases c.exec_chain E bc with he | ⟨last, b, hlast, hprev, hhash, he⟩
  · rw [he]; exact hi
  · rw [he]; exact hi.append E hlast hprev hhash

theorem chain_prefix_step {bc bc' : Blockchain A} {c : Call A}
    (h : (ledger E).step bc c = some bc') : bc.chain <+: bc'.chain := by
  rw [ledger_step] at h
  subst bc'
  rcases c.exec_chain E bc with he | ⟨_, b, -, -, -, he⟩
  · rw [he]
  · rw [he]; exact List.prefix_append _ _

/-- The chain only grows, and only at its end. -/
theorem chain_prefix_run {bc bc' : Blockchain A} {calls : List (Call A)}
    (h : (ledger E).run bc calls = some bc') : bc.chain <+: bc'.chain :=
  (ledger E).run_invariant (I := fun t => bc.chain <+: t.chain)
    (fun _ _ _ ht hs => ht.trans (chain_prefix_step E hs)) (List.prefix_refl _) h

/-- **The integrity of a ledger, over every run.**  After any calls on a fresh
ledger the chain is not empty, each block carries its own hash, each block after
the first names the hash of its predecessor, every chain the run went through is
a prefix of the present one, and a call that would return `Err` now changes
neither the chain nor the queue. -/
theorem ledger_integrity {now : UInt64} {bc₀ bc : Blockchain A} {calls : List (Call A)}
    (hnew : Blockchain.new E now = some bc₀) (hrun : (ledger E).run bc₀ calls = some bc) :
    bc.chain ≠ [] ∧
      (∀ i (hi : i < bc.chain.length), bc.chain[i].hash = bc.chain[i].calculateHash E) ∧
      (∀ i (hi : i + 1 < bc.chain.length), bc.chain[i + 1].previousHash = bc.chain[i].hash) ∧
      (∀ earlier bc', earlier <+: calls → (ledger E).run bc₀ earlier = some bc' →
        bc'.chain <+: bc.chain) ∧
      (∀ (c : Call A) message, (c.exec E bc).1 = .err message → (c.exec E bc).2 = bc) := by
  have hi : Integrity E bc.chain :=
    (ledger E).run_invariant (I := fun t => Integrity E t.chain)
      (fun _ _ _ ht hs => integrity_step E ht hs) (integrity_new E hnew) hrun
  refine ⟨hi.nonempty, ?_, ?_, ?_, fun c message h => c.exec_of_err E h⟩
  · intro i hlt
    exact hi.hashes _ (List.getElem_mem hlt)
  · intro i hlt
    exact List.isChain_iff_getElem.mp hi.links i hlt
  · intro earlier bc' hpre hrun'
    obtain ⟨t, rest, -, ht, hrest⟩ := (ledger E).run_prefix_split hpre hrun
    obtain rfl : t = bc' := Option.some.inj (ht.symm.trans hrun')
    exact chain_prefix_run E hrest

/-! ### A ledger to evaluate

With a digest of zeros every hash has its leading zeros and mining returns at
once, so a run can be computed. -/

/-- A signature of zero bytes. -/
def zeroSignature : Bytes 64 := ⟨List.replicate 64 0, List.length_replicate⟩

/-- An environment whose digest is 32 zero bytes and which refuses every key. -/
def zeroDigest : Env F64 where
  sha256 _ := List.replicate 32 0
  txsToJson _ := "[]"
  encodeMessage _ := []
  decodeMessage _ := none
  displayAmount _ := "0"
  keyParses _ := false
  signatureParses _ := false
  verify _ _ _ := false
  sign _ _ := zeroSignature
  overflowChecks := true

/-- The genesis ledger of `zeroDigest`. -/
def zeroGenesis : Blockchain F64 := ⟨[.new zeroDigest 7 0 [Blockchain.genesisTx] "0"], []⟩

theorem new_zeroDigest : Blockchain.new zeroDigest 7 = some zeroGenesis := by
  unfold Blockchain.new
  rw [Block.mine_of_startsWith zeroDigest (by decide)]
  rfl

/-- A run that mines one block, and the links of the chain it leaves. -/
theorem ledger_integrity_mined :
    ∃ bc, (ledger zeroDigest).run zeroGenesis [.minePendingTransactions "miner" 8] = some bc ∧
      bc.chain.length = 2 ∧
      ∀ i (hi : i + 1 < bc.chain.length), bc.chain[i + 1].previousHash = bc.chain[i].hash := by
  have hmine := Blockchain.minePendingTransactions_of_startsWith zeroDigest "miner" 8 zeroGenesis
    rfl (show Blockchain.nextIndex zeroDigest 0 = some 1 from rfl) (by decide)
  have hrun : (ledger zeroDigest).run zeroGenesis [.minePendingTransactions "miner" 8] =
      some (zeroGenesis.minePendingTransactions zeroDigest "miner" 8).2 := rfl
  exact ⟨_, hrun, by rw [hmine]; rfl, (ledger_integrity zeroDigest new_zeroDigest hrun).2.2.1⟩

/-! ### A ledger with recorded digests

`recorded` answers for a few texts with their SHA-256 digest, so the runs below have the
hashes the program computes.  The clock readings are ones at which the first nonce gives
the zeros. -/

section recorded
variable {A : Type}

/-- `serde_json`'s text of a signature. -/
def jsonSignature : Option (List UInt8) → String
  | none => "null"
  | some bytes => "[" ++ String.intercalate "," (bytes.map toString) ++ "]"

/-- `serde_json`'s text of a transaction, of names that need no escape. -/
def jsonTransaction (jsonAmount : A → String) (tx : Transaction A) : String :=
  "\x7b\"sender\":\"" ++ tx.sender ++ "\",\"receiver\":\"" ++ tx.receiver ++
    "\",\"amount\":" ++ jsonAmount tx.amount ++ ",\"signature\":" ++ jsonSignature tx.signature ++
    "\x7d"

/-- The JSON array of these. -/
def jsonTransactions (jsonAmount : A → String) (txs : List (Transaction A)) : String :=
  "[" ++ String.intercalate "," (txs.map (jsonTransaction jsonAmount)) ++ "]"

/-- The 32 bytes of a number, the highest first. -/
def bigEndian32 (n : Nat) : List UInt8 :=
  (List.range 32).map fun i => UInt8.ofNat (n / 256 ^ (31 - i))

/-- The digest of the recorded genesis block. -/
def genesisDigest : List UInt8 :=
  bigEndian32 0x00007420f05df42bd1c2c2905677c64ec9b38199317bc775860e14f926077722

/-- That of a block mined on it from an empty queue. -/
def minedDigest : List UInt8 :=
  bigEndian32 0x00000c9975117c530769137e5869434f16e4ec7662f9cf35fe42e00be33ebcc4

/-- That of one mined from a queue of one transaction of sender `"SYSTEM"`. -/
def mintedDigest : List UInt8 :=
  bigEndian32 0x0000c4f1a15db7e5fee22e9048c1b0823f20702c5b5d12e9d349451a291d66d9

/-- That of a peer's block without transactions. -/
def peerDigest : List UInt8 :=
  bigEndian32 0xc297ae6bfce9e72498702d86245822bbbca8a4b7f8f4eec5298960ec1b04f7e4

/-- The texts that `calculate_hash` digests for these blocks, with the digest. -/
def recordedDigests : List (String × List UInt8) :=
  [("01700040883" ++ jsonTransactions toString
        [.new "SYSTEM" "Genesis_Receiver" "1000000.0"] ++ "00", genesisDigest),
    ("11700150198" ++ jsonTransactions toString [.new "SYSTEM" "miner" "50.0"] ++
        hexEncode genesisDigest ++ "0", minedDigest),
    ("11700044651" ++ jsonTransactions toString
        [.new "SYSTEM" "miner" "50.0", .new "SYSTEM" "mallory" "1000.0"] ++
        hexEncode genesisDigest ++ "0", mintedDigest),
    ("11800000000[]" ++ hexEncode genesisDigest ++ "0", peerDigest)]

/-- SHA-256 on the recorded texts. -/
def recordedSha256 (text : List UInt8) : List UInt8 :=
  ((recordedDigests.find? fun e => asBytes e.1 == text).map Prod.snd).getD (List.replicate 32 0)

/-- The environment of the recorded runs, which holds no key. -/
def recorded (jsonAmount : A → String) : Env A where
  sha256 := recordedSha256
  txsToJson := jsonTransactions jsonAmount
  encodeMessage _ := []
  decodeMessage _ := none
  displayAmount := jsonAmount
  keyParses _ := false
  signatureParses _ := false
  verify _ _ _ := false
  sign _ _ := zeroSignature
  overflowChecks := true

/-- The table is searched by the text itself, since a text is determined by its bytes. -/
theorem recordedSha256_asBytes {text : String} {digest : List UInt8}
    (h : (recordedDigests.find? fun e => e.1 == text).map Prod.snd = some digest) :
    recordedSha256 (asBytes text) = digest := by
  have hfind : (fun e : String × List UInt8 => asBytes e.1 == asBytes text) =
      fun e => e.1 == text := by
    funext e
    rw [Bool.eq_iff_iff, beq_iff_eq, beq_iff_eq]
    exact ⟨asBytes_injective, fun h => h ▸ rfl⟩
  rw [recordedSha256, hfind, h, Option.getD_some]

/-- The hash of a recorded block. -/
theorem calculateHash_recorded {jsonAmount : A → String} {b : Block A} {digest : List UInt8}
    (h : (recordedDigests.find? fun e => e.1 == b.preimage (recorded jsonAmount)).map Prod.snd =
      some digest) : b.calculateHash (recorded jsonAmount) = hexEncode digest := by
  rw [Block.calculateHash_eq, show (recorded jsonAmount).sha256 = recordedSha256 from rfl,
    recordedSha256_asBytes h]

/-- A digest that begins with two zero bytes has the zeros that mining looks for. -/
theorem startsWith_hexEncode {digest : List UInt8} (h : digest.take 2 = [0, 0]) :
    startsWith (hexEncode digest) (Block.target difficulty) := by
  obtain ⟨rest, rfl⟩ : ∃ rest, digest = 0 :: 0 :: rest :=
    ⟨digest.drop 2, by rw [← List.take_append_drop 2 digest, h]; rfl⟩
  rw [startsWith, hexEncode, Block.target, String.toList_ofList, String.toList_ofList]
  rfl

/-- A block with a recorded text and a digest that begins with zeros is mined at once. -/
theorem minePendingTransactions_recorded [Amount A] {jsonAmount : A → String}
    {minerAddress : String} {now : UInt64} {bc : Blockchain A} {last : Block A} {index : UInt32}
    {digest : List UInt8} (hlast : bc.getLatestBlock = some last)
    (hindex : Blockchain.nextIndex (recorded jsonAmount) last.index = some index)
    (hhash : last.hash = hexEncode genesisDigest)
    (hfind : (recordedDigests.find? fun e => e.1 == Block.preimage (recorded jsonAmount)
      ⟨index, now, .new "SYSTEM" minerAddress miningReward :: bc.pendingTransactions,
        hexEncode genesisDigest, "", 0⟩).map Prod.snd = some digest)
    (hzeros : digest.take 2 = [0, 0]) :
    let block := bc.candidate (recorded jsonAmount) minerAddress now index last
    bc.minePendingTransactions (recorded jsonAmount) minerAddress now =
      (.ok block, ⟨bc.chain ++ [block], []⟩) := by
  have hcandidate : (bc.candidate (recorded jsonAmount) minerAddress now index last).hash =
      hexEncode digest := by
    rw [Blockchain.candidate, hhash]
    exact calculateHash_recorded hfind
  refine Blockchain.minePendingTransactions_of_startsWith _ _ _ _ hlast hindex ?_
  rw [hcandidate]
  exact startsWith_hexEncode hzeros

/-- The recorded genesis block is mined at once. -/
theorem new_of_recorded [Amount A] {jsonAmount : A → String} {now : UInt64}
    (hhash : (Block.new (recorded jsonAmount) now 0 [Blockchain.genesisTx] "0").hash =
      hexEncode genesisDigest) :
    Blockchain.new (recorded jsonAmount) now =
      some ⟨[.new (recorded jsonAmount) now 0 [Blockchain.genesisTx] "0"], []⟩ := by
  have hzeros : startsWith (Block.new (recorded jsonAmount) now 0 [Blockchain.genesisTx] "0").hash
      (Block.target difficulty) := by
    rw [hhash]
    exact startsWith_hexEncode (by decide +kernel)
  rw [Blockchain.new, Block.mine_of_startsWith (recorded jsonAmount) hzeros]
  rfl

/-- `serde_json`'s text of the amounts in the recorded runs. -/
def jsonF64 (x : F64) : String :=
  match [50, 1000, 1000000].find? fun n => x = Amount.literal n with
  | some n => toString n ++ ".0"
  | none => "null"

/-- The recorded genesis block. -/
def recordedGenesisBlock : Block F64 :=
  .new (recorded jsonF64) 1700040883 0 [Blockchain.genesisTx] "0"

theorem recordedGenesisBlock_hash : recordedGenesisBlock.hash = hexEncode genesisDigest :=
  calculateHash_recorded (b := ⟨0, 1700040883, [Blockchain.genesisTx], "0", "", 0⟩)
    (by decide +kernel)

/-- The ledger that consists of it. -/
def recordedGenesis : Blockchain F64 := ⟨[recordedGenesisBlock], []⟩

theorem new_recorded : Blockchain.new (recorded jsonF64) 1700040883 = some recordedGenesis :=
  new_of_recorded recordedGenesisBlock_hash

/-- A peer's block on the recorded genesis block, without transactions. -/
def emptyBlock (now : UInt64) (index : UInt32) : Block F64 :=
  .new (recorded jsonF64) now index [] (hexEncode genesisDigest)

theorem emptyBlock_accepted (now : UInt64) (index : UInt32) (pending : List (Transaction F64)) :
    Blockchain.addBlockFromNetwork (recorded jsonF64) (emptyBlock now index)
        ⟨recordedGenesis.chain, pending⟩ =
      (.ok (), ⟨recordedGenesis.chain ++ [emptyBlock now index], []⟩) :=
  Blockchain.addBlockFromNetwork_of_hashes _ rfl recordedGenesisBlock_hash.symm rfl

end recorded

end RustSamples.Doge
