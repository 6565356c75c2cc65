import RustSamples.DogeFraming
import RustSamples.DogeHex
import RustSamples.DogeReplication
import RustSamples.HashChain

/-! # A network of `doge-rust` nodes

Every node has a ledger of its own.  What `main` does with it, a transaction that is added and then
broadcast, a block that is mined and then broadcast, is done here by every node, any number of
times.  A message that was broadcast comes to any node, in any order, again and again, or never,
and the first read returns the part of it that has arrived.  There are also bytes that no node has
sent.

A node comes to a longer chain in one way only, by a block that names the hash of its tip.  It never
gives a block up, and it cannot ask for one.  So two nodes whose chains have parted have parted for
good, and two nodes that were started at different times, each with a genesis block of its own, have
never a block in common.

Without foreign bytes, all that is in the chains was mined by some node, and what was mined is
transactions that some node has checked (`honest_blocks`); what `add_block_from_network` does not
check is then true all the same.
-/
namespace RustSamples.Doge
open Scheduling RustStr HashChain

variable {ι A : Type}

structure Network (ι A : Type) where
  ledgers : ι → Blockchain A
  /-- the messages that were broadcast -/
  sent : List (Message A)

inductive NetworkAction (ι A : Type)
  /-- `add_transaction`, and a broadcast of what it has accepted -/
  | submit (node : ι) (tx : Transaction A)
  /-- `mine_pending_transactions`, and a broadcast of the block -/
  | mine (node : ι) (minerAddress : String) (now : UInt64)
  /-- a connection of which the first read finds the first `arrived` bytes of the `i`-th message -/
  | deliver (node : ι) (i arrived : Nat)
  /-- a connection of somebody else -/
  | intrude (node : ι) (arrived : List UInt8)

/-- The bytes come from a node. -/
def NetworkAction.Honest : NetworkAction ι A → Prop
  | .intrude _ _ => False
  | _ => True

variable [DecidableEq ι] [Amount A] (E : Env A)

namespace Network

def set (s : Network ι A) (node : ι) (bc : Blockchain A) : Network ι A :=
  { s with ledgers := Function.update s.ledgers node bc }

/-- The ledger of a node behind a connection. -/
def connect (s : Network ι A) (node : ι) (arrived : List UInt8) : Network ι A :=
  s.set node ((s.ledgers node).handleConnection E (firstRead [arrived]))

def step (s : Network ι A) : NetworkAction ι A → Option (Network ι A)
  | .submit node tx =>
      match (s.ledgers node).addTransaction E tx with
      | (.ok _, bc) => some { s.set node bc with sent := s.sent ++ [.newTransaction tx] }
      | (_, bc) => some (s.set node bc)
  | .mine node minerAddress now =>
      match (s.ledgers node).minePendingTransactions E minerAddress now with
      | (.ok b, bc) => some { s.set node bc with sent := s.sent ++ [.newBlock b] }
      | (_, bc) => some (s.set node bc)
  | .deliver node i arrived => s.sent[i]?.map fun m =>
      s.connect E node ((E.encodeMessage m).take arrived)
  | .intrude node arrived => some (s.connect E node arrived)

/-- Every node has done `Blockchain::new`, at its own time, and nothing else. -/
structure Created (created : ι → UInt64) (s : Network ι A) : Prop where
  new : ∀ node, Blockchain.new E (created node) = some (s.ledgers node)
  quiet : s.sent = []

end Network

def network : Machine (Network ι A) (NetworkAction ι A) := ⟨Network.step E⟩

/-! ## What a step does to a ledger -/

/-- A connection makes one call, or none. -/
theorem handleConnection_exec (received : List UInt8) (bc : Blockchain A) :
    bc.handleConnection E received = bc ∨
      ∃ c : Call A, bc.handleConnection E received = (c.exec E bc).2 := by
  rw [handleConnection_eq]
  cases receivedMessage E received with
  | none => exact Or.inl rfl
  | some m =>
    cases m with
    | newTransaction tx => exact Or.inr ⟨.addTransaction tx, rfl⟩
    | newBlock block => exact Or.inr ⟨.addBlockFromNetwork block, rfl⟩

/-- **What a step can do**: a node adds and broadcasts a transaction that it has checked, or mines
and broadcasts a block, or a connection comes to a node; else nothing. -/
inductive Network.Step (s : Network ι A) : NetworkAction ι A → Network ι A → Prop
  | submitted {node : ι} {tx : Transaction A} (hle : Amount.le tx.amount (Amount.literal 0) = false)
      (hsig : tx.verifySignature E = some true) : Step s (.submit node tx)
        { s.set node ((s.ledgers node).addTransaction E tx).2 with
          sent := s.sent ++ [.newTransaction tx] }
  | mined {node : ι} {minerAddress : String} {now : UInt64} {b : Block A}
      (hmined : (s.ledgers node).minePendingTransactions E minerAddress now =
        (.ok b, ⟨(s.ledgers node).chain ++ [b], []⟩))
      (hhash : b.hash = b.calculateHash E) (hzeros : startsWith b.hash (Block.target difficulty))
      (htxs : b.transactions =
        .new "SYSTEM" minerAddress miningReward :: (s.ledgers node).pendingTransactions) :
      Step s (.mine node minerAddress now)
        { s.set node ⟨(s.ledgers node).chain ++ [b], []⟩ with sent := s.sent ++ [.newBlock b] }
  | delivered {node : ι} {i arrived : Nat} {m : Message A} (hm : m ∈ s.sent) :
      Step s (.deliver node i arrived) (s.connect E node ((E.encodeMessage m).take arrived))
  | intruded (node : ι) (arrived : List UInt8) :
      Step s (.intrude node arrived) (s.connect E node arrived)
  | nothing (a : NetworkAction ι A) : Step s a s

omit [Amount A] in
theorem Network.set_self (s : Network ι A) (node : ι) : s.set node (s.ledgers node) = s := by
  rw [set, Function.update_eq_self]

omit [Amount A] in
theorem Network.ledgers_set_self (s : Network ι A) (node : ι) (bc : Blockchain A) :
    (s.set node bc).ledgers node = bc := Function.update_self ..

omit [Amount A] in
theorem Network.ledgers_set_of_ne (s : Network ι A) {node n : ι} (bc : Blockchain A)
    (hn : n ≠ node) : (s.set node bc).ledgers n = s.ledgers n := Function.update_of_ne hn _ _

theorem network_step_cases {s u : Network ι A} {a : NetworkAction ι A}
    (h : (network E).step s a = some u) : s.Step E a u := by
  change s.step E a = some u at h
  cases a with
  | submit node tx =>
    rcases (s.ledgers node).addTransaction_cases E tx with ⟨hadd, hle, hsig⟩ | ⟨hadd, hne⟩
    · rw [Network.step, hadd] at h
      obtain rfl := Option.some.inj h
      have hstep : s.Step E (.submit node tx) _ := .submitted hle hsig
      rwa [hadd] at hstep
    · rw [Network.step] at h
      split at h
      · rename_i value bc hr
        exact absurd (congrArg Prod.fst hr) hne
      · rename_i r bc _ hr
        obtain rfl : bc = s.ledgers node := (congrArg Prod.snd hr).symm.trans hadd
        rw [Network.set_self] at h
        exact Option.some.inj h ▸ .nothing _
  | mine node minerAddress now =>
    rcases (s.ledgers node).minePendingTransactions_cases E minerAddress now with
      ⟨_, _, b, -, -, hmine, hhash, hzeros, -, -, htxs⟩ | hmine
    · rw [Network.step, hmine] at h
      exact Option.some.inj h ▸ .mined hmine hhash hzeros htxs
    · rw [Network.step, hmine] at h
      dsimp only at h
      rw [Network.set_self] at h
      exact Option.some.inj h ▸ .nothing _
  | deliver node i arrived =>
    obtain ⟨m, hm, rfl⟩ := Option.map_eq_some_iff.1 h
    exact .delivered (List.mem_of_getElem? hm)
  | intrude node arrived => exact Option.some.inj h ▸ .intruded node arrived

/-- The ledgers of the other nodes stay, and the own one changes by a call. -/
theorem ledgers_set {s : Network ι A} {node : ι} {bc : Blockchain A}
    (hcall : bc = s.ledgers node ∨ ∃ c : Call A, bc = (c.exec E (s.ledgers node)).2) (n : ι) :
    (s.set node bc).ledgers n = s.ledgers n ∨
      ∃ c : Call A, (s.set node bc).ledgers n = (c.exec E (s.ledgers n)).2 := by
  by_cases hn : n = node
  · subst hn
    rwa [s.ledgers_set_self]
  · exact Or.inl (s.ledgers_set_of_ne bc hn)

theorem network_step_ledger {s u : Network ι A} {a : NetworkAction ι A}
    (h : (network E).step s a = some u) (n : ι) :
    u.ledgers n = s.ledgers n ∨ ∃ c : Call A, u.ledgers n = (c.exec E (s.ledgers n)).2 := by
  cases network_step_cases E h with
  | submitted => exact ledgers_set E (Or.inr ⟨.addTransaction _, rfl⟩) n
  | mined hmined =>
    rename_i minerAddress now b _ _ _
    refine ledgers_set E (Or.inr ⟨.minePendingTransactions minerAddress now, ?_⟩) n
    rw [Call.exec, hmined]
  | delivered | intruded => exact ledgers_set E (handleConnection_exec E _ _) n
  | nothing => exact Or.inl rfl

/-- **Every node of the network is a ledger**: what it goes through is a run of one. -/
theorem exists_calls {s t : Network ι A} {as : List (NetworkAction ι A)}
    (h : (network E).run s as = some t) (n : ι) :
    ∃ calls, (ledger E).run (s.ledgers n) calls = some (t.ledgers n) := by
  refine (network E).run_invariant
    (I := fun u => ∃ calls, (ledger E).run (s.ledgers n) calls = some (u.ledgers n))
    (fun u a v ⟨calls, hu⟩ hstep => ?_) ⟨[], rfl⟩ h
  rcases network_step_ledger E hstep n with heq | ⟨c, heq⟩
  · exact ⟨calls, by rw [heq, hu]⟩
  · refine ⟨calls ++ [c], (ledger E).run_concat.2 ⟨_, hu, ?_⟩⟩
    rw [ledger_step, heq]

/-! ## Forks -/

/-- The genesis block has the time of its creation, and names no predecessor. -/
theorem new_timestamp {now : UInt64} {bc : Blockchain A} (h : Blockchain.new E now = some bc) :
    ∃ genesis, bc.chain = [genesis] ∧ genesis.timestamp = now ∧ genesis.previousHash = "0" := by
  obtain ⟨genesis, hmine, rfl⟩ := Option.map_eq_some_iff.1 h
  obtain ⟨-, htime, -, hprev⟩ := Block.mineLoop_fields E hmine
  exact ⟨genesis, rfl, htime, hprev⟩

omit [Amount A] in
/-- No hash is the text that a genesis block names, for a hash has two digits for every byte. -/
theorem calculateHash_ne_zero (b : Block A) : b.calculateHash E ≠ "0" := by
  intro h
  have hlen := length_hexEncode (E.sha256 (asBytes (b.preimage E)))
  rw [← Block.calculateHash_eq, h] at hlen
  have hone : ("0" : String).toList.length = 1 := rfl
  omega

section
variable {E} {created : ι → UInt64} {s₀ s t : Network ι A} {as : List (NetworkAction ι A)}

/-- The chain of a node is in order, and begins with the node's own genesis block. -/
theorem chain_of_run (h₀ : s₀.Created E created) (hrun : (network E).run s₀ as = some s) (n : ι) :
    Integrity E (s.ledgers n).chain ∧
      ∃ genesis, (s.ledgers n).chain[0]? = some genesis ∧ genesis.timestamp = created n ∧
        genesis.previousHash = "0" := by
  obtain ⟨calls, hcalls⟩ := exists_calls E hrun n
  constructor
  · exact (ledger E).run_invariant (I := fun bc => Integrity E bc.chain)
      (fun _ _ _ hbc hstep => integrity_step E hbc hstep) (integrity_new E (h₀.new n)) hcalls
  · obtain ⟨genesis, hchain, htime, hprev⟩ := new_timestamp E (h₀.new n)
    have hpre := chain_prefix_run E hcalls
    rw [hchain] at hpre
    exact ⟨genesis, getElem?_of_prefix hpre rfl, htime, hprev⟩

theorem linked_of_run (h₀ : s₀.Created E created) (hrun : (network E).run s₀ as = some s) (n : ι) :
    Linked Block.hash Block.previousHash (s.ledgers n).chain :=
  (chain_of_run h₀ hrun n).1.links

/-- What a genesis block names is no hash of a block of any node. -/
theorem rooted_of_run (h₀ : s₀.Created E created) (hrun : (network E).run s₀ as = some s)
    (m n k : ι) : Rooted Block.hash Block.previousHash
      ((s.ledgers m).chain ++ (s.ledgers n).chain) (s.ledgers k).chain := by
  obtain ⟨-, genesis, hgenesis, -, hprev⟩ := chain_of_run h₀ hrun k
  intro root hroot b hb
  rw [List.head?_eq_getElem?, hgenesis] at hroot
  obtain rfl := Option.some.inj hroot
  have hhash : b.hash = b.calculateHash E := by
    rcases List.mem_append.1 hb with hb | hb
    · exact (chain_of_run h₀ hrun m).1.hashes b hb
    · exact (chain_of_run h₀ hrun n).1.hashes b hb
  rw [hhash, hprev]
  exact calculateHash_ne_zero E b

/-- **The chains of a network form a tree, and forks are for good.**  Whatever the nodes do and
whatever reaches them, foreign bytes included: unless two different blocks have one hash, a block
that two nodes have stands at the same place in both chains, with the same blocks before it; and
where two chains differ at a place, nothing that the one has from there on will ever be in the
other, however long either gets. -/
theorem forks_are_permanent {bs : List (NetworkAction ι A)} (h₀ : s₀.Created E created)
    (hs : (network E).run s₀ as = some s) (ht : (network E).run s bs = some t) {m n : ι}
    (hfree : CollisionFree Block.hash ((t.ledgers m).chain ++ (t.ledgers n).chain)) :
    (∀ (i j : Nat) b, (t.ledgers m).chain[i]? = some b → (t.ledgers n).chain[j]? = some b →
      i = j ∧ (t.ledgers m).chain.take (i + 1) = (t.ledgers n).chain.take (j + 1)) ∧
    ∀ (i : Nat) a a', (s.ledgers m).chain[i]? = some a → (s.ledgers n).chain[i]? = some a' →
      a ≠ a' → ∀ (j : Nat) b, i ≤ j → (t.ledgers m).chain[j]? = some b →
        b ∉ (t.ledgers n).chain := by
  have hrun : (network E).run s₀ (as ++ bs) = some t := by
    rw [(network E).run_append, hs]
    exact ht
  have hpre : ∀ k, (s.ledgers k).chain <+: (t.ledgers k).chain := fun k => by
    obtain ⟨calls, hcalls⟩ := exists_calls E ht k
    exact chain_prefix_run E hcalls
  have hm := linked_of_run h₀ hrun m
  have hn := linked_of_run h₀ hrun n
  have hroot := rooted_of_run h₀ hrun m n m
  have hroot' := rooted_of_run h₀ hrun m n n
  constructor
  · intro i j b hi hj
    exact take_eq_of_shared hm hn hfree hroot hroot' hi hj
  · intro i a a' ha ha' hne j b hij hb
    exact not_mem_of_fork hm hn hfree hroot hroot' (hpre m) (hpre n) ha ha' hne hij hb

/-- **Nodes that were started at different times never share a block**: every block that one of them
has, its own and what it took from others, is refused by the other, in every state of every run. -/
theorem separate_nodes_refuse (h₀ : s₀.Created E created) (hs : (network E).run s₀ as = some s)
    {m n : ι} (hne : created m ≠ created n)
    (hfree : CollisionFree Block.hash ((s.ledgers m).chain ++ (s.ledgers n).chain)) :
    ∀ b ∈ (s.ledgers m).chain, b ∉ (s.ledgers n).chain ∧
      (s.ledgers n).addBlockFromNetwork E b =
        (.err "The previous hash does not match ..", s.ledgers n) := by
  obtain ⟨hm, genesis, hgenesis, htime, hprev⟩ := chain_of_run h₀ hs m
  obtain ⟨hn, genesis', hgenesis', htime', -⟩ := chain_of_run h₀ hs n
  have hroot := rooted_of_run h₀ hs m n m
  have hdiffer : genesis ≠ genesis' := fun heq => hne (by rw [← htime, ← htime', heq])
  have hapart : ∀ b ∈ (s.ledgers m).chain, b ∉ (s.ledgers n).chain := by
    intro b hb
    obtain ⟨j, hj⟩ := List.mem_iff_getElem?.1 hb
    exact not_mem_of_fork hm.links hn.links hfree hroot (rooted_of_run h₀ hs m n n)
      (List.prefix_refl _) (List.prefix_refl _) hgenesis hgenesis' hdiffer (Nat.zero_le j) hj
  refine fun b hb => ⟨hapart b hb, ?_⟩
  obtain ⟨last, hlast⟩ := Option.ne_none_iff_exists'.1 (mt List.getLast?_eq_none_iff.1 hn.nonempty)
  have hmem : last ∈ (s.ledgers n).chain := List.mem_of_getLast? hlast
  -- the tip of the other node is nothing that a block of this node names
  have hother : b.previousHash ≠ last.hash := by
    obtain ⟨j, hj⟩ := List.mem_iff_getElem?.1 hb
    cases j with
    | zero =>
      obtain rfl : genesis = b := Option.some.inj (hgenesis.symm.trans hj)
      exact fun h => hroot genesis (by rw [List.head?_eq_getElem?]; exact hgenesis) last
        (List.mem_append_right _ hmem) h.symm
    | succ j =>
      obtain ⟨a, ha⟩ := exists_getElem?_pred hj
      have ha' := List.mem_of_getElem? ha
      intro h
      rw [(show Linked _ _ _ from hm.links).prev_eq ha hj] at h
      refine hapart a ha' ?_
      rwa [hfree a (List.mem_append_left _ ha') last (List.mem_append_right _ hmem) h]
  have hget : (s.ledgers n).getLatestBlock = some last := hlast
  rw [Blockchain.addBlockFromNetwork, hget]
  exact if_pos hother

end

/-! ### Two nodes -/

/-- Two nodes with the genesis blocks of `lengthDigest` for their times, and the hashes of these. -/
def twoNodes (created : Bool → UInt64) (hash : Bool → String) : Network Bool F64 :=
  ⟨fun n => ⟨[⟨0, created n, [Blockchain.genesisTx], "0", hash n, 0⟩], []⟩, []⟩

/-- Both were started at 7. -/
def twins : Network Bool F64 := twoNodes (fun _ => 7) fun _ => "000006"

/-- One was started at 7, and the other at 10. -/
def strangers : Network Bool F64 :=
  twoNodes (fun n => if n then 10 else 7) fun n => if n then "000007" else "000006"

theorem created_twins : twins.Created lengthDigest fun _ => 7 := by
  refine ⟨fun node => ?_, rfl⟩
  unfold Blockchain.new
  rw [Block.mine_of_startsWith lengthDigest (by decide)]
  rfl

theorem created_strangers : strangers.Created lengthDigest fun n => if n then 10 else 7 := by
  refine ⟨fun node => ?_, rfl⟩
  unfold Blockchain.new
  cases node with
  | false =>
    rw [Block.mine_of_startsWith lengthDigest (by decide)]
    rfl
  | true =>
    rw [Block.mine_of_startsWith lengthDigest (by decide)]
    rfl

/-- Both mine before they hear of one another; what the one mines then never gets into the chain of
the other. -/
theorem twins_stay_forked :
    ∃ s t, (network lengthDigest).run twins [.mine false "miner" 8, .mine true "miner" 10] =
        some s ∧
      (network lengthDigest).run s [.deliver true 0 4096, .mine false "miner" 100] = some t ∧
      (t.ledgers false).chain.length = 3 ∧
      ∀ b, (t.ledgers false).chain[2]? = some b → b ∉ (t.ledgers true).chain := by
  obtain ⟨s, t, hs, ht, hlen, hfree, a, a', ha, ha', hne⟩ : ∃ s t,
      (network lengthDigest).run twins [.mine false "miner" 8, .mine true "miner" 10] = some s ∧
      (network lengthDigest).run s [.deliver true 0 4096, .mine false "miner" 100] = some t ∧
      (t.ledgers false).chain.length = 3 ∧
      CollisionFree Block.hash ((t.ledgers false).chain ++ (t.ledgers true).chain) ∧
      ∃ a a', (s.ledgers false).chain[1]? = some a ∧ (s.ledgers true).chain[1]? = some a' ∧
        a ≠ a' := by
    refine ⟨_, _, rfl, rfl, by decide, ?_, _, _, rfl, rfl, by decide⟩
    unfold CollisionFree
    decide
  exact ⟨s, t, hs, ht, hlen, fun b =>
    (forks_are_permanent created_twins hs ht hfree).2 1 a a' ha ha' hne 2 b (Nat.le_succ 1)⟩

/-- The block that one mines comes to the other, and is refused. -/
theorem strangers_refuse :
    ∃ s, (network lengthDigest).run strangers [.mine false "miner" 8, .deliver true 0 4096] =
        some s ∧ (s.ledgers false).chain.length = 2 ∧
      ∀ b ∈ (s.ledgers false).chain, b ∉ (s.ledgers true).chain ∧
        (s.ledgers true).addBlockFromNetwork lengthDigest b =
          (.err "The previous hash does not match ..", s.ledgers true) := by
  obtain ⟨s, hs, hlen, hfree⟩ : ∃ s,
      (network lengthDigest).run strangers [.mine false "miner" 8, .deliver true 0 4096] = some s ∧
      (s.ledgers false).chain.length = 2 ∧
      CollisionFree Block.hash ((s.ledgers false).chain ++ (s.ledgers true).chain) := by
    refine ⟨_, rfl, by decide, ?_⟩
    unfold CollisionFree
    decide
  exact ⟨s, hs, hlen, separate_nodes_refuse created_strangers hs (by decide) hfree⟩

/-! ## Without foreign bytes -/

/-- A text is not read as another message, and neither is a part of it. -/
def ReadsBack (m : Message A) : Prop :=
  ∀ part m', part <+: E.encodeMessage m → E.decodeMessage part = some m' → m' = m

/-- The transaction was checked by a node, and broadcast. -/
structure Checked (sent : List (Message A)) (tx : Transaction A) : Prop where
  broadcast : .newTransaction tx ∈ sent
  amount : Amount.le tx.amount (Amount.literal 0) = false
  signature : tx.verifySignature E = some true

/-- The block was mined by a node, and broadcast: it has its zeros, and its transactions are a
reward and what was checked. -/
structure Mined (sent : List (Message A)) (b : Block A) : Prop where
  broadcast : .newBlock b ∈ sent
  hash : b.hash = b.calculateHash E
  zeros : startsWith b.hash (Block.target difficulty)
  transactions : ∃ minerAddress rest,
    b.transactions = .new "SYSTEM" minerAddress miningReward :: rest ∧
      ∀ tx ∈ rest, Checked E sent tx

/-- What a ledger has behind the genesis block comes from nodes. -/
structure LedgerTraced (sent : List (Message A)) (bc : Blockchain A) : Prop where
  chain : ∀ (i : Nat) b, 0 < i → bc.chain[i]? = some b → Mined E sent b
  queue : ∀ tx ∈ bc.pendingTransactions, Checked E sent tx

/-- What the nodes have, and what is on its way, comes from nodes. -/
structure Traced (s : Network ι A) : Prop where
  ledgers : ∀ n, LedgerTraced E s.sent (s.ledgers n)
  transactions : ∀ tx, .newTransaction tx ∈ s.sent → Checked E s.sent tx
  blocks : ∀ b, .newBlock b ∈ s.sent → Mined E s.sent b ∧ ∃ n, b ∈ (s.ledgers n).chain

variable {E}

theorem Checked.mono {sent sent' : List (Message A)} {tx : Transaction A}
    (h : Checked E sent tx) (hsub : sent ⊆ sent') : Checked E sent' tx :=
  ⟨hsub h.broadcast, h.amount, h.signature⟩

theorem Mined.mono {sent sent' : List (Message A)} {b : Block A} (h : Mined E sent b)
    (hsub : sent ⊆ sent') : Mined E sent' b := by
  obtain ⟨minerAddress, rest, htxs, hrest⟩ := h.transactions
  exact ⟨hsub h.broadcast, h.hash, h.zeros, minerAddress, rest, htxs,
    fun tx htx => (hrest tx htx).mono hsub⟩

theorem LedgerTraced.mono {sent sent' : List (Message A)} {bc : Blockchain A}
    (h : LedgerTraced E sent bc) (hsub : sent ⊆ sent') : LedgerTraced E sent' bc :=
  ⟨fun i b hi hb => (h.chain i b hi hb).mono hsub, fun tx htx => (h.queue tx htx).mono hsub⟩

theorem LedgerTraced.append {sent : List (Message A)} {bc : Blockchain A}
    (h : LedgerTraced E sent bc) {b : Block A} (hb : Mined E sent b) :
    LedgerTraced E sent ⟨bc.chain ++ [b], []⟩ where
  chain i a hi ha := by
    rcases getElem?_concat_cases ha with ha | ⟨-, rfl⟩
    · exact h.chain i a hi ha
    · exact hb
  queue _ htx := absurd htx List.not_mem_nil

theorem LedgerTraced.addTransaction {sent : List (Message A)} {bc : Blockchain A}
    (h : LedgerTraced E sent bc) {tx : Transaction A} (htx : Checked E sent tx) :
    LedgerTraced E sent (bc.addTransaction E tx).2 := by
  rcases bc.addTransaction_cases E tx with ⟨hadd, -, -⟩ | ⟨hadd, -⟩
  · rw [hadd]
    refine ⟨h.chain, fun tx' htx' => ?_⟩
    rcases List.mem_append.1 htx' with htx' | htx'
    · exact h.queue tx' htx'
    · rwa [List.mem_singleton.1 htx']
  · rwa [hadd]

theorem LedgerTraced.addBlockFromNetwork {sent : List (Message A)} {bc : Blockchain A}
    (h : LedgerTraced E sent bc) {b : Block A} (hb : Mined E sent b) :
    LedgerTraced E sent (bc.addBlockFromNetwork E b).2 := by
  rcases bc.addBlockFromNetwork_cases E b with ⟨_, -, -, -, hadd⟩ | ⟨hadd, -⟩
  · rw [hadd]
    exact h.append hb
  · rwa [hadd]

theorem LedgerTraced.apply {sent : List (Message A)} {bc : Blockchain A}
    (h : LedgerTraced E sent bc) {m : Message A} (hm : m ∈ sent)
    (htxs : ∀ tx, .newTransaction tx ∈ sent → Checked E sent tx)
    (hblocks : ∀ b, .newBlock b ∈ sent → Mined E sent b) :
    LedgerTraced E sent (bc.apply E m) := by
  cases m with
  | newTransaction tx => exact h.addTransaction (htxs tx hm)
  | newBlock b => exact h.addBlockFromNetwork (hblocks b hm)

omit [DecidableEq ι] in
theorem traced_created {created : ι → UInt64} {s : Network ι A} (h : s.Created E created) :
    Traced E s := by
  have hnone : ∀ m, m ∉ s.sent := fun m hm => by
    rw [h.quiet] at hm
    exact absurd hm List.not_mem_nil
  refine ⟨fun n => ?_, fun tx htx => absurd htx (hnone _), fun b hb => absurd hb (hnone _)⟩
  obtain ⟨genesis, hledger, -⟩ := Blockchain.new_spec E (h.new n)
  rw [hledger]
  refine ⟨fun i b hi hb => ?_, fun tx htx => absurd htx List.not_mem_nil⟩
  rw [List.getElem?_eq_none (by rw [List.length_singleton]; exact hi)] at hb
  cases hb

/-- One ledger changes, and what was broadcast for it is on its way. -/
theorem Traced.set {s : Network ι A} (h : Traced E s) {node : ι} {bc : Blockchain A}
    {new : List (Message A)} (hpre : (s.ledgers node).chain <+: bc.chain)
    (hbc : LedgerTraced E (s.sent ++ new) bc)
    (htxs : ∀ tx, .newTransaction tx ∈ new → Checked E (s.sent ++ new) tx)
    (hblocks : ∀ b, .newBlock b ∈ new → Mined E (s.sent ++ new) b ∧ b ∈ bc.chain) :
    Traced E { s.set node bc with sent := s.sent ++ new } where
  ledgers n := by
    by_cases hn : n = node
    · subst hn
      change LedgerTraced E (s.sent ++ new) ((s.set n bc).ledgers n)
      rwa [s.ledgers_set_self]
    · change LedgerTraced E (s.sent ++ new) ((s.set node bc).ledgers n)
      rw [s.ledgers_set_of_ne bc hn]
      exact (h.ledgers n).mono (List.subset_append_left _ _)
  transactions tx htx := by
    rcases List.mem_append.1 htx with htx | htx
    · exact (h.transactions tx htx).mono (List.subset_append_left _ _)
    · exact htxs tx htx
  blocks b hb := by
    rcases List.mem_append.1 hb with hb | hb
    · obtain ⟨hmined, n, hmem⟩ := h.blocks b hb
      refine ⟨hmined.mono (List.subset_append_left _ _), n, ?_⟩
      change b ∈ ((s.set node bc).ledgers n).chain
      by_cases hn : n = node
      · subst hn
        rw [s.ledgers_set_self]
        exact hpre.subset hmem
      · rwa [s.ledgers_set_of_ne bc hn]
    · obtain ⟨hmined, hmem⟩ := hblocks b hb
      refine ⟨hmined, node, ?_⟩
      change b ∈ ((s.set node bc).ledgers node).chain
      rwa [s.ledgers_set_self]

/-- A connection that brings the beginning of a message of the network. -/
theorem Traced.connect {s : Network ι A} (h : Traced E s) (node : ι) {m : Message A}
    (hm : m ∈ s.sent) (hback : ReadsBack E m) (arrived : Nat) :
    Traced E (s.connect E node ((E.encodeMessage m).take arrived)) := by
  have hledger : LedgerTraced E s.sent ((s.ledgers node).handleConnection E
      (firstRead [(E.encodeMessage m).take arrived])) := by
    rw [handleConnection_eq]
    cases hr : receivedMessage E (firstRead [(E.encodeMessage m).take arrived]) with
    | none => exact h.ledgers node
    | some m' =>
      have hdecode : E.decodeMessage (firstRead [(E.encodeMessage m).take arrived]) = some m' := by
        rw [receivedMessage] at hr
        split at hr
        · cases hr
        · exact hr
      obtain rfl := hback _ m' ((List.take_prefix _ _).trans (List.take_prefix _ _)) hdecode
      exact (h.ledgers node).apply hm h.transactions fun b hb => (h.blocks b hb).1
  have hpre : (s.ledgers node).chain <+: ((s.ledgers node).handleConnection E
      (firstRead [(E.encodeMessage m).take arrived])).chain := by
    rcases handleConnection_exec E (firstRead [(E.encodeMessage m).take arrived])
      (s.ledgers node) with heq | ⟨c, heq⟩
    · rw [heq]
    · rw [heq]
      exact chain_prefix_step E ((ledger_step E).2 rfl)
  have hset : Traced E
      { s.connect E node ((E.encodeMessage m).take arrived) with sent := s.sent ++ [] } :=
    h.set hpre (by rwa [List.append_nil]) (fun _ htx => absurd htx List.not_mem_nil)
      (fun _ hb => absurd hb List.not_mem_nil)
  rwa [List.append_nil] at hset

theorem traced_step {s u : Network ι A} {a : NetworkAction ι A} (h : Traced E s)
    (ha : a.Honest) (hback : ∀ m ∈ s.sent, ReadsBack E m)
    (hstep : (network E).step s a = some u) : Traced E u := by
  cases network_step_cases E hstep with
  | submitted hle hsig =>
    rename_i node tx
    have hchecked : Checked E (s.sent ++ [.newTransaction tx]) tx :=
      ⟨List.mem_append_right _ (List.mem_singleton_self _), hle, hsig⟩
    have hledger := ((h.ledgers node).mono (List.subset_append_left _ _)).addTransaction hchecked
    refine h.set (chain_prefix_step E (c := .addTransaction tx) ((ledger_step E).2 rfl)) hledger
      (fun tx' htx' => ?_) (fun b hb => ?_)
    · obtain rfl := Message.newTransaction.inj (List.mem_singleton.1 htx')
      exact hchecked
    · cases List.mem_singleton.1 hb
  | mined hmined hhash hzeros htxs =>
    rename_i node minerAddress now b
    have hsub : s.sent ⊆ s.sent ++ [.newBlock b] := List.subset_append_left _ _
    have hblock : Mined E (s.sent ++ [.newBlock b]) b :=
      ⟨List.mem_append_right _ (List.mem_singleton_self _), hhash, hzeros, minerAddress, _, htxs,
        fun tx htx => ((h.ledgers node).queue tx htx).mono hsub⟩
    refine h.set (List.prefix_append _ _) (((h.ledgers node).mono hsub).append hblock)
      (fun tx htx => ?_) (fun b' hb' => ?_)
    · cases List.mem_singleton.1 htx
    · obtain rfl := Message.newBlock.inj (List.mem_singleton.1 hb')
      exact ⟨hblock, List.mem_append_right _ (List.mem_singleton_self _)⟩
  | delivered hm => exact h.connect _ hm (hback _ hm) _
  | intruded => exact ha.elim
  | nothing => exact h

/-- What was broadcast stays. -/
theorem sent_subset_step {s u : Network ι A} {a : NetworkAction ι A}
    (hstep : (network E).step s a = some u) : s.sent ⊆ u.sent := by
  cases network_step_cases E hstep with
  | submitted | mined => exact List.subset_append_left _ _
  | delivered | intruded | nothing => exact List.Subset.refl _

/-- **All that an honest network has was mined by a node and checked by one.**  While only nodes
send, whatever is lost, repeated, reordered or cut off on the way: every block that a node has
behind its genesis block was broadcast by the node that mined it, has its zeros, and holds a reward
and transactions that some node's `add_transaction` has let through and broadcast; and every block
that was ever broadcast is still in the chain of some node. -/
theorem honest_blocks {created : ι → UInt64} {s₀ s : Network ι A}
    {as : List (NetworkAction ι A)} (h₀ : s₀.Created E created) (honest : ∀ a ∈ as, a.Honest)
    (hrun : (network E).run s₀ as = some s) (hback : ∀ m ∈ s.sent, ReadsBack E m) :
    (∀ n (i : Nat) b, 0 < i → (s.ledgers n).chain[i]? = some b → Mined E s.sent b) ∧
      ∀ b, .newBlock b ∈ s.sent → ∃ n, b ∈ (s.ledgers n).chain := by
  have htraced : Traced E s := by
    refine (network E).run_induction
      (I := fun done t => (∀ a ∈ done, a.Honest) → (∀ m ∈ t.sent, ReadsBack E m) → Traced E t)
      (fun _ _ => traced_created h₀) (fun done t a u ht ih hstep hdone hu => ?_) hrun honest hback
    refine traced_step (ih (fun a' ha' => hdone a' (List.mem_append_left _ ha')) fun m hm => ?_)
      (hdone a (List.mem_append_right _ (List.mem_singleton_self _))) (fun m hm => ?_) hstep
    · exact hu m (sent_subset_step hstep hm)
    · exact hu m (sent_subset_step hstep hm)
  exact ⟨fun n i b => (htraced.ledgers n).chain i b, fun b hb => (htraced.blocks b hb).2⟩

/-- The block of one twin reaches the other. -/
theorem twins_share_a_block :
    ∃ s, (network lengthDigest).run twins [.mine false "miner" 8, .deliver true 0 4096] = some s ∧
      (s.ledgers true).chain.length = 2 ∧
      ∀ b, (s.ledgers true).chain[1]? = some b → Mined lengthDigest s.sent b := by
  obtain ⟨s, hs, hlen, b, hsent, hencode, hdecode⟩ : ∃ s,
      (network lengthDigest).run twins [.mine false "miner" 8, .deliver true 0 4096] = some s ∧
      (s.ledgers true).chain.length = 2 ∧ ∃ b, s.sent = [.newBlock b] ∧
        lengthDigest.encodeMessage (.newBlock b) = [1] ∧
        lengthDigest.decodeMessage [1] = some (.newBlock b) :=
    ⟨_, rfl, by decide, _, rfl, by decide, by decide⟩
  have hback : ∀ m ∈ s.sent, ReadsBack lengthDigest m := by
    intro m hm part m' hpart hpartDecode
    rw [hsent] at hm
    obtain rfl := List.mem_singleton.1 hm
    rw [hencode] at hpart
    rcases List.prefix_concat_iff.1 (show part <+: [] ++ [1] from hpart) with rfl | hnil
    · exact Option.some.inj (hpartDecode.symm.trans hdecode)
    · rw [List.prefix_nil.1 hnil] at hpartDecode
      cases hpartDecode
  refine ⟨s, hs, hlen, fun b hb => ?_⟩
  exact (honest_blocks created_twins (by simp [NetworkAction.Honest]) hs hback).1 true 1 b
    Nat.one_pos hb

end RustSamples.Doge
