import RustSamples.DogeLedger

/-! # The rules of local mining, and what a peer can get accepted

A block that `mine_pending_transactions` appends has the index of its position,
`DIFFICULTY` leading zeros, and one reward transaction followed by transactions
that `add_transaction` let through.  `ObeysRules` says so.  The chain also takes
blocks from `add_block_from_network`, which tests only the two hashes, and
`add_transaction` lets a transaction through whose sender is `"SYSTEM"` or whose
amount is NaN.  `StepAllowed` is what a run has to avoid for its chain to obey
the rules throughout.
-/
namespace RustSamples.Doge
open Scheduling RustStr

/-- An amount above zero: `add_transaction` tests `amount <= 0.0`, which is the
negation only for a number. -/
theorem F64.pos_of_not_le {x : F64} (hnan : x.isNaN = false)
    (h : Amount.le x (Amount.literal 0) = false) : Amount.lt (Amount.literal 0) x = true := by
  have h0 : (Amount.literal 0 : F64).isNaN = false := by decide
  simp only [Amount.le, Amount.lt, hnan, h0, Bool.not_false, Bool.true_and,
    decide_eq_false_iff_not, decide_eq_true_eq] at h ⊢
  omega

variable (E : Env F64)

/-- The rules that local mining enforces on the block at position `i`. -/
structure ObeysRules (i : Nat) (b : Block F64) : Prop where
  index : b.index.toNat = i
  zeros : startsWith b.hash (Block.target difficulty)
  transactions : ∃ reward rest, b.transactions = reward :: rest ∧ reward.sender = "SYSTEM" ∧
    reward.amount = miningReward ∧ ∀ tx ∈ rest, tx.sender ≠ "SYSTEM" ∧
      Amount.lt (Amount.literal 0) tx.amount = true ∧ tx.verifySignature E = some true

/-- Every block after genesis obeys the rules at its position. -/
def ChainObeysRules (chain : List (Block F64)) : Prop :=
  ∀ i b, 0 < i → chain[i]? = some b → ObeysRules E i b

/-- The steps that keep the rules.  Mining is sound while the queue holds neither
a `"SYSTEM"` sender nor a NaN amount, and below 2³² blocks.  A peer's block that
names the tip's hash and carries its own has to obey the rules by itself. -/
def StepAllowed (bc : Blockchain F64) : Call F64 → Prop
  | .addTransaction _ => True
  | .minePendingTransactions _ _ => bc.chain.length < 2 ^ 32 ∧
      ∀ tx ∈ bc.pendingTransactions, tx.sender ≠ "SYSTEM" ∧ tx.amount.isNaN = false
  | .addBlockFromNetwork block => (∃ last, bc.getLatestBlock = some last ∧
      block.previousHash = last.hash) → block.hash = block.calculateHash E →
        ObeysRules E bc.chain.length block

variable {E}

theorem ChainObeysRules.append {chain : List (Block F64)} (hc : ChainObeysRules E chain)
    {b : Block F64} (hb : ObeysRules E chain.length b) : ChainObeysRules E (chain ++ [b]) := by
  intro i a hi ha
  rcases Nat.lt_trichotomy i chain.length with hlt | rfl | hgt
  · rw [List.getElem?_append_left hlt] at ha
    exact hc i a hi ha
  · obtain rfl : b = a := by simpa using ha
    exact hb
  · rw [List.getElem?_eq_none (by simp; omega)] at ha
    cases ha

/-- What a run of allowed steps maintains: the rules, a tip whose index is its
position, and a queue of transactions that passed both tests. -/
structure Disciplined (E : Env F64) (bc : Blockchain F64) : Prop where
  rules : ChainObeysRules E bc.chain
  tip : ∃ last, bc.getLatestBlock = some last ∧ last.index.toNat + 1 = bc.chain.length
  queue : ∀ tx ∈ bc.pendingTransactions,
    Amount.le tx.amount (Amount.literal 0) = false ∧ tx.verifySignature E = some true

theorem disciplined_new {now : UInt64} {bc : Blockchain F64}
    (h : Blockchain.new E now = some bc) : Disciplined E bc := by
  obtain ⟨genesis, rfl, -, hindex⟩ := Blockchain.new_spec E h
  refine ⟨?_, ⟨genesis, rfl, by simp [hindex]⟩, by simp⟩
  intro i b hi hb
  rw [List.getElem?_eq_none (by simp; omega)] at hb
  cases hb

theorem Disciplined.append {bc : Blockchain F64} (hd : Disciplined E bc) {b : Block F64}
    (hb : ObeysRules E bc.chain.length b) : Disciplined E ⟨bc.chain ++ [b], []⟩ where
  rules := hd.rules.append hb
  tip := ⟨b, by simp [Blockchain.getLatestBlock], by simp [hb.index]⟩
  queue := by simp

/-- Below 2³² blocks, `last_block.index + 1` does not overflow and is the
position of the next block. -/
theorem Disciplined.nextIndex {bc : Blockchain F64} (hd : Disciplined E bc)
    (hlen : bc.chain.length < 2 ^ 32) {last : Block F64} (hlast : bc.getLatestBlock = some last) :
    last.index.toNat + 1 < 2 ^ 32 ∧
      ∃ index, Blockchain.nextIndex E last.index = some index ∧ index.toNat = bc.chain.length := by
  obtain ⟨last', hlast', htip⟩ := hd.tip
  obtain rfl : last = last' := Option.some.inj (hlast.symm.trans hlast')
  have hlt : last.index.toNat + 1 < 2 ^ 32 := by omega
  refine ⟨hlt, last.index + 1, by rw [Blockchain.nextIndex, if_pos hlt], ?_⟩
  rw [UInt32.toNat_add, show (1 : UInt32).toNat = 1 from rfl, Nat.mod_eq_of_lt hlt, htip]

theorem disciplined_step {bc bc' : Blockchain F64} {c : Call F64} (hd : Disciplined E bc)
    (hok : StepAllowed E bc c) (h : (ledger E).step bc c = some bc') : Disciplined E bc' := by
  rw [ledger_step] at h
  subst bc'
  cases c with
  | addTransaction tx =>
    show Disciplined E (bc.addTransaction E tx).2
    rcases bc.addTransaction_cases E tx with ⟨h, hle, hsig⟩ | ⟨h, -⟩
    · rw [h]
      refine ⟨hd.rules, hd.tip, ?_⟩
      intro tx' htx'
      rcases List.mem_append.mp htx' with htx' | htx'
      · exact hd.queue tx' htx'
      · rw [List.mem_singleton.mp htx']; exact ⟨hle, hsig⟩
    · rw [h]; exact hd
  | minePendingTransactions minerAddress now =>
    show Disciplined E (bc.minePendingTransactions E minerAddress now).2
    obtain ⟨hlen, hpending⟩ := hok
    rcases bc.minePendingTransactions_cases E minerAddress now with
      ⟨last, index, b, hlast, hindex, h, -, hzeros, hidx, -, htxs⟩ | h
    · obtain ⟨-, index', hindex', hpos⟩ := hd.nextIndex hlen hlast
      obtain rfl : index = index' := Option.some.inj (hindex.symm.trans hindex')
      rw [h]
      refine hd.append ⟨by rw [hidx, hpos], hzeros, _, _, htxs, rfl, rfl, ?_⟩
      intro tx htx
      obtain ⟨hsender, hnan⟩ := hpending tx htx
      obtain ⟨hle, hsig⟩ := hd.queue tx htx
      exact ⟨hsender, F64.pos_of_not_le hnan hle, hsig⟩
    · rw [h]; exact hd
  | addBlockFromNetwork block =>
    show Disciplined E (bc.addBlockFromNetwork E block).2
    rcases bc.addBlockFromNetwork_cases E block with ⟨last, hlast, hprev, hhash, h⟩ | ⟨h, -, -⟩
    · rw [h]; exact hd.append (hok ⟨last, hlast, hprev⟩ hhash)
    · rw [h]; exact hd

theorem disciplined_run {bc₀ bc : Blockchain F64} {calls : List (Call F64)}
    (h0 : Disciplined E bc₀)
    (hok : ∀ earlier c bc', earlier ++ [c] <+: calls → (ledger E).run bc₀ earlier = some bc' →
      StepAllowed E bc' c)
    (hrun : (ledger E).run bc₀ calls = some bc) : Disciplined E bc := by
  refine (ledger E).run_induction
    (I := fun done t => done <+: calls → Disciplined E t) (fun _ => h0) ?_ hrun (List.prefix_refl _)
  intro done t c u ht ih hs hpre
  exact disciplined_step (ih ((List.prefix_append _ _).trans hpre)) (hok done c t hpre ht) hs

/-- **When a chain obeys the rules of local mining, over every run.**  If every
step of the run is allowed in the state it starts from, then every block after
genesis obeys the rules in every state the run goes through, and at every mining
call `last_block.index + 1` stays below 2³². -/
theorem chain_obeys_rules_of_allowed {now : UInt64} {bc₀ : Blockchain F64}
    {calls : List (Call F64)} (hnew : Blockchain.new E now = some bc₀)
    (hok : ∀ earlier c bc', earlier ++ [c] <+: calls → (ledger E).run bc₀ earlier = some bc' →
      StepAllowed E bc' c) :
    (∀ earlier bc, earlier <+: calls → (ledger E).run bc₀ earlier = some bc →
      ChainObeysRules E bc.chain) ∧
    (∀ earlier minerAddress now' bc last,
      earlier ++ [.minePendingTransactions minerAddress now'] <+: calls →
      (ledger E).run bc₀ earlier = some bc → bc.getLatestBlock = some last →
      last.index.toNat + 1 < 2 ^ 32) := by
  have hdisc : ∀ earlier bc, earlier <+: calls → (ledger E).run bc₀ earlier = some bc →
      Disciplined E bc := by
    intro earlier bc hpre hrun
    exact disciplined_run (disciplined_new hnew)
      (fun e c bc' hpre' => hok e c bc' (hpre'.trans hpre)) hrun
  refine ⟨fun earlier bc hpre hrun => (hdisc earlier bc hpre hrun).rules, ?_⟩
  intro earlier minerAddress now' bc last hpre hrun hlast
  have hd := hdisc earlier bc ((List.prefix_append _ _).trans hpre) hrun
  exact (hd.nextIndex (hok earlier _ bc hpre hrun).1 hlast).1

/-- The condition on a peer's block cannot be relaxed: an accepted block that
breaks the rules leaves a chain that breaks them. -/
theorem not_obeys_rules_of_accepted {bc : Blockchain F64} {last block : Block F64}
    (hne : bc.chain ≠ []) (hlast : bc.getLatestBlock = some last)
    (hprev : block.previousHash = last.hash) (hhash : block.hash = block.calculateHash E)
    (hbad : ¬ ObeysRules E bc.chain.length block) :
    ¬ ChainObeysRules E (bc.addBlockFromNetwork E block).2.chain := by
  rw [bc.addBlockFromNetwork_of_hashes E hlast hprev hhash]
  intro hc
  exact hbad (hc bc.chain.length block (List.length_pos_iff.mpr hne) (by simp))

/-- A run that mines one block on a fresh ledger is allowed and obeys the rules. -/
theorem chain_obeys_rules_mined :
    ∃ bc, (ledger zeroDigest).run zeroGenesis [.minePendingTransactions "miner" 8] = some bc ∧
      ChainObeysRules zeroDigest bc.chain := by
  have hok : ∀ earlier c bc', earlier ++ [c] <+: [.minePendingTransactions "miner" 8] →
      (ledger zeroDigest).run zeroGenesis earlier = some bc' → StepAllowed zeroDigest bc' c := by
    intro earlier c bc' hpre hrun'
    have hlen : earlier = [] ∧ c = .minePendingTransactions "miner" 8 := by
      obtain ⟨rest, hrest⟩ := hpre
      cases earlier with
      | nil => exact ⟨rfl, by simp at hrest; exact hrest.1⟩
      | cons a as => simp at hrest
    obtain ⟨rfl, rfl⟩ := hlen
    obtain rfl : zeroGenesis = bc' := Option.some.inj hrun'
    exact ⟨by decide, by simp [zeroGenesis]⟩
  have hrun : (ledger zeroDigest).run zeroGenesis [.minePendingTransactions "miner" 8] =
      some (zeroGenesis.minePendingTransactions zeroDigest "miner" 8).2 := rfl
  exact ⟨_, hrun,
    (chain_obeys_rules_of_allowed new_zeroDigest hok).1 _ _ (List.prefix_refl _) hrun⟩

/-! ### A peer's block -/

/-- A peer's block on `tip`: the largest index, no transaction, no work done. -/
def forgedBlock (E : Env F64) (tip : Block F64) : Block F64 := .new E 0 4294967295 [] tip.hash

/-- Whatever the digest, the forged block is accepted, and it breaks the rules. -/
theorem forgedBlock_accepted {bc : Blockchain F64} {tip : Block F64}
    (htip : bc.getLatestBlock = some tip) (hlen : bc.chain.length ≠ 4294967295) :
    bc.addBlockFromNetwork E (forgedBlock E tip) =
        (.ok (), ⟨bc.chain ++ [forgedBlock E tip], []⟩) ∧
      ¬ ChainObeysRules E (bc.addBlockFromNetwork E (forgedBlock E tip)).2.chain := by
  have hne : bc.chain ≠ [] := by
    intro hnil
    rw [Blockchain.getLatestBlock, hnil] at htip
    cases htip
  have hbad : ¬ ObeysRules E bc.chain.length (forgedBlock E tip) :=
    fun h => hlen (h.index.symm.trans rfl)
  exact ⟨bc.addBlockFromNetwork_of_hashes E htip rfl rfl,
    not_obeys_rules_of_accepted hne htip rfl rfl hbad⟩

/-- **The network path does not enforce the rules.**  One block from a peer, and
the chain holds a block that breaks them whose index is about to overflow. -/
theorem forged_block_accepted :
    ∃ tip bc, zeroGenesis.getLatestBlock = some tip ∧
      Blockchain.new zeroDigest 7 = some zeroGenesis ∧
      (ledger zeroDigest).run zeroGenesis [.addBlockFromNetwork (forgedBlock zeroDigest tip)] =
        some bc ∧
      ¬ ChainObeysRules zeroDigest bc.chain ∧
      ∃ last, bc.getLatestBlock = some last ∧ ¬ last.index.toNat + 1 < 2 ^ 32 := by
  let tip : Block F64 := .new zeroDigest 7 0 [Blockchain.genesisTx] "0"
  have hrun : (ledger zeroDigest).run zeroGenesis
      [.addBlockFromNetwork (forgedBlock zeroDigest tip)] =
        some (zeroGenesis.addBlockFromNetwork zeroDigest (forgedBlock zeroDigest tip)).2 := rfl
  have htip : zeroGenesis.getLatestBlock = some tip := rfl
  obtain ⟨hadd, hbad⟩ := forgedBlock_accepted (E := zeroDigest) htip (by decide)
  refine ⟨tip, _, htip, new_zeroDigest, hrun, hbad, forgedBlock zeroDigest tip, ?_, ?_⟩
  · rw [hadd]; rfl
  · decide

end RustSamples.Doge
