import Mathlib.Algebra.Order.BigOperators.Group.List
import Mathlib.Algebra.Order.Ring.Int
import Mathlib.Data.Nat.Cast.Basic
import RustSamples.DogeLedger

/-! # The money supply of a `doge-rust` ledger

Coins come from transactions whose sender is `"SYSTEM"`: the one of the genesis block and
the reward in every mined block.  `verify_signature` lets them pass without a signature,
as the comment there says for the miner's reward.  But `add_transaction` asks nothing
else, so anybody can queue a transaction of that sender, and the next block carries it.

Amounts are exact here: elements of an ordered ring.
-/
namespace RustSamples.Doge
open Scheduling RustStr

variable {K : Type}

/-- Exact amounts. -/
instance exactAmount [Ring K] [LinearOrder K] : Amount K where
  literal n := n
  le x y := decide (x ≤ y)
  lt x y := decide (x < y)

/-- The amounts of the transactions whose sender is `"SYSTEM"`. -/
def systemAmounts (txs : List (Transaction K)) : List K :=
  (txs.filter fun tx => tx.sender = "SYSTEM").map Transaction.amount

section
variable [Ring K] [LinearOrder K] [IsStrictOrderedRing K]

/-- The coins on the chain. -/
def moneySupply (chain : List (Block K)) : K :=
  (systemAmounts (chain.flatMap Block.transactions)).sum

/-- The genesis amount, and a reward for every block after it. -/
def SupplyHolds (bc : Blockchain K) : Prop :=
  moneySupply bc.chain = 1000000 + miningReward * ((bc.chain.length - 1 : Nat) : K)

omit [LinearOrder K] [IsStrictOrderedRing K] in
theorem moneySupply_concat (chain : List (Block K)) (b : Block K) :
    moneySupply (chain ++ [b]) = moneySupply chain + (systemAmounts b.transactions).sum := by
  simp [moneySupply, systemAmounts]

omit [IsStrictOrderedRing K] in
/-- A mined block adds its reward, and what the queue holds from `"SYSTEM"`. -/
theorem moneySupply_mined (chain : List (Block K)) {b : Block K} {minerAddress : String}
    {pending : List (Transaction K)}
    (htxs : b.transactions = .new "SYSTEM" minerAddress miningReward :: pending) :
    moneySupply (chain ++ [b]) =
      moneySupply chain + (miningReward + (systemAmounts pending).sum) := by
  rw [moneySupply_concat, htxs]
  rfl

/-- Positive amounts of sender `"SYSTEM"` add up to nothing only where there are none. -/
theorem sum_systemAmounts_eq_zero_iff {pending : List (Transaction K)}
    (hpos : ∀ tx ∈ pending, 0 < tx.amount) :
    (systemAmounts pending).sum = 0 ↔ ∀ tx ∈ pending, tx.sender ≠ "SYSTEM" := by
  constructor
  · intro hsum tx hmem hsystem
    have hpositive : 0 < (systemAmounts pending).sum := by
      refine List.sum_pos _ ?_ ?_
      · intro x hx
        obtain ⟨t, ht, rfl⟩ := List.mem_map.mp hx
        exact hpos t (List.mem_filter.mp ht).1
      · apply List.ne_nil_of_mem (a := tx.amount)
        exact List.mem_map.mpr ⟨tx, List.mem_filter.mpr ⟨hmem, by simpa using hsystem⟩, rfl⟩
    rw [hsum] at hpositive
    exact lt_irrefl _ hpositive
  · intro hnone
    have hfilter : pending.filter (fun tx => tx.sender = "SYSTEM") = [] := by
      rw [List.filter_eq_nil_iff]
      intro tx hmem
      simpa using hnone tx hmem
    rw [systemAmounts, hfilter]
    rfl

/-! ## Runs without peer blocks -/

variable (E : Env K)

/-- The steps that keep the supply right: a mining call that returns finds nothing from
`"SYSTEM"` in the queue. -/
def MintsOnlyReward (bc : Blockchain K) : Call K → Prop
  | .minePendingTransactions minerAddress now =>
      (bc.minePendingTransactions E minerAddress now).1 ≠ .abort →
        ∀ tx ∈ bc.pendingTransactions, tx.sender ≠ "SYSTEM"
  | _ => True

/-- What every run maintains: a chain that is not empty, and positive amounts in the queue. -/
structure Queueing (bc : Blockchain K) : Prop where
  nonempty : bc.chain ≠ []
  positive : ∀ tx ∈ bc.pendingTransactions, 0 < tx.amount

omit [IsStrictOrderedRing K] in
theorem queueing_new {now : UInt64} {bc : Blockchain K} (h : Blockchain.new E now = some bc) :
    Queueing bc := by
  obtain ⟨genesis, rfl, -, -⟩ := Blockchain.new_spec E h
  exact ⟨by simp, by simp⟩

omit [IsStrictOrderedRing K] in
theorem queueing_step {bc bc' : Blockchain K} {c : Call K} (hq : Queueing bc)
    (h : (ledger E).step bc c = some bc') : Queueing bc' := by
  have hchain := chain_prefix_step E h
  refine ⟨fun hnil => hq.nonempty (List.prefix_nil.mp (hnil ▸ hchain)), ?_⟩
  rw [ledger_step] at h
  subst bc'
  rcases c.exec_cases E bc with ⟨tx, -, hle, h⟩ | ⟨_, _, -, -, -, h, -⟩ | ⟨h, -⟩
  · rw [h]
    intro t ht
    rcases List.mem_append.mp ht with ht | ht
    · exact hq.positive t ht
    · -- `amount <= 0.0` was false
      rw [List.mem_singleton.mp ht]
      simpa [Amount.le, Amount.literal] using hle
  · rw [h]; simp
  · rw [h]; exact hq.positive

omit [IsStrictOrderedRing K] in
theorem queueing_run {now : UInt64} {bc₀ bc : Blockchain K} {calls : List (Call K)}
    (hnew : Blockchain.new E now = some bc₀) (hrun : (ledger E).run bc₀ calls = some bc) :
    Queueing bc :=
  (ledger E).run_invariant (I := Queueing) (fun _ _ _ ht hs => queueing_step E ht hs)
    (queueing_new E hnew) hrun

omit [IsStrictOrderedRing K] in
theorem supplyHolds_new {now : UInt64} {bc : Blockchain K} (h : Blockchain.new E now = some bc) :
    SupplyHolds bc := by
  obtain ⟨genesis, rfl, -, hgenesis, -⟩ := Blockchain.new_genesis E h
  simp [SupplyHolds, moneySupply, systemAmounts, hgenesis, Blockchain.genesisTx, Transaction.new,
    Amount.literal]

/-- The supply stays right across a call if and only if the call mints only its reward. -/
theorem supplyHolds_step_iff {bc bc' : Blockchain K} {c : Call K} (hq : Queueing bc)
    (hs : SupplyHolds bc) (hlocal : ∀ block, c ≠ .addBlockFromNetwork block)
    (h : (ledger E).step bc c = some bc') : SupplyHolds bc' ↔ MintsOnlyReward E bc c := by
  rw [ledger_step] at h
  subst bc'
  cases c with
  | addTransaction tx =>
    have hchain : (bc.addTransaction E tx).2.chain = bc.chain := by
      rcases bc.addTransaction_cases E tx with ⟨h, -, -⟩ | ⟨h, -⟩ <;> rw [h]
    have hkept : SupplyHolds (bc.addTransaction E tx).2 := by
      unfold SupplyHolds
      rw [hchain]
      exact hs
    exact iff_of_true hkept trivial
  | minePendingTransactions minerAddress now =>
    show SupplyHolds (bc.minePendingTransactions E minerAddress now).2 ↔
      ((bc.minePendingTransactions E minerAddress now).1 ≠ .abort → _)
    rcases bc.minePendingTransactions_cases E minerAddress now with
      ⟨last, index, b, -, -, h, -, -, -, -, htxs⟩ | h
    · rw [h, ← sum_systemAmounts_eq_zero_iff hq.positive]
      have hlength : (bc.chain ++ [b]).length - 1 = (bc.chain.length - 1) + 1 := by
        have hpos := List.length_pos_iff.mpr hq.nonempty
        simp
        omega
      have hsupply : SupplyHolds ⟨bc.chain ++ [b], []⟩ ↔
          (systemAmounts bc.pendingTransactions).sum = 0 := by
        unfold SupplyHolds at hs ⊢
        rw [moneySupply_mined bc.chain htxs, hs, hlength, Nat.cast_succ, mul_add, mul_one,
          add_assoc, add_right_inj, add_right_inj, add_eq_left]
      rw [hsupply]
      exact ⟨fun hzero _ => hzero, fun hzero => hzero (by simp)⟩
    · rw [h]
      exact iff_of_true hs (fun hne => absurd rfl hne)
  | addBlockFromNetwork block => exact absurd rfl (hlocal block)

/-- **When coins come only from genesis and rewards, over every run.**  Take any calls of
`add_transaction` and `mine_pending_transactions` on a fresh ledger.  The supply is right in
every state they go through if and only if no mining call among them returns while the
queue holds a transaction of sender `"SYSTEM"`. -/
theorem supply_holds_iff {now : UInt64} {bc₀ : Blockchain K} {calls : List (Call K)}
    (hnew : Blockchain.new E now = some bc₀)
    (hlocal : ∀ block, Call.addBlockFromNetwork block ∉ calls) :
    (∀ earlier bc, earlier <+: calls → (ledger E).run bc₀ earlier = some bc → SupplyHolds bc) ↔
      ∀ earlier c bc, earlier ++ [c] <+: calls → (ledger E).run bc₀ earlier = some bc →
        MintsOnlyReward E bc c := by
  have hcall : ∀ {earlier : List (Call K)} {c}, earlier ++ [c] <+: calls →
      ∀ block, c ≠ .addBlockFromNetwork block := by
    intro earlier c hpre block hc
    exact hlocal block (hc ▸ hpre.subset (by simp))
  constructor
  · intro hsupply earlier c bc hpre hrun
    have hs := hsupply earlier bc ((List.prefix_append _ _).trans hpre) hrun
    have hstep : (ledger E).step bc c = some (c.exec E bc).2 := rfl
    have hnext := hsupply (earlier ++ [c]) _ hpre ((ledger E).run_concat.mpr ⟨bc, hrun, hstep⟩)
    exact (supplyHolds_step_iff E (queueing_run E hnew hrun) hs (hcall hpre) hstep).mp hnext
  · intro hmints earlier bc hpre hrun
    refine (ledger E).run_induction (I := fun done t => done <+: calls → SupplyHolds t)
      (fun _ => supplyHolds_new E hnew) ?_ hrun hpre
    intro done t c u ht ih hstep hpre'
    have hs := ih ((List.prefix_append _ _).trans hpre')
    exact (supplyHolds_step_iff E (queueing_run E hnew ht) hs (hcall hpre') hstep).mpr
      (hmints done c t hpre' ht)

end

/-! ### Recorded runs -/

/-- The recorded environment with whole amounts. -/
def recordedWhole : Env ℤ := recorded fun n => toString n ++ ".0"

/-- Its genesis block. -/
def wholeGenesisBlock : Block ℤ := .new recordedWhole 1700040883 0 [Blockchain.genesisTx] "0"

theorem wholeGenesisBlock_hash : wholeGenesisBlock.hash = hexEncode genesisDigest :=
  calculateHash_recorded (b := ⟨0, 1700040883, [Blockchain.genesisTx], "0", "", 0⟩)
    (by decide +kernel)

/-- The ledger that consists of it. -/
def wholeGenesis : Blockchain ℤ := ⟨[wholeGenesisBlock], []⟩

theorem new_recordedWhole : Blockchain.new recordedWhole 1700040883 = some wholeGenesis :=
  new_of_recorded wholeGenesisBlock_hash

/-- A block mined from an empty queue brings its reward and nothing else. -/
theorem supply_holds_mined :
    ∃ bc, (ledger recordedWhole).run wholeGenesis
        [.minePendingTransactions "miner" 1700150198] = some bc ∧
      bc.chain.length = 2 ∧ SupplyHolds bc := by
  have hmine : wholeGenesis.minePendingTransactions recordedWhole "miner" 1700150198 = _ :=
    minePendingTransactions_recorded rfl
      (show Blockchain.nextIndex recordedWhole 0 = some 1 from rfl) wholeGenesisBlock_hash
      (show _ = some minedDigest by decide +kernel) (by decide +kernel)
  have hrun : (ledger recordedWhole).run wholeGenesis
      [.minePendingTransactions "miner" 1700150198] =
        some (wholeGenesis.minePendingTransactions recordedWhole "miner" 1700150198).2 := by
    rw [ledger_run_mine, Machine.run_nil]
  refine ⟨_, hrun, by rw [hmine]; rfl, ?_⟩
  refine (supply_holds_iff recordedWhole new_recordedWhole (by simp)).mpr ?_ _ _
    (List.prefix_refl _) hrun
  intro earlier c bc hpre hrun'
  have hnil : earlier = [] := by
    have hlength := hpre.length_le
    simpa using hlength
  obtain rfl := hnil
  obtain rfl : wholeGenesis = bc := Option.some.inj hrun'
  cases c with
  | minePendingTransactions minerAddress now => exact fun _ => by simp [wholeGenesis]
  | addTransaction tx => trivial
  | addBlockFromNetwork block => trivial

/-- **Anybody can mint.**  An unsigned transaction of sender `"SYSTEM"` is accepted, and the
next block mined holds its 1000 coins besides the reward. -/
theorem minted_without_reward :
    ∃ bc, Blockchain.new recordedWhole 1700040883 = some wholeGenesis ∧
      (ledger recordedWhole).run wholeGenesis
        [.addTransaction (.new "SYSTEM" "mallory" 1000),
          .minePendingTransactions "miner" 1700044651] = some bc ∧
      moneySupply bc.chain = 1001050 ∧ bc.chain.length = 2 ∧ ¬ SupplyHolds bc := by
  let tx : Transaction ℤ := .new "SYSTEM" "mallory" 1000
  have hadd : (wholeGenesis.addTransaction recordedWhole tx).2 = ⟨wholeGenesis.chain, [tx]⟩ := rfl
  have hmine : Blockchain.minePendingTransactions recordedWhole "miner" 1700044651
      ⟨wholeGenesis.chain, [tx]⟩ = _ :=
    minePendingTransactions_recorded rfl
      (show Blockchain.nextIndex recordedWhole 0 = some 1 from rfl) wholeGenesisBlock_hash
      (show _ = some mintedDigest by decide +kernel) (by decide +kernel)
  have hrun : (ledger recordedWhole).run wholeGenesis
      [.addTransaction tx, .minePendingTransactions "miner" 1700044651] =
        some (Blockchain.minePendingTransactions recordedWhole "miner" 1700044651
          ⟨wholeGenesis.chain, [tx]⟩).2 := by
    rw [ledger_run_addTransaction, hadd, ledger_run_mine, Machine.run_nil]
  rw [hmine] at hrun
  refine ⟨_, new_recordedWhole, hrun, ?_, rfl, ?_⟩
  · rfl
  · unfold SupplyHolds; decide

end RustSamples.Doge
