import RustSamples.DogeLedger

/-! # What becomes of an accepted transaction

`add_transaction` queues what it accepts.  A mined block takes the whole queue with it.
`add_block_from_network` empties the queue too, but the block it appends is the peer's:
what was queued here and is not in that block, nor in an earlier one, is gone.
-/
namespace RustSamples.Doge
open Scheduling RustStr

variable {A : Type}

/-- The transaction is in some block. -/
def OnChain (chain : List (Block A)) (tx : Transaction A) : Prop :=
  ∃ b ∈ chain, tx ∈ b.transactions

/-- The transaction is queued or in some block. -/
def Held (bc : Blockchain A) (tx : Transaction A) : Prop :=
  tx ∈ bc.pendingTransactions ∨ OnChain bc.chain tx

theorem onChain_concat {chain : List (Block A)} {b : Block A} {tx : Transaction A} :
    OnChain (chain ++ [b]) tx ↔ tx ∈ b.transactions ∨ OnChain chain tx := by
  simp only [OnChain, List.mem_append, List.mem_singleton]
  constructor
  · rintro ⟨b', hb' | rfl, htx⟩
    · exact Or.inr ⟨b', hb', htx⟩
    · exact Or.inl htx
  · rintro (htx | ⟨b', hb', htx⟩)
    · exact ⟨b, Or.inr rfl, htx⟩
    · exact ⟨b', Or.inl hb', htx⟩

variable [Amount A] (E : Env A)

/-- The transaction for which this call returns `Ok`, if it is an `add_transaction`. -/
def accepts (bc : Blockchain A) : Call A → List (Transaction A)
  | .addTransaction tx => if (bc.addTransaction E tx).1 = .ok () then [tx] else []
  | _ => []

/-- All transactions accepted in a run. -/
def accepted (bc : Blockchain A) (calls : List (Call A)) : List (Transaction A) :=
  (ledger E).observations (accepts E) bc calls

/-- The steps that lose nothing: a peer's block that names the tip's hash and carries its own
has, together with the chain, everything that is queued. -/
def KeepsQueue (bc : Blockchain A) : Call A → Prop
  | .addBlockFromNetwork block =>
      (∃ last, bc.getLatestBlock = some last ∧ block.previousHash = last.hash) →
        block.hash = block.calculateHash E →
          ∀ tx ∈ bc.pendingTransactions, tx ∈ block.transactions ∨ OnChain bc.chain tx
  | _ => True

theorem mem_accepts {bc : Blockchain A} {c : Call A} {tx : Transaction A} :
    tx ∈ accepts E bc c ↔ c = .addTransaction tx ∧ (c.exec E bc).1 = .ok () := by
  cases c with
  | addTransaction tx' =>
    show tx ∈ (if (bc.addTransaction E tx').1 = .ok () then [tx'] else []) ↔
      Call.addTransaction tx' = .addTransaction tx ∧ (bc.addTransaction E tx').1 = .ok ()
    by_cases hok : (bc.addTransaction E tx').1 = .ok ()
    · simp [hok, eq_comm]
    · simp [hok]
  | minePendingTransactions minerAddress now => simp [accepts]
  | addBlockFromNetwork block => simp [accepts]

/-- Acceptance queues. -/
theorem held_of_accepts {bc : Blockchain A} {c : Call A} {tx : Transaction A}
    (h : tx ∈ accepts E bc c) : Held (c.exec E bc).2 tx := by
  obtain ⟨rfl, hok⟩ := (mem_accepts E).mp h
  rcases Call.exec_cases E bc (.addTransaction tx) with
    ⟨tx', htx', -, hexec⟩ | ⟨_, _, -, -, -, -, hc | ⟨_, _, hc, -⟩⟩ | ⟨-, hne⟩
  · obtain rfl : tx = tx' := Call.addTransaction.inj htx'
    rw [hexec]
    exact Or.inl (by simp)
  · cases hc
  · cases hc
  · exact absurd hok hne

/-- What is held stays held across a step that loses nothing. -/
theorem held_step {bc : Blockchain A} {c : Call A} {tx : Transaction A} (hheld : Held bc tx)
    (hkeeps : KeepsQueue E bc c) : Held (c.exec E bc).2 tx := by
  rcases c.exec_cases E bc with
    ⟨tx', -, -, h⟩ | ⟨last, b, hlast, hprev, hhash, h, rfl | ⟨minerAddress, now, rfl, htxs⟩⟩ |
      ⟨h, -⟩
  · rw [h]
    exact hheld.imp (fun hq => List.mem_append_left _ hq) (fun hb => hb)
  · rw [h]
    refine Or.inr (onChain_concat.mpr ?_)
    rcases hheld with hq | hb
    · exact hkeeps ⟨last, hlast, hprev⟩ hhash tx hq
    · exact Or.inr hb
  · -- the mined block holds the queue
    rw [h]
    refine Or.inr (onChain_concat.mpr ?_)
    rw [htxs]
    exact hheld.imp (fun hq => List.mem_cons_of_mem _ hq) (fun hb => hb)
  · rw [h]; exact hheld

/-- The queue of a fresh ledger is empty, so everything queued has been accepted. -/
theorem accepted_of_pending {now : UInt64} {bc₀ bc : Blockchain A} {calls : List (Call A)}
    (hnew : Blockchain.new E now = some bc₀) (hrun : (ledger E).run bc₀ calls = some bc) :
    ∀ tx ∈ bc.pendingTransactions, tx ∈ accepted E bc₀ calls := by
  refine (ledger E).run_induction
    (I := fun done t => ∀ tx ∈ t.pendingTransactions, tx ∈ accepted E bc₀ done) ?_ ?_ hrun
  · obtain ⟨genesis, rfl, -, -⟩ := Blockchain.new_spec E hnew
    simp
  · intro done t c u ht ih hstep tx htx
    rw [ledger_step] at hstep
    subst u
    rw [accepted, (ledger E).observations_concat _ ht, List.mem_append]
    rcases c.exec_cases E t with ⟨tx', rfl, -, h⟩ | ⟨_, _, -, -, -, h, -⟩ | ⟨h, -⟩
    · rw [h] at htx
      rcases List.mem_append.mp htx with hq | hnew
      · exact Or.inl (ih tx hq)
      · rw [List.mem_singleton.mp hnew]
        exact Or.inr ((mem_accepts E).mpr ⟨rfl, by rw [h]⟩)
    · rw [h] at htx
      simp at htx
    · rw [h] at htx
      exact Or.inl (ih tx htx)

/-- **When no accepted transaction is lost, over every run.**  Take any calls on a fresh
ledger.  Everything accepted so far is queued or in some block, in every state they go
through, if and only if at every call of `add_block_from_network` with a block that passes
both hash tests, everything queued is in that block or in an earlier one. -/
theorem accepted_held_iff {now : UInt64} {bc₀ : Blockchain A} {calls : List (Call A)}
    (hnew : Blockchain.new E now = some bc₀) :
    (∀ earlier bc, earlier <+: calls → (ledger E).run bc₀ earlier = some bc →
        ∀ tx ∈ accepted E bc₀ earlier, Held bc tx) ↔
      ∀ earlier c bc, earlier ++ [c] <+: calls → (ledger E).run bc₀ earlier = some bc →
        KeepsQueue E bc c := by
  constructor
  · intro hheld earlier c bc hpre hrun
    cases c with
    | addTransaction tx => trivial
    | minePendingTransactions minerAddress now => trivial
    | addBlockFromNetwork block =>
      rintro ⟨last, hlast, hprev⟩ hhash tx htx
      have hacc : tx ∈ accepted E bc₀ (earlier ++ [.addBlockFromNetwork block]) := by
        rw [accepted, (ledger E).observations_concat _ hrun]
        exact List.mem_append_left _ (accepted_of_pending E hnew hrun tx htx)
      have hnext := hheld _ _ hpre ((ledger E).run_concat.mpr ⟨bc, hrun, rfl⟩) tx hacc
      rw [Call.exec, bc.addBlockFromNetwork_of_hashes E hlast hprev hhash] at hnext
      rcases hnext with hq | hb
      · simp at hq
      · exact onChain_concat.mp hb
  · intro hkeeps earlier bc hpre hrun
    refine (ledger E).run_induction
      (I := fun done t => done <+: calls → ∀ tx ∈ accepted E bc₀ done, Held t tx) ?_ ?_ hrun hpre
    · intro _ tx htx
      simp [accepted] at htx
    · intro done t c u ht ih hstep hpre' tx htx
      rw [ledger_step] at hstep
      subst u
      rw [accepted, (ledger E).observations_concat _ ht, List.mem_append] at htx
      rcases htx with hold | hnow
      · exact held_step E (ih ((List.prefix_append _ _).trans hpre') tx hold)
          (hkeeps done c t hpre' ht)
      · exact held_of_accepts E hnow

/-! ### Recorded runs -/

/-- A transaction that every node accepts. -/
def mallorysTx : Transaction F64 := .new "SYSTEM" "mallory" (Amount.literal 1000)

theorem mallorysTx_accepted : (recordedGenesis.addTransaction (recorded jsonF64) mallorysTx) =
    (.ok (), ⟨recordedGenesis.chain, [mallorysTx]⟩) := rfl

/-- A run that mines what it accepted. -/
theorem accepted_held_mined :
    ∃ bc, (ledger (recorded jsonF64)).run recordedGenesis
        [.addTransaction mallorysTx, .minePendingTransactions "miner" 1700044651] = some bc ∧
      bc.chain.length = 2 ∧ Held bc mallorysTx := by
  have hmine : Blockchain.minePendingTransactions (recorded jsonF64) "miner" 1700044651
      ⟨recordedGenesis.chain, [mallorysTx]⟩ = _ :=
    minePendingTransactions_recorded rfl
      (show Blockchain.nextIndex (recorded jsonF64) 0 = some 1 from rfl) recordedGenesisBlock_hash
      (show _ = some mintedDigest by decide +kernel) (by decide +kernel)
  have hrun : (ledger (recorded jsonF64)).run recordedGenesis
      [.addTransaction mallorysTx, .minePendingTransactions "miner" 1700044651] =
        some (Blockchain.minePendingTransactions (recorded jsonF64) "miner" 1700044651
          ⟨recordedGenesis.chain, [mallorysTx]⟩).2 := by
    rw [ledger_run_addTransaction, mallorysTx_accepted, ledger_run_mine, Machine.run_nil]
  have hacc : mallorysTx ∈ accepted (recorded jsonF64) recordedGenesis
      [.addTransaction mallorysTx, .minePendingTransactions "miner" 1700044651] :=
    List.mem_append_left _ ((mem_accepts _).mpr ⟨rfl, by rw [Call.exec, mallorysTx_accepted]⟩)
  refine ⟨_, hrun, by rw [hmine]; rfl, ?_⟩
  refine (accepted_held_iff (recorded jsonF64) new_recorded).mpr ?_ _ _ (List.prefix_refl _) hrun
    mallorysTx hacc
  intro earlier c bc hpre _
  have hmem := hpre.subset (List.mem_append_right _ (List.mem_singleton_self c))
  simp only [List.mem_cons, List.not_mem_nil, or_false] at hmem
  rcases hmem with rfl | rfl <;> trivial

/-- **A peer's block loses the queue.**  A transaction is accepted; the peer's block that
does not hold it is accepted; and it is neither queued nor in a block. -/
theorem accepted_lost :
    ∃ bc, Blockchain.new (recorded jsonF64) 1700040883 = some recordedGenesis ∧
      (recordedGenesis.addTransaction (recorded jsonF64) mallorysTx).1 = .ok () ∧
      (ledger (recorded jsonF64)).run recordedGenesis
        [.addTransaction mallorysTx, .addBlockFromNetwork (emptyBlock 1800000000 1)] = some bc ∧
      bc.chain.length = 2 ∧ ¬ Held bc mallorysTx := by
  have hrun : (ledger (recorded jsonF64)).run recordedGenesis
      [.addTransaction mallorysTx, .addBlockFromNetwork (emptyBlock 1800000000 1)] =
        some ⟨recordedGenesis.chain ++ [emptyBlock 1800000000 1], []⟩ := by
    rw [ledger_run_addTransaction, mallorysTx_accepted, ledger_run_addBlock, emptyBlock_accepted,
      Machine.run_nil]
  refine ⟨_, new_recorded, by rw [mallorysTx_accepted], hrun, rfl, ?_⟩
  rintro (hq | ⟨b, hb, htx⟩)
  · simp at hq
  · simp only [recordedGenesis, List.mem_append, List.mem_singleton] at hb
    rcases hb with rfl | rfl
    · revert htx; decide
    · revert htx; decide

end RustSamples.Doge
