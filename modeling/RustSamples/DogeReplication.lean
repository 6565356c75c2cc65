import Mathlib.Data.List.Nodup
import RustSamples.DogeLedger

/-! # One miner, one follower

Node `miner` extends its chain only by mining and broadcasts every block it mines;
node `follower` only listens.  Each connection has its own task, so a broadcast
block reaches the follower's `add_block_from_network` any number of times, in any
order, or never: a payload once sent stays available (`sent`), and an action
delivers any of them.

The follower accepts a block exactly when it is the next one it lacks
(`deliver_chain`): the miner's block names the hash of its predecessor, and as
hashes are distinct only one position of the chain has that hash.  Hence the
follower holds a prefix, and it is as long as the longest run of mined blocks,
from the first on, that the deliveries contain in order.
-/
namespace RustSamples.Doge
open Scheduling RustStr

variable {A : Type} [Amount A]

/-- Both nodes, and the payloads the miner has broadcast. -/
structure Nodes (A : Type) where
  miner : Blockchain A
  follower : Blockchain A
  sent : List (List UInt8)
deriving DecidableEq

/-- What can happen next: a transaction reaches a node, the miner mines and
broadcasts, or the `i`-th payload reaches the follower (once more). -/
inductive NodeAction (A : Type)
  | minerAddTransaction (tx : Transaction A)
  | followerAddTransaction (tx : Transaction A)
  | mine (minerAddress : String) (now : UInt64)
  | deliver (i : Nat)

variable (E : Env A)

/-- `broadcast_message` of a `NewBlock`. -/
def blockPayload (b : Block A) : List UInt8 := E.encodeMessage (.newBlock b)

def NodeAction.step (s : Nodes A) : NodeAction A → Option (Nodes A)
  | .minerAddTransaction tx => some { s with miner := (s.miner.addTransaction E tx).2 }
  | .followerAddTransaction tx => some { s with follower := (s.follower.addTransaction E tx).2 }
  | .mine minerAddress now =>
      match s.miner.minePendingTransactions E minerAddress now with
      | (.ok b, bc) => some { s with miner := bc, sent := s.sent ++ [blockPayload E b] }
      | (_, bc) => some { s with miner := bc }
  | .deliver i => s.sent[i]?.map fun payload =>
      { s with follower := s.follower.handleConnection E payload }

/-- The two nodes under every loss, duplication and reordering of blocks. -/
def nodes : Machine (Nodes A) (NodeAction A) := ⟨fun s a => a.step E s⟩

/-- The block that an action hands to `add_block_from_network`, if any. -/
def deliveredBlock (s : Nodes A) : NodeAction A → List (Block A)
  | .deliver i =>
      match s.sent[i]?.bind E.decodeMessage with
      | some (.newBlock b) => [b]
      | _ => []
  | _ => []

/-- The blocks delivered in a run, in order of delivery. -/
def deliveries (s : Nodes A) (actions : List (NodeAction A)) : List (Block A) :=
  (nodes E).observations (deliveredBlock E) s actions

/-- JSON decoding undoes encoding, on the blocks of a chain.  A payload is never
empty. -/
def RoundTrips (chain : List (Block A)) : Prop :=
  ∀ b ∈ chain, blockPayload E b ≠ [] ∧ E.decodeMessage (blockPayload E b) = some (.newBlock b)

/-- What a step can do, by what it does to the chains: nothing, the miner appends
and broadcasts a block that carries its hash and names its tip's, or a payload
reaches the follower. -/
theorem nodes_step_cases {s u : Nodes A} {a : NodeAction A} (h : (nodes E).step s a = some u) :
    (u.miner.chain = s.miner.chain ∧ u.follower.chain = s.follower.chain ∧ u.sent = s.sent ∧
        deliveredBlock E s a = []) ∨
      (∃ last b, s.miner.chain.getLast? = some last ∧ b.previousHash = last.hash ∧
        b.hash = b.calculateHash E ∧ u.miner.chain = s.miner.chain ++ [b] ∧
        u.follower = s.follower ∧ u.sent = s.sent ++ [blockPayload E b] ∧
        deliveredBlock E s a = []) ∨
      ∃ i payload, a = .deliver i ∧ s.sent[i]? = some payload ∧
        u = { s with follower := s.follower.handleConnection E payload } := by
  cases a with
  | minerAddTransaction tx =>
    left
    obtain rfl := Option.some.inj h
    refine ⟨?_, rfl, rfl, rfl⟩
    rcases s.miner.addTransaction_cases E tx with ⟨h', -, -⟩ | ⟨h', -⟩ <;> simp only [h']
  | followerAddTransaction tx =>
    left
    obtain rfl := Option.some.inj h
    refine ⟨rfl, ?_, rfl, rfl⟩
    rcases s.follower.addTransaction_cases E tx with ⟨h', -, -⟩ | ⟨h', -⟩ <;> simp only [h']
  | mine minerAddress now =>
    replace h : (NodeAction.mine minerAddress now).step E s = some u := h
    rcases s.miner.minePendingTransactions_cases E minerAddress now with
      ⟨last, _, b, hlast, -, h', hhash, -, -, hprev, -⟩ | h'
    · rw [NodeAction.step, h'] at h
      obtain rfl := Option.some.inj h
      exact Or.inr (Or.inl ⟨last, b, hlast, hprev, hhash, rfl, rfl, rfl, rfl⟩)
    · rw [NodeAction.step, h'] at h
      obtain rfl := Option.some.inj h
      exact Or.inl ⟨rfl, rfl, rfl, rfl⟩
  | deliver i =>
    obtain ⟨payload, hi, rfl⟩ := Option.map_eq_some_iff.mp h
    exact Or.inr (Or.inr ⟨i, payload, rfl, hi, rfl⟩)

/-! ## The joint invariant -/

/-- The joint invariant of both nodes, the payloads sent and the blocks delivered
so far.  `base` is the length both chains started from. -/
structure Following (base : Nat) (s : Nodes A) (delivered : List (Block A)) : Prop where
  pre : s.follower.chain <+: s.miner.chain
  base_le : base ≤ s.follower.chain.length
  sent : s.sent = (s.miner.chain.drop base).map (blockPayload E)
  /-- A mined block has a predecessor, names its hash and carries its own. -/
  mined : ∀ j b, base ≤ j → s.miner.chain[j]? = some b →
    0 < j ∧ b.hash = b.calculateHash E ∧
      ∃ a, s.miner.chain[j - 1]? = some a ∧ b.previousHash = a.hash
  delivered_mined : ∀ b ∈ delivered, b ∈ s.miner.chain.drop base
  /-- The follower has every initial stretch of mined blocks that was delivered
  in order. -/
  caught_up : ∀ run, run <+: s.miner.chain.drop base → run.Sublist delivered →
    base + run.length ≤ s.follower.chain.length

omit [Amount A] in
/-- Distinct hashes tell positions apart. -/
theorem index_eq_of_hash_eq {chain : List (Block A)} (hd : (chain.map Block.hash).Nodup)
    {i j : Nat} {a b : Block A} (ha : chain[i]? = some a) (hb : chain[j]? = some b)
    (h : a.hash = b.hash) : i = j := by
  obtain ⟨hi, rfl⟩ := List.getElem?_eq_some_iff.mp ha
  obtain ⟨hj, rfl⟩ := List.getElem?_eq_some_iff.mp hb
  have hhash : (chain.map Block.hash)[i]? = (chain.map Block.hash)[j]? := by simpa [hi, hj] using h
  exact List.getElem?_inj (by simpa using hi) hd |>.mp hhash

omit [Amount A] in
/-- **The follower accepts the next block and no other.** -/
theorem deliver_chain {base : Nat} {s : Nodes A} {delivered : List (Block A)}
    (hf : Following E base s delivered) (hd : (s.miner.chain.map Block.hash).Nodup)
    {j : Nat} {b : Block A} (hbase : base ≤ j) (hj : s.miner.chain[j]? = some b) :
    (s.follower.addBlockFromNetwork E b).2.chain =
      if j = s.follower.chain.length then s.follower.chain ++ [b] else s.follower.chain := by
  obtain ⟨hpos, hhash, a, ha, hprev⟩ := hf.mined j b hbase hj
  obtain ⟨rest, hrest⟩ := hf.pre
  have hget : ∀ i, i < s.follower.chain.length → s.miner.chain[i]? = s.follower.chain[i]? := by
    intro i hi
    rw [← hrest, List.getElem?_append_left hi]
  -- the tip of the follower, at its position in the miner's chain
  have htip : ∀ last, s.follower.getLatestBlock = some last →
      s.miner.chain[s.follower.chain.length - 1]? = some last ∧ 0 < s.follower.chain.length := by
    intro last hlast
    have hne : 0 < s.follower.chain.length := by
      apply List.length_pos_iff.mpr
      intro hnil
      rw [Blockchain.getLatestBlock, hnil] at hlast
      cases hlast
    refine ⟨?_, hne⟩
    rw [hget _ (by omega), ← List.getLast?_eq_getElem?]
    exact hlast
  rcases s.follower.addBlockFromNetwork_cases E b with ⟨last, hlast, hp, -, h⟩ | ⟨h, -, hrej⟩
  · obtain ⟨hat, hne⟩ := htip last hlast
    have hjk : j - 1 = s.follower.chain.length - 1 :=
      index_eq_of_hash_eq hd ha hat (hprev.symm.trans hp)
    rw [h, if_pos (by omega)]
  · rw [h]
    split
    · rename_i hjk
      -- the block is the next one: it must have been accepted
      have hlast : s.follower.getLatestBlock = some a := by
        rw [Blockchain.getLatestBlock, List.getLast?_eq_getElem?, ← hget _ (by omega), ← hjk]
        exact ha
      rcases hrej a hlast with hbad | hbad
      · exact absurd hprev hbad
      · exact absurd hhash hbad
    · rfl

omit [Amount A] in
theorem following_mine {base : Nat} {s u : Nodes A} {delivered : List (Block A)}
    (hf : Following E base s delivered) {last b : Block A}
    (hlast : s.miner.chain.getLast? = some last) (hprev : b.previousHash = last.hash)
    (hhash : b.hash = b.calculateHash E) (hchain : u.miner.chain = s.miner.chain ++ [b])
    (hfol : u.follower = s.follower) (hsent : u.sent = s.sent ++ [blockPayload E b])
    (hd : (u.miner.chain.map Block.hash).Nodup) : Following E base u delivered := by
  have hle : base ≤ s.miner.chain.length := Nat.le_trans hf.base_le hf.pre.length_le
  have hdrop : u.miner.chain.drop base = s.miner.chain.drop base ++ [b] := by
    rw [hchain, List.drop_append_of_le_length hle]
  refine ⟨?_, ?_, ?_, ?_, ?_, ?_⟩
  · rw [hfol, hchain]; exact hf.pre.trans (List.prefix_append _ _)
  · rw [hfol]; exact hf.base_le
  · rw [hsent, hdrop, List.map_append, hf.sent]; rfl
  · intro j c hj hc
    rw [hchain] at hc ⊢
    rcases Nat.lt_trichotomy j s.miner.chain.length with hlt | rfl | hgt
    · rw [List.getElem?_append_left hlt] at hc
      obtain ⟨hpos, hh, a, ha, hp⟩ := hf.mined j c hj hc
      exact ⟨hpos, hh, a, by rw [List.getElem?_append_left (by omega)]; exact ha, hp⟩
    · have hne : 0 < s.miner.chain.length := by
        apply List.length_pos_iff.mpr
        intro hnil
        rw [hnil] at hlast
        cases hlast
      obtain rfl : b = c := by simpa using hc
      refine ⟨hne, hhash, last, ?_, hprev⟩
      rw [List.getElem?_append_left (by omega), ← List.getLast?_eq_getElem?]
      exact hlast
    · rw [List.getElem?_eq_none (by simp; omega)] at hc
      cases hc
  · intro c hc
    rw [hdrop]
    exact List.mem_append_left _ (hf.delivered_mined c hc)
  · intro run hpre hsub
    rw [hfol]
    rw [hdrop] at hpre
    rcases List.prefix_concat_iff.mp hpre with rfl | hpre
    · -- the new block cannot have been delivered: its hash is new
      exfalso
      have hb : b ∈ s.miner.chain.drop base :=
        hf.delivered_mined b (hsub.subset (List.mem_append_right _ (List.mem_singleton_self b)))
      rw [hchain, List.map_append] at hd
      exact (List.nodup_append.mp hd).2.2 b.hash
        (List.mem_map.mpr ⟨b, List.mem_of_mem_drop hb, rfl⟩) b.hash (by simp) rfl
    · exact hf.caught_up run hpre hsub

omit [Amount A] in
theorem following_deliver {base : Nat} {s u : Nodes A} {delivered : List (Block A)}
    (hf : Following E base s delivered) (hd : (s.miner.chain.map Block.hash).Nodup) {j : Nat}
    {b : Block A} (hbase : base ≤ j) (hj : s.miner.chain[j]? = some b)
    (hmin : u.miner = s.miner) (hsent : u.sent = s.sent)
    (hfol : u.follower.chain = (s.follower.addBlockFromNetwork E b).2.chain) :
    Following E base u (delivered ++ [b]) := by
  rw [deliver_chain E hf hd hbase hj] at hfol
  have hmono : s.follower.chain.length ≤ u.follower.chain.length := by
    rw [hfol]; split <;> simp
  refine ⟨?_, Nat.le_trans hf.base_le hmono, ?_, ?_, ?_, ?_⟩
  · rw [hfol, hmin]
    split
    · rename_i hjk
      obtain ⟨rest, hrest⟩ := hf.pre
      have hb : rest[0]? = some b := by
        rw [← hrest, hjk, List.getElem?_append_right (Nat.le_refl _), Nat.sub_self] at hj
        exact hj
      obtain ⟨c, rest', rfl⟩ : ∃ c rest', rest = c :: rest' := by
        cases rest with
        | nil => cases hb
        | cons c rest' => exact ⟨c, rest', rfl⟩
      obtain rfl : c = b := Option.some.inj hb
      exact ⟨rest', by rw [← hrest]; simp⟩
    · exact hf.pre
  · rw [hsent, hmin]; exact hf.sent
  · rw [hmin]; exact hf.mined
  · intro c hc
    rw [hmin]
    rcases List.mem_append.mp hc with hc | hc
    · exact hf.delivered_mined c hc
    · rw [List.mem_singleton.mp hc]
      refine List.mem_of_getElem? (i := j - base) ?_
      rw [List.getElem?_drop, Nat.add_sub_cancel' hbase]
      exact hj
  · intro run hpre hsub
    rw [hmin] at hpre
    obtain ⟨run₁, run₂, rfl, hsub₁, hsub₂⟩ := List.sublist_append_iff.mp hsub
    have hrun₁ := hf.caught_up run₁ ((List.prefix_append _ _).trans hpre) hsub₁
    rcases List.sublist_singleton.mp hsub₂ with rfl | rfl
    · rw [List.append_nil]; omega
    · rw [List.length_append, List.length_singleton]
      rcases Nat.lt_or_ge (base + run₁.length) s.follower.chain.length with hlt | hge
      · omega
      · -- the follower stands at the end of `run₁`, so `b` is the block it waits for
        obtain ⟨rest, hrest⟩ := hpre
        have hnext : s.miner.chain[base + run₁.length]? = some b := by
          rw [← List.getElem?_drop, ← hrest]
          simp
        have hjk : j = base + run₁.length := index_eq_of_hash_eq hd hj hnext rfl
        rw [hfol, if_pos (by omega), List.length_append, List.length_singleton]
        omega

theorem following_step {base : Nat} {s u : Nodes A} {a : NodeAction A}
    {delivered : List (Block A)} (hf : Following E base s delivered)
    (h : (nodes E).step s a = some u) (hjson : RoundTrips E u.miner.chain)
    (hd : (u.miner.chain.map Block.hash).Nodup) :
    Following E base u (delivered ++ deliveredBlock E s a) := by
  rcases nodes_step_cases E h with ⟨hmin, hfol, hsent, hnone⟩ |
    ⟨last, b, hlast, hprev, hhash, hmin, hfol, hsent, hnone⟩ | ⟨i, payload, rfl, hi, rfl⟩
  · rw [hnone, List.append_nil]
    exact ⟨by rw [hmin, hfol]; exact hf.pre, by rw [hfol]; exact hf.base_le,
      by rw [hsent, hmin]; exact hf.sent, by rw [hmin]; exact hf.mined,
      by rw [hmin]; exact hf.delivered_mined, by rw [hmin, hfol]; exact hf.caught_up⟩
  · rw [hnone, List.append_nil]
    exact following_mine E hf hlast hprev hhash hmin hfol hsent hd
  · -- the payload is that of a mined block, and decodes to it
    rw [hf.sent, List.getElem?_map, List.getElem?_drop] at hi
    obtain ⟨b, hb, rfl⟩ := Option.map_eq_some_iff.mp hi
    obtain ⟨hne, hdec⟩ := hjson b (List.mem_of_getElem? hb)
    have hdel : deliveredBlock E s (.deliver i) = [b] := by
      have hpay : s.sent[i]? = some (blockPayload E b) := by
        rw [hf.sent, List.getElem?_map, List.getElem?_drop, hb]; rfl
      simp [deliveredBlock, hpay, hdec]
    rw [hdel]
    refine following_deliver E hf hd (j := base + i) (by omega) hb rfl rfl ?_
    simp [Blockchain.handleConnection, hne, hdec]

theorem nodes_miner_step {s u : Nodes A} {a : NodeAction A} (h : (nodes E).step s a = some u) :
    s.miner.chain <+: u.miner.chain := by
  rcases nodes_step_cases E h with ⟨hmin, -⟩ | ⟨_, b, -, -, -, hmin, -⟩ | ⟨_, _, -, -, rfl⟩
  · rw [hmin]
  · rw [hmin]; exact List.prefix_append _ _
  · exact List.prefix_refl _

/-- **One miner and one follower agree.**  From equal chains, under every loss,
duplication and reordering of the miner's blocks, the follower's chain is a prefix
of the miner's; and once the deliveries contain every mined block, in chain order,
the two chains are equal. -/
theorem follower_agrees {s₀ s : Nodes A} {actions : List (NodeAction A)}
    (hstart : s₀.follower.chain = s₀.miner.chain) (hsent : s₀.sent = [])
    (hrun : (nodes E).run s₀ actions = some s) (hjson : RoundTrips E s.miner.chain)
    (hd : (s.miner.chain.map Block.hash).Nodup) :
    s.follower.chain <+: s.miner.chain ∧
      ((s.miner.chain.drop s₀.miner.chain.length).Sublist (deliveries E s₀ actions) →
        s.follower.chain = s.miner.chain) := by
  have hf : Following E s₀.miner.chain.length s (deliveries E s₀ actions) := by
    refine (nodes E).run_induction
      (I := fun done t => RoundTrips E t.miner.chain → (t.miner.chain.map Block.hash).Nodup →
        Following E s₀.miner.chain.length t (deliveries E s₀ done)) ?_ ?_ hrun hjson hd
    · intro _ _
      refine ⟨by rw [hstart], by rw [hstart], by simp [hsent], ?_, by simp [deliveries], ?_⟩
      · intro j b hj hb
        rw [List.getElem?_eq_none hj] at hb
        cases hb
      · intro run hpre _
        rw [List.drop_length, List.prefix_nil] at hpre
        rw [hpre, hstart, List.length_nil, Nat.add_zero]
    · intro done t a u ht ih hs hju hdu
      have hpre := nodes_miner_step E hs
      have hft := ih (fun b hb => hju b (hpre.subset hb)) (hdu.sublist (hpre.sublist.map _))
      rw [deliveries, (nodes E).observations_concat _ ht]
      exact following_step E hft hs hju hdu
  refine ⟨hf.pre, fun hall => ?_⟩
  have hlen := hf.caught_up _ (List.prefix_refl _) hall
  rw [List.length_drop] at hlen
  exact hf.pre.eq_of_length_le (by omega)

/-! ### A block that reaches the follower -/

/-- An environment to evaluate: the digest has two zero bytes and the length of
its input, and a message is the index of its block. -/
def lengthDigest : Env F64 where
  sha256 bytes := [0, 0, UInt8.ofNat bytes.length]
  txsToJson _ := "[]"
  encodeMessage
    | .newTransaction _ => [255]
    | .newBlock b => [UInt8.ofNat b.index.toNat]
  decodeMessage
    | [0] => some (.newBlock ⟨0, 7, [Blockchain.genesisTx], "0", "000006", 0⟩)
    | [1] => some (.newBlock ⟨1, 8, [.new "SYSTEM" "miner" miningReward], "000006", "00000b", 0⟩)
    | _ => none
  displayAmount _ := "0"
  keyParses _ := false
  signatureParses _ := false
  verify _ _ _ := false
  sign _ _ := zeroSignature
  overflowChecks := true

/-- Both nodes with the genesis block of `lengthDigest`. -/
def lengthNodes : Nodes F64 where
  miner := ⟨[⟨0, 7, [Blockchain.genesisTx], "0", "000006", 0⟩], []⟩
  follower := ⟨[⟨0, 7, [Blockchain.genesisTx], "0", "000006", 0⟩], []⟩
  sent := []

/-- One block is mined and delivered twice, and the chains agree. -/
theorem follower_agrees_delivered_twice :
    ∃ s, (nodes lengthDigest).run lengthNodes [.mine "miner" 8, .deliver 0, .deliver 0] = some s ∧
      s.miner.chain.length = 2 ∧ s.follower.chain = s.miner.chain := by
  let mined : Block F64 := ⟨1, 8, [.new "SYSTEM" "miner" miningReward], "000006", "00000b", 0⟩
  let both : Blockchain F64 := ⟨lengthNodes.miner.chain ++ [mined], []⟩
  have hmine := Blockchain.minePendingTransactions_of_startsWith lengthDigest "miner" 8
    lengthNodes.miner rfl (show Blockchain.nextIndex lengthDigest 0 = some 1 from rfl) (by decide)
  have hrun : (nodes lengthDigest).run lengthNodes [.mine "miner" 8, .deliver 0, .deliver 0] =
      some ⟨both, both, [[1]]⟩ := by
    simp only [Machine.run, nodes, NodeAction.step, hmine]
    decide
  have hagree := follower_agrees lengthDigest rfl rfl hrun
    (by unfold RoundTrips; decide) (by decide)
  exact ⟨_, hrun, rfl, hagree.2 (by decide)⟩

end RustSamples.Doge
