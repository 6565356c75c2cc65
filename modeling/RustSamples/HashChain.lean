import Mathlib.Data.List.Chain

/-! # Chains of hashes

Every block of a chain carries a hash, and every block but the first names the hash of the one
before it.  Nothing is said of where the hashes come from; what is assumed is that no two different
blocks of the chains at hand carry one hash, and that nothing carries the hash which the first block
names.

Then chains are branches of a tree: a block that two chains have stands at one place in both, and in
front of it the chains are the same (`take_eq_of_shared`).  Chains that grow keep their forks
(`not_mem_of_fork`).
-/
namespace HashChain

variable {β H : Type} (hash prev : β → H)

/-- Every block but the first names the hash of the one before it. -/
def Linked (chain : List β) : Prop := chain.IsChain fun a b => prev b = hash a

/-- No two of the blocks carry one hash. -/
def CollisionFree (blocks : List β) : Prop :=
  ∀ a ∈ blocks, ∀ b ∈ blocks, hash a = hash b → a = b

/-- None of the blocks carries the hash that the first block of the chain names. -/
def Rooted (blocks chain : List β) : Prop :=
  ∀ root ∈ chain.head?, ∀ b ∈ blocks, hash b ≠ prev root

variable {hash prev} {chain chain' : List β}

theorem Linked.prev_eq (h : Linked hash prev chain) {i : Nat} {a b : β}
    (ha : chain[i]? = some a) (hb : chain[i + 1]? = some b) : prev b = hash a := by
  obtain ⟨hlt, rfl⟩ := List.getElem?_eq_some_iff.1 hb
  obtain ⟨_, rfl⟩ := List.getElem?_eq_some_iff.1 ha
  exact List.isChain_iff_getElem.1 h i hlt

/-- A block behind the first has one before it. -/
theorem exists_getElem?_pred {i : Nat} {b : β} (hb : chain[i + 1]? = some b) :
    ∃ a, chain[i]? = some a := by
  obtain ⟨hlt, -⟩ := List.getElem?_eq_some_iff.1 hb
  exact ⟨_, List.getElem?_eq_getElem (Nat.lt_of_succ_lt hlt)⟩

theorem take_succ_of_getElem? {i : Nat} {b : β} (hb : chain[i]? = some b) :
    chain.take (i + 1) = chain.take i ++ [b] := by
  rw [List.take_add_one, hb]
  rfl

theorem getElem?_of_prefix (hpre : chain <+: chain') {i : Nat} {b : β} (hb : chain[i]? = some b) :
    chain'[i]? = some b := by
  obtain ⟨rest, rfl⟩ := hpre
  rw [List.getElem?_append_left (List.getElem?_eq_some_iff.1 hb).1]
  exact hb

/-- What the first block names is not named by a later one. -/
theorem Rooted.prev_ne {blocks : List β} (hroot : Rooted hash prev blocks chain)
    (hl : Linked hash prev chain') (hsub : chain' ⊆ blocks) {root b : β} {j : Nat}
    (h0 : chain[0]? = some root) (hb : chain'[j + 1]? = some b) : prev b ≠ prev root := by
  obtain ⟨a, ha⟩ := exists_getElem?_pred hb
  rw [hl.prev_eq ha hb]
  exact hroot root (by rw [List.head?_eq_getElem?]; exact h0) a (hsub (List.mem_of_getElem? ha))

/-- **A shared block has a shared past**: it stands at the same place of both chains, and up to it
they are the same. -/
theorem take_eq_of_shared (hl : Linked hash prev chain) (hl' : Linked hash prev chain')
    (hfree : CollisionFree hash (chain ++ chain'))
    (hroot : Rooted hash prev (chain ++ chain') chain)
    (hroot' : Rooted hash prev (chain ++ chain') chain') {i j : Nat} {b : β}
    (hi : chain[i]? = some b) (hj : chain'[j]? = some b) :
    i = j ∧ chain.take (i + 1) = chain'.take (j + 1) := by
  have hsub : chain ⊆ chain ++ chain' := List.subset_append_left _ _
  have hsub' : chain' ⊆ chain ++ chain' := List.subset_append_right _ _
  induction i generalizing j b with
  | zero =>
    cases j with
    | zero =>
      refine ⟨rfl, ?_⟩
      rw [take_succ_of_getElem? hi, take_succ_of_getElem? hj]
      rfl
    | succ j => exact absurd rfl (hroot.prev_ne hl' hsub' hi hj)
  | succ i ih =>
    cases j with
    | zero => exact absurd rfl (hroot'.prev_ne hl hsub hj hi)
    | succ j =>
      obtain ⟨a, ha⟩ := exists_getElem?_pred hi
      obtain ⟨a', ha'⟩ := exists_getElem?_pred hj
      -- both name the hash of the block before it
      have hhash : hash a = hash a' := (hl.prev_eq ha hi).symm.trans (hl'.prev_eq ha' hj)
      obtain rfl := hfree a (hsub (List.mem_of_getElem? ha)) a' (hsub' (List.mem_of_getElem? ha'))
        hhash
      obtain ⟨rfl, htake⟩ := ih ha ha'
      refine ⟨rfl, ?_⟩
      rw [take_succ_of_getElem? hi, take_succ_of_getElem? hj, htake]

/-- **A fork stays a fork**: where two chains have different blocks at one place, nothing that the
one has from there on is ever in the other, however far both have grown. -/
theorem not_mem_of_fork {grown grown' : List β} (hl : Linked hash prev grown)
    (hl' : Linked hash prev grown') (hfree : CollisionFree hash (grown ++ grown'))
    (hroot : Rooted hash prev (grown ++ grown') grown)
    (hroot' : Rooted hash prev (grown ++ grown') grown') (hpre : chain <+: grown)
    (hpre' : chain' <+: grown') {i : Nat} {a a' : β} (ha : chain[i]? = some a)
    (ha' : chain'[i]? = some a') (hne : a ≠ a') {j : Nat} {b : β} (hij : i ≤ j)
    (hb : grown[j]? = some b) : b ∉ grown' := by
  intro hmem
  obtain ⟨k, hk⟩ := List.mem_iff_getElem?.1 hmem
  obtain ⟨rfl, htake⟩ := take_eq_of_shared hl hl' hfree hroot hroot' hb hk
  have hat : (grown.take (j + 1))[i]? = some a := by
    rw [List.getElem?_take_of_lt (Nat.lt_succ_of_le hij)]
    exact getElem?_of_prefix hpre ha
  have hat' : (grown'.take (j + 1))[i]? = some a' := by
    rw [List.getElem?_take_of_lt (Nat.lt_succ_of_le hij)]
    exact getElem?_of_prefix hpre' ha'
  rw [htake, hat'] at hat
  exact hne (Option.some.inj hat).symm

end HashChain
