import Mathlib.Data.List.Forall2
import RustSamples.DogeHex
import RustSamples.DogeLedger

/-! # What the tip's hash says about a `doge-rust` chain

`calculate_hash` digests the index, the timestamp, the transactions, the previous hash and
the nonce of a block, written one behind the other.  Without a collision the digest
determines that text.  The array of transactions can be read off it, since an array begins
with a bracket and ends by itself, and so can the previous hash, which has 64 characters,
and the nonce.  So the tip's hash determines the hash before it, and with it the whole
chain.

Only the index and the timestamp run together: both are decimal and nothing stands
between them.
-/
namespace RustSamples.Doge
open Scheduling RustStr

variable {A : Type}

/-- Equal in everything but the hash. -/
structure SameContent (a b : Block A) : Prop where
  index : a.index = b.index
  timestamp : a.timestamp = b.timestamp
  transactions : a.transactions = b.transactions
  previousHash : a.previousHash = b.previousHash
  nonce : a.nonce = b.nonce

/-- Equal but for where the index ends and the timestamp begins. -/
structure SameText (a b : Block A) : Prop where
  digits : toString a.index ++ toString a.timestamp = toString b.index ++ toString b.timestamp
  transactions : a.transactions = b.transactions
  previousHash : a.previousHash = b.previousHash
  nonce : a.nonce = b.nonce

variable (E : Env A)

/-- What is assumed of `sha2` and `serde_json` on the blocks in question: digests of 32
bytes without a collision among their texts; and the text of a transaction list is an
array that no other one begins with, and determines the list. -/
structure Separates (blocks : List (Block A)) : Prop where
  digest_length : ∀ text, (E.sha256 text).length = 32
  no_collision : ∀ a ∈ blocks, ∀ b ∈ blocks,
    E.sha256 (asBytes (a.preimage E)) = E.sha256 (asBytes (b.preimage E)) →
      asBytes (a.preimage E) = asBytes (b.preimage E)
  json_injective : ∀ a ∈ blocks, ∀ b ∈ blocks,
    E.txsToJson a.transactions = E.txsToJson b.transactions → a.transactions = b.transactions
  json_array : ∀ a ∈ blocks, ∃ rest, (E.txsToJson a.transactions).toList = '[' :: rest
  json_delimited : ∀ a ∈ blocks, ∀ b ∈ blocks,
    (E.txsToJson a.transactions).toList <+: (E.txsToJson b.transactions).toList →
      E.txsToJson a.transactions = E.txsToJson b.transactions

/-! ## Reading a block off its text -/

theorem Block.toList_preimage (b : Block A) :
    (b.preimage E).toList = (toString b.index ++ toString b.timestamp).toList ++
      ((E.txsToJson b.transactions).toList ++
        (b.previousHash.toList ++ (toString b.nonce).toList)) := by
  simp only [preimage, String.toList_append, List.append_assoc]

theorem toList_toString_uint64 (n : UInt64) :
    (toString n).toList = Nat.toDigits 10 n.toNat := Nat.toList_repr

theorem toList_toString_uint32 (n : UInt32) :
    (toString n).toList = Nat.toDigits 10 n.toNat := Nat.toList_repr

theorem toDigits_injective {m n : Nat} (h : Nat.toDigits 10 m = Nat.toDigits 10 n) : m = n := by
  have hvalue := congrArg (Nat.ofDigitChars 10 · 0) h
  simpa using hvalue

theorem toString_uint64_injective {m n : UInt64} (h : toString m = toString n) : m = n := by
  have hlist := congrArg String.toList h
  rw [toList_toString_uint64, toList_toString_uint64] at hlist
  exact UInt64.toNat_inj.mp (toDigits_injective hlist)

theorem toString_uint32_injective {m n : UInt32} (h : toString m = toString n) : m = n := by
  have hlist := congrArg String.toList h
  rw [toList_toString_uint32, toList_toString_uint32] at hlist
  exact UInt32.toNat_inj.mp (toDigits_injective hlist)

theorem isDigit_of_mem_index_timestamp (b : Block A) :
    ∀ c ∈ (toString b.index ++ toString b.timestamp).toList, c.isDigit := by
  intro c hc
  rw [String.toList_append, List.mem_append, toList_toString_uint32, toList_toString_uint64] at hc
  rcases hc with hc | hc <;>
    exact Nat.isDigit_of_mem_toDigits (by decide) (by decide) hc

theorem length_toString_nonce (b : Block A) : (toString b.nonce).toList.length ≤ 20 := by
  rw [toList_toString_uint64, Nat.length_toDigits_le_iff (by decide) (by decide)]
  exact lt_of_lt_of_le b.nonce.toNat_lt (by decide)

section
variable {E} {blocks : List (Block A)} (hsep : Separates E blocks)
include hsep

theorem Separates.length_hash {b : Block A} (hb : b.hash = b.calculateHash E) :
    b.hash.toList.length = 64 := by
  rw [hb, Block.calculateHash, length_hexEncode, hsep.digest_length]

theorem Separates.mono {blocks' : List (Block A)} (hsub : blocks' ⊆ blocks) :
    Separates E blocks' where
  digest_length := hsep.digest_length
  no_collision a ha b hb := hsep.no_collision a (hsub ha) b (hsub hb)
  json_injective a ha b hb := hsep.json_injective a (hsub ha) b (hsub hb)
  json_array a ha := hsep.json_array a (hsub ha)
  json_delimited a ha b hb := hsep.json_delimited a (hsub ha) b (hsub hb)

/-- Equal hashes come from one text: its digits, its transactions and the rest agree. -/
theorem Separates.of_hash_eq {a b : Block A} (ha : a ∈ blocks) (hb : b ∈ blocks)
    (hahash : a.hash = a.calculateHash E) (hbhash : b.hash = b.calculateHash E)
    (h : a.hash = b.hash) :
    toString a.index ++ toString a.timestamp = toString b.index ++ toString b.timestamp ∧
      a.transactions = b.transactions ∧
      a.previousHash.toList ++ (toString a.nonce).toList =
        b.previousHash.toList ++ (toString b.nonce).toList := by
  rw [hahash, hbhash] at h
  have htext := asBytes_injective (hsep.no_collision a ha b hb (hexEncode_injective h))
  have hlist := congrArg String.toList htext
  rw [Block.toList_preimage, Block.toList_preimage] at hlist
  obtain ⟨arest, hja⟩ := hsep.json_array a ha
  obtain ⟨brest, hjb⟩ := hsep.json_array b hb
  have hstop : ∀ {array : List Char} (rest tail : List Char), array = '[' :: rest →
      (array ++ tail).takeWhile Char.isDigit = [] := by
    rintro _ rest tail rfl
    rfl
  obtain ⟨hdigits, htail⟩ := append_inj_of_takeWhile (isDigit_of_mem_index_timestamp a)
    (isDigit_of_mem_index_timestamp b) (hstop _ _ hja) (hstop _ _ hjb) hlist
  -- one array begins with the other, so they are the same
  have hjson : E.txsToJson a.transactions = E.txsToJson b.transactions := by
    have hpa : (E.txsToJson a.transactions).toList <+:
        (E.txsToJson b.transactions).toList ++
          (b.previousHash.toList ++ (toString b.nonce).toList) := ⟨_, htail⟩
    rcases List.prefix_or_prefix_of_prefix hpa (List.prefix_append _ _) with hp | hp
    · exact hsep.json_delimited a ha b hb hp
    · exact (hsep.json_delimited b hb a ha hp).symm
  rw [hjson] at htail
  exact ⟨String.toList_inj.mp hdigits, hsep.json_injective a ha b hb hjson,
    List.append_cancel_left htail⟩

/-- With previous hashes of the same length, only the split between index and timestamp is
left open. -/
theorem Separates.sameText {a b : Block A} (ha : a ∈ blocks) (hb : b ∈ blocks)
    (hahash : a.hash = a.calculateHash E) (hbhash : b.hash = b.calculateHash E)
    (h : a.hash = b.hash) (hlen : a.previousHash.toList.length = b.previousHash.toList.length) :
    SameText a b := by
  obtain ⟨hdigits, htxs, hrest⟩ := hsep.of_hash_eq ha hb hahash hbhash h
  obtain ⟨hprev, hnonce⟩ := List.append_inj hrest hlen
  exact ⟨hdigits, htxs, String.toList_inj.mp hprev,
    toString_uint64_injective (String.toList_inj.mp hnonce)⟩

/-- A block on a predecessor has a longer text behind its transactions than a genesis block. -/
theorem Separates.hash_ne_genesis {g b prev : Block A} (hg : g ∈ blocks) (hb : b ∈ blocks)
    (hghash : g.hash = g.calculateHash E) (hbhash : b.hash = b.calculateHash E)
    (hgprev : g.previousHash = "0") (hprev : b.previousHash = prev.hash)
    (hprevhash : prev.hash = prev.calculateHash E) : g.hash ≠ b.hash := by
  intro h
  obtain ⟨-, -, hrest⟩ := hsep.of_hash_eq hg hb hghash hbhash h
  have hlength := congrArg List.length hrest
  rw [List.length_append, List.length_append, hgprev, hprev, hsep.length_hash hprevhash] at hlength
  have hnonce := length_toString_nonce g
  have hzero : "0".toList.length = 1 := rfl
  omega

end

/-! ## Chains -/

/-- The chains that grow on the genesis block `g`, with their tip. -/
inductive Grown (g : Block A) : List (Block A) → Block A → Prop
  | genesis : Grown g [g] g
  | append {chain : List (Block A)} {tip b : Block A} (grown : Grown g chain tip)
      (linked : b.previousHash = tip.hash) (hashed : b.hash = b.calculateHash E) :
      Grown g (chain ++ [b]) b

variable {E} {g : Block A}

theorem Grown.tip_hash (hg : g.hash = g.calculateHash E) {chain : List (Block A)} {tip : Block A}
    (h : Grown E g chain tip) : tip.hash = tip.calculateHash E := by
  cases h with
  | genesis => exact hg
  | append _ _ hashed => exact hashed

/-- A run from the genesis block only grows chains. -/
theorem grown_run [Amount A] {bc : Blockchain A} {calls : List (Call A)}
    (hrun : (ledger E).run ⟨[g], []⟩ calls = some bc) :
    ∃ tip, bc.getLatestBlock = some tip ∧ Grown E g bc.chain tip := by
  refine (ledger E).run_invariant
    (I := fun t => ∃ tip, t.getLatestBlock = some tip ∧ Grown E g t.chain tip) ?_
    ⟨g, rfl, .genesis⟩ hrun
  rintro t c u ⟨tip, htip, hgrown⟩ hstep
  rw [ledger_step] at hstep
  subst u
  rcases c.exec_chain E t with hsame | ⟨last, b, hlast, hprev, hhash, happend⟩
  · rw [Blockchain.getLatestBlock, hsame]
    exact ⟨tip, htip, hgrown⟩
  · obtain rfl : last = tip := Option.some.inj (hlast.symm.trans htip)
    rw [Blockchain.getLatestBlock, happend]
    exact ⟨b, by simp, .append hgrown hprev hhash⟩

/-- **The tip's hash determines the chain**, up to where each index ends and its timestamp
begins.  The induction is on how the first chain has grown: equal texts name equal previous
hashes, which are the hashes of the tips before. -/
theorem Grown.sameText_of_tips {blocks : List (Block A)} (hsep : Separates E blocks)
    (hg : g.hash = g.calculateHash E) (hgprev : g.previousHash = "0")
    {chain₁ chain₂ : List (Block A)} {tip₁ tip₂ : Block A} (h₁ : Grown E g chain₁ tip₁)
    (h₂ : Grown E g chain₂ tip₂) (hsub₁ : chain₁ ⊆ blocks) (hsub₂ : chain₂ ⊆ blocks)
    (htips : tip₁.hash = tip₂.hash) : List.Forall₂ SameText chain₁ chain₂ := by
  induction h₁ generalizing chain₂ tip₂ with
  | genesis =>
    have hgmem := hsub₁ (List.mem_singleton_self g)
    cases h₂ with
    | genesis => exact .cons ⟨rfl, rfl, rfl, rfl⟩ .nil
    | append grown₂ linked₂ hashed₂ =>
      exact absurd htips (hsep.hash_ne_genesis hgmem (hsub₂ (by simp)) hg hashed₂ hgprev linked₂
        (grown₂.tip_hash hg))
  | append grown₁ linked₁ hashed₁ ih =>
    cases h₂ with
    | genesis =>
      exact absurd htips.symm (hsep.hash_ne_genesis (hsub₂ (by simp)) (hsub₁ (by simp)) hg hashed₁
        hgprev linked₁ (grown₁.tip_hash hg))
    | append grown₂ linked₂ hashed₂ =>
      have hlen₁ := hsep.length_hash (grown₁.tip_hash hg)
      have hlen₂ := hsep.length_hash (grown₂.tip_hash hg)
      have hsame := hsep.sameText (hsub₁ (by simp)) (hsub₂ (by simp)) hashed₁ hashed₂ htips
        (by rw [linked₁, linked₂, hlen₁, hlen₂])
      have hbefore := hsame.previousHash
      rw [linked₁, linked₂] at hbefore
      have hchains := ih grown₂ (fun b hb => hsub₁ (List.mem_append_left _ hb))
        (fun b hb => hsub₂ (List.mem_append_left _ hb)) hbefore
      exact List.rel_append hchains (.cons hsame .nil)

/-- The split is settled by the number of digits of the index. -/
theorem SameText.sameContent {a b : Block A} (h : SameText a b)
    (hlength : (toString a.index).length = (toString b.index).length) : SameContent a b := by
  have hdigits := congrArg String.toList h.digits
  rw [String.toList_append, String.toList_append] at hdigits
  obtain ⟨hindex, htimestamp⟩ := List.append_inj hdigits
    (by rw [String.length_toList, String.length_toList, hlength])
  exact ⟨toString_uint32_injective (String.toList_inj.mp hindex),
    toString_uint64_injective (String.toList_inj.mp htimestamp), h.transactions, h.previousHash,
    h.nonce⟩

/-- **When the tip's hash determines the chain, over every two runs.**  Take any two runs
from one genesis block whose tips have equal hashes.  Their chains are equal block by block
if and only if at every position the two indices have equally many decimal digits. -/
theorem equal_tips_iff [Amount A] {now : UInt64} {bc₀ bc₁ bc₂ : Blockchain A}
    {calls₁ calls₂ : List (Call A)} {tip₁ tip₂ : Block A}
    (hnew : Blockchain.new E now = some bc₀)
    (hrun₁ : (ledger E).run bc₀ calls₁ = some bc₁) (hrun₂ : (ledger E).run bc₀ calls₂ = some bc₂)
    (hsep : Separates E (bc₁.chain ++ bc₂.chain))
    (htip₁ : bc₁.getLatestBlock = some tip₁) (htip₂ : bc₂.getLatestBlock = some tip₂)
    (htips : tip₁.hash = tip₂.hash) :
    List.Forall₂ SameContent bc₁.chain bc₂.chain ↔
      ∀ (i : Nat) (a b : Block A), bc₁.chain[i]? = some a → bc₂.chain[i]? = some b →
        (toString a.index).length = (toString b.index).length := by
  obtain ⟨g, rfl, hg, -, hgprev⟩ := Blockchain.new_genesis E hnew
  obtain ⟨t₁, ht₁, hgrown₁⟩ := grown_run hrun₁
  obtain ⟨t₂, ht₂, hgrown₂⟩ := grown_run hrun₂
  obtain rfl : t₁ = tip₁ := Option.some.inj (ht₁.symm.trans htip₁)
  obtain rfl : t₂ = tip₂ := Option.some.inj (ht₂.symm.trans htip₂)
  have hsame := hgrown₁.sameText_of_tips hsep hg hgprev hgrown₂ (List.subset_append_left _ _)
    (List.subset_append_right _ _) htips
  rw [List.forall₂_iff_get] at hsame ⊢
  constructor
  · rintro ⟨-, hcontent⟩ i a b ha hb
    obtain ⟨hi₁, rfl⟩ := List.getElem?_eq_some_iff.mp ha
    obtain ⟨hi₂, rfl⟩ := List.getElem?_eq_some_iff.mp hb
    have hindex := (hcontent i hi₁ hi₂).index
    simp only [List.get_eq_getElem] at hindex
    rw [hindex]
  · intro hlength
    refine ⟨hsame.1, fun i hi₁ hi₂ => (hsame.2 i hi₁ hi₂).sameContent ?_⟩
    exact hlength i _ _ (List.getElem?_eq_getElem hi₁) (List.getElem?_eq_getElem hi₂)

/-! ### Recorded runs -/

theorem length_recordedSha256 (text : List UInt8) : (recordedSha256 text).length = 32 := by
  have htable : ∀ e ∈ recordedDigests, e.2.length = 32 := by
    simp [recordedDigests, genesisDigest, minedDigest, mintedDigest, peerDigest, bigEndian32]
  unfold recordedSha256
  cases hfind : recordedDigests.find? fun e => asBytes e.1 == text with
  | none => rfl
  | some e => exact htable e (List.mem_of_find?_eq_some hfind)

/-- The transactions and the text of the recorded blocks: those of the genesis block, or
those of a peer's block on it, whichever way its first digits are split. -/
theorem recorded_texts {b : Block F64}
    (hb : b ∈ [recordedGenesisBlock, emptyBlock 1800000000 1, emptyBlock 800000000 11]) :
    b.transactions = [Blockchain.genesisTx] ∧
        b.preimage (recorded jsonF64) = recordedGenesisBlock.preimage (recorded jsonF64) ∨
      b.transactions = [] ∧ b.preimage (recorded jsonF64) =
        (emptyBlock 1800000000 1).preimage (recorded jsonF64) := by
  simp only [List.mem_cons, List.not_mem_nil, or_false] at hb
  rcases hb with rfl | rfl | rfl
  · exact Or.inl ⟨rfl, rfl⟩
  · exact Or.inr ⟨rfl, rfl⟩
  · exact Or.inr ⟨rfl, by decide +kernel⟩

/-- The text of one transaction begins with a bracket and a brace. -/
theorem toList_jsonTransactions_singleton (jsonAmount : A → String) (tx : Transaction A) :
    ∃ rest, (jsonTransactions jsonAmount [tx]).toList = '[' :: '\x7b' :: rest := by
  have hone : jsonTransactions jsonAmount [tx] = "[" ++ jsonTransaction jsonAmount tx ++ "]" := rfl
  have hbracket : "[".toList = ['['] := rfl
  have hbrace : "\x7b\"sender\":\"".toList = '\x7b' :: "\"sender\":\"".toList := rfl
  obtain ⟨rest, hrest⟩ : ∃ rest, jsonTransaction jsonAmount tx = "\x7b\"sender\":\"" ++ rest := by
    unfold jsonTransaction
    simp only [String.append_assoc]
    exact ⟨_, rfl⟩
  rw [hone, hrest, String.toList_append, String.toList_append, String.toList_append, hbracket,
    hbrace]
  exact ⟨_, rfl⟩

/-- The recorded digests separate these blocks. -/
theorem separates_recorded : Separates (recorded jsonF64)
    [recordedGenesisBlock, emptyBlock 1800000000 1, emptyBlock 800000000 11] where
  digest_length := length_recordedSha256
  no_collision := by
    have hgenesis : recordedSha256 (asBytes (recordedGenesisBlock.preimage (recorded jsonF64))) =
        genesisDigest := recordedSha256_asBytes (by decide +kernel)
    have hpeer : recordedSha256 (asBytes ((emptyBlock 1800000000 1).preimage (recorded jsonF64))) =
        peerDigest := recordedSha256_asBytes (by decide +kernel)
    have hne : genesisDigest ≠ peerDigest := by decide +kernel
    intro a ha b hb h
    rw [show (recorded jsonF64).sha256 = recordedSha256 from rfl] at h
    rcases recorded_texts ha with ⟨-, ha⟩ | ⟨-, ha⟩ <;>
      rcases recorded_texts hb with ⟨-, hb⟩ | ⟨-, hb⟩ <;> rw [ha, hb] at h ⊢
    · rw [hgenesis, hpeer] at h
      exact absurd h hne
    · rw [hgenesis, hpeer] at h
      exact absurd h.symm hne
  json_injective := by
    intro a ha b hb h
    rcases recorded_texts ha with ⟨ha, -⟩ | ⟨ha, -⟩ <;>
      rcases recorded_texts hb with ⟨hb, -⟩ | ⟨hb, -⟩ <;> rw [ha, hb] at h ⊢
    · revert h; decide +kernel
    · revert h; decide +kernel
  json_array := by
    intro b hb
    rcases recorded_texts hb with ⟨hb, -⟩ | ⟨hb, -⟩ <;> rw [hb]
    · obtain ⟨rest, hrest⟩ := toList_jsonTransactions_singleton jsonF64 Blockchain.genesisTx
      exact ⟨_, hrest⟩
    · exact ⟨[']'], rfl⟩
  json_delimited := by
    intro a ha b hb h
    obtain ⟨rest, hrest⟩ := toList_jsonTransactions_singleton jsonF64 Blockchain.genesisTx
    have hempty : (jsonTransactions jsonF64 []).toList = ['[', ']'] := rfl
    rcases recorded_texts ha with ⟨ha, -⟩ | ⟨ha, -⟩ <;>
      rcases recorded_texts hb with ⟨hb, -⟩ | ⟨hb, -⟩ <;> rw [ha, hb] at h ⊢ <;>
      rw [show (recorded jsonF64).txsToJson = jsonTransactions jsonF64 from rfl, hrest, hempty,
        List.cons_prefix_cons, List.cons_prefix_cons] at h
    · exact absurd h.2.1 (by decide)
    · exact absurd h.2.1 (by decide)

theorem emptyBlock_hash : (emptyBlock 1800000000 1).hash = hexEncode peerDigest ∧
    (emptyBlock 800000000 11).hash = hexEncode peerDigest :=
  ⟨calculateHash_recorded (by decide +kernel), calculateHash_recorded (by decide +kernel)⟩

theorem run_emptyBlock (now : UInt64) (index : UInt32) :
    (ledger (recorded jsonF64)).run recordedGenesis
        [.addBlockFromNetwork (emptyBlock now index)] =
      some ⟨recordedGenesis.chain ++ [emptyBlock now index], []⟩ := by
  rw [ledger_run_addBlock, show recordedGenesis = ⟨recordedGenesis.chain, []⟩ from rfl,
    emptyBlock_accepted, Machine.run_nil]

/-- Two runs that take the same block, one of them after a refused one, end in equal chains. -/
theorem equal_tips_same_block :
    ∃ bc₁ bc₂, (ledger (recorded jsonF64)).run recordedGenesis
        [.addBlockFromNetwork (emptyBlock 1800000000 1)] = some bc₁ ∧
      (ledger (recorded jsonF64)).run recordedGenesis
        [.addTransaction (.new "alice" "bob" (Amount.literal 50)),
          .addBlockFromNetwork (emptyBlock 1800000000 1)] = some bc₂ ∧
      bc₁.chain.length = 2 ∧ List.Forall₂ SameContent bc₁.chain bc₂.chain := by
  have hrun := run_emptyBlock 1800000000 1
  have hrefused : (ledger (recorded jsonF64)).run recordedGenesis
      [.addTransaction (.new "alice" "bob" (Amount.literal 50)),
        .addBlockFromNetwork (emptyBlock 1800000000 1)] =
        some ⟨recordedGenesis.chain ++ [emptyBlock 1800000000 1], []⟩ := by
    have hunsigned : recordedGenesis.addTransaction (recorded jsonF64)
        (.new "alice" "bob" (Amount.literal 50)) =
          (.err "Critical error: Transaction digital signature is invalid!", recordedGenesis) := rfl
    rw [ledger_run_addTransaction, hunsigned]
    exact hrun
  refine ⟨_, _, hrun, hrefused, rfl, ?_⟩
  have hsep : Separates (recorded jsonF64) (recordedGenesis.chain ++ [emptyBlock 1800000000 1] ++
      (recordedGenesis.chain ++ [emptyBlock 1800000000 1])) :=
    separates_recorded.mono (by simp [recordedGenesis])
  refine (equal_tips_iff new_recorded hrun hrefused hsep rfl rfl rfl).mpr ?_
  intro i a b ha hb
  rw [Option.some.inj (ha.symm.trans hb)]

/-- **Two chains under one tip hash.**  A peer's block of index 1 and time 1800000000, and
one of index 11 and time 800000000: both are accepted on the same genesis block, and they
have the same hash. -/
theorem index_runs_into_timestamp :
    ∃ bc₁ bc₂ tip₁ tip₂, Blockchain.new (recorded jsonF64) 1700040883 = some recordedGenesis ∧
      (ledger (recorded jsonF64)).run recordedGenesis
        [.addBlockFromNetwork (emptyBlock 1800000000 1)] = some bc₁ ∧
      (ledger (recorded jsonF64)).run recordedGenesis
        [.addBlockFromNetwork (emptyBlock 800000000 11)] = some bc₂ ∧
      Separates (recorded jsonF64) (bc₁.chain ++ bc₂.chain) ∧
      bc₁.getLatestBlock = some tip₁ ∧ bc₂.getLatestBlock = some tip₂ ∧ tip₁.hash = tip₂.hash ∧
      tip₁.hash = "c297ae6bfce9e72498702d86245822bbbca8a4b7f8f4eec5298960ec1b04f7e4" ∧
      ¬ List.Forall₂ SameContent bc₁.chain bc₂.chain := by
  obtain ⟨hhash₁, hhash₂⟩ := emptyBlock_hash
  refine ⟨_, _, emptyBlock 1800000000 1, emptyBlock 800000000 11, new_recorded,
    run_emptyBlock _ _, run_emptyBlock _ _, separates_recorded.mono (by simp [recordedGenesis]),
    rfl, rfl, hhash₁.trans hhash₂.symm, hhash₁.trans (by decide +kernel), ?_⟩
  intro hsame
  have htips := (List.forall₂_iff_get.mp hsame).2 1 (by decide) (by decide)
  have hindex : (1 : UInt32) = 11 := htips.index
  revert hindex
  decide

end RustSamples.Doge
