import RustSamples.DogeLedger

/-! # One read for one message

`broadcast_message` opens a connection to every peer and writes the JSON text of the message,
with nothing around it.  `handle_connection` reads once, into a buffer of 4096 bytes, and decodes
what this read has returned.  TCP keeps the order of the bytes but not the borders of a
write: a read returns what has arrived so far.

So the message is applied if the first read returns all of it, and only then
(`applies_exactly_iff`): a proper part of a JSON text is no JSON text, and what is not decoded is
dropped without a word.  A message of more than 4096 bytes is never applied.
-/
namespace RustSamples.Doge
open RustStr

variable {A : Type} (E : Env A)

/-- `broadcast_message`: what is written to each of the peers that can be reached. -/
def broadcastMessage {Peer : Type} (connects : Peer → Bool) (peers : List Peer) (m : Message A) :
    List (Peer × List UInt8) :=
  (peers.filter connects).map fun peer => (peer, E.encodeMessage m)

/-- A way of the written bytes to the reader: a segment is what has arrived, and was not read
before, when a read is made. -/
structure Segmentation (written : List UInt8) where
  segments : List (List UInt8)
  nonempty : ∀ segment ∈ segments, segment ≠ []
  flatten : segments.flatten = written

/-- The length of `buffer` in `handle_connection`. -/
def bufferLen : Nat := 4096

/-- The first `stream.read(&mut buffer)`; it returns nothing at the end of the stream. -/
def firstRead (segments : List (List UInt8)) : List UInt8 := (segments.headD []).take bufferLen

/-- The message of which `handle_connection` comes to the `match`. -/
def receivedMessage (received : List UInt8) : Option (Message A) :=
  if received.length = 0 then none else E.decodeMessage received

variable [Amount A]

/-- The two arms of the `match` in `handle_connection`. -/
def Blockchain.apply (m : Message A) (bc : Blockchain A) : Blockchain A :=
  match m with
  | .newTransaction tx => (bc.addTransaction E tx).2
  | .newBlock block => (bc.addBlockFromNetwork E block).2

/-- **The connection applies `m`, and nothing else**: this is the message that it decodes, and
every ledger becomes what `m` makes of it. -/
structure AppliesExactly (m : Message A) (segments : List (List UInt8)) : Prop where
  message : receivedMessage E (firstRead segments) = some m
  ledger : ∀ bc : Blockchain A,
    bc.handleConnection E (firstRead segments) = bc.apply E m

/-- What is relied on of `serde_json` for `m`: the text is not empty, it is decoded to `m`, and a
text that ends too early is an error. -/
structure JsonText (m : Message A) : Prop where
  nonempty : E.encodeMessage m ≠ []
  decode_encode : E.decodeMessage (E.encodeMessage m) = some m
  decode_part : ∀ part, part <+: E.encodeMessage m → part ≠ E.encodeMessage m →
    E.decodeMessage part = none

omit [Amount A] in
theorem mem_broadcastMessage {Peer : Type} {connects : Peer → Bool} {peers : List Peer}
    {m : Message A} {peer : Peer} {written : List UInt8}
    (h : (peer, written) ∈ broadcastMessage E connects peers m) : written = E.encodeMessage m := by
  obtain ⟨_, _, heq⟩ := List.mem_map.1 h
  exact (congrArg Prod.snd heq).symm

/-- The ledger sees a connection through the message that it decodes. -/
theorem handleConnection_eq (received : List UInt8) (bc : Blockchain A) :
    bc.handleConnection E received =
      (receivedMessage E received).elim bc (fun m => bc.apply E m) := by
  unfold Blockchain.handleConnection receivedMessage
  by_cases hlen : received.length = 0
  · simp [hlen]
  · rw [if_neg hlen, if_neg hlen]
    cases E.decodeMessage received with
    | none => rfl
    | some m => cases m <;> rfl

theorem appliesExactly_iff_receivedMessage {m : Message A} {segments : List (List UInt8)} :
    AppliesExactly E m segments ↔ receivedMessage E (firstRead segments) = some m := by
  refine ⟨AppliesExactly.message, fun h => ⟨h, fun bc => ?_⟩⟩
  rw [handleConnection_eq, h, Option.elim_some]

/-! ## The first read -/

namespace Segmentation
variable {written : List UInt8} (s : Segmentation written)

theorem firstRead_isPrefix : firstRead s.segments <+: written := by
  have hflat := s.flatten
  cases hseg : s.segments with
  | nil => exact List.nil_prefix
  | cons segment rest =>
    rw [hseg, List.flatten_cons] at hflat
    rw [← hflat]
    exact (List.take_prefix _ _).trans (List.prefix_append _ _)

/-- **The first read is everything exactly if there is one segment, and it fits.** -/
theorem firstRead_eq_iff (hne : written ≠ []) :
    firstRead s.segments = written ↔ s.segments = [written] ∧ written.length ≤ bufferLen := by
  constructor
  · intro hread
    cases hseg : s.segments with
    | nil =>
      rw [hseg] at hread
      exact absurd hread.symm hne
    | cons segment rest =>
      have hflat := s.flatten
      rw [hseg, List.flatten_cons] at hflat
      rw [hseg] at hread
      -- the lengths leave no room for a second segment
      have hlen : min bufferLen segment.length = segment.length + rest.flatten.length := by
        rw [← List.length_take, ← List.length_append, hflat, ← hread]
        rfl
      have hrest : rest = [] := by
        refine List.eq_nil_iff_forall_not_mem.2 fun next hnext => ?_
        have hpos := List.length_pos_iff.2 (s.nonempty next (by simp [hseg, hnext]))
        have hle := (List.sublist_flatten_of_mem hnext).length_le
        omega
      rw [hrest, List.flatten_nil, List.append_nil] at hflat
      rw [hrest, ← hflat]
      rw [hrest, List.flatten_nil, List.length_nil] at hlen
      exact ⟨rfl, by omega⟩
  · rintro ⟨hseg, hfits⟩
    rw [hseg]
    exact List.take_of_length_le hfits

end Segmentation

/-- **A broadcast message is applied exactly if one read returns all of it.**  For every message,
every peer it is written to and every way of the bytes to that peer, the peer applies
the message, and nothing else, if and only if the bytes arrive in one piece, of at most 4096
bytes. -/
theorem applies_exactly_iff {Peer : Type} {connects : Peer → Bool} {peers : List Peer}
    {m : Message A} {peer : Peer} {written : List UInt8} (hjson : JsonText E m)
    (hwritten : (peer, written) ∈ broadcastMessage E connects peers m)
    (s : Segmentation written) :
    AppliesExactly E m s.segments ↔ s.segments = [written] ∧ written.length ≤ bufferLen := by
  have hpayload := mem_broadcastMessage E hwritten
  have hne : written ≠ [] := by
    rw [hpayload]
    exact hjson.nonempty
  rw [appliesExactly_iff_receivedMessage, ← s.firstRead_eq_iff hne, receivedMessage]
  constructor
  · intro h
    by_contra hpart
    have hnone := hjson.decode_part (firstRead s.segments) (hpayload ▸ s.firstRead_isPrefix)
      (hpayload ▸ hpart)
    simp [hnone] at h
  · intro hread
    rw [hread, if_neg (mt List.length_eq_zero_iff.1 hne), hpayload, hjson.decode_encode]

/-! ### A reward that arrives in two pieces -/

/-- The transaction of `mine_pending_transactions`, and its JSON text. -/
def reward : Transaction F64 := .new "SYSTEM" "miner" miningReward

def rewardText : List UInt8 := asBytes
  ("\x7b\"NewTransaction\":\x7b\"sender\":\"SYSTEM\",\"receiver\":\"miner\"," ++
    "\"amount\":50.0,\"signature\":null\x7d\x7d")

/-- An environment that knows this one message; every digest begins with zeros. -/
def rewardOnly : Env F64 where
  sha256 _ := [0, 0]
  txsToJson _ := "[]"
  encodeMessage _ := rewardText
  decodeMessage bytes := if bytes = rewardText then some (.newTransaction reward) else none
  displayAmount _ := "50"
  keyParses _ := false
  signatureParses _ := false
  verify _ _ _ := false
  sign _ _ := zeroSignature
  overflowChecks := true

theorem rewardText_length : rewardText.length = 88 := by decide

theorem rewardText_ne_nil : rewardText ≠ [] := by
  refine List.length_pos_iff.1 ?_
  rw [rewardText_length]
  decide

theorem rewardOnly_decode :
    rewardOnly.decodeMessage rewardText = some (.newTransaction reward) := by
  simp [rewardOnly]

theorem rewardOnly_decode_ne {bytes : List UInt8} (h : bytes ≠ rewardText) :
    rewardOnly.decodeMessage bytes = none := by
  simp [rewardOnly, h]

theorem rewardOnly_jsonText : JsonText rewardOnly (.newTransaction reward) where
  nonempty := rewardText_ne_nil
  decode_encode := rewardOnly_decode
  decode_part _ _ hne := rewardOnly_decode_ne hne

/-- The whole text arrives at once. -/
def rewardAtOnce : Segmentation rewardText where
  segments := [rewardText]
  nonempty := by
    intro segment hseg
    rw [List.mem_singleton.1 hseg]
    exact rewardText_ne_nil
  flatten := by simp

theorem rewardAtOnce_applied :
    AppliesExactly rewardOnly (.newTransaction reward) rewardAtOnce.segments := by
  have hwritten : ((), rewardText) ∈
      broadcastMessage rewardOnly (fun _ => true) [()] (.newTransaction reward) :=
    List.mem_singleton_self _
  refine (applies_exactly_iff rewardOnly rewardOnly_jsonText hwritten rewardAtOnce).2 ⟨rfl, ?_⟩
  rw [rewardText_length]
  decide

/-- The first 40 bytes arrive first. -/
def rewardInTwo : Segmentation rewardText where
  segments := [rewardText.take 40, rewardText.drop 40]
  nonempty := by
    intro segment hseg
    refine List.length_pos_iff.1 ?_
    have hlen := rewardText_length
    rcases List.mem_pair.1 hseg with rfl | rfl
    · rw [List.length_take]
      omega
    · rw [List.length_drop]
      omega
  flatten := by simp

/-- The ledger of `Blockchain::new` in this environment. -/
def genesisOnly : Blockchain F64 := ⟨[⟨0, 7, [Blockchain.genesisTx], "0", "0000", 0⟩], []⟩

/-- The reward is valid, but the ledger stays without it. -/
theorem reward_in_two_is_lost :
    (genesisOnly.apply rewardOnly (.newTransaction reward)).pendingTransactions = [reward] ∧
      genesisOnly.handleConnection rewardOnly (firstRead rewardInTwo.segments) = genesisOnly ∧
      ¬ AppliesExactly rewardOnly (.newTransaction reward) rewardInTwo.segments := by
  have hlost : genesisOnly.handleConnection rewardOnly (firstRead rewardInTwo.segments) =
      genesisOnly := by
    have hpart : firstRead rewardInTwo.segments ≠ rewardText := by
      intro h
      have hlen := congrArg List.length h
      simp [firstRead, rewardInTwo, bufferLen, rewardText_length] at hlen
    rw [handleConnection_eq, receivedMessage, rewardOnly_decode_ne hpart, ite_self,
      Option.elim_none]
  have happly : (genesisOnly.apply rewardOnly (.newTransaction reward)).pendingTransactions =
      [reward] := by decide
  refine ⟨happly, hlost, fun h => ?_⟩
  rw [← h.ledger genesisOnly, hlost] at happly
  cases happly

end RustSamples.Doge
