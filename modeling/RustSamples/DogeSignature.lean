import Mathlib.Data.List.Basic
import RustSamples.DogeTamper

/-! # What the signature of a `doge-rust` transaction says

`verify_signature` takes the key from the sender, in hexadecimal, and asks the scheme for the
signature of the digest.

A key or a signature of another length is not refused: zeros stand in for it.  So the check is
strict exactly if the scheme refuses these zeros (`strict_iff`).  Ed25519 does not: the zero key
is a point of order 4, and under it the zero signature fits one message in four.

What is signed is sender, receiver and amount, written one behind the other.  The sender is given;
where the receiver ends and the amount begins is not.  A receiver may end in digits, so that the
boundary can be moved across them, and the signature stays good for the other payment
(`signature_binds_payment_iff`).
-/
namespace RustSamples.Doge
open RustStr

variable {A : Type}

/-! ## What the check asks for -/

/-- The scheme accepts a signature of a message under a key. -/
def Env.accepts (E : Env A) (key : Bytes 32) (message : List UInt8) (signature : Bytes 64) : Bool :=
  E.keyParses key && E.signatureParses signature && E.verify key message signature

theorem Bytes.tryIntoOrZero_val {n : Nat} (bs : Bytes n) : Bytes.tryIntoOrZero n bs.val = bs :=
  dif_pos bs.property

/-- What is decoded has half as many bytes as the text. -/
theorem len_of_hexDecode {s : String} {bytes : List UInt8} (h : hexDecode s = some (.ok bytes)) :
    len s.toList = 2 * bytes.length := len_of_readPairs (hexDecode_eq_ok_iff.1 h)

namespace Transaction
variable {E : Env A} {tx : Transaction A}

/-- The check of a transaction with a signature. -/
theorem verifySignature_of_signature (hsender : tx.sender ≠ "SYSTEM") {sigBytes : List UInt8}
    (hsig : tx.signature = some sigBytes) :
    tx.verifySignature E = (hexDecode tx.sender).map fun decoded =>
      match decoded with
      | .error _ => false
      | .ok keyBytes => E.accepts (.tryIntoOrZero 32 keyBytes) (tx.calculateHash E)
          (.tryIntoOrZero 64 sigBytes) := by
  rw [verifySignature, if_neg hsender]
  simp only [hsig]
  cases hexDecode tx.sender with
  | none => rfl
  | some decoded =>
    cases decoded with
    | error e => rfl
    | ok keyBytes =>
      simp only [Env.accepts, Option.map_some]
      cases E.keyParses (.tryIntoOrZero 32 keyBytes) <;>
        cases E.signatureParses (.tryIntoOrZero 64 sigBytes) <;> rfl

/-- The check says yes. -/
theorem verifySignature_eq_true_iff (hsender : tx.sender ≠ "SYSTEM") :
    tx.verifySignature E = some true ↔ ∃ sigBytes keyBytes, tx.signature = some sigBytes ∧
      hexDecode tx.sender = some (.ok keyBytes) ∧ E.accepts (.tryIntoOrZero 32 keyBytes)
        (tx.calculateHash E) (.tryIntoOrZero 64 sigBytes) = true := by
  cases hsig : tx.signature with
  | none => simp [verifySignature, hsender, hsig]
  | some sigBytes =>
    rw [verifySignature_of_signature hsender hsig]
    constructor
    · intro h
      obtain ⟨decoded, hdecoded, haccepts⟩ := Option.map_eq_some_iff.1 h
      cases decoded with
      | error e => cases haccepts
      | ok keyBytes => exact ⟨sigBytes, keyBytes, rfl, hdecoded, haccepts⟩
    · rintro ⟨_, keyBytes, ⟨⟩, hdecoded, haccepts⟩
      rw [hdecoded, Option.map_some]
      exact congrArg some haccepts

end Transaction

/-! ## Keys and signatures of another length -/

/-- **What a strict check would ask for.**  The sender is 64 hexadecimal digits, these are a key,
and the signature is 64 bytes that the scheme accepts under it. -/
structure StrictlySigned (E : Env A) (tx : Transaction A) : Prop where
  length_sender : len tx.sender.toList = 64
  signed : ∃ (key : Bytes 32) (signature : Bytes 64), hexDecode tx.sender = some (.ok key.val) ∧
    tx.signature = some signature.val ∧ E.accepts key (tx.calculateHash E) signature = true

/-- The key or the signature has another length, and the scheme accepts the zeros that stand in
for it. -/
def AcceptsZeros (E : Env A) (tx : Transaction A) : Prop :=
  ∃ sigBytes keyBytes, tx.signature = some sigBytes ∧ hexDecode tx.sender = some (.ok keyBytes) ∧
    (keyBytes.length ≠ 32 ∨ sigBytes.length ≠ 64) ∧ E.accepts (.tryIntoOrZero 32 keyBytes)
      (tx.calculateHash E) (.tryIntoOrZero 64 sigBytes) = true

/-- **When the check is strict.**  For every transaction and every scheme: a check that says yes
has seen a key of 32 bytes and a signature of 64 bytes that the scheme accepts, exactly if the
scheme refuses the zeros that stand in for a key or a signature of another length. -/
theorem strict_iff (E : Env A) (tx : Transaction A) :
    (tx.sender ≠ "SYSTEM" → tx.verifySignature E = some true → StrictlySigned E tx) ↔
      (tx.sender ≠ "SYSTEM" → ¬ AcceptsZeros E tx) := by
  refine forall_congr' fun hsender => ?_
  rw [tx.verifySignature_eq_true_iff hsender]
  constructor
  · rintro hstrict ⟨sigBytes, keyBytes, hsig, hkey, hlength, haccepts⟩
    obtain ⟨key, signature, hkey', hsig', _⟩ :=
      (hstrict ⟨sigBytes, keyBytes, hsig, hkey, haccepts⟩).signed
    obtain rfl : keyBytes = key.val := by simpa [hkey] using hkey'
    obtain rfl : sigBytes = signature.val := by simpa [hsig] using hsig'
    rcases hlength with hlength | hlength
    · exact hlength key.property
    · exact hlength signature.property
  · rintro hrefuses ⟨sigBytes, keyBytes, hsig, hkey, haccepts⟩
    have hlength : keyBytes.length = 32 ∧ sigBytes.length = 64 := by
      by_contra hlength
      rw [not_and_or] at hlength
      exact hrefuses ⟨sigBytes, keyBytes, hsig, hkey, hlength, haccepts⟩
    obtain ⟨hkeyLength, hsigLength⟩ := hlength
    refine ⟨by rw [len_of_hexDecode hkey, hkeyLength], ⟨keyBytes, hkeyLength⟩,
      ⟨sigBytes, hsigLength⟩, hkey, hsig, ?_⟩
    rwa [← Bytes.tryIntoOrZero_val ⟨keyBytes, hkeyLength⟩,
      ← Bytes.tryIntoOrZero_val ⟨sigBytes, hsigLength⟩]

/-- Twelve coins from the empty sender, with an empty signature. -/
def unsignedTx : Transaction Nat := ⟨"", "mallory", 12, some []⟩

/-- The SHA-256 digest of `mallory12`. -/
def unsignedDigest : List UInt8 :=
  [0x60, 0x67, 0xa0, 0x23, 0x41, 0x3e, 0xaf, 0xf0, 0xcd, 0x76, 0x68, 0xeb, 0x42, 0xf4, 0x97, 0xc3,
    0x25, 0x72, 0x7b, 0xb0, 0x9a, 0x4e, 0x62, 0x21, 0xd8, 0x3c, 0xab, 0x0a, 0x5a, 0x02, 0x8a, 0x7a]

/-- A scheme in which, as in Ed25519, the zero signature fits this digest under the zero key. -/
def zeroKeyScheme : Env Nat where
  sha256 _ := unsignedDigest
  txsToJson _ := ""
  encodeMessage _ := []
  decodeMessage _ := none
  displayAmount := toString
  keyParses _ := true
  signatureParses _ := true
  verify key message signature := key.val = List.replicate 32 0 && message = unsignedDigest &&
    signature = zeroSignature
  sign _ _ := zeroSignature
  overflowChecks := false

/-- The sender decodes to no byte at all, and there is no byte of a signature; the check says
yes. -/
theorem unsigned_accepted :
    unsignedTx.sender ≠ "SYSTEM" ∧ unsignedTx.verifySignature zeroKeyScheme = some true ∧
      ¬ StrictlySigned zeroKeyScheme unsignedTx := by
  refine ⟨by decide, by decide, fun h => ?_⟩
  have hlength := h.length_sender
  revert hlength
  decide

/-! ## The boundary between receiver and amount -/

/-- **The boundary is moved**: digits go from the front of the amount to the end of the receiver,
or the other way round. -/
def MovesBoundary (t t' : Transaction Nat) : Prop :=
  ∃ digits, digits ≠ "" ∧
    ((t'.receiver = t.receiver ++ digits ∧ toString t.amount = digits ++ toString t'.amount) ∨
      (t.receiver = t'.receiver ++ digits ∧ toString t'.amount = digits ++ toString t.amount))

theorem toList_toString_nat (n : Nat) : (toString n).toList = Nat.toDigits 10 n := Nat.toList_repr

/-- Digits between two boundaries. -/
theorem exists_digits {t t' : Transaction Nat} {digits : List Char}
    (hdiff : t'.receiver ≠ t.receiver ∨ t'.amount ≠ t.amount)
    (hreceiver : t'.receiver.toList = t.receiver.toList ++ digits)
    (hamount : (toString t.amount).toList = digits ++ (toString t'.amount).toList) :
    ∃ digits, digits ≠ "" ∧ t'.receiver = t.receiver ++ digits ∧
      toString t.amount = digits ++ toString t'.amount := by
  refine ⟨String.ofList digits, ?_, ?_, ?_⟩
  · intro hempty
    obtain rfl : digits = [] := by simpa using hempty
    rw [List.append_nil] at hreceiver
    rcases hdiff with hdiff | hdiff
    · exact hdiff (String.toList_injective hreceiver)
    · rw [List.nil_append, toList_toString_nat, toList_toString_nat] at hamount
      exact hdiff (toDigits_injective hamount).symm
  · rw [← String.toList_inj, String.toList_append, String.toList_ofList, hreceiver]
  · rw [← String.toList_inj, String.toList_append, String.toList_ofList, hamount]

/-- Receiver and amount of different payments read the same exactly if the boundary is moved. -/
theorem movesBoundary_iff {t t' : Transaction Nat}
    (hdiff : t'.receiver ≠ t.receiver ∨ t'.amount ≠ t.amount) :
    MovesBoundary t t' ↔ t'.receiver ++ toString t'.amount = t.receiver ++ toString t.amount := by
  constructor
  · rintro ⟨digits, _, ⟨hreceiver, hamount⟩ | ⟨hreceiver, hamount⟩⟩
    · rw [hreceiver, hamount, String.append_assoc]
    · rw [hreceiver, hamount, String.append_assoc]
  · intro h
    have hlist := congrArg String.toList h
    rw [String.toList_append, String.toList_append] at hlist
    rcases List.append_eq_append_iff.1 hlist with
      ⟨cs, hreceiver, hamount⟩ | ⟨cs, hreceiver, hamount⟩
    · obtain ⟨digits, hne, hdigits⟩ :=
        exists_digits (hdiff.imp Ne.symm Ne.symm) hreceiver hamount
      exact ⟨digits, hne, Or.inr hdigits⟩
    · obtain ⟨digits, hne, hdigits⟩ := exists_digits hdiff hreceiver hamount
      exact ⟨digits, hne, Or.inl hdigits⟩

/-- The sender's key accepts a signature of the payment. -/
def SenderAccepts (E : Env A) (tx : Transaction A) (signature : Bytes 64) : Prop :=
  ∃ keyBytes, hexDecode tx.sender = some (.ok keyBytes) ∧
    E.accepts (.tryIntoOrZero 32 keyBytes) (tx.calculateHash E) signature = true

/-- The text of which `calculate_hash` takes the digest. -/
def Transaction.signedText (E : Env A) (tx : Transaction A) : String :=
  tx.sender ++ tx.receiver ++ E.displayAmount tx.amount

/-- Of one sender, the texts are the same exactly if the boundary is moved. -/
theorem signedText_eq_iff {E : Env Nat} (hdisplay : ∀ n, E.displayAmount n = toString n)
    {t t' : Transaction Nat} (hsender : t'.sender = t.sender)
    (hdiff : t'.receiver ≠ t.receiver ∨ t'.amount ≠ t.amount) :
    t'.signedText E = t.signedText E ↔ MovesBoundary t t' := by
  rw [movesBoundary_iff hdiff, Transaction.signedText, Transaction.signedText, hdisplay, hdisplay,
    hsender, String.append_assoc, String.append_assoc]
  simp only [← String.toList_inj, String.toList_append, List.append_cancel_left_eq]

/-- **When the signature binds the payment.**  Amounts are displayed in decimal, the two texts do
not collide, and the signature that `sign` made fits no other message.  Every other payment of the
sender with this signature is refused, exactly if the sender is not `SYSTEM`, its text can be cut
into pairs, and the boundary is not moved; or if the sender's key refuses the signature anyway. -/
theorem signature_binds_payment_iff {E : Env Nat} (hdisplay : ∀ n, E.displayAmount n = toString n)
    {t t' : Transaction Nat} {signingKey : Bytes 32}
    (hcollision : E.sha256 (asBytes (t'.signedText E)) = E.sha256 (asBytes (t.signedText E)) →
      asBytes (t'.signedText E) = asBytes (t.signedText E))
    (hbinds : ∀ key message,
      E.verify key message (E.sign signingKey (t.calculateHash E)) = true →
        message = t.calculateHash E)
    (hsender : t'.sender = t.sender) (hsig : t'.signature = (t.sign E signingKey).signature)
    (hdiff : t'.receiver ≠ t.receiver ∨ t'.amount ≠ t.amount) :
    t'.verifySignature E = some false ↔ t.sender ≠ "SYSTEM" ∧ hexDecode t.sender ≠ none ∧
      (MovesBoundary t t' → ¬ SenderAccepts E t (E.sign signingKey (t.calculateHash E))) := by
  have hhash : t'.calculateHash E = t.calculateHash E ↔ MovesBoundary t t' := by
    rw [← signedText_eq_iff hdisplay hsender hdiff]
    exact ⟨fun h => asBytes_injective (hcollision h), fun h => congrArg (E.sha256 ∘ asBytes) h⟩
  by_cases hsystem : t.sender = "SYSTEM"
  · have hyes : t'.verifySignature E = some true := by
      rw [Transaction.verifySignature, if_pos (hsender.trans hsystem)]
    simp [hyes, hsystem]
  · have hsystem' : t'.sender ≠ "SYSTEM" := fun h => hsystem (hsender.symm.trans h)
    rw [Transaction.verifySignature_of_signature hsystem' hsig, Bytes.tryIntoOrZero_val, hsender,
      and_iff_right hsystem, SenderAccepts]
    cases hexDecode t.sender with
    | none => simp
    | some decoded =>
      cases decoded with
      | error e => simp
      | ok keyBytes =>
        -- the key accepts the other payment exactly if this is the same text
        have haccepts : E.accepts (.tryIntoOrZero 32 keyBytes) (t'.calculateHash E)
            (E.sign signingKey (t.calculateHash E)) = true ↔ MovesBoundary t t' ∧
              E.accepts (.tryIntoOrZero 32 keyBytes) (t.calculateHash E)
                (E.sign signingKey (t.calculateHash E)) = true := by
          constructor
          · intro h
            have hverifies := (Bool.and_eq_true_iff.1 h).2
            have hsame := hbinds _ _ hverifies
            exact ⟨hhash.1 hsame, hsame ▸ h⟩
          · rintro ⟨hmoves, h⟩
            rwa [hhash.2 hmoves]
        simp [← Bool.not_eq_true, haccepts]

/-! ### A payment redirected -/

/-- A signing key, and its public key. -/
def signingKey : Bytes 32 := ⟨List.replicate 32 1, List.length_replicate⟩

def senderKey : Bytes 32 := ⟨[
    0x8a, 0x88, 0xe3, 0xdd, 0x74, 0x09, 0xf1, 0x95, 0xfd, 0x52, 0xdb, 0x2d, 0x3c, 0xba, 0x5d, 0x72,
    0xca, 0x67, 0x09, 0xbf, 0x1d, 0x94, 0x12, 0x1b, 0xf3, 0x74, 0x88, 0x01, 0xb4, 0x0f, 0x6f, 0x5c],
  rfl⟩

def senderAddress : String := hexEncode senderKey.val

theorem hexDecode_senderAddress : hexDecode senderAddress = some (.ok senderKey.val) := by
  decide +kernel

/-- Five coins for `mallory1`, and for `eve`. -/
def paidText : List UInt8 := asBytes (senderAddress ++ "mallory1" ++ "5")

def otherText : List UInt8 := asBytes (senderAddress ++ "eve" ++ "5")

/-- Their SHA-256 digests. -/
def paidDigest : List UInt8 :=
  [0xce, 0xce, 0x28, 0x9d, 0x1a, 0x88, 0x2e, 0xb4, 0x65, 0xf6, 0xb4, 0x49, 0x46, 0x4b, 0xb7, 0x5a,
    0x8e, 0xea, 0xa0, 0x43, 0x54, 0x38, 0xe7, 0x7f, 0x44, 0x7e, 0xdf, 0xec, 0xad, 0x56, 0x0e, 0x25]

def otherDigest : List UInt8 :=
  [0x60, 0x15, 0x80, 0xa6, 0x44, 0xcb, 0xfc, 0xb9, 0xf7, 0x88, 0xf9, 0x72, 0xc4, 0x60, 0x75, 0x62,
    0xcf, 0xdb, 0x3c, 0x82, 0xe9, 0x8e, 0x2f, 0x31, 0xaa, 0x6e, 0xed, 0x44, 0xe7, 0xb9, 0xf9, 0x84]

/-- The Ed25519 signature of the first one. -/
def paidSignature : Bytes 64 := ⟨[
    0xc4, 0xaf, 0xed, 0x28, 0xa7, 0x39, 0x69, 0xaa, 0xa7, 0x7d, 0x1c, 0x14, 0xf2, 0xf0, 0xa3, 0x2a,
    0x19, 0xd8, 0x43, 0x03, 0xda, 0xa6, 0x22, 0x8e, 0xd9, 0xe3, 0xe0, 0x60, 0x1d, 0x56, 0x80, 0xfe,
    0xbd, 0x15, 0x49, 0x5a, 0xc5, 0x1c, 0x6a, 0x7a, 0xa0, 0xfc, 0x2a, 0x90, 0xe1, 0x5a, 0xb6, 0x8f,
    0x40, 0x6e, 0x99, 0x7f, 0xd1, 0x6e, 0x69, 0x4b, 0xd9, 0x2a, 0x40, 0xa6, 0xe9, 0x0d, 0x5e, 0x03],
  rfl⟩

/-- A digest that is SHA-256 on these two texts and has no collisions. -/
def injectiveSha256 (text : List UInt8) : List UInt8 :=
  if text = paidText then paidDigest
  else if text = otherText then otherDigest
  else text ++ List.replicate 33 0

theorem injectiveSha256_injective : Function.Injective injectiveSha256 := by
  have hlength : ∀ text : List UInt8, (text ++ List.replicate 33 0).length ≠ 32 := by
    intro text
    rw [List.length_append, List.length_replicate]
    omega
  intro text text' h
  unfold injectiveSha256 at h
  split_ifs at h with hpaid hpaid' hother' hother hpaid' hother' hpaid' hother'
  · rw [hpaid, hpaid']
  · exact absurd h (by decide)
  · exact absurd (congrArg List.length h).symm (hlength text')
  · exact absurd h (by decide)
  · rw [hother, hother']
  · exact absurd (congrArg List.length h).symm (hlength text')
  · exact absurd (congrArg List.length h) (hlength text)
  · exact absurd (congrArg List.length h) (hlength text)
  · exact List.append_cancel_right h

/-- A scheme in which one message has been signed. -/
def oneMessageScheme : Env Nat where
  sha256 := injectiveSha256
  txsToJson _ := ""
  encodeMessage _ := []
  decodeMessage _ := none
  displayAmount := toString
  keyParses _ := true
  signatureParses _ := true
  verify key message signature := key = senderKey && message = paidDigest &&
    signature = paidSignature
  sign key message := if key = signingKey ∧ message = paidDigest then paidSignature
    else zeroSignature
  overflowChecks := false

/-- In it a signature fits the message that it was made for, and no other. -/
theorem oneMessageScheme_binds {key key' : Bytes 32} {message message' : List UInt8}
    (h : oneMessageScheme.verify key' message' (oneMessageScheme.sign key message) = true) :
    message' = message := by
  have hne : zeroSignature ≠ paidSignature := by decide
  simp only [oneMessageScheme, Bool.and_eq_true, decide_eq_true_iff] at h
  obtain ⟨⟨_, hmessage'⟩, hsignature⟩ := h
  split_ifs at hsignature with hmessage
  · rw [hmessage', hmessage.2]
  · exact absurd hsignature hne

/-- Five coins for `mallory1`. -/
def paid : Transaction Nat := .new senderAddress "mallory1" 5

theorem calculateHash_paid : paid.calculateHash oneMessageScheme = paidDigest := by
  have htext : paid.calculateHash oneMessageScheme =
      injectiveSha256 (asBytes (senderAddress ++ "mallory1" ++ toString 5)) := by
    simp only [Transaction.calculateHash, paid, Transaction.new, oneMessageScheme]
  rw [htext]
  exact if_pos rfl

theorem sign_paid : (paid.sign oneMessageScheme signingKey).signature = some paidSignature.val := by
  rw [Transaction.sign, calculateHash_paid]
  simp [oneMessageScheme]

/-- A payment of the sender with the signature that `sign` made of these five coins. -/
def replayed (receiver : String) (amount : Nat) : Transaction Nat :=
  ⟨senderAddress, receiver, amount, (paid.sign oneMessageScheme signingKey).signature⟩

/-- It passes if the text is the same. -/
theorem verifySignature_replayed {receiver : String} {amount : Nat}
    (h : receiver ++ toString amount = "mallory1" ++ "5") :
    (replayed receiver amount).verifySignature oneMessageScheme = some true := by
  have hmessage : (replayed receiver amount).calculateHash oneMessageScheme = paidDigest := by
    have htext : (replayed receiver amount).calculateHash oneMessageScheme =
        injectiveSha256 (asBytes (senderAddress ++ receiver ++ toString amount)) := by
      simp only [Transaction.calculateHash, replayed, oneMessageScheme]
    rw [htext, String.append_assoc, h, ← String.append_assoc]
    exact if_pos rfl
  have hsender : (replayed receiver amount).sender ≠ "SYSTEM" := by
    change senderAddress ≠ "SYSTEM"
    decide
  refine (Transaction.verifySignature_eq_true_iff hsender).2
    ⟨paidSignature.val, senderKey.val, sign_paid, hexDecode_senderAddress, ?_⟩
  rw [Bytes.tryIntoOrZero_val, Bytes.tryIntoOrZero_val, hmessage]
  simp [Env.accepts, oneMessageScheme]

/-- Five coins for `mallory1` become fifteen for `mallory`. -/
theorem redirected_payment_accepted :
    (∀ n, oneMessageScheme.displayAmount n = toString n) ∧
      Function.Injective oneMessageScheme.sha256 ∧
      (∀ key key' message message', oneMessageScheme.verify key' message'
        (oneMessageScheme.sign key message) = true → message' = message) ∧
      (replayed "mallory" 15).sender = paid.sender ∧
      (replayed "mallory" 15).signature = (paid.sign oneMessageScheme signingKey).signature ∧
      (replayed "mallory" 15).receiver ≠ paid.receiver ∧
      (replayed "mallory" 15).verifySignature oneMessageScheme = some true :=
  ⟨fun _ => rfl, injectiveSha256_injective, fun _ _ _ _ => oneMessageScheme_binds, rfl, rfl,
    by decide, verifySignature_replayed (by decide)⟩

/-- Another receiver does not pass with that signature. -/
theorem other_receiver_refused :
    (replayed "eve" 5).verifySignature oneMessageScheme = some false := by
  have hcollision : oneMessageScheme.sha256 (asBytes ((replayed "eve" 5).signedText
      oneMessageScheme)) = oneMessageScheme.sha256 (asBytes (paid.signedText oneMessageScheme)) →
      asBytes ((replayed "eve" 5).signedText oneMessageScheme) =
        asBytes (paid.signedText oneMessageScheme) := fun h => injectiveSha256_injective h
  have hbinds : ∀ key message, oneMessageScheme.verify key message
      (oneMessageScheme.sign signingKey (paid.calculateHash oneMessageScheme)) = true →
        message = paid.calculateHash oneMessageScheme := fun _ _ => oneMessageScheme_binds
  have hsender : (replayed "eve" 5).sender = paid.sender := rfl
  have hsig : (replayed "eve" 5).signature =
      (paid.sign oneMessageScheme signingKey).signature := rfl
  have hdiff : (replayed "eve" 5).receiver ≠ paid.receiver ∨
      (replayed "eve" 5).amount ≠ paid.amount := Or.inl (by decide)
  have hkey : hexDecode paid.sender ≠ none := by
    rw [paid, Transaction.new, hexDecode_senderAddress]
    exact Option.some_ne_none _
  refine (signature_binds_payment_iff (fun _ => rfl) hcollision hbinds hsender hsig
    hdiff).2 ⟨by decide, hkey, fun hmoves => ?_⟩
  rw [movesBoundary_iff hdiff] at hmoves
  exact absurd hmoves (by decide)

end RustSamples.Doge
