import Mathlib.Data.List.GetD

/-! # Longest-prefix-match tries

A key is a string of bytes of which only the first `prefixLen` bits count, the most
significant bit of the first byte being the first.  A trie is known by its interface:
after any insertions, `get` finds something exactly when one of the inserted keys is
no longer than the key looked up and agrees with it on its own bits.  `listTrie` is the
trie that keeps the inserted keys in a list.

A trie whose entries can be listed says more (`EntryTrie`): there is one entry for each
prefix, and an insertion leaves the entries of the other prefixes alone.
-/
namespace Lpm

/-- Bit `i` of a byte string, counted from the most significant bit of its first byte. -/
def bitAt (data : List UInt8) (i : Nat) : Bool := (data.getD (i / 8) 0).toBitVec.getMsbD (i % 8)

/-- The first `n` bits of two byte strings are the same. -/
def AgreeOn (n : Nat) (a b : List UInt8) : Prop := ∀ i < n, bitAt a i = bitAt b i

instance (n : Nat) (a b : List UInt8) : Decidable (AgreeOn n a b) :=
  inferInstanceAs (Decidable (∀ i < n, bitAt a i = bitAt b i))

structure Key where
  prefixLen : Nat
  data : List UInt8
deriving DecidableEq

/-- A trie and the law of its lookup. -/
structure Trie where
  State : Type
  empty : State
  insert : State → Key → State
  get : State → Key → Bool
  get_foldl : ∀ (keys : List Key) (key : Key), get (keys.foldl insert empty) key = true ↔
    ∃ stored ∈ keys, stored.prefixLen ≤ key.prefixLen ∧
      AgreeOn stored.prefixLen stored.data key.data

def listTrie : Trie where
  State := List Key
  empty := []
  insert st key := key :: st
  get st key := st.any fun stored =>
    decide (stored.prefixLen ≤ key.prefixLen ∧ AgreeOn stored.prefixLen stored.data key.data)
  get_foldl keys key := by
    rw [List.foldl_flip_cons_eq_append']
    simp

/-- Two keys stand for one prefix; the bits beyond it do not count. -/
def SamePrefix (a b : Key) : Prop :=
  a.prefixLen = b.prefixLen ∧ AgreeOn a.prefixLen a.data b.data

instance (a b : Key) : Decidable (SamePrefix a b) :=
  inferInstanceAs (Decidable (a.prefixLen = b.prefixLen ∧ AgreeOn a.prefixLen a.data b.data))

/-- A trie and its entries: `entry st key` says that there is one for the prefix of
`key`. -/
structure EntryTrie extends Trie where
  entry : State → Key → Bool
  entry_empty : ∀ key, entry empty key = false
  entry_insert : ∀ st key key', entry (insert st key) key' = true ↔
    SamePrefix key key' ∨ entry st key' = true

theorem EntryTrie.entry_foldl (T : EntryTrie) (keys : List Key) (st : T.State) (key : Key) :
    T.entry (keys.foldl T.insert st) key = true ↔
      (∃ stored ∈ keys, SamePrefix stored key) ∨ T.entry st key = true := by
  induction keys generalizing st with
  | nil => simp
  | cons k keys ih =>
    rw [List.foldl_cons, ih, T.entry_insert]
    simp only [List.mem_cons, exists_eq_or_imp, or_assoc]
    exact or_left_comm

/-- One of the keys has the prefix of `key`. -/
def hasPrefix (keys : List Key) (key : Key) : Bool :=
  keys.any fun stored => decide (SamePrefix stored key)

theorem hasPrefix_cons (k : Key) (keys : List Key) (key : Key) :
    hasPrefix (k :: keys) key = true ↔ SamePrefix k key ∨ hasPrefix keys key = true := by
  rw [hasPrefix, List.any_cons, Bool.or_eq_true, decide_eq_true_iff, hasPrefix]

def listEntryTrie : EntryTrie where
  toTrie := listTrie
  entry := hasPrefix
  entry_empty _ := rfl
  entry_insert st key key' := hasPrefix_cons key st key'

/-! ### Bits of byte strings -/

theorem bitAt_cons_of_lt {i : Nat} (hi : i < 8) (b : UInt8) (data : List UInt8) :
    bitAt (b :: data) i = b.toBitVec.getMsbD i := by
  rw [bitAt, Nat.div_eq_of_lt hi, Nat.mod_eq_of_lt hi]
  rfl

theorem bitAt_cons_add (b : UInt8) (data : List UInt8) (i : Nat) :
    bitAt (b :: data) (8 + i) = bitAt data i := by
  have hdiv : (8 + i) / 8 = i / 8 + 1 := by omega
  have hmod : (8 + i) % 8 = i % 8 := by omega
  rw [bitAt, hdiv, hmod]
  rfl

theorem bitAt_append_of_lt {a : List UInt8} {i : Nat} (hi : i < 8 * a.length) (b : List UInt8) :
    bitAt (a ++ b) i = bitAt a i := by
  rw [bitAt, bitAt, List.getD_append _ _ _ _ (by omega)]

/-- Byte strings of one length with the same bits are the same. -/
theorem eq_of_agreeOn {a b : List UInt8} (hlen : a.length = b.length)
    (h : AgreeOn (8 * a.length) a b) : a = b := by
  refine List.ext_getElem hlen fun i hi hi' => ?_
  have hbyte : a[i].toBitVec = b[i].toBitVec := by
    refine BitVec.eq_of_getMsbD_eq fun j hj => ?_
    have hbit := h (8 * i + j) (by omega)
    have hdiv : (8 * i + j) / 8 = i := by omega
    have hmod : (8 * i + j) % 8 = j := by omega
    rw [bitAt, bitAt, hdiv, hmod, List.getD_eq_getElem _ _ hi, List.getD_eq_getElem _ _ hi'] at hbit
    exact hbit
  exact UInt8.toBitVec_inj.mp hbyte

/-- Two keys that begin with a byte each: they agree beyond it when the bytes are the
same and the rest agrees. -/
theorem agreeOn_cons (n : Nat) (b c : UInt8) (x y : List UInt8) :
    AgreeOn (8 + n) (b :: x) (c :: y) ↔ b = c ∧ AgreeOn n x y := by
  constructor
  · intro h
    refine ⟨UInt8.toBitVec_inj.mp (BitVec.eq_of_getMsbD_eq fun i hi => ?_), fun i hi => ?_⟩
    · have hbit := h i (by omega)
      rwa [bitAt_cons_of_lt hi, bitAt_cons_of_lt hi] at hbit
    · have hbit := h (8 + i) (by omega)
      rwa [bitAt_cons_add, bitAt_cons_add] at hbit
  · rintro ⟨rfl, h⟩ i hi
    rcases Nat.lt_or_ge i 8 with hlt | hge
    · rw [bitAt_cons_of_lt hlt, bitAt_cons_of_lt hlt]
    · obtain ⟨j, rfl⟩ := Nat.exists_eq_add_of_le hge
      rw [bitAt_cons_add, bitAt_cons_add]
      exact h j (by omega)

theorem agreeOn_append {n : Nat} {a b : List UInt8} (ha : n ≤ 8 * a.length)
    (hb : n ≤ 8 * b.length) (x y : List UInt8) : AgreeOn n (a ++ x) (b ++ y) ↔ AgreeOn n a b := by
  refine forall_congr' fun i => forall_congr' fun hi => ?_
  rw [bitAt_append_of_lt (by omega), bitAt_append_of_lt (by omega)]

end Lpm
