import Mathlib.Data.Nat.Digits.Defs

/-! # Numbers in memory

`to_le_bytes` and `from_le_bytes`: the bytes of a number, the least significant first.  A field of
a structure in memory is the number that stands in some bytes from an offset on (`fieldAt`).
-/
namespace RustBytes

/-- `to_le_bytes`, of a number of `k` bytes. -/
def toLeBytes : Nat → Nat → List UInt8
  | 0, _ => []
  | k + 1, n => UInt8.ofNat n :: toLeBytes k (n / 256)

/-- `from_le_bytes`. -/
def fromLeBytes (bs : List UInt8) : Nat := Nat.ofDigits 256 (bs.map UInt8.toNat)

@[simp]
theorem length_toLeBytes (k n : Nat) : (toLeBytes k n).length = k := by
  induction k generalizing n with
  | zero => rfl
  | succ k ih => rw [toLeBytes, List.length_cons, ih]

theorem fromLeBytes_toLeBytes {k n : Nat} (h : n < 256 ^ k) : fromLeBytes (toLeBytes k n) = n := by
  induction k generalizing n with
  | zero =>
    rw [Nat.pow_zero, Nat.lt_one_iff] at h
    exact h.symm
  | succ k ih =>
    have hrest : n / 256 < 256 ^ k :=
      Nat.div_lt_of_lt_mul (by rwa [Nat.pow_succ, Nat.mul_comm] at h)
    have hstep : fromLeBytes (toLeBytes (k + 1) n) =
        (UInt8.ofNat n).toNat + 256 * fromLeBytes (toLeBytes k (n / 256)) := Nat.ofDigits_cons
    rw [hstep, ih hrest, UInt8.toNat_ofNat']
    exact Nat.mod_add_div n 256

/-- The number in the `k` bytes from `offset` on. -/
def fieldAt (buffer : List UInt8) (offset k : Nat) : Nat :=
  fromLeBytes ((buffer.drop offset).take k)

/-- A field is found behind what stands before it. -/
theorem fieldAt_append {before behind : List UInt8} {offset k n : Nat}
    (hoffset : before.length = offset) (h : n < 256 ^ k) :
    fieldAt (before ++ (toLeBytes k n ++ behind)) offset k = n := by
  rw [fieldAt, ← hoffset, List.drop_left, List.take_left' (length_toLeBytes k n),
    fromLeBytes_toLeBytes h]

/-- A field that ends before `n` is that of the first `n` bytes. -/
theorem fieldAt_take {offset k n : Nat} (h : offset + k ≤ n) (buffer : List UInt8) :
    fieldAt (buffer.take n) offset k = fieldAt buffer offset k := by
  rw [fieldAt, fieldAt, List.drop_take, List.take_take, Nat.min_eq_left (by omega)]

/-- A structure without padding: the widths and the values of its fields, one behind the other. -/
def layout (fields : List (Nat × Nat)) : List UInt8 :=
  fields.flatMap fun field => toLeBytes field.1 field.2

theorem length_layout (fields : List (Nat × Nat)) :
    (layout fields).length = (fields.map Prod.fst).sum := by
  rw [layout, List.length_flatMap]
  exact congrArg List.sum (List.map_congr_left fun field _ => length_toLeBytes field.1 field.2)

/-- **A field of a structure in memory** stands behind the fields before it. -/
theorem fieldAt_layout {fields : List (Nat × Nat)} {i k n : Nat} (hi : fields[i]? = some (k, n))
    (hn : n < 256 ^ k) (before behind : List UInt8) :
    fieldAt (before ++ (layout fields ++ behind))
      (before.length + ((fields.take i).map Prod.fst).sum) k = n := by
  obtain ⟨hlt, hget⟩ := List.getElem?_eq_some_iff.1 hi
  have hsplit : layout fields =
      layout (fields.take i) ++ (toLeBytes k n ++ layout (fields.drop (i + 1))) := by
    have hfields : fields = fields.take i ++ (k, n) :: fields.drop (i + 1) := by
      rw [← hget, List.getElem_cons_drop, List.take_append_drop]
    conv_lhs => rw [hfields]
    rw [layout, List.flatMap_append, List.flatMap_cons]
    rfl
  rw [hsplit, List.append_assoc, List.append_assoc, ← List.append_assoc before]
  exact fieldAt_append (by rw [List.length_append, length_layout]) hn

end RustBytes
