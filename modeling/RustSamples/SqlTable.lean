import Mathlib.Data.List.Nodup

/-! # Tables with a unique column

The statements a program sends to an SQL database, on one table whose rows have a
`UNIQUE` column.  The constraint is a field of the table, so no statement can leave two
rows with one key behind.  Rows keep the order of their insertion.
-/
namespace Sql
variable {ρ κ : Type} {key : ρ → κ}

/-- The rows of a table on whose column `key` there is a `UNIQUE` constraint. -/
structure Table (key : ρ → κ) where
  rows : List ρ
  unique : (rows.map key).Nodup

namespace Table

/-- `CREATE TABLE`. -/
def empty : Table key := ⟨[], List.nodup_nil⟩

/-- `SELECT … WHERE p LIMIT 1`. -/
def selectOne (t : Table key) (p : ρ → Bool) : Option ρ := t.rows.find? p

theorem unique_filter (t : Table key) (p : ρ → Bool) : ((t.rows.filter p).map key).Nodup :=
  t.unique.sublist (List.filter_sublist.map key)

/-- `DELETE … WHERE p`. -/
def deleteWhere (t : Table key) (p : ρ → Bool) : Table key :=
  ⟨t.rows.filter fun r => !p r, t.unique_filter _⟩

/-- `INSERT OR REPLACE`: a row with the key of the new one goes. -/
def insertOrReplace [DecidableEq κ] (t : Table key) (row : ρ) : Table key :=
  ⟨t.rows.filter (fun r => key r ≠ key row) ++ [row], by
    rw [List.map_append, List.map_singleton, List.nodup_append]
    refine ⟨t.unique_filter _, List.nodup_singleton _, ?_⟩
    intro k hk k' hk'
    obtain ⟨r, hr, rfl⟩ := List.mem_map.mp hk
    rw [List.mem_singleton.mp hk']
    simpa using (List.mem_filter.mp hr).2⟩

@[simp] theorem not_mem_empty (r : ρ) : r ∉ (empty : Table key).rows := List.not_mem_nil

theorem mem_deleteWhere {t : Table key} {p : ρ → Bool} {r : ρ} :
    r ∈ (t.deleteWhere p).rows ↔ r ∈ t.rows ∧ p r = false := by
  simp [deleteWhere]

theorem mem_insertOrReplace [DecidableEq κ] {t : Table key} {row r : ρ} :
    r ∈ (t.insertOrReplace row).rows ↔ r ∈ t.rows ∧ key r ≠ key row ∨ r = row := by
  simp [insertOrReplace]

theorem eq_of_key_eq (t : Table key) {r r' : ρ} (hr : r ∈ t.rows) (hr' : r' ∈ t.rows)
    (h : key r = key r') : r = r' :=
  List.inj_on_of_nodup_map t.unique hr hr' h

/-- A selection that fixes the key finds its row wherever the row stands. -/
theorem selectOne_eq_some_iff (t : Table key) {p : ρ → Bool} {k : κ}
    (hp : ∀ r, p r = true → key r = k) {r : ρ} :
    t.selectOne p = some r ↔ r ∈ t.rows ∧ p r = true := by
  constructor
  · intro h
    exact ⟨List.mem_of_find?_eq_some h, List.find?_some h⟩
  · rintro ⟨hr, hpr⟩
    have hsome : (t.rows.find? p).isSome := List.find?_isSome.mpr ⟨r, hr, hpr⟩
    obtain ⟨r', hr'⟩ := Option.isSome_iff_exists.mp hsome
    have hkey : key r' = key r := (hp r' (List.find?_some hr')).trans (hp r hpr).symm
    rw [selectOne, hr', t.eq_of_key_eq (List.mem_of_find?_eq_some hr') hr hkey]

theorem selectOne_insertOrReplace_same [DecidableEq κ] (t : Table key) {p : ρ → Bool} {row : ρ}
    (hp : ∀ r, p r = true → key r = key row) (hrow : p row = true) :
    (t.insertOrReplace row).selectOne p = some row :=
  ((t.insertOrReplace row).selectOne_eq_some_iff hp).mpr
    ⟨mem_insertOrReplace.mpr (Or.inr rfl), hrow⟩

theorem selectOne_insertOrReplace_of_ne [DecidableEq κ] (t : Table key) {p : ρ → Bool} {k : κ}
    (hp : ∀ r, p r = true → key r = k) {row : ρ} (hrow : key row ≠ k) :
    (t.insertOrReplace row).selectOne p = t.selectOne p := by
  refine Option.ext fun r => ?_
  rw [selectOne_eq_some_iff _ hp, selectOne_eq_some_iff _ hp, mem_insertOrReplace]
  constructor
  · rintro ⟨⟨hr, -⟩ | rfl, hpr⟩
    · exact ⟨hr, hpr⟩
    · exact absurd (hp r hpr) hrow
  · rintro ⟨hr, hpr⟩
    exact ⟨Or.inl ⟨hr, fun h => hrow (h.symm.trans (hp r hpr))⟩, hpr⟩

end Table
end Sql
