import Mathlib.Data.List.Chain
import Mathlib.Data.Multiset.MapFold

/-! # Logs with one record a line

A log file written by appends, each of which is the text of a record or a newline.
A reader splits the file at the newlines and decodes every line that is not empty.
The reader gets back the records exactly when no two records were appended one
directly behind the other (`decoded_eq_records_iff`): a record behind another
shares its line, so that there are fewer lines than records (`length_filledLines`).
-/
namespace LineLog

/-- What one append adds to the file. -/
inductive Piece (R : Type)
  | record (r : R)
  | newline
deriving DecidableEq

variable {R : Type} (encode : R → List UInt8)

def Piece.bytes : Piece R → List UInt8
  | .record r => encode r
  | .newline => [10]

/-- The file that a sequence of appends makes. -/
def file (pieces : List (Piece R)) : List UInt8 := pieces.flatMap (Piece.bytes encode)

/-- The lines of a text that are not empty, in order. -/
def filledLines (text : List UInt8) : List (List UInt8) :=
  (text.splitOn 10).filter fun line => !line.isEmpty

/-- The records appended, in order. -/
def records (pieces : List (Piece R)) : List R :=
  pieces.filterMap fun
    | .record r => some r
    | .newline => none

/-- How many records were appended directly behind another record. -/
def glued : List (Piece R) → Nat
  | .record _ :: .record r :: pieces => glued (.record r :: pieces) + 1
  | _ :: pieces => glued pieces
  | [] => 0

/-- No record was appended directly behind another record. -/
def Separated (pieces : List (Piece R)) : Prop :=
  pieces.IsChain fun a b => a = .newline ∨ b = .newline

theorem separated_iff_glued (pieces : List (Piece R)) : Separated pieces ↔ glued pieces = 0 := by
  fun_induction glued pieces with
  | case1 r r' pieces ih => simp [Separated]
  | case2 piece pieces hnot ih =>
    cases pieces with
    | nil => simp [Separated, glued]
    | cons next pieces =>
      rw [← ih]
      cases piece <;> cases next <;> simp_all [Separated]
  | case3 => simp [Separated]

/-- An encoding that fits on a line. -/
structure OnOneLine : Prop where
  nonempty : ∀ r, encode r ≠ []
  noNewline : ∀ r, 10 ∉ encode r

/-- Text without a newline goes to the front of the first line. -/
theorem splitOn_append_of_not_mem {line : List UInt8} (h : 10 ∉ line) (text : List UInt8) :
    (line ++ text).splitOn 10 = (text.splitOn 10).modifyHead (line ++ ·) := by
  induction line with
  | nil =>
    cases hs : text.splitOn 10 with
    | nil => exact absurd hs (List.splitOn_ne_nil _ _)
    | cons _ _ => simp [hs]
  | cons b line ih =>
    have hb : (b == 10) = false := by
      simp only [beq_eq_false_iff_ne, ne_eq]
      intro hb
      exact h (hb ▸ List.mem_cons_self)
    rw [List.cons_append, List.splitOn_cons_eq_if_modifyHead, hb,
      ih fun hm => h (List.mem_cons_of_mem _ hm)]
    cases text.splitOn 10 <;> simp

variable {encode}

/-- The first line of a file, and whether it is empty: it is, unless the file
starts with a record. -/
theorem splitOn_file (he : OnOneLine encode) (pieces : List (Piece R)) :
    ∃ first rest, (file encode pieces).splitOn 10 = first :: rest ∧
      (first = [] ↔ ∀ r, pieces.head? ≠ some (.record r)) := by
  cases hs : (file encode pieces).splitOn 10 with
  | nil => exact absurd hs (List.splitOn_ne_nil _ _)
  | cons first rest =>
    refine ⟨first, rest, rfl, ?_⟩
    cases pieces with
    | nil =>
      have : first = [] := by simpa [file] using (List.cons.inj hs).1.symm
      simp [this]
    | cons piece pieces =>
      cases piece with
      | newline =>
        have : first = [] := by
          simpa [file, Piece.bytes, List.splitOn_cons_eq_if_modifyHead] using
            (List.cons.inj hs).1.symm
        simp [this]
      | record r =>
        have hfile : file encode (.record r :: pieces) = encode r ++ file encode pieces := rfl
        rw [hfile, splitOn_append_of_not_mem (he.noNewline r)] at hs
        cases ht : (file encode pieces).splitOn 10 with
        | nil => exact absurd ht (List.splitOn_ne_nil _ _)
        | cons first' rest' =>
          rw [ht] at hs
          obtain ⟨rfl, -⟩ := List.cons.inj hs
          simp [he.nonempty r]

theorem filledLines_newline (pieces : List (Piece R)) :
    filledLines (file encode (.newline :: pieces)) = filledLines (file encode pieces) := by
  have hfile : file encode (.newline :: pieces) = 10 :: file encode pieces := rfl
  simp [filledLines, hfile, List.splitOn_cons_eq_if_modifyHead]

/-- A record behind which no record follows has a line of its own; otherwise the
line of the next record becomes longer and no line is added. -/
theorem filledLines_record (he : OnOneLine encode) (r : R) (pieces : List (Piece R)) :
    ((∀ r', pieces.head? ≠ some (.record r')) ∧
      filledLines (file encode (.record r :: pieces)) =
        encode r :: filledLines (file encode pieces)) ∨
    ((∃ r', pieces.head? = some (.record r')) ∧
      (filledLines (file encode (.record r :: pieces))).length =
        (filledLines (file encode pieces)).length) := by
  obtain ⟨first, rest, hs, hfirst⟩ := splitOn_file he pieces
  have hlines : filledLines (file encode (.record r :: pieces)) =
      (encode r ++ first) :: rest.filter fun line => !line.isEmpty := by
    have hfile : file encode (.record r :: pieces) = encode r ++ file encode pieces := rfl
    rw [filledLines, hfile, splitOn_append_of_not_mem (he.noNewline r), hs]
    simp [he.nonempty r]
  by_cases hempty : first = []
  · left
    refine ⟨hfirst.mp hempty, ?_⟩
    rw [hlines, filledLines, hs, hempty]
    simp
  · right
    refine ⟨?_, ?_⟩
    · by_contra hno
      exact hempty (hfirst.mpr fun r' hr' => hno ⟨r', hr'⟩)
    · rw [hlines, filledLines, hs]
      simp [hempty]

/-- **Every glued record costs a line.** -/
theorem length_filledLines (he : OnOneLine encode) (pieces : List (Piece R)) :
    (filledLines (file encode pieces)).length + glued pieces = (records pieces).length := by
  induction pieces with
  | nil => simp [filledLines, file, glued, records]
  | cons piece pieces ih =>
    cases piece with
    | newline =>
      rw [filledLines_newline]
      cases pieces <;> simpa [glued, records] using ih
    | record r =>
      have hrec : (records (.record r :: pieces)).length = (records pieces).length + 1 := by
        simp [records]
      rw [hrec, ← ih]
      rcases filledLines_record he r pieces with ⟨hno, h⟩ | ⟨⟨r', hr'⟩, h⟩
      · have hg : glued (.record r :: pieces) = glued pieces := by
          cases pieces with
          | nil => rfl
          | cons next pieces =>
            cases next with
            | record r' => exact absurd rfl (hno r')
            | newline => rfl
        rw [h, hg, List.length_cons]
        omega
      · obtain ⟨tail, rfl⟩ : ∃ tail, pieces = .record r' :: tail := by
          cases pieces with
          | nil => cases hr'
          | cons next tail => exact ⟨tail, by rw [Option.some.inj hr']⟩
        rw [h, glued]
        omega

/-- A separated log has one line for each record. -/
theorem filledLines_of_separated (he : OnOneLine encode) {pieces : List (Piece R)}
    (hsep : Separated pieces) :
    filledLines (file encode pieces) = (records pieces).map encode := by
  induction pieces with
  | nil => simp [filledLines, file, records]
  | cons piece pieces ih =>
    have htail : Separated pieces := by
      cases pieces with
      | nil => exact List.isChain_nil
      | cons _ _ => exact (List.isChain_cons_cons.mp hsep).2
    cases piece with
    | newline => rw [filledLines_newline, ih htail]; rfl
    | record r =>
      rcases filledLines_record he r pieces with ⟨-, h⟩ | ⟨⟨r', hr'⟩, -⟩
      · rw [h, ih htail]; rfl
      · exfalso
        cases pieces with
        | nil => cases hr'
        | cons next pieces =>
          obtain rfl := Option.some.inj hr'
          simpa using (List.isChain_cons_cons.mp hsep).1

/-- **A reader gets the records back exactly from a separated log.** -/
theorem decoded_eq_records_iff (he : OnOneLine encode) {decode : List UInt8 → Option R}
    (hdec : ∀ r, decode (encode r) = some r) (pieces : List (Piece R)) :
    ((filledLines (file encode pieces)).map decode : Multiset (Option R)) =
      (records pieces).map some ↔ Separated pieces := by
  constructor
  · intro h
    have hlen := congrArg Multiset.card h
    simp only [Multiset.coe_card, List.length_map] at hlen
    have := length_filledLines he pieces
    exact (separated_iff_glued pieces).mpr (by omega)
  · intro hsep
    rw [filledLines_of_separated he hsep, List.map_map]
    refine congrArg Multiset.ofList (List.map_congr_left fun r _ => ?_)
    exact hdec r

end LineLog
