import RustSamples.LastWrite
import RustSamples.LsmHooks

/-! # What a reload of the `lsm_hooks` rules does to the map

`reload_rules` inserts the rule of each line as it reads it.  It takes nothing out, and a
line that cannot be read ends it where it stands.  So a reload overwrites: the map is then
the old one, with the last rule read for a key in place of what the key had.
-/
namespace RustSamples.Lsm
open RustStr

/-- The last of the rules for a key. -/
def lastRule (rules : List Rule) (key : FileRuleKey) : Option Rule :=
  (rules.filter fun rule => keyOf (pathBytes rule.filePath) = key).getLast?

/-- The map with these rules written over it. -/
def overwrittenBy (map : RulesMap) (rules : List Rule) : RulesMap := fun key =>
  match lastRule rules key with
  | some rule => some ⟨rule.mask⟩
  | none => map key

theorem foldl_insertRule (map : RulesMap) (rules : List Rule) :
    rules.foldl RulesMap.insertRule map = overwrittenBy map rules := by
  funext key
  have hfold := LastWrite.foldl_update_apply (fun rule : Rule => keyOf (pathBytes rule.filePath))
    (fun rule => some (FileRuleValue.mk rule.mask)) rules map key
  show rules.foldl RulesMap.insertRule map key = _
  refine hfold.trans ?_
  unfold overwrittenBy lastRule
  cases (rules.filter fun rule => keyOf (pathBytes rule.filePath) = key).getLast? <;> rfl

/-- The lines that are read are the beginning of the file; if that is not all, the next one
cannot be read. -/
theorem eq_linesRead_append (lines : List (Option (List Char))) :
    lines = (linesRead lines).map some ∨
      ∃ after, lines = (linesRead lines).map some ++ none :: after := by
  induction lines with
  | nil => exact Or.inl rfl
  | cons line lines ih =>
    cases line with
    | none => exact Or.inr ⟨lines, rfl⟩
    | some line =>
      have hread : linesRead (some line :: lines) = line :: linesRead lines := rfl
      rw [hread]
      rcases ih with h | ⟨after, h⟩
      · exact Or.inl (congrArg (some line :: ·) h)
      · exact Or.inr ⟨after, congrArg (some line :: ·) h⟩

/-- **A reload overwrites.**  If it returns `Ok`, every line could be read and the map is the
old one with the rules of these lines written over it.  If it returns `Err`, the file could
not be opened and the map is the old one, or the map is the old one with the rules of the
lines before the first unreadable one written over it. -/
theorem reload_overwrites (map : RulesMap) (file : Option (List UInt8)) :
    ((reloadRules map file).1 = .ok () →
      ∃ bytes lines, file = some bytes ∧ readerLines bytes = lines.map some ∧
        (reloadRules map file).2 = overwrittenBy map (rulesOf lines)) ∧
    ∀ error, (reloadRules map file).1 = .error error →
      file = none ∧ (reloadRules map file).2 = map ∨
        ∃ bytes before after, file = some bytes ∧
          readerLines bytes = before.map some ++ none :: after ∧
          (reloadRules map file).2 = overwrittenBy map (rulesOf before) := by
  cases file with
  | none =>
    refine ⟨fun h => ?_, fun _ _ => Or.inl ⟨rfl, rfl⟩⟩
    cases h
  | some bytes =>
    obtain ⟨hmap, hok⟩ := applyLines_spec map (readerLines bytes)
    rw [foldl_insertRule] at hmap
    constructor
    · intro h
      exact ⟨bytes, _, rfl, hok.mp h, hmap⟩
    · intro error h
      rcases eq_linesRead_append (readerLines bytes) with hall | ⟨after, hafter⟩
      · rw [show reloadRules map (some bytes) = applyLines map (readerLines bytes) from rfl,
          hok.mpr hall] at h
        cases h
      · exact Or.inr ⟨bytes, _, after, rfl, hafter, hmap⟩

/-- The rule of the line `/a 0 0 0 0`. -/
def denyA : Rule := ⟨['/', 'a'], false, false, false, false⟩

/-- That line, and one that is not UTF-8. -/
def halfReadable : List UInt8 := asBytes "/a 0 0 0 0\n" ++ [255]

/-- **A reload is not a replacement.**  With a rule for `/a` in the map, loading an empty
file returns `Ok` and the map does not hold just the rules of that file, of which there are
none.  With an empty map, a file whose second line cannot be read returns `Err` and the map
is not what it was. -/
theorem reload_keeps_and_half_applies :
    (reloadRules (overwrittenBy (fun _ => none) [denyA]) (some [])).1 = .ok () ∧
      rulesOf (linesRead (readerLines [])) = [] ∧
      (reloadRules (overwrittenBy (fun _ => none) [denyA]) (some [])).2 ≠
        overwrittenBy (fun _ => none) [] ∧
      (reloadRules (fun _ => none) (some halfReadable)).1 = .error .invalidUtf8 ∧
      (reloadRules (fun _ => none) (some halfReadable)).2 ≠ fun _ => none := by
  refine ⟨rfl, rfl, ?_, by decide +kernel, ?_⟩
  · intro h
    have hkey := congrFun h (keyOf [47, 97])
    revert hkey
    decide +kernel
  · intro h
    have hkey := congrFun h (keyOf [47, 97])
    revert hkey
    decide +kernel

/-- While `main` runs, the rule in force for a key is the last one read for it, from
whichever version of the file. -/
theorem watchedRules_eq (files : List (Option (List UInt8))) :
    watchedRules files = overwrittenBy (fun _ => none)
      (files.flatMap fun file =>
        (file.map fun bytes => rulesOf (linesRead (readerLines bytes))).getD []) := by
  rw [← foldl_insertRule, List.foldl_flatMap]
  unfold watchedRules
  congr 1
  funext map file
  cases file with
  | none => rfl
  | some bytes => exact (applyLines_spec map (readerLines bytes)).1

end RustSamples.Lsm
