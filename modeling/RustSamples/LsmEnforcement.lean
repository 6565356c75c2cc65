import RustSamples.LsmReload

/-! # Which rule `file_open` of `lsm_hooks` finds

The user side cuts a path to 255 bytes and fills the key up with zeros.  The kernel side
takes the buffer as `bpf_d_path` leaves it.  There the path was first written at the end,
and what the move to the start does not cover is still there: for a path of fewer than 254
bytes the key holds, behind the path and its NUL, the end of the path a second time.  Such a
key is that of no path without NULs, so the rule is not found and the open is allowed.

From 254 bytes on the two keys of a path are the same.  But then the cut matters: a rule
for a longer path has the key of its first 255 bytes.

`Answers path p` says which paths have the key that an open of `p` looks up.
-/
namespace RustSamples.Lsm
open RustStr

/-- The absolute path of a file, as far as it fits in the buffer. -/
structure AbsPath where
  bytes : List UInt8
  nonempty : bytes ≠ []
  noNul : 0 ∉ bytes
  short : bytes.length < maxPathLen

theorem AbsPath.fits (p : AbsPath) : (p.bytes ++ [0]).length ≤ maxPathLen := by
  rw [List.length_append, List.length_singleton]
  exact p.short

/-! ## Lists filled up with zeros -/

/-- Filling up with zeros keeps a list that does not end with one, up to zeros. -/
theorem eq_append_zeros_of_padded {t m : List UInt8} {i j : Nat} (hlast : m.getLast? ≠ some 0)
    (h : t ++ List.replicate i 0 = m ++ List.replicate j 0) :
    t = m ++ List.replicate (t.length - m.length) 0 := by
  rcases List.append_eq_append_iff.mp h with ⟨rest, hm, hzeros⟩ | ⟨rest, ht, hzeros⟩
  · -- `m` is longer by zeros, so by nothing
    have hrest := (List.append_eq_replicate_iff.mp hzeros.symm).2.1
    by_cases hnil : rest.length = 0
    · rw [List.length_eq_zero_iff] at hnil
      simp [hm, hnil]
    · rw [hm, hrest, List.getLast?_append] at hlast
      simp [List.getLast?_replicate, hnil] at hlast
  · have hrest := (List.append_eq_replicate_iff.mp hzeros.symm).2.1
    rw [ht, List.length_append, Nat.add_sub_cancel_left, ← hrest]

theorem AbsPath.getLast?_ne_zero (p : AbsPath) : p.bytes.getLast? ≠ some 0 := by
  intro h
  exact p.noNul (List.mem_of_getLast? h)

/-! ## Keys -/

theorem FileRuleKey.eq_iff {a b : FileRuleKey} : a = b ↔ a.path.val = b.path.val := by
  rw [FileRuleKey.mk.injEq, Subtype.ext_iff]

theorem keyOf_bytes (srcBytes : List UInt8) :
    (keyOf srcBytes).path.val = srcBytes.take 255 ++
      List.replicate (256 - (srcBytes.take 255).length) 0 := by
  show srcBytes.take (min srcBytes.length 255) ++
    (List.replicate 256 0).drop (min srcBytes.length 255) = _
  rw [List.drop_replicate, List.length_take, Nat.min_comm 255, ← List.take_take,
    List.take_of_length_le (List.length_take_le' 255 srcBytes)]

/-- The key that an open of `p` looks up. -/
def hookKey (p : AbsPath) : FileRuleKey := ⟨(bpfDPath p.bytes .zero).2⟩

theorem hookKey_bytes (p : AbsPath) :
    (hookKey p).path.val = p.bytes ++ [0] ++
      (List.replicate (255 - p.bytes.length) 0 ++ (p.bytes ++ [0])).drop (p.bytes.length + 1) := by
  have hshort : p.bytes.length < 256 := p.short
  have hstart : maxPathLen - (p.bytes ++ [0]).length = 255 - p.bytes.length := by
    rw [List.length_append, List.length_singleton]
    show 256 - _ = _
    omega
  have hzeros : PathBuf.zero.val.take (255 - p.bytes.length) =
      List.replicate (255 - p.bytes.length) 0 := by
    show (List.replicate 256 0).take _ = _
    rw [List.take_replicate, Nat.min_eq_left (by omega)]
  unfold hookKey bpfDPath
  rw [dif_pos p.fits]
  simp only [hstart, hzeros]
  rw [List.drop_left' List.length_replicate, List.take_length, List.length_append,
    List.length_singleton]

/-- The paths whose rule has the key that an open of `p` looks up: cut to 255 bytes, they are
`p` or `p` and NULs, if `p` has 254 bytes or more; else `p`, NULs and the end of `p` again. -/
def Answers (path p : List UInt8) : Prop :=
  if 254 ≤ p.length then path.take 255 = p ++ List.replicate ((path.take 255).length - p.length) 0
  else path.take 255 =
    p ++ List.replicate (254 - 2 * p.length + 1) 0 ++ p.drop (2 * p.length - 254)

instance (path p : List UInt8) : Decidable (Answers path p) :=
  inferInstanceAs (Decidable (if 254 ≤ p.length then _ else _))

theorem hookKey_bytes_of_short (p : AbsPath) (h : p.bytes.length < 254) :
    (hookKey p).path.val = p.bytes ++ List.replicate (254 - 2 * p.bytes.length + 1) 0 ++
      p.bytes.drop (2 * p.bytes.length - 254) ++ [0] := by
  have hzeros : 255 - p.bytes.length - (p.bytes.length + 1) = 254 - 2 * p.bytes.length := by omega
  have hend : p.bytes.length + 1 - (255 - p.bytes.length) = 2 * p.bytes.length - 254 := by omega
  rw [hookKey_bytes, List.drop_append, List.drop_replicate, List.length_replicate, hzeros, hend,
    List.drop_append_of_le_length (by omega), List.replicate_succ]
  simp only [List.append_assoc, List.cons_append, List.nil_append]

theorem hookKey_bytes_of_long (p : AbsPath) (h : 254 ≤ p.bytes.length) :
    (hookKey p).path.val = p.bytes ++ List.replicate (256 - p.bytes.length) 0 := by
  have hshort : p.bytes.length < 256 := p.short
  rw [hookKey_bytes, List.drop_append, List.drop_replicate, List.length_replicate]
  obtain hlen | hlen : p.bytes.length = 254 ∨ p.bytes.length = 255 := by omega
  · have hdrop : (p.bytes ++ [0]).drop 254 = [0] := List.drop_left' hlen
    simp [hlen, hdrop]
  · have hdrop : (p.bytes ++ [0]).drop 256 = [] := List.drop_of_length_le (by simp [hlen])
    simp [hlen, hdrop]

/-- **Which rules an open finds.** -/
theorem keyOf_eq_hookKey_iff (path : List UInt8) (p : AbsPath) :
    keyOf path = hookKey p ↔ Answers path p.bytes := by
  have hcut : (path.take 255).length ≤ 255 := List.length_take_le 255 path
  rw [FileRuleKey.eq_iff, keyOf_bytes]
  unfold Answers
  split
  · rename_i hlong
    rw [hookKey_bytes_of_long p hlong]
    constructor
    · exact eq_append_zeros_of_padded p.getLast?_ne_zero
    · intro h
      have hlen := congrArg List.length h
      rw [List.length_append, List.length_replicate] at hlen
      conv_lhs => rw [h]
      rw [List.append_assoc, List.append_cancel_left_eq, List.replicate_append_replicate]
      congr 1
      rw [List.length_append, List.length_replicate]
      omega
  · rename_i hnot
    have hpos : p.bytes.length ≠ 0 := fun h => p.nonempty (List.length_eq_zero_iff.mp h)
    rw [hookKey_bytes_of_short p (by omega)]
    generalize hm : p.bytes ++ List.replicate (254 - 2 * p.bytes.length + 1) 0 ++
      p.bytes.drop (2 * p.bytes.length - 254) = m
    have hlength : m.length = 255 := by
      rw [← hm, List.length_append, List.length_append, List.length_replicate, List.length_drop]
      omega
    have hlast : m.getLast? ≠ some 0 := by
      rw [← hm, List.getLast?_append, List.getLast?_drop, if_neg (by omega),
        List.getLast?_eq_some_getLast p.nonempty]
      intro h
      exact p.getLast?_ne_zero ((List.getLast?_eq_some_getLast p.nonempty).trans h)
    constructor
    · intro h
      have hpadded := eq_append_zeros_of_padded (j := 1) hlast h
      rwa [hlength, Nat.sub_eq_zero_of_le hcut, List.replicate_zero, List.append_nil] at hpadded
    · intro h
      rw [h, hlength]
      rfl

/-- The two sides agree on the key of a path from 254 bytes on, and only there. -/
theorem keyOf_self_iff (p : AbsPath) : keyOf p.bytes = hookKey p ↔ 254 ≤ p.bytes.length := by
  have hshort : p.bytes.length < 256 := p.short
  have htake : p.bytes.take 255 = p.bytes := List.take_of_length_le (by omega)
  rw [keyOf_eq_hookKey_iff]
  unfold Answers
  split
  · rename_i hlong
    simp [htake, hlong]
  · rename_i hnot
    refine iff_of_false (fun h => ?_) hnot
    have hlen := congrArg List.length h
    rw [htake, List.length_append, List.length_append, List.length_replicate] at hlen
    omega

/-- A path without NULs does not answer for a path of fewer than 254 bytes. -/
theorem not_answers_of_no_nul {path : List UInt8} (hnul : 0 ∉ path) {p : List UInt8}
    (hshort : p.length < 254) : ¬ Answers path p := by
  unfold Answers
  rw [if_neg (by omega)]
  intro h
  refine hnul (List.mem_of_mem_take (i := 255) ?_)
  rw [h]
  simp

/-- Nor does it answer for another one of 254 bytes. -/
theorem answers_iff_of_no_nul {path : List UInt8} (hnul : 0 ∉ path) {p : List UInt8}
    (hlen : p.length = 254) : Answers path p ↔ path = p := by
  unfold Answers
  rw [if_pos (by omega)]
  constructor
  · intro h
    have hzeros : (path.take 255).length - p.length = 0 := by
      by_contra hne
      refine hnul (List.mem_of_mem_take (i := 255) ?_)
      rw [h]
      exact List.mem_append_right _ (List.mem_replicate.mpr ⟨hne, rfl⟩)
    rw [hzeros, List.replicate_zero, List.append_nil] at h
    have htake := congrArg List.length h
    rw [List.length_take] at htake
    rw [← h, List.take_of_length_le (by omega)]
  · rintro rfl
    rw [List.take_of_length_le (by omega), Nat.sub_self, List.replicate_zero, List.append_nil]

/-! ## Masks -/

def requestsRead (fFlags : UInt32) : Prop := fFlags &&& 3 = 0 ∨ fFlags &&& 3 = 2

def requestsWrite (fFlags : UInt32) : Prop := fFlags &&& 3 = 1 ∨ fFlags &&& 3 = 2

def requestsExec (fFlags : UInt32) : Prop := fFlags &&& 0x20 ≠ 0

instance (fFlags : UInt32) : Decidable (requestsRead fFlags) :=
  inferInstanceAs (Decidable (_ ∨ _))

instance (fFlags : UInt32) : Decidable (requestsWrite fFlags) :=
  inferInstanceAs (Decidable (_ ∨ _))

instance (fFlags : UInt32) : Decidable (requestsExec fFlags) :=
  inferInstanceAs (Decidable (_ ≠ _))

/-- The mask lacks the bit for opening or one of the bits for what the flags request. -/
def Refuses (mask fFlags : UInt32) : Prop :=
  mask &&& authOpen = 0 ∨ requestsRead fFlags ∧ mask &&& authRead = 0 ∨
    requestsWrite fFlags ∧ mask &&& authWrite = 0 ∨ requestsExec fFlags ∧ mask &&& authExec = 0

instance (mask fFlags : UInt32) : Decidable (Refuses mask fFlags) :=
  inferInstanceAs (Decidable (_ ∨ _))

theorem requestedMask_eq (fFlags : UInt32) :
    requestedMask fFlags = maskOf true (requestsRead fFlags) (requestsWrite fFlags)
      (requestsExec fFlags) := by
  have hmode : fFlags &&& 3 = 0 ∨ fFlags &&& 3 = 1 ∨ fFlags &&& 3 = 2 ∨
      fFlags &&& 3 ≠ 0 ∧ fFlags &&& 3 ≠ 1 ∧ fFlags &&& 3 ≠ 2 := by
    tauto
  unfold requestedMask
  by_cases hexec : fFlags &&& 0x20 = 0 <;>
    rcases hmode with h | h | h | ⟨h, h', h''⟩ <;>
    simp [requestsRead, requestsWrite, requestsExec, *] <;> decide

theorem maskOf_and (o r w x o' r' w' x' : Bool) :
    maskOf o r w x &&& maskOf o' r' w' x' = maskOf (o && o') (r && r') (w && w') (x && x') := by
  cases o <;> cases r <;> cases w <;> cases x <;> cases o' <;> cases r' <;> cases w' <;>
    cases x' <;> rfl

theorem maskOf_inj {o r w x o' r' w' x' : Bool} :
    maskOf o r w x = maskOf o' r' w' x' ↔ o = o' ∧ r = r' ∧ w = w' ∧ x = x' := by
  cases o <;> cases r <;> cases w <;> cases x <;> cases o' <;> cases r' <;> cases w' <;>
    cases x' <;> decide

/-- The bits that a mask made of four flags lacks. -/
theorem maskOf_lacks (o r w x : Bool) :
    (maskOf o r w x &&& authOpen = 0 ↔ o = false) ∧ (maskOf o r w x &&& authRead = 0 ↔ r = false) ∧
      (maskOf o r w x &&& authWrite = 0 ↔ w = false) ∧
        (maskOf o r w x &&& authExec = 0 ↔ x = false) := by
  cases o <;> cases r <;> cases w <;> cases x <;> decide

theorem refuses_maskOf_iff (o r w x : Bool) (fFlags : UInt32) :
    Refuses (maskOf o r w x) fFlags ↔ o = false ∨ requestsRead fFlags ∧ r = false ∨
      requestsWrite fFlags ∧ w = false ∨ requestsExec fFlags ∧ x = false := by
  obtain ⟨hopen, hread, hwrite, hexec⟩ := maskOf_lacks o r w x
  rw [Refuses, hopen, hread, hwrite, hexec]

/-- The test of `file_open`, for the masks that lines can have. -/
theorem denied_iff_refuses (rule : Rule) (fFlags : UInt32) :
    rule.mask &&& requestedMask fFlags ≠ requestedMask fFlags ↔ Refuses rule.mask fFlags := by
  rw [requestedMask_eq, Rule.mask, maskOf_and, refuses_maskOf_iff, ne_eq, maskOf_inj]
  simp only [Bool.and_eq_right_iff_imp, decide_eq_true_eq, Bool.and_true]
  cases rule.openAllowed <;> cases rule.readAllowed <;> cases rule.writeAllowed <;>
    cases rule.execAllowed <;> simp <;> tauto

/-- The mask that allows everything. -/
def fullMask : UInt32 := maskOf true true true true

theorem not_refuses_fullMask (fFlags : UInt32) : ¬ Refuses fullMask fFlags := by
  simp [fullMask, refuses_maskOf_iff]

/-- Equal masks, or two that refuse every open. -/
def SameVerdicts (mask mask' : UInt32) : Prop :=
  mask = mask' ∨ mask &&& authOpen = 0 ∧ mask' &&& authOpen = 0

/-- Four opens tell two masks apart: one that requests nothing but the open, one to read, one
to write, one to execute. -/
theorem sameVerdicts_iff (o r w x o' r' w' x' : Bool) :
    SameVerdicts (maskOf o r w x) (maskOf o' r' w' x') ↔
      ∀ fFlags, Refuses (maskOf o r w x) fFlags ↔ Refuses (maskOf o' r' w' x') fFlags := by
  constructor
  · rintro (h | ⟨h, h'⟩) fFlags
    · rw [h]
    · exact iff_of_true (Or.inl h) (Or.inl h')
  · intro h
    simp only [refuses_maskOf_iff] at h
    have hopen : o = false ↔ o' = false := by
      simpa [show ¬ requestsRead 3 by decide, show ¬ requestsWrite 3 by decide,
        show ¬ requestsExec 3 by decide] using h 3
    by_cases ho : o = false
    · exact Or.inr ⟨(maskOf_lacks o r w x).1.mpr ho,
        (maskOf_lacks o' r' w' x').1.mpr (hopen.mp ho)⟩
    · have ho' : o' ≠ false := fun h' => ho (hopen.mpr h')
      have hread : r = false ↔ r' = false := by
        simpa [ho, ho', show requestsRead 0 by decide, show ¬ requestsWrite 0 by decide,
          show ¬ requestsExec 0 by decide] using h 0
      have hwrite : w = false ↔ w' = false := by
        simpa [ho, ho', show ¬ requestsRead 1 by decide, show requestsWrite 1 by decide,
          show ¬ requestsExec 1 by decide] using h 1
      have hexec : x = false ↔ x' = false := by
        simpa [ho, ho', show ¬ requestsRead 0x23 by decide, show ¬ requestsWrite 0x23 by decide,
          show requestsExec 0x23 by decide] using h 0x23
      have heq : ∀ {a b : Bool}, (a = false ↔ b = false) → a = b := by
        intro a b hab
        exact Bool.eq_iff_iff.mpr (by simpa using not_congr hab)
      exact Or.inl (maskOf_inj.mpr ⟨heq hopen, heq hread, heq hwrite, heq hexec⟩)

/-! ## Opens after a load -/

/-- The rules of a file, up to a line that cannot be read. -/
def loadedRules (bytes : List UInt8) : List Rule := rulesOf (linesRead (readerLines bytes))

/-- The map after `reload_rules` has read the file into an empty one. -/
def loadedMap (bytes : List UInt8) : RulesMap := (reloadRules (fun _ => none) (some bytes)).2

/-- The last rule that names a path. -/
def lastNamed (rules : List Rule) (path : List UInt8) : Option Rule :=
  (rules.filter fun rule => pathBytes rule.filePath = path).getLast?

/-- The mask of the last rule that answers for a path; without one, everything is allowed. -/
def answeringMask (rules : List Rule) (path : List UInt8) : UInt32 :=
  ((rules.filter fun rule => Answers (pathBytes rule.filePath) path).getLast?.map Rule.mask).getD
    fullMask

theorem loadedMap_apply (bytes : List UInt8) (key : FileRuleKey) :
    loadedMap bytes key = (lastRule (loadedRules bytes) key).map fun rule => ⟨rule.mask⟩ := by
  have hmap := (applyLines_spec (fun _ => none) (readerLines bytes)).1
  rw [foldl_insertRule] at hmap
  show (applyLines (fun _ => none) (readerLines bytes)).2 key = _
  rw [hmap, overwrittenBy, loadedRules]
  cases lastRule (rulesOf (linesRead (readerLines bytes))) key <;> rfl

theorem lastRule_hookKey (rules : List Rule) (p : AbsPath) : lastRule rules (hookKey p) =
    (rules.filter fun rule => Answers (pathBytes rule.filePath) p.bytes).getLast? := by
  unfold lastRule
  simp only [keyOf_eq_hookKey_iff]

/-- `bpf_d_path` succeeds for a path that fits, and the buffer is looked up. -/
theorem fileOpen_eq (rules : RulesMap) (p : AbsPath) (fFlags : UInt32) :
    fileOpen rules (some ⟨p.bytes, fFlags⟩) =
      (rules (hookKey p)).elim 0 fun rule =>
        if rule.allowedMask &&& requestedMask fFlags ≠ requestedMask fFlags then -13 else 0 := by
  have hlen : (bpfDPath p.bytes .zero).1 = ((p.bytes ++ [0]).length : Int) := by
    unfold bpfDPath
    rw [dif_pos p.fits]
  have hpos : ¬ (bpfDPath p.bytes .zero).1 ≤ 0 := by
    rw [hlen, List.length_append, List.length_singleton]
    omega
  unfold fileOpen hookKey
  simp only [hpos, if_false]
  cases rules ⟨(bpfDPath p.bytes .zero).2⟩ <;> rfl

/-- **What an open does after a load**: the last rule that answers for the path decides. -/
theorem fileOpen_loadedMap (bytes : List UInt8) (p : AbsPath) (fFlags : UInt32) :
    fileOpen (loadedMap bytes) (some ⟨p.bytes, fFlags⟩) =
      if Refuses (answeringMask (loadedRules bytes) p.bytes) fFlags then -13 else 0 := by
  rw [fileOpen_eq, loadedMap_apply, lastRule_hookKey, answeringMask]
  cases ((loadedRules bytes).filter fun rule =>
      Answers (pathBytes rule.filePath) p.bytes).getLast? with
  | none => exact (if_neg (not_refuses_fullMask fFlags)).symm
  | some rule => exact if_congr (denied_iff_refuses rule fFlags) rfl rfl

/-- The mask of an answer is made of four flags. -/
theorem answeringMask_eq_maskOf (rules : List Rule) (path : List UInt8) :
    ∃ o r w x, answeringMask rules path = maskOf o r w x := by
  unfold answeringMask
  cases (rules.filter fun rule => Answers (pathBytes rule.filePath) path).getLast? with
  | none => exact ⟨true, true, true, true, rfl⟩
  | some rule => exact ⟨_, _, _, _, rfl⟩

theorem sameVerdicts_fullMask_iff {mask : UInt32} :
    SameVerdicts fullMask mask ↔ mask = fullMask := by
  constructor
  · rintro (h | ⟨h, -⟩)
    · exact h.symm
    · exact absurd h (by decide)
  · rintro rfl
    exact Or.inl rfl

/-- No path of the rules has a NUL, as in any text file. -/
def NoNuls (rules : List Rule) : Prop := ∀ rule ∈ rules, 0 ∉ pathBytes rule.filePath

theorem answeringMask_of_short {rules : List Rule} (hnuls : NoNuls rules) {path : List UInt8}
    (hshort : path.length < 254) : answeringMask rules path = fullMask := by
  have hnone : rules.filter (fun rule => Answers (pathBytes rule.filePath) path) = [] := by
    rw [List.filter_eq_nil_iff]
    intro rule hmem
    simpa using not_answers_of_no_nul (hnuls rule hmem) hshort
  rw [answeringMask, hnone]
  rfl

theorem answeringMask_of_254 {rules : List Rule} (hnuls : NoNuls rules) {path : List UInt8}
    (hlen : path.length = 254) :
    answeringMask rules path = ((lastNamed rules path).map Rule.mask).getD fullMask := by
  have hfilter : rules.filter (fun rule => Answers (pathBytes rule.filePath) path) =
      rules.filter fun rule => pathBytes rule.filePath = path := by
    refine List.filter_congr fun rule hmem => ?_
    rw [decide_eq_decide]
    exact answers_iff_of_no_nul (hnuls rule hmem) hlen
  rw [answeringMask, hfilter, lastNamed]

/-- Every open of `p` is decided by the mask. -/
def Enforced (rules : RulesMap) (p : AbsPath) (mask : UInt32) : Prop :=
  ∀ fFlags, fileOpen rules (some ⟨p.bytes, fFlags⟩) = if Refuses mask fFlags then -13 else 0

/-- No open of `p` is refused. -/
def NeverRefused (rules : RulesMap) (p : AbsPath) : Prop :=
  ∀ fFlags, fileOpen rules (some ⟨p.bytes, fFlags⟩) ≠ -13

theorem enforced_iff_sameVerdicts (bytes : List UInt8) (p : AbsPath) (o r w x : Bool) :
    Enforced (loadedMap bytes) p (maskOf o r w x) ↔
      SameVerdicts (answeringMask (loadedRules bytes) p.bytes) (maskOf o r w x) := by
  obtain ⟨o', r', w', x', hmask⟩ := answeringMask_eq_maskOf (loadedRules bytes) p.bytes
  simp only [Enforced, fileOpen_loadedMap, hmask]
  rw [sameVerdicts_iff]
  refine forall_congr' fun fFlags => ?_
  by_cases h : Refuses (maskOf o' r' w' x') fFlags <;>
    by_cases h' : Refuses (maskOf o r w x) fFlags <;> simp [h, h']

theorem neverRefused_iff_fullMask (bytes : List UInt8) (q : AbsPath) :
    NeverRefused (loadedMap bytes) q ↔
      answeringMask (loadedRules bytes) q.bytes = fullMask := by
  -- the full mask decides exactly the opens that are never refused
  have hdecided : NeverRefused (loadedMap bytes) q ↔ Enforced (loadedMap bytes) q fullMask := by
    refine forall_congr' fun fFlags => ?_
    rw [fileOpen_loadedMap, if_neg (not_refuses_fullMask fFlags)]
    by_cases h : Refuses (answeringMask (loadedRules bytes) q.bytes) fFlags <;> simp [h]
  rw [hdecided, fullMask, enforced_iff_sameVerdicts]
  constructor
  · rintro (h | ⟨-, h⟩)
    · exact h
    · exact absurd h (by decide)
  · exact Or.inl

/-- **When a rule is enforced.**  Take any file and a path that it has a rule for.  Every open
of the path is decided by the last rule that names it if and only if the last rule that
answers for the path has the same mask, or both refuse every open.  In a file without NULs
this means, for a path of fewer than 254 bytes, that its rule allows everything; for one of
254 bytes it is always so. -/
theorem enforced_iff (bytes : List UInt8) (p : AbsPath) {rule : Rule}
    (hrule : lastNamed (loadedRules bytes) p.bytes = some rule) :
    (Enforced (loadedMap bytes) p rule.mask ↔
        SameVerdicts (answeringMask (loadedRules bytes) p.bytes) rule.mask) ∧
      (NoNuls (loadedRules bytes) →
        (p.bytes.length < 254 →
          (Enforced (loadedMap bytes) p rule.mask ↔ rule.mask = fullMask)) ∧
        (p.bytes.length = 254 → Enforced (loadedMap bytes) p rule.mask)) := by
  have hiff : Enforced (loadedMap bytes) p rule.mask ↔
      SameVerdicts (answeringMask (loadedRules bytes) p.bytes) rule.mask :=
    enforced_iff_sameVerdicts bytes p _ _ _ _
  refine ⟨hiff, fun hnuls => ⟨fun hshort => ?_, fun hlen => ?_⟩⟩
  · rw [hiff, answeringMask_of_short hnuls hshort]
    exact sameVerdicts_fullMask_iff
  · rw [hiff, answeringMask_of_254 hnuls hlen, hrule]
    exact Or.inl rfl

/-- **When an unlisted file is never refused.**  Take any file and a path that no rule names.
Whatever the flags, no open of the path is refused, if and only if no rule answers for the
path or the last that does allows everything.  In a file without NULs that is so for every
path of fewer than 255 bytes. -/
theorem never_refused_iff (bytes : List UInt8) (q : AbsPath)
    (hnone : lastNamed (loadedRules bytes) q.bytes = none) :
    (NeverRefused (loadedMap bytes) q ↔
        answeringMask (loadedRules bytes) q.bytes = fullMask) ∧
      (NoNuls (loadedRules bytes) → q.bytes.length < 255 → NeverRefused (loadedMap bytes) q) := by
  have hiff := neverRefused_iff_fullMask bytes q
  refine ⟨hiff, fun hnuls hshort => hiff.mpr ?_⟩
  by_cases hlen : q.bytes.length = 254
  · rw [answeringMask_of_254 hnuls hlen, hnone]
    rfl
  · exact answeringMask_of_short hnuls (by omega)

/-! ### Files of one rule -/

/-- A rule that refuses everything. -/
def denyAll (filePath : List Char) : Rule := ⟨filePath, false, false, false, false⟩

/-- Its line. -/
def denyLine (filePath : List Char) : List Char :=
  filePath ++ [' ', '0', ' ', '0', ' ', '0', ' ', '0']

/-- The file that has only this line. -/
def denyFile (filePath : List Char) : List UInt8 :=
  asBytes (String.ofList (denyLine filePath)) ++ [10]

/-- `/` and `n` times the letter `a`. -/
def pathA (n : Nat) : List Char := '/' :: List.replicate n 'a'

/-- The bytes of it. -/
def absPathA (n : Nat) (h : n < 255) : AbsPath where
  bytes := 47 :: List.replicate n 97
  nonempty := List.cons_ne_nil _ _
  noNul := by simp
  short := by simp [maxPathLen]; omega

/-- The file is read to its end and has the one rule. -/
theorem load_denyFile {filePath : List Char} (hnewline : 10 ∉ pathBytes (denyLine filePath))
    (hreturn : (pathBytes (denyLine filePath)).reverse.head? ≠ some 13)
    (hrule : lineRule (denyLine filePath) = some (denyAll filePath)) :
    (reloadRules (fun _ => none) (some (denyFile filePath))).1 = .ok () ∧
      loadedRules (denyFile filePath) = [denyAll filePath] := by
  have hbytes : asBytes (String.ofList (denyLine filePath)) = pathBytes (denyLine filePath) := by
    rw [asBytes, String.toList_ofList, pathBytes]
  have hlines := readerLines_line (s := String.ofList (denyLine filePath))
    (by rw [hbytes]; exact hnewline) (by rw [hbytes]; exact hreturn)
  rw [String.toList_ofList] at hlines
  constructor
  · refine ((applyLines_spec (fun _ => none) _).2).mpr ?_
    rw [denyFile, hlines]
    rfl
  · rw [loadedRules, denyFile, hlines]
    show List.filterMap lineRule [denyLine filePath] = _
    rw [List.filterMap_cons_some hrule, List.filterMap_nil]

/-- The rule of a path of 254 bytes is enforced. -/
theorem path_of_254_enforced :
    lastNamed (loadedRules (denyFile (pathA 253))) (absPathA 253 (by decide)).bytes =
        some (denyAll (pathA 253)) ∧
      fileOpen (loadedMap (denyFile (pathA 253))) (some ⟨(absPathA 253 (by decide)).bytes, 0⟩) =
        -13 := by
  have hrules : loadedRules (denyFile (pathA 253)) = [denyAll (pathA 253)] :=
    (load_denyFile (by decide +kernel) (by decide +kernel) (by decide +kernel)).2
  have hrule : lastNamed (loadedRules (denyFile (pathA 253))) (absPathA 253 (by decide)).bytes =
      some (denyAll (pathA 253)) := by
    rw [hrules]
    decide +kernel
  have hnuls : NoNuls (loadedRules (denyFile (pathA 253))) := by
    rw [hrules]
    unfold NoNuls
    decide +kernel
  have henforced := ((enforced_iff _ _ hrule).2 hnuls).2 (by decide +kernel)
  exact ⟨hrule, (henforced 0).trans (if_pos (by decide))⟩

/-- **A listed file is opened.**  The file says that `/a` is not to be opened at all; it is
loaded, and `/a` is opened. -/
theorem listed_file_opened :
    (reloadRules (fun _ => none) (some (denyFile (pathA 1)))).1 = .ok () ∧
      lastNamed (loadedRules (denyFile (pathA 1))) (absPathA 1 (by decide)).bytes =
        some (denyAll (pathA 1)) ∧
      Refuses (denyAll (pathA 1)).mask 0 ∧
      fileOpen (loadedMap (denyFile (pathA 1))) (some ⟨(absPathA 1 (by decide)).bytes, 0⟩) = 0 := by
  refine ⟨?_, ?_, ?_, ?_⟩ <;> decide +kernel

/-- A path that is not listed is not refused. -/
theorem unlisted_file_opened :
    lastNamed (loadedRules (denyFile (pathA 1))) (absPathA 2 (by decide)).bytes = none ∧
      NeverRefused (loadedMap (denyFile (pathA 1))) (absPathA 2 (by decide)) := by
  have hnone : lastNamed (loadedRules (denyFile (pathA 1))) (absPathA 2 (by decide)).bytes =
      none := by
    decide +kernel
  have hnuls : NoNuls (loadedRules (denyFile (pathA 1))) := by
    unfold NoNuls
    decide +kernel
  exact ⟨hnone, (never_refused_iff _ _ hnone).2 hnuls (by decide)⟩

/-- **A rule refuses another file.**  The only rule is for a path of 256 bytes; it is loaded,
and the file named by the first 255 of them cannot be opened. -/
theorem prefix_of_listed_file_refused :
    (reloadRules (fun _ => none) (some (denyFile (pathA 255)))).1 = .ok () ∧
      lastNamed (loadedRules (denyFile (pathA 255))) (absPathA 254 (by decide)).bytes = none ∧
      fileOpen (loadedMap (denyFile (pathA 255))) (some ⟨(absPathA 254 (by decide)).bytes, 0⟩) =
        -13 := by
  obtain ⟨hok, hrules⟩ : (reloadRules (fun _ => none) (some (denyFile (pathA 255)))).1 = .ok () ∧
      loadedRules (denyFile (pathA 255)) = [denyAll (pathA 255)] :=
    load_denyFile (by decide +kernel) (by decide +kernel) (by decide +kernel)
  refine ⟨hok, ?_, ?_⟩
  · rw [hrules]
    decide +kernel
  · rw [fileOpen_loadedMap, hrules]
    decide +kernel

end RustSamples.Lsm
