import Mathlib.Logic.Function.Basic
import RustSamples.RustStr

/-! # The file rules of `lsm_hooks`

`userspace/src/main.rs` reads a text file and puts a rule for each of its lines into the map
`RULES`; the program of `bpf/src/main.rs`, attached to the `file_open` hook of the kernel,
looks a file up there when it is opened.  The key of a rule is the path in a buffer of
`MAX_PATH_LEN` bytes, which each side fills by itself.

The map is a function from keys to values, and `insert` succeeds.  `bpf_d_path` is a helper
of Linux; `bpfDPath` does to the buffer what the kernel does.  A pointer that may be null is
an `Option`.
-/
namespace RustSamples.Lsm
open RustStr

/-! ## `common` -/

/-- `MAX_PATH_LEN`. -/
def maxPathLen : Nat := 256

/-- `AUTH_OPEN`. -/
def authOpen : UInt32 := (1 : UInt32) <<< 0

/-- `AUTH_READ`. -/
def authRead : UInt32 := (1 : UInt32) <<< 1

/-- `AUTH_WRITE`. -/
def authWrite : UInt32 := (1 : UInt32) <<< 2

/-- `AUTH_EXEC`. -/
def authExec : UInt32 := (1 : UInt32) <<< 3

/-- `[u8; MAX_PATH_LEN]`. -/
abbrev PathBuf := { bytes : List UInt8 // bytes.length = maxPathLen }

structure FileRuleKey where
  path : PathBuf
deriving DecidableEq

structure FileRuleValue where
  allowedMask : UInt32
deriving DecidableEq

/-- The map `RULES`. -/
abbrev RulesMap := FileRuleKey → Option FileRuleValue

/-- `rules_map.insert(key, value, 0)`, which adds or overwrites. -/
def RulesMap.insert (rules : RulesMap) (key : FileRuleKey) (value : FileRuleValue) : RulesMap :=
  Function.update rules key (some value)

/-! ## The kernel side -/

/-- `[0u8; MAX_PATH_LEN]`. -/
def PathBuf.zero : PathBuf := ⟨List.replicate maxPathLen 0, List.length_replicate⟩

/-- `bpf_d_path`: the path and its NUL are written at the end of the buffer and then moved to
its start; what else is in the buffer stays.  Returns the length with the NUL, or
`-ENAMETOOLONG`. -/
def bpfDPath (path : List UInt8) (buf : PathBuf) : Int × PathBuf :=
  let text := path ++ [0]
  if h : text.length ≤ maxPathLen then
    let start := maxPathLen - text.length
    let written := buf.val.take start ++ text
    have hwritten : written.length = maxPathLen := by
      rw [List.length_append, List.length_take, buf.property]
      omega
    (text.length, ⟨(written.drop start).take text.length ++ written.drop text.length, by
      rw [List.length_append, List.length_take, List.length_drop, List.length_drop, hwritten]
      omega⟩)
  else (-36, buf)

/-- What `file_open` reads of `struct file`: the absolute path of `f_path`, and `f_flags`. -/
structure OpenedFile where
  fPath : List UInt8
  fFlags : UInt32
deriving DecidableEq

/-- The operations that the flags of an open request. -/
def requestedMask (fFlags : UInt32) : UInt32 :=
  let mask := 0
  let mask := if fFlags &&& 0x0003 = 0x0000 then mask ||| authRead else mask
  let mask := if fFlags &&& 0x0003 = 0x0001 then mask ||| authWrite else mask
  let mask := if fFlags &&& 0x0003 = 0x0002 then mask ||| (authRead ||| authWrite) else mask
  let mask := if fFlags &&& 0x0020 ≠ 0 then mask ||| authExec else mask
  mask ||| authOpen

/-- `file_open`. -/
def fileOpen (rules : RulesMap) : Option OpenedFile → Int
  | none => 0
  | some f =>
      let (len, pathBuf) := bpfDPath f.fPath .zero
      if len ≤ 0 then 0
      else
        match rules ⟨pathBuf⟩ with
        | none => 0
        | some rule =>
            let requested := requestedMask f.fFlags
            if rule.allowedMask &&& requested ≠ requested then -13 else 0

/-! ## The user side -/

/-- `file_path.as_bytes()`. -/
def pathBytes (filePath : List Char) : List UInt8 := filePath.flatMap String.utf8EncodeChar

/-- What a line of the file says. -/
structure Rule where
  filePath : List Char
  openAllowed : Bool
  readAllowed : Bool
  writeAllowed : Bool
  execAllowed : Bool
deriving DecidableEq

/-- The mask made of four flags. -/
def maskOf (openAllowed readAllowed writeAllowed execAllowed : Bool) : UInt32 :=
  let mask := 0
  let mask := if openAllowed then mask ||| authOpen else mask
  let mask := if readAllowed then mask ||| authRead else mask
  let mask := if writeAllowed then mask ||| authWrite else mask
  if execAllowed then mask ||| authExec else mask

def Rule.mask (rule : Rule) : UInt32 :=
  maskOf rule.openAllowed rule.readAllowed rule.writeAllowed rule.execAllowed

/-- The key of a path: at most `MAX_PATH_LEN - 1` bytes of it, and zeros. -/
def keyOf (srcBytes : List UInt8) : FileRuleKey :=
  let len := min srcBytes.length (maxPathLen - 1)
  ⟨⟨srcBytes.take len ++ PathBuf.zero.val.drop len, by
    rw [List.length_append, List.length_take, List.length_drop, PathBuf.zero.property]
    have hmax : maxPathLen = 256 := rfl
    omega⟩⟩

/-- The rule of a line: none for a blank line, for one that begins with `#`, and for one
that has not five words. -/
def lineRule (line : List Char) : Option Rule :=
  if (trim line).isEmpty || line.head? = some '#' then none
  else
    match splitWhitespace line with
    | [filePath, openAllowed, readAllowed, writeAllowed, execAllowed] =>
        some ⟨filePath, openAllowed = ['1'], readAllowed = ['1'], writeAllowed = ['1'],
          execAllowed = ['1']⟩
    | _ => none

example : lineRule "/etc/shadow 1 1 0  0".toList =
    some ⟨"/etc/shadow".toList, true, true, false, false⟩ := by decide

/-- The insertion for one rule. -/
def RulesMap.insertRule (rules : RulesMap) (rule : Rule) : RulesMap :=
  rules.insert (keyOf (pathBytes rule.filePath)) ⟨rule.mask⟩

/-- Why `reload_rules` returns `Err`.  A read of the file that fails ends the loop at a line, as one
that is not UTF-8 does, and is not told apart from it. -/
inductive IoError
  | openFailed
  | invalidUtf8
deriving DecidableEq

/-- The loop of `reload_rules` over the lines. -/
def applyLines (rules : RulesMap) : List (Option (List Char)) → Except IoError Unit × RulesMap
  | [] => (.ok (), rules)
  | none :: _ => (.error .invalidUtf8, rules)
  | some line :: lines =>
      match lineRule line with
      | none => applyLines rules lines
      | some rule => applyLines (rules.insertRule rule) lines

/-- `reload_rules`, on the bytes of the file, which can all be read; `none` if it cannot be
opened. -/
def reloadRules (rules : RulesMap) : Option (List UInt8) → Except IoError Unit × RulesMap
  | none => (.error .openFailed, rules)
  | some bytes => applyLines rules (readerLines bytes)

/-- The map while `main` runs: `files` is what it found at the start and at every event since
that says the file was created or modified.  An error is only printed. -/
def watchedRules (files : List (Option (List UInt8))) : RulesMap :=
  files.foldl (fun rules file => (reloadRules rules file).2) fun _ => none

/-! ## What each operation does -/

/-- The rules of some lines, in order. -/
def rulesOf (lines : List (List Char)) : List Rule := lines.filterMap lineRule

/-- The lines before the first that cannot be read. -/
def linesRead (lines : List (Option (List Char))) : List (List Char) :=
  (lines.takeWhile Option.isSome).filterMap fun line => line

/-- The loop inserts the rules of the lines it reads, in order, and returns `Ok` if it reads
them all. -/
theorem applyLines_spec (rules : RulesMap) (lines : List (Option (List Char))) :
    (applyLines rules lines).2 = (rulesOf (linesRead lines)).foldl RulesMap.insertRule rules ∧
      ((applyLines rules lines).1 = .ok () ↔ lines = (linesRead lines).map some) := by
  induction lines generalizing rules with
  | nil => exact ⟨rfl, by simp [applyLines, linesRead]⟩
  | cons line lines ih =>
    cases line with
    | none => exact ⟨rfl, by simp [applyLines, linesRead]⟩
    | some line =>
      have hread : linesRead (some line :: lines) = line :: linesRead lines := rfl
      rw [hread, List.map_cons, List.cons.injEq]
      unfold applyLines rulesOf
      cases hrule : lineRule line with
      | none =>
        rw [List.filterMap_cons_none hrule]
        exact ⟨(ih rules).1, by simp [(ih rules).2]⟩
      | some rule =>
        rw [List.filterMap_cons_some hrule, List.foldl_cons]
        exact ⟨(ih _).1, by simp [(ih (rules.insertRule rule)).2]⟩

end RustSamples.Lsm
