import RustSamples.LineLog
import RustSamples.SiemDurability

/-! # The log file under concurrent `dump_to_wal` calls

When ClickHouse fails, several `dump_to_wal` calls append to one file at the same
time.  A call makes two appends for an event, the serialised event and a newline,
and another call can append in between.

The machine `dumps` runs any number of calls, every append succeeding; a schedule
says which call makes its next operation.  The file is the log of `LineLog` that
the appends make in the order of the schedule (`appendsOf`), so its lines decode to
the dumped events exactly when no record is appended directly behind another.
-/
namespace RustSamples.Siem
open Scheduling LineLog

variable {Event : Type}

/-- The bytes that an append leaves in the file. -/
def Append.bytes (serialize : Event → List UInt8) : Append Event → List UInt8
  | .record e => serialize e
  | .newline => [10]
  | .torn e written => (serialize e).take written

/-- The content of the log file. -/
def walFile (serialize : Event → List UInt8) (wal : List (Append Event)) : List UInt8 :=
  wal.flatMap (Append.bytes serialize)

/-- `dump_to_wal` calls on one path, and what they have written. -/
structure Dumps (Event : Type) where
  tasks : List (Task Event)
  sinks : Sinks Event

/-- One call for each batch, none started, and no file yet. -/
def Dumps.start (batches : List (List Event)) : Dumps Event :=
  ⟨batches.map Task.dumpToWal, ⟨[], []⟩⟩

/-- The calls under every interleaving of their operations, all of which succeed. -/
def dumps : Machine (Dumps Event) Nat :=
  ⟨fun s i => s.tasks[i]?.bind fun t => (t.step s.sinks .ok).map fun r =>
    ⟨s.tasks.set i r.1, r.2⟩⟩

/-- What call `i` appends when it is scheduled. -/
def nextAppend (s : Dumps Event) (i : Nat) : List (Piece Event) :=
  match s.tasks[i]?.map Task.pc with
  | some (.record (e :: _)) => [.record e]
  | some (.newline _) => [.newline]
  | _ => []

/-- The appends of a schedule, in order. -/
def appendsOf (batches : List (List Event)) (schedule : List Nat) : List (Piece Event) :=
  dumps.observations nextAppend (.start batches) schedule

/-- An append that succeeded. -/
def Append.ofPiece : Piece Event → Append Event
  | .record e => .record e
  | .newline => .newline

/-- What holds while the calls run: they are past ClickHouse, the file holds the
appends made, and every event is owed or logged. -/
structure Dumping (batches : List (List Event)) (appends : List (Piece Event))
    (s : Dumps Event) : Prop where
  onDisk : ∀ t ∈ s.tasks, t.onDisk = true ∨ t.pc = .finished
  wal : s.sinks.wal = appends.map Append.ofPiece
  balance : owedByTasks s.tasks + logged s.sinks.wal = (batches.flatten : Multiset Event)

/-- A successful operation of a call that is past ClickHouse. -/
theorem Task.step_onDisk {sinks sinks' : Sinks Event} {t t' : Task Event}
    (hdisk : t.onDisk = true ∨ t.pc = .finished) (h : t.step sinks .ok = some (t', sinks')) :
    (t'.onDisk = true ∨ t'.pc = .finished) ∧ sinks'.committed = sinks.committed ∧
      ((∃ e rest, t.pc = .record (e :: rest) ∧ sinks'.wal = sinks.wal ++ [.record e]) ∨
        (∃ rest, t.pc = .newline rest ∧ sinks'.wal = sinks.wal ++ [.newline]) ∨
        ((t.pc = .opening ∨ t.pc = .record []) ∧ sinks'.wal = sinks.wal)) := by
  obtain ⟨batch, pc⟩ := t
  cases pc with
  | begin => simp [onDisk] at hdisk
  | inserting rest => simp [onDisk] at hdisk
  | finished => cases h
  | opening =>
    obtain ⟨rfl, rfl⟩ := Prod.mk.inj (Option.some.inj h)
    exact ⟨Or.inl rfl, rfl, Or.inr (Or.inr ⟨Or.inl rfl, rfl⟩)⟩
  | newline rest =>
    obtain ⟨rfl, rfl⟩ := Prod.mk.inj (Option.some.inj h)
    exact ⟨Or.inl rfl, rfl, Or.inr (Or.inl ⟨rest, rfl, rfl⟩)⟩
  | record rest =>
    cases rest with
    | nil =>
      obtain ⟨rfl, rfl⟩ := Prod.mk.inj (Option.some.inj h)
      exact ⟨Or.inr rfl, rfl, Or.inr (Or.inr ⟨Or.inr rfl, rfl⟩)⟩
    | cons e rest =>
      obtain ⟨rfl, rfl⟩ := Prod.mk.inj (Option.some.inj h)
      exact ⟨Or.inl rfl, rfl, Or.inl ⟨e, rest, rfl, rfl⟩⟩

theorem dumping_start (batches : List (List Event)) : Dumping batches [] (.start batches) where
  onDisk := by
    intro t ht
    obtain ⟨batch, -, rfl⟩ := List.mem_map.mp ht
    exact Or.inl rfl
  wal := rfl
  balance := by
    simp only [Dumps.start, logged, List.filterMap_nil, Multiset.coe_nil, add_zero]
    induction batches with
    | nil => rfl
    | cons batch batches ih =>
      rw [List.flatten_cons, ← Multiset.coe_add, ← ih]
      rfl

theorem dumping_step {batches : List (List Event)} {appends : List (Piece Event)}
    {s u : Dumps Event} {i : Nat} (hs : Dumping batches appends s) (h : dumps.step s i = some u) :
    Dumping batches (appends ++ nextAppend s i) u := by
  obtain ⟨t, ht, hmap⟩ := Option.bind_eq_some_iff.mp h
  obtain ⟨⟨t', sinks'⟩, hstep, rfl⟩ := Option.map_eq_some_iff.mp hmap
  have hmem := List.mem_of_getElem? ht
  obtain ⟨hdisk, hcom, hcases⟩ := Task.step_onDisk (hs.onDisk t hmem) hstep
  refine ⟨?_, ?_, ?_⟩
  · intro t'' ht''
    rcases List.mem_or_eq_of_mem_set ht'' with hold | rfl
    · exact hs.onDisk t'' hold
    · exact hdisk
  · rcases hcases with ⟨e, rest, hpc, hwal⟩ | ⟨rest, hpc, hwal⟩ | ⟨hpc, hwal⟩
    · simp [nextAppend, ht, hpc, hwal, hs.wal, Append.ofPiece]
    · simp [nextAppend, ht, hpc, hwal, hs.wal, Append.ofPiece]
    · rcases hpc with hpc | hpc <;> simp [nextAppend, ht, hpc, hwal, hs.wal]
  · have hdone : t.stepOnWorkingDisk s.sinks .ok = some (t', sinks') := by
      simpa [Task.stepOnWorkingDisk] using hstep
    have hcons := Task.step_conserves hdone
    rw [Sinks.stored, Sinks.stored, hcom] at hcons
    have hset := owedByTasks_set ht t'
    rw [← hs.balance]
    -- cancel the two shares of task `i` and what was committed before
    refine add_right_cancel (b := (t.owed : Multiset Event) + s.sinks.committed) ?_
    calc owedByTasks (s.tasks.set i t') + logged sinks'.wal + (t.owed + s.sinks.committed)
        = owedByTasks (s.tasks.set i t') + t.owed + (s.sinks.committed + logged sinks'.wal) := by
          abel
      _ = owedByTasks s.tasks + (t'.owed + (s.sinks.committed + logged sinks'.wal)) := by
          rw [hset]; abel
      _ = owedByTasks s.tasks + logged s.sinks.wal + (t.owed + s.sinks.committed) := by
          rw [hcons]; abel

theorem dumping_run {batches : List (List Event)} {schedule : List Nat} {s : Dumps Event}
    (h : dumps.run (.start batches) schedule = some s) :
    Dumping batches (appendsOf batches schedule) s := by
  refine dumps.run_induction
    (I := fun done t => Dumping batches (appendsOf batches done) t) (dumping_start batches) ?_ h
  intro done t i u ht hd hs
  rw [appendsOf, dumps.observations_concat _ ht]
  exact dumping_step hd hs

theorem walFile_ofPiece (serialize : Event → List UInt8) (appends : List (Piece Event)) :
    walFile serialize (appends.map Append.ofPiece) = file serialize appends := by
  rw [walFile, file, List.flatMap_map]
  refine List.flatMap_congr fun piece _ => ?_
  cases piece <;> rfl

theorem logged_ofPiece (appends : List (Piece Event)) :
    logged (appends.map Append.ofPiece) = records appends := by
  rw [logged, records, List.filterMap_map]
  refine List.filterMap_congr fun piece _ => ?_
  cases piece <;> rfl

/-- **When the log file can be read back.**  Any batches are dumped by concurrent
calls, in any order of their appends, to the end.  The lines of the file that are
not empty decode to exactly the dumped events if and only if, in the order of the
appends, no serialised event comes directly behind another one. -/
theorem wal_decodes_iff_separated {serialize : Event → List UInt8}
    {deserialize : List UInt8 → Option Event} (hline : OnOneLine serialize)
    (hjson : ∀ e, deserialize (serialize e) = some e) {batches : List (List Event)}
    {schedule : List Nat} {s : Dumps Event} (hrun : dumps.run (.start batches) schedule = some s)
    (hdone : ∀ t ∈ s.tasks, t.pc = .finished) :
    ((filledLines (walFile serialize s.sinks.wal)).map deserialize : Multiset (Option Event)) =
        batches.flatten.map some ↔ Separated (appendsOf batches schedule) := by
  have hd := dumping_run hrun
  have howed : owedByTasks s.tasks = 0 := by
    refine owedByTasks_eq_zero.mpr fun t ht => ?_
    rw [Task.owed, hdone t ht]
  have hlog : (records (appendsOf batches schedule) : Multiset Event) = batches.flatten := by
    rw [← hd.balance, howed, zero_add, hd.wal, logged_ofPiece]
  have hmap : ((batches.flatten.map some : List (Option Event)) : Multiset (Option Event)) =
      (records (appendsOf batches schedule)).map some := by
    rw [← Multiset.map_coe, ← Multiset.map_coe, hlog]
  rw [hd.wal, walFile_ofPiece, hmap]
  exact decoded_eq_records_iff hline hjson _

/-! ### Two calls -/

/-- An event that is one bit, and its JSON text `{0}` or `{1}`. -/
def bitToJson (b : Bool) : List UInt8 := [123, if b then 49 else 48, 125]

def bitFromJson (text : List UInt8) : Option Bool :=
  if text = [123, 48, 125] then some false else if text = [123, 49, 125] then some true else none

theorem onOneLine_bitToJson : OnOneLine bitToJson := ⟨by decide, by decide⟩

/-- Two calls one after the other can be read back. -/
theorem wal_decodes_sequential :
    ∃ s, dumps.run (.start [[false], [true]]) [0, 0, 0, 0, 1, 1, 1, 1] = some s ∧
      ((filledLines (walFile bitToJson s.sinks.wal)).map bitFromJson : Multiset (Option Bool)) =
        [[false], [true]].flatten.map some := by
  obtain ⟨s, hrun, hdone⟩ : ∃ s, dumps.run (.start [[false], [true]]) [0, 0, 0, 0, 1, 1, 1, 1] =
      some s ∧ ∀ t ∈ s.tasks, t.pc = .finished := ⟨_, rfl, by decide⟩
  refine ⟨s, hrun, (wal_decodes_iff_separated onOneLine_bitToJson (by decide) hrun hdone).mpr ?_⟩
  simp [Separated, appendsOf, Machine.observations, dumps, nextAppend, Dumps.start, Task.dumpToWal,
    Task.step]

/-- **Two calls can spoil each other's lines**: both append their event, then both
their newline, and the one line that is left decodes to nothing. -/
theorem wal_spoiled_interleaved :
    ∃ s, dumps.run (.start [[false], [true]]) [0, 1, 0, 1, 0, 1, 0, 1] = some s ∧
      (∀ t ∈ s.tasks, t.pc = .finished) ∧
      ((filledLines (walFile bitToJson s.sinks.wal)).map bitFromJson : Multiset (Option Bool)) ≠
        [[false], [true]].flatten.map some :=
  ⟨_, rfl, by decide, by decide⟩

end RustSamples.Siem
