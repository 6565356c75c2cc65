import Mathlib.Data.List.Basic
import RustSamples.Machine

/-! # Copying from one stream to the next

A stream has one end that is written to and closed, and one end that is read from: what is read is a
front part of what was written.  A *hop* copies from a stream to the next through a buffer, in
pieces of any size.  It finishes when its input has ended and its buffer is empty, or it fails; in
both cases its output is closed, so that the reader of the output cannot tell one from the other.

A *chain* has any number of hops.  What comes out at its end is a front part of what went in
(`Linked.written_isPrefix`), whatever fails; and where all hops have finished, it is all of it
(`Linked.whole_of_finished`).

A stream has no size here, so that a write never waits, and a chain can do all that one with streams
of a size can do.  What some run is to do must be shown within a size, by `Machine.restrict`.
-/
namespace Relay
open Scheduling

variable {α : Type}

/-! ## Streams and hops -/

/-- A stream: what was read, what was written and not yet read, and whether it is closed. -/
structure Pipe (α : Type) where
  read : List α
  pending : List α
  closed : Bool
  deriving DecidableEq

namespace Pipe

def empty : Pipe α := ⟨[], [], false⟩

/-- All that was written. -/
def written (p : Pipe α) : List α := p.read ++ p.pending

def write (p : Pipe α) (data : List α) : Pipe α := { p with pending := p.pending ++ data }

def close (p : Pipe α) : Pipe α := { p with closed := true }

/-- The reader takes a piece. -/
def take (p : Pipe α) (k : Nat) : Pipe α :=
  { p with read := p.read ++ p.pending.take k, pending := p.pending.drop k }

@[simp] theorem written_empty : (empty : Pipe α).written = [] := rfl

@[simp] theorem written_write (p : Pipe α) (data : List α) :
    (p.write data).written = p.written ++ data :=
  (List.append_assoc ..).symm

@[simp] theorem written_close (p : Pipe α) : p.close.written = p.written := rfl

@[simp] theorem written_take (p : Pipe α) (k : Nat) : (p.take k).written = p.written := by
  simp [written, take]

@[simp] theorem closed_take (p : Pipe α) (k : Nat) : (p.take k).closed = p.closed := rfl

@[simp] theorem closed_write (p : Pipe α) (data : List α) : (p.write data).closed = p.closed := rfl

theorem read_isPrefix (p : Pipe α) : p.read <+: p.written := List.prefix_append _ _

end Pipe

inductive HopState
  | running
  | finished
  | failed
  deriving DecidableEq

/-- A copy into `out`. -/
structure Hop (α : Type) where
  buffer : List α
  state : HopState
  out : Pipe α
  deriving DecidableEq

inductive HopOp
  /-- a piece of the input into the buffer -/
  | fill (k : Nat)
  /-- a piece of the buffer into the output -/
  | drain (k : Nat)
  | finish
  | fail
  deriving DecidableEq

/-- The state that a running hop is in after this. -/
def HopOp.next : HopOp → HopState
  | .fill _ | .drain _ => .running
  | .finish => .finished
  | .fail => .failed

namespace Hop

def start : Hop α := ⟨[], .running, .empty⟩

/-- What the hop does, with `p` as its input. -/
def act (p : Pipe α) (h : Hop α) : HopOp → Option (Pipe α × Hop α)
  | .fill k =>
      if h.state = .running then
        some (p.take k, { h with buffer := h.buffer ++ p.pending.take k })
      else none
  | .drain k =>
      if h.state = .running then
        some (p, { h with buffer := h.buffer.drop k, out := h.out.write (h.buffer.take k) })
      else none
  | .finish =>
      if h.state = .running ∧ p.closed ∧ p.pending.isEmpty ∧ h.buffer.isEmpty then
        some (p, { h with state := .finished, out := h.out.close })
      else none
  | .fail =>
      if h.state = .running then some (p, { h with state := .failed, out := h.out.close })
      else none

theorem state_act {p p' : Pipe α} {h h' : Hop α} {op : HopOp} (hact : h.act p op = some (p', h')) :
    h.state = .running ∧ h'.state = op.next := by
  cases op with
  | fill k =>
    obtain ⟨hrun, heq⟩ := Option.ite_none_right_eq_some.1 hact
    obtain ⟨-, rfl⟩ := Prod.mk.inj (Option.some.inj heq)
    exact ⟨hrun, hrun⟩
  | drain k =>
    obtain ⟨hrun, heq⟩ := Option.ite_none_right_eq_some.1 hact
    obtain ⟨-, rfl⟩ := Prod.mk.inj (Option.some.inj heq)
    exact ⟨hrun, hrun⟩
  | finish =>
    obtain ⟨⟨hrun, -⟩, heq⟩ := Option.ite_none_right_eq_some.1 hact
    obtain ⟨-, rfl⟩ := Prod.mk.inj (Option.some.inj heq)
    exact ⟨hrun, rfl⟩
  | fail =>
    obtain ⟨hrun, heq⟩ := Option.ite_none_right_eq_some.1 hact
    obtain ⟨-, rfl⟩ := Prod.mk.inj (Option.some.inj heq)
    exact ⟨hrun, rfl⟩

end Hop

/-- The hop `i` of a chain that begins with the stream `p`. -/
def actAt (op : HopOp) : Nat → Pipe α → List (Hop α) → Option (Pipe α × List (Hop α))
  | _, _, [] => none
  | 0, p, h :: hs => (h.act p op).map fun r => (r.1, r.2 :: hs)
  | i + 1, p, h :: hs => (actAt op i h.out hs).map fun r => (p, { h with out := r.1 } :: r.2)

/-- The stream at the end. -/
def lastPipe : Pipe α → List (Hop α) → Pipe α
  | p, [] => p
  | _, h :: hs => lastPipe h.out hs

/-- Who reads at the end takes a piece. -/
def takeLast (k : Nat) : Pipe α → List (Hop α) → Pipe α × List (Hop α)
  | p, [] => (p.take k, [])
  | p, h :: hs =>
      let r := takeLast k h.out hs
      (p, { h with out := r.1 } :: r.2)

/-! ## What comes out -/

/-- What is true of a hop and its input: what it read is what it wrote and what it holds; its output
is closed when it has stopped; and if it finished, its input had ended. -/
structure Hop.Faithful (p : Pipe α) (h : Hop α) : Prop where
  moved : p.read = h.out.written ++ h.buffer
  closed : h.out.closed = true ↔ h.state ≠ .running
  ended : h.state = .finished → p.closed = true ∧ p.pending = [] ∧ h.buffer = []

/-- Every hop of the chain is faithful to its input. -/
def Linked : Pipe α → List (Hop α) → Prop
  | _, [] => True
  | p, h :: hs => h.Faithful p ∧ Linked h.out hs

theorem Hop.faithful_start {p : Pipe α} (h : p.read = []) : (Hop.start : Hop α).Faithful p where
  moved := h
  closed := by simp [Hop.start, Pipe.empty]
  ended hf := by cases hf

/-- Where nothing is left, all went out. -/
theorem Hop.Faithful.written_eq {p : Pipe α} {h : Hop α} (hf : h.Faithful p)
    (hpending : p.pending = []) (hbuffer : h.buffer = []) : h.out.written = p.written := by
  have hread : p.written = p.read := by rw [Pipe.written, hpending, List.append_nil]
  rw [hread, hf.moved, hbuffer, List.append_nil]

/-- An output with the same content, and as closed as before. -/
theorem Hop.Faithful.replaceOut {p : Pipe α} {h : Hop α} (hf : h.Faithful p) {out : Pipe α}
    (hwritten : out.written = h.out.written) (hclosed : out.closed = h.out.closed) :
    ({ h with out } : Hop α).Faithful p where
  moved := hf.moved.trans (congrArg (· ++ h.buffer) hwritten.symm)
  closed := (iff_of_eq (congrArg (· = true) hclosed)).trans hf.closed
  ended := hf.ended

/-- An input to which more was written, or which was closed; a stream that was closed is left
alone. -/
theorem Hop.Faithful.replaceIn {p p' : Pipe α} {h : Hop α} (hf : h.Faithful p)
    (hread : p'.read = p.read) (hclosed : p.closed = true → p' = p) : h.Faithful p' where
  moved := hread.trans hf.moved
  closed := hf.closed
  ended hs := hclosed (hf.ended hs).1 ▸ hf.ended hs

theorem Linked.replaceIn {p p' : Pipe α} {hs : List (Hop α)} (h : Linked p hs)
    (hread : p'.read = p.read) (hclosed : p.closed = true → p' = p) : Linked p' hs := by
  cases hs with
  | nil => trivial
  | cons hop hs => exact ⟨h.1.replaceIn hread hclosed, h.2⟩

/-- What a hop does keeps it faithful, and says to the next hop only what its input may say. -/
theorem Hop.Faithful.act {p p' : Pipe α} {h h' : Hop α} {op : HopOp} (hf : h.Faithful p)
    (hact : h.act p op = some (p', h')) :
    h'.Faithful p' ∧ (p'.written = p.written ∧ p'.closed = p.closed) ∧
      h'.out.read = h.out.read ∧ (h.out.closed = true → h'.out = h.out) := by
  have hopen (hrun : h.state = .running) : ¬ h.out.closed = true := fun hc => hf.closed.1 hc hrun
  cases op with
  | fill k =>
    obtain ⟨hrun, heq⟩ := Option.ite_none_right_eq_some.1 hact
    obtain ⟨rfl, rfl⟩ := Prod.mk.inj (Option.some.inj heq)
    refine ⟨⟨?_, hf.closed, fun hs => ?_⟩, ⟨p.written_take k, rfl⟩, rfl, fun _ => rfl⟩
    · change p.read ++ p.pending.take k = h.out.written ++ (h.buffer ++ p.pending.take k)
      rw [hf.moved, List.append_assoc]
    · rw [hrun] at hs
      cases hs
  | drain k =>
    obtain ⟨hrun, heq⟩ := Option.ite_none_right_eq_some.1 hact
    obtain ⟨rfl, rfl⟩ := Prod.mk.inj (Option.some.inj heq)
    refine ⟨⟨?_, hf.closed, fun hs => ?_⟩, ⟨rfl, rfl⟩, rfl, fun hc => absurd hc (hopen hrun)⟩
    · rw [Pipe.written_write, List.append_assoc, List.take_append_drop]
      exact hf.moved
    · rw [hrun] at hs
      cases hs
  | finish =>
    obtain ⟨⟨hrun, hclosed, hpending, hbuffer⟩, heq⟩ := Option.ite_none_right_eq_some.1 hact
    obtain ⟨rfl, rfl⟩ := Prod.mk.inj (Option.some.inj heq)
    refine ⟨⟨hf.moved, by simp [Pipe.close], fun _ => ⟨hclosed, List.isEmpty_iff.1 hpending,
      List.isEmpty_iff.1 hbuffer⟩⟩, ⟨rfl, rfl⟩, rfl, fun hc => absurd hc (hopen hrun)⟩
  | fail =>
    obtain ⟨hrun, heq⟩ := Option.ite_none_right_eq_some.1 hact
    obtain ⟨rfl, rfl⟩ := Prod.mk.inj (Option.some.inj heq)
    refine ⟨⟨hf.moved, by simp [Pipe.close], fun hs => ?_⟩, ⟨rfl, rfl⟩, rfl,
      fun hc => absurd hc (hopen hrun)⟩
    cases hs

/-- A hop of a chain, wherever it is. -/
theorem Linked.actAt {op : HopOp} {i : Nat} {p p' : Pipe α} {hs hs' : List (Hop α)}
    (h : Linked p hs) (hact : actAt op i p hs = some (p', hs')) :
    Linked p' hs' ∧ p'.written = p.written ∧ p'.closed = p.closed := by
  induction hs generalizing i p p' hs' with
  | nil => cases i <;> cases hact
  | cons hop hs ih =>
    cases i with
    | zero =>
      obtain ⟨⟨p₁, hop₁⟩, hhop, heq⟩ := Option.map_eq_some_iff.1 hact
      obtain ⟨rfl, rfl⟩ := Prod.mk.inj heq
      obtain ⟨hf, hin, hread, hclosed⟩ := h.1.act hhop
      exact ⟨⟨hf, h.2.replaceIn hread hclosed⟩, hin⟩
    | succ i =>
      obtain ⟨⟨out, hs₁⟩, hrest, heq⟩ := Option.map_eq_some_iff.1 hact
      obtain ⟨rfl, rfl⟩ := Prod.mk.inj heq
      obtain ⟨hlinked, hwritten, hclosed⟩ := ih h.2 hrest
      exact ⟨⟨h.1.replaceOut hwritten hclosed, hlinked⟩, rfl, rfl⟩

theorem Linked.takeLast {p : Pipe α} {hs : List (Hop α)} (h : Linked p hs) (k : Nat) :
    Linked (takeLast k p hs).1 (takeLast k p hs).2 ∧
      (Relay.takeLast k p hs).1.written = p.written ∧
      (Relay.takeLast k p hs).1.closed = p.closed := by
  induction hs generalizing p with
  | nil => exact ⟨trivial, p.written_take k, rfl⟩
  | cons hop hs ih =>
    obtain ⟨hlinked, hwritten, hclosed⟩ := ih h.2
    exact ⟨⟨h.1.replaceOut hwritten hclosed, hlinked⟩, rfl, rfl⟩

/-- **Nothing is lost in between, changed or put in**: what comes out is a front part. -/
theorem Linked.written_isPrefix {p : Pipe α} {hs : List (Hop α)} (h : Linked p hs) :
    (lastPipe p hs).written <+: p.written := by
  induction hs generalizing p with
  | nil => exact List.prefix_rfl
  | cons hop hs ih =>
    have hmoved : hop.out.written <+: p.read := ⟨hop.buffer, h.1.moved.symm⟩
    exact ((ih h.2).trans hmoved).trans p.read_isPrefix

theorem Linked.whole_of_finished {p : Pipe α} {hs : List (Hop α)} (h : Linked p hs)
    (hfinished : ∀ hop ∈ hs, hop.state = .finished) : (lastPipe p hs).written = p.written := by
  induction hs generalizing p with
  | nil => rfl
  | cons hop hs ih =>
    have hrest := ih h.2 fun hop' hmem => hfinished hop' (List.mem_cons_of_mem _ hmem)
    obtain ⟨-, hpending, hbuffer⟩ := h.1.ended (hfinished hop List.mem_cons_self)
    exact hrest.trans (h.1.written_eq hpending hbuffer)

theorem lastPipe_append (p : Pipe α) (hs hs' : List (Hop α)) :
    lastPipe p (hs ++ hs') = lastPipe (lastPipe p hs) hs' := by
  induction hs generalizing p with
  | nil => rfl
  | cons hop hs ih => exact ih hop.out

theorem Linked.append {p : Pipe α} {hs hs' : List (Hop α)} :
    Linked p (hs ++ hs') ↔ Linked p hs ∧ Linked (lastPipe p hs) hs' := by
  induction hs generalizing p with
  | nil => exact ⟨fun h => ⟨trivial, h⟩, fun h => h.2⟩
  | cons hop hs ih => exact (and_congr_right fun _ => ih).trans and_assoc.symm

/-- A hop finishes when its input is closed, so the hop before it has stopped. -/
theorem Linked.stopped_before {i : Nat} {p : Pipe α} {hs : List (Hop α)} (h : Linked p hs)
    (hfinished : (hs.map Hop.state)[i + 1]? = some .finished) :
    ∃ state, (hs.map Hop.state)[i]? = some state ∧ state ≠ .running := by
  induction hs generalizing i p with
  | nil => cases hfinished
  | cons hop hs ih =>
    cases i with
    | succ i => exact ih h.2 hfinished
    | zero =>
      cases hs with
      | nil => cases hfinished
      | cons hop' hs =>
        have hended := h.2.1.ended (Option.some.inj hfinished)
        exact ⟨hop.state, rfl, h.1.closed.1 hended.1⟩

/-- Only a running hop acts, and the others stay in their states. -/
theorem states_actAt {op : HopOp} {i : Nat} {p p' : Pipe α} {hs hs' : List (Hop α)}
    (hact : actAt op i p hs = some (p', hs')) :
    (hs.map Hop.state)[i]? = some .running ∧
      hs'.map Hop.state = (hs.map Hop.state).set i op.next := by
  induction hs generalizing i p p' hs' with
  | nil => cases i <;> cases hact
  | cons hop hs ih =>
    cases i with
    | zero =>
      obtain ⟨⟨p₁, hop₁⟩, hhop, heq⟩ := Option.map_eq_some_iff.1 hact
      obtain ⟨rfl, rfl⟩ := Prod.mk.inj heq
      obtain ⟨hrun, hnext⟩ := hop.state_act hhop
      exact ⟨congrArg some hrun, congrArg (· :: hs.map Hop.state) hnext⟩
    | succ i =>
      obtain ⟨⟨out, hs₁⟩, hrest, heq⟩ := Option.map_eq_some_iff.1 hact
      obtain ⟨rfl, rfl⟩ := Prod.mk.inj heq
      obtain ⟨hrun, hnext⟩ := ih hrest
      exact ⟨hrun, congrArg (hop.state :: ·) hnext⟩

theorem states_takeLast (k : Nat) (p : Pipe α) (hs : List (Hop α)) :
    (takeLast k p hs).2.map Hop.state = hs.map Hop.state := by
  induction hs generalizing p with
  | nil => rfl
  | cons hop hs ih => exact congrArg (hop.state :: ·) (ih hop.out)

theorem written_lastPipe {p p' : Pipe α} (h : p'.written = p.written) (hs : List (Hop α)) :
    (lastPipe p' hs).written = (lastPipe p hs).written := by
  cases hs with
  | nil => exact h
  | cons hop hs => rfl

/-- What no hop drains, nobody sees at the end. -/
theorem written_lastPipe_actAt {op : HopOp} (hop : ∀ k, op ≠ .drain k) {i : Nat} {p p' : Pipe α}
    {hs hs' : List (Hop α)} (hact : actAt op i p hs = some (p', hs')) :
    (lastPipe p' hs').written = (lastPipe p hs).written := by
  induction hs generalizing i p p' hs' with
  | nil => cases i <;> cases hact
  | cons h hs ih =>
    cases i with
    | zero =>
      obtain ⟨⟨p₁, h₁⟩, hhop, heq⟩ := Option.map_eq_some_iff.1 hact
      obtain ⟨rfl, rfl⟩ := Prod.mk.inj heq
      change (lastPipe h₁.out hs).written = (lastPipe h.out hs).written
      apply written_lastPipe
      cases op with
      | drain k => exact absurd rfl (hop k)
      | _ =>
        obtain ⟨-, heq⟩ := Option.ite_none_right_eq_some.1 hhop
        obtain ⟨-, rfl⟩ := Prod.mk.inj (Option.some.inj heq)
        rfl
    | succ i =>
      obtain ⟨⟨out, hs₁⟩, hrest, heq⟩ := Option.map_eq_some_iff.1 hact
      obtain ⟨rfl, rfl⟩ := Prod.mk.inj heq
      change (lastPipe out hs₁).written = (lastPipe h.out hs).written
      exact ih hrest

/-- What no hop fills is still in the first stream. -/
theorem source_actAt {op : HopOp} (hop : ∀ k, op ≠ .fill k) {i : Nat} {p p' : Pipe α}
    {hs hs' : List (Hop α)} (hact : actAt op i p hs = some (p', hs')) : p' = p := by
  cases hs with
  | nil => cases i <;> cases hact
  | cons h hs =>
    cases i with
    | zero =>
      obtain ⟨⟨p₁, h₁⟩, hhop, heq⟩ := Option.map_eq_some_iff.1 hact
      obtain ⟨rfl, rfl⟩ := Prod.mk.inj heq
      cases op with
      | fill k => exact absurd rfl (hop k)
      | _ =>
        obtain ⟨-, heq⟩ := Option.ite_none_right_eq_some.1 hhop
        exact (Prod.mk.inj (Option.some.inj heq)).1.symm
    | succ i =>
      obtain ⟨r, -, heq⟩ := Option.map_eq_some_iff.1 hact
      exact (Prod.mk.inj heq).1.symm

theorem written_lastPipe_takeLast (k : Nat) (p : Pipe α) (hs : List (Hop α)) :
    (lastPipe (takeLast k p hs).1 (takeLast k p hs).2).written = (lastPipe p hs).written := by
  induction hs generalizing p with
  | nil => exact p.written_take k
  | cons hop hs ih => exact ih hop.out

/-- A hop that runs can fail. -/
theorem exists_actAt_fail {i : Nat} {p : Pipe α} {hs : List (Hop α)}
    (hrun : (hs.map Hop.state)[i]? = some .running) : ∃ r, actAt .fail i p hs = some r := by
  induction hs generalizing i p with
  | nil => cases hrun
  | cons hop hs ih =>
    cases i with
    | zero =>
      have hstate : hop.state = .running := Option.some.inj hrun
      exact ⟨_, Option.map_eq_some_iff.2 ⟨_, if_pos hstate, rfl⟩⟩
    | succ i =>
      obtain ⟨r, hr⟩ := ih (i := i) (p := hop.out) hrun
      exact ⟨_, Option.map_eq_some_iff.2 ⟨r, hr, rfl⟩⟩

/-! ## Chains -/

structure Chain (α : Type) where
  source : Pipe α
  hops : List (Hop α)
  deriving DecidableEq

inductive ChainOp (α : Type)
  /-- who is at the beginning writes -/
  | write (data : List α)
  | close
  | hop (i : Nat) (op : HopOp)
  /-- who is at the end reads -/
  | take (k : Nat)
  deriving DecidableEq

namespace Chain

/-- A chain of `n` hops that begins with this stream. -/
def start (source : Pipe α) (n : Nat) : Chain α := ⟨source, List.replicate n .start⟩

def sink (c : Chain α) : Pipe α := lastPipe c.source c.hops

/-- The stream behind the first `i` hops. -/
def pipe (c : Chain α) (i : Nat) : Pipe α := lastPipe c.source (c.hops.take i)

def ofPair (r : Pipe α × List (Hop α)) : Chain α := ⟨r.1, r.2⟩

def step (c : Chain α) : ChainOp α → Option (Chain α)
  | .write data => if c.source.closed then none else some { c with source := c.source.write data }
  | .close => if c.source.closed then none else some { c with source := c.source.close }
  | .hop i op => (actAt op i c.source c.hops).map ofPair
  | .take k => some (ofPair (takeLast k c.source c.hops))

/-- The hop `i` fails, if it has not stopped. -/
def failAt (c : Chain α) (i : Nat) : Chain α := (c.step (.hop i .fail)).getD c

/-- Where the hops stand. -/
def states (c : Chain α) : List HopState := c.hops.map Hop.state

def Linked (c : Chain α) : Prop := Relay.Linked c.source c.hops

@[simp] theorem states_start (source : Pipe α) (n : Nat) :
    (start source n).states = List.replicate n .running :=
  List.map_replicate

/-- What one step of a hop does to its chain, as far as others can see. -/
theorem step_hop {c c' : Chain α} {i : Nat} {op : HopOp} (hstep : c.step (.hop i op) = some c') :
    c.states[i]? = some .running ∧ c'.states = c.states.set i op.next := by
  obtain ⟨r, hact, rfl⟩ := Option.map_eq_some_iff.1 hstep
  exact states_actAt hact

theorem linked_start {source : Pipe α} (h : source.read = []) (n : Nat) :
    (start source n).Linked := by
  induction n generalizing source with
  | zero => trivial
  | succ n ih => exact ⟨Hop.faithful_start h, ih rfl⟩

theorem Linked.step {c c' : Chain α} {op : ChainOp α} (h : c.Linked) (hstep : c.step op = some c') :
    c'.Linked := by
  cases op with
  | write data =>
    by_cases hclosed : c.source.closed
    · rw [Chain.step, if_pos hclosed] at hstep
      cases hstep
    · rw [Chain.step, if_neg hclosed] at hstep
      obtain rfl := Option.some.inj hstep
      exact Relay.Linked.replaceIn h rfl fun hc => absurd hc hclosed
  | close =>
    by_cases hclosed : c.source.closed
    · rw [Chain.step, if_pos hclosed] at hstep
      cases hstep
    · rw [Chain.step, if_neg hclosed] at hstep
      obtain rfl := Option.some.inj hstep
      exact Relay.Linked.replaceIn h rfl fun hc => absurd hc hclosed
  | hop i op =>
    obtain ⟨r, hact, rfl⟩ := Option.map_eq_some_iff.1 hstep
    exact (Relay.Linked.actAt h hact).1
  | take k =>
    obtain rfl := Option.some.inj hstep
    exact (Relay.Linked.takeLast h k).1

/-- Where the hops stand after a step. -/
theorem states_step {c c' : Chain α} {op : ChainOp α} (hstep : c.step op = some c') :
    c'.states = match op with
      | .hop i op => c.states.set i op.next
      | _ => c.states := by
  cases op with
  | write data =>
    obtain ⟨-, heq⟩ := Option.ite_none_left_eq_some.1 hstep
    obtain rfl := Option.some.inj heq
    rfl
  | close =>
    obtain ⟨-, heq⟩ := Option.ite_none_left_eq_some.1 hstep
    obtain rfl := Option.some.inj heq
    rfl
  | take k =>
    obtain rfl := Option.some.inj hstep
    exact states_takeLast k c.source c.hops
  | hop i op => exact (step_hop hstep).2

theorem Linked.source_hop {c c' : Chain α} {i : Nat} {op : HopOp} (h : c.Linked)
    (hstep : c.step (.hop i op) = some c') :
    c'.source.written = c.source.written ∧ c'.source.closed = c.source.closed := by
  obtain ⟨r, hact, rfl⟩ := Option.map_eq_some_iff.1 hstep
  exact (Relay.Linked.actAt h hact).2

/-- Only who is at the beginning adds to what was written. -/
theorem Linked.source_step {c c' : Chain α} {op : ChainOp α} (h : c.Linked)
    (hwrite : ∀ data, op ≠ .write data) (hstep : c.step op = some c') :
    c'.source.written = c.source.written := by
  cases op with
  | write data => exact absurd rfl (hwrite data)
  | close =>
    obtain ⟨-, heq⟩ := Option.ite_none_left_eq_some.1 hstep
    obtain rfl := Option.some.inj heq
    rfl
  | take k =>
    obtain rfl := Option.some.inj hstep
    exact (Relay.Linked.takeLast h k).2.1
  | hop i op => exact (h.source_hop hstep).1

/-- What came out of the chain is a front part of what went in. -/
theorem Linked.sink_isPrefix {c : Chain α} (h : c.Linked) :
    c.sink.written <+: c.source.written :=
  Relay.Linked.written_isPrefix h

theorem sink_eq_lastPipe (c : Chain α) (i : Nat) :
    c.sink = lastPipe (c.pipe i) (c.hops.drop i) := by
  rw [sink, pipe, ← lastPipe_append, List.take_append_drop]

/-- A chain is two chains, wherever it is cut. -/
theorem Linked.split {c : Chain α} (h : c.Linked) (i : Nat) :
    Relay.Linked c.source (c.hops.take i) ∧ Relay.Linked (c.pipe i) (c.hops.drop i) := by
  apply Relay.Linked.append.1
  rw [List.take_append_drop]
  exact h

theorem Linked.stopped_before {c : Chain α} (h : c.Linked) {i : Nat}
    (hfinished : c.states[i + 1]? = some .finished) :
    ∃ state, c.states[i]? = some state ∧ state ≠ .running :=
  Relay.Linked.stopped_before h hfinished

/-- Before hops that have finished there is what came out. -/
theorem Linked.sink_eq_pipe {c : Chain α} (h : c.Linked) {i : Nat}
    (hstates : ∀ state ∈ c.states.drop i, state = .finished) :
    c.sink.written = (c.pipe i).written := by
  rw [c.sink_eq_lastPipe i]
  refine (h.split i).2.whole_of_finished fun hop hmem => hstates _ ?_
  rw [states, ← List.map_drop]
  exact List.mem_map_of_mem hmem

/-- Behind hops that have finished there is what went in. -/
theorem Linked.pipe_whole {c : Chain α} (h : c.Linked) {i : Nat}
    (hstates : ∀ state ∈ c.states.take i, state = .finished) :
    (c.pipe i).written = c.source.written := by
  refine (h.split i).1.whole_of_finished fun hop hmem => hstates _ ?_
  rw [states, ← List.map_take]
  exact List.mem_map_of_mem hmem

theorem Linked.failAt {c : Chain α} (h : c.Linked) (i : Nat) : (c.failAt i).Linked := by
  unfold Chain.failAt
  cases hstep : c.step (.hop i .fail) with
  | none => exact h
  | some c' => exact h.step hstep

/-- What a failure changes: the hop that was running. -/
theorem failAt_spec (c : Chain α) (i : Nat) :
    (c.failAt i).sink.written = c.sink.written ∧ (c.failAt i).source = c.source ∧
      (c.failAt i).states =
        if c.states[i]? = some .running then c.states.set i .failed else c.states := by
  unfold failAt
  by_cases hrun : c.states[i]? = some .running
  · obtain ⟨r, hr⟩ := exists_actAt_fail (p := c.source) hrun
    have hstep : c.step (.hop i .fail) = some (ofPair r) := Option.map_eq_some_iff.2 ⟨r, hr, rfl⟩
    rw [hstep, if_pos hrun]
    have hfill (k : Nat) : HopOp.fail ≠ .fill k := nofun
    have hdrain (k : Nat) : HopOp.fail ≠ .drain k := nofun
    exact ⟨written_lastPipe_actAt hdrain hr, source_actAt hfill hr, (step_hop hstep).2⟩
  · have hstep : c.step (.hop i .fail) = none := by
      by_contra hsome
      obtain ⟨c', hc'⟩ := Option.ne_none_iff_exists'.1 hsome
      exact hrun (step_hop hc').1
    rw [hstep, if_neg hrun]
    exact ⟨rfl, rfl, rfl⟩

/-- What a step lets the end see, if it drains nothing. -/
theorem sink_step {c c' : Chain α} {op : ChainOp α} (hdrain : ∀ i k, op ≠ .hop i (.drain k))
    (hhops : c.hops ≠ []) (hstep : c.step op = some c') : c'.sink.written = c.sink.written := by
  obtain ⟨p, hs⟩ := c
  cases op with
  | write data =>
    obtain ⟨-, heq⟩ := Option.ite_none_left_eq_some.1 hstep
    obtain rfl := Option.some.inj heq
    cases hs with
    | nil => exact absurd rfl hhops
    | cons h hs => rfl
  | close =>
    obtain ⟨-, heq⟩ := Option.ite_none_left_eq_some.1 hstep
    obtain rfl := Option.some.inj heq
    exact written_lastPipe p.written_close hs
  | take k =>
    obtain rfl := Option.some.inj hstep
    exact written_lastPipe_takeLast k p hs
  | hop i op =>
    obtain ⟨r, hact, rfl⟩ := Option.map_eq_some_iff.1 hstep
    exact written_lastPipe_actAt (fun k hk => hdrain i k (hk ▸ rfl)) hact

end Chain

end Relay
