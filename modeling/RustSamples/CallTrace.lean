import Mathlib.Logic.Basic

/-! # Programs that make calls

What a program does to its surroundings are the calls that it makes, and what it knows of them are
the answers.  The *surroundings* are a function: they answer a call by all that happened before.  So
a statement about all surroundings is one about every sequence of answers, and with surroundings
that are given, a program can be evaluated.

A *trace* is what happened so far.  `Returns` says that a program comes to an end, and what its
result and the trace are then; there is one rule for every way to build a program.
-/
namespace CallTrace

variable {Call : Type} (Answer : Call → Type)

/-- A call and its answer. -/
structure Event where
  call : Call
  answer : Answer call

abbrev Trace := List (Event Answer)

/-- What a call is answered with, after a trace. -/
def Surroundings := Trace Answer → (c : Call) → Answer c

/-- The result and the trace at the end; `none` if the fuel of a loop was used up. -/
def Program (α : Type) := Surroundings Answer → Trace Answer → Option (α × Trace Answer)

namespace Program
variable {Answer} {α β σ ι : Type}

instance : Monad (Program Answer) where
  pure a := fun _ t => some (a, t)
  bind p f := fun E t => (p E t).bind fun r => f r.1 E r.2

/-- Make a call. -/
def call (c : Call) : Program Answer (Answer c) := fun E t => some (E t c, t ++ [⟨c, E t c⟩])

/-- How many calls were made. -/
def position : Program Answer Nat := fun _ t => some (t.length, t)

/-- A loop over a list. -/
def forEach (body : ι → Program Answer Unit) : List ι → Program Answer Unit
  | [] => pure ()
  | i :: is => body i >>= fun _ => forEach body is

/-- A loop whose rounds say from where the next one begins, or that there is none. -/
def loop (body : σ → Program Answer (Option σ)) : Nat → σ → Program Answer Unit
  | 0, _ => fun _ _ => none
  | fuel + 1, s => body s >>= fun next =>
      match next with
      | some s => loop body fuel s
      | none => pure ()

/-- A loop whose rounds say from where the next one begins, or what the loop ends with. -/
def loopTo (body : σ → Program Answer (σ ⊕ α)) : Nat → σ → Program Answer α
  | 0, _ => fun _ _ => none
  | fuel + 1, s => body s >>= fun next =>
      match next with
      | .inl s => loopTo body fuel s
      | .inr a => pure a

/-! ## What is true at the end -/

section
variable (E : Surroundings Answer) {t : Trace Answer} {Q R : α → Trace Answer → Prop}

/-- **The program comes to an end**, and there `Q` is true of the result and of the trace. -/
def Returns (p : Program Answer α) (t : Trace Answer) (Q : α → Trace Answer → Prop) : Prop :=
  ∃ a t', p E t = some (a, t') ∧ Q a t'

variable {E}

theorem Returns.mono {p : Program Answer α} (h : p.Returns E t Q) (hQ : ∀ a t', Q a t' → R a t') :
    p.Returns E t R := by
  obtain ⟨a, t', hrun, hq⟩ := h
  exact ⟨a, t', hrun, hQ a t' hq⟩

/-- There is one end. -/
theorem Returns.and {p : Program Answer α} (hQ : p.Returns E t Q) (hR : p.Returns E t R) :
    p.Returns E t fun a t' => Q a t' ∧ R a t' := by
  obtain ⟨a, t', hrun, hq⟩ := hQ
  obtain ⟨b, u, hrun', hr⟩ := hR
  obtain ⟨rfl, rfl⟩ := Prod.mk.inj (Option.some.inj (hrun.symm.trans hrun'))
  exact ⟨a, t', hrun, hq, hr⟩

@[simp]
theorem returns_pure {a : α} : Returns E (pure a : Program Answer α) t Q ↔ Q a t := by
  constructor
  · rintro ⟨_, _, hrun, hq⟩
    cases hrun
    exact hq
  · exact fun hq => ⟨a, t, rfl, hq⟩

@[simp]
theorem returns_call {c : Call} {Q : Answer c → Trace Answer → Prop} :
    Returns E (call c) t Q ↔ Q (E t c) (t ++ [⟨c, E t c⟩]) := by
  constructor
  · rintro ⟨_, _, hrun, hq⟩
    cases hrun
    exact hq
  · exact fun hq => ⟨_, _, rfl, hq⟩

@[simp]
theorem returns_position {Q : Nat → Trace Answer → Prop} :
    Returns E position t Q ↔ Q t.length t := by
  constructor
  · rintro ⟨_, _, hrun, hq⟩
    cases hrun
    exact hq
  · exact fun hq => ⟨_, _, rfl, hq⟩

@[simp]
theorem returns_bind {p : Program Answer α} {f : α → Program Answer β}
    {Q : β → Trace Answer → Prop} :
    Returns E (p >>= f) t Q ↔ p.Returns E t fun a t' => (f a).Returns E t' Q := by
  constructor
  · rintro ⟨b, u, hrun, hq⟩
    obtain ⟨⟨a, t'⟩, hp, hf⟩ := Option.bind_eq_some_iff.1 hrun
    exact ⟨a, t', hp, b, u, hf, hq⟩
  · rintro ⟨a, t', hp, b, u, hf, hq⟩
    exact ⟨b, u, Option.bind_eq_some_iff.2 ⟨(a, t'), hp, hf⟩, hq⟩

/-- A call, whatever it is answered with. -/
theorem returns_call_bind {c : Call} {f : Answer c → Program Answer β}
    {Q : β → Trace Answer → Prop}
    (h : ∀ a, E t c = a → (f a).Returns E (t ++ [⟨c, a⟩]) Q) : Returns E (call c >>= f) t Q :=
  returns_bind.2 (returns_call.2 (h _ rfl))

/-- **The rule for a loop over a list**: what every round keeps is kept. -/
theorem returns_forEach {I : Trace Answer → Prop} {body : ι → Program Answer Unit} {is : List ι}
    (hround : ∀ i ∈ is, ∀ t, I t → (body i).Returns E t fun _ t' => I t') (hI : I t) :
    (forEach body is).Returns E t fun _ t' => I t' := by
  induction is generalizing t with
  | nil => exact returns_pure.2 hI
  | cons i is ih =>
    refine returns_bind.2 ((hround i List.mem_cons_self t hI).mono fun _ u hu => ?_)
    exact ih (fun j hj => hround j (List.mem_cons_of_mem i hj)) hu

theorem returns_loop_succ {body : σ → Program Answer (Option σ)} {fuel : Nat} {s : σ}
    {Q : Unit → Trace Answer → Prop} :
    (loop body (fuel + 1) s).Returns E t Q ↔ (body s).Returns E t fun next t' =>
      next.elim (Q () t') fun s' => (loop body fuel s').Returns E t' Q := by
  rw [loop, returns_bind]
  constructor
  · refine fun h => h.mono fun next t' hnext => ?_
    cases next with
    | none => exact returns_pure.1 hnext
    | some s' => exact hnext
  · refine fun h => h.mono fun next t' hnext => ?_
    cases next with
    | none => exact returns_pure.2 hnext
    | some s' => exact hnext

theorem returns_loopTo_succ {body : σ → Program Answer (σ ⊕ α)} {fuel : Nat} {s : σ} :
    (loopTo body (fuel + 1) s).Returns E t Q ↔ (body s).Returns E t fun next t' =>
      next.elim (fun s' => (loopTo body fuel s').Returns E t' Q) fun a => Q a t' := by
  rw [loopTo, returns_bind]
  constructor
  · refine fun h => h.mono fun next t' hnext => ?_
    cases next with
    | inl s' => exact hnext
    | inr a => exact returns_pure.1 hnext
  · refine fun h => h.mono fun next t' hnext => ?_
    cases next with
    | inl s' => exact hnext
    | inr a => exact returns_pure.2 hnext

/-- **The rule for a loop**: with an invariant that every round keeps, and a rank that every round
but the last one lowers, it comes to an end. -/
theorem returns_loop {I : σ → Trace Answer → Prop} (rank : σ → Nat)
    {body : σ → Program Answer (Option σ)} {Q : Unit → Trace Answer → Prop}
    (hround : ∀ s t, I s t → (body s).Returns E t fun next t' =>
      next.elim (Q () t') fun s' => I s' t' ∧ rank s' < rank s)
    {fuel : Nat} {s : σ} (hI : I s t) (hfuel : rank s < fuel) :
    (loop body fuel s).Returns E t Q := by
  induction fuel generalizing s t with
  | zero => exact absurd hfuel (Nat.not_lt_zero _)
  | succ fuel ih =>
    refine returns_loop_succ.2 ((hround s t hI).mono fun next t' hnext => ?_)
    cases next with
    | none => exact hnext
    | some s' => exact ih hnext.1 (Nat.lt_of_lt_of_le hnext.2 (Nat.le_of_lt_succ hfuel))

end

end Program

end CallTrace
