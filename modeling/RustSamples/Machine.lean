import Mathlib.Algebra.BigOperators.Group.List.Basic
import Mathlib.Data.List.Induction
import Mathlib.Data.List.Infix

/-! # Machines driven by a schedule

A concurrent program is modelled as a machine whose choices are all in its
input: `step s a` is the state after the atomic action `a`, or `none` when `a`
is not enabled in `s`.  A *schedule* is a list of actions, and quantifying over
schedules is quantifying over interleavings, failures, clock readings and
messages alike.  Because `step` is a function, a schedule can be evaluated.

`run_induction` is the one induction rule: what holds of the initial state with
the empty schedule, and is kept by one enabled action, holds after every run.
`exists_run_of_rank` is the rule for progress.
`observations` reads a log off a run, action by action.  `restrict` keeps a machine within a
condition, such as the size of a buffer; its runs are runs of the machine.

Tasks that run side by side are a list, the pool; a step of one task replaces its
entry.  `sum_map_set` and `countP_set_add` say what that does to a total over the
pool; `placesOf` are the places of the tasks with a property.
-/
namespace Scheduling

/-- A machine with states `σ` and atomic actions `ι`. -/
structure Machine (σ ι : Type) where
  step : σ → ι → Option σ

namespace Machine
variable {σ ι ω : Type} (M : Machine σ ι)

/-- The state after a whole schedule; `none` if some action was not enabled. -/
def run : σ → List ι → Option σ
  | s, [] => some s
  | s, a :: as => (M.step s a).bind fun t => run t as

@[simp] theorem run_nil (s : σ) : M.run s [] = some s := rfl

theorem run_singleton (s : σ) (a : ι) : M.run s [a] = M.step s a :=
  Option.bind_fun_some _

theorem run_append (s : σ) (as bs : List ι) :
    M.run s (as ++ bs) = (M.run s as).bind fun t => M.run t bs := by
  induction as generalizing s with
  | nil => rfl
  | cons a as ih =>
    cases h : M.step s a with
    | none => simp [run, h]
    | some t => simpa [run, h] using ih t

/-- A run is made of runs. -/
theorem run_trans {s t u : σ} {as bs : List ι} (h : M.run s as = some t)
    (h' : M.run t bs = some u) : M.run s (as ++ bs) = some u := by
  rw [run_append, h]
  exact h'

theorem run_cons {s t u : σ} {a : ι} {as : List ι} (h : M.step s a = some t)
    (h' : M.run t as = some u) : M.run s (a :: as) = some u :=
  M.run_trans ((M.run_singleton s a).trans h) h'

theorem run_concat {s u : σ} {as : List ι} {a : ι} :
    M.run s (as ++ [a]) = some u ↔ ∃ t, M.run s as = some t ∧ M.step t a = some u := by
  rw [run_append]
  cases h : M.run s as with
  | none => simp
  | some t => cases hs : M.step t a <;> simp [run, hs]

/-- A run stops at every prefix of its schedule on the way. -/
theorem run_prefix_split {s u : σ} {as bs : List ι} (hp : as <+: bs) (h : M.run s bs = some u) :
    ∃ t cs, bs = as ++ cs ∧ M.run s as = some t ∧ M.run t cs = some u := by
  obtain ⟨cs, rfl⟩ := hp
  rw [run_append] at h
  cases ht : M.run s as with
  | none => rw [ht] at h; cases h
  | some t => rw [ht] at h; exact ⟨t, cs, rfl, rfl, h⟩

/-- **The run rule.**  An assertion about a schedule and the state it leads to
holds after every run once it holds initially and is kept by every step that a
run can take. -/
theorem run_induction {I : List ι → σ → Prop} {s : σ} (h0 : I [] s)
    (hstep : ∀ as t a u, M.run s as = some t → I as t → M.step t a = some u → I (as ++ [a]) u)
    {as : List ι} {t : σ} (h : M.run s as = some t) : I as t := by
  induction as using List.reverseRecOn generalizing t with
  | nil => obtain rfl := Option.some.inj h; exact h0
  | append_singleton as a ih =>
    obtain ⟨u, hu, ha⟩ := M.run_concat.mp h
    exact hstep as u a t hu (ih hu) ha

/-- The run rule for an assertion about the state alone. -/
theorem run_invariant {I : σ → Prop} (hstep : ∀ t a u, I t → M.step t a = some u → I u)
    {s t : σ} {as : List ι} (h0 : I s) (h : M.run s as = some t) : I t :=
  M.run_induction (I := fun _ t => I t) h0 (fun _ t a u _ ht ha => hstep t a u ht ha) h

/-- **The progress rule.**  Where every state is done or every action leads to a state of a
smaller rank, a machine comes to an end, whatever the actions are. -/
theorem exists_run_of_rank {rank : σ → Nat} {done : σ → Prop}
    (hstep : ∀ s a, done s ∨ ∃ u, M.step s a = some u ∧ rank u < rank s) (s : σ)
    (actions : Nat → ι) : ∃ n u, M.run s ((List.range n).map actions) = some u ∧ done u := by
  induction hrank : rank s using Nat.strong_induction_on generalizing s actions with
  | _ k ih =>
    rcases hstep s (actions 0) with hdone | ⟨t, ht, hless⟩
    · exact ⟨0, s, rfl, hdone⟩
    · obtain ⟨n, u, hu, hdone⟩ := ih (rank t) (hrank ▸ hless) t (fun i => actions (i + 1)) rfl
      refine ⟨n + 1, u, ?_, hdone⟩
      rw [List.range_succ_eq_map, List.map_cons, run, ht, List.map_map]
      exact hu

/-- The machine without the steps that lead out of `P`. -/
def restrict (P : σ → Prop) [DecidablePred P] : Machine σ ι :=
  ⟨fun s a => (M.step s a).filter fun t => P t⟩

theorem restrict_step_eq_some_iff {P : σ → Prop} [DecidablePred P] {s t : σ} {a : ι} :
    (M.restrict P).step s a = some t ↔ M.step s a = some t ∧ P t := by
  change (M.step s a).filter _ = some t ↔ _
  rw [Option.filter_eq_some_iff, decide_eq_true_iff]

/-- What a machine does within a condition it can do without. -/
theorem run_of_restrict {P : σ → Prop} [DecidablePred P] {s t : σ} {as : List ι}
    (h : (M.restrict P).run s as = some t) : M.run s as = some t := by
  refine (M.restrict P).run_induction (I := fun as t => M.run s as = some t) rfl ?_ h
  intro as u a v _ hu hstep
  exact M.run_concat.2 ⟨u, hu, (M.restrict_step_eq_some_iff.1 hstep).1⟩

/-- What a run lets an observer see: `obs s a` is what taking `a` in `s` shows. -/
def observations (obs : σ → ι → List ω) : σ → List ι → List ω
  | _, [] => []
  | s, a :: as => obs s a ++ (M.step s a).elim [] fun t => observations obs t as

@[simp] theorem observations_nil (obs : σ → ι → List ω) (s : σ) :
    M.observations obs s [] = [] := rfl

theorem observations_append (obs : σ → ι → List ω) {s t : σ} {as : List ι}
    (h : M.run s as = some t) (bs : List ι) :
    M.observations obs s (as ++ bs) = M.observations obs s as ++ M.observations obs t bs := by
  induction as generalizing s with
  | nil => obtain rfl := Option.some.inj h; rfl
  | cons a as ih =>
    cases hs : M.step s a with
    | none => simp [run, hs] at h
    | some u =>
      have hu : M.run u as = some t := by simpa [run, hs] using h
      simp [observations, hs, ih hu]

theorem observations_concat (obs : σ → ι → List ω) {s t : σ} {as : List ι}
    (h : M.run s as = some t) (a : ι) :
    M.observations obs s (as ++ [a]) = M.observations obs s as ++ obs t a := by
  rw [M.observations_append obs h]
  cases hs : M.step t a <;> simp [observations, hs]

end Machine

/-! ## Pools of tasks -/

variable {α : Type}

/-- In a total over the pool, a step of task `i` exchanges its share. -/
theorem sum_map_set {M : Type} [AddCommMonoid M] (f : α → M) {pool : List α} {i : Nat} {a : α}
    (h : pool[i]? = some a) (b : α) :
    ((pool.set i b).map f).sum + f a = (pool.map f).sum + f b := by
  induction pool generalizing i with
  | nil => cases h
  | cons a₀ pool ih =>
    cases i with
    | zero =>
      obtain rfl := Option.some.inj h
      rw [List.set_cons_zero, List.map_cons, List.map_cons, List.sum_cons, List.sum_cons,
        add_assoc, add_comm, add_comm _ (f a₀)]
    | succ i =>
      have hi := ih (i := i) h
      rw [List.set_cons_succ, List.map_cons, List.map_cons, List.sum_cons, List.sum_cons,
        add_assoc, hi, add_assoc]

/-- The number of tasks with a property changes by the task that moves. -/
theorem countP_set_add (p : α → Bool) {pool : List α} {i : Nat} {a : α}
    (h : pool[i]? = some a) (b : α) :
    (pool.set i b).countP p + (if p a then 1 else 0) =
      pool.countP p + (if p b then 1 else 0) := by
  obtain ⟨hi, rfl⟩ := List.getElem?_eq_some_iff.mp h
  have hpos : (if p pool[i] then 1 else 0) ≤ pool.countP p := by
    split
    · exact List.countP_pos_iff.mpr ⟨_, List.getElem_mem hi, ‹_›⟩
    · exact Nat.zero_le _
  rw [List.countP_set hi]
  omega

/-- After a step of task `i`, the others are where they were. -/
theorem getElem?_set_cases {pool : List α} {i j : Nat} {a b : α}
    (h : (pool.set i a)[j]? = some b) : j = i ∧ b = a ∨ j ≠ i ∧ pool[j]? = some b := by
  rw [List.getElem?_set] at h
  by_cases hij : i = j
  · rw [if_pos hij] at h
    split at h
    · exact Or.inl ⟨hij.symm, (Option.some.inj h).symm⟩
    · cases h
  · rw [if_neg hij] at h
    exact Or.inr ⟨Ne.symm hij, h⟩

/-- In a pool with a new task at its end, a task is an old one or the new one. -/
theorem getElem?_concat_cases {pool : List α} {j : Nat} {a b : α}
    (h : (pool ++ [a])[j]? = some b) : pool[j]? = some b ∨ j = pool.length ∧ b = a := by
  by_cases hj : j < pool.length
  · rw [List.getElem?_append_left hj] at h
    exact Or.inl h
  · rw [List.getElem?_append_right (Nat.not_lt.mp hj)] at h
    obtain ⟨hlt, hb⟩ := List.getElem?_eq_some_iff.mp h
    rw [List.length_singleton] at hlt
    rw [List.getElem_singleton] at hb
    exact Or.inr ⟨by omega, hb.symm⟩

theorem mem_modify {pool : List α} {i : Nat} {f : α → α} {a : α} (h : a ∈ pool.modify i f) :
    a ∈ pool ∨ ∃ a₀ ∈ pool, a = f a₀ := by
  obtain ⟨j, hj⟩ := List.mem_iff_getElem?.mp h
  rw [List.getElem?_modify] at hj
  obtain ⟨a₀, ha₀, ha⟩ := Option.map_eq_some_iff.mp hj
  have hmem := List.mem_iff_getElem?.mpr ⟨j, ha₀⟩
  split at ha
  · exact Or.inr ⟨a₀, hmem, ha.symm⟩
  · exact Or.inl (ha ▸ hmem)

/-- What a change of one task leaves alone. -/
theorem map_modify_eq {β : Type} {g : α → β} {f : α → α} (h : ∀ a, g (f a) = g a)
    (pool : List α) (i : Nat) : (pool.modify i f).map g = pool.map g := by
  apply List.ext_getElem?
  intro j
  rw [List.getElem?_map, List.getElem?_map, List.getElem?_modify]
  cases pool[j]? with
  | none => rfl
  | some a =>
    simp only [Option.map_some, Option.map_eq_map]
    split
    · rw [h]
    · rfl

theorem exists_getElem?_of_map_eq {β : Type} {g : α → β} {pool pool' : List α}
    (h : pool'.map g = pool.map g) {i : Nat} {a' : α} (ha : pool'[i]? = some a') :
    ∃ a, pool[i]? = some a ∧ g a' = g a := by
  have hi := congrArg (·[i]?) h
  simp only [List.getElem?_map, ha, Option.map_some] at hi
  obtain ⟨a, ha, hg⟩ := Option.map_eq_some_iff.mp hi.symm
  exact ⟨a, ha, hg.symm⟩

section
variable {β : Type} (place : β → Nat) (f : β → α → α)

/-- A loop that changes one task after the other leaves the rest alone. -/
theorem getElem?_foldl_modify_of_ne {l : List β} {i : Nat} (h : ∀ b ∈ l, place b ≠ i)
    (pool : List α) :
    (l.foldl (fun pool b => pool.modify (place b) (f b)) pool)[i]? = pool[i]? := by
  induction l generalizing pool with
  | nil => rfl
  | cons b l ih =>
    rw [List.foldl_cons, ih (fun b hb => h b (List.mem_cons_of_mem _ hb)),
      List.getElem?_modify_ne _ _ (h b List.mem_cons_self)]

/-- A loop over different tasks changes each once. -/
theorem getElem?_foldl_modify_of_mem {l : List β} (hnodup : (l.map place).Nodup) {b : β}
    (hb : b ∈ l) (pool : List α) :
    (l.foldl (fun pool b => pool.modify (place b) (f b)) pool)[place b]? =
      pool[place b]?.map (f b) := by
  induction l generalizing pool with
  | nil => cases hb
  | cons b₀ l ih =>
    obtain ⟨hnot, hnodup⟩ := List.nodup_cons.mp hnodup
    rw [List.foldl_cons]
    rcases List.mem_cons.mp hb with rfl | hb
    · rw [getElem?_foldl_modify_of_ne place f (fun b' hb' he =>
        hnot (List.mem_map.mpr ⟨b', hb', he⟩)), List.getElem?_modify_eq, Option.map_eq_map]
    · have hne : place b₀ ≠ place b := fun he => hnot (List.mem_map.mpr ⟨b, hb, he.symm⟩)
      rw [ih hnodup hb, List.getElem?_modify_ne _ _ hne]

end

/-- The places of the tasks with a property. -/
def placesOf (p : α → Bool) (pool : List α) : List Nat :=
  (List.range pool.length).filter fun i => (pool[i]?.map p).getD false

theorem length_placesOf (p : α → Bool) (pool : List α) :
    (placesOf p pool).length = pool.countP p := by
  have hmap : (List.range pool.length).map (pool[·]?) = pool.map some := by
    apply List.ext_getElem (by simp)
    intro i hi _
    simp at hi
    simp [hi]
  calc (placesOf p pool).length
      = ((List.range pool.length).map (pool[·]?)).countP (fun o => (o.map p).getD false) := by
        rw [List.countP_map, placesOf, ← List.countP_eq_length_filter]
        rfl
    _ = pool.countP p := by
        rw [hmap, List.countP_map]
        rfl

theorem mem_placesOf {p : α → Bool} {pool : List α} {i : Nat} :
    i ∈ placesOf p pool ↔ ∃ x, pool[i]? = some x ∧ p x = true := by
  rw [placesOf, List.mem_filter, List.mem_range]
  constructor
  · rintro ⟨hlt, hp⟩
    exact ⟨pool[i], List.getElem?_eq_getElem hlt, by simpa [hlt] using hp⟩
  · rintro ⟨x, hx, hp⟩
    obtain ⟨hlt, rfl⟩ := List.getElem?_eq_some_iff.mp hx
    exact ⟨hlt, by simpa [hlt] using hp⟩

end Scheduling
