import RustSamples.S3Server

/-! # The worker threads of `s3_server`

The futures of the requests run on the worker threads of tokio, as many as there are processors.
The mutex is the one of `std`: a future that finds it taken in `lock()` does not give its thread
back but stops it, until it gets the mutex.

An upload that waits for its body has the mutex and no thread.  So nobody is answered until its
body is there (`slow_upload_blocks`); and its body is taken by a thread, if there is one left.  When
as many requests wait in `lock()` as there are threads, the upload is not polled again, and the
server stands still for good.
-/
namespace RustSamples.S3
open Scheduling

/-! ## Threads -/

/-- The server with its threads. -/
structure Workers where
  state : Server
  /-- the requests that have stopped a thread in `lock()` -/
  blocked : List Nat

inductive Workers.Action
  | serve (a : S3.Action)
  /-- the mutex is taken: the thread stops in `lock()` -/
  | block (i : Nat)
  deriving DecidableEq

namespace Workers

def start : Workers := ⟨.start, []⟩

/-- One of the threads can poll a future. -/
def Free (threads : Nat) (w : Workers) : Prop := w.blocked.length < threads

instance (threads : Nat) (w : Workers) : Decidable (w.Free threads) :=
  inferInstanceAs (Decidable (_ < _))

/-- There is a thread for this step.  To arrive, a request needs none; in `lock()` it has its own,
and cannot be dropped. -/
def Allows (threads : Nat) (w : Workers) : S3.Action → Prop
  | .request _ => True
  | .enter i => w.Free threads ∨ i ∈ w.blocked
  | .collected _ _ => w.Free threads
  | .drop i => w.Free threads ∧ i ∉ w.blocked

instance (threads : Nat) (w : Workers) (a : S3.Action) : Decidable (w.Allows threads a) :=
  match a with
  | .request _ => inferInstanceAs (Decidable True)
  | .enter i => inferInstanceAs (Decidable (w.Free threads ∨ i ∈ w.blocked))
  | .collected _ _ => inferInstanceAs (Decidable (w.Free threads))
  | .drop i => inferInstanceAs (Decidable (w.Free threads ∧ i ∉ w.blocked))

/-- A request that gets the mutex is not in `lock()` any more. -/
def unblock (blocked : List Nat) : S3.Action → List Nat
  | .enter i => blocked.erase i
  | _ => blocked

def step (threads : Nat) (w : Workers) : Action → Option Workers
  | .serve a =>
      if w.Allows threads a then (w.state.step a).map fun s => ⟨s, unblock w.blocked a⟩ else none
  | .block i => w.state.requests[i]?.bind fun r =>
      if r.phase = .waiting ∧ w.state.lock ≠ none ∧ w.Free threads ∧ i ∉ w.blocked then
        some { w with blocked := i :: w.blocked }
      else none

end Workers

def workers (threads : Nat) : Machine Workers Workers.Action := ⟨Workers.step threads⟩

/-- What the server does in a run. -/
def Workers.Action.served : Workers.Action → Option S3.Action
  | .serve a => some a
  | .block _ => none

/-- The upload `i` goes on, or its client leaves. -/
def Workers.Action.EndsUpload (i : Nat) (a : Workers.Action) : Prop :=
  a = .serve (.drop i) ∨ ∃ result, a = .serve (.collected i result)

variable {threads : Nat}

theorem Workers.step_serve_eq_some_iff {w w' : Workers} {a : S3.Action} :
    (workers threads).step w (.serve a) = some w' ↔
      w.Allows threads a ∧ ∃ s, server.step w.state a = some s ∧
        w' = ⟨s, unblock w.blocked a⟩ := by
  change (if _ then _ else _) = _ ↔ _
  by_cases hallows : w.Allows threads a
  · rw [if_pos hallows, Option.map_eq_some_iff]
    simp [hallows, server, eq_comm]
  · rw [if_neg hallows]
    simp [hallows]

theorem Workers.step_block_eq_some_iff {w w' : Workers} {i : Nat} :
    (workers threads).step w (.block i) = some w' ↔
      (∃ r, w.state.requests[i]? = some r ∧ r.phase = .waiting) ∧ w.state.lock ≠ none ∧
        w.Free threads ∧ i ∉ w.blocked ∧ w' = { w with blocked := i :: w.blocked } := by
  change Option.bind _ _ = _ ↔ _
  rw [Option.bind_eq_some_iff]
  constructor
  · rintro ⟨r, hr, h⟩
    split at h
    · rename_i hcond
      exact ⟨⟨r, hr, hcond.1⟩, hcond.2.1, hcond.2.2.1, hcond.2.2.2, (Option.some.inj h).symm⟩
    · cases h
  · rintro ⟨⟨r, hr, hp⟩, hlock, hfree, hblocked, rfl⟩
    exact ⟨r, hr, if_pos ⟨hp, hlock, hfree, hblocked⟩⟩

/-- **With its threads the server does what it does without**: a thread that stops changes
nothing. -/
theorem Workers.run_state {schedule : List Workers.Action} {w w' : Workers}
    (h : (workers threads).run w schedule = some w') :
    server.run w.state (schedule.filterMap Workers.Action.served) = some w'.state := by
  refine (workers threads).run_induction
    (I := fun schedule w' => server.run w.state (schedule.filterMap _) = some w'.state)
    rfl ?_ h
  intro schedule u a v _ hu hstep
  rw [List.filterMap_append, Machine.run_append, hu]
  cases a with
  | serve a =>
    obtain ⟨-, s, hs, rfl⟩ := Workers.step_serve_eq_some_iff.1 hstep
    exact (server.run_singleton _ _).trans hs
  | block i =>
    obtain ⟨-, -, -, -, rfl⟩ := Workers.step_block_eq_some_iff.1 hstep
    rfl

theorem Workers.linear_run {schedule : List Workers.Action} {w : Workers}
    (h : (workers threads).run .start schedule = some w) : Linear w.state :=
  S3.linear_run (Workers.run_state h)

/-! ## An upload that waits for its body -/

/-- While request `i` waits for its body, the steps that are not its own answer nobody. -/
theorem Linear.step_of_collecting {s t : Server} {a : Action} (h : Linear s) {i : Nat} {r : Request}
    (hr : s.requests[i]? = some r) (hp : r.phase = .collecting) (hdrop : a ≠ .drop i)
    (hcollected : ∀ result, a ≠ .collected i result) (hstep : server.step s a = some t) :
    t.history = s.history ∧ t.requests[i]? = some r := by
  have hlock := (h.holder i).2 ⟨r, hr, hp⟩
  cases step_cases hstep with
  | request input =>
    exact ⟨rfl, (List.getElem?_append_left (List.getElem?_eq_some_iff.1 hr).1).trans hr⟩
  | answered hr' hp' hfree | admitted hr' hp' hfree =>
    rw [hlock] at hfree
    cases hfree
  | uploaded hr' hp' hinput result =>
    obtain rfl := h.holder_unique hr hp hr' hp'
    exact absurd rfl (hcollected result)
  | @left j r' hr' hp' =>
    have hne : j ≠ i := fun hj => hdrop (hj ▸ rfl)
    exact ⟨rfl, (List.getElem?_set_ne hne).trans hr⟩
  | abandoned hr' hp' =>
    obtain rfl := h.holder_unique hr hp hr' hp'
    exact absurd rfl hdrop

/-- Nobody gets the mutex while it is with request `i`. -/
theorem Linear.enter_eq_none {s : Server} (h : Linear s) {i : Nat} {r : Request}
    (hr : s.requests[i]? = some r) (hp : r.phase = .collecting) (j : Nat) :
    server.step s (.enter j) = none := by
  have hlock := (h.holder i).2 ⟨r, hr, hp⟩
  rw [Option.eq_none_iff_forall_ne_some]
  intro t hstep
  cases step_cases hstep with
  | answered _ _ hfree | admitted _ _ hfree =>
    rw [hlock] at hfree
    cases hfree

namespace Workers
variable {w w' : Workers} {i : Nat} {r : Request}

/-- One step of the threads while the upload `i` waits, and does not go on. -/
theorem step_of_collecting {a : Workers.Action} (h : Linear w.state)
    (hr : w.state.requests[i]? = some r) (hp : r.phase = .collecting) (hends : ¬ a.EndsUpload i)
    (hstep : (workers threads).step w a = some w') :
    w'.state.history = w.state.history ∧ w'.state.requests[i]? = some r := by
  cases a with
  | serve a =>
    obtain ⟨-, s, hs, rfl⟩ := step_serve_eq_some_iff.1 hstep
    refine h.step_of_collecting hr hp (fun ha => hends (.inl (ha ▸ rfl))) (fun result ha => ?_) hs
    exact hends (.inr ⟨result, ha ▸ rfl⟩)
  | block j =>
    obtain ⟨-, -, -, -, rfl⟩ := step_block_eq_some_iff.1 hstep
    exact ⟨rfl, hr⟩

/-- Without a thread, and with the mutex taken, requests arrive and nothing else happens. -/
theorem step_of_not_free {a : Workers.Action} (h : Linear w.state)
    (hr : w.state.requests[i]? = some r) (hp : r.phase = .collecting) (hfree : ¬ w.Free threads)
    (hstep : (workers threads).step w a = some w') :
    (∃ input, a = .serve (.request input)) ∧ w'.blocked = w.blocked := by
  cases a with
  | serve a =>
    obtain ⟨hallows, s, hs, rfl⟩ := step_serve_eq_some_iff.1 hstep
    cases a with
    | request input => exact ⟨⟨input, rfl⟩, rfl⟩
    | enter j =>
      rw [h.enter_eq_none hr hp j] at hs
      cases hs
    | collected j result => exact absurd hallows hfree
    | drop j => exact absurd hallows.1 hfree
  | block j =>
    obtain ⟨-, -, hfree', -⟩ := step_block_eq_some_iff.1 hstep
    exact absurd hfree' hfree

/-- With a thread left, and the mutex free, a request gets in. -/
theorem isSome_enter (hfree : w.Free threads) (hlock : w.state.lock = none)
    (hr : w.state.requests[i]? = some r) (hp : r.phase = .waiting) :
    ((workers threads).step w (.serve (.enter i))).isSome := by
  have hstep : server.step w.state (.enter i) = some (w.state.onEnter i r) :=
    Option.bind_eq_some_iff.2 ⟨r, hr, if_pos ⟨hp, hlock⟩⟩
  exact Option.isSome_iff_exists.2 ⟨_, step_serve_eq_some_iff.2 ⟨.inl hfree, _, hstep, rfl⟩⟩

/-- With a thread left, the body is taken, and the next request can get the mutex. -/
theorem exists_collected (h : Linear w.state) (hr : w.state.requests[i]? = some r)
    (hp : r.phase = .collecting) (hfree : w.Free threads) (result : Option (List UInt8)) :
    ∃ w', (workers threads).step w (.serve (.collected i result)) = some w' ∧
      ∀ (j : Nat) r', w'.state.requests[j]? = some r' → r'.phase = .waiting →
        ((workers threads).step w' (.serve (.enter j))).isSome := by
  obtain ⟨bucket, key, hinput, -⟩ := h.admitted i r hr hp
  refine ⟨⟨w.state.answer i r result (finishPut w.state.buckets bucket key result), w.blocked⟩,
    step_serve_eq_some_iff.2 ⟨hfree, _, ?_, rfl⟩, fun j r' hr' hp' => ?_⟩
  · simp [server, Server.step, hr, hp, Server.onCollected, hinput]
  · exact isSome_enter hfree rfl hr' hp'

/-- With as many requests in wait as there are threads, each thread can come to stop in `lock()`. -/
theorem exists_run_blocked (hlock : w.state.lock ≠ none)
    (hwaiting : threads ≤ w.state.requests.countP (·.phase = .waiting)) :
    ∃ schedule w', (workers threads).run w schedule = some w' ∧ ¬ w'.Free threads ∧
      w'.state = w.state := by
  induction hleft : threads - w.blocked.length generalizing w with
  | zero =>
    have hfull : ¬ w.Free threads := by
      unfold Free
      omega
    exact ⟨[], w, rfl, hfull, rfl⟩
  | succ left ih =>
    have hfree : w.Free threads := by
      unfold Free
      omega
    obtain ⟨j, hj, hblocked⟩ : ∃ j ∈ placesOf (·.phase = .waiting) w.state.requests,
        j ∉ w.blocked := by
      by_contra hall
      push Not at hall
      have hle := List.Nodup.length_le_of_subset (List.Pairwise.filter _ List.nodup_range) hall
      change (placesOf _ _).length ≤ _ at hle
      rw [length_placesOf] at hle
      omega
    obtain ⟨r', hr', hp'⟩ := mem_placesOf.1 hj
    obtain ⟨schedule, w', hrun, hfull, hstate⟩ :=
      ih (w := { w with blocked := j :: w.blocked }) hlock hwaiting (by simp; omega)
    refine ⟨.block j :: schedule, w', Machine.run_cons _ ?_ hrun, hfull, hstate⟩
    exact step_block_eq_some_iff.2 ⟨⟨r', hr', of_decide_eq_true hp'⟩, hlock, hfree, hblocked, rfl⟩

/-- What is kept while the upload `i` waits, in every run. -/
theorem run_of_collecting {schedule later : List Workers.Action}
    (hw : (workers threads).run .start schedule = some w)
    (hr : w.state.requests[i]? = some r) (hp : r.phase = .collecting)
    (hw' : (workers threads).run w later = some w') (hquiet : ∀ a ∈ later, ¬ a.EndsUpload i) :
    w'.state.history = w.state.history ∧ w'.state.requests[i]? = some r := by
  refine (workers threads).run_induction (I := fun later w' =>
    (∀ a ∈ later, ¬ a.EndsUpload i) →
      w'.state.history = w.state.history ∧ w'.state.requests[i]? = some r)
    (fun _ => ⟨rfl, hr⟩) ?_ hw' hquiet
  intro later u a v hu hkept hstep hquiet
  obtain ⟨hhistory, hru⟩ := hkept fun a ha => hquiet a (List.mem_append_left _ ha)
  obtain ⟨h₁, h₂⟩ := step_of_collecting (linear_run ((workers threads).run_trans hw hu)) hru hp
    (hquiet a (List.mem_append_right _ List.mem_cons_self)) hstep
  exact ⟨h₁.trans hhistory, h₂⟩

/-- What is kept when no thread is left, in every run. -/
theorem run_of_not_free {schedule later : List Workers.Action}
    (hw : (workers threads).run .start schedule = some w)
    (hr : w.state.requests[i]? = some r) (hp : r.phase = .collecting) (hfree : ¬ w.Free threads)
    (hw' : (workers threads).run w later = some w') :
    (∀ a ∈ later, ∃ input, a = .serve (.request input)) ∧ w'.blocked = w.blocked := by
  refine (workers threads).run_induction (I := fun later w' =>
    (∀ a ∈ later, ∃ input, a = .serve (.request input)) ∧ w'.blocked = w.blocked)
    ⟨List.forall_mem_nil _, rfl⟩ ?_ hw'
  rintro later u a v hu ⟨hrequests, hblocked⟩ hstep
  have hquiet : ∀ a ∈ later, ¬ a.EndsUpload i := by
    intro a ha
    obtain ⟨input, rfl⟩ := hrequests a ha
    simp [Action.EndsUpload]
  obtain ⟨-, hru⟩ := run_of_collecting hw hr hp hu hquiet
  have hfree' : ¬ u.Free threads := by
    rw [Free, hblocked]
    exact hfree
  obtain ⟨ha, hsame⟩ :=
    step_of_not_free (linear_run ((workers threads).run_trans hw hu)) hru hp hfree' hstep
  exact ⟨List.forall_mem_append.2 ⟨hrequests, List.forall_mem_singleton.2 ha⟩, hsame.trans hblocked⟩

end Workers

/-- **One upload stops the server.**  From the time that an upload waits for its body until it goes
on or its client leaves, no request is answered, whatever arrives and whoever leaves.  With a thread
left, the body is taken when it is there, and the next request can get in.  With no thread left,
nothing happens any more: requests arrive, the upload does not go on, and nobody is answered.  As
many requests in wait as there are threads are enough for that. -/
theorem slow_upload_blocks {threads : Nat} {schedule : List Workers.Action} {w : Workers}
    (hw : (workers threads).run .start schedule = some w) {i : Nat} {r : Request}
    (hr : w.state.requests[i]? = some r) (hp : r.phase = .collecting) :
    (∀ later w', (workers threads).run w later = some w' → (∀ a ∈ later, ¬ a.EndsUpload i) →
      w'.state.history = w.state.history ∧ ∀ j, server.step w'.state (.enter j) = none) ∧
    (w.Free threads → ∀ result, ∃ w',
      (workers threads).step w (.serve (.collected i result)) = some w' ∧
        ∀ (j : Nat) r', w'.state.requests[j]? = some r' → r'.phase = .waiting →
          ((workers threads).step w' (.serve (.enter j))).isSome) ∧
    (¬ w.Free threads → ∀ later w', (workers threads).run w later = some w' →
      (∀ a ∈ later, ∃ input, a = .serve (.request input)) ∧
        w'.state.history = w.state.history ∧ w'.state.requests[i]? = some r) ∧
    (threads ≤ w.state.requests.countP (·.phase = .waiting) →
      ∃ later w', (workers threads).run w later = some w' ∧ ¬ w'.Free threads ∧
        w'.state = w.state) := by
  have h := Workers.linear_run hw
  refine ⟨fun later w' hw' hquiet => ?_, Workers.exists_collected h hr hp,
    fun hfree later w' hw' => ?_, Workers.exists_run_blocked ?_⟩
  · obtain ⟨hhistory, hr'⟩ := Workers.run_of_collecting hw hr hp hw' hquiet
    have h' := Workers.linear_run ((workers threads).run_trans hw hw')
    exact ⟨hhistory, h'.enter_eq_none hr' hp⟩
  · obtain ⟨hrequests, -⟩ := Workers.run_of_not_free hw hr hp hfree hw'
    refine ⟨hrequests, Workers.run_of_collecting hw hr hp hw' fun a ha => ?_⟩
    obtain ⟨input, rfl⟩ := hrequests a ha
    simp [Workers.Action.EndsUpload]
  · rw [(h.holder i).2 ⟨r, hr, hp⟩]
    exact Option.some_ne_none i

/-- An upload on one thread, and a read that stops it. -/
def uploadAndRead : List Workers.Action :=
  [.serve (.request (.createBucket "b")), .serve (.enter 0),
    .serve (.request (.putObject "b" "k" true)), .serve (.enter 1),
    .serve (.request (.getObject "b" "k"))]

theorem upload_stands_still : ∃ w w' : Workers,
    (workers 1).run .start uploadAndRead = some w ∧ (workers 1).run w [.block 2] = some w' ∧
    (∀ result, ∃ u, (workers 1).step w (.serve (.collected 1 result)) = some u ∧
      ((workers 1).step u (.serve (.enter 2))).isSome) ∧
    ∀ later u, (workers 1).run w' later = some u → u.state.history = w.state.history := by
  refine ⟨_, _, rfl, rfl, fun result => ?_, fun later u hu => ?_⟩
  · have h := slow_upload_blocks (i := 1) (r := ⟨.putObject "b" "k" true, .collecting⟩)
      (rfl : (workers 1).run .start uploadAndRead = some _) rfl rfl
    obtain ⟨u, hu, hnext⟩ := h.2.1 (by decide) result
    refine ⟨u, hu, hnext 2 ⟨.getObject "b" "k", .waiting⟩ ?_ rfl⟩
    obtain rfl := Option.some.inj hu
    rfl
  · have h := slow_upload_blocks (i := 1) (r := ⟨.putObject "b" "k" true, .collecting⟩)
      (rfl : (workers 1).run .start (uploadAndRead ++ [.block 2]) = some _) rfl rfl
    exact (h.2.2.1 (by decide) later u hu).2.1

end RustSamples.S3
