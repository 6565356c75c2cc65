import RustSamples.AntiDdosShield

/-! # The books of the `anti_ddos` shield

The registry counts connections with four separate pieces of code: the admission
block, the guard, the `or_insert` of the rate block and the sweep.  What they
maintain is that the count of a key is the number of its handlers that are past
admission and have not dropped their guard.  One lemma says what a move of a
handler does to the count of its own key and to the permits (`Phase.step_counts`);
the invariant and all its consequences are read off it.
-/
namespace RustSamples.AntiDdos
open Scheduling

variable {Addr : Type} [DecidableEq Addr]

/-- 1 if the condition holds, else 0. -/
def indicator (b : Bool) : Nat := if b then 1 else 0

/-- **What a move does to the books.**  The registry changes at the handler's own
key only, by the difference the move makes to the handler being admitted; it keeps
within the limit; and permits are neither made nor lost. -/
theorem Phase.step_counts {sh sh' : Shared Addr} {addr : Addr} {p p' : Phase} {m : Move}
    (hpos : p.admitted = true → 0 < countOf (sh.registry addr))
    (h : p.step sh addr m = some (p', sh')) :
    (∀ key, key ≠ addr → sh'.registry key = sh.registry key) ∧
      countOf (sh'.registry addr) + indicator p.admitted =
        countOf (sh.registry addr) + indicator p'.admitted ∧
      (countOf (sh.registry addr) ≤ maxConnPerIp → countOf (sh'.registry addr) ≤ maxConnPerIp) ∧
      sh'.freePermits + indicator p'.holdsPermit = sh.freePermits + indicator p.holdsPermit := by
  rcases Phase.step_cases h with ⟨rfl, -, hfree, rfl, rfl⟩ | ⟨now, rfl, -, rfl, rfl⟩ |
    ⟨created, now, rfl, -, rfl, rfl⟩ | ⟨rfl, -, rfl, rfl⟩ | ⟨rfl, -, rfl, rfl⟩ |
    ⟨-, hadm, hper, rfl⟩
  · refine ⟨fun _ _ => rfl, rfl, id, ?_⟩
    simp only [indicator, holdsPermit]
    simp
    omega
  · -- the admission block
    simp only [Function.update_self]
    refine ⟨fun key hne => Function.update_of_ne hne _ _, ?_⟩
    rcases admission_spec now (sh.registry addr) with ⟨hlt, hadm, hcount⟩ | ⟨-, hadm, hsame⟩
    · rw [hadm, hcount]
      exact ⟨rfl, fun _ => hlt, rfl⟩
    · rw [hadm, hsame]
      exact ⟨rfl, id, rfl⟩
  · -- the rate block: the entry is there, so `or_insert` inserts nothing
    have hsome : sh.registry addr ≠ none := by
      intro hnone
      have := hpos rfl
      rw [hnone] at this
      cases this
    simp only [Function.update_self, rateCheck_count hsome]
    refine ⟨fun key hne => Function.update_of_ne hne _ _, ?_, id, ?_⟩ <;> split <;> rfl
  · -- the guard
    have := hpos rfl
    simp only [Function.update_self, release_count]
    refine ⟨fun key hne => Function.update_of_ne hne _ _, ?_, ?_, rfl⟩
    · simp only [indicator, admitted]
      simp
      omega
    · omega
  · exact ⟨fun _ _ => rfl, rfl, id, rfl⟩
  · rw [hadm, hper]
    exact ⟨fun _ _ => rfl, rfl, id, rfl⟩

/-! ## The invariant -/

/-- The stored connection count of a key, 0 if it has no entry. -/
def Shield.connectionCount (s : Shield Addr) (key : Addr) : Nat := countOf (s.shared.registry key)

/-- The number of running handlers of a key that have passed admission. -/
def Shield.admittedAt (s : Shield Addr) (key : Addr) : Nat :=
  s.handlers.countP fun h => decide (h.addr = key) && h.phase.admitted

/-- The number of handlers that hold a global permit. -/
def Shield.permitHolders (s : Shield Addr) : Nat := s.handlers.countP fun h => h.phase.holdsPermit

structure Accounting (s : Shield Addr) : Prop where
  counts : ∀ key, s.connectionCount key = s.admittedAt key
  limit : ∀ key, s.connectionCount key ≤ maxConnPerIp
  permits : s.shared.freePermits + s.permitHolders = maxGlobalConnections

/-- An admitted handler is counted, so its key has an entry. -/
theorem Accounting.pos_of_admitted {s : Shield Addr} (hs : Accounting s) {i : Nat}
    {h : Handler Addr} (hi : s.handlers[i]? = some h) (hadm : h.phase.admitted = true) :
    0 < countOf (s.shared.registry h.addr) := by
  have hcount := hs.counts h.addr
  rw [Shield.connectionCount] at hcount
  rw [hcount]
  exact List.countP_pos_iff.mpr ⟨h, List.mem_of_getElem? hi, by simp [hadm]⟩

omit [DecidableEq Addr] in
/-- A handler that moves changes a count over the handlers by its own part. -/
theorem countP_move (p : Handler Addr → Bool) {handlers : List (Handler Addr)} {i : Nat}
    {h : Handler Addr} (hi : handlers[i]? = some h) (phase' : Phase) :
    (handlers.set i ⟨h.addr, phase'⟩).countP p + indicator (p h) =
      handlers.countP p + indicator (p ⟨h.addr, phase'⟩) := countP_set_add p hi _

theorem accounting_start : Accounting (.start : Shield Addr) :=
  ⟨fun _ => rfl, fun _ => Nat.zero_le _, rfl⟩

theorem accounting_move {s : Shield Addr} (hs : Accounting s) {i : Nat} {h : Handler Addr}
    (hi : s.handlers[i]? = some h) {m : Move} {p' : Phase} {sh' : Shared Addr}
    (hstep : h.phase.step s.shared h.addr m = some (p', sh')) :
    Accounting ⟨sh', s.handlers.set i ⟨h.addr, p'⟩⟩ := by
  obtain ⟨hframe, hown, hlim, hperm⟩ := Phase.step_counts (hs.pos_of_admitted hi) hstep
  refine ⟨fun key => ?_, fun key => ?_, ?_⟩
  · have hmove := countP_move (fun h => decide (h.addr = key) && h.phase.admitted) hi p'
    have hold := hs.counts key
    simp only [Shield.connectionCount, Shield.admittedAt] at hold ⊢
    by_cases hkey : key = h.addr
    · subst hkey
      simp only [decide_true, Bool.true_and] at hmove hold ⊢
      omega
    · have hne : decide (h.addr = key) = false := decide_eq_false fun he => hkey he.symm
      simp only [hne, Bool.false_and] at hmove
      rw [hframe key hkey]
      omega
  · by_cases hkey : key = h.addr
    · subst hkey; exact hlim (hs.limit h.addr)
    · rw [Shield.connectionCount, hframe key hkey]; exact hs.limit key
  · have hmove := countP_move (fun h => h.phase.holdsPermit) hi p'
    have hold := hs.permits
    simp only [Shield.permitHolders] at hmove hold ⊢
    omega

theorem accounting_step {s u : Shield Addr} {a : Action Addr} (hs : Accounting s)
    (h : shield.step s a = some u) : Accounting u := by
  rcases shield_step_cases h with ⟨addr, -, rfl⟩ | ⟨i, m, hd, p', sh', -, hi, hstep, rfl⟩ |
    ⟨key, now, -, rfl⟩
  · refine ⟨fun key => ?_, hs.limit, ?_⟩
    · have hnew : [(⟨addr, .spawned⟩ : Handler Addr)].countP
          (fun h => decide (h.addr = key) && h.phase.admitted) = 0 := by simp [Phase.admitted]
      rw [Shield.admittedAt, List.countP_append, hnew]
      exact hs.counts key
    · rw [Shield.permitHolders, List.countP_append]
      exact hs.permits
  · exact accounting_move hs hi hstep
  · have hcount : ∀ key', countOf (Function.update s.shared.registry key
        ((s.shared.registry key).filter (retains now)) key') =
        countOf (s.shared.registry key') := by
      intro key'
      by_cases hkey : key' = key
      · subst hkey; rw [Function.update_self, filter_retains_count]
      · rw [Function.update_of_ne hkey]
    refine ⟨fun key' => ?_, fun key' => ?_, hs.permits⟩
    · exact (hcount key').trans (hs.counts key')
    · exact (hcount key').trans_le (hs.limit key')

/-- **The books balance in every reachable state.** -/
theorem accounting_run {s : Shield Addr} {actions : List (Action Addr)}
    (h : shield.run .start actions = some s) : Accounting s :=
  shield.run_invariant (fun _ _ _ hs hstep => accounting_step hs hstep) accounting_start h

/-! ## Consequences -/

/-- The sweep leaves the entry of a key with an admitted handler where it is. -/
theorem Accounting.sweep_keeps {s u : Shield Addr} (hs : Accounting s) {key key' : Addr} {now : Nat}
    (hpos : 0 < s.admittedAt key) (hstep : shield.step s (.sweep key' now) = some u) :
    (s.shared.registry key).isSome ∧ u.shared.registry key = s.shared.registry key := by
  have hcount : 0 < countOf (s.shared.registry key) := Nat.lt_of_lt_of_eq hpos (hs.counts key).symm
  refine ⟨?_, ?_⟩
  · cases hreg : s.shared.registry key with
    | none => rw [hreg] at hcount; cases hcount
    | some stats => rfl
  · obtain rfl := Option.some.inj hstep
    by_cases hkey : key = key'
    · subst hkey
      exact (Function.update_self ..).trans (filter_retains_of_pos hcount)
    · exact Function.update_of_ne hkey _ _

/-- The entry of an admitted handler is there and counts a connection. -/
theorem Accounting.entry_of_admitted {s : Shield Addr} (hs : Accounting s) {h : Handler Addr}
    (hmem : h ∈ s.handlers) (hadm : h.phase.admitted = true) :
    ∃ stats, s.shared.registry h.addr = some stats ∧ 0 < stats.connectionCount := by
  obtain ⟨i, hi⟩ := List.mem_iff_getElem?.mp hmem
  have hpos := hs.pos_of_admitted hi hadm
  cases hreg : s.shared.registry h.addr with
  | none => rw [hreg] at hpos; cases hpos
  | some stats => rw [hreg] at hpos; exact ⟨stats, rfl, hpos⟩

/-- A move that neither admits its handler nor drops its guard changes no count. -/
theorem Accounting.connectionCount_move {s u : Shield Addr} (hs : Accounting s) {i : Nat}
    {m : Move} {h h' : Handler Addr} (hi : s.handlers[i]? = some h)
    (hstep : shield.step s (.handler i m) = some u) (hi' : u.handlers[i]? = some h')
    (hadm : h'.phase.admitted = h.phase.admitted) (key : Addr) :
    u.connectionCount key = s.connectionCount key := by
  rcases shield_step_cases hstep with ⟨_, ha, -⟩ | ⟨j, m', hd, p', sh', ha, hj, hp, rfl⟩ |
    ⟨_, _, ha, -⟩
  · cases ha
  · obtain ⟨rfl, rfl⟩ := Action.handler.inj ha
    obtain rfl : h = hd := Option.some.inj (hi.symm.trans hj)
    obtain ⟨hlt, -⟩ := List.getElem?_eq_some_iff.mp hi
    obtain rfl : ⟨h.addr, p'⟩ = h' := by simpa [hlt] using hi'
    obtain ⟨hframe, hown, -, -⟩ := Phase.step_counts (hs.pos_of_admitted hi) hp
    by_cases hkey : key = h.addr
    · subst hkey
      simp only at hadm
      rw [hadm] at hown
      exact Nat.add_right_cancel hown
    · rw [Shield.connectionCount, hframe key hkey]
      rfl
  · cases ha

/-- **The counters account for the handlers.**  Under every interleaving of handlers
and sweeps: the stored count of a key is the number of its admitted handlers and
within the limit; permits are held or free; the sweep keeps the entry of a key with
an admitted handler, so that the rate block finds an entry and the guard a positive
count; and a move that does not take its handler past admission or out of it — a
refusal by the semaphore, by admission or by the rate block, the return of a
permit — changes no count. -/
theorem counters_account_for_handlers {s : Shield Addr} {actions : List (Action Addr)}
    (hrun : shield.run .start actions = some s) :
    (∀ key, s.connectionCount key = s.admittedAt key) ∧
      (∀ key, s.connectionCount key ≤ maxConnPerIp) ∧
      s.permitHolders + s.shared.freePermits = maxGlobalConnections ∧
      (∀ key key' now u, 0 < s.admittedAt key → shield.step s (.sweep key' now) = some u →
        (s.shared.registry key).isSome ∧ u.shared.registry key = s.shared.registry key) ∧
      (∀ h ∈ s.handlers, h.phase = .received → (s.shared.registry h.addr).isSome) ∧
      (∀ h ∈ s.handlers, h.phase = .returning →
        ∃ stats, s.shared.registry h.addr = some stats ∧ 0 < stats.connectionCount) ∧
      (∀ i move h h' u, s.handlers[i]? = some h → shield.step s (.handler i move) = some u →
        u.handlers[i]? = some h' → h'.phase.admitted = h.phase.admitted →
        ∀ key, u.connectionCount key = s.connectionCount key) := by
  have hs := accounting_run hrun
  refine ⟨hs.counts, hs.limit, ?_, ?_, ?_, ?_, ?_⟩
  · rw [Nat.add_comm]
    exact hs.permits
  · intro key key' now u hpos hstep
    exact hs.sweep_keeps hpos hstep
  · intro h hmem hphase
    obtain ⟨stats, hreg, -⟩ := hs.entry_of_admitted hmem (by rw [hphase]; rfl)
    rw [hreg]
    rfl
  · intro h hmem hphase
    exact hs.entry_of_admitted hmem (by rw [hphase]; rfl)
  · intro i move h h' u hi hstep hi' hadm key
    exact hs.connectionCount_move hi hstep hi' hadm key

/-- Two connections of one key, the first one on its way out. -/
def twoHandlers : List (Action Nat) :=
  [.accept 7, .handler 0 .acquire, .handler 0 (.admission 1), .accept 7, .handler 1 .acquire,
    .handler 0 (.read .timeout), .handler 1 (.admission 2), .sweep 7 (100 * burstWindow)]

theorem counters_account_for_twoHandlers :
    ∃ s : Shield Nat, shield.run .start twoHandlers = some s ∧
      s.connectionCount 7 = 2 ∧ s.connectionCount 7 = s.admittedAt 7 := by
  obtain ⟨s, hs, hcount⟩ : ∃ s : Shield Nat, shield.run .start twoHandlers = some s ∧
      s.connectionCount 7 = 2 := ⟨_, rfl, by decide⟩
  exact ⟨s, hs, hcount, (counters_account_for_handlers hs).1 7⟩

end RustSamples.AntiDdos
