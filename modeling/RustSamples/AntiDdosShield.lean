import Mathlib.Logic.Function.Basic
import RustSamples.Machine

/-! # The shield of `anti_ddos`

Every accepted connection runs `handle_client` in a task of its own; the tasks
share a semaphore of permits and a registry of counters, and a cleanup task sweeps
the registry.  A task gives up control at an `await` and around a registry lock,
so `handle_client` is cut there into atomic moves: the permit, the admission block,
the read, the rate block, the proxying, and on every way out the drop of the guard
and then of the permit.  A move that awaits can also end in cancellation.

A key of the registry is what the code looks up, `client_addr`; the functions do
not look inside it, so it is any type with decidable equality.  Times are
nanoseconds of the monotonic clock, and the difference of two readings saturates
at zero, as `Instant::duration_since` does.

The sweep is cut at each entry: `retain` locks one shard after the other and reads
the clock for every entry.
-/
namespace RustSamples.AntiDdos
open Scheduling

/-! ## Constants and counters -/

/-- `MAX_GLOBAL_CONNECTIONS`. -/
def maxGlobalConnections : Nat := 10000

/-- `MAX_CONN_PER_IP`. -/
def maxConnPerIp : Nat := 20

/-- `BURST_WINDOW`. -/
def burstWindow : Nat := 1000000000

/-- `MAX_RPS_PER_IP`. -/
def maxRpsPerIp : Nat := 50

/-- The age, 60 s, from which the sweep drops an idle entry. -/
def staleAge : Nat := 60000000000

structure IpStats where
  connectionCount : Nat
  rpsCount : Nat
  lastRequestTime : Nat
deriving DecidableEq

/-- The admission block of `handle_client` on the entry of its key: whether the
client is admitted, and the entry afterwards. -/
def admission (now : Nat) (entry : Option IpStats) : Bool × IpStats :=
  let stats := entry.getD ⟨0, 0, now⟩
  if maxConnPerIp ≤ stats.connectionCount then (false, stats)
  else (true, { stats with connectionCount := stats.connectionCount + 1 })

/-- The rate block of `handle_client`: whether the request passes, and the entry
afterwards.  `created` is the clock reading in the argument of `or_insert`. -/
def rateCheck (created now : Nat) (entry : Option IpStats) : Bool × IpStats :=
  let stats := entry.getD ⟨1, 0, created⟩
  if burstWindow < now - stats.lastRequestTime then
    (true, { stats with rpsCount := 1, lastRequestTime := now })
  else (decide (stats.rpsCount + 1 ≤ maxRpsPerIp), { stats with rpsCount := stats.rpsCount + 1 })

/-- The closure of the guard, run when `handle_client` ends. -/
def release (entry : Option IpStats) : Option IpStats :=
  entry.map fun stats =>
    if 0 < stats.connectionCount then { stats with connectionCount := stats.connectionCount - 1 }
    else stats

/-- The predicate of `retain`. -/
def retains (now : Nat) (stats : IpStats) : Bool :=
  decide (now - stats.lastRequestTime < staleAge) || decide (0 < stats.connectionCount)

/-! ## Handlers -/

/-- Where a `handle_client` task stands. -/
inductive Phase
  /-- accepted, before `try_acquire` -/
  | spawned
  /-- holds a permit, before the admission block -/
  | permitted
  /-- admitted, in the timed read -/
  | reading
  /-- has read some bytes, before the rate block -/
  | received
  /-- passed the rate block, connecting or copying -/
  | proxying
  /-- admitted, on its way out, before the guard is dropped -/
  | returning
  /-- holds a permit only -/
  | releasing
  | done
deriving DecidableEq

/-- The handler has passed admission, and its guard is not dropped. -/
def Phase.admitted : Phase → Bool
  | .reading | .received | .proxying | .returning => true
  | _ => false

/-- The handler holds a global permit. -/
def Phase.holdsPermit : Phase → Bool
  | .permitted | .reading | .received | .proxying | .returning | .releasing => true
  | _ => false

/-- How the timed read ends. -/
inductive ReadOutcome
  | data
  | eof
  | error
  | timeout
deriving DecidableEq

/-- The atomic moves of a handler. -/
inductive Move
  | acquire
  | admission (now : Nat)
  | read (outcome : ReadOutcome)
  | checkRate (created now : Nat)
  /-- connecting failed or timed out, a write failed, or one direction of the copy ended -/
  | finishProxying
  /-- the task is dropped at an `await` -/
  | cancel
  | dropGuard
  | dropPermit
deriving DecidableEq

variable {Addr : Type} [DecidableEq Addr]

/-- What the handlers share. -/
structure Shared (Addr : Type) where
  registry : Addr → Option IpStats
  freePermits : Nat

/-- A move of the handler of `addr`; `none` when it is not at that point. -/
def Phase.step (sh : Shared Addr) (addr : Addr) : Phase → Move → Option (Phase × Shared Addr)
  | .spawned, .acquire =>
      if 0 < sh.freePermits then some (.permitted, { sh with freePermits := sh.freePermits - 1 })
      else some (.done, sh)
  | .spawned, .cancel => some (.done, sh)
  | .permitted, .admission now =>
      let r := admission now (sh.registry addr)
      some (if r.1 then .reading else .releasing,
        { sh with registry := Function.update sh.registry addr (some r.2) })
  | .reading, .read .data => some (.received, sh)
  | .reading, .read _ => some (.returning, sh)
  | .reading, .cancel => some (.returning, sh)
  | .received, .checkRate created now =>
      let r := rateCheck created now (sh.registry addr)
      some (if r.1 then .proxying else .returning,
        { sh with registry := Function.update sh.registry addr (some r.2) })
  | .proxying, .finishProxying => some (.returning, sh)
  | .proxying, .cancel => some (.returning, sh)
  | .returning, .dropGuard =>
      some (.releasing,
        { sh with registry := Function.update sh.registry addr (release (sh.registry addr)) })
  | .releasing, .dropPermit => some (.done, { sh with freePermits := sh.freePermits + 1 })
  | _, _ => none

/-- **What a move can do**: take a permit, run one of the three blocks that write the
registry, give a permit back, or nothing but go on. -/
theorem Phase.step_cases {sh sh' : Shared Addr} {addr : Addr} {p p' : Phase} {m : Move}
    (h : p.step sh addr m = some (p', sh')) :
    (p = .spawned ∧ m = .acquire ∧ 0 < sh.freePermits ∧ p' = .permitted ∧
        sh' = { sh with freePermits := sh.freePermits - 1 }) ∨
      (∃ now, p = .permitted ∧ m = .admission now ∧
        p' = (if (admission now (sh.registry addr)).1 then .reading else .releasing) ∧
        sh' = ⟨Function.update sh.registry addr (some (admission now (sh.registry addr)).2),
          sh.freePermits⟩) ∨
      (∃ created now, p = .received ∧ m = .checkRate created now ∧
        p' = (if (rateCheck created now (sh.registry addr)).1 then .proxying else .returning) ∧
        sh' = ⟨Function.update sh.registry addr
          (some (rateCheck created now (sh.registry addr)).2), sh.freePermits⟩) ∨
      (p = .returning ∧ m = .dropGuard ∧ p' = .releasing ∧
        sh' = ⟨Function.update sh.registry addr (release (sh.registry addr)), sh.freePermits⟩) ∨
      (p = .releasing ∧ m = .dropPermit ∧ p' = .done ∧
        sh' = { sh with freePermits := sh.freePermits + 1 }) ∨
      ((∀ created now, m ≠ .checkRate created now) ∧ p'.admitted = p.admitted ∧
        p'.holdsPermit = p.holdsPermit ∧ sh' = sh) := by
  unfold Phase.step at h
  split at h
  case h_1 =>
    split at h <;> obtain ⟨rfl, rfl⟩ := Prod.mk.inj (Option.some.inj h)
    · exact Or.inl ⟨rfl, rfl, ‹_›, rfl, rfl⟩
    · exact Or.inr (Or.inr (Or.inr (Or.inr (Or.inr ⟨nofun, rfl, rfl, rfl⟩))))
  case h_3 now =>
    obtain ⟨rfl, rfl⟩ := Prod.mk.inj (Option.some.inj h)
    exact Or.inr (Or.inl ⟨now, rfl, rfl, rfl, rfl⟩)
  case h_7 created now =>
    obtain ⟨rfl, rfl⟩ := Prod.mk.inj (Option.some.inj h)
    exact Or.inr (Or.inr (Or.inl ⟨created, now, rfl, rfl, rfl, rfl⟩))
  case h_10 =>
    obtain ⟨rfl, rfl⟩ := Prod.mk.inj (Option.some.inj h)
    exact Or.inr (Or.inr (Or.inr (Or.inl ⟨rfl, rfl, rfl, rfl⟩)))
  case h_11 =>
    obtain ⟨rfl, rfl⟩ := Prod.mk.inj (Option.some.inj h)
    exact Or.inr (Or.inr (Or.inr (Or.inr (Or.inl ⟨rfl, rfl, rfl, rfl⟩))))
  case h_12 => cases h
  all_goals
    obtain ⟨rfl, rfl⟩ := Prod.mk.inj (Option.some.inj h)
    exact Or.inr (Or.inr (Or.inr (Or.inr (Or.inr ⟨nofun, rfl, rfl, rfl⟩))))

structure Handler (Addr : Type) where
  addr : Addr
  phase : Phase
deriving DecidableEq

/-- The proxy: what is shared, and every handler there has been. -/
structure Shield (Addr : Type) where
  shared : Shared Addr
  handlers : List (Handler Addr)

inductive Action (Addr : Type)
  /-- `accept` returns a connection from `addr`, and its handler is spawned -/
  | accept (addr : Addr)
  | handler (i : Nat) (move : Move)
  /-- `retain` looks at the entry of `key` -/
  | sweep (key : Addr) (now : Nat)
deriving DecidableEq

def Shield.start : Shield Addr := ⟨⟨fun _ => none, maxGlobalConnections⟩, []⟩

/-- The proxy under every interleaving of its handlers and the cleanup task. -/
def shield : Machine (Shield Addr) (Action Addr) where
  step s
    | .accept addr => some { s with handlers := s.handlers ++ [⟨addr, .spawned⟩] }
    | .handler i move =>
        s.handlers[i]?.bind fun h => (h.phase.step s.shared h.addr move).map fun r =>
          ⟨r.2, s.handlers.set i { h with phase := r.1 }⟩
    | .sweep key now => some { s with shared := { s.shared with
        registry := Function.update s.shared.registry key
          ((s.shared.registry key).filter (retains now)) } }

/-- What a step can do: spawn a handler, move one, or sweep an entry. -/
theorem shield_step_cases {s u : Shield Addr} {a : Action Addr} (h : shield.step s a = some u) :
    (∃ addr, a = .accept addr ∧ u = { s with handlers := s.handlers ++ [⟨addr, .spawned⟩] }) ∨
      (∃ i move hd phase' shared', a = .handler i move ∧ s.handlers[i]? = some hd ∧
        hd.phase.step s.shared hd.addr move = some (phase', shared') ∧
        u = ⟨shared', s.handlers.set i ⟨hd.addr, phase'⟩⟩) ∨
      ∃ key now, a = .sweep key now ∧ u = { s with shared := { s.shared with
        registry := Function.update s.shared.registry key
          ((s.shared.registry key).filter (retains now)) } } := by
  cases a with
  | accept addr => exact Or.inl ⟨addr, rfl, (Option.some.inj h).symm⟩
  | handler i move =>
    obtain ⟨hd, hi, hmap⟩ := Option.bind_eq_some_iff.mp h
    obtain ⟨⟨phase', shared'⟩, hstep, rfl⟩ := Option.map_eq_some_iff.mp hmap
    exact Or.inr (Or.inl ⟨i, move, hd, phase', shared', rfl, hi, hstep, rfl⟩)
  | sweep key now => exact Or.inr (Or.inr ⟨key, now, rfl, (Option.some.inj h).symm⟩)

/-- A handler that can move does. -/
theorem shield_step_handler {s : Shield Addr} {i : Nat} {move : Move} {hd : Handler Addr}
    {phase' : Phase} {shared' : Shared Addr} (hi : s.handlers[i]? = some hd)
    (hstep : hd.phase.step s.shared hd.addr move = some (phase', shared')) :
    shield.step s (.handler i move) = some ⟨shared', s.handlers.set i ⟨hd.addr, phase'⟩⟩ := by
  simp [shield, hi, hstep]

/-! ## What the blocks do to a counter -/

/-- The connection count of an entry, 0 if there is none. -/
def countOf (entry : Option IpStats) : Nat := (entry.map IpStats.connectionCount).getD 0

/-- Admission adds one to the count below the limit and refuses at the limit. -/
theorem admission_spec (now : Nat) (entry : Option IpStats) :
    (countOf entry < maxConnPerIp ∧ (admission now entry).1 = true ∧
        countOf (some (admission now entry).2) = countOf entry + 1) ∨
      (maxConnPerIp ≤ countOf entry ∧ (admission now entry).1 = false ∧
        some (admission now entry).2 = entry) := by
  unfold admission
  cases entry with
  | none => left; simp [countOf, maxConnPerIp]
  | some stats =>
    rcases Nat.lt_or_ge stats.connectionCount maxConnPerIp with hlt | hge
    · left
      simp [countOf, Nat.not_le.mpr hlt, hlt]
    · right
      simp [countOf, hge]

/-- The rate block leaves the count of an existing entry alone. -/
theorem rateCheck_count {created now : Nat} {entry : Option IpStats} (h : entry ≠ none) :
    countOf (some (rateCheck created now entry).2) = countOf entry := by
  obtain ⟨stats, rfl⟩ := Option.ne_none_iff_exists'.mp h
  unfold rateCheck
  simp only [Option.getD_some]
  split <;> rfl

theorem release_count (entry : Option IpStats) : countOf (release entry) = countOf entry - 1 := by
  cases entry with
  | none => rfl
  | some stats =>
    simp only [release, countOf, Option.map_some, Option.getD_some]
    split
    · rfl
    · omega

/-- The sweep keeps every entry that counts a connection. -/
theorem filter_retains_of_pos {now : Nat} {entry : Option IpStats} (h : 0 < countOf entry) :
    entry.filter (retains now) = entry := by
  cases entry with
  | none => rfl
  | some stats =>
    have hpos : 0 < stats.connectionCount := h
    simp [Option.filter, retains, hpos]

theorem filter_retains_count (now : Nat) (entry : Option IpStats) :
    countOf (entry.filter (retains now)) = countOf entry := by
  rcases Nat.eq_zero_or_pos (countOf entry) with h0 | hpos
  · cases entry with
    | none => rfl
    | some stats =>
      simp only [Option.filter]
      split
      · rfl
      · exact h0.symm
  · rw [filter_retains_of_pos hpos]

end RustSamples.AntiDdos
