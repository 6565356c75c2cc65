import RustSamples.AntiDdosAccounting
import RustSamples.RateWindow

/-! # The request rate of the `anti_ddos` shield

The rate block counts requests in fixed windows, one sequence of windows for each
key.  A window starts where `last_request_time` of the key's entry appears or moves:
when admission creates the entry, and when the rate block finds the window older
than `BURST_WINDOW`.  The sweep can delete the entry, and admission then starts a
window without having seen the last one; what keeps the two apart is that the sweep
deletes only what is older than 60 s.

`RateStep` says what one step of the proxy can do to the entry of one key, to the
clock and to the log of that key's window starts and passes.  `RateBook` ties the
entry to the history of windows and is kept by every `RateStep`; the bounds are then
those of any limiter that counts in windows.
-/
namespace RustSamples.AntiDdos
open Scheduling RateWindow

variable {Addr : Type} [DecidableEq Addr]

/-! ## What is observed of a key -/

/-- The window start seen at an entry: its `last_request_time` appears or moves. -/
def windowStarts (before after : Option IpStats) : List Event :=
  match after with
  | none => []
  | some stats =>
      if before.map IpStats.lastRequestTime = some stats.lastRequestTime then []
      else [.start stats.lastRequestTime]

/-- The pass seen after an action: a handler of the key is through the rate block. -/
def passesOf (key : Addr) (u : Shield Addr) : Action Addr → List Event
  | .handler i (.checkRate _ now) =>
      match u.handlers[i]? with
      | some h => if h.addr = key ∧ h.phase = .proxying then [.pass now] else []
      | none => []
  | _ => []

/-- The window starts and the passes of a key that an action brings about. -/
def rateEvents (key : Addr) (s : Shield Addr) (a : Action Addr) : List Event :=
  match shield.step s a with
  | none => []
  | some u => windowStarts (s.shared.registry key) (u.shared.registry key) ++ passesOf key u a

/-- The clock readings an action takes while it holds the entry of a key. -/
def clockReadings (key : Addr) (s : Shield Addr) : Action Addr → List Nat
  | .handler i (.admission now) =>
      if s.handlers[i]?.map Handler.addr = some key then [now] else []
  | .handler i (.checkRate created now) =>
      if s.handlers[i]?.map Handler.addr = some key then [created, now] else []
  | .sweep key' now => if key' = key ∧ (s.shared.registry key).isSome then [now] else []
  | _ => []

/-! ## What a step does to a key -/

/-- The part of an entry the rate block reads. -/
def rateView (stats : IpStats) : Nat × Nat := (stats.lastRequestTime, stats.rpsCount)

/-- What a step can do to the entry of a key, with the clock readings it takes and
the events it shows. -/
inductive RateStep : Option IpStats → Option IpStats → List Nat → List Event → Prop
  | idle {before after : Option IpStats} {readings : List Nat}
      (h : after.map rateView = before.map rateView) : RateStep before after readings []
  | create {now : Nat} {stats : IpStats} (h : rateView stats = (now, 0)) :
      RateStep none (some stats) [now] [.start now]
  | reset {created now : Nat} {stats stats' : IpStats}
      (hold : burstWindow < now - stats.lastRequestTime) (h : rateView stats' = (now, 1)) :
      RateStep (some stats) (some stats') [created, now] [.start now, .pass now]
  | count {created now : Nat} {stats stats' : IpStats}
      (hnew : now - stats.lastRequestTime ≤ burstWindow)
      (h : rateView stats' = (stats.lastRequestTime, stats.rpsCount + 1)) :
      RateStep (some stats) (some stats') [created, now]
        (if stats.rpsCount + 1 ≤ maxRpsPerIp then [.pass now] else [])
  | remove {now : Nat} {stats : IpStats} (h : retains now stats = false) :
      RateStep (some stats) none [now] []

theorem windowStarts_of_rateView {before after : Option IpStats}
    (h : after.map rateView = before.map rateView) : windowStarts before after = [] := by
  cases after with
  | none => rfl
  | some stats =>
    cases before with
    | none => cases h
    | some stats₀ =>
      have hlast : stats.lastRequestTime = stats₀.lastRequestTime :=
        (Prod.mk.inj (Option.some.inj h)).1
      simp [windowStarts, hlast]

theorem rateView_release (entry : Option IpStats) :
    (release entry).map rateView = entry.map rateView := by
  cases entry with
  | none => rfl
  | some stats =>
    simp only [release, Option.map_some]
    split <;> rfl

/-- The admission block creates an entry or leaves the rate counter alone. -/
theorem rateStep_admission (now : Nat) (entry : Option IpStats) :
    RateStep entry (some (admission now entry).2) [now]
      (windowStarts entry (some (admission now entry).2)) := by
  cases entry with
  | none => exact .create rfl
  | some stats =>
    have hview : (some (admission now (some stats)).2).map rateView =
        (some stats).map rateView := by
      simp only [admission, Option.getD_some]
      split <;> rfl
    rw [windowStarts_of_rateView hview]
    exact .idle hview

/-- The rate block of an existing entry starts a window or counts in the current one. -/
theorem rateStep_rateCheck (created now : Nat) (stats : IpStats) :
    RateStep (some stats) (some (rateCheck created now (some stats)).2) [created, now]
      (windowStarts (some stats) (some (rateCheck created now (some stats)).2) ++
        if (rateCheck created now (some stats)).1 then [.pass now] else []) := by
  rcases Nat.lt_or_ge burstWindow (now - stats.lastRequestTime) with hold | hnew
  · have hmoved : stats.lastRequestTime ≠ now := by omega
    have hr : rateCheck created now (some stats) =
        (true, { stats with rpsCount := 1, lastRequestTime := now }) := by
      simp [rateCheck, hold]
    rw [hr]
    simpa [windowStarts, hmoved] using RateStep.reset hold rfl
  · have hr : rateCheck created now (some stats) = (decide (stats.rpsCount + 1 ≤ maxRpsPerIp),
        { stats with rpsCount := stats.rpsCount + 1 }) := by
      simp [rateCheck, Nat.not_lt.mpr hnew]
    rw [hr]
    simpa [windowStarts] using RateStep.count hnew rfl

omit [DecidableEq Addr] in
/-- The handler that has just moved. -/
theorem getElem?_moved {handlers : List (Handler Addr)} {i : Nat} {hd : Handler Addr}
    (hi : handlers[i]? = some hd) (hd' : Handler Addr) : (handlers.set i hd')[i]? = some hd' := by
  obtain ⟨hlt, -⟩ := List.getElem?_eq_some_iff.mp hi
  simp [hlt]

/-- A move of a handler of the key is a `RateStep`. -/
theorem rateStep_of_move {s : Shield Addr} (hs : Accounting s) {i : Nat} {hd : Handler Addr}
    {m : Move} {p' : Phase} {sh' : Shared Addr} (hi : s.handlers[i]? = some hd)
    (hstep : hd.phase.step s.shared hd.addr m = some (p', sh')) :
    RateStep (s.shared.registry hd.addr) (sh'.registry hd.addr)
      (clockReadings hd.addr s (.handler i m))
      (windowStarts (s.shared.registry hd.addr) (sh'.registry hd.addr) ++
        passesOf hd.addr ⟨sh', s.handlers.set i ⟨hd.addr, p'⟩⟩ (.handler i m)) := by
  -- a move that leaves the entry's part in the rate alone and is no rate block
  have hidle (hview : (sh'.registry hd.addr).map rateView =
      (s.shared.registry hd.addr).map rateView) (hne : ∀ created now, m ≠ .checkRate created now) :
      RateStep (s.shared.registry hd.addr) (sh'.registry hd.addr)
        (clockReadings hd.addr s (.handler i m))
        (windowStarts (s.shared.registry hd.addr) (sh'.registry hd.addr) ++
          passesOf hd.addr ⟨sh', s.handlers.set i ⟨hd.addr, p'⟩⟩ (.handler i m)) := by
    have hpass : passesOf hd.addr ⟨sh', s.handlers.set i ⟨hd.addr, p'⟩⟩ (.handler i m) = [] := by
      cases m with
      | checkRate created now => exact absurd rfl (hne created now)
      | _ => rfl
    rw [windowStarts_of_rateView hview, hpass]
    exact .idle hview
  rcases Phase.step_cases hstep with ⟨-, rfl, -, -, rfl⟩ | ⟨now, -, rfl, -, rfl⟩ |
    ⟨created, now, hp, rfl, rfl, rfl⟩ | ⟨-, rfl, -, rfl⟩ | ⟨-, rfl, -, rfl⟩ | ⟨hne, -, -, rfl⟩
  · exact hidle rfl nofun
  · simp only [Function.update_self]
    simpa [clockReadings, hi, passesOf] using rateStep_admission now (s.shared.registry hd.addr)
  · -- the entry is there, because the handler is counted in it
    obtain ⟨stats, hstats, -⟩ := hs.entry_of_admitted (List.mem_of_getElem? hi) (by rw [hp]; rfl)
    simp only [Function.update_self, hstats]
    have hcheck := rateStep_rateCheck created now stats
    cases hr : (rateCheck created now (some stats)).1 <;>
      simpa [clockReadings, hi, passesOf, getElem?_moved hi, hr] using hcheck
  · exact hidle (by simp only [Function.update_self, rateView_release]) nofun
  · exact hidle rfl nofun
  · exact hidle rfl hne

/-- **Every step of the proxy is a `RateStep` of every key.** -/
theorem rateStep_of_step {s u : Shield Addr} (hs : Accounting s) {a : Action Addr}
    (h : shield.step s a = some u) (key : Addr) :
    RateStep (s.shared.registry key) (u.shared.registry key) (clockReadings key s a)
      (rateEvents key s a) := by
  rw [rateEvents, h]
  rcases shield_step_cases h with ⟨addr, rfl, rfl⟩ | ⟨i, m, hd, p', sh', rfl, hi, hstep, rfl⟩ |
    ⟨key', now, rfl, rfl⟩
  · simp only [windowStarts_of_rateView rfl, passesOf, List.append_nil]
    exact .idle rfl
  · by_cases hkey : hd.addr = key
    · subst hkey
      exact rateStep_of_move hs hi hstep
    · -- another key's handler
      have hframe := (Phase.step_counts (hs.pos_of_admitted hi) hstep).1 key (Ne.symm hkey)
      have hpass : passesOf key ⟨sh', s.handlers.set i ⟨hd.addr, p'⟩⟩ (.handler i m) = [] := by
        cases m with
        | checkRate created now => simp [passesOf, getElem?_moved hi, hkey]
        | _ => rfl
      simp only [hframe, hpass, windowStarts_of_rateView rfl, List.append_nil]
      exact .idle rfl
  · by_cases hkey : key = key'
    · subst hkey
      simp only [Function.update_self, passesOf, List.append_nil]
      cases hentry : s.shared.registry key with
      | none => exact .idle rfl
      | some stats =>
        simp only [clockReadings, hentry, Option.filter]
        cases hret : retains now stats with
        | true =>
          have hkept : RateStep (some stats) (some stats) [now] [] := .idle rfl
          simpa [windowStarts] using hkept
        | false => simpa [windowStarts] using RateStep.remove hret
    · simp only [Function.update_of_ne hkey, windowStarts_of_rateView rfl, passesOf,
        List.append_nil]
      exact .idle rfl

/-! ## The history of a key -/

/-- The entry of a key against the history of its windows.  While there is an entry,
it is about the newest window and has counted every pass in it; while there is none,
every window is older than `BURST_WINDOW` at some reading of the clock. -/
structure RateBook (readings : List Nat) (entry : Option IpStats)
    (ws : List (Window burstWindow maxRpsPerIp)) : Prop where
  spaced : Spaced ws
  read : ∀ w ∈ ws, w.start ∈ readings
  current : ∀ stats, entry = some stats → ∃ w ws', ws = w :: ws' ∧
    w.start = stats.lastRequestTime ∧ w.passes.length ≤ stats.rpsCount
  closed : entry = none → ∀ w ∈ ws, ∃ r ∈ readings, w.start + burstWindow < r

theorem rateBook_start : RateBook [] none [] where
  spaced := List.Pairwise.nil
  read := nofun
  current := nofun
  closed := nofun

section
variable {readings readings' : List Nat} {ws : List (Window burstWindow maxRpsPerIp)}
  {w : Window burstWindow maxRpsPerIp} {entry : Option IpStats} {stats stats' : IpStats} {now : Nat}

theorem RateBook.read_append (hb : RateBook readings entry ws) :
    ∀ w ∈ ws, w.start ∈ readings ++ readings' :=
  fun w hw => List.mem_append_left _ (hb.read w hw)

/-- The entry's part in the rate is all the book is about. -/
theorem RateBook.congr {entry' : Option IpStats} (hb : RateBook readings entry ws)
    (h : entry'.map rateView = entry.map rateView) :
    RateBook (readings ++ readings') entry' ws where
  spaced := hb.spaced
  read := hb.read_append
  current := by
    rintro stats rfl
    obtain ⟨stats₀, hentry, hview⟩ := Option.map_eq_some_iff.mp h.symm
    obtain ⟨hlast, hrps⟩ := Prod.mk.inj hview
    obtain ⟨w, ws', hws, hstart, hpasses⟩ := hb.current stats₀ hentry
    exact ⟨w, ws', hws, hstart.trans hlast, hrps ▸ hpasses⟩
  closed := by
    rintro rfl w hw
    obtain ⟨r, hr, hlt⟩ := hb.closed (Option.map_eq_none_iff.mp h.symm) w hw
    exact ⟨r, List.mem_append_left _ hr, hlt⟩

/-- A window starts when all are older than `BURST_WINDOW`. -/
theorem RateBook.fresh (hb : RateBook readings entry ws)
    (hold : ∀ w ∈ ws, w.start + burstWindow < now) (hnow : now ∈ readings')
    (h : rateView stats = (now, 0)) :
    RateBook (readings ++ readings') (some stats) (Window.fresh now :: ws) where
  spaced := List.pairwise_cons.mpr ⟨hold, hb.spaced⟩
  read := List.forall_mem_cons.mpr ⟨List.mem_append_right _ hnow, hb.read_append⟩
  current := by
    intro stats' hstats
    obtain rfl := Option.some.inj hstats
    exact ⟨_, ws, rfl, (Prod.mk.inj h).1.symm, Nat.zero_le _⟩
  closed := nofun

/-- A request within `BURST_WINDOW` of the window's start is counted, and it passes
while there is room. -/
theorem RateBook.count (hb : RateBook readings (some stats) (w :: ws))
    (ht : w.start ≤ now ∧ now ≤ w.start + burstWindow)
    (h : rateView stats' = (stats.lastRequestTime, stats.rpsCount + 1)) :
    ∃ ws', RateBook readings (some stats') ws' ∧ logOf ws' = logOf (w :: ws) ++
      if stats.rpsCount + 1 ≤ maxRpsPerIp then [.pass now] else [] := by
  obtain ⟨hlast, hrps⟩ := Prod.mk.inj h
  obtain ⟨w₀, ws₀, hws, hstart, hpasses⟩ := hb.current stats rfl
  obtain ⟨rfl, rfl⟩ := List.cons.inj hws
  by_cases hroom : stats.rpsCount + 1 ≤ maxRpsPerIp
  · rw [if_pos hroom]
    refine ⟨w.pass now ht (by omega) :: ws,
      ⟨hb.spaced.pass, ?_, ?_, fun h => absurd h (Option.some_ne_none _)⟩, logOf_pass ..⟩
    · exact List.forall_mem_cons.mpr (List.forall_mem_cons.mp hb.read)
    · intro stats₁ hstats
      obtain rfl := Option.some.inj hstats
      refine ⟨_, ws, rfl, hstart.trans hlast.symm, ?_⟩
      rw [Window.pass, List.length_append, List.length_singleton, hrps]
      omega
  · rw [if_neg hroom]
    refine ⟨w :: ws, ⟨hb.spaced, hb.read, ?_, fun h => absurd h (Option.some_ne_none _)⟩,
      (List.append_nil _).symm⟩
    intro stats₁ hstats
    obtain rfl := Option.some.inj hstats
    exact ⟨w, ws, rfl, hstart.trans hlast.symm, by omega⟩

/-- What the sweep removes is older than `BURST_WINDOW`. -/
theorem RateBook.remove (hb : RateBook readings (some stats) ws) (hnow : now ∈ readings')
    (h : retains now stats = false) : RateBook (readings ++ readings') none ws where
  spaced := hb.spaced
  read := hb.read_append
  current := nofun
  closed := by
    obtain ⟨w, ws', rfl, hstart, -⟩ := hb.current stats rfl
    have hstale : staleAge ≤ now - stats.lastRequestTime := by
      simp only [retains, Bool.or_eq_false_iff, decide_eq_false_iff_not] at h
      omega
    have hwidth : burstWindow < staleAge := by decide
    have hold := hb.spaced.lt_of_head (show w.start + burstWindow < now by omega)
    exact fun _ v hv => ⟨now, List.mem_append_right _ hnow, hold v hv⟩

/-- **The book is kept** by what a step does to the key, with the step's events
written behind the log. -/
theorem rateBook_step {before after : Option IpStats} {events : List Event}
    (hb : RateBook readings before ws) (hclock : (readings ++ readings').Pairwise (· ≤ ·))
    (hstep : RateStep before after readings' events) :
    ∃ ws', RateBook (readings ++ readings') after ws' ∧ logOf ws' = logOf ws ++ events := by
  have hlater : ∀ r ∈ readings, ∀ r' ∈ readings', r ≤ r' := (List.pairwise_append.mp hclock).2.2
  cases hstep with
  | idle h => exact ⟨ws, hb.congr h, (List.append_nil _).symm⟩
  | @create now stats h =>
    refine ⟨Window.fresh now :: ws, hb.fresh ?_ List.mem_cons_self h, rfl⟩
    intro w hw
    obtain ⟨r, hr, hlt⟩ := hb.closed rfl w hw
    exact Nat.lt_of_lt_of_le hlt (hlater r hr now List.mem_cons_self)
  | @reset created now stats stats' hold h =>
    -- a fresh window, and the request counted in it
    obtain ⟨hlast, hrps⟩ := Prod.mk.inj h
    obtain ⟨w, ws, rfl, hstart, -⟩ := hb.current stats rfl
    have hfresh : RateBook (readings ++ [created, now]) (some ⟨0, 0, now⟩)
        (Window.fresh now :: w :: ws) :=
      hb.fresh (hb.spaced.lt_of_head (show w.start + burstWindow < now by omega)) (by simp) rfl
    have hnow : now ≤ now ∧ now ≤ now + burstWindow := ⟨Nat.le_refl now, Nat.le_add_right _ _⟩
    obtain ⟨ws', hb', hlog⟩ := hfresh.count hnow h
    refine ⟨ws', hb', hlog.trans ?_⟩
    rw [logOf_fresh, List.append_assoc]
    rfl
  | @count created now stats stats' hnew h =>
    obtain ⟨w, ws, rfl, hstart, -⟩ := hb.current stats rfl
    have hge : w.start ≤ now := hlater _ (hb.read w List.mem_cons_self) now (by simp)
    exact (hb.congr rfl).count ⟨hge, by omega⟩ h
  | remove h => exact ⟨ws, hb.remove List.mem_cons_self h, (List.append_nil _).symm⟩

end

/-- The clock of a key is monotone in a run: its readings do not decrease in the order
in which the entry is locked. -/
def MonotoneClock (key : Addr) (actions : List (Action Addr)) : Prop :=
  (shield.observations (clockReadings key) .start actions).Pairwise (· ≤ ·)

/-- The window starts and passes of a key in a run. -/
def rateLog (key : Addr) (actions : List (Action Addr)) : List Event :=
  shield.observations (rateEvents key) .start actions

/-- **The book of every run.**  The log of a key is that of a history of spaced
windows. -/
theorem rateBook_run {s : Shield Addr} {actions : List (Action Addr)} {key : Addr}
    (hrun : shield.run .start actions = some s) (hclock : MonotoneClock key actions) :
    ∃ ws, RateBook (shield.observations (clockReadings key) .start actions)
      (s.shared.registry key) ws ∧ logOf ws = rateLog key actions := by
  revert hclock
  refine shield.run_induction (I := fun as t => MonotoneClock key as →
    ∃ ws, RateBook (shield.observations (clockReadings key) .start as) (t.shared.registry key) ws ∧
      logOf ws = rateLog key as) ?_ ?_ hrun
  · exact fun _ => ⟨[], rateBook_start, rfl⟩
  intro as t a u hrun' ih hstep hclock
  rw [MonotoneClock, shield.observations_concat _ hrun'] at hclock
  rw [rateLog, shield.observations_concat _ hrun', shield.observations_concat _ hrun']
  obtain ⟨ws, hb, hlog⟩ := ih (List.pairwise_append.mp hclock).1
  obtain ⟨ws', hb', hlog'⟩ :=
    rateBook_step hb hclock (rateStep_of_step (accounting_run hrun') hstep key)
  exact ⟨ws', hb', hlog'.trans (by rw [hlog, rateLog])⟩

/-- **The request rate of a key is bounded**, across resets of the window and across
removal and re-creation of the entry: at most `MAX_RPS_PER_IP` requests pass in a
stretch of the log without a window start, and at most twice that in any closed
interval of length `BURST_WINDOW`. -/
theorem request_rate_bounded {s : Shield Addr} {actions : List (Action Addr)} {key : Addr}
    (hrun : shield.run .start actions = some s) (hclock : MonotoneClock key actions) :
    (∀ stretch, stretch <:+: rateLog key actions → (∀ e ∈ stretch, e.isStart = false) →
        stretch.countP Event.isPass ≤ maxRpsPerIp) ∧
      ∀ t, (rateLog key actions).countP (Event.passesIn t (t + burstWindow)) ≤ 2 * maxRpsPerIp := by
  obtain ⟨ws, hb, hlog⟩ := rateBook_run hrun hclock
  rw [← hlog]
  constructor
  · intro stretch hstretch hno
    exact countP_isPass_le ws hno hstretch
  · intro t
    exact countP_passesIn_le hb.spaced t

/-- A connection that passes the rate block, is closed, is swept a minute later and
comes back. -/
def returningClient : List (Action Nat) :=
  [.accept 7, .handler 0 .acquire, .handler 0 (.admission 5), .handler 0 (.read .data),
    .handler 0 (.checkRate 6 6), .handler 0 .finishProxying, .handler 0 .dropGuard,
    .handler 0 .dropPermit, .sweep 7 (staleAge + 5), .accept 7, .handler 1 .acquire,
    .handler 1 (.admission (staleAge + 6)), .handler 1 (.read .data),
    .handler 1 (.checkRate (staleAge + 7) (staleAge + 7))]

theorem request_rate_bounded_returningClient :
    rateLog 7 returningClient = [.start 5, .pass 6, .start (staleAge + 6), .pass (staleAge + 7)] ∧
      (rateLog 7 returningClient).countP (Event.passesIn 6 (6 + burstWindow)) ≤
        2 * maxRpsPerIp := by
  obtain ⟨s, hs⟩ : ∃ s, shield.run .start returningClient = some s := ⟨_, rfl⟩
  exact ⟨by decide, (request_rate_bounded hs (by unfold MonotoneClock; decide)).2 6⟩

end RustSamples.AntiDdos
