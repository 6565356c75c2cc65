import Mathlib.Data.List.Basic
import Mathlib.Data.List.Infix

/-! # Fixed windows and sliding intervals

A limiter that counts in fixed windows lets at most `limit` requests pass in a
window, and starts the next window only when the last one is more than `width` old.
What it guarantees about an arbitrary interval of length `width` is weaker by a
factor of two: such an interval meets two windows at most.

A `Window` carries the two facts about itself.  A history is the list of the
windows so far, the newest first; `logOf` is the chronological list of events an
observer of it sees, and the bounds are about that log.
-/
namespace RateWindow

/-- What an observer of a limiter sees, each with its time. -/
inductive Event
  | start (time : Nat)
  | pass (time : Nat)
deriving DecidableEq

def Event.isStart : Event → Bool
  | .start _ => true
  | .pass _ => false

def Event.isPass : Event → Bool
  | .start _ => false
  | .pass _ => true

/-- The event is a pass in the closed interval from `a` to `b`. -/
def Event.passesIn (a b : Nat) : Event → Bool
  | .start _ => false
  | .pass t => decide (a ≤ t ∧ t ≤ b)

/-- A window and the times of the requests that passed in it. -/
structure Window (width limit : Nat) where
  start : Nat
  passes : List Nat
  within : ∀ t ∈ passes, start ≤ t ∧ t ≤ start + width
  bounded : passes.length ≤ limit

variable {width limit : Nat}

/-- A window in which nothing has passed yet. -/
def Window.fresh (start : Nat) : Window width limit :=
  ⟨start, [], fun _ ht => absurd ht List.not_mem_nil, Nat.zero_le _⟩

/-- A window with one more pass. -/
def Window.pass (w : Window width limit) (t : Nat) (ht : w.start ≤ t ∧ t ≤ w.start + width)
    (hroom : w.passes.length < limit) : Window width limit where
  start := w.start
  passes := w.passes ++ [t]
  within := by
    intro t' ht'
    rcases List.mem_append.mp ht' with hold | hnew
    · exact w.within t' hold
    · rw [List.mem_singleton.mp hnew]; exact ht
  bounded := by rw [List.length_append]; exact hroom

/-- A window starts more than `width` after every older one. -/
def Spaced (ws : List (Window width limit)) : Prop :=
  ws.Pairwise fun newer older => older.start + width < newer.start

theorem Spaced.pass {w : Window width limit} {ws : List (Window width limit)} {t : Nat} {ht}
    {hroom} (hs : Spaced (w :: ws)) : Spaced (w.pass t ht hroom :: ws) :=
  List.pairwise_cons.mpr (List.pairwise_cons.mp hs)

/-- What is more than `width` behind the newest window is more than that behind all. -/
theorem Spaced.lt_of_head {w : Window width limit} {ws : List (Window width limit)} {t : Nat}
    (hs : Spaced (w :: ws)) (h : w.start + width < t) : ∀ v ∈ w :: ws, v.start + width < t := by
  refine List.forall_mem_cons.mpr ⟨h, fun v hv => ?_⟩
  have hvw := (List.pairwise_cons.mp hs).1 v hv
  omega

/-- The events of a window. -/
def Window.events (w : Window width limit) : List Event := .start w.start :: w.passes.map .pass

/-- The events of a history in the order of time. -/
def logOf : List (Window width limit) → List Event
  | [] => []
  | w :: ws => logOf ws ++ w.events

theorem logOf_fresh (ws : List (Window width limit)) (t : Nat) :
    logOf (Window.fresh t :: ws) = logOf ws ++ [.start t] := rfl

theorem logOf_pass (w : Window width limit) (ws : List (Window width limit)) {t : Nat} (ht)
    (hroom) : logOf (w.pass t ht hroom :: ws) = logOf (w :: ws) ++ [.pass t] := by
  simp [logOf, Window.events, Window.pass]

/-! ## Between two starts -/

theorem countP_isPass_events (w : Window width limit) :
    w.events.countP Event.isPass = w.passes.length := by
  have hall : (w.passes.map Event.pass).countP Event.isPass = (w.passes.map Event.pass).length := by
    refine List.countP_eq_length.mpr ?_
    intro e he
    obtain ⟨t, -, rfl⟩ := List.mem_map.mp he
    rfl
  rw [Window.events, List.countP_cons_of_neg (by simp [Event.isPass]), hall, List.length_map]

/-- A stretch without a start lies before a start, or behind it. -/
theorem infix_of_no_start {mid xs ys : List Event} {t : Nat}
    (hmid : ∀ e ∈ mid, e.isStart = false) (h : mid <:+: xs ++ .start t :: ys) :
    mid <:+: xs ∨ mid <:+: ys := by
  obtain ⟨pre, post, h⟩ := h
  have hnot : Event.start t ∉ mid := fun hmem => Bool.noConfusion (hmid _ hmem)
  rcases List.append_eq_append_iff.mp h with ⟨xs', rfl, -⟩ | ⟨ys', hys', hpost⟩
  · exact Or.inl ⟨pre, xs', rfl⟩
  · cases ys' with
    | nil => exact Or.inl ⟨pre, [], by simpa using hys'⟩
    | cons e ys' =>
      obtain ⟨rfl, rfl⟩ := List.cons.inj hpost
      rcases List.append_eq_append_iff.mp hys' with ⟨mid', -, rfl⟩ | ⟨pre', rfl, hsuf⟩
      · exact absurd (List.mem_append_right _ List.mem_cons_self) hnot
      · cases pre' with
        | nil =>
          rw [List.nil_append] at hsuf
          exact absurd (hsuf ▸ List.mem_cons_self) hnot
        | cons e' pre' =>
          obtain ⟨-, rfl⟩ := List.cons.inj hsuf
          exact Or.inr ⟨pre', post, rfl⟩

/-- **Between two consecutive starts at most `limit` requests pass.** -/
theorem countP_isPass_le (ws : List (Window width limit)) {mid : List Event}
    (hmid : ∀ e ∈ mid, e.isStart = false) (h : mid <:+: logOf ws) :
    mid.countP Event.isPass ≤ limit := by
  induction ws with
  | nil =>
    obtain rfl := List.eq_nil_of_infix_nil h
    exact Nat.zero_le _
  | cons w ws ih =>
    rcases infix_of_no_start hmid h with hold | hnew
    · exact ih hold
    · calc mid.countP Event.isPass
          ≤ (w.passes.map Event.pass).countP Event.isPass := hnew.sublist.countP_le
        _ ≤ w.events.countP Event.isPass := (List.sublist_cons_self _ _).countP_le
        _ ≤ limit := by rw [countP_isPass_events]; exact w.bounded

/-! ## In a sliding interval -/

theorem countP_passesIn_events_le (w : Window width limit) (a b : Nat) :
    w.events.countP (Event.passesIn a b) ≤ limit := by
  refine Nat.le_trans (List.countP_mono_left ?_) ((countP_isPass_events w).trans_le w.bounded)
  intro e _ he
  cases e with
  | start t => cases he
  | pass t => rfl

/-- A window that ends before the interval or starts behind it has no pass in it. -/
theorem countP_passesIn_events_eq_zero {w : Window width limit} {a b : Nat}
    (h : w.start + width < a ∨ b < w.start) : w.events.countP (Event.passesIn a b) = 0 := by
  refine List.countP_eq_zero.mpr ?_
  intro e he hin
  cases e with
  | start t => cases hin
  | pass t =>
    have hmem : t ∈ w.passes := by simpa [Window.events] using he
    obtain ⟨hge, hle⟩ := w.within t hmem
    simp only [Event.passesIn, decide_eq_true_eq] at hin
    omega

theorem countP_passesIn_eq_zero {ws : List (Window width limit)} {a b : Nat}
    (h : ∀ w ∈ ws, w.start + width < a) : (logOf ws).countP (Event.passesIn a b) = 0 := by
  induction ws with
  | nil => rfl
  | cons w ws ih =>
    rw [logOf, List.countP_append, ih fun v hv => h v (List.mem_cons_of_mem _ hv),
      countP_passesIn_events_eq_zero (Or.inl (h w List.mem_cons_self))]

/-- **In a closed interval of length `width` at most twice `limit` requests pass.** -/
theorem countP_passesIn_le {ws : List (Window width limit)} (hs : Spaced ws) (a : Nat) :
    (logOf ws).countP (Event.passesIn a (a + width)) ≤ 2 * limit := by
  induction ws with
  | nil => exact Nat.zero_le _
  | cons w ws ih =>
    obtain ⟨hnewest, hs⟩ := List.pairwise_cons.mp hs
    have hw := countP_passesIn_events_le w a (a + width)
    rw [logOf, List.countP_append]
    -- either the newest window starts behind the interval, or the third newest ends before it
    rcases Nat.lt_or_ge (a + width) w.start with hlate | hearly
    · rw [countP_passesIn_events_eq_zero (Or.inr hlate)]
      exact ih hs
    · cases ws with
      | nil => simp only [logOf, List.countP_nil]; omega
      | cons v ws =>
        obtain ⟨hsecond, -⟩ := List.pairwise_cons.mp hs
        have hv := countP_passesIn_events_le v a (a + width)
        have hold : (logOf ws).countP (Event.passesIn a (a + width)) = 0 := by
          refine countP_passesIn_eq_zero fun u hu => ?_
          have huv := hsecond u hu
          have hvw := hnewest v List.mem_cons_self
          omega
        rw [logOf, List.countP_append, hold]
        omega

end RateWindow
