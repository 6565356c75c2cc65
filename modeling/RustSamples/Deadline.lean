import Mathlib.Data.Nat.Basic

/-! # Collecting under a deadline

A loop collects items one by one and hands over what it has when a timer fires, or earlier when it
has enough.  With every handing over, and when the timer fires on nothing, the timer is set again;
an item does not set it.  So the deadline is never later than the timeout after the arrival of an
item that waits (`OnTime.due`).

How late the loop is, is not up to it.  A turn is *prompt* if it is taken at most `latency` after
the turn before and the deadline, whichever is later.  Each item that the loop takes when the
deadline is over delays the timer by a turn; what bounds this is that there are only so many items
before it has enough (`OnTime.late`).
-/
namespace Deadline

/-- What a loop knows of time at its head: the time of the last turn, the deadline of its timer, and
when the items that wait arrived. -/
structure Clock where
  now : Nat
  deadline : Nat
  arrivals : List Nat

namespace Clock

/-- A turn at the time `t` is neither in the past nor late by more than `latency`. -/
def Prompt (c : Clock) (latency t : Nat) : Prop := c.now ≤ t ∧ t ≤ max c.now c.deadline + latency

instance (c : Clock) (latency t : Nat) : Decidable (c.Prompt latency t) :=
  inferInstanceAs (Decidable (_ ∧ _))

/-- An item arrives, and waits. -/
def collect (c : Clock) (t : Nat) : Clock := ⟨t, c.deadline, c.arrivals ++ [t]⟩

/-- Nothing waits, and the timer is set again. -/
def restart (timeout t : Nat) : Clock := ⟨t, t + timeout, []⟩

/-- What is true of a loop whose turns are prompt. -/
structure OnTime (timeout latency : Nat) (c : Clock) : Prop where
  soon : c.deadline ≤ c.now + timeout
  past : ∀ a ∈ c.arrivals, a ≤ c.now
  due : ∀ a ∈ c.arrivals, c.deadline ≤ a + timeout
  late : c.now ≤ c.deadline + c.arrivals.length * latency

variable {timeout latency t : Nat} {c : Clock}

theorem onTime_restart (timeout latency t : Nat) : (restart timeout t).OnTime timeout latency where
  soon := Nat.le_refl _
  past _ ha := by cases ha
  due _ ha := by cases ha
  late := by simp [restart]

/-- A prompt turn is late by one latency for every item, and one for itself. -/
theorem OnTime.turn_le (h : c.OnTime timeout latency) (ht : c.Prompt latency t) :
    t ≤ c.deadline + (c.arrivals.length + 1) * latency := by
  have hlate := h.late
  have hprompt := ht.2
  rw [Nat.succ_mul]
  omega

theorem OnTime.collect (h : c.OnTime timeout latency) (ht : c.Prompt latency t) :
    (c.collect t).OnTime timeout latency where
  soon := Nat.le_trans h.soon (Nat.add_le_add_right ht.1 timeout)
  past a ha := by
    rcases List.mem_append.1 ha with ha | ha
    · exact Nat.le_trans (h.past a ha) ht.1
    · exact Nat.le_of_eq (List.mem_singleton.1 ha)
  due a ha := by
    rcases List.mem_append.1 ha with ha | ha
    · exact h.due a ha
    · rw [List.mem_singleton.1 ha]
      exact Nat.le_trans h.soon (Nat.add_le_add_right ht.1 timeout)
  late := by
    simp only [Clock.collect, List.length_append, List.length_singleton]
    exact h.turn_le ht

/-- **Nothing waits much longer than the timeout**: what is handed over in a prompt turn has not. -/
theorem OnTime.handed_over (h : c.OnTime timeout latency) (ht : c.Prompt latency t) {n : Nat}
    (hn : c.arrivals.length < n) {a : Nat} (ha : a ∈ c.arrivals) :
    a ≤ t ∧ t ≤ a + timeout + n * latency := by
  have hdue := h.due a ha
  have hturn := h.turn_le ht
  have hmul : (c.arrivals.length + 1) * latency ≤ n * latency := Nat.mul_le_mul_right latency hn
  exact ⟨Nat.le_trans (h.past a ha) ht.1, by omega⟩

/-- And what waits has not yet. -/
theorem OnTime.waits (h : c.OnTime timeout latency) {n : Nat} (hn : c.arrivals.length ≤ n) {a : Nat}
    (ha : a ∈ c.arrivals) : c.now ≤ a + timeout + n * latency := by
  have hdue := h.due a ha
  have hlate := h.late
  have hmul : c.arrivals.length * latency ≤ n * latency := Nat.mul_le_mul_right latency hn
  omega

end Clock

end Deadline
