import Mathlib.Data.List.Basic
import Mathlib.Tactic.Ring

/-! # Keeping a connection alive

A server pings its peer every `period`, and gives it up when it has heard nothing for a while.  Two
things are not up to it: how late it is itself, and how long the peer takes to answer.  A run is
*prompt* if every ping is sent at most `latency` after it is due, and answered at most `response`
after it was sent.

Where the server last heard its peer, the next ping whose answer it waits for was due at most one
period and one latency later (`OnTime.silent`).  So it hears from a prompt peer again within a
period, two latencies and a response (`OnTime.heard_again`).
-/
namespace Heartbeat

/-- What is known at a time: when the first ping without an answer was or is due, when those that
were sent and have no answer were sent, and since when nothing was heard. -/
structure Beat where
  now : Nat
  due : Nat
  unanswered : List Nat
  heard : Nat

namespace Beat
variable (period latency response : Nat)

/-- When the next ping is due. -/
def nextDue (b : Beat) : Nat := b.due + b.unanswered.length * period

/-- Nobody is late at the time `t`. -/
def Prompt (b : Beat) (t : Nat) : Prop :=
  b.now ≤ t ∧ t ≤ b.nextDue period + latency ∧ ∀ p ∈ b.unanswered.head?, t ≤ p + response

def wait (b : Beat) (t : Nat) : Beat := { b with now := t }

def ping (b : Beat) (t : Nat) : Beat := { b with now := t, unanswered := b.unanswered ++ [t] }

/-- The oldest ping is answered. -/
def answer (b : Beat) (t : Nat) : Beat := ⟨t, b.due + period, b.unanswered.tail, b.heard⟩

/-- All that has come is heard. -/
def hear (b : Beat) (t : Nat) : Beat := { b with now := t, heard := t }

/-- What is true when pings are prompt: a ping is sent between the time it is due and a latency
later, and what was answered was due before now. -/
structure OnTime (b : Beat) : Prop where
  due : b.due ≤ b.now + period + latency
  sent : ∀ j p, b.unanswered[j]? = some p →
    b.due + j * period ≤ p ∧ p ≤ b.due + j * period + latency ∧ p ≤ b.now

/-- Nothing has come since the peer was heard last. -/
def Silent (b : Beat) : Prop := b.due ≤ b.heard + period + latency

variable {period latency response} {b : Beat} {t : Nat}

theorem OnTime.wait (h : b.OnTime period latency) (ht : b.now ≤ t) :
    (b.wait t).OnTime period latency where
  due := h.due.trans (by simp only [Beat.wait]; omega)
  sent j p hp := by
    obtain ⟨hlower, hupper, hnow⟩ := h.sent j p hp
    exact ⟨hlower, hupper, hnow.trans ht⟩

theorem OnTime.ping (h : b.OnTime period latency) (ht : b.now ≤ t) (hdue : b.nextDue period ≤ t)
    (hlate : t ≤ b.nextDue period + latency) : (b.ping t).OnTime period latency where
  due := h.due.trans (by simp only [Beat.ping]; omega)
  sent j p hp := by
    by_cases hj : j < b.unanswered.length
    · have hold : b.unanswered[j]? = some p := (List.getElem?_append_left hj).symm.trans hp
      obtain ⟨hlower, hupper, hnow⟩ := h.sent j p hold
      exact ⟨hlower, hupper, hnow.trans ht⟩
    · have hnew : (b.unanswered ++ [t])[j]? = some p := hp
      rw [List.getElem?_append_right (Nat.le_of_not_lt hj)] at hnew
      obtain ⟨hlt, rfl⟩ := List.getElem?_eq_some_iff.1 hnew
      have hlen : j = b.unanswered.length := by
        rw [List.length_singleton] at hlt
        omega
      rw [List.getElem_singleton, hlen]
      exact ⟨hdue, hlate, Nat.le_refl t⟩

theorem OnTime.answer (h : b.OnTime period latency) (ht : b.now ≤ t) {p : Nat}
    (hp : b.unanswered[0]? = some p) : (b.answer period t).OnTime period latency where
  due := by
    obtain ⟨hlower, -, hnow⟩ := h.sent 0 p hp
    simp only [Beat.answer]
    omega
  sent j q hq := by
    have hold : b.unanswered[j + 1]? = some q := by
      rw [← List.getElem?_tail]
      exact hq
    obtain ⟨hlower, hupper, hnow⟩ := h.sent (j + 1) q hold
    have hmul : b.due + (j + 1) * period = b.due + period + j * period := by ring
    rw [hmul] at hlower hupper
    exact ⟨hlower, hupper, hnow.trans ht⟩

/-- Who has heard all has heard the answer to every ping before the first without one. -/
theorem OnTime.silent_hear (h : b.OnTime period latency) (ht : b.now ≤ t) :
    (b.hear t).Silent period latency :=
  h.due.trans (by simp only [Beat.hear]; omega)

/-- **A prompt peer is heard again in time.** -/
theorem OnTime.heard_again (h : b.OnTime period latency) (hsilent : b.Silent period latency)
    (ht : b.Prompt period latency response t) :
    t ≤ b.heard + period + 2 * latency + response := by
  unfold Silent at hsilent
  obtain ⟨-, hping, hanswer⟩ := ht
  cases hpings : b.unanswered with
  | nil =>
    rw [nextDue, hpings, List.length_nil] at hping
    omega
  | cons p rest =>
    have hfirst : b.unanswered[0]? = some p := by rw [hpings]; rfl
    obtain ⟨-, hupper, -⟩ := h.sent 0 p hfirst
    have hlate := hanswer p (by rw [hpings]; rfl)
    omega

end Beat

end Heartbeat
