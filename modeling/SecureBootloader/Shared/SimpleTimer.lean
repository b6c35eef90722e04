import Mathlib.Algebra.Group.Nat.Defs
import Mathlib.Tactic.Common

/-!
# `simple_timer_t`

The functions take the value of `system_get_ticks()` at their call as `now`.
Times are `uint64_t`.
-/

namespace SecureBootloader

/-- `simple_timer_t`. -/
structure SimpleTimer where
  waitTime : Nat
  targetTime : Nat
  autoReset : Bool
  timerElapsed : Bool
  deriving DecidableEq, Repr

/-- `simple_timer_init`. -/
def simpleTimerInit (now waitTime : Nat) (autoReset : Bool) : SimpleTimer where
  waitTime := waitTime
  targetTime := (now + waitTime) % 2 ^ 64
  autoReset := autoReset
  timerElapsed := false

/-- `simple_timer_has_elapsed`: the result and the timer after it. -/
def simpleTimerHasElapsed (now : Nat) (timer : SimpleTimer) : Bool × SimpleTimer :=
  let hasElapsed := decide (timer.targetTime ≤ now)
  if timer.timerElapsed then (false, timer)
  else if hasElapsed then
    let drift := now - timer.targetTime
    if timer.autoReset then
      (hasElapsed, { timer with
        targetTime := ((now + timer.waitTime) % 2 ^ 64 + 2 ^ 64 - drift) % 2 ^ 64 })
    else (hasElapsed, { timer with timerElapsed := true })
  else (hasElapsed, timer)

/-- A timer that has gone off, or is not due yet, stays as it is. -/
theorem simpleTimerHasElapsed_waits {now : Nat} {timer : SimpleTimer}
    (h : timer.timerElapsed = true ∨ now < timer.targetTime) :
    simpleTimerHasElapsed now timer = (false, timer) := by
  rw [simpleTimerHasElapsed]
  rcases h with elapsed | early
  · rw [if_pos elapsed]
  · rw [decide_eq_false (Nat.not_le.mpr early)]
    exact ite_self _

theorem simpleTimerHasElapsed_due {now : Nat} {timer : SimpleTimer}
    (armed : timer.timerElapsed = false) (due : timer.targetTime ≤ now) :
    (simpleTimerHasElapsed now timer).1 = true := by
  rw [simpleTimerHasElapsed, armed, decide_eq_true due]
  cases timer.autoReset with
  | false => rfl
  | true => rfl

/-- `simple_timer_reset`. -/
def simpleTimerReset (now : Nat) (timer : SimpleTimer) : SimpleTimer :=
  simpleTimerInit now timer.waitTime timer.autoReset

end SecureBootloader
