import SecureBootloader.Shared.SimpleTimer

/-!
# A one-shot timer and the 32-bit tick counter

The deadline is a 64-bit sum, but the clock it is compared with wraps at `2^32`. A
poll that comes before the wrap is right; a deadline that the clock wraps past is
never seen.
-/

namespace SecureBootloader

/-- `sys_tick_handler`, on `tick_count`. -/
def sysTickHandler (tickCount : Nat) : Nat := (tickCount + 1) % 2 ^ 32

/-- What `simple_timer_has_elapsed` returns when it is called after `polls` SysTick
interrupts, the counter being at `start` when the timer was armed. -/
def pollResults (start : Nat) : SimpleTimer → List Nat → List Bool
  | _, [] => []
  | timer, e :: polls =>
    let (elapsed, timer) := simpleTimerHasElapsed (Nat.repeat sysTickHandler e start) timer
    elapsed :: pollResults start timer polls

/-- What a one-shot timer should answer: true at the first poll that is due, false at
all others. -/
def oneShot (waitTime : Nat) (polls : List Nat) : List Bool :=
  polls.mapIdx fun i e => decide (waitTime ≤ e ∧ ∀ e' ∈ polls.take i, e' < waitTime)

/-- The first poll that is due, if there is one, comes before the counter wraps. -/
def DueBeforeWrap (start waitTime : Nat) (polls : List Nat) : Prop :=
  ∀ e, polls.find? (waitTime ≤ ·) = some e → start + e < 2 ^ 32

/-! ## The clock -/

theorem repeat_sysTickHandler {start : Nat} (h : start < 2 ^ 32) (e : Nat) :
    Nat.repeat sysTickHandler e start = (start + e) % 2 ^ 32 := by
  induction e with
  | zero => exact (Nat.mod_eq_of_lt h).symm
  | succ e ih => rw [Nat.repeat, ih, sysTickHandler, Nat.mod_add_mod, Nat.add_assoc]

/-- The clock reaches the deadline when the wait is over, unless it has wrapped. -/
theorem deadline_reached_iff {start waitTime e : Nat} (hs : start < 2 ^ 32)
    (hw : waitTime < 2 ^ 31) (he : e < 2 ^ 31) :
    (start + waitTime) % 2 ^ 64 ≤ Nat.repeat sysTickHandler e start ↔
      waitTime ≤ e ∧ start + e < 2 ^ 32 := by
  rw [repeat_sysTickHandler hs]
  omega

/-! ## A run of polls -/

theorem oneShot_early {waitTime e : Nat} (early : e < waitTime) (polls : List Nat) :
    oneShot waitTime (e :: polls) = false :: oneShot waitTime polls := by
  have first : decide (waitTime ≤ e ∧ ∀ e' ∈ (e :: polls).take 0, e' < waitTime) = false :=
    decide_eq_false (fun due => absurd due.1 (Nat.not_le.mpr early))
  rw [oneShot, List.mapIdx_cons, first]
  refine congrArg _ (congrArg (List.mapIdx · polls) ?_)
  funext i e'
  refine decide_eq_decide.mpr (and_congr_right fun _ => ?_)
  rw [List.take_succ_cons]
  exact ⟨fun all e' h => all e' (List.mem_cons_of_mem _ h),
    fun all => List.forall_mem_cons.mpr ⟨early, all⟩⟩

theorem oneShot_due {waitTime e : Nat} (due : waitTime ≤ e) (polls : List Nat) :
    oneShot waitTime (e :: polls) = true :: List.replicate polls.length false := by
  have first : decide (waitTime ≤ e ∧ ∀ e' ∈ (e :: polls).take 0, e' < waitTime) = true :=
    decide_eq_true ⟨due, nofun⟩
  rw [oneShot, List.mapIdx_cons, first]
  refine congrArg _ (List.mapIdx_eq_replicate_iff.mpr ?_)
  intro i hi
  refine decide_eq_false ?_
  rintro ⟨-, all⟩
  rw [List.take_succ_cons] at all
  exact absurd (all e List.mem_cons_self) (Nat.not_lt.mpr due)

/-- A timer that has gone off stays silent. -/
theorem pollResults_elapsed {timer : SimpleTimer} (elapsed : timer.timerElapsed = true)
    (start : Nat) (polls : List Nat) :
    pollResults start timer polls = List.replicate polls.length false := by
  induction polls with
  | nil => rfl
  | cons e polls ih =>
    rw [pollResults, simpleTimerHasElapsed_waits (.inl elapsed)]
    exact congrArg (false :: ·) ih

section Armed

variable {start waitTime e : Nat} (hs : start < 2 ^ 32) (hw : waitTime < 2 ^ 31)
  (he : e < 2 ^ 31)
include hs hw he

/-- A poll of an armed timer: it goes off, or stays as it is. -/
theorem poll_armed (polls : List Nat) :
    pollResults start (simpleTimerInit start waitTime false) (e :: polls) =
      if waitTime ≤ e ∧ start + e < 2 ^ 32 then true :: List.replicate polls.length false
      else false :: pollResults start (simpleTimerInit start waitTime false) polls := by
  have reached := deadline_reached_iff hs hw he
  rw [pollResults, simpleTimerHasElapsed]
  by_cases due : waitTime ≤ e ∧ start + e < 2 ^ 32
  · have now : decide ((simpleTimerInit start waitTime false).targetTime ≤
        Nat.repeat sysTickHandler e start) = true := decide_eq_true (reached.mpr due)
    rw [if_pos due, now]
    exact congrArg _ (pollResults_elapsed rfl start polls)
  · have now : decide ((simpleTimerInit start waitTime false).targetTime ≤
        Nat.repeat sysTickHandler e start) = false :=
      decide_eq_false fun h => due (reached.mp h)
    rw [if_neg due, now]
    rfl

end Armed

theorem pollResults_init_iff {start waitTime : Nat} (hs : start < 2 ^ 32) (hw : waitTime < 2 ^ 31)
    {polls : List Nat} (hp : ∀ e ∈ polls, e < 2 ^ 31) :
    pollResults start (simpleTimerInit start waitTime false) polls = oneShot waitTime polls ↔
      DueBeforeWrap start waitTime polls := by
  induction polls with
  | nil => exact ⟨fun _ => nofun, fun _ => rfl⟩
  | cons e polls ih =>
    obtain ⟨he, hrest⟩ := List.forall_mem_cons.mp hp
    rw [poll_armed hs hw he]
    by_cases due : waitTime ≤ e
    · have found : (e :: polls).find? (waitTime ≤ ·) = some e :=
        List.find?_cons_of_pos (decide_eq_true due)
      rw [oneShot_due due]
      by_cases early : start + e < 2 ^ 32
      · rw [if_pos ⟨due, early⟩]
        refine ⟨fun _ e' first => ?_, fun _ => rfl⟩
        rw [found] at first
        exact Option.some.inj first ▸ early
      · rw [if_neg fun h => early h.2]
        refine ⟨nofun, fun inTime => ?_⟩
        exact absurd (inTime e found) early
    · have later : (e :: polls).find? (waitTime ≤ ·) = polls.find? (waitTime ≤ ·) :=
        List.find?_cons_of_neg (by simpa using due)
      have same : DueBeforeWrap start waitTime (e :: polls) ↔
          DueBeforeWrap start waitTime polls := by
        unfold DueBeforeWrap
        rw [later]
      rw [if_neg fun h => due h.1, oneShot_early (Nat.lt_of_not_le due), List.cons_inj_right,
        ih hrest, same]

/-- Armed by `simple_timer_init` or by `simple_timer_reset`, a one-shot timer answers all
polls as it should if and only if the first due one comes before the counter wraps. -/
theorem oneShot_iff {start waitTime : Nat} (hs : start < 2 ^ 32) (hw : waitTime < 2 ^ 31)
    {polls : List Nat} (hp : ∀ e ∈ polls, e < 2 ^ 31) {timer : SimpleTimer}
    (armed : timer = simpleTimerInit start waitTime false ∨
      ∃ old : SimpleTimer, old.waitTime = waitTime ∧ old.autoReset = false ∧
        timer = simpleTimerReset start old) :
    pollResults start timer polls = oneShot waitTime polls ↔
      DueBeforeWrap start waitTime polls := by
  rcases armed with rfl | ⟨old, wait, once, rfl⟩
  · exact pollResults_init_iff hs hw hp
  · rw [simpleTimerReset, wait, once]
    exact pollResults_init_iff hs hw hp

theorem oneShot_iff_from_zero :
    pollResults 0 (simpleTimerInit 0 5 false) [3, 5, 9] = oneShot 5 [3, 5, 9] ↔
      DueBeforeWrap 0 5 [3, 5, 9] :=
  oneShot_iff (by decide) (by decide) (by decide) (.inl rfl)

/-- Armed ten ticks before the wrap for five, polled after twenty: the deadline is missed. -/
theorem wrapped_deadline_missed :
    pollResults (2 ^ 32 - 10) (simpleTimerInit (2 ^ 32 - 10) 5 false) [20] ≠ oneShot 5 [20] := by
  decide

end SecureBootloader
