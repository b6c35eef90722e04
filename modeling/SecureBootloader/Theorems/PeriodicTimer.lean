import SecureBootloader.Lib.Run
import SecureBootloader.Shared.SimpleTimer

/-!
# A periodic timer keeps its schedule

The next target is computed from the time of a poll that may come late, and the
drift subtracted from it puts it back on the schedule that `simple_timer_init`
fixed. The schedule is right from the start unless the first target has already
wrapped in its 64 bits.
-/

namespace SecureBootloader

/-- A timer and what the polls of it have returned. -/
structure PolledTimer where
  timer : SimpleTimer
  answers : List Bool
  deriving DecidableEq, Repr

namespace PolledTimer

/-- A periodic timer after `simple_timer_init` at tick `start`. -/
def armed (start waitTime : Nat) : PolledTimer := ⟨simpleTimerInit start waitTime true, []⟩

/-- A call of `simple_timer_has_elapsed`. -/
def poll (p : PolledTimer) (now : Nat) : PolledTimer :=
  let (elapsed, timer) := simpleTimerHasElapsed now p.timer
  ⟨timer, p.answers ++ [elapsed]⟩

/-- The timer after a sequence of polls. -/
def afterPolls (p : PolledTimer) (polls : List Nat) : PolledTimer := Lib.Run.run poll p polls

/-- The number of polls that have returned true. -/
def fired (p : PolledTimer) : Nat := p.answers.count true

/-- The timer is where the schedule has it after a poll at `now`. -/
structure OnSchedule (start waitTime now : Nat) (p : PolledTimer) : Prop where
  target : p.timer.targetTime = start + (p.fired + 1) * waitTime
  notAhead : p.fired * waitTime ≤ now - start
  /-- a poll that returns false has nothing left to report -/
  caughtUp : p.answers.getLast? = some false → p.fired = (now - start) / waitTime

/-- The timer is on schedule after every poll. -/
def KeepsSchedule (start waitTime : Nat) (polls : List Nat) : Prop :=
  ∀ before now, before ++ [now] <+: polls →
    OnSchedule start waitTime now ((armed start waitTime).afterPolls (before ++ [now]))

/-! ## One poll -/

@[simp] theorem afterPolls_nil (p : PolledTimer) : p.afterPolls [] = p := rfl

@[simp] theorem afterPolls_cons (p : PolledTimer) (now : Nat) (polls : List Nat) :
    p.afterPolls (now :: polls) = (p.poll now).afterPolls polls := rfl

/-- The timer is armed for the end of a period, and no earlier one is left to report. -/
structure Pending (start waitTime now : Nat) (p : PolledTimer) : Prop where
  waits : p.timer.waitTime = waitTime
  periodic : p.timer.autoReset = true
  silent : p.timer.timerElapsed = false
  target : p.timer.targetTime = start + (p.fired + 1) * waitTime
  begun : start ≤ now
  notAhead : p.fired * waitTime ≤ now - start

theorem armed_pending {start waitTime : Nat} (h : start + waitTime < 2 ^ 64) :
    Pending start waitTime start (armed start waitTime) where
  waits := rfl
  periodic := rfl
  silent := rfl
  target := by
    change (start + waitTime) % 2 ^ 64 = start + (0 + 1) * waitTime
    rw [Nat.mod_eq_of_lt h, Nat.zero_add, Nat.one_mul]
  begun := Nat.le_refl start
  notAhead := by
    change 0 * waitTime ≤ start - start
    rw [Nat.zero_mul]
    exact Nat.zero_le _

/-- A poll before the target changes nothing. -/
theorem poll_early {now : Nat} {p : PolledTimer} (early : now < p.timer.targetTime) :
    p.poll now = ⟨p.timer, p.answers ++ [false]⟩ := by
  rw [poll, simpleTimerHasElapsed_waits (.inr early)]

section Poll

variable {start waitTime now : Nat} {p : PolledTimer}

/-- The drift puts the next target one period after the old one, however late the poll. -/
theorem Pending.poll_due (h : Pending start waitTime now p) {now' : Nat} (bound : now' < 2 ^ 32)
    (due : p.timer.targetTime ≤ now') :
    p.poll now' =
      ⟨{ p.timer with targetTime := start + (p.fired + 2) * waitTime }, p.answers ++ [true]⟩ := by
  have late : start + (p.fired * waitTime + waitTime) ≤ now' := by
    rw [← Nat.succ_mul]
    exact h.target ▸ due
  have next : ((now' + p.timer.waitTime) % 2 ^ 64 + 2 ^ 64 - (now' - p.timer.targetTime)) %
      2 ^ 64 = start + (p.fired + 2) * waitTime := by
    rw [h.waits, h.target, Nat.add_mul, Nat.add_mul]
    omega
  have answer : simpleTimerHasElapsed now' p.timer =
      (true, { p.timer with targetTime := start + (p.fired + 2) * waitTime }) := by
    rw [simpleTimerHasElapsed, if_neg (Bool.eq_false_iff.mp h.silent),
      if_pos (decide_eq_true due), if_pos h.periodic, decide_eq_true due, next]
  rw [poll, answer]

/-- A poll keeps the timer armed, and it leaves the timer on schedule. -/
theorem Pending.poll (h : Pending start waitTime now p) {now' : Nat} (later : now ≤ now')
    (bound : now' < 2 ^ 32) :
    Pending start waitTime now' (p.poll now') ∧ OnSchedule start waitTime now' (p.poll now') := by
  have begun : start ≤ now' := Nat.le_trans h.begun later
  have notAhead : p.fired * waitTime ≤ now' - start :=
    Nat.le_trans h.notAhead (Nat.sub_le_sub_right later start)
  by_cases due : p.timer.targetTime ≤ now'
  · have more : fired ⟨{ p.timer with targetTime := start + (p.fired + 2) * waitTime },
        p.answers ++ [true]⟩ = p.fired + 1 := by
      simp [fired]
    have reached : (p.fired + 1) * waitTime ≤ now' - start := by
      have target := h.target
      omega
    rw [h.poll_due bound due]
    refine ⟨⟨h.waits, h.periodic, h.silent, ?_, begun, ?_⟩, ?_, ?_, ?_⟩
    · rw [more]
    · rwa [more]
    · rw [more]
    · rwa [more]
    · intro last
      rw [List.getLast?_concat] at last
      cases last
  · have same : fired ⟨p.timer, p.answers ++ [false]⟩ = p.fired := by
      simp [fired]
    rw [poll_early (Nat.not_le.mp due)]
    refine ⟨⟨h.waits, h.periodic, h.silent, ?_, begun, ?_⟩, ?_, ?_, ?_⟩
    · rw [same]; exact h.target
    · rwa [same]
    · rw [same]; exact h.target
    · rwa [same]
    · intro _
      rw [same]
      have before : now' - start < (p.fired + 1) * waitTime := by
        have target := h.target
        omega
      exact (Nat.div_eq_of_lt_le notAhead before).symm

/-- Whatever the polls, an armed timer is on schedule after each of them. -/
theorem Pending.afterPolls (h : Pending start waitTime now p) {polls : List Nat}
    (ordered : (now :: polls).Pairwise (· ≤ ·)) (bound : ∀ now ∈ polls, now < 2 ^ 32)
    {before : List Nat} {now' : Nat} (front : before ++ [now'] <+: polls) :
    OnSchedule start waitTime now' (p.afterPolls (before ++ [now'])) := by
  induction polls generalizing now p before with
  | nil => simp at front
  | cons first polls ih =>
    obtain ⟨next, rest⟩ := List.forall_mem_cons.mp bound
    have later : now ≤ first := List.rel_of_pairwise_cons ordered List.mem_cons_self
    have step := h.poll later next
    cases before with
    | nil =>
      obtain ⟨rfl, -⟩ := List.cons_prefix_cons.mp front
      exact step.2
    | cons head before =>
      obtain ⟨rfl, front'⟩ := List.cons_prefix_cons.mp front
      exact ih step.1 ordered.of_cons rest front'

end Poll

/-! ## The whole run -/

/-- A first target that has wrapped is already due, and the poll that finds it so leaves the
target off the schedule. -/
theorem wrapped_off_schedule {start waitTime now : Nat} (hw : waitTime < 2 ^ 64)
    (wraps : 2 ^ 64 ≤ start + waitTime) (later : start ≤ now) (bound : now < 2 ^ 32) :
    ¬OnSchedule start waitTime now ((armed start waitTime).afterPolls [now]) := by
  have wrapped : (start + waitTime) % 2 ^ 64 = start + waitTime - 2 ^ 64 := by
    rw [Nat.mod_eq_sub_mod wraps, Nat.mod_eq_of_lt (by omega)]
  have due : (start + waitTime) % 2 ^ 64 ≤ now := by omega
  have fires : simpleTimerHasElapsed now (simpleTimerInit start waitTime true) =
      (true, ⟨waitTime, ((now + waitTime) % 2 ^ 64 + 2 ^ 64 -
        (now - (start + waitTime) % 2 ^ 64)) % 2 ^ 64, true, false⟩) := by
    rw [simpleTimerHasElapsed, simpleTimerInit, decide_eq_true due]
    rfl
  intro onSchedule
  have target := onSchedule.target
  rw [afterPolls_cons, afterPolls_nil, poll, armed, fires] at target
  change _ % 2 ^ 64 = start + (1 + 1) * waitTime at target
  omega

/-- A periodic timer keeps its schedule over every sequence of polls in which the counter
does not wrap, if and only if its first target fits into 64 bits. -/
theorem keepsSchedule_iff {start waitTime : Nat} (hw : waitTime < 2 ^ 64) {polls : List Nat}
    (ordered : (start :: polls).Pairwise (· ≤ ·)) (bound : ∀ now ∈ polls, now < 2 ^ 32) :
    KeepsSchedule start waitTime polls ↔ polls = [] ∨ start + waitTime < 2 ^ 64 := by
  constructor
  · intro keeps
    cases polls with
    | nil => exact .inl rfl
    | cons first polls =>
      refine .inr (Nat.not_le.mp fun wraps => ?_)
      have later : start ≤ first := List.rel_of_pairwise_cons ordered List.mem_cons_self
      have once : [] ++ [first] <+: first :: polls := ⟨polls, rfl⟩
      exact wrapped_off_schedule hw wraps later (bound first List.mem_cons_self)
        (keeps [] first once)
  · rintro (rfl | fits) before now front
    · simp at front
    · exact (armed_pending fits).afterPolls ordered bound front

/-- Polls on time, too early, two periods late and at the same tick again. -/
theorem keepsSchedule_iff_late :
    KeepsSchedule 7 5 [12, 13, 31, 31, 31, 31] ↔ [12, 13, 31, 31, 31, 31] = [] ∨ 7 + 5 < 2 ^ 64 :=
  keepsSchedule_iff (by decide) (by decide) (by decide)

/-- Armed at tick 1 for `2^64 - 1` ticks, the timer goes off at once. -/
theorem longest_wait_off_schedule : ¬KeepsSchedule 1 (2 ^ 64 - 1) [1] := by
  intro keeps
  have target := (keeps [] 1 ⟨[], rfl⟩).target
  exact absurd target (by decide)

end PolledTimer

end SecureBootloader
