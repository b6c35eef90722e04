import SecureBootloader.Boot.UpdateInv

/-!
# The timer of a session

A session leaves the timer out. `TimerStep` puts it back: it says of every event
whether it arms the timer, leaves it alone, or ends the session. The timer is armed
in exactly the steps that enter a state or accept a data packet.
-/

namespace SecureBootloader

instance (packet : CommsPacket) : Decidable (DataLengthOk packet) :=
  inferInstanceAs (Decidable (_ ∧ _))

instance (packet : CommsPacket) : ∀ state, Decidable (Expected state packet)
  | .waitForFwUpdateReq =>
    inferInstanceAs (Decidable (commsIsSingleBytePacket packet blPacketFwUpdateReqData0 = true))
  | .deviceIdRes => inferInstanceAs (Decidable (_ ∧ _))
  | .fwLengthRes => inferInstanceAs (Decidable (_ ∧ _))
  | .receiveFw => inferInstanceAs (Decidable (DataLengthOk packet))
  | .sync | .deviceIdReq | .fwLengthReq | .eraseApplication | .done =>
    inferInstanceAs (Decidable False)

/-- The next step of the main program calls `simple_timer_init` or `simple_timer_reset`. -/
def Boot.ArmsTimer (s : Boot) : Prop :=
  s.pc = .setup ∨
  (s.pc = .flush ∧ (ringBufferRead s.rxRingBuffer).1 = none) ∨
  (s.pc = .dispatch ∧
    (s.bootloaderState = .deviceIdReq ∨ s.bootloaderState = .fwLengthReq ∨
      s.bootloaderState = .eraseApplication ∨
      (commsPacketAvailable s.comms = true ∧ Expected s.bootloaderState s.session.nextPacket)))

instance (s : Boot) : Decidable s.ArmsTimer := inferInstanceAs (Decidable (_ ∨ _ ∨ _))

/-- The step from `s` to `t` enters a state, at boot or later, or it accepts a data packet
in RECEIVE_FW. -/
def Boot.Enters (s t : Boot) : Prop :=
  (s.pc = .setup ∧ t.pc ≠ .setup) ∨ t.bootloaderState ≠ s.bootloaderState ∨
    (s.bootloaderState = .receiveFw ∧ t.trace.accepted ≠ s.trace.accepted)

instance (s t : Boot) : Decidable (s.Enters t) := inferInstanceAs (Decidable (_ ∨ _ ∨ _))

/-- The step from `s` to `t` enters a state other than SYNC with `simple_timer_reset`. -/
structure Boot.Rearms (s t : Boot) : Prop where
  enters : s.Enters t
  state : t.bootloaderState ≠ .sync
  timer : t.timer = simpleTimerReset s.tickCount s.timer

/-- What an event does to the timer. -/
inductive TimerStep (s : Boot) (e : BootEvent) (t : Boot) : Prop
  | boots (main : e = .main) (setup : s.pc = .setup) (pc : t.pc = .loop)
      (timer : t.timer = simpleTimerInit s.tickCount defaultTimeoutMs false)
  | arms (main : e = .main) (arms : s.ArmsTimer) (pc : s.pc ≠ .setup)
      (live : s.bootloaderState ≠ .done) (rearms : s.Rearms t)
  | rests (quiet : ¬(e = .main ∧ s.ArmsTimer)) (stays : ¬s.Enters t) (timer : t.timer = s.timer)
  | ends (state : t.bootloaderState = .done)

/-! ## Looking at the timer -/

theorem checkForTimeout_waits {s : Boot}
    (h : s.timer.timerElapsed = true ∨ s.tickCount < s.timer.targetTime) :
    s.checkForTimeout = s := by
  rw [Boot.checkForTimeout, simpleTimerHasElapsed_waits h]
  rfl

/-- A timer that has not gone off, at its target or behind it. -/
theorem checkForTimeout_due {s : Boot} (armed : s.timer.timerElapsed = false)
    (due : s.timer.targetTime ≤ s.tickCount) :
    s.checkForTimeout.bootloaderState = .done ∧ s.checkForTimeout.trace =
      s.trace ++ [.sent (commsCreateSingleBytePacket blPacketNackData0)] := by
  rw [Boot.checkForTimeout]
  simp only [if_pos (simpleTimerHasElapsed_due armed due)]
  exact ⟨rfl, rfl⟩

/-- Without a timeout `check_for_timeout` does nothing. -/
theorem checkForTimeout_cases (s : Boot) :
    s.checkForTimeout = s ∨ s.checkForTimeout.bootloaderState = .done := by
  by_cases waits : s.timer.timerElapsed = true ∨ s.tickCount < s.timer.targetTime
  · exact .inl (checkForTimeout_waits waits)
  · rw [not_or, Bool.not_eq_true, Nat.not_lt] at waits
    exact .inr (checkForTimeout_due waits.1 waits.2).1

/-! ## One event -/

theorem Boot.not_enters {s t : Boot} (pc : s.pc ≠ .setup ∨ t.pc = .setup)
    (state : t.bootloaderState = s.bootloaderState)
    (accepted : t.trace.accepted = s.trace.accepted) : ¬s.Enters t := by
  rintro (⟨setup, left⟩ | changed | ⟨-, more⟩)
  · rcases pc with other | same
    · exact other setup
    · exact left same
  · exact changed state
  · exact more accepted

/-- A look at the timer, once the state has no use for it. -/
theorem TimerStep.looks {s s' : Boot} (quiet : ¬s.ArmsTimer) (pc : s.pc ≠ .setup)
    (state : s'.bootloaderState = s.bootloaderState) (timer : s'.timer = s.timer)
    (accepted : s'.trace.accepted = s.trace.accepted) : TimerStep s .main s'.checkForTimeout := by
  rcases checkForTimeout_cases s' with same | ended
  · rw [same]
    exact .rests (fun h => quiet h.2) (Boot.not_enters (.inl pc) state accepted) timer
  · exact .ends ended

/-- An interrupt handler does nothing to the timer. -/
theorem TimerStep.interrupt {s t : Boot} {e : BootEvent} (handler : e ≠ .main)
    (same : t.session = s.session) (timer : t.timer = s.timer) : TimerStep s e t := by
  have pc : t.pc = s.pc := congrArg Session.pc same
  refine .rests (fun arms => handler arms.1) (Boot.not_enters ?_ ?_ ?_) timer
  · by_cases setup : s.pc = .setup
    · exact .inr (pc.trans setup)
    · exact .inl setup
  · exact congrArg Session.bootloaderState same
  · exact congrArg (Trace.accepted ∘ Session.trace) same

theorem accepted_quiet {t : Trace} {obs : Trace} (quiet : obs.accepted = []) :
    Trace.accepted (t ++ obs) = t.accepted := by
  rw [Trace.accepted_append, quiet, List.append_nil]

/-- A change of state with the timer armed anew. -/
theorem rearms_next {s t : Boot} {state : BlState} (here : s.bootloaderState = state)
    (next : BlState) (there : t.bootloaderState = next) (other : next ≠ state ∧ next ≠ .sync)
    (timer : t.timer = simpleTimerReset s.tickCount s.timer) : s.Rearms t := by
  refine ⟨.inr (.inl ?_), ?_, timer⟩
  · rw [there, here]
    exact other.1
  · rw [there]
    exact other.2

section Steps

variable (drv : FlashDriver) (validate : Flash → Option Bool) {s : Boot}

theorem syncStep_timer (h : s.pc = .loop) : TimerStep s .main s.syncStep := by
  have quiet : ¬s.ArmsTimer := by simp [Boot.ArmsTimer, h]
  have pc : s.pc ≠ .setup := by simp [h]
  unfold Boot.syncStep
  cases ringBufferRead s.rxRingBuffer with
  | mk read rx =>
    cases read with
    | none => exact .looks quiet pc rfl rfl rfl
    | some byte =>
      dsimp only
      split
      · exact .rests (fun h => quiet h.2) (Boot.not_enters (.inl pc) rfl (accepted_quiet rfl)) rfl
      · exact .looks quiet pc rfl rfl (accepted_quiet rfl)

theorem flushStep_timer (h : s.pc = .flush) (sync : s.bootloaderState = .sync) :
    TimerStep s .main s.flushStep := by
  have pc : s.pc ≠ .setup := by simp [h]
  unfold Boot.flushStep
  cases read : ringBufferRead s.rxRingBuffer with
  | mk result rx =>
    cases result with
    | none =>
      have arms : s.ArmsTimer := by simp [Boot.ArmsTimer, h, read]
      exact .arms rfl arms pc (by simp [sync])
        (rearms_next sync .waitForFwUpdateReq rfl (by decide) rfl)
    | some byte =>
      have quiet : ¬s.ArmsTimer := by simp [Boot.ArmsTimer, h, read]
      exact .rests (fun h => quiet h.2) (Boot.not_enters (.inl pc) rfl (accepted_quiet rfl)) rfl

theorem updateStep_timer (h : s.pc = .update) : TimerStep s .main s.updateStep := by
  have quiet : ¬s.ArmsTimer := by simp [Boot.ArmsTimer, h]
  have pc : s.pc ≠ .setup := by simp [h]
  unfold Boot.updateStep
  cases ringBufferRead s.rxRingBuffer with
  | mk read rx =>
    cases read with
    | none => exact .rests (fun h => quiet h.2) (Boot.not_enters (.inl pc) rfl rfl) rfl
    | some byte =>
      refine .rests (fun h => quiet h.2) (Boot.not_enters (.inl pc) rfl ?_) rfl
      exact (accepted_quiet (commsUpdateByte_quiet s.comms byte).2.2).trans (accepted_quiet rfl)

end Steps

/-! ### The states -/

/-- The state in which a packet taken in the `switch` is handled. -/
def Boot.tookPacket (s : Boot) : Boot := (s.atPc .loop).afterComms (commsReceivePacket s.comms).2

/-- The accepted packet is in the record, whatever is sent after the write. -/
theorem accepted_rearms {drv : FlashDriver} {s t : Boot} {obs : Trace}
    (here : s.bootloaderState = .receiveFw) (state : t.bootloaderState ≠ .sync)
    (trace : t.trace = (s.tookPacket.writeChunk drv s.session.nextPacket).trace ++ obs)
    (timer : t.timer = (s.tookPacket.writeChunk drv s.session.nextPacket).timer) : s.Rearms t := by
  have took : s.tookPacket.trace.accepted = s.trace.accepted := by
    refine accepted_quiet ?_
    unfold commsReceivePacket
    dsimp only
    split <;> rfl
  have grows : t.trace.accepted = s.trace.accepted ++ s.session.nextPacket :: obs.accepted := by
    rw [trace, Trace.accepted_append, ← took, Boot.writeChunk, Boot.resetTimer, Boot.shows,
      Trace.accepted_append, List.append_assoc]
    rfl
  refine ⟨.inr (.inr ⟨here, ?_⟩), state, timer⟩
  simp [grows]

section Dispatch

variable {drv : FlashDriver} {validate : Flash → Option Bool} {s : Boot} (h : s.pc = .dispatch)
include h

theorem armsTimer_waiting (waiting : s.bootloaderState.Waiting) :
    s.ArmsTimer ↔ commsPacketAvailable s.comms = true ∧
      Expected s.bootloaderState s.session.nextPacket := by
  rcases waiting with state | state | state | state <;> simp [Boot.ArmsTimer, h, state]

/-- A waiting state goes on with the packet it waits for, ends the session over another
one, and looks at the timer without one. -/
theorem waiting_timer (waiting : s.bootloaderState.Waiting) {handle : CommsPacket → Boot → Boot}
    (expected : Expected s.bootloaderState s.session.nextPacket →
      s.Rearms (handle s.session.nextPacket s.tookPacket))
    (refused : ¬Expected s.bootloaderState s.session.nextPacket →
      (handle s.session.nextPacket s.tookPacket).bootloaderState = .done) :
    TimerStep s .main ((s.atPc .loop).withPacket handle) := by
  have pc : s.pc ≠ .setup := by simp [h]
  have live : s.bootloaderState ≠ .done := by
    rcases waiting with state | state | state | state <;> simp [state]
  have arms := armsTimer_waiting h waiting
  cases available : commsPacketAvailable s.comms with
  | true =>
    have taken : (s.atPc .loop).withPacket handle = handle s.session.nextPacket s.tookPacket :=
      withPacket_available (s := s.atPc .loop) available handle
    rw [taken]
    by_cases wanted : Expected s.bootloaderState s.session.nextPacket
    · exact .arms rfl (arms.mpr ⟨available, wanted⟩) pc live (expected wanted)
    · exact .ends (refused wanted)
  | false =>
    have looks : (s.atPc .loop).withPacket handle = (s.atPc .loop).checkForTimeout :=
      withPacket_empty (s := s.atPc .loop) available handle
    have quiet : ¬s.ArmsTimer := fun h => Bool.false_ne_true (available ▸ (arms.mp h).1)
    rw [looks]
    exact .looks quiet pc rfl rfl rfl

theorem waitForFwUpdateReq_timer (state : s.bootloaderState = .waitForFwUpdateReq) :
    TimerStep s .main (s.atPc .loop).waitForFwUpdateReq := by
  refine waiting_timer h (.inl state) (fun request => ?_) (fun other => ?_)
  · rw [state, Expected] at request
    rw [if_pos request]
    exact rearms_next state .deviceIdReq rfl (by decide) rfl
  · rw [state, Expected] at other
    rw [if_neg other]
    rfl

theorem deviceIdRes_timer (state : s.bootloaderState = .deviceIdRes) :
    TimerStep s .main (s.atPc .loop).deviceIdRes := by
  refine waiting_timer h (.inr (.inl state)) (fun answer => ?_) (fun other => ?_)
  · rw [state] at answer
    rw [if_pos (by rw [Bool.and_eq_true, beq_iff_eq]; exact answer)]
    exact rearms_next state .fwLengthReq rfl (by decide) rfl
  · rw [state] at other
    rw [if_neg (by rw [Bool.and_eq_true, beq_iff_eq]; exact other)]
    rfl

theorem fwLengthRes_timer (state : s.bootloaderState = .fwLengthRes) :
    TimerStep s .main (s.atPc .loop).fwLengthRes := by
  refine waiting_timer h (.inr (.inr (.inl state))) (fun answer => ?_) (fun other => ?_)
  · rw [state, Expected] at answer
    rw [if_pos answer.1]
    dsimp only
    rw [if_pos answer.2]
    exact rearms_next state .eraseApplication rfl (by decide) rfl
  · rw [state, Expected] at other
    split
    · next shape =>
      dsimp only
      rw [if_neg fun fits => other ⟨shape, fits⟩]
      rfl
    · rfl

theorem receiveFw_timer (state : s.bootloaderState = .receiveFw) :
    TimerStep s .main ((s.atPc .loop).receiveFw drv validate) := by
  refine waiting_timer h (.inr (.inr (.inr state))) (fun ok => ?_) (fun wrong => ?_)
  · have later : s.bootloaderState ≠ .sync := by simp [state]
    rw [state, Expected, DataLengthOk] at ok
    rw [if_pos ok]
    dsimp only
    split
    · unfold Boot.reportVerdict
      split
      · exact accepted_rearms state nofun rfl rfl
      · exact accepted_rearms state nofun rfl rfl
      · exact accepted_rearms state later rfl rfl
    · exact accepted_rearms state later rfl rfl
  · rw [state, Expected, DataLengthOk] at wrong
    rw [if_neg wrong]
    rfl

theorem switchState_timer
    (active : s.bootloaderState ≠ .sync ∧ s.bootloaderState ≠ .done) :
    TimerStep s .main ((s.atPc .loop).switchState drv validate) := by
  have pc : s.pc ≠ .setup := by simp [h]
  unfold Boot.switchState
  cases state : s.bootloaderState with
  | sync => exact absurd state active.1
  | waitForFwUpdateReq => simpa only [Boot.atPc, state] using waitForFwUpdateReq_timer h state
  | deviceIdReq =>
    simp only [Boot.atPc, state]
    exact .arms rfl (.inr (.inr ⟨h, .inl state⟩)) pc active.2
      (rearms_next state .deviceIdRes rfl (by decide) rfl)
  | deviceIdRes => simpa only [Boot.atPc, state] using deviceIdRes_timer h state
  | fwLengthReq =>
    simp only [Boot.atPc, state]
    exact .arms rfl (.inr (.inr ⟨h, .inr (.inl state)⟩)) pc active.2
      (rearms_next state .fwLengthRes rfl (by decide) rfl)
  | fwLengthRes => simpa only [Boot.atPc, state] using fwLengthRes_timer h state
  | eraseApplication =>
    simp only [Boot.atPc, state]
    exact .arms rfl (.inr (.inr ⟨h, .inr (.inr (.inl state))⟩)) pc active.2
      (rearms_next state .receiveFw rfl (by decide) rfl)
  | receiveFw => simpa only [Boot.atPc, state] using receiveFw_timer h state
  | done => exact absurd state active.2

end Dispatch

theorem leave_timer {validate : Flash → Option Bool} {s : Boot}
    (ended : s.bootloaderState = .done) : TimerStep s .main (s.leave validate) := by
  refine .ends ?_
  unfold Boot.leave
  split <;> exact ended

/-- Every event does one of the listed things to the timer. -/
theorem bootStep_timer (drv : FlashDriver) (validate : Flash → Option Bool) {flash0 : Flash}
    {s : Boot} (inv : SessionInv flash0 s.session) (e : BootEvent) :
    TimerStep s e (bootStep drv validate s e) := by
  cases e with
  | rx byte =>
    refine .interrupt (by simp) ?_ ?_ <;> rw [bootStep] <;> split <;> rfl
  | tick =>
    refine .interrupt (by simp) ?_ ?_ <;> rw [bootStep] <;> split <;> rfl
  | main =>
    unfold bootStep Boot.mainStep
    cases h : s.pc with
    | setup => exact .boots rfl h rfl rfl
    | loop =>
      cases state : s.bootloaderState with
      | done => exact leave_timer state
      | sync => exact syncStep_timer h
      | _ =>
        have pc : s.pc ≠ .setup := by simp [h]
        exact .rests (by simp [Boot.ArmsTimer, h]) (Boot.not_enters (.inl pc) rfl rfl) rfl
    | flush => exact flushStep_timer h (inv.flushing h).1
    | update => exact updateStep_timer h
    | dispatch => exact switchState_timer h (inv.active (.inr h))
    | gone =>
      have pc : s.pc ≠ .setup := by simp [h]
      exact .rests (by simp [Boot.ArmsTimer, h]) (Boot.not_enters (.inl pc) rfl rfl) rfl

/-! ## The clock -/

section Clock

theorem checkForTimeout_tickCount (s : Boot) : s.checkForTimeout.tickCount = s.tickCount := by
  unfold Boot.checkForTimeout
  dsimp only
  split <;> rfl

/-- A waiting state leaves the clock alone if its handler does. -/
theorem withPacket_tickCount (s : Boot) {handle : CommsPacket → Boot → Boot}
    (keep : ∀ packet s, (handle packet s).tickCount = s.tickCount) :
    (s.withPacket handle).tickCount = s.tickCount := by
  unfold Boot.withPacket
  split
  · exact keep _ _
  · exact checkForTimeout_tickCount s

variable (drv : FlashDriver) (validate : Flash → Option Bool) (s : Boot)

theorem receiveFw_tickCount : (s.receiveFw drv validate).tickCount = s.tickCount := by
  refine withPacket_tickCount s fun packet s => ?_
  split
  · dsimp only
    split
    · unfold Boot.reportVerdict
      split <;> rfl
    · rfl
  · rfl

theorem switchState_tickCount : (s.switchState drv validate).tickCount = s.tickCount := by
  unfold Boot.switchState
  cases s.bootloaderState with
  | waitForFwUpdateReq => exact withPacket_tickCount s fun _ _ => by split <;> rfl
  | deviceIdRes => exact withPacket_tickCount s fun _ _ => by split <;> rfl
  | fwLengthRes =>
    refine withPacket_tickCount s fun packet s => ?_
    split
    · dsimp only
      split <;> rfl
    · rfl
  | receiveFw => exact receiveFw_tickCount drv validate s
  | _ => rfl

/-- The main program only reads the clock. -/
theorem mainStep_tickCount : (s.mainStep drv validate).tickCount = s.tickCount := by
  unfold Boot.mainStep
  cases s.pc with
  | setup => rfl
  | loop =>
    cases s.bootloaderState with
    | done =>
      simp only [Boot.leave]
      split <;> rfl
    | sync =>
      simp only [Boot.syncStep]
      split
      · split
        · rfl
        · exact checkForTimeout_tickCount _
      · exact checkForTimeout_tickCount s
    | _ => rfl
  | flush =>
    simp only [Boot.flushStep]
    split <;> rfl
  | update =>
    simp only [Boot.updateStep]
    split <;> rfl
  | dispatch => exact switchState_tickCount drv validate _
  | gone => rfl

end Clock

end SecureBootloader
