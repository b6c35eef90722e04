import SecureBootloader.Boot.Watchdog

/-!
# Every state of a session is timed

The step that enters a state arms the timer, and no later step of that state touches
it. The first look at the timer at or behind its target ends the session, so a timer
that has gone off is never waited for.
-/

namespace SecureBootloader

/-! ## Ticks -/

section Ticks

variable (drv : FlashDriver) (validate : Flash → Option Bool)

/-- The number of SysTick interrupts of a run; they are off once the main program is gone. -/
def ticksHandled (s : Boot) : List BootEvent → Nat
  | [] => 0
  | e :: es =>
    (if e = .tick ∧ s.pc ≠ .gone then 1 else 0) + ticksHandled (bootStep drv validate s e) es

theorem ticksHandled_append (s : Boot) (es es' : List BootEvent) :
    ticksHandled drv validate s (es ++ es') = ticksHandled drv validate s es +
      ticksHandled drv validate (Lib.Run.run (bootStep drv validate) s es) es' := by
  induction es generalizing s with
  | nil => exact (Nat.zero_add _).symm
  | cons e es ih =>
    rw [List.cons_append, ticksHandled, ticksHandled, ih, Nat.add_assoc]
    rfl

theorem bootStep_tickCount (s : Boot) (e : BootEvent) (small : s.tickCount < 2 ^ 32) :
    (bootStep drv validate s e).tickCount =
      (s.tickCount + if e = .tick ∧ s.pc ≠ .gone then 1 else 0) % 2 ^ 32 := by
  have same : s.tickCount = (s.tickCount + 0) % 2 ^ 32 := (Nat.mod_eq_of_lt small).symm
  cases e with
  | rx byte =>
    rw [if_neg (by simp), ← same, bootStep]
    split <;> rfl
  | tick =>
    rw [bootStep]
    by_cases gone : s.pc = .gone
    · rw [if_pos gone, if_neg (fun h => h.2 gone)]
      exact same
    · rw [if_neg gone, if_pos ⟨rfl, gone⟩]
  | main =>
    rw [if_neg (by simp), ← same]
    exact mainStep_tickCount drv validate s

/-- `tick_count` counts the ticks modulo `2^32`. -/
theorem run_tickCount {s : Boot} (small : s.tickCount < 2 ^ 32) (es : List BootEvent) :
    (Lib.Run.run (bootStep drv validate) s es).tickCount =
      (s.tickCount + ticksHandled drv validate s es) % 2 ^ 32 := by
  induction es generalizing s with
  | nil => exact (Nat.mod_eq_of_lt small).symm
  | cons e es ih =>
    have step := bootStep_tickCount drv validate s e small
    rw [Lib.Run.run_cons, ih (step ▸ Nat.mod_lt _ (by decide)), step, ticksHandled,
      Nat.mod_add_mod, Nat.add_assoc]

/-- The ticks since boot. -/
def bootTicks (flash0 : Flash) (es : List BootEvent) : Nat :=
  ticksHandled drv validate (bootInit flash0) es

/-- As long as it does not wrap, `tick_count` is their number. -/
theorem bootRun_tickCount {flash0 : Flash} {es : List BootEvent}
    (fits : bootTicks drv validate flash0 es < 2 ^ 32) :
    (bootRun drv validate flash0 es).tickCount = bootTicks drv validate flash0 es := by
  rw [bootRun, run_tickCount drv validate (Nat.two_pow_pos 32)]
  show (0 + bootTicks drv validate flash0 es) % 2 ^ 32 = _
  rw [Nat.zero_add, Nat.mod_eq_of_lt fits]

theorem bootTicks_le (flash0 : Flash) (es es' : List BootEvent) :
    bootTicks drv validate flash0 es ≤ bootTicks drv validate flash0 (es ++ es') := by
  rw [bootTicks, bootTicks, ticksHandled_append]
  exact Nat.le_add_right _ _

end Ticks

/-! ## Arming -/

section Arming

variable (drv : FlashDriver) (validate : Flash → Option Bool) (flash0 : Flash)

/-- In the run over `es`, the main step after `before` is the last one that armed the timer
and the last one that entered a state or accepted a data packet. -/
structure ArmedOnEntry (es before after : List BootEvent) : Prop where
  split : es = before ++ .main :: after
  arms : Lib.Run.LastStep (bootStep drv validate) (fun s e => e = .main ∧ s.ArmsTimer)
    (bootInit flash0) before .main after
  enters : Lib.Run.LastStep (bootStep drv validate)
    (fun s e => s.Enters (bootStep drv validate s e)) (bootInit flash0) before .main after
  /-- the SYNC state is entered at boot -/
  boot : (bootRun drv validate flash0 es).bootloaderState = .sync →
    (bootRun drv validate flash0 before).pc = .setup
  timer : (bootRun drv validate flash0 es).timer =
    simpleTimerInit (bootRun drv validate flash0 before).tickCount defaultTimeoutMs false

variable {drv validate flash0}

/-- An event that leaves the timer and the state alone. -/
theorem ArmedOnEntry.rests {es before after : List BootEvent} {e : BootEvent}
    (h : ArmedOnEntry drv validate flash0 es before after)
    (quiet : ¬(e = .main ∧ (bootRun drv validate flash0 es).ArmsTimer))
    (stays : ¬(bootRun drv validate flash0 es).Enters (bootRun drv validate flash0 (es ++ [e])))
    (timer : (bootRun drv validate flash0 (es ++ [e])).timer =
      (bootRun drv validate flash0 es).timer) :
    ArmedOnEntry drv validate flash0 (es ++ [e]) before (after ++ [e]) where
  split := by rw [h.split, List.append_assoc, List.cons_append]
  arms := h.arms.extend (h.split ▸ quiet)
  enters := by
    rw [bootRun_concat, h.split] at stays
    exact h.enters.extend stays
  boot sync := by
    refine h.boot ?_
    by_contra other
    exact stays (.inr (.inl fun same => other (same ▸ sync)))
  timer := timer.trans h.timer

/-- In every state of a run but DONE, the timer was armed on entry. -/
theorem bootRun_armed (es : List BootEvent) (started : (bootRun drv validate flash0 es).pc ≠ .setup)
    (live : (bootRun drv validate flash0 es).bootloaderState ≠ .done) :
    ∃ before after, ArmedOnEntry drv validate flash0 es before after := by
  induction es using List.reverseRecOn with
  | nil => exact absurd rfl started
  | append_singleton es e ih =>
    have step := bootRun_concat drv validate flash0 es e
    have kind := bootStep_timer drv validate (bootRun_sessionInv drv validate flash0 es) e
    rw [← step] at kind
    cases kind with
    | boots main setup pc timer =>
      subst main
      have enters : (bootRun drv validate flash0 es).Enters
        (bootStep drv validate (bootRun drv validate flash0 es) .main) :=
        .inl ⟨setup, by rw [← step, pc]; decide⟩
      exact ⟨es, [], rfl, .here ⟨rfl, .inl setup⟩, .here enters, fun _ => setup, timer⟩
    | arms main arms pc live' rearms =>
      subst main
      obtain ⟨before, after, armed⟩ := ih pc live'
      have timer := rearms.timer
      rw [armed.timer] at timer
      exact ⟨es, [], rfl, .here ⟨rfl, arms⟩, .here (step ▸ rearms.enters),
        fun sync => absurd sync rearms.state, timer⟩
    | rests quiet stays timer =>
      have started' : (bootRun drv validate flash0 es).pc ≠ .setup :=
        fun setup => stays (.inl ⟨setup, started⟩)
      have live' : (bootRun drv validate flash0 es).bootloaderState ≠ .done := by
        intro ended
        exact stays (.inr (.inl fun same => live (same.trans ended)))
      obtain ⟨before, after, armed⟩ := ih started' live'
      exact ⟨before, after ++ [e], armed.rests quiet stays timer⟩
    | ends state => exact absurd state live

/-- The timer as it was armed, in ticks since boot. -/
theorem ArmedOnEntry.timer_eq {es before after : List BootEvent}
    (h : ArmedOnEntry drv validate flash0 es before after)
    (fits : bootTicks drv validate flash0 es < 2 ^ 32) :
    (bootRun drv validate flash0 es).timer = ⟨defaultTimeoutMs,
      defaultTimeoutMs + bootTicks drv validate flash0 before, false, false⟩ := by
  have earlier := bootTicks_le drv validate flash0 before (.main :: after)
  rw [← h.split] at earlier
  have small : defaultTimeoutMs = 5000 := rfl
  rw [h.timer, bootRun_tickCount drv validate (Nat.lt_of_le_of_lt earlier fits), simpleTimerInit,
    Nat.add_comm, Nat.mod_eq_of_lt (by omega)]

end Arming

/-! ## Looking at the timer -/

instance (state : BlState) : Decidable state.Waiting := inferInstanceAs (Decidable (_ ∨ _))

/-- The next step of the main program finds no packet or, in the SYNC state, no byte that
completes the sync sequence. -/
def Boot.FindsNoPacket (s : Boot) : Prop :=
  (s.pc = .loop ∧ s.bootloaderState = .sync ∧
    ∀ byte ∈ (ringBufferRead s.rxRingBuffer).1, s.session.shifted byte ≠ syncSequence) ∨
  (s.pc = .dispatch ∧ s.bootloaderState.Waiting ∧ commsPacketAvailable s.comms = false)

instance (s : Boot) : Decidable s.FindsNoPacket := inferInstanceAs (Decidable (_ ∨ _))

/-- The step from `s` to `t` sends one NACK and ends the session. -/
structure Boot.TimesOut (s t : Boot) : Prop where
  state : t.bootloaderState = .done
  sent : t.trace.sent = s.trace.sent ++ [commsCreateSingleBytePacket blPacketNackData0]

/-- The step from `s` to `t` sends nothing and stays in its state. -/
structure Boot.WaitsOn (s t : Boot) : Prop where
  state : t.bootloaderState = s.bootloaderState
  sent : t.trace.sent = s.trace.sent

section Looking

variable (drv : FlashDriver) (validate : Flash → Option Bool) {s : Boot}

/-- Such a step looks at the timer, in a state that differs at most by a sync byte read. -/
theorem Boot.FindsNoPacket.looks (h : s.FindsNoPacket) :
    ∃ s' : Boot, bootStep drv validate s .main = s'.checkForTimeout ∧ s'.timer = s.timer ∧
      s'.tickCount = s.tickCount ∧ s'.bootloaderState = s.bootloaderState ∧
      s'.trace.sent = s.trace.sent := by
  rcases h with ⟨pc, sync, other⟩ | ⟨pc, waiting, empty⟩
  · have step : bootStep drv validate s .main = s.syncStep := by
      rw [bootStep, Boot.mainStep, pc, sync]
    rw [step, Boot.syncStep]
    cases read : ringBufferRead s.rxRingBuffer with
    | mk result rx =>
      cases result with
      | none => exact ⟨s, rfl, rfl, rfl, rfl, rfl⟩
      | some byte =>
        have mismatch : ¬(⟨s.syncSeq.s1, s.syncSeq.s2, s.syncSeq.s3, byte⟩ : SyncSeq) =
          syncSequence := other byte (by rw [read]; rfl)
        dsimp only
        rw [if_neg mismatch]
        refine ⟨_, rfl, rfl, rfl, rfl, ?_⟩
        exact (Trace.sent_append _ _).trans (List.append_nil _)
  · have step : bootStep drv validate s .main = (s.atPc .loop).checkForTimeout := by
      rw [bootStep, Boot.mainStep, pc]
      show (s.atPc .loop).switchState drv validate = _
      unfold Boot.switchState
      rcases waiting with state | state | state | state <;>
        rw [show (s.atPc .loop).bootloaderState = _ from state] <;>
        exact withPacket_empty (s := s.atPc .loop) empty _
    exact ⟨s.atPc .loop, step, rfl, rfl, rfl, rfl⟩

theorem Boot.FindsNoPacket.timesOut (h : s.FindsNoPacket) (armed : s.timer.timerElapsed = false)
    (due : s.timer.targetTime ≤ s.tickCount) : s.TimesOut (bootStep drv validate s .main) := by
  obtain ⟨s', step, timer, clock, -, sent⟩ := h.looks drv validate
  rw [← timer] at armed
  rw [← timer, ← clock] at due
  obtain ⟨state, trace⟩ := checkForTimeout_due armed due
  refine ⟨step ▸ state, ?_⟩
  rw [step, trace, Trace.sent_append, sent]
  rfl

theorem Boot.FindsNoPacket.waitsOn (h : s.FindsNoPacket)
    (early : s.tickCount < s.timer.targetTime) : s.WaitsOn (bootStep drv validate s .main) := by
  obtain ⟨s', step, timer, clock, state, sent⟩ := h.looks drv validate
  rw [← timer, ← clock] at early
  rw [step, checkForTimeout_waits (.inr early)]
  exact ⟨state, sent⟩

end Looking

/-! ## The watchdog -/

/-- In the state after the run over `es` the timer is armed since the main step after
`before`, and it ends the session at the first look at or behind its target. -/
structure Watched (drv : FlashDriver) (validate : Flash → Option Bool) (flash0 : Flash)
    (es before after : List BootEvent) : Prop where
  armed : ArmedOnEntry drv validate flash0 es before after
  silent : (bootRun drv validate flash0 es).timer.timerElapsed = false
  target : (bootRun drv validate flash0 es).timer.targetTime =
    defaultTimeoutMs + bootTicks drv validate flash0 before
  due : (bootRun drv validate flash0 es).FindsNoPacket →
    defaultTimeoutMs + bootTicks drv validate flash0 before ≤ bootTicks drv validate flash0 es →
    (bootRun drv validate flash0 es).TimesOut (bootRun drv validate flash0 (es ++ [.main]))
  early : (bootRun drv validate flash0 es).FindsNoPacket →
    bootTicks drv validate flash0 es < defaultTimeoutMs + bootTicks drv validate flash0 before →
    (bootRun drv validate flash0 es).WaitsOn (bootRun drv validate flash0 (es ++ [.main]))
  canFire : ∀ now, defaultTimeoutMs + bootTicks drv validate flash0 before ≤ now →
    (simpleTimerHasElapsed now (bootRun drv validate flash0 es).timer).1 = true

/-- In every run in which `tick_count` does not wrap, every state but DONE is watched from
the step that entered it. -/
theorem session_watched (drv : FlashDriver) (validate : Flash → Option Bool) (flash0 : Flash)
    (es : List BootEvent) (fits : bootTicks drv validate flash0 es < 2 ^ 32)
    (started : (bootRun drv validate flash0 es).pc ≠ .setup)
    (live : (bootRun drv validate flash0 es).bootloaderState ≠ .done) :
    ∃ before after, Watched drv validate flash0 es before after := by
  obtain ⟨before, after, armed⟩ := bootRun_armed es started live
  have timer := armed.timer_eq fits
  have silent : (bootRun drv validate flash0 es).timer.timerElapsed = false := by rw [timer]
  have target : (bootRun drv validate flash0 es).timer.targetTime =
      defaultTimeoutMs + bootTicks drv validate flash0 before := by rw [timer]
  refine ⟨before, after, armed, silent, target, ?_, ?_, ?_⟩
  · intro noPacket due
    rw [← target, ← bootRun_tickCount drv validate fits] at due
    rw [bootRun_concat]
    exact noPacket.timesOut drv validate silent due
  · intro noPacket early
    rw [← target, ← bootRun_tickCount drv validate fits] at early
    rw [bootRun_concat]
    exact noPacket.waitsOn drv validate early
  · intro now due
    rw [← target] at due
    exact simpleTimerHasElapsed_due silent due

/-- The sync sequence, the flush, two ticks in WAIT_FOR_FW_UPDATE_REQ, and the `switch` is next. -/
theorem session_watched_synced :
    ∃ before after, Watched stm32Flash validateFlash (fun _ => 0)
      [.main, .tick, .rx 0xc4, .rx 0x55, .rx 0x7e, .rx 0x10, .main, .main, .main, .main, .main,
        .tick, .tick, .main, .main] before after :=
  session_watched stm32Flash validateFlash (fun _ => 0) _ (by decide) (by decide) (by decide)

end SecureBootloader
