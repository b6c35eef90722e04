import SecureBootloader.Link.Progress
import SecureBootloader.Theorems.UpdateSuccess

/-!
# Fresh starts

A start of an update for every flash content, and when its timers do not run out. Until the
`switch` the main program does not look at the flash.
-/

namespace SecureBootloader

/-! ## The flash stays out of it -/

def Boot.withFlash (s : Boot) (flash : Flash) : Boot := { s with flash := flash }

/-- The next step has nothing to do with the flash. -/
def Boot.OffFlash (s : Boot) : Prop := s.pc ≠ .dispatch ∧ s.bootloaderState ≠ .done

instance (s : Boot) : Decidable s.OffFlash := inferInstanceAs (Decidable (_ ∧ _))

theorem checkForTimeout_withFlash (s : Boot) (flash : Flash) :
    (s.withFlash flash).checkForTimeout = s.checkForTimeout.withFlash flash := by
  unfold Boot.checkForTimeout
  dsimp only [Boot.withFlash]
  split <;> rfl

section OffFlash

variable (drv drv' : FlashDriver) (validate validate' : Flash → Option Bool) (flash : Flash)

theorem bootStep_withFlash {s : Boot} (off : s.OffFlash) (e : BootEvent) :
    bootStep drv validate (s.withFlash flash) e =
      (bootStep drv' validate' s e).withFlash flash := by
  have pc : (s.withFlash flash).pc = s.pc := rfl
  have state : (s.withFlash flash).bootloaderState = s.bootloaderState := rfl
  have rx : (s.withFlash flash).rxRingBuffer = s.rxRingBuffer := rfl
  have seq : (s.withFlash flash).syncSeq = s.syncSeq := rfl
  cases e with
  | rx byte =>
    rw [bootStep, bootStep, pc]
    by_cases gone : s.pc = .gone
    · rw [if_pos gone, if_pos gone]
    · rw [if_neg gone, if_neg gone]
      rfl
  | tick =>
    rw [bootStep, bootStep, pc]
    by_cases gone : s.pc = .gone
    · rw [if_pos gone, if_pos gone]
    · rw [if_neg gone, if_neg gone]
      rfl
  | main =>
    show (s.withFlash flash).mainStep drv validate = (s.mainStep drv' validate').withFlash flash
    unfold Boot.mainStep
    rw [pc, state]
    cases here : s.pc with
    | setup => rfl
    | loop =>
      cases there : s.bootloaderState with
      | done => exact absurd there off.2
      | sync =>
        dsimp only
        unfold Boot.syncStep
        rw [rx, seq]
        cases read : ringBufferRead s.rxRingBuffer with
        | mk result rest =>
          cases result with
          | none => exact checkForTimeout_withFlash s flash
          | some byte =>
            dsimp only
            by_cases matches_ : (⟨s.syncSeq.s1, s.syncSeq.s2, s.syncSeq.s3, byte⟩ : SyncSeq) =
                syncSequence
            · rw [if_pos matches_, if_pos matches_]
              rfl
            · rw [if_neg matches_, if_neg matches_]
              exact checkForTimeout_withFlash (({ s with rxRingBuffer := rest, syncSeq :=
                ⟨s.syncSeq.s1, s.syncSeq.s2, s.syncSeq.s3, byte⟩ } : Boot).shows [.syncByte byte])
                flash
      | _ => rfl
    | flush =>
      dsimp only
      unfold Boot.flushStep
      rw [rx]
      split <;> rfl
    | update =>
      dsimp only
      unfold Boot.updateStep
      rw [rx]
      split <;> rfl
    | dispatch => exact absurd here off.1
    | gone => rfl

theorem run_withFlash {s : Boot} {es : List BootEvent}
    (off : Lib.Run.Meets (bootStep drv' validate') (fun s _ => s.OffFlash) s es) :
    Lib.Run.run (bootStep drv validate) (s.withFlash flash) es =
      (Lib.Run.run (bootStep drv' validate') s es).withFlash flash := by
  induction es generalizing s with
  | nil => rfl
  | cons e es ih =>
    rw [Lib.Run.run_cons, Lib.Run.run_cons,
      bootStep_withFlash drv drv' validate validate' flash off.1 e]
    exact ih off.2

/-- The answer to the sync sequence is the same on every flash. -/
theorem bootRun_sync : bootRun drv validate flash syncEvents =
    (bootRun stm32Flash validateFlash (fun _ => 0) syncEvents).withFlash flash :=
  run_withFlash drv stm32Flash validate validateFlash flash (s := bootInit fun _ => 0)
    (by decide +kernel)

end OffFlash

/-! ## The start -/

/-- The start of an update: the bootloader has answered the sync sequence, and the host has
acknowledged that. -/
def freshExchange (drv : FlashDriver) (validate : Flash → Option Bool) (flash0 : Flash)
    (fwImage : List Byte) : Exchange where
  boot := bootRun drv validate flash0 syncEvents
  main := ⟨.fwUpdateReq, ⟨⟨[], [], ackPacket⟩, fwImage, 0, .transfer⟩⟩
  toBoot := ackPacket.bytes
  toHost := []

theorem freshExchange_start (drv : FlashDriver) (validate : Flash → Option Bool) (flash0 : Flash)
    (fwImage : List Byte) :
    ExchangeStart drv validate flash0 fwImage (freshExchange drv validate flash0 fwImage) where
  run := ⟨syncEvents, rfl⟩
  waiting := by
    rw [freshExchange, bootRun_sync]
    exact (by decide +kernel : (bootRun stm32Flash validateFlash (fun _ => 0)
      syncEvents).bootloaderState = .waitForFwUpdateReq)
  read := by
    rw [freshExchange, bootRun_sync]
    exact (by decide +kernel :
      (bootRun stm32Flash validateFlash (fun _ => 0) syncEvents).rxRingBuffer.readIndex =
        (bootRun stm32Flash validateFlash (fun _ => 0) syncEvents).rxRingBuffer.writeIndex)
  between := by
    rw [freshExchange, bootRun_sync]
    exact (by decide +kernel : (bootRun stm32Flash validateFlash (fun _ => 0)
      syncEvents).comms.currentState = .length)
  taken := by
    rw [freshExchange, bootRun_sync]
    exact (by decide +kernel : commsPacketAvailable (bootRun stm32Flash validateFlash (fun _ => 0)
      syncEvents).comms = false)
  stage := rfl
  phase := rfl
  written := rfl
  image := rfl
  packets := rfl
  rx := rfl
  toHost := rfl
  toBoot := .inr rfl

/-! ## In time -/

/-- The ticks in an event. -/
def BootEvent.ticks : BootEvent → Nat
  | .tick => 1
  | _ => 0

section Early

variable (drv : FlashDriver) (validate : Flash → Option Bool) {flash0 : Flash}

theorem bootStep_tickCount_le (s : Boot) (e : BootEvent) :
    (bootStep drv validate s e).tickCount ≤ s.tickCount + e.ticks := by
  cases e with
  | rx byte =>
    rw [bootStep]
    split <;> exact Nat.le_refl _
  | tick =>
    rw [bootStep]
    split
    · exact Nat.le_succ _
    · exact Nat.mod_le _ _
  | main => exact (mainStep_tickCount drv validate s).le

/-- The session is over, or the timer has more than `ticks` ticks to go. -/
def Boot.Early (s : Boot) (ticks : Nat) : Prop :=
  s.bootloaderState = .done ∨
    (s.timer.waitTime = defaultTimeoutMs ∧ s.tickCount + ticks < s.timer.targetTime)

/-- An event uses up the ticks in it, or the timer is armed anew. -/
theorem Boot.Early.step {s : Boot} {ticks : Nat} {e : BootEvent} (early : s.Early (ticks + e.ticks))
    (inv : SessionInv flash0 s.session) (small : s.tickCount < 2 ^ 32)
    (few : ticks < defaultTimeoutMs) : (bootStep drv validate s e).Early ticks := by
  have clock := bootStep_tickCount_le drv validate s e
  have timeout : defaultTimeoutMs = 5000 := rfl
  -- a timer just armed has its whole time to go
  have armed {waitTime : Nat} {autoReset : Bool} (wait : waitTime = defaultTimeoutMs)
      (main : e = .main) (timer : (bootStep drv validate s e).timer =
        simpleTimerInit s.tickCount waitTime autoReset) :
      (bootStep drv validate s e).Early ticks := by
    rw [main, show BootEvent.ticks .main = 0 from rfl, ← main] at clock
    refine .inr ⟨by rw [timer]; exact wait, ?_⟩
    rw [timer, simpleTimerInit, wait, Nat.mod_eq_of_lt (by omega)]
    show _ < s.tickCount + defaultTimeoutMs
    omega
  cases bootStep_timer drv validate inv e with
  | boots main setup pc timer => exact armed rfl main timer
  | arms main arms pc live rearms =>
    exact armed (early.resolve_left live).1 main rearms.timer
  | rests quiet stays timer =>
    rcases early with ended | ⟨wait, more⟩
    · refine .inl ?_
      by_contra other
      exact stays (.inr (.inl fun same => other (same.trans ended)))
    · exact .inr ⟨by rw [timer]; exact wait, by rw [timer]; omega⟩
  | ends state => exact .inl state

/-- Before its target the timer does not run out. -/
theorem Boot.Early.waits {s : Boot} {ticks : Nat} (early : s.Early ticks)
    (looks : s.FindsNoPacket) : (simpleTimerHasElapsed s.tickCount s.timer).1 = false := by
  have live : s.bootloaderState ≠ .done := by
    rcases looks with ⟨-, sync, -⟩ | ⟨-, waiting, -⟩
    · rw [sync]
      decide
    · intro ended
      rw [ended] at waiting
      exact absurd waiting (by decide)
  have more := (early.resolve_left live).2
  rw [simpleTimerHasElapsed_waits (.inr (by omega))]

end Early

section InTime

variable (drv : FlashDriver) (validate : Flash → Option Bool)

/-- An event of an update is at most one of the bootloader's. -/
theorem exchangeStep_boot (s : Exchange) (e : ExchangeEvent) :
    (exchangeStep drv validate s e).boot = s.boot ∨
      ∃ e', (exchangeStep drv validate s e).boot = bootStep drv validate s.boot e' ∧
        e'.ticks = if e = .bootTick then 1 else 0 := by
  cases e with
  | bootRx =>
    show (s.bootRx drv validate).boot = _ ∨ ∃ e', (s.bootRx drv validate).boot = _ ∧ _
    unfold Exchange.bootRx
    split
    · exact .inl rfl
    · exact .inr ⟨.rx _, rfl, rfl⟩
  | bootTick => exact .inr ⟨.tick, rfl, rfl⟩
  | bootMain => exact .inr ⟨.main, rfl, rfl⟩
  | hostData k => exact .inl rfl
  | hostMain => exact .inl rfl
  | hostTimeout => exact .inl rfl

/-- The bootloader's events in a run of an update. -/
theorem exchangeRun_boot (s : Exchange) (es : List ExchangeEvent) :
    ∃ bs, (Lib.Run.run (exchangeStep drv validate) s es).boot =
      Lib.Run.run (bootStep drv validate) s.boot bs := by
  induction es generalizing s with
  | nil => exact ⟨[], rfl⟩
  | cons e es ih =>
    obtain ⟨bs, more⟩ := ih (exchangeStep drv validate s e)
    rw [Lib.Run.run_cons, more]
    rcases exchangeStep_boot drv validate s e with same | ⟨e', step, -⟩
    · exact ⟨bs, by rw [same]⟩
    · exact ⟨e' :: bs, by rw [step]; rfl⟩

variable {drv validate}

/-- No timer runs out while there are fewer ticks than the timer of the bootloader has to go
and `waitForPacket` does not give up. -/
theorem inTime_of_few_ticks {flash0 : Flash} {s : Exchange} {es : List ExchangeEvent}
    (run : ∃ bs, s.boot = bootRun drv validate flash0 bs)
    (early : s.boot.Early (es.count .bootTick))
    (small : s.boot.tickCount + es.count .bootTick < 2 ^ 32)
    (few : es.count .bootTick < defaultTimeoutMs) (patient : .hostTimeout ∉ es) :
    Lib.Run.Meets (exchangeStep drv validate) InTime s es := by
  induction es generalizing s with
  | nil => exact trivial
  | cons e es ih =>
    obtain ⟨bs, here⟩ := run
    have inv : SessionInv flash0 s.boot.session := here ▸ bootRun_sessionInv drv validate flash0 bs
    rw [List.count_cons] at early small few
    refine ⟨?_, ?_⟩
    · cases e with
      | bootMain => exact early.waits
      | hostTimeout => exact absurd List.mem_cons_self patient
      | _ => exact trivial
    · refine ih ?_ ?_ ?_ (by omega) fun later => patient (List.mem_cons_of_mem e later)
      · rcases exchangeStep_boot drv validate s e with same | ⟨e', step, -⟩
        · exact ⟨bs, same.trans here⟩
        · exact ⟨bs ++ [e'], by rw [step, bootRun_concat, ← here]⟩
      · rcases exchangeStep_boot drv validate s e with same | ⟨e', step, ticks⟩
        · rw [same]
          exact early.imp_right fun ⟨wait, more⟩ => ⟨wait, by omega⟩
        · rw [step]
          refine Boot.Early.step drv validate ?_ inv (by omega) (by omega)
          rw [ticks]
          simpa using early
      · rcases exchangeStep_boot drv validate s e with same | ⟨e', step, ticks⟩
        · rw [same]
          omega
        · have clock := bootStep_tickCount_le drv validate s.boot e'
          rw [ticks] at clock
          rw [step]
          simp only [beq_iff_eq] at small
          omega

end InTime

/-! ## Prompt rounds -/

/-- A byte arrives, both programs get their turn, and no time passes. -/
def promptRound : List ExchangeEvent :=
  [.bootRx, .bootMain, .bootMain, .bootMain, .hostData 18, .hostMain]

/-- While no time passes no timer runs out. -/
theorem promptRounds_inTime {drv : FlashDriver} {validate : Flash → Option Bool} {flash0 : Flash}
    {s : Exchange} (run : ∃ bs, s.boot = bootRun drv validate flash0 bs) (early : s.boot.Early 0)
    (small : s.boot.tickCount < 2 ^ 32) (rounds : Nat) :
    Lib.Run.Meets (exchangeStep drv validate) InTime s
      (List.replicate rounds promptRound).flatten := by
  have none {e : ExchangeEvent} (other : e ∉ promptRound) :
      e ∉ (List.replicate rounds promptRound).flatten := by
    intro member
    obtain ⟨round, here, inside⟩ := List.mem_flatten.mp member
    rw [List.eq_of_mem_replicate here] at inside
    exact other inside
  have ticks := List.count_eq_zero_of_not_mem (none (e := .bootTick) (by decide))
  exact inTime_of_few_ticks run (ticks.symm ▸ early) (ticks.symm ▸ small)
    (by rw [ticks]; decide) (none (by decide))

theorem prompt_inTime (drv : FlashDriver) (validate : Flash → Option Bool) (flash0 : Flash)
    (fwImage : List Byte) (rounds : Nat) : Lib.Run.Meets (exchangeStep drv validate) InTime
      (freshExchange drv validate flash0 fwImage) (List.replicate rounds promptRound).flatten := by
  have boot : (freshExchange drv validate flash0 fwImage).boot =
      (bootRun stm32Flash validateFlash (fun _ => 0) syncEvents).withFlash flash0 :=
    bootRun_sync drv validate flash0
  refine promptRounds_inTime ⟨syncEvents, rfl⟩ ?_ ?_ rounds
  · rw [boot]
    exact .inr (by decide +kernel : (bootRun stm32Flash validateFlash (fun _ => 0)
      syncEvents).timer.waitTime = defaultTimeoutMs ∧
        (bootRun stm32Flash validateFlash (fun _ => 0) syncEvents).tickCount + 0 <
          (bootRun stm32Flash validateFlash (fun _ => 0) syncEvents).timer.targetTime)
  · rw [boot]
    exact (by decide +kernel : (bootRun stm32Flash validateFlash (fun _ => 0)
      syncEvents).tickCount < 2 ^ 32)

end SecureBootloader
