import SecureBootloader.Link.Progress
import SecureBootloader.Theorems.SilentLine

/-!
# A main program that gets to its timer

The condition is one on the schedule: there are stretches of events, each with a tick and, behind
it, more than 130 steps of the main program and one more for each byte that arrives. A host that
sends without a pause can withhold them: its bytes keep `comms_update` in its loop, and every
answer blocks for as long as a frame takes. Where they come, every step forward is one of
finitely many and between two of them the timer runs, so that after enough of them the main
program has left its loop, whatever the bytes are.
-/

namespace SecureBootloader

/-! ## Steps forward -/

/-- The stages of a session that are behind it: the timer was armed so often. -/
def Session.stages (v : Session) : Nat :=
  if v.pc = .setup then 0 else 8 - v.bootloaderState.rank + v.trace.accepted.length

section Stages

variable {drv : FlashDriver} {validate : Flash → Option Bool} {flash0 : Flash} {v v' : Session}

/-- What a step of the main program does to the stages. -/
inductive StageStep (v v' : Session) : Prop
  | over (ended : v'.bootloaderState = .done ∨ v'.pc = .gone)
  | further (more : v.stages < v'.stages)
  | stays (state : v'.bootloaderState = v.bootloaderState)
      (accepted : v'.trace.accepted = v.trace.accepted)
      (running : v.pc ≠ .setup ∧ v'.pc ≠ .setup)

theorem StageStep.same (state : v'.bootloaderState = v.bootloaderState)
    (accepted : v'.trace.accepted = v.trace.accepted)
    (running : v.pc ≠ .setup ∧ v'.pc ≠ .setup) : v'.stages = v.stages := by
  rw [Session.stages, Session.stages, if_neg running.1, if_neg running.2, state, accepted]

/-- The next state of the handshake. -/
theorem StageStep.onward {here there : BlState} (before : v.bootloaderState = here)
    (after : v'.bootloaderState = there) (next : there.rank + 1 = here.rank)
    (accepted : v'.trace.accepted = v.trace.accepted)
    (running : v.pc ≠ .setup ∧ v'.pc ≠ .setup) : StageStep v v' := by
  have most := here.rank_le
  refine .further ?_
  rw [Session.stages, Session.stages, if_neg running.1, if_neg running.2, before, after, accepted]
  omega

theorem SessionStep.stages (inv : SessionInv flash0 v) (step : SessionStep drv validate v v') :
    StageStep v v' := by
  have running (pc pc' : Pc) (here : v.pc = pc) (there : v'.pc = pc')
      (other : pc ≠ .setup ∧ pc' ≠ .setup) : v.pc ≠ .setup ∧ v'.pc ≠ .setup :=
    ⟨here ▸ other.1, there ▸ other.2⟩
  have none {obs : Trace} (trace : v'.trace = v.trace ++ obs) (quiet : obs.accepted = []) :
      v'.trace.accepted = v.trace.accepted := trace ▸ accepted_quiet quiet
  cases step with
  | start h =>
    refine .further ?_
    have most := v.bootloaderState.rank_le
    have before : v.stages = 0 := if_pos h
    have after : (v.atPc .loop).stages = 8 - v.bootloaderState.rank + v.trace.accepted.length :=
      if_neg Pc.noConfusion
    omega
  | enter h => exact .stays rfl rfl (running .loop .update h rfl (by decide))
  | drained h => exact .stays rfl rfl (running .update .dispatch h rfl (by decide))
  | idle h => exact .stays rfl rfl (running .dispatch .loop h rfl (by decide))
  | syncIdle h => exact .stays rfl rfl (running .loop .loop h h (by decide))
  | syncByte byte h => exact .stays rfl (none rfl rfl) (running .loop .loop h h (by decide))
  | syncMatch byte h =>
    exact .stays rfl (none rfl rfl) (running .loop .flush h rfl (by decide))
  | flushByte byte h =>
    exact .stays rfl (none rfl rfl) (running .flush .flush h h (by decide))
  | commsByte byte h =>
    refine .stays rfl (none (List.append_assoc ..) ?_) (running .update .update h h (by decide))
    exact (Trace.accepted_append _ _).trans (commsUpdateByte_quiet v.comms byte).2.2
  | timeout | syncTimeout | syncByteTimeout | refused => exact .over (.inl rfl)
  | flushed h =>
    exact .onward (inv.flushing h).1 rfl rfl (none rfl rfl)
      (running .flush .loop h rfl (by decide))
  | fwUpdateReq h state available =>
    exact .onward state rfl rfl (none (takes_send_trace available _) rfl)
      (running .dispatch .loop h rfl (by decide))
  | deviceIdReq h state =>
    exact .onward state rfl rfl (none rfl rfl) (running .dispatch .loop h rfl (by decide))
  | deviceIdRes h state available =>
    exact .onward state rfl rfl (none (takes_trace available) rfl)
      (running .dispatch .loop h rfl (by decide))
  | fwLengthReq h state =>
    exact .onward state rfl rfl (none rfl rfl) (running .dispatch .loop h rfl (by decide))
  | fwLengthRes h state available =>
    exact .onward state rfl rfl (none (takes_trace available) rfl)
      (running .dispatch .loop h rfl (by decide))
  | erase h state =>
    exact .onward state rfl rfl (none (List.append_assoc ..) rfl)
      (running .dispatch .loop h rfl (by decide))
  | chunk h state available =>
    refine .further ?_
    have pcs := running .dispatch .loop h rfl (by decide)
    have grows : Trace.accepted (((v.atPc .loop).takes.writes drv v.nextPacket).sendSingleByte
        blPacketReadyForDataData0).trace = v.trace.accepted ++ [v.nextPacket] := by
      refine (congrArg Trace.accepted (takes_writes_append available _ _)).trans ?_
      rw [Trace.accepted_append]
      rfl
    rw [Session.stages, Session.stages, if_neg pcs.1, if_neg pcs.2, grows, List.length_append]
    exact Nat.lt_succ_self _
  | lastChunk => exact .over (.inl rfl)
  | lastChunkFault => exact .over (.inr rfl)
  | unexpected h outside =>
    have active := inv.active (.inr h)
    rcases outside with sync | done
    · exact absurd sync active.1
    · exact absurd done active.2
  | left => exact .over (.inr rfl)

/-- A data packet brings a byte at least. -/
theorem accepted_length_le (t : Trace) : t.accepted.length ≤ t.payload.length := by
  unfold Trace.payload
  induction t.accepted with
  | nil => exact Nat.le_refl 0
  | cons packet packets ih =>
    rw [List.flatMap_cons, List.length_append, List.length_cons, chunkOf_length, chunkLength]
    omega

/-- There are only so many stages. -/
theorem SessionInv.stages_lt (inv : SessionInv flash0 v) (live : v.bootloaderState ≠ .done)
    (running : v.pc ≠ .gone) : v.stages < 8 + maxFwLength := by
  have some : 0 < maxFwLength := by decide
  unfold Session.stages
  split
  · omega
  · by_cases receive : v.bootloaderState = .receiveFw
    · obtain ⟨updating, room⟩ := inv.updating receive
      have few := accepted_length_le v.trace
      rw [← updating.count] at few
      have more := room running
      omega
    · rw [(inv.untouched receive live).accepted]
      show 8 - v.bootloaderState.rank + 0 < _
      omega

end Stages

/-! ## How near the end is -/

/-- How much of the timeout has passed. -/
def Boot.lag (s : Boot) : Nat :=
  if s.pc = .setup then 0 else defaultTimeoutMs - (s.timer.targetTime - s.tickCount)

/-- The end of every session. -/
def lastAdvance : Nat := (defaultTimeoutMs + 1) * (8 + maxFwLength)

/-- How far a session is: a stage counts for more than the timeout in it. -/
def Boot.advance (s : Boot) : Nat :=
  if s.pc = .gone then lastAdvance + 1
  else if s.bootloaderState = .done then lastAdvance
  else (defaultTimeoutMs + 1) * s.session.stages + s.lag

theorem Boot.lag_le (s : Boot) : s.lag ≤ defaultTimeoutMs := by
  unfold Boot.lag
  split
  · exact Nat.zero_le _
  · exact Nat.sub_le ..

section Advance

variable {flash0 : Flash} {s t : Boot}

theorem Boot.advance_live (live : s.pc ≠ .gone ∧ s.bootloaderState ≠ .done) :
    s.advance = (defaultTimeoutMs + 1) * s.session.stages + s.lag := by
  rw [Boot.advance, if_neg live.1, if_neg live.2]

theorem Boot.advance_lt (inv : SessionInv flash0 s.session)
    (live : s.pc ≠ .gone ∧ s.bootloaderState ≠ .done) : s.advance < lastAdvance := by
  have stages := inv.stages_lt live.2 live.1
  have lag := s.lag_le
  have whole := Nat.mul_le_mul_left (defaultTimeoutMs + 1) stages
  rw [Boot.advance_live live, lastAdvance]
  rw [Nat.mul_succ] at whole
  omega

theorem Boot.advance_le (inv : SessionInv flash0 s.session) : s.advance ≤ lastAdvance + 1 := by
  by_cases gone : s.pc = .gone
  · rw [Boot.advance, if_pos gone]
  · by_cases done : s.bootloaderState = .done
    · rw [Boot.advance, if_neg gone, if_pos done]
      exact Nat.le_succ _
    · exact (Boot.advance_lt inv ⟨gone, done⟩).le.trans (Nat.le_succ _)

/-- The next stage, or the end. -/
theorem Boot.advance_further (inv : SessionInv flash0 s.session)
    (live : s.pc ≠ .gone ∧ s.bootloaderState ≠ .done)
    (further : t.bootloaderState = .done ∨ t.pc = .gone ∨ s.session.stages < t.session.stages) :
    s.advance < t.advance := by
  have before := Boot.advance_lt inv live
  by_cases gone : t.pc = .gone
  · have after : t.advance = lastAdvance + 1 := if_pos gone
    omega
  · by_cases done : t.bootloaderState = .done
    · have after : t.advance = lastAdvance := by rw [Boot.advance, if_neg gone, if_pos done]
      rwa [after]
    · have more := (further.resolve_left done).resolve_left gone
      have lag := s.lag_le
      have whole := Nat.mul_le_mul_left (defaultTimeoutMs + 1) more
      rw [Boot.advance_live live, Boot.advance_live ⟨gone, done⟩]
      rw [Nat.mul_succ] at whole
      omega

end Advance

/-! ## Events that get nowhere -/

/-- How many steps the main program is at most from looking at the timer or taking a packet. -/
def Boot.toPoll (s : Boot) : Nat :=
  s.rxRingBuffer.held.length +
    match s.pc with
    | .loop => 3
    | .update => 2
    | .setup | .flush | .dispatch => 1
    | .gone => 0

/-- A step of the main program from `s` to `t` that gets nowhere: it is too early, or the next
look at the timer has come nearer. -/
structure Boot.Stalls (s t : Boot) : Prop where
  live : s.pc ≠ .setup ∧ s.bootloaderState ≠ .done
  stays : t.pc ≠ .gone
  timer : t.timer = s.timer
  waits : s.tickCount < s.timer.targetTime ∨ t.toPoll < s.toPoll

/-- The time in this stage is over, or none is measured. -/
def Boot.Due (s : Boot) : Prop :=
  s.pc = .setup ∨ s.bootloaderState = .done ∨ s.timer.targetTime ≤ s.tickCount

section Nowhere

variable (drv : FlashDriver) (validate : Flash → Option Bool)

/-- An event that does not advance the session. -/
def Nowhere (s : Boot) : BootEvent → Prop
  | .rx _ => True
  | .tick => s.pc = .gone ∨ s.Due
  | .main => s.pc = .gone ∨ s.Stalls (bootStep drv validate s .main)

variable {drv validate} {flash0 : Flash} {s : Boot}

/-- A `switch` that arms no timer finds no packet, or ends the session. -/
theorem dispatch_polls (inv : SessionInv flash0 s.session) (pc : s.pc = .dispatch)
    (quiet : ¬s.ArmsTimer) : s.FindsNoPacket ∨
      (bootStep drv validate s .main).bootloaderState = .done ∨
      (bootStep drv validate s .main).pc = .gone := by
  have step : SessionStep drv validate s.session (bootStep drv validate s .main).session :=
    dispatch_session drv validate pc
  have active := inv.active (.inr pc)
  have arms (why : s.bootloaderState = .deviceIdReq ∨ s.bootloaderState = .fwLengthReq ∨
      s.bootloaderState = .eraseApplication ∨ (commsPacketAvailable s.comms = true ∧
        Expected s.bootloaderState s.session.nextPacket)) : False := quiet (.inr (.inr ⟨pc, why⟩))
  have packet {here : BlState} (state : s.bootloaderState = here)
      (available : commsPacketAvailable s.comms = true)
      (expected : Expected here s.session.nextPacket) : False :=
    arms (.inr (.inr (.inr ⟨available, state ▸ expected⟩)))
  generalize bootStep drv validate s .main = t at step
  generalize same : t.session = v at step
  have state : t.bootloaderState = v.bootloaderState := congrArg Session.bootloaderState same
  have place : t.pc = v.pc := congrArg Session.pc same
  cases step with
  | idle _ waiting empty => exact .inl (.inr ⟨pc, waiting, empty⟩)
  | timeout | refused | lastChunk => exact .inr (.inl state)
  | lastChunkFault => exact .inr (.inr place)
  | fwUpdateReq _ here available request => exact (packet here available request).elim
  | deviceIdReq _ here => exact (arms (.inl here)).elim
  | deviceIdRes _ here available shape device => exact (packet here available ⟨shape, device⟩).elim
  | fwLengthReq _ here => exact (arms (.inr (.inl here))).elim
  | fwLengthRes _ here available shape fits => exact (packet here available ⟨shape, fits⟩).elim
  | erase _ here => exact (arms (.inr (.inr (.inl here)))).elim
  | chunk _ here available ok => exact (packet here available ok).elim
  | unexpected _ outside =>
    rcases outside with sync | done
    · exact absurd sync active.1
    · exact absurd done active.2
  | syncByte byte hpc | syncByteTimeout byte hpc | syncMatch byte hpc | flushByte byte hpc
  | commsByte byte hpc | left obs hpc => exact absurd (hpc.symm.trans pc) (by decide)
  | start hpc | enter hpc | drained hpc | syncIdle hpc | syncTimeout hpc | flushed hpc =>
    exact absurd (hpc.symm.trans pc) (by decide)

variable (drv validate) in
/-- A step of a session that arms no timer comes nearer to a look at it, looks at it, or ends the
session. -/
theorem main_polls (h : s.Reached flash0) (quiet : ¬s.ArmsTimer)
    (live : s.pc ≠ .gone ∧ s.bootloaderState ≠ .done) : s.FindsNoPacket ∨
      (bootStep drv validate s .main).bootloaderState = .done ∨
      (bootStep drv validate s .main).pc = .gone ∨
      (bootStep drv validate s .main).toPoll < s.toPoll := by
  cases pc : s.pc with
  | gone => exact absurd pc live.1
  | setup => exact absurd (.inl pc) quiet
  | dispatch => exact (dispatch_polls h.session pc quiet).imp_right (.imp_right .inl)
  | flush =>
    have step : bootStep drv validate s .main = s.flushStep := by rw [bootStep, Boot.mainStep, pc]
    rw [step, Boot.flushStep]
    cases read : ringBufferRead s.rxRingBuffer with
    | mk result rx =>
      cases result with
      | none => exact absurd (.inr (.inl ⟨pc, by rw [read]⟩)) quiet
      | some byte =>
        have held := read_held h.ring read
        refine .inr (.inr (.inr ?_))
        simp only [Boot.toPoll, Boot.shows, pc]
        omega
  | update =>
    have step : bootStep drv validate s .main = s.updateStep := by rw [bootStep, Boot.mainStep, pc]
    rw [step, Boot.updateStep]
    refine .inr (.inr (.inr ?_))
    cases read : ringBufferRead s.rxRingBuffer with
    | mk result rx =>
      cases result with
      | none =>
        simp only [Boot.toPoll, Boot.atPc, pc]
        omega
      | some byte =>
        have held := read_held h.ring read
        simp only [Boot.toPoll, Boot.shows, Boot.afterComms, pc]
        omega
  | loop =>
    cases state : s.bootloaderState with
    | done => exact absurd state live.2
    | sync =>
      have step : bootStep drv validate s .main = s.syncStep := by
        rw [bootStep, Boot.mainStep, pc, state]
      cases read : ringBufferRead s.rxRingBuffer with
      | mk result rx =>
        by_cases matches' : ∃ byte, result = some byte ∧ s.session.shifted byte = syncSequence
        · obtain ⟨byte, rfl, complete⟩ := matches'
          have held := read_held h.ring read
          have next : bootStep drv validate s .main = (({ s with
              rxRingBuffer := rx, syncSeq := s.session.shifted byte }).shows
                [.syncByte byte]).atPc .flush := by
            rw [step, Boot.syncStep, read]
            exact if_pos complete
          refine .inr (.inr (.inr ?_))
          rw [next]
          simp only [Boot.toPoll, Boot.shows, Boot.atPc, pc]
          omega
        · refine .inl (.inl ⟨pc, state, ?_⟩)
          rw [read]
          intro byte some complete
          exact matches' ⟨byte, some, complete⟩
    | _ =>
      have step : bootStep drv validate s .main = s.atPc .update := by
        rw [bootStep, Boot.mainStep, pc]
        rw [state]
      refine .inr (.inr (.inr ?_))
      rw [step]
      simp only [Boot.toPoll, Boot.atPc, pc]
      omega

end Nowhere

/-! ## Every event makes progress or gets nowhere -/

section Progress

variable {drv : FlashDriver} {validate : Flash → Option Bool} {flash0 : Flash} {s : Boot}
  {e : BootEvent} {rest : List BootEvent}

/-- The timer of a session goes off one timeout from now at the latest. -/
theorem Clocked.armed (h : Clocked drv validate flash0 s rest)
    (live : s.pc ≠ .setup ∧ s.bootloaderState ≠ .done) :
    s.timer.timerElapsed = false ∧ s.timer.targetTime ≤ s.tickCount + defaultTimeoutMs := by
  obtain ⟨es, run, fits⟩ := h.run
  have here := Nat.lt_of_le_of_lt (bootTicks_le drv validate flash0 es rest) fits
  rw [run] at live
  obtain ⟨before, after, armed⟩ := bootRun_armed es live.1 live.2
  have timer := armed.timer_eq here
  have earlier := bootTicks_le drv validate flash0 before (.main :: after)
  rw [← armed.split, ← bootRun_tickCount drv validate here] at earlier
  rw [run, timer]
  refine ⟨rfl, ?_⟩
  show defaultTimeoutMs + bootTicks drv validate flash0 before ≤ _
  omega

/-- A session that has ended is at the head of its loop. -/
theorem Clocked.ended (h : Clocked drv validate flash0 s rest)
    (done : s.bootloaderState = .done) : s.Over := by
  have session := h.reached.session
  cases pc : s.pc with
  | loop => exact .inl ⟨done, pc⟩
  | gone => exact .inr pc
  | setup =>
    obtain ⟨es, run, -⟩ := h.run
    have sync : s.bootloaderState = .sync := by
      rw [run] at pc ⊢
      exact (bootRun_ends es).1 pc
    exact absurd (done.symm.trans sync) (by decide)
  | flush => exact absurd (done.symm.trans (session.flushing pc).1) (by decide)
  | update => exact absurd done (session.active (.inl pc)).2
  | dispatch => exact absurd done (session.active (.inr pc)).2

theorem bootStep_gone (gone : s.pc = .gone) : bootStep drv validate s e = s := by
  cases e with
  | rx byte => rw [bootStep, if_pos gone]
  | tick => rw [bootStep, if_pos gone]
  | main => rw [bootStep, Boot.mainStep, gone]

/-- An event that leaves state, stages, timer and clock as they are. -/
theorem Boot.advance_same {t : Boot} (stages : t.session.stages = s.session.stages)
    (pc : t.pc = .gone ↔ s.pc = .gone) (setup : t.pc = .setup ↔ s.pc = .setup)
    (state : t.bootloaderState = s.bootloaderState) (timer : t.timer = s.timer)
    (clock : t.tickCount = s.tickCount) : t.advance = s.advance := by
  unfold Boot.advance Boot.lag
  simp only [stages, pc, setup, state, timer, clock]

theorem Clocked.tick_moves (h : Clocked drv validate flash0 s (.tick :: rest))
    (live : s.pc ≠ .gone ∧ s.bootloaderState ≠ .done) :
    s.advance < (bootStep drv validate s .tick).advance ∨
      (bootStep drv validate s .tick).advance = s.advance ∧ Nowhere drv validate s .tick := by
  have clock := h.tickCount
  rw [if_pos ⟨rfl, live.1⟩] at clock
  rw [bootStep_tick]
  generalize (bootStep drv validate s .tick).tickCount = now at clock
  have after : ({ s with tickCount := now } : Boot).advance =
      (defaultTimeoutMs + 1) * s.session.stages + ({ s with tickCount := now } : Boot).lag :=
    Boot.advance_live (s := { s with tickCount := now }) live
  rw [after, Boot.advance_live live]
  by_cases setup : s.pc = .setup
  · have same : ({ s with tickCount := now } : Boot).lag = s.lag :=
      (if_pos setup).trans (if_pos setup).symm
    exact .inr ⟨by rw [same], .inr (.inl setup)⟩
  · have near := (h.armed ⟨setup, live.2⟩).2
    have lag : s.lag = defaultTimeoutMs - (s.timer.targetTime - s.tickCount) := if_neg setup
    have lag' : ({ s with tickCount := now } : Boot).lag =
      defaultTimeoutMs - (s.timer.targetTime - now) := if_neg setup
    have small : defaultTimeoutMs = 5000 := rfl
    by_cases due : s.timer.targetTime ≤ s.tickCount
    · exact .inr ⟨by omega, .inr (.inr (.inr due))⟩
    · exact .inl (by omega)

variable (drv validate) in
theorem main_stages (inv : SessionInv flash0 s.session) :
    StageStep s.session (bootStep drv validate s .main).session := by
  rcases bootStep_session drv validate s .main with same | ⟨-, step⟩
  · have started : s.pc ≠ .setup := by
      intro setup
      have left : (bootStep drv validate s .main).pc = .loop := by
        rw [bootStep, Boot.mainStep, setup]
      have stays : (bootStep drv validate s .main).pc = s.pc := congrArg Session.pc same
      rw [left, setup] at stays
      exact Pc.noConfusion stays
    rw [same]
    exact .stays rfl rfl ⟨started, started⟩
  · exact step.stages inv

theorem Clocked.main_moves (h : Clocked drv validate flash0 s (.main :: rest))
    (live : s.pc ≠ .gone ∧ s.bootloaderState ≠ .done) :
    s.advance < (bootStep drv validate s .main).advance ∨
      (bootStep drv validate s .main).advance = s.advance ∧ Nowhere drv validate s .main := by
  have inv := h.reached.session
  have further := Boot.advance_further (t := bootStep drv validate s .main) inv live
  have clock : (bootStep drv validate s .main).tickCount = s.tickCount :=
    mainStep_tickCount drv validate s
  have polls (quiet : ¬s.ArmsTimer) := main_polls drv validate h.reached quiet live
  have late (looks : s.FindsNoPacket) (armed : s.timer.timerElapsed = false)
      (due : s.timer.targetTime ≤ s.tickCount) := looks.timesOut drv validate armed due
  have kind := bootStep_timer drv validate inv .main
  have stage := main_stages drv validate inv
  show _ ∨ _ ∧ (s.pc = .gone ∨ s.Stalls (bootStep drv validate s .main))
  generalize bootStep drv validate s .main = t at further clock polls late kind stage ⊢
  rcases stage with ended | more | ⟨state, accepted, started⟩
  · exact .inl (further (ended.imp_right .inl))
  · exact .inl (further (.inr (.inr more)))
  · by_cases gone : t.pc = .gone
    · exact .inl (further (.inr (.inl gone)))
    · cases kind with
      | ends ended => exact .inl (further (.inl ended))
      | boots _ setup => exact absurd setup started.1
      | arms _ _ _ _ rearms =>
        rcases rearms.enters with ⟨setup, -⟩ | changed | ⟨-, more⟩
        · exact absurd setup started.1
        · exact absurd state changed
        · exact absurd accepted more
      | rests quiet stays timer =>
        have same : t.advance = s.advance :=
          Boot.advance_same (StageStep.same state accepted started)
            ⟨fun left => absurd left gone, fun left => absurd left live.1⟩
            ⟨fun setup => absurd setup started.2, fun setup => absurd setup started.1⟩
            state timer clock
        have nowhere := Boot.Stalls.mk (s := s) (t := t) ⟨started.1, live.2⟩ gone timer
        by_cases early : s.tickCount < s.timer.targetTime
        · exact .inr ⟨same, .inr (nowhere (.inl early))⟩
        · rcases polls fun arms => quiet ⟨rfl, arms⟩ with looks | ended | left | nearer
          · have armed := (h.armed ⟨started.1, live.2⟩).1
            exact .inl (further (.inl (late looks armed (Nat.not_lt.mp early)).state))
          · exact .inl (further (.inl ended))
          · exact absurd left gone
          · exact .inr ⟨same, .inr (nowhere (.inr nearer))⟩

/-- Every event advances the session or gets it nowhere. -/
theorem Clocked.moves (h : Clocked drv validate flash0 s (e :: rest)) :
    s.advance < (bootStep drv validate s e).advance ∨
      (bootStep drv validate s e).advance = s.advance ∧ Nowhere drv validate s e := by
  by_cases gone : s.pc = .gone
  · rw [bootStep_gone gone]
    cases e with
    | rx byte => exact .inr ⟨rfl, trivial⟩
    | tick => exact .inr ⟨rfl, .inl gone⟩
    | main => exact .inr ⟨rfl, .inl gone⟩
  · cases e with
    | rx byte =>
      refine .inr ⟨?_, trivial⟩
      rw [bootStep, if_neg gone]
      rfl
    | tick =>
      by_cases done : s.bootloaderState = .done
      · refine .inr ⟨?_, .inr (.inr (.inl done))⟩
        rw [bootStep_tick]
        simp only [Boot.advance, done, gone, if_true, if_false]
      · exact h.tick_moves ⟨gone, done⟩
    | main =>
      by_cases done : s.bootloaderState = .done
      · have left : (bootStep drv validate s .main).pc = .gone := ((h.ended done).step .main).2 rfl
        refine .inl ?_
        rw [Boot.advance, Boot.advance, if_pos left, if_neg gone, if_pos done]
        exact Nat.lt_succ_self _
      · exact h.main_moves ⟨gone, done⟩

end Progress

/-! ## A turn of the clock -/

/-- A byte arrives. -/
def BootEvent.isByte : BootEvent → Bool
  | .rx _ => true
  | .tick | .main => false

/-- The steps between two looks at the timer, with the queue full and no byte arriving. -/
def pollSteps : Nat := uartBufferSize + 2

/-- A tick, with enough steps of the main program behind it to get to a look at the timer: one
more for every byte that arrives meanwhile. -/
def Turn (es : List BootEvent) : Prop :=
  ∃ front back, es = front ++ .tick :: back ∧
    pollSteps + back.countP BootEvent.isByte < back.count .main

theorem Boot.toPoll_le {s : Boot} (ring : RingOk s.rxRingBuffer) : s.toPoll ≤ pollSteps := by
  have bytes := held_length_lt ring.ringSize
  have slots : (2 : Nat) ^ 7 = 128 := rfl
  unfold Boot.toPoll pollSteps uartBufferSize
  split <;> omega

/-- A byte that arrives takes one step to read. -/
theorem arrival_toPoll {drv : FlashDriver} {validate : Flash → Option Bool} {s : Boot}
    (ring : RingOk s.rxRingBuffer) (byte : Byte) :
    (bootStep drv validate s (.rx byte)).toPoll ≤ s.toPoll + 1 := by
  rw [bootStep]
  split
  · exact Nat.le_succ _
  · have held : (ringBufferWrite s.rxRingBuffer byte).2.held.length ≤
        s.rxRingBuffer.held.length + 1 := by
      cases success : (ringBufferWrite s.rxRingBuffer byte).1 with
      | true =>
        rw [(ringBufferWrite_true (by decide) ring.ringSize success).2.1, List.length_append]
        exact Nat.le_refl _
      | false =>
        rw [(ringBufferWrite_false (by decide) ring.ringSize success).1]
        exact Nat.le_succ _
    simp only [Boot.toPoll]
    omega

section Turns

variable {drv : FlashDriver} {validate : Flash → Option Bool} {flash0 : Flash} {s : Boot}
  {es rest : List BootEvent}

/-- What is due stays due as long as nothing gets anywhere. -/
theorem Clocked.stays_due {e : BootEvent} (h : Clocked drv validate flash0 s (e :: rest))
    (due : s.Due) (running : s.pc ≠ .gone) (nowhere : Nowhere drv validate s e) :
    (bootStep drv validate s e).Due ∧ (bootStep drv validate s e).pc ≠ .gone := by
  cases e with
  | rx byte =>
    rw [bootStep, if_neg running]
    exact ⟨due, running⟩
  | tick =>
    have clock := h.tickCount
    rw [bootStep_tick]
    refine ⟨due.imp_right (.imp_right fun late => ?_), running⟩
    show s.timer.targetTime ≤ (bootStep drv validate s .tick).tickCount
    omega
  | main =>
    obtain stalls := nowhere.resolve_left running
    have late := (due.resolve_left stalls.live.1).resolve_left stalls.live.2
    refine ⟨.inr (.inr ?_), stalls.stays⟩
    rw [stalls.timer]
    exact late.trans (Nat.le_of_eq (mainStep_tickCount drv validate s).symm)

/-- With the time over, the steps that get nowhere are used up by the bytes there are. -/
theorem Clocked.few_stalls (h : Clocked drv validate flash0 s (es ++ rest)) (due : s.Due)
    (running : s.pc ≠ .gone)
    (nowhere : Lib.Run.Meets (bootStep drv validate) (Nowhere drv validate) s es) :
    es.count .main ≤ s.toPoll + es.countP BootEvent.isByte := by
  induction es generalizing s with
  | nil => exact Nat.zero_le _
  | cons e es ih =>
    obtain ⟨due', running'⟩ := h.stays_due due running nowhere.1
    have later := ih h.next due' running' nowhere.2
    cases e with
    | rx byte =>
      have more : (bootStep drv validate s (.rx byte)).toPoll ≤ s.toPoll + 1 :=
        arrival_toPoll h.reached.ring byte
      rw [List.count_cons_of_ne (by simp), List.countP_cons_of_pos rfl]
      omega
    | tick =>
      have same : (bootStep drv validate s .tick).toPoll = s.toPoll := by
        rw [bootStep_tick]
        rfl
      rw [List.count_cons_of_ne (by simp), List.countP_cons_of_neg (by simp [BootEvent.isByte])]
      omega
    | main =>
      have stalls := nowhere.1.resolve_left running
      have late := (due.resolve_left stalls.live.1).resolve_left stalls.live.2
      have nearer := stalls.waits.resolve_left (Nat.not_lt.mpr late)
      rw [List.count_cons_self, List.countP_cons_of_neg (by simp [BootEvent.isByte])]
      omega

/-- A turn in which nothing gets anywhere finds the main program gone. -/
theorem Clocked.turn_settles (h : Clocked drv validate flash0 s (es ++ rest)) (turn : Turn es)
    (nowhere : Lib.Run.Meets (bootStep drv validate) (Nowhere drv validate) s es) :
    s.pc = .gone := by
  by_contra running
  obtain ⟨front, back, rfl, enough⟩ := turn
  rw [List.append_assoc] at h
  have start : Clocked drv validate flash0 (Lib.Run.run (bootStep drv validate) s front)
      (.tick :: (back ++ rest)) := Lib.Run.run_keeps (fun _ _ _ h => h.next) h
  rw [Lib.Run.meets_append] at nowhere
  have running' : (Lib.Run.run (bootStep drv validate) s front).pc ≠ .gone := by
    refine Lib.Run.run_invariant_of_meets (P := fun s => s.pc ≠ .gone) ?_ running nowhere.1
    intro s e running nowhere
    cases e with
    | rx byte =>
      rw [bootStep, if_neg running]
      exact running
    | tick =>
      rw [bootStep_tick]
      exact running
    | main => exact (nowhere.resolve_left running).stays
  generalize Lib.Run.run (bootStep drv validate) s front = t at start running' nowhere
  obtain ⟨-, tick, back'⟩ := nowhere
  obtain ⟨due, still⟩ := start.stays_due (tick.resolve_left running') running' tick
  have few := start.next.few_stalls due still back'
  have polls := Boot.toPoll_le start.next.reached.ring
  omega

end Turns

/-- After so many stretches that are turns, whatever has happened before and whatever bytes arrive
in them, the main program has left its loop, as long as the tick counter does not wrap. -/
theorem turns_end_session (drv : FlashDriver) (validate : Flash → Option Bool) (flash0 : Flash)
    (es : List BootEvent) (rounds : List (List BootEvent))
    (fits : bootTicks drv validate flash0 (es ++ rounds.flatten) < 2 ^ 32)
    (fair : ∀ turn ∈ rounds, Turn turn) (enough : lastAdvance + 2 ≤ rounds.length) :
    (bootRun drv validate flash0 (es ++ rounds.flatten)).pc = .gone := by
  have start : Clocked drv validate flash0 (bootRun drv validate flash0 es) rounds.flatten :=
    ⟨es, rfl, fits⟩
  rw [bootRun, Lib.Run.run_append]
  refine Lib.Run.run_rounds (Clocked drv validate flash0) (fun s => s.pc = .gone) Boot.advance
    (Nowhere drv validate) Turn (lastAdvance + 1) ?_ ?_ ?_ ?_ ?_ start fair (.inr ?_)
  · intro s e rest h
    exact h.next
  · intro s e rest h
    exact h.moves
  · intro s rest h
    exact Boot.advance_le h.reached.session
  · intro s e rest _ gone
    rw [bootStep_gone gone]
    exact gone
  · intro s turn rest h fair nowhere
    exact h.turn_settles fair nowhere
  · omega

/-- A host that sends the same byte in every tick. -/
theorem turns_end_session_babbling : (bootRun stm32Flash validateFlash (fun _ => 0)
    ([] ++ (List.replicate (lastAdvance + 2)
      (.tick :: .rx 0xc4 :: List.replicate (pollSteps + 2) .main)).flatten)).pc = .gone := by
  refine turns_end_session stm32Flash validateFlash (fun _ => 0) [] _ ?_ ?_ ?_
  · refine Nat.lt_of_le_of_lt (ticksHandled_le_count _ _ _ _) ?_
    rw [List.nil_append, List.count_flatten, List.map_replicate, List.sum_replicate_nat,
      List.count_cons_self, List.count_cons_of_ne (by simp), List.count_replicate]
    decide
  · intro turn member
    rw [List.eq_of_mem_replicate member]
    refine ⟨[], _, rfl, ?_⟩
    rw [List.count_cons_of_ne (by simp), List.count_replicate_self, List.countP_cons,
      List.countP_replicate]
    exact Nat.lt_succ_self _
  · rw [List.length_replicate]

end SecureBootloader
