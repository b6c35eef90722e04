import SecureBootloader.Boot.Arrival
import SecureBootloader.Boot.QueueInv
import SecureBootloader.Theorems.SessionTimeout

/-!
# A silent line ends every session

Whatever has happened: once no more bytes arrive, the main program has only so much to do
before it stands in front of an empty queue, and nothing arms the timer there. The timer
goes off, and the main program leaves.
-/

namespace SecureBootloader

/-! ## Where the main program can stand for long -/

/-- No byte arrives. -/
def Silent (es : List BootEvent) : Prop := ∀ byte, .rx byte ∉ es

/-- The main loop has ended. -/
def Boot.Over (s : Boot) : Prop := (s.bootloaderState = .done ∧ s.pc = .loop) ∨ s.pc = .gone

/-- The state waits, and there is no byte to read and no packet to take. -/
structure Boot.Idle (s : Boot) : Prop where
  unread : s.rxRingBuffer.readIndex = s.rxRingBuffer.writeIndex
  place : (s.pc = .loop ∧ s.bootloaderState = .sync) ∨
    (s.bootloaderState.Waiting ∧ commsPacketAvailable s.comms = false ∧
      (s.pc = .loop ∨ s.pc = .update ∨ s.pc = .dispatch))

theorem BlState.Waiting.active {state : BlState} (h : state.Waiting) :
    state ≠ .sync ∧ state ≠ .done := by
  rcases h with rfl | rfl | rfl | rfl <;> decide

theorem Boot.Idle.started {s : Boot} (h : s.Idle) : s.pc ≠ .setup := by
  rcases h.place with ⟨pc, -⟩ | ⟨-, -, pc | pc | pc⟩ <;> rw [pc] <;> decide

theorem Boot.Idle.live {s : Boot} (h : s.Idle) : s.bootloaderState ≠ .done := by
  rcases h.place with ⟨-, sync⟩ | ⟨waiting, -⟩
  · rw [sync]
    decide
  · exact waiting.active.2

theorem checkForTimeout_pc (s : Boot) : s.checkForTimeout.pc = s.pc := by
  unfold Boot.checkForTimeout
  dsimp only
  split <;> rfl

section Steps

variable {drv : FlashDriver} {validate : Flash → Option Bool} {s : Boot}

/-- The main program leaves with its next step. -/
theorem Boot.Over.step (h : s.Over) (e : BootEvent) : (bootStep drv validate s e).Over ∧
    (e = .main → (bootStep drv validate s e).pc = .gone) := by
  rcases h with ⟨state, loop⟩ | gone
  · have live : s.pc ≠ .gone := by rw [loop]; decide
    cases e with
    | rx byte =>
      rw [bootStep, if_neg live]
      exact ⟨.inl ⟨state, loop⟩, by simp⟩
    | tick =>
      rw [bootStep, if_neg live]
      exact ⟨.inl ⟨state, loop⟩, by simp⟩
    | main =>
      have out : (bootStep drv validate s .main).pc = .gone := by
        rw [bootStep, Boot.mainStep, loop, state]
        dsimp only
        unfold Boot.leave
        split <;> rfl
      exact ⟨.inr out, fun _ => out⟩
  · have same : bootStep drv validate s e = s := by
      cases e with
      | rx byte => rw [bootStep, if_pos gone]
      | tick => rw [bootStep, if_pos gone]
      | main => rw [bootStep, Boot.mainStep, gone]
    rw [same]
    exact ⟨.inr gone, fun _ => gone⟩

/-- A look at the timer without a packet. -/
theorem idle_looks (t : Boot) (idle : t.Idle) (pc : t.pc = .loop) :
    t.checkForTimeout.Over ∨ (t.checkForTimeout.Idle ∧ t.checkForTimeout.timer = t.timer) := by
  rcases checkForTimeout_cases t with same | ended
  · rw [same]
    exact .inr ⟨idle, rfl⟩
  · exact .inl (.inl ⟨ended, (checkForTimeout_pc t).trans pc⟩)

/-- Without a packet the `switch` looks at the timer. -/
theorem dispatch_empty (pc : s.pc = .dispatch) (waiting : s.bootloaderState.Waiting)
    (empty : commsPacketAvailable s.comms = false) :
    bootStep drv validate s .main = (s.atPc .loop).checkForTimeout := by
  rw [bootStep, Boot.mainStep, pc]
  show (s.atPc .loop).switchState drv validate = _
  unfold Boot.switchState
  rcases waiting with state | state | state | state <;>
    rw [show (s.atPc .loop).bootloaderState = _ from state] <;>
    exact withPacket_empty (s := s.atPc .loop) empty _

/-- An idle main program stays idle and leaves the timer as it is, or the timer ends it. -/
theorem Boot.Idle.main (h : s.Idle) : (bootStep drv validate s .main).Over ∨
    ((bootStep drv validate s .main).Idle ∧ (bootStep drv validate s .main).timer = s.timer) := by
  have read := ringBufferRead_empty h.unread
  rcases h.place with ⟨loop, sync⟩ | ⟨waiting, empty, loop | update | dispatch⟩
  · have step : bootStep drv validate s .main = s.checkForTimeout := by
      rw [bootStep, Boot.mainStep, loop, sync]
      dsimp only
      rw [Boot.syncStep, read]
    rw [step]
    exact idle_looks s h loop
  · have step : bootStep drv validate s .main = s.atPc .update := by
      rw [bootStep, Boot.mainStep, loop]
      rcases waiting with state | state | state | state <;> rw [state]
    rw [step]
    exact .inr ⟨⟨h.unread, .inr ⟨waiting, empty, .inr (.inl rfl)⟩⟩, rfl⟩
  · have step : bootStep drv validate s .main = s.atPc .dispatch := by
      rw [bootStep, Boot.mainStep, update]
      dsimp only
      rw [Boot.updateStep, read]
    rw [step]
    exact .inr ⟨⟨h.unread, .inr ⟨waiting, empty, .inr (.inr rfl)⟩⟩, rfl⟩
  · rw [dispatch_empty dispatch waiting empty]
    exact idle_looks (s.atPc .loop) ⟨h.unread, .inr ⟨waiting, empty, .inl rfl⟩⟩ rfl

/-- A tick moves the clock and nothing else. -/
theorem bootStep_tick (s : Boot) : bootStep drv validate s .tick =
    { s with tickCount := (bootStep drv validate s .tick).tickCount } := by
  rw [bootStep]
  split <;> rfl

theorem Boot.Idle.tick (h : s.Idle) : (bootStep drv validate s .tick).Idle ∧
    (bootStep drv validate s .tick).timer = s.timer := by
  rw [bootStep_tick]
  exact ⟨⟨h.unread, h.place⟩, rfl⟩

end Steps

/-! ## What is left to do -/

/-- How far a state is from the end of the handshake. -/
def BlState.rank : BlState → Nat
  | .sync => 7
  | .waitForFwUpdateReq => 6
  | .deviceIdReq => 5
  | .deviceIdRes => 4
  | .fwLengthReq => 3
  | .fwLengthRes => 2
  | .eraseApplication => 1
  | .receiveFw => 0
  | .done => 0

/-- How far the main program is from using something up. A waiting state without a packet
goes around the loop for the bytes there are. -/
def Boot.pcRank (s : Boot) : Nat :=
  match s.pc with
  | .setup => 5
  | .flush => 4
  | .loop => 3
  | .update => 2
  | .dispatch =>
    if s.bootloaderState.Waiting ∧ commsPacketAvailable s.comms = false then 4 else 1
  | .gone => 0

/-- What is left to do without more bytes: each byte may make a packet, each packet may
take the handshake further. -/
def Boot.work (s : Boot) : Nat :=
  8 * s.rxRingBuffer.held.length + 6 * s.comms.queue.length + 6 * s.bootloaderState.rank +
    s.pcRank

theorem BlState.rank_le (state : BlState) : state.rank ≤ 7 := by cases state <;> decide

theorem Boot.pcRank_le (s : Boot) : s.pcRank ≤ 5 := by
  unfold Boot.pcRank
  split
  case h_5 => split <;> omega
  all_goals omega

/-- So many steps of the main program are enough. -/
def settleSteps : Nat := 8 * uartBufferSize + 6 * 8 + 6 * 8

theorem Boot.work_lt {s : Boot} (ring : RingOk s.rxRingBuffer) (queue : QueueOk s.comms) :
    s.work < settleSteps := by
  have bytes := held_length_lt ring.ringSize
  have packets := queue_length_le queue
  have rank := s.bootloaderState.rank_le
  have pc := s.pcRank_le
  have slots : (2 : Nat) ^ 7 = 128 := rfl
  unfold Boot.work settleSteps uartBufferSize
  omega

/-! ### A step uses something up -/

/-- A byte read makes one packet at most. -/
theorem commsUpdateByte_queue_le {c : Comms} {part : List Byte} (h : Partial c part)
    (ok : QueueOk c) (byte : Byte) :
    (commsUpdateByte c byte).1.queue.length ≤ c.queue.length + 1 := by
  by_cases full : part.length = 17
  · by_cases packet : frameKind (frameOf (part ++ [byte])) = .packet
    · by_cases room : c.queue.length < 7
      · rw [(h.packet_room byte full packet ok room).1, List.length_append]
        exact Nat.le_refl _
      · have most := queue_length_le (h.queueOk byte ok)
        omega
    · rw [(h.control byte full packet).1.queue]
      exact Nat.le_succ _
  · have inside := h.short
    rw [(h.step byte (by omega)).2.2.1.queue]
    exact Nat.le_succ _

/-- A packet taken is gone from the queue. -/
theorem taken_queue {c : Comms} (ok : QueueOk c) (available : commsPacketAvailable c = true) :
    (commsReceivePacket c).2.1.queue.length + 1 = c.queue.length := by
  rw [commsReceivePacket_queue ok available, List.length_cons]

/-- A state reached from the start, with what its variables keep. -/
structure Boot.Reached (flash0 : Flash) (s : Boot) : Prop where
  session : SessionInv flash0 s.session
  queue : QueueInv s.session
  ring : RingOk s.rxRingBuffer

theorem bootRun_reached (drv : FlashDriver) (validate : Flash → Option Bool) (flash0 : Flash)
    (es : List BootEvent) : (bootRun drv validate flash0 es).Reached flash0 :=
  ⟨bootRun_sessionInv drv validate flash0 es, bootRun_queueInv drv validate flash0 es,
    bootRun_ringOk drv validate flash0 es⟩

section Works

variable {drv : FlashDriver} {validate : Flash → Option Bool} {flash0 : Flash} {s : Boot}

variable (drv validate) in
/-- The `switch` takes a packet, goes on to the next state, ends the loop, or goes around
for more bytes. -/
theorem dispatch_works (h : s.Reached flash0) (pc : s.pc = .dispatch) :
    (bootStep drv validate s .main).Over ∨ (bootStep drv validate s .main).work < s.work := by
  have ring : (bootStep drv validate s .main).rxRingBuffer = s.rxRingBuffer := by
    rw [bootStep, Boot.mainStep, pc]
    exact switchState_ring drv validate (s.atPc .loop)
  have step : SessionStep drv validate s.session (bootStep drv validate s .main).session :=
    dispatch_session drv validate pc
  have active := h.session.active (.inr pc)
  have ok : QueueOk s.comms := h.queue.ok
  generalize bootStep drv validate s .main = t at ring step
  generalize same : t.session = v at step
  have comms : t.comms = v.comms := congrArg Session.comms same
  have state : t.bootloaderState = v.bootloaderState := congrArg Session.bootloaderState same
  have place : t.pc = v.pc := congrArg Session.pc same
  have loop (next : v.pc = .loop) : t.pcRank < s.pcRank + 3 ∧
      (s.bootloaderState.Waiting ∧ commsPacketAvailable s.comms = false →
        t.pcRank < s.pcRank) := by
    unfold Boot.pcRank
    rw [place, next, pc]
    dsimp only
    split
    · exact ⟨by omega, fun _ => by omega⟩
    · next other => exact ⟨by omega, fun waits => absurd waits other⟩
  -- a packet taken or a state left behind is more than the way around the loop
  have uses (packets rank : Nat) (next : v.pc = .loop)
      (queue : t.comms.queue.length + packets = s.comms.queue.length)
      (far : t.bootloaderState.rank + rank = s.bootloaderState.rank) (more : 0 < packets + rank) :
      t.work < s.work := by
    have around := (loop next).1
    unfold Boot.work
    rw [ring]
    omega
  have kept (same : t.comms.queue = s.comms.queue) :
      t.comms.queue.length + 0 = s.comms.queue.length := by rw [same, Nat.add_zero]
  have taken (available : commsPacketAvailable s.comms = true)
      (queue : t.comms.queue = (commsReceivePacket s.comms).2.1.queue) :
      t.comms.queue.length + 1 = s.comms.queue.length := by
    rw [queue]
    exact taken_queue ok available
  have onward {here there : BlState} (before : s.session.bootloaderState = here)
      (after : t.bootloaderState = there) (next : there.rank + 1 = here.rank) :
      t.bootloaderState.rank + 1 = s.bootloaderState.rank := by
    rw [after, next, show s.bootloaderState = here from before]
  cases step with
  | idle _ waiting empty =>
    have around := (loop rfl).2 ⟨waiting, empty⟩
    refine .inr ?_
    unfold Boot.work
    rw [ring, show t.comms = s.comms from comms,
      show t.bootloaderState = s.bootloaderState from state]
    omega
  | timeout => exact .inl (.inl ⟨state, place⟩)
  | refused => exact .inl (.inl ⟨state, place⟩)
  | fwUpdateReq _ here available =>
    exact .inr (uses 1 1 rfl (taken available (comms ▸ rfl)) (onward here state rfl) (by decide))
  | deviceIdReq _ here =>
    exact .inr (uses 0 1 rfl (kept (comms ▸ rfl)) (onward here state rfl) (by decide))
  | deviceIdRes _ here available =>
    exact .inr (uses 1 1 rfl (taken available (comms ▸ rfl)) (onward here state rfl) (by decide))
  | fwLengthReq _ here =>
    exact .inr (uses 0 1 rfl (kept (comms ▸ rfl)) (onward here state rfl) (by decide))
  | fwLengthRes _ here available =>
    exact .inr (uses 1 1 rfl (taken available (comms ▸ rfl)) (onward here state rfl) (by decide))
  | erase _ here =>
    exact .inr (uses 0 1 rfl (kept (comms ▸ rfl)) (onward here state rfl) (by decide))
  | chunk _ here available =>
    exact .inr (uses 1 0 rfl (taken available (comms ▸ rfl)) (congrArg BlState.rank state)
      (by decide))
  | lastChunk => exact .inl (.inl ⟨state, place⟩)
  | lastChunkFault => exact .inl (.inr place)
  | unexpected _ outside =>
    rcases outside with sync | done
    · exact absurd sync active.1
    · exact absurd done active.2
  | syncByte byte hpc | syncByteTimeout byte hpc | syncMatch byte hpc | flushByte byte hpc
  | commsByte byte hpc | left obs hpc => exact absurd (hpc.symm.trans pc) (by decide)
  | start hpc | enter hpc | drained hpc | syncIdle hpc | syncTimeout hpc | flushed hpc =>
    exact absurd (hpc.symm.trans pc) (by decide)

/-- A byte read from the queue is one less in it. -/
theorem read_held {rb rx : RingBuffer} {byte : Byte} (ok : RingOk rb)
    (read : ringBufferRead rb = (some byte, rx)) : rx.held.length + 1 = rb.held.length := by
  rcases ringBufferRead_held (by decide) ok.ringSize with ⟨-, none⟩ | ⟨b, -, -, held⟩
  · rw [none] at read
    cases read
  · rw [held, read]
    rfl

/-- No byte read, no byte there. -/
theorem read_none {rb rx : RingBuffer} (read : ringBufferRead rb = (none, rx)) :
    rb.readIndex = rb.writeIndex := by
  by_contra some
  rw [ringBufferRead, if_neg some] at read
  cases read

theorem pcRank_update {t : Boot} (pc : t.pc = .update) : t.pcRank = 2 := by rw [Boot.pcRank, pc]

/-- A step of the main program ends the loop, gets to where it waits, or uses something up. -/
theorem main_works (h : s.Reached flash0) (live : ¬(s.Over ∨ s.Idle)) :
    ((bootStep drv validate s .main).Over ∨ (bootStep drv validate s .main).Idle) ∨
      (bootStep drv validate s .main).work < s.work := by
  have busy : ¬s.Idle := fun idle => live (.inr idle)
  cases pc : s.pc with
  | gone => exact absurd (.inl (.inr pc)) live
  | setup =>
    refine .inr ?_
    unfold Boot.work Boot.pcRank
    simp [bootStep, Boot.mainStep, pc]
  | dispatch =>
    rcases dispatch_works drv validate h pc with ended | less
    · exact .inl (.inl ended)
    · exact .inr less
  | flush =>
    have step : bootStep drv validate s .main = s.flushStep := by rw [bootStep, Boot.mainStep, pc]
    have sync : s.bootloaderState = .sync := (h.session.flushing pc).1
    rw [step, Boot.flushStep]
    refine .inr ?_
    cases read : ringBufferRead s.rxRingBuffer with
    | mk result rx =>
      cases result with
      | none =>
        show 8 * s.rxRingBuffer.held.length + 6 * s.comms.queue.length + 6 * 6 + 3 < s.work
        unfold Boot.work Boot.pcRank
        rw [pc, sync]
        show _ < _ + 6 * 7 + 4
        omega
      | some byte =>
        have held := read_held h.ring read
        show 8 * rx.held.length + 6 * s.comms.queue.length + 6 * s.bootloaderState.rank +
          s.pcRank < s.work
        unfold Boot.work
        omega
  | update =>
    have step : bootStep drv validate s .main = s.updateStep := by rw [bootStep, Boot.mainStep, pc]
    have rank := pcRank_update pc
    rw [step, Boot.updateStep]
    cases read : ringBufferRead s.rxRingBuffer with
    | mk result rx =>
      cases result with
      | none =>
        have unread := read_none read
        -- with a packet or in another state the `switch` has something to do
        have other : ¬(s.bootloaderState.Waiting ∧ commsPacketAvailable s.comms = false) := by
          rintro ⟨waiting, empty⟩
          exact busy ⟨unread, .inr ⟨waiting, empty, .inr (.inl pc)⟩⟩
        have next : (s.atPc .dispatch).pcRank = 1 := if_neg other
        refine .inr ?_
        unfold Boot.work
        rw [rank, next]
        exact Nat.lt_succ_self _
      | some byte =>
        have held := read_held h.ring read
        have queue : (commsUpdateByte s.comms byte).1.queue.length ≤ s.comms.queue.length + 1 :=
          commsUpdateByte_queue_le h.queue.part h.queue.ok byte
        have place := pcRank_update (t := (({ s with rxRingBuffer := rx }).shows
          [.commsByte byte]).afterComms (commsUpdateByte s.comms byte)) pc
        refine .inr ?_
        unfold Boot.work
        rw [rank, place]
        show 8 * rx.held.length + 6 * (commsUpdateByte s.comms byte).1.queue.length +
          6 * s.bootloaderState.rank + 2 < _
        omega
  | loop =>
    cases state : s.bootloaderState with
    | done => exact absurd (.inl (.inl ⟨state, pc⟩)) live
    | sync =>
      have step : bootStep drv validate s .main = s.syncStep := by
        rw [bootStep, Boot.mainStep, pc, state]
      have rank : s.pcRank = 3 := by rw [Boot.pcRank, pc]
      rw [step, Boot.syncStep]
      cases read : ringBufferRead s.rxRingBuffer with
      | mk result rx =>
        cases result with
        | none => exact absurd ⟨read_none read, .inl ⟨pc, state⟩⟩ busy
        | some byte =>
          have held := read_held h.ring read
          dsimp only
          split
          · refine .inr ?_
            show 8 * rx.held.length + 6 * s.comms.queue.length + 6 * s.bootloaderState.rank + 4 <
              s.work
            unfold Boot.work
            omega
          · rcases checkForTimeout_cases _ with same | ended
            · rw [same]
              refine .inr ?_
              show 8 * rx.held.length + 6 * s.comms.queue.length + 6 * s.bootloaderState.rank +
                s.pcRank < s.work
              unfold Boot.work
              omega
            · exact .inl (.inl (.inl ⟨ended, (checkForTimeout_pc _).trans pc⟩))
    | _ =>
      have step : bootStep drv validate s .main = s.atPc .update := by
        rw [bootStep, Boot.mainStep, pc]
        rw [state]
      have rank : s.pcRank = 3 := by rw [Boot.pcRank, pc]
      rw [step]
      refine .inr ?_
      show 8 * s.rxRingBuffer.held.length + 6 * s.comms.queue.length +
        6 * s.bootloaderState.rank + 2 < s.work
      unfold Boot.work
      omega

end Works

/-! ## The three stretches of a silent run -/

section Silence

variable {drv : FlashDriver} {validate : Flash → Option Bool} {flash0 : Flash}

/-- A run with these events to come whose clock does not wrap. -/
structure Clocked (drv : FlashDriver) (validate : Flash → Option Bool) (flash0 : Flash)
    (s : Boot) (rest : List BootEvent) : Prop where
  run : ∃ es, s = bootRun drv validate flash0 es ∧
    bootTicks drv validate flash0 (es ++ rest) < 2 ^ 32

section Clocked

variable {s : Boot} {e : BootEvent} {rest : List BootEvent}

theorem Clocked.next (h : Clocked drv validate flash0 s (e :: rest)) :
    Clocked drv validate flash0 (bootStep drv validate s e) rest := by
  obtain ⟨es, run, fits⟩ := h.run
  refine ⟨es ++ [e], ?_, ?_⟩
  · rw [bootRun_concat, ← run]
  · rwa [List.append_assoc]

theorem Clocked.reached (h : Clocked drv validate flash0 s rest) : s.Reached flash0 := by
  obtain ⟨es, run, -⟩ := h.run
  exact run ▸ bootRun_reached drv validate flash0 es

/-- The clock moves on as it ticks. -/
theorem Clocked.tickCount (h : Clocked drv validate flash0 s (e :: rest)) :
    (bootStep drv validate s e).tickCount =
      s.tickCount + if e = .tick ∧ s.pc ≠ .gone then 1 else 0 := by
  obtain ⟨es, run, fits⟩ := h.run
  have earlier := bootTicks_le drv validate flash0 (es ++ [e]) rest
  rw [List.append_assoc] at earlier
  have now := bootRun_tickCount drv validate (Nat.lt_of_le_of_lt earlier fits)
  rw [bootRun_concat, ← run] at now
  have before := bootTicks_le drv validate flash0 es [e]
  have start := bootRun_tickCount drv validate
    (Nat.lt_of_le_of_lt (before.trans earlier) fits)
  rw [← run] at start
  rw [now, start, bootTicks, bootTicks, ticksHandled_append]
  show _ + ticksHandled drv validate (bootRun drv validate flash0 es) [e] = _
  rw [← run]
  rfl

end Clocked

/-- A run with these events to come, none of them a byte, whose clock does not wrap. -/
structure Quietly (drv : FlashDriver) (validate : Flash → Option Bool) (flash0 : Flash)
    (s : Boot) (rest : List BootEvent) : Prop where
  run : ∃ es, s = bootRun drv validate flash0 es ∧
    bootTicks drv validate flash0 (es ++ rest) < 2 ^ 32
  silent : Silent rest

section Quietly

variable {s : Boot} {e : BootEvent} {rest : List BootEvent}

theorem Quietly.clocked (h : Quietly drv validate flash0 s rest) :
    Clocked drv validate flash0 s rest := ⟨h.run⟩

theorem Quietly.next (h : Quietly drv validate flash0 s (e :: rest)) :
    Quietly drv validate flash0 (bootStep drv validate s e) rest :=
  ⟨h.clocked.next.run, fun byte member => h.silent byte (List.mem_cons_of_mem _ member)⟩

theorem Quietly.runs {front : List BootEvent}
    (h : Quietly drv validate flash0 s (front ++ rest)) :
    Quietly drv validate flash0 (Lib.Run.run (bootStep drv validate) s front) rest :=
  Lib.Run.run_keeps (fun _ _ _ h => h.next) h

theorem Quietly.front {front : List BootEvent}
    (h : Quietly drv validate flash0 s (front ++ rest)) :
    Quietly drv validate flash0 s front := by
  obtain ⟨es, run, fits⟩ := h.run
  refine ⟨⟨es, run, ?_⟩, fun byte member => h.silent byte (List.mem_append_left _ member)⟩
  rw [← List.append_assoc] at fits
  exact Nat.lt_of_le_of_lt (bootTicks_le drv validate flash0 _ _) fits

theorem Quietly.not_rx (h : Quietly drv validate flash0 s (e :: rest)) : e = .tick ∨ e = .main := by
  cases e with
  | rx byte => exact absurd List.mem_cons_self (h.silent byte)
  | tick => exact .inl rfl
  | main => exact .inr rfl

end Quietly

/-- Over or idle stays so. -/
theorem settled_stays {s : Boot} {e : BootEvent} {rest : List BootEvent}
    (h : Quietly drv validate flash0 s (e :: rest)) (settled : s.Over ∨ s.Idle) :
    (bootStep drv validate s e).Over ∨ ((bootStep drv validate s e).Idle ∧
      (bootStep drv validate s e).timer = s.timer) := by
  rcases settled with ended | idle
  · exact .inl (ended.step e).1
  · rcases h.not_rx with rfl | rfl
    · exact .inr idle.tick
    · exact idle.main

/-- First the main program gets to where it waits. -/
theorem Quietly.settles {s : Boot} {es : List BootEvent}
    (h : Quietly drv validate flash0 s es) (enough : settleSteps ≤ es.count .main) :
    (Lib.Run.run (bootStep drv validate) s es).Over ∨
      (Lib.Run.run (bootStep drv validate) s es).Idle := by
  refine Lib.Run.run_settles (Quietly drv validate flash0) (fun s => s.Over ∨ s.Idle) Boot.work
    (fun e => e == .main) ?_ ?_ ?_ ?_ h (.inr ?_)
  · intro s e es h
    exact h.next
  · intro s e es h settled
    exact (settled_stays h settled).imp_right And.left
  · intro s e es h main live
    rw [eq_of_beq main]
    exact main_works h.clocked.reached live
  · intro s e es h other live
    obtain rfl : e = .tick := by
      refine h.not_rx.resolve_right ?_
      rintro rfl
      exact absurd other (by decide)
    rw [bootStep_tick]
    exact .inr (Nat.le_refl _)
  · exact Nat.lt_of_lt_of_le (Boot.work_lt h.clocked.reached.ring h.clocked.reached.queue.ok) enough

/-- The loop is over, or it is idle and the timer goes off at `target`. -/
def Awaits (target : Nat) (s : Boot) : Prop :=
  s.Over ∨ (s.Idle ∧ s.timer.timerElapsed = false ∧ s.timer.targetTime = target)

theorem Awaits.step {target : Nat} {s : Boot} {e : BootEvent} {rest : List BootEvent}
    (h : Quietly drv validate flash0 s (e :: rest)) (awaits : Awaits target s) :
    Awaits target (bootStep drv validate s e) := by
  rcases awaits with ended | ⟨idle, armed, due⟩
  · exact .inl (ended.step e).1
  · refine (settled_stays h (.inr idle)).imp_right ?_
    rintro ⟨idle', timer⟩
    exact ⟨idle', timer ▸ armed, timer ▸ due⟩

theorem Quietly.awaits {target : Nat} {s : Boot} {es : List BootEvent}
    (h : Quietly drv validate flash0 s es) (awaits : Awaits target s) :
    Awaits target (Lib.Run.run (bootStep drv validate) s es) := by
  induction es generalizing s with
  | nil => exact awaits
  | cons e es ih => exact ih h.next (awaits.step h)

/-- Then the clock gets to the target. -/
theorem Quietly.due {target : Nat} {s : Boot} {es : List BootEvent}
    (h : Quietly drv validate flash0 s es) (near : target ≤ s.tickCount + defaultTimeoutMs)
    (enough : defaultTimeoutMs ≤ es.count .tick) :
    (Lib.Run.run (bootStep drv validate) s es).Over ∨
      target ≤ (Lib.Run.run (bootStep drv validate) s es).tickCount := by
  refine Lib.Run.run_settles (Quietly drv validate flash0)
    (fun s => s.Over ∨ target ≤ s.tickCount) (fun s => target - s.tickCount - 1)
    (fun e => e == .tick) ?_ ?_ ?_ ?_ h ?_
  · intro s e es h
    exact h.next
  · intro s e es h settled
    refine settled.imp (fun ended => (ended.step e).1) fun due => ?_
    rw [h.clocked.tickCount]
    omega
  · intro s e es h tick early
    obtain rfl := eq_of_beq tick
    rw [not_or] at early
    have live : s.pc ≠ .gone := fun gone => early.1 (.inr gone)
    rw [h.clocked.tickCount, if_pos ⟨rfl, live⟩]
    omega
  · intro s e es h other early
    rw [h.clocked.tickCount]
    omega
  · have small : defaultTimeoutMs = 5000 := rfl
    have count : es.countP (fun e => e == .tick) = es.count .tick := rfl
    rw [count]
    omega

/-- How many steps an idle main program is from the next look at the timer. -/
def Boot.toLook (s : Boot) : Nat :=
  if s.bootloaderState = .done then 0
  else
    match s.pc with
    | .loop => if s.bootloaderState = .sync then 1 else 3
    | .update => 2
    | .dispatch => 1
    | _ => 0

theorem Boot.toLook_done {s : Boot} (h : s.bootloaderState = .done) : s.toLook = 0 := if_pos h

theorem Boot.toLook_active {s : Boot}
    (active : s.bootloaderState ≠ .sync ∧ s.bootloaderState ≠ .done) :
    s.toLook = match s.pc with
      | .loop => 3
      | .update => 2
      | .dispatch => 1
      | _ => 0 := by
  rw [Boot.toLook, if_neg active.2, if_neg active.1]

theorem Boot.toLook_le (s : Boot) : s.toLook ≤ 3 := by
  unfold Boot.toLook
  split
  · omega
  · split
    · split <;> omega
    all_goals omega

/-- A step of an idle main program whose timer is due brings the look at it nearer. -/
theorem Boot.Idle.nears {s : Boot} (h : s.Idle) (armed : s.timer.timerElapsed = false)
    (due : s.timer.targetTime ≤ s.tickCount) :
    (bootStep drv validate s .main).toLook < s.toLook := by
  have ends (looks : s.FindsNoPacket) : (bootStep drv validate s .main).toLook = 0 :=
    Boot.toLook_done (looks.timesOut drv validate armed due).state
  rcases h.place with ⟨loop, sync⟩ | ⟨waiting, empty, place⟩
  · have none : (ringBufferRead s.rxRingBuffer).1 = none := by
      rw [ringBufferRead_empty h.unread]
    rw [ends (.inl ⟨loop, sync, by simp [none]⟩), Boot.toLook, loop, sync]
    decide
  · have active := waiting.active
    rcases place with loop | update | dispatch
    · have step : bootStep drv validate s .main = s.atPc .update := by
        rw [bootStep, Boot.mainStep, loop]
        rcases waiting with state | state | state | state <;> rw [state]
      rw [step, Boot.toLook_active (s := s.atPc .update) active, Boot.toLook_active active, loop]
      exact Nat.lt_succ_self 2
    · have step : bootStep drv validate s .main = s.atPc .dispatch := by
        rw [bootStep, Boot.mainStep, update]
        dsimp only
        rw [Boot.updateStep, ringBufferRead_empty h.unread]
      rw [step, Boot.toLook_active (s := s.atPc .dispatch) active, Boot.toLook_active active,
        update]
      exact Nat.lt_succ_self 1
    · rw [ends (.inr ⟨dispatch, waiting, empty⟩), Boot.toLook_active active, dispatch]
      exact Nat.lt_succ_self 0

/-- Last the main program looks at the timer, and leaves. -/
theorem Quietly.leaves {target : Nat} {s : Boot} {es : List BootEvent}
    (h : Quietly drv validate flash0 s es) (awaits : Awaits target s)
    (due : s.Over ∨ target ≤ s.tickCount) (enough : 4 ≤ es.count .main) :
    (Lib.Run.run (bootStep drv validate) s es).pc = .gone := by
  refine Lib.Run.run_settles
    (fun s rest => Quietly drv validate flash0 s rest ∧ Awaits target s ∧
      (s.Over ∨ target ≤ s.tickCount))
    (fun s => s.pc = .gone) Boot.toLook (fun e => e == .main) ?_ ?_ ?_ ?_ ⟨h, awaits, due⟩ (.inr ?_)
  · rintro s e es ⟨h, awaits, due⟩
    refine ⟨h.next, awaits.step h, due.imp (fun ended => (ended.step e).1) fun due => ?_⟩
    rw [h.clocked.tickCount]
    omega
  · rintro s e es - gone
    have ended : s.Over := .inr gone
    cases e with
    | rx byte => rw [bootStep, if_pos gone, gone]
    | tick => rw [bootStep, if_pos gone, gone]
    | main => exact (ended.step .main).2 rfl
  · rintro s e es ⟨h, awaits, due⟩ main live
    rw [eq_of_beq main]
    rcases awaits with ended | ⟨idle, armed, target⟩
    · exact .inl ((ended.step .main).2 rfl)
    · rcases due with ended | late
      · exact .inl ((ended.step .main).2 rfl)
      · exact .inr (idle.nears armed (target ▸ late))
  · rintro s e es ⟨h, -, -⟩ other live
    obtain rfl : e = .tick := by
      refine h.not_rx.resolve_right ?_
      rintro rfl
      exact absurd other (by decide)
    rw [bootStep_tick]
    exact .inr (Nat.le_refl _)
  · exact Nat.lt_of_le_of_lt s.toLook_le enough

end Silence

/-- Whatever the run so far: once no more bytes arrive, the steps of the main program that
what is there can take, then the ticks of one timeout, then four more steps are enough for
the main program to have left its loop, however the events are mixed, as long as the tick
counter does not wrap. -/
theorem silence_ends (drv : FlashDriver) (validate : Flash → Option Bool) (flash0 : Flash)
    (es settling waiting looking : List BootEvent)
    (silent : Silent (settling ++ (waiting ++ looking)))
    (fits : bootTicks drv validate flash0 (es ++ (settling ++ (waiting ++ looking))) < 2 ^ 32)
    (steps : settleSteps ≤ settling.count .main)
    (ticks : defaultTimeoutMs ≤ waiting.count .tick) (looks : 4 ≤ looking.count .main) :
    (bootRun drv validate flash0 (es ++ (settling ++ (waiting ++ looking)))).pc = .gone := by
  have run : bootRun drv validate flash0 (es ++ (settling ++ (waiting ++ looking))) =
      Lib.Run.run (bootStep drv validate) (Lib.Run.run (bootStep drv validate)
        (bootRun drv validate flash0 (es ++ settling)) waiting) looking := by
    rw [bootRun, bootRun, ← List.append_assoc, Lib.Run.run_append, Lib.Run.run_append]
  have whole : Quietly drv validate flash0 (bootRun drv validate flash0 es)
      (settling ++ (waiting ++ looking)) := ⟨⟨es, rfl, fits⟩, silent⟩
  have settled : (bootRun drv validate flash0 (es ++ settling)).Over ∨
      (bootRun drv validate flash0 (es ++ settling)).Idle := by
    rw [bootRun, Lib.Run.run_append]
    exact whole.front.settles steps
  have start : Quietly drv validate flash0 (bootRun drv validate flash0 (es ++ settling))
      (waiting ++ looking) := by
    rw [bootRun, Lib.Run.run_append]
    exact whole.runs
  -- the timer goes off one timeout after the last time it was armed, at the latest
  obtain ⟨target, awaits, near⟩ : ∃ target,
      Awaits target (bootRun drv validate flash0 (es ++ settling)) ∧
      target ≤ (bootRun drv validate flash0 (es ++ settling)).tickCount + defaultTimeoutMs := by
    rcases settled with ended | idle
    · exact ⟨0, .inl ended, Nat.zero_le _⟩
    · have here : bootTicks drv validate flash0 (es ++ settling) < 2 ^ 32 := by
        refine Nat.lt_of_le_of_lt ?_ fits
        rw [← List.append_assoc]
        exact bootTicks_le drv validate flash0 _ _
      obtain ⟨before, after, armed⟩ := bootRun_armed (es ++ settling) idle.started idle.live
      have timer := armed.timer_eq here
      have earlier := bootTicks_le drv validate flash0 before (.main :: after)
      rw [← armed.split, ← bootRun_tickCount drv validate here] at earlier
      refine ⟨defaultTimeoutMs + bootTicks drv validate flash0 before,
        .inr ⟨idle, by rw [timer], by rw [timer]⟩, by omega⟩
  rw [run]
  generalize bootRun drv validate flash0 (es ++ settling) = s at start awaits near ⊢
  have first : Quietly drv validate flash0 s waiting := start.front
  have awaits' : Awaits target (Lib.Run.run (bootStep drv validate) s waiting) :=
    first.awaits awaits
  exact start.runs.leaves awaits' (first.due near ticks) looks

/-- No more ticks are counted than there are. -/
theorem ticksHandled_le_count (drv : FlashDriver) (validate : Flash → Option Bool) (s : Boot)
    (es : List BootEvent) : ticksHandled drv validate s es ≤ es.count .tick := by
  induction es generalizing s with
  | nil => exact Nat.le_refl 0
  | cons e es ih =>
    have rest := ih (bootStep drv validate s e)
    rw [ticksHandled, List.count_cons]
    by_cases tick : e = .tick
    · subst tick
      rw [if_pos (beq_self_eq_true BootEvent.tick)]
      split <;> omega
    · rw [if_neg (fun h => tick h.1), if_neg (by simpa using tick)]
      omega

/-- A board that is switched on with nobody at the other end. -/
theorem silence_ends_alone :
    (bootRun stm32Flash validateFlash (fun _ => 0)
      ([] ++ (List.replicate 1120 .main ++
        (List.replicate 5000 .tick ++ List.replicate 4 .main)))).pc = .gone := by
  refine silence_ends stm32Flash validateFlash (fun _ => 0) [] (List.replicate 1120 .main)
    (List.replicate 5000 .tick) (List.replicate 4 .main) ?_ ?_ ?_ ?_ ?_
  · intro byte member
    rw [List.mem_append, List.mem_append] at member
    rcases member with main | tick | main
    · cases List.eq_of_mem_replicate main
    · cases List.eq_of_mem_replicate tick
    · cases List.eq_of_mem_replicate main
  · refine Nat.lt_of_le_of_lt (ticksHandled_le_count _ _ _ _) ?_
    rw [List.nil_append, List.count_append, List.count_append, List.count_replicate_self,
      List.count_replicate, List.count_replicate]
    decide
  · rw [List.count_replicate_self]
    decide
  · rw [List.count_replicate_self]
    decide
  · rw [List.count_replicate_self]

end SecureBootloader
