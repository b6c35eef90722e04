import SecureBootloader.Boot.Receiver
import SecureBootloader.Shared.RingQueue

/-!
# Bytes that are read as they arrive

A byte that arrives at an empty byte queue while `comms_update` runs is the next
one it reads. Frame by frame the machine does what `comms.c` does with the bytes.
-/

namespace SecureBootloader

/-- Each byte arrives, then the main program makes a step. -/
def arrivals (bytes : List Byte) : List BootEvent := bytes.flatMap fun byte => [.rx byte, .main]

/-! ## The byte queue -/

/-- The indices stay inside the buffer. -/
structure RingOk (rb : RingBuffer) : Prop where
  size : rb.buffer.length = uartBufferSize
  mask : rb.mask = uartBufferSize - 1
  read : rb.readIndex < uartBufferSize
  write : rb.writeIndex < uartBufferSize

theorem RingOk.ringSize {rb : RingBuffer} (ok : RingOk rb) : RingSize 7 rb :=
  ⟨ok.size, ok.mask, ok.read, ok.write⟩

/-- The mask keeps an index in the buffer. -/
theorem and_ringMask (i : Nat) (h : i < uartBufferSize) :
    ((i + 1) % 2 ^ 32) &&& (uartBufferSize - 1) = (i + 1) % uartBufferSize :=
  and_mask (k := 7) (by decide) h

theorem ringOk_init : RingOk (ringBufferSetup (List.replicate uartBufferSize 0) uartBufferSize) :=
  ⟨List.length_replicate, rfl, by decide, by decide⟩

theorem ringBufferWrite_ok {rb : RingBuffer} (ok : RingOk rb) (byte : Byte) :
    RingOk (ringBufferWrite rb byte).2 := by
  unfold ringBufferWrite
  dsimp only
  rw [ok.mask, and_ringMask _ ok.write]
  split
  · exact ok
  · exact ⟨(List.length_set ..).trans ok.size, rfl, ok.read, Nat.mod_lt _ (by decide)⟩

theorem ringBufferRead_ok {rb : RingBuffer} (ok : RingOk rb) : RingOk (ringBufferRead rb).2 := by
  unfold ringBufferRead
  rw [ok.mask, and_ringMask _ ok.read]
  split
  · exact ok
  · exact ⟨ok.size, rfl, Nat.mod_lt _ (by decide), ok.write⟩

/-- A byte that arrives at an empty queue is the next one read. -/
theorem ringBufferRead_write {rb : RingBuffer} (ok : RingOk rb)
    (empty : rb.readIndex = rb.writeIndex) (byte : Byte) :
    (ringBufferRead (ringBufferWrite rb byte).2).1 = some byte ∧
      (ringBufferRead (ringBufferWrite rb byte).2).2.readIndex =
        (ringBufferRead (ringBufferWrite rb byte).2).2.writeIndex := by
  have moves : (rb.writeIndex + 1) % uartBufferSize ≠ rb.writeIndex := by
    have := ok.write
    unfold uartBufferSize at this ⊢
    omega
  have written : (ringBufferWrite rb byte).2 = { rb with
      buffer := rb.buffer.set rb.writeIndex byte
      writeIndex := (rb.writeIndex + 1) % uartBufferSize } := by
    unfold ringBufferWrite
    rw [ok.mask, and_ringMask _ ok.write, empty, if_neg moves, ← ok.mask]
  rw [written, ringBufferRead]
  dsimp only
  rw [empty, if_neg (Ne.symm moves), ok.mask, and_ringMask _ ok.write]
  refine ⟨congrArg some ?_, rfl⟩
  rw [List.getD_eq_getElem?_getD, List.getElem?_set_self (ok.size ▸ ok.write)]
  rfl

/-- Reading an empty queue changes nothing. -/
theorem ringBufferRead_empty {rb : RingBuffer} (empty : rb.readIndex = rb.writeIndex) :
    ringBufferRead rb = (none, rb) := by
  rw [ringBufferRead, if_pos empty]

section Ring

variable (drv : FlashDriver) (validate : Flash → Option Bool) (s : Boot)

theorem checkForTimeout_ring : s.checkForTimeout.rxRingBuffer = s.rxRingBuffer := by
  unfold Boot.checkForTimeout
  dsimp only
  split <;> rfl

theorem withPacket_ring {handle : CommsPacket → Boot → Boot}
    (keeps : ∀ packet t, (handle packet t).rxRingBuffer = t.rxRingBuffer) :
    (s.withPacket handle).rxRingBuffer = s.rxRingBuffer := by
  unfold Boot.withPacket
  split
  · exact keeps _ _
  · exact checkForTimeout_ring s

theorem reportVerdict_ring : (s.reportVerdict validate).rxRingBuffer = s.rxRingBuffer := by
  unfold Boot.reportVerdict
  split <;> rfl

theorem switchState_ring : (s.switchState drv validate).rxRingBuffer = s.rxRingBuffer := by
  unfold Boot.switchState
  split
  · refine withPacket_ring s ?_
    intro packet t
    split <;> rfl
  · rfl
  · refine withPacket_ring s ?_
    intro packet t
    split <;> rfl
  · rfl
  · refine withPacket_ring s ?_
    intro packet t
    dsimp only
    split
    · split <;> rfl
    · rfl
  · rfl
  · refine withPacket_ring s ?_
    intro packet t
    dsimp only
    split
    · split
      · exact reportVerdict_ring validate (t.writeChunk drv packet)
      · rfl
    · rfl
  · rfl
  · rfl

theorem leave_ring : (s.leave validate).rxRingBuffer = s.rxRingBuffer := by
  unfold Boot.leave
  split <;> rfl

theorem syncStep_ring : s.syncStep.rxRingBuffer = s.rxRingBuffer ∨
    s.syncStep.rxRingBuffer = (ringBufferRead s.rxRingBuffer).2 := by
  unfold Boot.syncStep
  cases ringBufferRead s.rxRingBuffer with
  | mk read rx =>
    cases read with
    | none => exact .inl (checkForTimeout_ring s)
    | some byte =>
      refine .inr ?_
      dsimp only
      split
      · rfl
      · exact checkForTimeout_ring _

theorem flushStep_ring : s.flushStep.rxRingBuffer = s.rxRingBuffer ∨
    s.flushStep.rxRingBuffer = (ringBufferRead s.rxRingBuffer).2 := by
  unfold Boot.flushStep
  cases ringBufferRead s.rxRingBuffer with
  | mk read rx =>
    cases read with
    | none => exact .inl rfl
    | some byte => exact .inr rfl

theorem updateStep_ring : s.updateStep.rxRingBuffer = s.rxRingBuffer ∨
    s.updateStep.rxRingBuffer = (ringBufferRead s.rxRingBuffer).2 := by
  unfold Boot.updateStep
  cases ringBufferRead s.rxRingBuffer with
  | mk read rx =>
    cases read with
    | none => exact .inl rfl
    | some byte => exact .inr rfl

/-- A step of the main program reads a byte from the queue at most. -/
theorem mainStep_ring : (s.mainStep drv validate).rxRingBuffer = s.rxRingBuffer ∨
    (s.mainStep drv validate).rxRingBuffer = (ringBufferRead s.rxRingBuffer).2 := by
  unfold Boot.mainStep
  split
  · exact .inl rfl
  · split
    · exact .inl (leave_ring validate s)
    · exact syncStep_ring s
    · exact .inl rfl
  · exact flushStep_ring s
  · exact updateStep_ring s
  · exact .inl (switchState_ring drv validate (s.atPc .loop))
  · exact .inl rfl

/-- A step of the main program leaves an empty queue as it is. -/
theorem mainStep_ring_empty (empty : s.rxRingBuffer.readIndex = s.rxRingBuffer.writeIndex) :
    (s.mainStep drv validate).rxRingBuffer = s.rxRingBuffer := by
  rcases mainStep_ring drv validate s with same | read
  · exact same
  · rw [read, ringBufferRead_empty empty]

variable {s}

theorem bootStep_ringOk (ok : RingOk s.rxRingBuffer) (e : BootEvent) :
    RingOk (bootStep drv validate s e).rxRingBuffer := by
  cases e with
  | rx byte =>
    rw [bootStep]
    split
    · exact ok
    · exact ringBufferWrite_ok ok byte
  | tick =>
    rw [bootStep]
    split <;> exact ok
  | main =>
    show RingOk (s.mainStep drv validate).rxRingBuffer
    rcases mainStep_ring drv validate s with same | read
    · rwa [same]
    · rw [read]
      exact ringBufferRead_ok ok

end Ring

theorem bootRun_ringOk (drv : FlashDriver) (validate : Flash → Option Bool) (flash0 : Flash)
    (es : List BootEvent) : RingOk (bootRun drv validate flash0 es).rxRingBuffer :=
  Lib.Run.run_invariant (P := fun s : Boot => RingOk s.rxRingBuffer)
    (fun _ e ok => bootStep_ringOk drv validate ok e) ringOk_init es

/-! ## Arrivals -/

/-- What `comms_update` shows for some bytes. -/
def arrivalTrace : Comms → List Byte → Trace
  | _, [] => []
  | c, byte :: bytes =>
    .commsByte byte :: (commsUpdateByte c byte).2 ++ arrivalTrace (commsUpdateByte c byte).1 bytes

/-- The session after some bytes read by `comms_update`. -/
def Session.receives (v : Session) (bytes : List Byte) : Session :=
  v.afterComms ((commsUpdateBytes v.comms bytes).1, arrivalTrace v.comms bytes)

theorem arrivalTrace_accepted (c : Comms) (bytes : List Byte) :
    (arrivalTrace c bytes).accepted = [] := by
  induction bytes generalizing c with
  | nil => rfl
  | cons byte bytes ih =>
    rw [arrivalTrace, Trace.accepted_append, ih, List.append_nil]
    exact (commsUpdateByte_quiet c byte).2.2

/-- `comms_update` is running and the byte queue is empty. -/
structure Listening (s : Boot) : Prop where
  pc : s.pc = .update
  ok : RingOk s.rxRingBuffer
  empty : s.rxRingBuffer.readIndex = s.rxRingBuffer.writeIndex

section Arrivals

variable (drv : FlashDriver) (validate : Flash → Option Bool) {s : Boot}

theorem bootStep_update (h : s.pc = .update) : bootStep drv validate s .main = s.updateStep := by
  rw [bootStep, Boot.mainStep, h]

/-- With no byte left the loop of `comms_update` ends. -/
theorem Listening.ends (h : Listening s) :
    bootStep drv validate s .main = s.atPc .dispatch := by
  rw [bootStep_update drv validate h.pc, Boot.updateStep, ringBufferRead_empty h.empty]

/-- A byte that arrives while `comms_update` runs is read at once. -/
theorem Listening.arrival (h : Listening s) (byte : Byte) :
    Listening (Lib.Run.run (bootStep drv validate) s [.rx byte, .main]) ∧
      (Lib.Run.run (bootStep drv validate) s [.rx byte, .main]).session =
        s.session.receives [byte] := by
  obtain ⟨read, empty⟩ := ringBufferRead_write h.ok h.empty byte
  have ok := ringBufferRead_ok (ringBufferWrite_ok h.ok byte)
  have notGone : s.pc ≠ .gone := by
    rw [h.pc]
    decide
  have stepped : Lib.Run.run (bootStep drv validate) s [.rx byte, .main] =
      (({ s with rxRingBuffer := (ringBufferRead (ringBufferWrite s.rxRingBuffer byte).2).2 }).shows
        [.commsByte byte]).afterComms (commsUpdateByte s.comms byte) := by
    rw [Lib.Run.run_cons, Lib.Run.run_cons, Lib.Run.run_nil, bootStep, if_neg notGone,
      bootStep_update drv validate (by exact h.pc), Boot.updateStep,
      ← Prod.mk.eta (p := ringBufferRead (ringBufferWrite s.rxRingBuffer byte).2), read]
  rw [stepped]
  refine ⟨⟨h.pc, ok, empty⟩, ?_⟩
  have trace : arrivalTrace s.session.comms [byte] =
      .commsByte byte :: (commsUpdateByte s.session.comms byte).2 := List.append_nil _
  unfold Session.receives
  rw [trace]
  show Session.mk _ _ _ _ _ _ _ ((s.trace ++ [.commsByte byte]) ++ _) = _
  rw [List.append_assoc]
  rfl

theorem receives_cons (v : Session) (byte : Byte) (bytes : List Byte) :
    v.receives (byte :: bytes) = (v.receives [byte]).receives bytes := by
  unfold Session.receives Session.afterComms
  rw [List.append_assoc]
  congr 1
  show _ = v.trace ++ (arrivalTrace v.comms [byte] ++ _)
  rw [arrivalTrace, arrivalTrace, arrivalTrace, List.append_nil]
  rfl

/-- The bytes of a frame, each read as it arrives. -/
theorem Listening.arrivals (h : Listening s) (bytes : List Byte) :
    Listening (Lib.Run.run (bootStep drv validate) s (arrivals bytes)) ∧
      (Lib.Run.run (bootStep drv validate) s (SecureBootloader.arrivals bytes)).session =
        s.session.receives bytes := by
  induction bytes generalizing s with
  | nil =>
    refine ⟨h, ?_⟩
    show s.session = Session.mk _ _ _ _ _ _ _ (s.trace ++ [])
    rw [List.append_nil]
    rfl
  | cons byte bytes ih =>
    obtain ⟨listening, session⟩ := h.arrival drv validate byte
    obtain ⟨listening', session'⟩ := ih listening
    have split : SecureBootloader.arrivals (byte :: bytes) =
        [.rx byte, .main] ++ SecureBootloader.arrivals bytes := rfl
    rw [split, Lib.Run.run_append]
    exact ⟨listening', by rw [session', session, ← receives_cons]⟩

end Arrivals

end SecureBootloader
