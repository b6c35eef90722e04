import SecureBootloader.Boot.Comms
import SecureBootloader.Boot.Flash
import SecureBootloader.Shared.RingBuffer
import SecureBootloader.Shared.SimpleTimer

/-!
# The bootloader as a state machine

The main program of `bootloader.c` runs in steps, and between any two of them
the receive interrupt and the tick interrupt may fire. A step touches the byte
queue at most once and reads the tick counter at most once, both shared with the
interrupts, so an interrupt inside a step acts as one before or after it.
-/

namespace SecureBootloader

/-! ## State -/

/-- `bl_state_t`. -/
inductive BlState where
  | sync
  | waitForFwUpdateReq
  | deviceIdReq
  | deviceIdRes
  | fwLengthReq
  | fwLengthRes
  | eraseApplication
  | receiveFw
  | done
  deriving DecidableEq, Repr

/-- Where the main program stands: before the timer is armed, at the head of the
main loop, in the flush after the sync sequence, in `comms_update`, before the
`switch`, or past the loop with the processor gone elsewhere. -/
inductive Pc where
  | setup
  | loop
  | flush
  | update
  | dispatch
  | gone
  deriving DecidableEq, Repr

/-- `sync_seq`. -/
structure SyncSeq where
  s0 : Byte
  s1 : Byte
  s2 : Byte
  s3 : Byte
  deriving DecidableEq, Repr

/-- `SYNC_SEQ_0` to `SYNC_SEQ_3`. -/
def syncSequence : SyncSeq := ⟨0xc4, 0x55, 0x7e, 0x10⟩

/-- `DEFAULT_TIMEOUT_MS`. -/
def defaultTimeoutMs : Nat := 5000

/-- `UART_BUFFER_SIZE`. -/
def uartBufferSize : Nat := 128

/-- The memory of the bootloader, its flash, and the trace of the run so far. -/
structure Boot where
  rxRingBuffer : RingBuffer
  tickCount : Nat
  timer : SimpleTimer
  comms : Comms
  bootloaderState : BlState
  firmwareLength : Nat
  bytesWritten : Nat
  syncSeq : SyncSeq
  flash : Flash
  pc : Pc
  trace : Trace

/-- The state after `uart_setup` and `comms_setup`. -/
def bootInit (flash : Flash) : Boot where
  rxRingBuffer := ringBufferSetup (List.replicate uartBufferSize 0) uartBufferSize
  tickCount := 0
  timer := ⟨0, 0, false, false⟩
  comms := commsInit
  bootloaderState := .sync
  firmwareLength := 0
  bytesWritten := 0
  syncSeq := ⟨0, 0, 0, 0⟩
  flash := flash
  pc := .setup
  trace := []

/-! ## The functions the main loop calls -/

namespace Boot

def withState (s : Boot) (state : BlState) : Boot := { s with bootloaderState := state }

def atPc (s : Boot) (pc : Pc) : Boot := { s with pc := pc }

def shows (s : Boot) (obs : Trace) : Boot := { s with trace := s.trace ++ obs }

/-- Take over what a function of `comms.c` did. -/
def afterComms (s : Boot) (r : Comms × Trace) : Boot :=
  { s with comms := r.1, trace := s.trace ++ r.2 }

/-- `comms_create_single_byte_packet` and `comms_send_packet`. -/
def sendSingleByte (s : Boot) (byte : Byte) : Boot :=
  s.afterComms (commsSendPacket s.comms (commsCreateSingleBytePacket byte))

/-- `simple_timer_reset(&timer)`. -/
def resetTimer (s : Boot) : Boot := { s with timer := simpleTimerReset s.tickCount s.timer }

/-- `bootloading_failed`. -/
def bootloadingFailed (s : Boot) : Boot :=
  (s.sendSingleByte blPacketNackData0).withState .done

/-- `check_for_timeout`. -/
def checkForTimeout (s : Boot) : Boot :=
  let (elapsed, timer) := simpleTimerHasElapsed s.tickCount s.timer
  let s := { s with timer := timer }
  if elapsed then s.bootloadingFailed else s

end Boot

/-- `is_device_id_packet`. -/
def isDeviceIdPacket (packet : CommsPacket) : Bool :=
  if packet.length ≠ 2 then false
  else if packet.dataAt 0 ≠ blPacketDeviceIdResData0 then false
  else (packet.data.toList.drop 2).all (· == 0xff)

/-- `is_fw_length_packet`. -/
def isFwLengthPacket (packet : CommsPacket) : Bool :=
  if packet.length ≠ 5 then false
  else if packet.dataAt 0 ≠ blPacketFwLengthResData0 then false
  else (packet.data.toList.drop 5).all (· == 0xff)

/-- The firmware length a FW_LENGTH_RES packet announces. -/
def announcedLength (packet : CommsPacket) : Nat :=
  (packet.dataAt 1).toNat ||| (packet.dataAt 2).toNat <<< 8 |||
    (packet.dataAt 3).toNat <<< 16 ||| (packet.dataAt 4).toNat <<< 24

/-- `(temp_packet.length & 0x0F) + 1`. -/
def chunkLength (packet : CommsPacket) : Nat := (packet.length &&& 0x0F).toNat + 1

/-- The bytes a data packet carries. -/
def chunkOf (packet : CommsPacket) : List Byte := packet.data.toList.take (chunkLength packet)

/-! ## The states -/

namespace Boot

section Steps

variable (drv : FlashDriver) (validate : Flash → Option Bool)

/-- Take a packet in a state that waits for one; without one, look at the timer. -/
def withPacket (s : Boot) (handle : CommsPacket → Boot → Boot) : Boot :=
  if commsPacketAvailable s.comms then
    let (packet, r) := commsReceivePacket s.comms
    handle packet (s.afterComms r)
  else s.checkForTimeout

/-- BL_STATE_SYNC. -/
def syncStep (s : Boot) : Boot :=
  match ringBufferRead s.rxRingBuffer with
  | (some byte, rx) =>
    let seq : SyncSeq := ⟨s.syncSeq.s1, s.syncSeq.s2, s.syncSeq.s3, byte⟩
    let s := ({ s with rxRingBuffer := rx, syncSeq := seq }).shows [.syncByte byte]
    -- a match is followed by the flush, anything else by a look at the timer
    if seq = syncSequence then s.atPc .flush else s.checkForTimeout
  | (none, _) => s.checkForTimeout

/-- The flush after the sync sequence, and what follows it. -/
def flushStep (s : Boot) : Boot :=
  match ringBufferRead s.rxRingBuffer with
  | (some byte, rx) => ({ s with rxRingBuffer := rx }).shows [.flushByte byte]
  | (none, _) =>
    (((s.sendSingleByte blPacketSyncObservedData0).withState .waitForFwUpdateReq).resetTimer).atPc
      .loop

/-- One turn of the loop of `comms_update`. -/
def updateStep (s : Boot) : Boot :=
  match ringBufferRead s.rxRingBuffer with
  | (some byte, rx) =>
    (({ s with rxRingBuffer := rx }).shows [.commsByte byte]).afterComms
      (commsUpdateByte s.comms byte)
  | (none, _) => s.atPc .dispatch

/-- BL_STATE_WAIT_FOR_FW_UPDATE_REQ. -/
def waitForFwUpdateReq (s : Boot) : Boot :=
  s.withPacket fun packet s =>
    if commsIsSingleBytePacket packet blPacketFwUpdateReqData0 then
      ((s.sendSingleByte blPacketFwUpdateResData0).withState .deviceIdReq).resetTimer
    else s.bootloadingFailed

/-- BL_STATE_DEVICE_ID_REQ. -/
def deviceIdReq (s : Boot) : Boot :=
  ((s.sendSingleByte blPacketDeviceIdReqData0).withState .deviceIdRes).resetTimer

/-- BL_STATE_DEVICE_ID_RES. -/
def deviceIdRes (s : Boot) : Boot :=
  s.withPacket fun packet s =>
    if isDeviceIdPacket packet && (packet.dataAt 1).toNat == deviceId then
      s.resetTimer.withState .fwLengthReq
    else s.bootloadingFailed

/-- BL_STATE_FW_LENGTH_REQ. -/
def fwLengthReq (s : Boot) : Boot :=
  (s.resetTimer.sendSingleByte blPacketFwLengthReqData0).withState .fwLengthRes

/-- BL_STATE_FW_LENGTH_RES. -/
def fwLengthRes (s : Boot) : Boot :=
  s.withPacket fun packet s =>
    if isFwLengthPacket packet then
      -- stored before it is checked
      let s := { s with firmwareLength := announcedLength packet }
      if s.firmwareLength ≤ maxFwLength then s.resetTimer.withState .eraseApplication
      else s.bootloadingFailed
    else s.bootloadingFailed

/-- BL_STATE_ERASE_APPLICATION. -/
def eraseApplication (s : Boot) : Boot :=
  let s := ({ s with flash := blFlashEraseMainApplication drv s.flash }).shows [.erased]
  (s.resetTimer.sendSingleByte blPacketReadyForDataData0).withState .receiveFw

/-- The write of a data packet, `bytes_written` and the timer included. -/
def writeChunk (s : Boot) (packet : CommsPacket) : Boot :=
  let address := (mainAppStartAddress + s.bytesWritten) % 2 ^ 32
  let s := ({ s with
    flash := blFlashWrite drv address (chunkOf packet) s.flash
    bytesWritten := (s.bytesWritten + chunkLength packet) % 2 ^ 32 }).shows
      [.accepted packet, .programmed address (chunkOf packet)]
  s.resetTimer

/-- The verdict of `validate_fw_image`, reported to the host; a faulting load
stops the processor. -/
def reportVerdict (s : Boot) : Boot :=
  match validate s.flash with
  | some true => (s.sendSingleByte blPacketUpdateSuccessfulData0).withState .done
  | some false => (s.sendSingleByte blPacketNackData0).withState .done
  | none => (s.shows [.faulted]).atPc .gone

/-- BL_STATE_RECEIVE_FW. -/
def receiveFw (s : Boot) : Boot :=
  s.withPacket fun packet s =>
    if 0 < packet.length.toNat ∧ packet.length.toNat ≤ packetDataLength then
      let s := s.writeChunk drv packet
      -- the end test comes after the write
      if s.firmwareLength ≤ s.bytesWritten then s.reportVerdict validate
      else s.sendSingleByte blPacketReadyForDataData0
    else s.bootloadingFailed

/-- The `switch`. SYNC and DONE fall into its `default` branch. -/
def switchState (s : Boot) : Boot :=
  match s.bootloaderState with
  | .waitForFwUpdateReq => s.waitForFwUpdateReq
  | .deviceIdReq => s.deviceIdReq
  | .deviceIdRes => s.deviceIdRes
  | .fwLengthReq => s.fwLengthReq
  | .fwLengthRes => s.fwLengthRes
  | .eraseApplication => s.eraseApplication drv
  | .receiveFw => s.receiveFw drv validate
  -- `default`
  | .sync => s.withState .sync
  | .done => s.withState .sync

/-- After the loop: the second validation and the way out. -/
def leave (s : Boot) : Boot :=
  match validate s.flash with
  | some true => (s.shows [.jumped]).atPc .gone
  | some false => (s.shows [.wasReset]).atPc .gone
  | none => (s.shows [.faulted]).atPc .gone

/-- One step of the main program. -/
def mainStep (s : Boot) : Boot :=
  match s.pc with
  | .setup => { s with timer := simpleTimerInit s.tickCount defaultTimeoutMs false, pc := .loop }
  | .loop =>
    match s.bootloaderState with
    | .done => s.leave validate
    | .sync => s.syncStep
    | _ => s.atPc .update
  | .flush => s.flushStep
  | .update => s.updateStep
  | .dispatch => (s.atPc .loop).switchState drv validate
  | .gone => s

end Steps

end Boot

/-! ## Runs -/

/-- What can happen: a byte arrives, a tick passes, the main program makes a step. -/
inductive BootEvent where
  | rx (byte : Byte)
  | tick
  | main
  deriving DecidableEq, Repr

/-- One event. Once the main program is gone the interrupts are off. -/
def bootStep (drv : FlashDriver) (validate : Flash → Option Bool) (s : Boot) :
    BootEvent → Boot
  | .rx byte =>
    if s.pc = .gone then s
    -- a full buffer drops the byte
    else { s with rxRingBuffer := (ringBufferWrite s.rxRingBuffer byte).2 }
  | .tick => if s.pc = .gone then s else { s with tickCount := (s.tickCount + 1) % 2 ^ 32 }
  | .main => s.mainStep drv validate

/-- The validator of `bootloader.c`: with this fuel it ends on every flash, with
a verdict or at a faulting load. -/
def validateFlash (flash : Flash) : Option Bool :=
  match validateFwImage (flashRead flash) (appAreaSize / 16 + 1) with
  | .ok accepted => some accepted
  | .error _ => none

end SecureBootloader
