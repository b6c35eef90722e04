import SecureBootloader.Boot.Machine

/-!
# What a step of the main program can do

A session is the state of the bootloader without the byte queue, the clock and
the timer. `SessionStep` lists every change of a session that one step of the
main program can make, under the conditions on which the code makes it; the
byte read and whether the timer has fired are left open. Every invariant of a
run is an induction over these cases.
-/

namespace SecureBootloader

/-- The bootloader without byte queue, clock and timer. -/
structure Session where
  comms : Comms
  bootloaderState : BlState
  firmwareLength : Nat
  bytesWritten : Nat
  syncSeq : SyncSeq
  flash : Flash
  pc : Pc
  trace : Trace

/-- The session of a state. -/
def Boot.session (s : Boot) : Session where
  comms := s.comms
  bootloaderState := s.bootloaderState
  firmwareLength := s.firmwareLength
  bytesWritten := s.bytesWritten
  syncSeq := s.syncSeq
  flash := s.flash
  pc := s.pc
  trace := s.trace

namespace Session

def withState (v : Session) (state : BlState) : Session := { v with bootloaderState := state }

def atPc (v : Session) (pc : Pc) : Session := { v with pc := pc }

def shows (v : Session) (obs : Trace) : Session := { v with trace := v.trace ++ obs }

def afterComms (v : Session) (r : Comms × Trace) : Session :=
  { v with comms := r.1, trace := v.trace ++ r.2 }

def sendSingleByte (v : Session) (byte : Byte) : Session :=
  v.afterComms (commsSendPacket v.comms (commsCreateSingleBytePacket byte))

/-- A NACK is sent and the session is over. -/
def fails (v : Session) : Session := (v.sendSingleByte blPacketNackData0).withState .done

/-- The oldest packet of the queue. -/
def nextPacket (v : Session) : CommsPacket := (commsReceivePacket v.comms).1

/-- The session after `comms_receive_packet`. -/
def takes (v : Session) : Session := v.afterComms (commsReceivePacket v.comms).2

/-- `sync_seq` after one more byte. -/
def shifted (v : Session) (byte : Byte) : SyncSeq :=
  ⟨v.syncSeq.s1, v.syncSeq.s2, v.syncSeq.s3, byte⟩

/-- The session after a byte read in the SYNC state. -/
def reads (v : Session) (byte : Byte) : Session :=
  { v with syncSeq := v.shifted byte, trace := v.trace ++ [.syncByte byte] }

/-- The address the next data packet goes to. -/
def writeAddress (v : Session) : Nat := (mainAppStartAddress + v.bytesWritten) % 2 ^ 32

/-- The session after the write of a data packet. -/
def writes (v : Session) (drv : FlashDriver) (packet : CommsPacket) : Session :=
  { v with
    flash := blFlashWrite drv v.writeAddress (chunkOf packet) v.flash
    bytesWritten := (v.bytesWritten + chunkLength packet) % 2 ^ 32
    trace := v.trace ++ [.accepted packet, .programmed v.writeAddress (chunkOf packet)] }

/-- The session after the erase. -/
def erases (v : Session) (drv : FlashDriver) : Session :=
  { v with flash := blFlashEraseMainApplication drv v.flash, trace := v.trace ++ [.erased] }

end Session

/-- A state that takes packets from the queue. -/
def BlState.Waiting (state : BlState) : Prop :=
  state = .waitForFwUpdateReq ∨ state = .deviceIdRes ∨ state = .fwLengthRes ∨ state = .receiveFw

/-- The length check of RECEIVE_FW. -/
def DataLengthOk (packet : CommsPacket) : Prop :=
  0 < packet.length.toNat ∧ packet.length.toNat ≤ packetDataLength

/-- The packet a waiting state goes on with. -/
def Expected (state : BlState) (packet : CommsPacket) : Prop :=
  match state with
  | .waitForFwUpdateReq => commsIsSingleBytePacket packet blPacketFwUpdateReqData0 = true
  | .deviceIdRes => isDeviceIdPacket packet = true ∧ (packet.dataAt 1).toNat = deviceId
  | .fwLengthRes => isFwLengthPacket packet = true ∧ announcedLength packet ≤ maxFwLength
  | .receiveFw => DataLengthOk packet
  | _ => False

/-- One step of the main program on sessions. -/
inductive SessionStep (drv : FlashDriver) (validate : Flash → Option Bool) (v : Session) :
    Session → Prop
  /-- the timer is armed at start -/
  | start (h : v.pc = .setup) : SessionStep drv validate v (v.atPc .loop)
  /-- the loop goes on to `comms_update` -/
  | enter (h : v.pc = .loop) (active : v.bootloaderState ≠ .sync ∧ v.bootloaderState ≠ .done) :
      SessionStep drv validate v (v.atPc .update)
  /-- `comms_update` finds no more bytes -/
  | drained (h : v.pc = .update) : SessionStep drv validate v (v.atPc .dispatch)
  /-- no packet, no timeout -/
  | idle (h : v.pc = .dispatch) (waiting : v.bootloaderState.Waiting)
      (empty : commsPacketAvailable v.comms = false) : SessionStep drv validate v (v.atPc .loop)
  | timeout (h : v.pc = .dispatch) (waiting : v.bootloaderState.Waiting)
      (empty : commsPacketAvailable v.comms = false) :
      SessionStep drv validate v (v.atPc .loop).fails
  | syncIdle (h : v.pc = .loop) (sync : v.bootloaderState = .sync) : SessionStep drv validate v v
  | syncTimeout (h : v.pc = .loop) (sync : v.bootloaderState = .sync) :
      SessionStep drv validate v v.fails
  | syncByte (byte : Byte) (h : v.pc = .loop) (sync : v.bootloaderState = .sync)
      (other : v.shifted byte ≠ syncSequence) : SessionStep drv validate v (v.reads byte)
  | syncByteTimeout (byte : Byte) (h : v.pc = .loop) (sync : v.bootloaderState = .sync)
      (other : v.shifted byte ≠ syncSequence) : SessionStep drv validate v (v.reads byte).fails
  | syncMatch (byte : Byte) (h : v.pc = .loop) (sync : v.bootloaderState = .sync)
      (found : v.shifted byte = syncSequence) :
      SessionStep drv validate v ((v.reads byte).atPc .flush)
  | flushByte (byte : Byte) (h : v.pc = .flush) :
      SessionStep drv validate v (v.shows [.flushByte byte])
  | flushed (h : v.pc = .flush) : SessionStep drv validate v
      (((v.sendSingleByte blPacketSyncObservedData0).withState .waitForFwUpdateReq).atPc .loop)
  | commsByte (byte : Byte) (h : v.pc = .update) : SessionStep drv validate v
      ((v.shows [.commsByte byte]).afterComms (commsUpdateByte v.comms byte))
  /-- a packet that is not the one the state waits for -/
  | refused (length : Nat) (h : v.pc = .dispatch) (waiting : v.bootloaderState.Waiting)
      (available : commsPacketAvailable v.comms = true)
      (wrong : ¬Expected v.bootloaderState v.nextPacket)
      (announced : length = v.firmwareLength ∨ v.bootloaderState = .fwLengthRes) :
      SessionStep drv validate v ({ (v.atPc .loop).takes with firmwareLength := length }).fails
  | fwUpdateReq (h : v.pc = .dispatch) (state : v.bootloaderState = .waitForFwUpdateReq)
      (available : commsPacketAvailable v.comms = true)
      (request : commsIsSingleBytePacket v.nextPacket blPacketFwUpdateReqData0 = true) :
      SessionStep drv validate v
        (((v.atPc .loop).takes.sendSingleByte blPacketFwUpdateResData0).withState .deviceIdReq)
  | deviceIdReq (h : v.pc = .dispatch) (state : v.bootloaderState = .deviceIdReq) :
      SessionStep drv validate v
        (((v.atPc .loop).sendSingleByte blPacketDeviceIdReqData0).withState .deviceIdRes)
  | deviceIdRes (h : v.pc = .dispatch) (state : v.bootloaderState = .deviceIdRes)
      (available : commsPacketAvailable v.comms = true)
      (shape : isDeviceIdPacket v.nextPacket = true)
      (device : (v.nextPacket.dataAt 1).toNat = deviceId) :
      SessionStep drv validate v ((v.atPc .loop).takes.withState .fwLengthReq)
  | fwLengthReq (h : v.pc = .dispatch) (state : v.bootloaderState = .fwLengthReq) :
      SessionStep drv validate v
        (((v.atPc .loop).sendSingleByte blPacketFwLengthReqData0).withState .fwLengthRes)
  | fwLengthRes (h : v.pc = .dispatch) (state : v.bootloaderState = .fwLengthRes)
      (available : commsPacketAvailable v.comms = true)
      (shape : isFwLengthPacket v.nextPacket = true)
      (fits : announcedLength v.nextPacket ≤ maxFwLength) :
      SessionStep drv validate v
        ({ (v.atPc .loop).takes with
          firmwareLength := announcedLength v.nextPacket }.withState .eraseApplication)
  | erase (h : v.pc = .dispatch) (state : v.bootloaderState = .eraseApplication) :
      SessionStep drv validate v
        ((((v.atPc .loop).erases drv).sendSingleByte blPacketReadyForDataData0).withState
          .receiveFw)
  /-- a data packet that does not complete the image -/
  | chunk (h : v.pc = .dispatch) (state : v.bootloaderState = .receiveFw)
      (available : commsPacketAvailable v.comms = true) (ok : DataLengthOk v.nextPacket)
      (more : ((v.atPc .loop).takes.writes drv v.nextPacket).bytesWritten < v.firmwareLength) :
      SessionStep drv validate v
        (((v.atPc .loop).takes.writes drv v.nextPacket).sendSingleByte blPacketReadyForDataData0)
  /-- the data packet that completes the image, and the verdict -/
  | lastChunk (accepted : Bool) (h : v.pc = .dispatch) (state : v.bootloaderState = .receiveFw)
      (available : commsPacketAvailable v.comms = true) (ok : DataLengthOk v.nextPacket)
      (complete : v.firmwareLength ≤ ((v.atPc .loop).takes.writes drv v.nextPacket).bytesWritten)
      (verdict : validate ((v.atPc .loop).takes.writes drv v.nextPacket).flash = some accepted) :
      SessionStep drv validate v
        ((((v.atPc .loop).takes.writes drv v.nextPacket).sendSingleByte
          (if accepted then blPacketUpdateSuccessfulData0 else blPacketNackData0)).withState .done)
  /-- the data packet that completes the image, and a validation that faults -/
  | lastChunkFault (h : v.pc = .dispatch) (state : v.bootloaderState = .receiveFw)
      (available : commsPacketAvailable v.comms = true) (ok : DataLengthOk v.nextPacket)
      (complete : v.firmwareLength ≤ ((v.atPc .loop).takes.writes drv v.nextPacket).bytesWritten)
      (fault : validate ((v.atPc .loop).takes.writes drv v.nextPacket).flash = none) :
      SessionStep drv validate v
        ((((v.atPc .loop).takes.writes drv v.nextPacket).shows [.faulted]).atPc .gone)
  /-- the `default` branch -/
  | unexpected (h : v.pc = .dispatch)
      (outside : v.bootloaderState = .sync ∨ v.bootloaderState = .done) :
      SessionStep drv validate v ((v.atPc .loop).withState .sync)
  /-- past the loop -/
  | left (obs : Obs) (h : v.pc = .loop) (ended : v.bootloaderState = .done)
      (way : (obs = .jumped ∧ validate v.flash = some true) ∨
        (obs = .wasReset ∧ validate v.flash = some false) ∨
        (obs = .faulted ∧ validate v.flash = none)) :
      SessionStep drv validate v ((v.shows [obs]).atPc .gone)

/-! ## Every step of the bootloader is one of these -/

section Refines

variable (drv : FlashDriver) (validate : Flash → Option Bool)

theorem checkForTimeout_session (s : Boot) :
    s.checkForTimeout.session = s.session ∨ s.checkForTimeout.session = s.session.fails := by
  unfold Boot.checkForTimeout
  by_cases elapsed : (simpleTimerHasElapsed s.tickCount s.timer).1 = true
  · exact .inr (by simp only [if_pos elapsed]; rfl)
  · exact .inl (by simp only [if_neg elapsed]; rfl)

theorem withPacket_available {s : Boot} (available : commsPacketAvailable s.comms = true)
    (handle : CommsPacket → Boot → Boot) : s.withPacket handle =
      handle s.session.nextPacket (s.afterComms (commsReceivePacket s.comms).2) :=
  if_pos available

theorem withPacket_empty {s : Boot} (empty : commsPacketAvailable s.comms = false)
    (handle : CommsPacket → Boot → Boot) : s.withPacket handle = s.checkForTimeout :=
  if_neg (Bool.eq_false_iff.mp empty)

/-- A waiting state handles the oldest packet, or has none and looks at the timer. -/
theorem withPacket_session (s : Boot) (handle : CommsPacket → Boot → Boot) :
    (commsPacketAvailable s.comms = true ∧ s.withPacket handle =
      handle s.session.nextPacket (s.afterComms (commsReceivePacket s.comms).2)) ∨
    (commsPacketAvailable s.comms = false ∧ ((s.withPacket handle).session = s.session ∨
      (s.withPacket handle).session = s.session.fails)) := by
  cases available : commsPacketAvailable s.comms with
  | true => exact .inl ⟨rfl, withPacket_available available handle⟩
  | false =>
    rw [withPacket_empty available]
    exact .inr ⟨rfl, checkForTimeout_session s⟩

theorem syncStep_session (s : Boot) (h : s.pc = .loop) (sync : s.bootloaderState = .sync) :
    SessionStep drv validate s.session s.syncStep.session := by
  unfold Boot.syncStep
  cases ringBufferRead s.rxRingBuffer with
  | mk read rx =>
    cases read with
    | none =>
      rcases checkForTimeout_session s with same | fails
      · show SessionStep drv validate s.session s.checkForTimeout.session
        rw [same]
        exact .syncIdle h sync
      · show SessionStep drv validate s.session s.checkForTimeout.session
        rw [fails]
        exact .syncTimeout h sync
    | some byte =>
      by_cases found :
        (⟨s.syncSeq.s1, s.syncSeq.s2, s.syncSeq.s3, byte⟩ : SyncSeq) = syncSequence
      · simp only [if_pos found]
        exact .syncMatch byte h sync found
      · simp only [if_neg found]
        rcases checkForTimeout_session _ with same | fails
        · rw [same]
          exact .syncByte byte h sync found
        · rw [fails]
          exact .syncByteTimeout byte h sync found

theorem flushStep_session (s : Boot) (h : s.pc = .flush) :
    SessionStep drv validate s.session s.flushStep.session := by
  unfold Boot.flushStep
  cases ringBufferRead s.rxRingBuffer with
  | mk read rx =>
    cases read with
    | none => exact .flushed h
    | some byte => exact .flushByte byte h

theorem updateStep_session (s : Boot) (h : s.pc = .update) :
    SessionStep drv validate s.session s.updateStep.session := by
  unfold Boot.updateStep
  cases ringBufferRead s.rxRingBuffer with
  | mk read rx =>
    cases read with
    | none => exact .drained h
    | some byte => exact .commsByte byte h

/-! ### The waiting states -/

section Waiting

variable {drv validate} {s : Boot} (h : s.pc = .dispatch)
include h

/-- A waiting state without a packet. -/
theorem idle_session {t : Boot} (waiting : s.bootloaderState.Waiting)
    (empty : commsPacketAvailable s.comms = false)
    (out : t.session = (s.atPc .loop).session ∨ t.session = (s.atPc .loop).session.fails) :
    SessionStep drv validate s.session t.session := by
  rcases out with same | fails
  · rw [same]
    exact .idle h waiting empty
  · rw [fails]
    exact .timeout h waiting empty

omit h in
theorem not_expected {state : BlState} {packet : CommsPacket} (hstate : s.bootloaderState = state)
    (wrong : ¬Expected state packet) : ¬Expected s.session.bootloaderState packet := by
  rw [show s.session.bootloaderState = state from hstate]
  exact wrong

theorem waitForFwUpdateReq_session (state : s.bootloaderState = .waitForFwUpdateReq) :
    SessionStep drv validate s.session (s.atPc .loop).waitForFwUpdateReq.session := by
  unfold Boot.waitForFwUpdateReq
  rcases withPacket_session (s.atPc .loop) _ with ⟨available, out⟩ | ⟨empty, out⟩
  · rw [out]
    split
    · next request => exact .fwUpdateReq h state available request
    · next request =>
      exact .refused s.firmwareLength h (.inl state) available
        (not_expected state request) (.inl rfl)
  · exact idle_session h (.inl state) empty out

theorem deviceIdRes_session (state : s.bootloaderState = .deviceIdRes) :
    SessionStep drv validate s.session (s.atPc .loop).deviceIdRes.session := by
  unfold Boot.deviceIdRes
  rcases withPacket_session (s.atPc .loop) _ with ⟨available, out⟩ | ⟨empty, out⟩
  · rw [out]
    split
    · next answer =>
      rw [Bool.and_eq_true, beq_iff_eq] at answer
      exact .deviceIdRes h state available answer.1 answer.2
    · next answer =>
      rw [Bool.and_eq_true, beq_iff_eq] at answer
      exact .refused s.firmwareLength h (.inr (.inl state)) available
        (not_expected state answer) (.inl rfl)
  · exact idle_session h (.inr (.inl state)) empty out

theorem fwLengthRes_session (state : s.bootloaderState = .fwLengthRes) :
    SessionStep drv validate s.session (s.atPc .loop).fwLengthRes.session := by
  unfold Boot.fwLengthRes
  rcases withPacket_session (s.atPc .loop) _ with ⟨available, out⟩ | ⟨empty, out⟩
  · rw [out]
    dsimp only
    split
    · next shape =>
      split
      · next fits => exact .fwLengthRes h state available shape fits
      · next long =>
        exact .refused (announcedLength s.session.nextPacket) h (.inr (.inr (.inl state))) available
          (not_expected state fun wanted => long wanted.2) (.inr state)
    · next shape =>
      exact .refused s.firmwareLength h (.inr (.inr (.inl state))) available
        (not_expected state fun wanted => shape wanted.1) (.inl rfl)
  · exact idle_session h (.inr (.inr (.inl state))) empty out

theorem receiveFw_session (state : s.bootloaderState = .receiveFw) :
    SessionStep drv validate s.session ((s.atPc .loop).receiveFw drv validate).session := by
  unfold Boot.receiveFw
  rcases withPacket_session (s.atPc .loop) _ with ⟨available, out⟩ | ⟨empty, out⟩
  · rw [out]
    dsimp only
    split
    · next ok =>
      split
      · next complete =>
        unfold Boot.reportVerdict
        split
        · next verdict => exact .lastChunk true h state available ok complete verdict
        · next verdict => exact .lastChunk false h state available ok complete verdict
        · next fault => exact .lastChunkFault h state available ok complete fault
      · next more => exact .chunk h state available ok (Nat.lt_of_not_le more)
    · next wrong =>
      exact .refused s.firmwareLength h (.inr (.inr (.inr state))) available
        (not_expected state wrong) (.inl rfl)
  · exact idle_session h (.inr (.inr (.inr state))) empty out

/-- The `switch`, state by state. -/
theorem switchState_session :
    SessionStep drv validate s.session ((s.atPc .loop).switchState drv validate).session := by
  unfold Boot.switchState
  cases state : s.bootloaderState with
  | sync => simpa only [Boot.atPc, state] using .unexpected h (.inl state)
  | waitForFwUpdateReq => simpa only [Boot.atPc, state] using waitForFwUpdateReq_session h state
  | deviceIdReq => simpa only [Boot.atPc, state] using .deviceIdReq h state
  | deviceIdRes => simpa only [Boot.atPc, state] using deviceIdRes_session h state
  | fwLengthReq => simpa only [Boot.atPc, state] using .fwLengthReq h state
  | fwLengthRes => simpa only [Boot.atPc, state] using fwLengthRes_session h state
  | eraseApplication => simpa only [Boot.atPc, state] using .erase h state
  | receiveFw => simpa only [Boot.atPc, state] using receiveFw_session h state
  | done => simpa only [Boot.atPc, state] using .unexpected h (.inr state)

end Waiting

theorem dispatch_session {s : Boot} (h : s.pc = .dispatch) :
    SessionStep drv validate s.session (bootStep drv validate s .main).session := by
  have moved : bootStep drv validate s .main = (s.atPc .loop).switchState drv validate := by
    rw [bootStep, Boot.mainStep, h]
  rw [moved]
  exact switchState_session h

theorem leave_session {s : Boot} (h : s.pc = .loop) (ended : s.bootloaderState = .done) :
    SessionStep drv validate s.session (s.leave validate).session := by
  unfold Boot.leave
  split
  · next verdict => exact .left .jumped h ended (.inl ⟨rfl, verdict⟩)
  · next verdict => exact .left .wasReset h ended (.inr (.inl ⟨rfl, verdict⟩))
  · next fault => exact .left .faulted h ended (.inr (.inr ⟨rfl, fault⟩))

/-- An event leaves the session alone, or it is a step of the main program and
does one of the listed things. -/
theorem bootStep_session (s : Boot) (e : BootEvent) :
    (bootStep drv validate s e).session = s.session ∨
      (e = .main ∧ SessionStep drv validate s.session (bootStep drv validate s e).session) := by
  cases e with
  | rx byte =>
    refine .inl ?_
    rw [bootStep]
    split <;> rfl
  | tick =>
    refine .inl ?_
    rw [bootStep]
    split <;> rfl
  | main =>
    unfold bootStep Boot.mainStep
    cases h : s.pc with
    | setup => exact .inr ⟨rfl, .start h⟩
    | loop =>
      refine .inr ⟨rfl, ?_⟩
      cases state : s.bootloaderState with
      | done => exact leave_session drv validate h state
      | sync => exact syncStep_session drv validate s h state
      | _ => exact .enter h ⟨by simp [Boot.session, state], by simp [Boot.session, state]⟩
    | flush => exact .inr ⟨rfl, flushStep_session drv validate s h⟩
    | update => exact .inr ⟨rfl, updateStep_session drv validate s h⟩
    | dispatch => exact .inr ⟨rfl, switchState_session h⟩
    | gone => exact .inl rfl

end Refines

end SecureBootloader
