import SecureBootloader.Updater.Receive

/-!
# What the receivers take their frames for

Both receivers once more, with a record of the branch that each complete frame
goes through. Without the record they are the receivers of `comms.c` and of
`index.ts`; with it they can be compared with the format.
-/

namespace SecureBootloader

/-- What a receiver takes a complete frame for. -/
inductive FrameEvent where
  /-- the CRC does not match -/
  | corrupt
  /-- the canonical RETX -/
  | retx
  /-- the canonical ACK -/
  | ack
  /-- an accepted packet, with its length byte and its data -/
  | packet (length : Byte) (data : Vector Byte 16)
  deriving DecidableEq, Repr

/-- The packet is accepted as it is. -/
def FrameEvent.ofPacket (packet : CommsPacket) : FrameEvent := .packet packet.length packet.data

/-- What the format says a frame is. -/
def referenceEvent (frame : CommsPacket) : FrameEvent :=
  let checked := frame.bytes.take 17
  if crc8Compute checked ≠ frame.crc then .corrupt
  else if checked = 1 :: 0x19 :: List.replicate 15 0xff then .retx
  else if checked = 1 :: 0x15 :: List.replicate 15 0xff then .ack
  else .packet frame.length frame.data

/-- What the format says a stream is: its consecutive frames, one by one. -/
def referenceEvents (bytes : List Byte) : List FrameEvent := (framesOf bytes).map referenceEvent

/-! ## `comms_update` with its record -/

/-- `commsHandlePacket` and the branch it takes. -/
def commsHandlePacketEvent (c : Comms) : (Comms × Trace) × FrameEvent :=
  let packet := c.currentTempPacket
  if commsCalculateCrc packet = packet.crc then
    if commsIsSingleBytePacket packet packetRetxData0 then
      (commsSendPacket c c.lastTransmittedPacket, .retx)
    else if commsIsSingleBytePacket packet packetAckData0 then ((c, []), .ack)
    else (commsStorePacket c, .packet packet.length packet.data)
  else (commsSendPacket c retxPacket, .corrupt)

/-- `commsUpdateByte` and the frame that the byte completes. -/
def commsUpdateByteEvents (c : Comms) (byte : Byte) : (Comms × Trace) × List FrameEvent :=
  match c.currentState with
  | .length => (commsUpdateByte c byte, [])
  | .data => (commsUpdateByte c byte, [])
  | .crc =>
    let (handled, event) := commsHandlePacketEvent
      { c with currentTempPacket := { c.currentTempPacket with crc := byte } }
    (({ handled.1 with currentState := .length }, handled.2), [event])

/-- The loop of `comms_update` over the bytes there are. -/
def commsUpdateEvents : Comms → List Byte → (Comms × Trace) × List FrameEvent
  | c, [] => ((c, []), [])
  | c, byte :: bytes =>
    let (updated, events) := commsUpdateByteEvents c byte
    let (done, events') := commsUpdateEvents updated.1 bytes
    ((done.1, updated.2 ++ done.2), events ++ events')

/-- Without the record it is `comms_update`. -/
theorem commsHandlePacketEvent_erase (c : Comms) :
    (commsHandlePacketEvent c).1 = commsHandlePacket c := by
  unfold commsHandlePacketEvent commsHandlePacket
  dsimp only
  split
  · split
    · rfl
    · split <;> rfl
  · rfl

theorem commsUpdateByteEvents_erase (c : Comms) (byte : Byte) :
    (commsUpdateByteEvents c byte).1 = commsUpdateByte c byte := by
  unfold commsUpdateByteEvents
  cases state : c.currentState with
  | length => rfl
  | data => rfl
  | crc =>
    dsimp only
    rw [commsHandlePacketEvent_erase, commsUpdateByte, state]

theorem commsUpdateEvents_erase (c : Comms) (bytes : List Byte) :
    (commsUpdateEvents c bytes).1 = commsUpdateBytes c bytes := by
  induction bytes generalizing c with
  | nil => rfl
  | cons byte bytes ih =>
    rw [commsUpdateEvents, commsUpdateBytes]
    dsimp only
    rw [ih, commsUpdateByteEvents_erase]

/-! ## The receive handler with its record -/

namespace Updater

/-- `handlePacket` and the branch it takes. -/
def handlePacketEvent (h : HostLink) (packet : CommsPacket) : (HostLink × Trace) × FrameEvent :=
  if packet.crc.toNat ≠ computeCrc packet then (writePacket h retx, .corrupt)
  else if isRetx packet then (writePacket h h.lastPacket, .retx)
  else if isAck packet then ((h, []), .ack)
  else
    let (acked, obs) := writePacket { h with packets := h.packets ++ [packet] } ack
    ((acked, .stored packet :: obs), .packet packet.length packet.data)

/-- The loop of the handler, for `fuel` turns, and the frames it handles. -/
def handleLoopEvents : Nat → HostLink → (HostLink × Trace) × List FrameEvent
  | 0, h => ((h, []), [])
  | fuel + 1, h =>
    if h.rxBuffer.length < packetLength then ((h, []), [])
    else
      let raw := h.rxBuffer.take packetLength
      let consumed := { h with rxBuffer := h.rxBuffer.drop packetLength }
      let (handled, event) := handlePacketEvent consumed (ofRaw raw)
      let (done, events) := handleLoopEvents fuel handled.1
      ((done.1, handled.2 ++ done.2), event :: events)

/-- `onData` and the frames it handles. -/
def onDataEvents (h : HostLink) (data : List Byte) : (HostLink × Trace) × List FrameEvent :=
  let received := { h with rxBuffer := h.rxBuffer ++ data }
  handleLoopEvents (received.rxBuffer.length / packetLength) received

/-- Without the record it is the handler. -/
theorem handlePacketEvent_erase (h : HostLink) (packet : CommsPacket) :
    (handlePacketEvent h packet).1 = handlePacket h packet := by
  unfold handlePacketEvent handlePacket
  split
  · rfl
  · split
    · rfl
    · split <;> rfl

theorem handleLoopEvents_erase (fuel : Nat) (h : HostLink) :
    (handleLoopEvents fuel h).1 = handleLoop fuel h := by
  induction fuel generalizing h with
  | zero => rfl
  | succ fuel ih =>
    rw [handleLoopEvents, handleLoop]
    split
    · rfl
    · dsimp only
      rw [ih, handlePacketEvent_erase]

theorem onDataEvents_erase (h : HostLink) (data : List Byte) :
    (onDataEvents h data).1 = onData h data := handleLoopEvents_erase _ _

end Updater

/-! ## Both follow the format -/

/-- The tests of both receivers are those of the format. -/
theorem commsHandlePacketEvent_event (c : Comms) :
    (commsHandlePacketEvent c).2 = referenceEvent c.currentTempPacket := by
  unfold commsHandlePacketEvent referenceEvent commsCalculateCrc
  have retx := commsIsSingleBytePacket_iff c.currentTempPacket packetRetxData0
  have ack := commsIsSingleBytePacket_iff c.currentTempPacket packetAckData0
  unfold packetRetxData0 packetAckData0 at *
  dsimp only
  simp only [retx, ack, ite_not, c.currentTempPacket.take_bytes]
  split
  · split
    · rfl
    · split <;> rfl
  · rfl

theorem Updater.handlePacketEvent_event (h : HostLink) (packet : CommsPacket) :
    (handlePacketEvent h packet).2 = referenceEvent packet := by
  have check : packet.crc.toNat = computeCrc packet ↔
      crc8Compute (packet.bytes.take 17) = packet.crc := by
    rw [computeCrc_eq, commsCalculateCrc, packet.take_bytes, BitVec.toNat_inj, eq_comm]
  have retx := commsIsSingleBytePacket_iff packet SecureBootloader.packetRetxData0
  have ack := commsIsSingleBytePacket_iff packet SecureBootloader.packetAckData0
  unfold handlePacketEvent referenceEvent
  rw [isRetx_eq, isAck_eq]
  unfold SecureBootloader.packetRetxData0 SecureBootloader.packetAckData0 at *
  dsimp only
  simp only [retx, ack, ne_eq, check]
  split
  · rfl
  · split
    · rfl
    · split <;> rfl

end SecureBootloader
