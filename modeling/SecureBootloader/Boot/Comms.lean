import SecureBootloader.Boot.Packet
import SecureBootloader.Lib.Resend

/-!
# `comms.c`

The framing state machine and the packet queue. `commsUpdateByte` is the body of
the loop of `comms_update` for one byte read. After a `BKPT` the functions go on
as they do under a debugger that continues; a processor that stops there is a
run without further steps.
-/

namespace SecureBootloader

/-- `comms_state_t`. -/
inductive CommsState where
  | length
  | data
  | crc
  deriving DecidableEq, Repr

/-- `PACKET_BUFFER_LENGTH`. -/
def packetBufferLength : Nat := 8

/-- `packet_buffer_mask`. -/
def packetBufferMask : Nat := packetBufferLength - 1

/-- The static variables of `comms.c`. -/
structure Comms where
  currentState : CommsState
  dataByteCount : Nat
  currentTempPacket : CommsPacket
  lastTransmittedPacket : CommsPacket
  incomingPacketBuffer : Vector CommsPacket 8
  packetReadIndex : Nat
  packetWriteIndex : Nat
  deriving DecidableEq, Repr

/-- Their initial values. -/
def commsInit : Comms where
  currentState := .length
  dataByteCount := 0
  currentTempPacket := .zero
  lastTransmittedPacket := .zero
  incomingPacketBuffer := Vector.replicate 8 .zero
  packetReadIndex := 0
  packetWriteIndex := 0

/-- `comms_send_packet`. -/
def commsSendPacket (c : Comms) (packet : CommsPacket) : Comms × Trace :=
  ({ c with lastTransmittedPacket := packet }, [.sent packet])

/-- The queue part of COMMS_STATE_CRC: store the packet and acknowledge it. -/
def commsStorePacket (c : Comms) : Comms × Trace :=
  let nextWriteIndex := (c.packetWriteIndex + 1) &&& packetBufferMask
  -- the breakpoint does not keep the packet from being stored
  let full : Trace := if nextWriteIndex = c.packetReadIndex then [.overrun] else []
  let stored := { c with
    incomingPacketBuffer :=
      c.incomingPacketBuffer.setIfInBounds c.packetWriteIndex c.currentTempPacket
    packetWriteIndex := nextWriteIndex }
  let (acked, obs) := commsSendPacket stored ackPacket
  (acked, full ++ .stored c.currentTempPacket :: obs)

/-- COMMS_STATE_CRC once the CRC byte is read. -/
def commsHandlePacket (c : Comms) : Comms × Trace :=
  let packet := c.currentTempPacket
  if commsCalculateCrc packet = packet.crc then
    if commsIsSingleBytePacket packet packetRetxData0 then
      commsSendPacket c c.lastTransmittedPacket
    else if commsIsSingleBytePacket packet packetAckData0 then (c, [])
    else commsStorePacket c
  else commsSendPacket c retxPacket

/-- One turn of the loop of `comms_update`. -/
def commsUpdateByte (c : Comms) (byte : Byte) : Comms × Trace :=
  match c.currentState with
  | .length =>
    ({ c with
      currentTempPacket := { c.currentTempPacket with length := byte }
      currentState := .data }, [])
  | .data =>
    let data := c.currentTempPacket.data.setIfInBounds c.dataByteCount byte
    let packet := { c.currentTempPacket with data := data }
    -- `data_byte_count` is a `uint8_t`
    let count := (c.dataByteCount + 1) % 2 ^ 8
    if packetDataLength ≤ count then
      ({ c with currentTempPacket := packet, dataByteCount := 0, currentState := .crc }, [])
    else ({ c with currentTempPacket := packet, dataByteCount := count }, [])
  | .crc =>
    let (handled, obs) := commsHandlePacket
      { c with currentTempPacket := { c.currentTempPacket with crc := byte } }
    ({ handled with currentState := .length }, obs)

/-- `comms_packet_available`. -/
def commsPacketAvailable (c : Comms) : Bool := c.packetReadIndex != c.packetWriteIndex

/-- `comms_receive_packet`: the packet, the variables after it, and what it shows. -/
def commsReceivePacket (c : Comms) : CommsPacket × Comms × Trace :=
  let empty : Trace := if commsPacketAvailable c then [] else [.underrun]
  let packet := c.incomingPacketBuffer.toList.getD c.packetReadIndex .zero
  (packet, { c with packetReadIndex := (c.packetReadIndex + 1) &&& packetBufferMask },
    empty ++ [.taken packet])

/-! ## What a frame is, and what it makes the receiver do -/

/-- What a receiver takes 18 bytes for. -/
abbrev FrameKind := Lib.Resend.Kind

/-- The classification both receivers make. -/
def frameKind (packet : CommsPacket) : FrameKind :=
  if commsCalculateCrc packet = packet.crc then
    if commsIsSingleBytePacket packet packetRetxData0 then .retx
    else if commsIsSingleBytePacket packet packetAckData0 then .ack
    else .packet
  else .corrupt

theorem frameKind_retxPacket : frameKind retxPacket = .retx := by decide +kernel

theorem frameKind_ackPacket : frameKind ackPacket = .ack := by decide +kernel

/-- The link layer of the repository: its control packets, and how they are told apart. -/
def commsCodec : Lib.Resend.Codec CommsPacket where
  kind := frameKind
  retx := retxPacket
  ack := ackPacket
  kind_retx := frameKind_retxPacket

theorem commsHandlePacket_eq (c : Comms) :
    commsHandlePacket c =
      match frameKind c.currentTempPacket with
      | .corrupt => commsSendPacket c retxPacket
      | .retx => commsSendPacket c c.lastTransmittedPacket
      | .ack => (c, [])
      | .packet => commsStorePacket c := by
  unfold commsHandlePacket frameKind
  by_cases intact : commsCalculateCrc c.currentTempPacket = c.currentTempPacket.crc
  · by_cases retx : commsIsSingleBytePacket c.currentTempPacket packetRetxData0 = true
    · simp [intact, retx]
    · by_cases ack : commsIsSingleBytePacket c.currentTempPacket packetAckData0 = true
      · simp [intact, retx, ack]
      · simp [intact, retx, ack]
  · simp [intact]

/-- What storing a packet shows. -/
theorem commsStorePacket_trace (c : Comms) :
    (commsStorePacket c).2 =
      (if (c.packetWriteIndex + 1) &&& packetBufferMask = c.packetReadIndex then [.overrun]
        else []) ++ [.stored c.currentTempPacket, .sent ackPacket] := rfl

/-- A byte is silent, makes the link answer, or stores a packet and acknowledges it. -/
theorem commsUpdateByte_trace (c : Comms) (byte : Byte) :
    (commsUpdateByte c byte).2 = [] ∨ (∃ packet, (commsUpdateByte c byte).2 = [.sent packet]) ∨
      ∃ packet, (commsUpdateByte c byte).2 = [.stored packet, .sent ackPacket] ∨
        (commsUpdateByte c byte).2 = [.overrun, .stored packet, .sent ackPacket] := by
  unfold commsUpdateByte
  cases c.currentState with
  | length => exact .inl rfl
  | data =>
    dsimp only
    split
    · exact .inl rfl
    · exact .inl rfl
  | crc =>
    dsimp only
    rw [commsHandlePacket_eq]
    cases frameKind { c.currentTempPacket with crc := byte } with
    | corrupt => exact .inr (.inl ⟨_, rfl⟩)
    | retx => exact .inr (.inl ⟨_, rfl⟩)
    | ack => exact .inl rfl
    | packet =>
      refine .inr (.inr ⟨{ c.currentTempPacket with crc := byte }, ?_⟩)
      dsimp only
      rw [commsStorePacket_trace]
      split
      · exact .inr rfl
      · exact .inl rfl

theorem commsUpdateByte_quiet (c : Comms) (byte : Byte) :
    (commsUpdateByte c byte).2.taken = [] ∧ (commsUpdateByte c byte).2.flashOps = [] ∧
      (commsUpdateByte c byte).2.accepted = [] := by
  rcases commsUpdateByte_trace c byte with h | ⟨p, h⟩ | ⟨p, h | h⟩ <;> rw [h] <;>
    exact ⟨rfl, rfl, rfl⟩

theorem commsReceivePacket_trace {c : Comms} (available : commsPacketAvailable c = true) :
    (commsReceivePacket c).2.2 = [.taken (commsReceivePacket c).1] := by
  simp [commsReceivePacket, available]

end SecureBootloader
