import SecureBootloader.Updater.Packet

/-!
# The receive handler and the transfer of `index.ts`

The handler runs on every `data` event and the transfer between two of them, so
a step of one is never inside a step of the other.
-/

namespace SecureBootloader.Updater

/-- `PACKET_LENGTH`. -/
def packetLength : Nat := 18

/-- `PACKET_DATA_BYTES`. -/
def packetDataBytes : Nat := 16

/-- The state of the receive handler. -/
structure HostLink where
  rxBuffer : List Byte
  packets : List CommsPacket
  lastPacket : CommsPacket
  deriving DecidableEq, Repr

/-- `writePacket`. -/
def writePacket (h : HostLink) (packet : CommsPacket) : HostLink × Trace :=
  ({ h with lastPacket := packet }, [.sent packet])

/-- `new Packet(raw[0], raw.slice(1, 17), raw[17])`. -/
def ofRaw (raw : List Byte) : CommsPacket :=
  newPacket (raw.getD 0 0) ((raw.drop 1).take packetDataBytes) (some (raw.getD 17 0))

/-- What the handler does with a complete packet. -/
def handlePacket (h : HostLink) (packet : CommsPacket) : HostLink × Trace :=
  if packet.crc.toNat ≠ computeCrc packet then writePacket h retx
  else if isRetx packet then writePacket h h.lastPacket
  else if isAck packet then (h, [])
  else
    let (acked, obs) := writePacket { h with packets := h.packets ++ [packet] } ack
    (acked, .stored packet :: obs)

/-- The loop of the handler, for `fuel` turns. -/
def handleLoop : Nat → HostLink → HostLink × Trace
  | 0, h => (h, [])
  | fuel + 1, h =>
    if h.rxBuffer.length < packetLength then (h, [])
    else
      let raw := h.rxBuffer.take packetLength
      let consumed := { h with rxBuffer := h.rxBuffer.drop packetLength }
      let (handled, obs) := handlePacket consumed (ofRaw raw)
      let (done, obs') := handleLoop fuel handled
      (done, obs ++ obs')

/-- `uart.on('data')`. -/
def onData (h : HostLink) (data : List Byte) : HostLink × Trace :=
  let received := { h with rxBuffer := h.rxBuffer ++ data }
  handleLoop (received.rxBuffer.length / packetLength) received

/-- Where `main` stands: in the transfer loop, waiting for the verdict, or over. -/
inductive HostPhase where
  | transfer
  | validation
  | finished
  | exited
  deriving DecidableEq, Repr

/-- The host from the transfer loop on. -/
structure Host where
  link : HostLink
  fwImage : List Byte
  byteWritten : Nat
  phase : HostPhase
  deriving DecidableEq, Repr

/-- The data packet for the bytes of the image from `byteWritten` on. -/
def dataPacket (fwImage : List Byte) (byteWritten : Nat) : CommsPacket :=
  -- the length byte is one less than the number of bytes
  let chunkSize := min packetDataBytes (fwImage.length - byteWritten)
  newPacket (BitVec.ofNat 8 (chunkSize - 1)) ((fwImage.drop byteWritten).take chunkSize) none

/-- The loop body once a READY_FOR_DATA is there. -/
def sendChunk (h : Host) : Host × Trace :=
  let (link, obs) := writePacket h.link (dataPacket h.fwImage h.byteWritten)
  ({ h with
    link := link
    byteWritten := h.byteWritten + min packetDataBytes (h.fwImage.length - h.byteWritten) }, obs)

/-- `main` goes on as far as it gets with the packets there are: `packets.shift()`
in `waitForPacket`, and what follows. -/
def hostMain (h : Host) : Host × Trace :=
  match h.phase with
  | .transfer =>
    if h.byteWritten < h.fwImage.length then
      match h.link.packets with
      | [] => (h, [])
      | packet :: packets =>
        let h := { h with link := { h.link with packets := packets } }
        -- the padding is not looked at here
        if packet.length ≠ 1 ∨ packet.dataAt 0 ≠ blPacketReadyForDataData0 then
          ({ h with phase := .exited }, [])
        else sendChunk h
    else ({ h with phase := .validation }, [])
  | .validation =>
    match h.link.packets with
    | [] => (h, [])
    | packet :: packets =>
      let h := { h with link := { h.link with packets := packets } }
      if isSingleBytePacket packet blPacketUpdateSuccessfulData0 then
        ({ h with phase := .finished }, [])
      else ({ h with phase := .exited }, [])
  | .finished => (h, [])
  | .exited => (h, [])

/-- `waitForPacket` gives up: after its last `delay(1)` it does not look at the queue again. -/
def hostTimeout (h : Host) : Host :=
  match h.phase with
  | .transfer => if h.byteWritten < h.fwImage.length then { h with phase := .exited } else h
  | .validation => { h with phase := .exited }
  | _ => h

/-- A `data` event. After the end of `main` the port is closed. -/
def hostData (h : Host) (data : List Byte) : Host × Trace :=
  match h.phase with
  | .finished => (h, [])
  | .exited => (h, [])
  | _ =>
    let (link, obs) := onData h.link data
    ({ h with link := link }, obs)

/-- The number of chunks sent. -/
def Host.chunksSent (h : Host) : Nat := (h.byteWritten + 15) / 16

/-- The port is open. -/
def Host.Listening (h : Host) : Prop := h.phase = .transfer ∨ h.phase = .validation

/-- The transfer loop has a READY_FOR_DATA and something left to send. -/
def Host.ReadyToSend (h : Host) : Prop :=
  h.phase = .transfer ∧ h.byteWritten < h.fwImage.length ∧
    ∃ packet ∈ h.link.packets.head?,
      packet.length = 1 ∧ packet.dataAt 0 = blPacketReadyForDataData0

end SecureBootloader.Updater
