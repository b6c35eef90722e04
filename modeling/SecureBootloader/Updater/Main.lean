import SecureBootloader.Shared.FirmwareInfo
import SecureBootloader.Updater.Host

/-!
# `main` of `index.ts` behind the synchronisation

The update request and the two answers, each behind the packet it waits for, then the
transfer loop. The receive buffer has just been cleared when this begins.
-/

namespace SecureBootloader.Updater

/-- `FWINFO_DEVICE_ID_OFFSET`. -/
def fwinfoDeviceIdOffset : Nat := 0x01B0 + 1 * 4

/-- What `main` does next: send the request, wait for one of the three packets of the
handshake, or what the transfer does. -/
inductive MainStage where
  | fwUpdateReq
  | fwUpdateRes
  | deviceIdReq
  | fwLengthReq
  | fwData
  deriving DecidableEq, Repr

/-- The host from the update request on. Until the transfer its phase is `transfer`, with
nothing written, or `exited`. -/
structure MainState where
  stage : MainStage
  host : Host
  deriving DecidableEq, Repr

/-- `fwUpdateReqPacket`. -/
def fwUpdateReqPacket : CommsPacket := newPacket 1 [blPacketFwUpdateReqData0] none

/-- `devIDPacket`. Behind the end of the image there is `undefined`, which
`Buffer.from` makes a zero. -/
def devIDPacket (fwImage : List Byte) : CommsPacket :=
  newPacket 2 [blPacketDeviceIdResData0, fwImage.getD fwinfoDeviceIdOffset 0] none

/-- `fwLengthPacket`. `writeUInt32LE` takes lengths below 2^32. -/
def fwLengthPacket (fwImage : List Byte) : CommsPacket :=
  newPacket 5 (blPacketFwLengthResData0 :: (List.range 4).map (leByte fwImage.length)) none

namespace MainState

/-- `process.exit(1)`. -/
def exits (m : MainState) : MainState := { m with host := { m.host with phase := .exited } }

/-- `writePacket`, and on to the next wait. -/
def sends (m : MainState) (packet : CommsPacket) (next : MainStage) : MainState × Trace :=
  let (link, obs) := writePacket m.host.link packet
  ({ stage := next, host := { m.host with link := link } }, obs)

/-- `waitForSingleBytePacket`, and what follows it. -/
def awaits (m : MainState) (byte : Byte) (follow : MainState → MainState × Trace) :
    MainState × Trace :=
  match m.host.link.packets with
  | [] => (m, [])
  | packet :: packets =>
    let m := { m with host := { m.host with link := { m.host.link with packets := packets } } }
    if packet.length ≠ 1 ∨ packet.dataAt 0 ≠ byte then (m.exits, [])
    else follow m

end MainState

/-- `main` goes on to its next wait, if the packet it waits for is there. -/
def mainStep (m : MainState) : MainState × Trace :=
  if m.host.phase = .exited then (m, [])
  else
    match m.stage with
    | .fwUpdateReq => m.sends fwUpdateReqPacket .fwUpdateRes
    | .fwUpdateRes =>
      m.awaits blPacketFwUpdateResData0 fun m => ({ m with stage := .deviceIdReq }, [])
    | .deviceIdReq =>
      m.awaits blPacketDeviceIdReqData0 fun m => m.sends (devIDPacket m.host.fwImage) .fwLengthReq
    | .fwLengthReq =>
      m.awaits blPacketFwLengthReqData0 fun m => m.sends (fwLengthPacket m.host.fwImage) .fwData
    | .fwData =>
      let (host, obs) := hostMain m.host
      ({ m with host := host }, obs)

/-- `waitForPacket` gives up. -/
def mainTimeout (m : MainState) : MainState :=
  match m.stage with
  | .fwUpdateReq => m
  | .fwUpdateRes | .deviceIdReq | .fwLengthReq => m.exits
  | .fwData => { m with host := hostTimeout m.host }

/-- A `data` event. -/
def mainData (m : MainState) (data : List Byte) : MainState × Trace :=
  let (host, obs) := hostData m.host data
  ({ m with host := host }, obs)

end SecureBootloader.Updater
