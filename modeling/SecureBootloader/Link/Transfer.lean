import SecureBootloader.Boot.Arrival
import SecureBootloader.Link.Endpoints
import SecureBootloader.Updater.Chunk

/-!
# The transfer of a firmware image

The bootloader of `bootloader.c`, ticks included, and the host of `index.ts` from
its transfer loop on, over the wire of the link layer. A frame reaches the
bootloader while `comms_update` runs, byte after byte.
-/

namespace SecureBootloader

/-- The two programs and the frames in flight. -/
structure Transfer where
  boot : Boot
  host : Updater.Host
  toBoot : List Frame
  toHost : List Frame

/-- What can happen during a transfer. -/
inductive TransferEvent where
  | bootReads
  | bootMain
  | bootTick
  | hostReads
  | hostMain
  | hostTimeout
  | damage (party : Party) (i : Nat) (bytes : CommsPacket)

namespace Transfer

section Steps

variable (drv : FlashDriver) (validate : Flash → Option Bool)

/-- The bootloader goes through some events; what it sends goes on the wire. -/
def bootRuns (s : Transfer) (es : List BootEvent) : Transfer :=
  let boot := Lib.Run.run (bootStep drv validate) s.boot es
  { s with
    boot := boot
    toHost := s.toHost ++ (boot.trace.sent.drop s.boot.trace.sent.length).map .clean }

/-- What the host sends goes on the wire. -/
def hostDoes (s : Transfer) (r : Updater.Host × Trace) : Transfer :=
  { s with host := r.1, toBoot := s.toBoot ++ r.2.sent.map .clean }

/-- The next frame reaches the bootloader, if `comms_update` is running. -/
def bootReads (s : Transfer) : Transfer :=
  match s.toBoot with
  | [] => s
  | f :: toBoot =>
    if s.boot.pc = .update then
      { s with toBoot := toBoot }.bootRuns drv validate (arrivals f.wire.bytes)
    else s

/-- The next frame reaches the host. -/
def hostReads (s : Transfer) : Transfer :=
  match s.toHost with
  | [] => s
  | f :: toHost =>
    { s with toHost := toHost }.hostDoes (Updater.hostData s.host f.wire.bytes)

/-- Damage to the frame at place `i` on its way to a party. -/
def damage (s : Transfer) (i : Nat) (bytes : CommsPacket) : Party → Transfer
  | .host => { s with toHost := s.toHost.modify i (.damage bytes) }
  | .bootloader => { s with toBoot := s.toBoot.modify i (.damage bytes) }

end Steps

/-- The data packets on their way to the bootloader, as they would be read. -/
def inFlight (s : Transfer) : List CommsPacket :=
  (s.toBoot.map fun f => f.wire).filter fun packet => frameKind packet = .packet

/-- The packets RECEIVE_FW has accepted, those queued for it, and those in flight. -/
def delivered (s : Transfer) : List CommsPacket :=
  s.boot.trace.accepted ++ s.boot.comms.queue ++ s.inFlight

end Transfer

def transferStep (drv : FlashDriver) (validate : Flash → Option Bool) (s : Transfer) :
    TransferEvent → Transfer
  | .bootReads => s.bootReads drv validate
  | .bootMain => s.bootRuns drv validate [.main]
  | .bootTick => s.bootRuns drv validate [.tick]
  | .hostReads => s.hostReads
  | .hostMain => s.hostDoes (Updater.hostMain s.host)
  | .hostTimeout => { s with host := Updater.hostTimeout s.host }
  | .damage party i bytes => s.damage i bytes party

/-! ## The chunks of an image -/

/-- The data packets for an image. -/
def dataPackets (fwImage : List Byte) : List CommsPacket :=
  (List.range ((fwImage.length + 15) / 16)).map fun k => Updater.dataPacket fwImage (16 * k)

theorem dataPackets_getElem? {fwImage : List Byte} {k : Nat} (h : 16 * k < fwImage.length) :
    (dataPackets fwImage)[k]? = some (Updater.dataPacket fwImage (16 * k)) := by
  have inside : k < (fwImage.length + 15) / 16 := by omega
  rw [dataPackets, List.getElem?_map, List.getElem?_range inside]
  rfl

theorem chunk_size (fwImage : List Byte) (byteWritten : Nat) :
    ((fwImage.drop byteWritten).take 16).length = min 16 (fwImage.length - byteWritten) := by
  rw [List.length_take, List.length_drop]

/-- A chunk of two bytes is the last one. -/
theorem chunk_pair {fwImage : List Byte} {k : Nat} {b0 b1 : Byte}
    (pair : (fwImage.drop (16 * k)).take 16 = [b0, b1]) : fwImage.length % 16 = 2 ∧
      fwImage.length - 2 = 16 * k ∧ fwImage.drop (fwImage.length - 2) = [b0, b1] := by
  have size := chunk_size fwImage (16 * k)
  rw [pair, List.length_cons, List.length_singleton] at size
  have place : fwImage.length - 2 = 16 * k := by omega
  refine ⟨by omega, place, ?_⟩
  rw [place, ← pair, List.take_of_length_le (by rw [List.length_drop]; omega)]

/-- The data packet for the bytes from `byteWritten` on. -/
theorem dataPacket_eq (fwImage : List Byte) (byteWritten : Nat) :
    Updater.dataPacket fwImage byteWritten = chunkPacket ((fwImage.drop byteWritten).take 16) := by
  have slice : (fwImage.drop byteWritten).take (min 16 (fwImage.length - byteWritten)) =
      (fwImage.drop byteWritten).take 16 := by
    rw [List.take_eq_take_iff, List.length_drop]
    omega
  unfold chunkPacket
  rw [chunk_size, ← slice]
  rfl

/-- A chunk is the bytes of the image it was made from. -/
theorem chunkOf_dataPacket {fwImage : List Byte} {k : Nat} (h : 16 * k < fwImage.length) :
    chunkOf (Updater.dataPacket fwImage (16 * k)) = (fwImage.drop (16 * k)).take 16 := by
  rw [dataPacket_eq]
  refine chunkOf_chunkPacket ?_ (List.length_take_le ..)
  rw [chunk_size]
  omega

/-- The first packets of an image carry its first bytes. -/
theorem payload_take (fwImage : List Byte) {m : Nat} (h : m ≤ (fwImage.length + 15) / 16) :
    ((dataPackets fwImage).take m).flatMap chunkOf = fwImage.take (16 * m) := by
  induction m with
  | zero => rfl
  | succ m ih =>
    have inside : 16 * m < fwImage.length := by omega
    rw [List.take_add_one, dataPackets_getElem? inside, List.flatMap_append, ih (by omega),
      Nat.mul_succ, List.take_add, ← chunkOf_dataPacket inside]
    simp

theorem payload_prefix {fwImage : List Byte} {packets : List CommsPacket}
    (h : packets <+: dataPackets fwImage) : packets.flatMap chunkOf <+: fwImage := by
  have most := h.length_le
  rw [dataPackets, List.length_map, List.length_range] at most
  rw [List.prefix_iff_eq_take.mp h, payload_take fwImage most]
  exact List.take_prefix _ _

end SecureBootloader
