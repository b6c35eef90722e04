import SecureBootloader.Shared.Crc

/-!
# Packets and what a run shows

`comms_packet_t`, the packet constants of `comms.h`, and the observations a run
of the bootloader leaves behind.
-/

namespace SecureBootloader

/-! ## Packets -/

/-- `comms_packet_t`. -/
structure CommsPacket where
  length : Byte
  data : Vector Byte 16
  crc : Byte
  deriving DecidableEq, Repr

/-- `PACKET_DATA_LENGTH`. -/
def packetDataLength : Nat := 16

/-- `PACKET_RETX_DATA0`. -/
def packetRetxData0 : Byte := 0x19

/-- `PACKET_ACK_DATA0`. -/
def packetAckData0 : Byte := 0x15

/-- `BL_PACKET_SYNC_OBSERVED_DATA0`. -/
def blPacketSyncObservedData0 : Byte := 0x20

/-- `BL_PACKET_FW_UPDATE_REQ_DATA0`. -/
def blPacketFwUpdateReqData0 : Byte := 0x31

/-- `BL_PACKET_FW_UPDATE_RES_DATA0`. -/
def blPacketFwUpdateResData0 : Byte := 0x37

/-- `BL_PACKET_DEVICE_ID_REQ_DATA0`. -/
def blPacketDeviceIdReqData0 : Byte := 0x3C

/-- `BL_PACKET_DEVICE_ID_RES_DATA0`. -/
def blPacketDeviceIdResData0 : Byte := 0x3F

/-- `BL_PACKET_FW_LENGTH_REQ_DATA0`. -/
def blPacketFwLengthReqData0 : Byte := 0x42

/-- `BL_PACKET_FW_LENGTH_RES_DATA0`. -/
def blPacketFwLengthResData0 : Byte := 0x45

/-- `BL_PACKET_READY_FOR_DATA_DATA0`. -/
def blPacketReadyForDataData0 : Byte := 0x48

/-- `BL_PACKET_UPDATE_SUCCESSFUL_DATA0`. -/
def blPacketUpdateSuccessfulData0 : Byte := 0x54

/-- `BL_PACKET_NACK_DATA0`. -/
def blPacketNackData0 : Byte := 0x59

namespace CommsPacket

/-- The 18 bytes of the structure, as `uart_write` sends them. -/
def bytes (packet : CommsPacket) : List Byte :=
  packet.length :: packet.data.toList ++ [packet.crc]

@[simp] theorem bytes_length (packet : CommsPacket) : packet.bytes.length = 18 := by
  simp [bytes]

/-- `data[i]`, for `i` below 16. -/
def dataAt (packet : CommsPacket) (i : Nat) : Byte := packet.data.toList.getD i 0

theorem getElem_data {packet : CommsPacket} {i : Nat} (h : i < packet.data.toList.length) :
    packet.data.toList[i] = packet.dataAt i := by
  rw [dataAt, List.getD_eq_getElem?_getD, List.getElem?_eq_getElem h]
  rfl

/-- The all-zero packet the static variables start with. -/
def zero : CommsPacket := ⟨0, Vector.replicate 16 0, 0⟩

end CommsPacket

/-- `comms_calculate_crc`. -/
def commsCalculateCrc (packet : CommsPacket) : Byte :=
  crc8Compute (packet.length :: packet.data.toList)

/-- `comms_is_single_byte_packet`. -/
def commsIsSingleBytePacket (packet : CommsPacket) (byte : Byte) : Bool :=
  if packet.length ≠ 1 then false
  else if packet.dataAt 0 ≠ byte then false
  else (packet.data.toList.drop 1).all (· == 0xff)

/-- A frame without its CRC byte. -/
theorem CommsPacket.take_bytes (packet : CommsPacket) :
    packet.bytes.take 17 = packet.length :: packet.data.toList := by
  rw [CommsPacket.bytes, List.take_append_of_le_length (by simp), List.take_of_length_le (by simp)]

/-- The test for a control packet compares all its bytes. -/
theorem commsIsSingleBytePacket_iff (packet : CommsPacket) (byte : Byte) :
    commsIsSingleBytePacket packet byte = true ↔
      packet.bytes.take 17 = 1 :: byte :: List.replicate 15 0xff := by
  rw [packet.take_bytes]
  unfold commsIsSingleBytePacket
  have size : packet.data.toList.length = 16 := by simp
  unfold CommsPacket.dataAt
  generalize packet.data.toList = data at size
  cases data with
  | nil => exact absurd size (by decide)
  | cons first rest =>
    rw [List.length_cons] at size
    have padding : rest.all (· == 0xff) = true ↔ rest = List.replicate 15 0xff := by
      rw [List.all_eq_true, List.eq_replicate_iff]
      simp only [beq_iff_eq]
      exact ⟨fun h => ⟨Nat.succ.inj size, h⟩, fun h => h.2⟩
    rw [List.cons.injEq, List.cons.injEq, ← padding]
    simp

/-- `comms_create_single_byte_packet`. -/
def commsCreateSingleBytePacket (byte : Byte) : CommsPacket :=
  let packet : CommsPacket := ⟨1, (Vector.replicate 16 0xff).set 0 byte, 0xff⟩
  { packet with crc := commsCalculateCrc packet }

/-- `retx_packet` after `comms_setup`. -/
def retxPacket : CommsPacket := commsCreateSingleBytePacket packetRetxData0

/-- `ack_packet` after `comms_setup`. -/
def ackPacket : CommsPacket := commsCreateSingleBytePacket packetAckData0

/-- A packet with `payload` in front, `length` to match and 0xFF behind. -/
def Canonical (packet : CommsPacket) (payload : List Byte) : Prop :=
  packet.length.toNat = payload.length ∧
    packet.data.toList = payload ++ List.replicate (16 - payload.length) 0xff

/-! ## Observations -/

/-- What a run shows, in the order it happens. -/
inductive Obs where
  /-- a byte read by the SYNC state -/
  | syncByte (byte : Byte)
  /-- a byte thrown away by the flush after the sync sequence -/
  | flushByte (byte : Byte)
  /-- a byte read by `comms_update` -/
  | commsByte (byte : Byte)
  /-- `comms_update` is about to store a packet into a full queue -/
  | overrun
  /-- `comms_update` stored the packet -/
  | stored (packet : CommsPacket)
  /-- `comms_receive_packet` was called on an empty queue -/
  | underrun
  /-- `comms_receive_packet` returned the packet -/
  | taken (packet : CommsPacket)
  /-- `comms_send_packet` wrote the packet -/
  | sent (packet : CommsPacket)
  /-- `bl_flash_erase_main_application` -/
  | erased
  /-- RECEIVE_FW accepted the packet as firmware data -/
  | accepted (packet : CommsPacket)
  /-- `bl_flash_write` -/
  | programmed (address : Nat) (data : List Byte)
  /-- a load of `validate_fw_image` faulted -/
  | faulted
  /-- `jump_to_main_app` -/
  | jumped
  /-- `scb_reset_core` -/
  | wasReset
  deriving DecidableEq, Repr

abbrev Trace := List Obs

def Obs.commsByte? : Obs → Option Byte
  | .commsByte byte => some byte
  | _ => none

def Obs.stored? : Obs → Option CommsPacket
  | .stored packet => some packet
  | _ => none

def Obs.taken? : Obs → Option CommsPacket
  | .taken packet => some packet
  | _ => none

def Obs.sent? : Obs → Option CommsPacket
  | .sent packet => some packet
  | _ => none

def Obs.accepted? : Obs → Option CommsPacket
  | .accepted packet => some packet
  | _ => none

/-- Does it erase or program? -/
def Obs.modifiesFlash : Obs → Bool
  | .erased => true
  | .programmed _ _ => true
  | _ => false

namespace Trace

/-- The bytes read by `comms_update`. -/
def commsBytes (t : Trace) : List Byte := t.filterMap Obs.commsByte?

/-- The packets `comms_update` stored and acknowledged. -/
def stored (t : Trace) : List CommsPacket := t.filterMap Obs.stored?

/-- The packets `comms_receive_packet` returned. -/
def taken (t : Trace) : List CommsPacket := t.filterMap Obs.taken?

/-- The packets written to the UART. -/
def sent (t : Trace) : List CommsPacket := t.filterMap Obs.sent?

/-- The packets accepted as firmware data. -/
def accepted (t : Trace) : List CommsPacket := t.filterMap Obs.accepted?

/-- The erase and program operations. -/
def flashOps (t : Trace) : Trace := t.filter Obs.modifiesFlash

section Append

variable (t t' : Trace)

@[simp] theorem commsBytes_append : commsBytes (t ++ t') = t.commsBytes ++ commsBytes t' :=
  List.filterMap_append

@[simp] theorem stored_append : stored (t ++ t') = t.stored ++ stored t' := List.filterMap_append

@[simp] theorem taken_append : taken (t ++ t') = t.taken ++ taken t' := List.filterMap_append

@[simp] theorem sent_append : sent (t ++ t') = t.sent ++ sent t' := List.filterMap_append

@[simp] theorem accepted_append : accepted (t ++ t') = t.accepted ++ accepted t' :=
  List.filterMap_append

@[simp] theorem flashOps_append : flashOps (t ++ t') = t.flashOps ++ flashOps t' :=
  List.filter_append ..

end Append

end Trace

end SecureBootloader
