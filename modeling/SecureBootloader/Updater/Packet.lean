import SecureBootloader.Boot.Comms

/-!
# The packets of `index.ts`

The `Packet` class of the host and its CRC. Both ends lay a packet out in the
same 18 bytes, so it is a `CommsPacket` here too; the functions on it are those
of the host, followed by what they have in common with `comms.c`.
-/

namespace SecureBootloader.Updater

/-- One turn of the inner loop of `crc8`. -/
def crc8Shift (crc : Nat) : Nat :=
  if crc &&& 0x80 ≠ 0 then ((crc <<< 1) ^^^ 0x07) &&& 0xff else (crc <<< 1) &&& 0xff

/-- One turn of the outer loop of `crc8`. -/
def crc8Step (crc : Nat) (byte : Byte) : Nat :=
  Nat.repeat crc8Shift 8 ((crc ^^^ byte.toNat) &&& 0xff)

/-- `crc8`. -/
def crc8 (data : List Byte) : Nat := data.foldl crc8Step 0

/-- `Packet.computeCrc`. -/
def computeCrc (packet : CommsPacket) : Nat := crc8 (packet.length :: packet.data.toList)

/-- The constructor of `Packet`, for at most 16 bytes of `data`. Without a `crc`
it computes one. -/
def newPacket (length : Byte) (data : List Byte) (crc : Option Byte) : CommsPacket :=
  let packet : CommsPacket := ⟨length, Vector.ofFn fun i => data.getD i.val 0xff, 0⟩
  { packet with crc := crc.getD (BitVec.ofNat 8 (computeCrc packet)) }

/-- `Packet.toBuffer`. -/
def toBuffer (packet : CommsPacket) : List Byte :=
  [packet.length] ++ packet.data.toList ++ [packet.crc]

/-- `Packet.isSingleBytePacket`. -/
def isSingleBytePacket (packet : CommsPacket) (byte : Byte) : Bool :=
  if packet.length ≠ 1 then false
  else if packet.dataAt 0 ≠ byte then false
  else (packet.data.toList.drop 1).all (· == 0xff)

/-- `PACKET_ACK_DATA0`. -/
def packetAckData0 : Byte := 0x15

/-- `PACKET_RETX_DATA0`. -/
def packetRetxData0 : Byte := 0x19

/-- `Packet.isAck`. -/
def isAck (packet : CommsPacket) : Bool := isSingleBytePacket packet packetAckData0

/-- `Packet.isRetx`. -/
def isRetx (packet : CommsPacket) : Bool := isSingleBytePacket packet packetRetxData0

/-- `Packet.retx`. -/
def retx : CommsPacket := newPacket 1 [packetRetxData0] none

/-- `Packet.ack`. -/
def ack : CommsPacket := newPacket 1 [packetAckData0] none

/-! ## Both ends agree -/

theorem crc8Shift_toNat (crc : Byte) :
    crc8Shift crc.toNat = (SecureBootloader.crc8Shift crc).toNat := by
  revert crc
  decide +kernel

theorem repeat_crc8Shift (n : Nat) (crc : Byte) :
    Nat.repeat crc8Shift n crc.toNat = (Nat.repeat SecureBootloader.crc8Shift n crc).toNat := by
  induction n with
  | zero => rfl
  | succ n ih => rw [Nat.repeat, ih, crc8Shift_toNat, Nat.repeat]

theorem crc8Step_toNat (crc byte : Byte) :
    crc8Step crc.toNat byte = (SecureBootloader.crc8Step crc byte).toNat := by
  have masked : (crc.toNat ^^^ byte.toNat) &&& 0xff = (crc ^^^ byte).toNat := by
    rw [← BitVec.toNat_xor, Nat.and_two_pow_sub_one_eq_mod _ 8]
    exact Nat.mod_eq_of_lt (crc ^^^ byte).isLt
  rw [crc8Step, masked, repeat_crc8Shift, SecureBootloader.crc8Step]

/-- The two CRCs are one function. -/
theorem crc8_eq (data : List Byte) : crc8 data = (crc8Compute data).toNat := by
  suffices fold : ∀ crc : Byte,
      data.foldl crc8Step crc.toNat = (data.foldl SecureBootloader.crc8Step crc).toNat from fold 0
  induction data with
  | nil => exact fun _ => rfl
  | cons byte data ih =>
    intro crc
    rw [List.foldl_cons, List.foldl_cons, crc8Step_toNat]
    exact ih _

theorem computeCrc_eq (packet : CommsPacket) :
    computeCrc packet = (commsCalculateCrc packet).toNat := crc8_eq _

theorem toBuffer_eq (packet : CommsPacket) : toBuffer packet = packet.bytes := rfl

theorem isRetx_eq (packet : CommsPacket) :
    isRetx packet = commsIsSingleBytePacket packet SecureBootloader.packetRetxData0 := rfl

theorem isAck_eq (packet : CommsPacket) :
    isAck packet = commsIsSingleBytePacket packet SecureBootloader.packetAckData0 := rfl

theorem retx_eq : retx = retxPacket := by decide +kernel

theorem ack_eq : ack = ackPacket := by decide +kernel

/-- The CRC field is not part of what the CRC is computed over. -/
theorem commsCalculateCrc_crc (packet : CommsPacket) (crc : Byte) :
    commsCalculateCrc { packet with crc := crc } = commsCalculateCrc packet := rfl

/-- A packet the host makes passes the CRC check. -/
theorem newPacket_crc (length : Byte) (data : List Byte) :
    commsCalculateCrc (newPacket length data none) = (newPacket length data none).crc := by
  unfold newPacket
  rw [commsCalculateCrc_crc]
  dsimp only [Option.getD_none]
  rw [computeCrc_eq, BitVec.ofNat_toNat, BitVec.setWidth_eq]

end SecureBootloader.Updater
