import SecureBootloader.Boot.Session
import SecureBootloader.Updater.Packet

/-!
# Firmware chunks as data packets

What becomes of a chunk of 1 to 16 bytes in a data packet: how the bootloader reads
its size and its bytes, and which chunks look like something else to it.
-/

namespace SecureBootloader

/-- `new Packet(chunkSize-1, dataChunk)`. -/
def chunkPacket (chunk : List Byte) : CommsPacket :=
  Updater.newPacket (BitVec.ofNat 8 (chunk.length - 1)) chunk none

/-- The padding starts behind the data. -/
theorem padded_take (data : List Byte) (h : data.length ≤ 16) :
    (Vector.ofFn fun i : Fin 16 => data.getD i.val 0xff).toList.take data.length = data := by
  refine List.ext_getElem (by simp [h]) fun i hi hi' => ?_
  rw [List.getElem_take, Vector.getElem_toList, Vector.getElem_ofFn, List.getD_eq_getElem?_getD,
    List.getElem?_eq_getElem hi']
  rfl

/-- The padding is all there is behind the data. -/
theorem padded_eq (data : List Byte) (h : data.length ≤ 16) :
    (Vector.ofFn fun i : Fin 16 => data.getD i.val 0xff).toList =
      data ++ List.replicate (16 - data.length) 0xff := by
  refine List.ext_getElem (by simp [h]) fun i hi hi' => ?_
  rw [Vector.getElem_toList, Vector.getElem_ofFn, List.getD_eq_getElem?_getD, List.getElem_append]
  by_cases inside : i < data.length
  · rw [dif_pos inside, List.getElem?_eq_getElem inside]
    rfl
  · rw [dif_neg inside, List.getElem?_eq_none (Nat.le_of_not_lt inside), List.getElem_replicate]
    rfl

section Chunk

variable {chunk : List Byte} (least : 1 ≤ chunk.length) (most : chunk.length ≤ 16)
include least most

/-- The length byte is one less than the size of the chunk. -/
theorem chunkPacket_length : (chunkPacket chunk).length.toNat = chunk.length - 1 := by
  show (BitVec.ofNat 8 (chunk.length - 1)).toNat = _
  rw [BitVec.toNat_ofNat, Nat.mod_eq_of_lt (by omega)]

/-- RECEIVE_FW reads the size of the chunk back. -/
theorem chunkLength_chunkPacket : chunkLength (chunkPacket chunk) = chunk.length := by
  have low : ((chunkPacket chunk).length &&& 0x0F).toNat = (chunk.length - 1) % 2 ^ 4 := by
    rw [BitVec.toNat_and, chunkPacket_length least most]
    exact Nat.and_two_pow_sub_one_eq_mod _ 4
  rw [chunkLength, low, Nat.mod_eq_of_lt (by omega)]
  omega

/-- RECEIVE_FW reads the bytes of the chunk back. -/
theorem chunkOf_chunkPacket : chunkOf (chunkPacket chunk) = chunk := by
  rw [chunkOf, chunkLength_chunkPacket least most]
  exact padded_take chunk most

/-- RECEIVE_FW refuses a length byte of zero. -/
theorem dataLengthOk_chunkPacket : DataLengthOk (chunkPacket chunk) ↔ 2 ≤ chunk.length := by
  unfold DataLengthOk packetDataLength
  rw [chunkPacket_length least most]
  omega

/-- A chunk that looks like a control packet has the byte and one byte of padding. -/
theorem chunkPacket_single (byte : Byte) :
    commsIsSingleBytePacket (chunkPacket chunk) byte = true ↔ chunk = [byte, 0xff] := by
  rw [commsIsSingleBytePacket_iff, CommsPacket.take_bytes]
  have data : (chunkPacket chunk).data.toList = chunk ++ List.replicate (16 - chunk.length) 0xff :=
    padded_eq chunk most
  have first : (chunkPacket chunk).length = 1 ↔ chunk.length = 2 := by
    rw [← BitVec.toNat_inj, chunkPacket_length least most]
    show chunk.length - 1 = 1 ↔ _
    omega
  rw [data, List.cons.injEq, first]
  constructor
  · rintro ⟨two, bytes⟩
    obtain ⟨b0, b1, rfl⟩ := List.length_eq_two.mp two
    rw [List.cons_append, List.cons_append, List.cons.injEq, List.replicate_succ,
      List.cons.injEq] at bytes
    rw [bytes.1, bytes.2.1]
  · rintro rfl
    exact ⟨rfl, rfl⟩

/-- Two chunks are taken for control packets, all others for packets. -/
theorem frameKind_chunkPacket :
    frameKind (chunkPacket chunk) = .packet ↔
      chunk ≠ [packetAckData0, 0xff] ∧ chunk ≠ [packetRetxData0, 0xff] := by
  have retx := chunkPacket_single least most packetRetxData0
  have ack := chunkPacket_single least most packetAckData0
  have intact : commsCalculateCrc (chunkPacket chunk) = (chunkPacket chunk).crc :=
    Updater.newPacket_crc _ _
  unfold frameKind
  rw [if_pos intact]
  by_cases isRetx : chunk = [packetRetxData0, 0xff]
  · rw [if_pos (retx.mpr isRetx)]
    exact iff_of_false nofun fun other => other.2 isRetx
  · rw [if_neg (retx.not.mpr isRetx)]
    by_cases isAck : chunk = [packetAckData0, 0xff]
    · rw [if_pos (ack.mpr isAck)]
      exact iff_of_false nofun fun other => other.1 isAck
    · rw [if_neg (ack.not.mpr isAck)]
      exact iff_of_true rfl ⟨isAck, isRetx⟩

end Chunk

end SecureBootloader
