import SecureBootloader.Aes.Block

/-!
# `crc8_compute`
-/

namespace SecureBootloader

/-- One turn of the inner loop. -/
def crc8Shift (crc : Byte) : Byte :=
  if crc &&& 0x80 ≠ 0 then (crc <<< 1) ^^^ 0x07 else crc <<< 1

/-- One turn of the outer loop: the byte is absorbed, then shifted out. -/
def crc8Step (crc byte : Byte) : Byte := Nat.repeat crc8Shift 8 (crc ^^^ byte)

/-- `crc8_compute`. -/
def crc8Compute (data : List Byte) : Byte := data.foldl crc8Step 0

end SecureBootloader
