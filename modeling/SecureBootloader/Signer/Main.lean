import Mathlib.Algebra.Group.Int.Defs
import SecureBootloader.Aes.Core
import SecureBootloader.Lib.Cbc
import SecureBootloader.Shared.FirmwareInfo

/-!
# The signing script

`fw-signer/main.py` from the firmware binary to the bytes of
`encrypted_signed_fw.bin`. The `openssl enc -aes-128-cbc -nosalt` it runs is a
parameter: it takes the key, the initial value and the content of the input
file, and gives the content of the output file.
-/

namespace SecureBootloader.Signer

open Lib

/-! ## Byte strings -/

/-- `buffer[start:stop]`. -/
def slice (buffer : List Byte) (start stop : Nat) : List Byte := (buffer.take stop).drop start

/-- `buffer[start:stop] = bytes`, for `start ≤ stop`. -/
def sliceAssign (buffer : List Byte) (start stop : Nat) (bytes : List Byte) : List Byte :=
  buffer.take start ++ bytes ++ buffer.drop stop

/-- What `struct.pack_into` raises. -/
inductive PackError where
  | bufferTooSmall
  | argumentOutOfRange
  deriving DecidableEq, Repr

/-- `struct.pack_into("<I", buffer, offset, value)`. -/
def packInto (buffer : List Byte) (offset : Nat) (value : Int) : Except PackError (List Byte) :=
  if buffer.length < offset + 4 then .error .bufferTooSmall
  else if value < 0 ∨ 2 ^ 32 ≤ value then .error .argumentOutOfRange
  else .ok (sliceAssign buffer offset (offset + 4) ((List.range 4).map (leByte value.toNat)))

/-! ## The script -/

/-- `FWINFO_OFFSET`. -/
def fwinfoOffset : Nat := 0x01B0

/-- `FWINFO_VERSION_OFFSET`. -/
def fwinfoVersionOffset : Nat := 8

/-- `FWINFO_LENGTH_OFFSET`. -/
def fwinfoLengthOffset : Nat := 12

/-- `FWINFO_SIGNATURE_OFFSET`. -/
def fwinfoSignatureOffset : Nat := fwinfoOffset + aesBlockSize

/-- `key`. -/
def key : AesBlock :=
  ⟨⟨0x00, 0x11, 0x22, 0x33⟩, ⟨0x44, 0x55, 0x66, 0x77⟩, ⟨0x88, 0x99, 0xaa, 0xbb⟩,
    ⟨0xcc, 0xdd, 0xee, 0xff⟩⟩

/-- `zeroed_iv`. -/
def zeroedIv : AesBlock := AesBlock.zero

/-- The command with its key, initial value and input file. -/
abbrev Openssl := AesBlock → AesBlock → List Byte → List Byte

/-- The image with version and length patched into its info block. -/
def patchInfo (fwImage : List Byte) (version : Int) : Except PackError (List Byte) := do
  let fwImage ← packInto fwImage (fwinfoOffset + fwinfoVersionOffset) version
  packInto fwImage (fwinfoOffset + fwinfoLengthOffset) fwImage.length

/-- `signing_image`. -/
def signingImage (fwImage : List Byte) : List Byte :=
  slice fwImage fwinfoOffset (fwinfoOffset + aesBlockSize) ++ fwImage.take fwinfoOffset ++
    fwImage.drop (fwinfoOffset + aesBlockSize * 2)

/-- `encrypted_fw[-AES_BLOCK_SIZE:]`. -/
def lastBlock (encryptedFw : List Byte) : List Byte :=
  encryptedFw.drop (encryptedFw.length - aesBlockSize)

/-- The image with `signature` in its slot. -/
def withSignature (fwImage signature : List Byte) : List Byte :=
  sliceAssign fwImage fwinfoSignatureOffset (fwinfoSignatureOffset + aesBlockSize) signature

/-- The content the script writes, from the content of the firmware binary. -/
def signFirmware (openssl : Openssl) (firmware : List Byte) (version : Int) :
    Except PackError (List Byte) := do
  let fwImage ← patchInfo (firmware.drop bootloaderSize) version
  let encryptedFw := openssl key zeroedIv (signingImage fwImage)
  return withSignature fwImage (lastBlock encryptedFw)

/-! ## What the script relies on -/

/-- The 16-byte blocks of a byte string whose length is a multiple of 16. -/
def blocksOf (bytes : List Byte) : List AesBlock :=
  (List.range (bytes.length / 16)).map fun i => AesBlock.ofFn fun j => bytes.getD (16 * i + j) 0

/-- AES-128-CBC with PKCS#7 padding. -/
def aes128Cbc : Openssl := fun key iv input =>
  (Cbc.encrypt (aesEncryptBlock · (aesKeySchedule128 key (Vector.replicate 11 AesBlock.zero))) iv
    (blocksOf (Cbc.pkcs7 aesBlockSize (BitVec.ofNat 8) input))).flatMap AesBlock.bytes

end SecureBootloader.Signer
