import SecureBootloader.Aes.Core
import SecureBootloader.Shared.FirmwareInfo

/-!
# `validate_fw_image`

The validator reads memory through `rd`, which says what a byte load at an
address gives, or that the load faults. The `while` loop takes a fuel argument:
`outOfFuel` is not an outcome of the program, it only says that more iterations
were needed than were granted.
-/

namespace SecureBootloader

/-- What a byte load gives; `none` is a bus fault. -/
abbrev Reader := Nat → Option Byte

/-- Why a run of the validator did not produce a verdict. -/
inductive Stop where
  | badRead (address : Nat)
  | outOfFuel
  deriving DecidableEq, Repr

/-- `*(const uint8_t*)address`, with the 32-bit address arithmetic of the target. -/
def readByte (rd : Reader) (address : Nat) : Except Stop Byte :=
  match rd (address % 2 ^ 32) with
  | some b => .ok b
  | none => .error (.badRead (address % 2 ^ 32))

/-- `n` consecutive byte loads. -/
def readBytes (rd : Reader) (address : Nat) : Nat → Except Stop (List Byte)
  | 0 => .ok []
  | n + 1 => do
    let b ← readByte rd address
    let rest ← readBytes rd (address + 1) n
    return b :: rest

/-- A `uint32_t` load. -/
def read32 (rd : Reader) (address : Nat) : Except Stop Nat := do
  let b0 ← readByte rd address
  let b1 ← readByte rd (address + 1)
  let b2 ← readByte rd (address + 2)
  let b3 ← readByte rd (address + 3)
  return le32 b0 b1 b2 b3

/-- `memcpy(state, source, n)`: the first `n` bytes of the block are overwritten. -/
def memcpyBlock (rd : Reader) (state : AesBlock) (source n : Nat) : Except Stop AesBlock := do
  let bytes ← readBytes rd source n
  return AesBlock.ofFn fun i => if i < n then bytes.getD i 0 else state.byte i

/-- `memset((uint8_t*)state + start, value, n)`. -/
def memsetBlock (state : AesBlock) (start value n : Nat) : AesBlock :=
  AesBlock.ofFn fun i =>
    if start ≤ i ∧ i < start + n then BitVec.ofNat 8 value else state.byte i

/-- `secrete_key`. -/
def secreteKey : AesBlock :=
  ⟨⟨0x00, 0x11, 0x22, 0x33⟩, ⟨0x44, 0x55, 0x66, 0x77⟩, ⟨0x88, 0x99, 0xaa, 0xbb⟩,
    ⟨0xcc, 0xdd, 0xee, 0xff⟩⟩

/-- `round_key` after `AES_KeySchedule128`; every entry of the stack array is written. -/
def roundKey : KeySchedule :=
  aesKeySchedule128 secreteKey (Vector.replicate 11 AesBlock.zero)

/-- The cipher the bootloader chains with. -/
def bootCipher (block : AesBlock) : AesBlock := aesEncryptBlock block roundKey

/-- The locals of `validate_fw_image`. `fed` is a history variable: the blocks
given to `aes_cbc_mac_step` so far, before the XOR. -/
structure MacState where
  offset : Nat
  state : AesBlock
  prevCipherBlock : AesBlock
  fed : List AesBlock

def MacState.setState (s : MacState) (state : AesBlock) : MacState := { s with state := state }

def MacState.setOffset (s : MacState) (offset : Nat) : MacState := { s with offset := offset }

/-- `aes_cbc_mac_step(state, prev_cipher_block, round_key)`. -/
def aesCbcMacStep (s : MacState) : MacState :=
  let state := s.state.xor s.prevCipherBlock
  let state := bootCipher state
  { s with state := state, prevCipherBlock := state, fed := s.fed ++ [s.state] }

/-- `bytes_to_pad`. -/
def bytesToPad (length : Nat) : Nat :=
  if length % aesBlockSize ≠ 0 then aesBlockSize - length % aesBlockSize else 0

/-- The three branches of the loop body that absorb a block at `offset`. -/
def macAbsorb (rd : Reader) (length : Nat) (s : MacState) : Except Stop MacState :=
  let source := mainAppStartAddress + s.offset
  if length - s.offset > aesBlockSize then do
    let state ← memcpyBlock rd s.state source aesBlockSize
    return aesCbcMacStep (s.setState state)
  -- never taken: `bytes_to_pad` is below 16
  else if bytesToPad length = 16 then do
    let state ← memcpyBlock rd s.state source aesBlockSize
    let s := aesCbcMacStep (s.setState state)
    let state := memsetBlock s.state 0 (bytesToPad length) aesBlockSize
    return aesCbcMacStep (s.setState state)
  else do
    let dataLength := aesBlockSize - bytesToPad length
    let state ← memcpyBlock rd s.state source dataLength
    let state := memsetBlock state dataLength (bytesToPad length) (bytesToPad length)
    return aesCbcMacStep (s.setState state)

/-- The body of the `while` loop. -/
def macLoopBody (rd : Reader) (length : Nat) (s : MacState) : Except Stop MacState :=
  if s.offset = fwinfoAddress - mainAppStartAddress then
    -- over the info block and the signature
    return s.setOffset ((s.offset + aesBlockSize * 2) % 2 ^ 32)
  else do
    let s ← macAbsorb rd length s
    return s.setOffset ((s.offset + aesBlockSize) % 2 ^ 32)

/-- `while (offset < firmware_info->length)`, for at most `fuel` iterations. -/
def macLoop (rd : Reader) (length : Nat) : Nat → MacState → Except Stop MacState
  | 0, s => if s.offset < length then .error .outOfFuel else .ok s
  | fuel + 1, s =>
    if s.offset < length then do
      let s ← macLoopBody rd length s
      macLoop rd length fuel s
    else .ok s

/-- The sentinel and device checks. -/
def headerAccepted (rd : Reader) : Except Stop Bool := do
  let sentinel ← read32 rd fwinfoAddress
  if sentinel ≠ firmwareInfoSentinel then return false
  let device ← read32 rd (fwinfoAddress + 4)
  if device ≠ deviceId then return false
  return true

/-- The CBC-MAC part, from the first block to the end of the loop. -/
def macImage (rd : Reader) (fuel : Nat) : Except Stop MacState := do
  let length ← read32 rd (fwinfoAddress + 12)
  let state ← memcpyBlock rd AesBlock.zero fwinfoAddress sizeofFirmwareInfo
  let s := aesCbcMacStep
    { offset := 0, state := state, prevCipherBlock := AesBlock.zero, fed := [] }
  macLoop rd length fuel s

/-- `validate_fw_image`. -/
def validateFwImage (rd : Reader) (fuel : Nat) : Except Stop Bool := do
  if !(← headerAccepted rd) then return false
  let s ← macImage rd fuel
  let signature ← readBytes rd signatureAddress aesBlockSize
  return decide (signature = s.state.bytes)

/-! ## The flash as a reader -/

/-- The content of memory by address; only the flash range is readable. -/
abbrev Flash := Nat → Byte

/-- An address inside the 512 KB flash. -/
def InFlash (address : Nat) : Prop :=
  flashBase ≤ address ∧ address < flashBase + flashSize

instance (address : Nat) : Decidable (InFlash address) :=
  inferInstanceAs (Decidable (_ ∧ _))

/-- Loads from the flash; everything outside it faults. -/
def flashRead (flash : Flash) : Reader := fun address =>
  if InFlash address then some (flash address) else none

end SecureBootloader
