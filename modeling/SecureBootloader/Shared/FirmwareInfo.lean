import SecureBootloader.Aes.Block

/-!
# Memory map and `firmware_info_t`

The constants of `firmware-info.h` and the linker scripts. Addresses are `Nat`;
arithmetic that the code does in `uint32_t` is reduced modulo `2 ^ 32` where it
happens.
-/

namespace SecureBootloader

/-- `FLASH_BASE`, `ORIGIN` of `rom` in the linker scripts. -/
def flashBase : Nat := 0x08000000

/-- `LENGTH` of `rom` in `app/linkerscript.ld`: 512 KB. -/
def flashSize : Nat := 512 * 1024

/-- `BOOTLOADER_SIZE`. -/
def bootloaderSize : Nat := 0x8000

/-- `MAIN_APP_START_ADDRESS`. -/
def mainAppStartAddress : Nat := flashBase + bootloaderSize

/-- The application area: all of the flash above the bootloader, 480 KB. -/
def appAreaSize : Nat := flashSize - bootloaderSize

/-- `MAX_FW_LENGTH`. -/
def maxFwLength : Nat := 1024 * 256 - bootloaderSize

/-- `DEVICE_ID`. -/
def deviceId : Nat := 0x42

/-- `FIRMWARE_INFO_SENTINEL`. -/
def firmwareInfoSentinel : Nat := 0xDEADC0DE

/-- `ALIGNED(address, alignment)`. -/
def aligned (address alignment : BitVec 32) : BitVec 32 :=
  (address + (alignment - 1)) &&& ~~~(alignment - 1)

/-- `sizeof(vector_table_t)` of libopencm3 on this part, as `DOCUMENTATION.md` gives it. -/
def sizeofVectorTable : Nat := 0x1AC

/-- `sizeof(firmware_info_t)`: four 32-bit words. -/
def sizeofFirmwareInfo : Nat := 16

/-- `FWINFO_ADDRESS`. -/
def fwinfoAddress : Nat :=
  (aligned (BitVec.ofNat 32 (mainAppStartAddress + sizeofVectorTable)) 16).toNat

/-- `SIGNATURE_ADDRESS`. -/
def signatureAddress : Nat := fwinfoAddress + sizeofFirmwareInfo

/-- The info block sits 0x1B0 bytes into the application. -/
theorem fwinfoAddress_eq : fwinfoAddress = mainAppStartAddress + 0x1B0 := by decide

theorem signatureAddress_eq : signatureAddress = mainAppStartAddress + 0x1C0 := by decide

/-- A little-endian 32-bit load from four bytes in address order. -/
def le32 (b0 b1 b2 b3 : Byte) : Nat :=
  b0.toNat + 2 ^ 8 * b1.toNat + 2 ^ 16 * b2.toNat + 2 ^ 24 * b3.toNat

/-- The four bytes can be read back from the word. -/
theorem le32_inj {a0 a1 a2 a3 b0 b1 b2 b3 : Byte}
    (h : le32 a0 a1 a2 a3 = le32 b0 b1 b2 b3) : a0 = b0 ∧ a1 = b1 ∧ a2 = b2 ∧ a3 = b3 := by
  have := a0.isLt; have := a1.isLt; have := a2.isLt; have := a3.isLt
  have := b0.isLt; have := b1.isLt; have := b2.isLt; have := b3.isLt
  simp only [le32] at h
  refine ⟨?_, ?_, ?_, ?_⟩ <;> (apply BitVec.eq_of_toNat_eq; omega)

/-- Byte `i` of a word in little-endian order. -/
def leByte (value i : Nat) : Byte := BitVec.ofNat 8 (value / 2 ^ (8 * i))

theorem le32_leByte {value : Nat} (h : value < 2 ^ 32) :
    le32 (leByte value 0) (leByte value 1) (leByte value 2) (leByte value 3) = value := by
  simp only [le32, leByte, BitVec.toNat_ofNat]
  omega

/-- `firmware_info_t`. -/
@[ext] structure FirmwareInfo where
  sentinel : Nat
  deviceId : Nat
  firmwareVersion : Nat
  length : Nat
  deriving DecidableEq, Repr

/-- The structure as it lies in memory `m` from `address`. -/
def firmwareInfoAt (m : Nat → Byte) (address : Nat) : FirmwareInfo where
  sentinel := le32 (m address) (m (address + 1)) (m (address + 2)) (m (address + 3))
  deviceId := le32 (m (address + 4)) (m (address + 5)) (m (address + 6)) (m (address + 7))
  firmwareVersion :=
    le32 (m (address + 8)) (m (address + 9)) (m (address + 10)) (m (address + 11))
  length := le32 (m (address + 12)) (m (address + 13)) (m (address + 14)) (m (address + 15))

/-- The structure depends on its sixteen bytes only. -/
theorem firmwareInfoAt_congr {m m' : Nat → Byte} {address address' : Nat}
    (h : ∀ i, i < 16 → m (address + i) = m' (address' + i)) :
    firmwareInfoAt m address = firmwareInfoAt m' address' := by
  have word (j : Nat) (hj : j + 3 < 16 := by decide) :
      le32 (m (address + j)) (m (address + (j + 1))) (m (address + (j + 2)))
          (m (address + (j + 3))) =
        le32 (m' (address' + j)) (m' (address' + (j + 1))) (m' (address' + (j + 2)))
          (m' (address' + (j + 3))) := by
    rw [h j (by omega), h (j + 1) (by omega), h (j + 2) (by omega), h (j + 3) hj]
  simp only [firmwareInfoAt, FirmwareInfo.mk.injEq]
  exact ⟨word 0, word 4, word 8, word 12⟩

/-- Equal info structures are equal byte for byte. -/
theorem firmwareInfoAt_eq_iff (m m' : Nat → Byte) (address : Nat) :
    firmwareInfoAt m address = firmwareInfoAt m' address ↔
      ∀ i, i < 16 → m (address + i) = m' (address + i) := by
  refine ⟨?_, firmwareInfoAt_congr⟩
  intro h
  simp only [firmwareInfoAt, FirmwareInfo.mk.injEq] at h
  obtain ⟨h0, h1, h2, h3⟩ := h
  obtain ⟨a0, a1, a2, a3⟩ := le32_inj h0
  obtain ⟨b0, b1, b2, b3⟩ := le32_inj h1
  obtain ⟨c0, c1, c2, c3⟩ := le32_inj h2
  obtain ⟨d0, d1, d2, d3⟩ := le32_inj h3
  apply lt_sixteen_cases
  simp [List.range, List.range.loop, *]

end SecureBootloader
