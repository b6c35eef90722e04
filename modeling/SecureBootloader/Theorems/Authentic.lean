import SecureBootloader.Boot.Device
import SecureBootloader.Theorems.AesStandard
import SecureBootloader.Theorems.ValidateSafety

/-!
# What is started is signed

The verdict of the validator, and with it the way out of the bootloader, in the terms of the
standards: the application is started exactly when the info block has the sentinel, the device
id and a length that fits, and the signature slot holds the CBC-MAC, under AES-128 with the
bootloader's key, of the info block and the image it describes. A length that does not fit
faults behind a right sentinel and device id only; without them the core is reset.
-/

namespace SecureBootloader

open Lib Lib.Gf256

/-! ## Blocks as states of the standard -/

theorem stateOf_add (a b : AesBlock) : stateOf (a + b) = stateOf a + stateOf b :=
  stateOf_aesAddRoundKey a b

theorem stateOf_zero : stateOf 0 = 0 := by
  have twice := stateOf_add 0 0
  rw [add_zero] at twice
  exact left_eq_add.mp twice

theorem stateOf_injective : Function.Injective stateOf := by
  intro a b same
  refine AesBlock.ext_byte fun i inside => ?_
  have entry := congrFun (congrFun same ⟨i % 4, Nat.mod_lt _ (by decide)⟩) ⟨i / 4, by omega⟩
  have byte := ofByte.injective entry
  rwa [row_column, row_column, Nat.div_add_mod] at byte

theorem stateOf_bootCipher (block : AesBlock) :
    stateOf (bootCipher block) =
      Lib.Aes128.cipher (Lib.Aes128.wordsOf secreteKey.byte) (stateOf block) :=
  stateOf_aesEncryptBlock secreteKey _ block

/-! ## The verdict -/

/-- The CBC-MAC of an image under AES-128 with the bootloader's key. -/
noncomputable def standardMac (flash : Flash) : Lib.Aes128.State :=
  Cbc.mac (Lib.Aes128.cipher (Lib.Aes128.wordsOf secreteKey.byte)) 0
    ((macBlocks flash (infoOf flash).length).map stateOf)

/-- The flash holds a signed image for this device. -/
structure Signed (flash : Flash) : Prop where
  header : HeaderOk (infoOf flash)
  fits : (infoOf flash).length ≤ appAreaSize
  mac : stateOf (signatureOf flash) = standardMac flash

/-- The info block has the sentinel and the device id, and announces more than the application
area holds. -/
structure Runaway (flash : Flash) : Prop where
  header : HeaderOk (infoOf flash)
  beyond : appAreaSize < (infoOf flash).length

theorem stateOf_imageMac (flash : Flash) : stateOf (imageMac flash) = standardMac flash := by
  rw [imageMac, Cbc.mac_map stateOf_add stateOf_bootCipher, stateOf_zero, standardMac]

theorem validateFlash_eq (flash : Flash) :
    (validateFlash flash = some true ↔ Signed flash) ∧
      (validateFlash flash = none ↔ Runaway flash) := by
  have area : appAreaSize = 0x78000 := rfl
  by_cases header : HeaderOk (infoOf flash)
  · by_cases fits : (infoOf flash).length ≤ appAreaSize
    · have enough : blockCount (infoOf flash).length ≤ appAreaSize / 16 + 1 := by
        unfold blockCount
        omega
      have verdict := validateFwImage_eq (flashRead_readsAs flash) fits enough
      have signed : Signed flash ↔ signatureOf flash = imageMac flash := by
        rw [← stateOf_injective.eq_iff, stateOf_imageMac]
        exact ⟨fun signed => signed.mac, fun mac => ⟨header, fits, mac⟩⟩
      rw [validateFlash, verdict, signed]
      refine ⟨by simp [header], iff_of_false (by simp) fun runaway => ?_⟩
      exact absurd runaway.beyond (Nat.not_lt.mpr fits)
    · have fault : validateFwImage (flashRead flash) (appAreaSize / 16 + 1) = _ :=
        validateFwImage_fault header (Nat.lt_of_not_le fits) (Nat.lt_succ_self endIndex)
      have none : validateFlash flash = none := by rw [validateFlash, fault]
      rw [none]
      exact ⟨iff_of_false (by simp) fun signed => fits signed.fits,
        iff_of_true rfl ⟨header, Nat.lt_of_not_le fits⟩⟩
  · rw [validateFlash, validateFwImage_of_not_header header]
    exact ⟨iff_of_false (by simp) fun signed => header signed.header,
      iff_of_false (by simp) fun runaway => header runaway.header⟩

theorem validateFlash_refused (flash : Flash) :
    validateFlash flash = some false ↔ ¬Signed flash ∧ ¬Runaway flash := by
  obtain ⟨signed, runaway⟩ := validateFlash_eq flash
  rw [← signed, ← runaway]
  rcases validateFlash flash with _ | _ | _ <;> simp

/-! ## The way out -/

/-- In every state of every life of a device: the application has been started if and only if
the main program has left its loop and the flash holds a signed image; a load of the
validator has faulted if and only if it has left its loop, sentinel and device id are right and
the length is more than the application area holds; and in every other case, blank flash among
them, it resets the core when it leaves. -/
theorem started_iff_signed (drv : FlashDriver) (flash0 : Flash) (es : List DeviceEvent) :
    let boot := (deviceRun drv validateFlash flash0 es).boot
    (.jumped ∈ boot.trace ↔ boot.pc = .gone ∧ Signed boot.flash) ∧
      (.faulted ∈ boot.trace ↔ boot.pc = .gone ∧ Runaway boot.flash) ∧
      (.wasReset ∈ boot.trace ↔ boot.pc = .gone ∧ ¬Signed boot.flash ∧ ¬Runaway boot.flash) := by
  intro boot
  have ways := (deviceRun_inv drv validateFlash flash0 es).waysOut
  obtain ⟨signed, runaway⟩ := validateFlash_eq boot.flash
  refine ⟨?_, ?_, ?_⟩
  · rw [← signed]
    exact ways (some true)
  · rw [← runaway]
    exact ways none
  · rw [← validateFlash_refused]
    exact ways (some false)

end SecureBootloader
