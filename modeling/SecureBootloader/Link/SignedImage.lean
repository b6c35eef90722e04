import SecureBootloader.Link.Course
import SecureBootloader.Theorems.SignerAgreement

/-!
# Signed images

What the signing script writes is an image that an update can install, if its length and its
end are such that the transfer can carry it.
-/

namespace SecureBootloader

open Lib Signer

/-- The flash with the image in it holds the image. -/
theorem withImage_holds (flash0 : Flash) {fwImage : List Byte}
    (fits : fwImage.length ≤ maxFwLength) : HoldsAt (withImage flash0 fwImage) fwImage := by
  intro i inside
  have most : maxFwLength = 0x38000 := rfl
  have top : flashBase + flashSize = mainAppStartAddress + 0x78000 := rfl
  rw [withImage, if_pos ⟨by omega, by omega⟩, Nat.add_sub_cancel_left,
    List.getD_eq_getElem?_getD, List.getD_eq_getElem?_getD, List.getElem?_eq_getElem inside]
  rfl

/-- A verdict of the validator is the verdict of the bootloader. -/
theorem validateFlash_of_accepts {flash : Flash} (fits : (infoOf flash).length ≤ appAreaSize)
    (accepts : ∃ fuel, validateFwImage (flashRead flash) fuel = .ok true) :
    validateFlash flash = some true := by
  have area : appAreaSize = 0x78000 := rfl
  rw [validateFlash, validateFwImage_eq (flashRead_readsAs flash) fits
    (by unfold blockCount; omega), decide_eq_true ((accepted_iff fits).mp accepts)]

/-- The last chunk of the firmware is not one of two bytes that read as a control packet. -/
def PlainEnd (firmware : List Byte) : Prop :=
  firmware.drop (firmware.length - 2) ≠ [packetAckData0, 0xff] ∧
    firmware.drop (firmware.length - 2) ≠ [packetRetxData0, 0xff]

section Signed

variable {openssl : Openssl} (tool : IsAes128Cbc openssl) {firmware : List Byte} {n : Nat}
  (signable : Signable firmware n) (long : 0x1D0 ≤ n) (short : n ≤ maxFwLength)
  {version : Int} (nonneg : 0 ≤ version) (small : version < 2 ^ 32) {image : List Byte}
  (signed : signFirmware openssl firmware version = .ok image)
include tool signable long short nonneg small signed

/-- The output has the length of the application, and its tail. -/
theorem signed_tail : image.length = n ∧
    ∀ o, 0x1D0 ≤ o → image.getD o 0 = firmware.getD (bootloaderSize + o) 0 := by
  obtain ⟨fwImage, patched, length, output⟩ :=
    signFirmware_ok tool signable long short version nonneg small
  rw [output] at signed
  obtain rfl := Except.ok.inj signed
  have inside : fwinfoSignatureOffset + aesBlockSize ≤ fwImage.length := by
    show 0x1D0 ≤ _
    omega
  refine ⟨(sliceAssign_length (by decide) inside (AesBlock.bytes_length _)).trans length, ?_⟩
  intro o behind
  refine (sliceAssign_getD (by decide) inside (AesBlock.bytes_length _) o).trans ?_
  have stop : fwinfoSignatureOffset + aesBlockSize = 0x1D0 := rfl
  rw [if_neg (by omega), patched.other o (.inr (by omega)), List.getD_eq_getElem?_getD,
    List.getD_eq_getElem?_getD, List.getElem?_drop]

/-- What the validator finds in a flash that holds the output. -/
theorem signed_info {flash : Flash} (holds : HoldsAt flash image) :
    HeaderOk (infoOf flash) ∧ (infoOf flash).length = n := by
  obtain ⟨fwImage, patched, length, output⟩ :=
    signFirmware_ok tool signable long short version nonneg small
  rw [output] at signed
  obtain rfl := Except.ok.inj signed
  have size : (firmware.drop bootloaderSize).length = n := patched.length_eq.symm.trans length
  have most : maxFwLength = 0x38000 := rfl
  obtain ⟨header, count, -, -⟩ :=
    holds_withSignature patched (by omega) signable.header (by omega) holds
  exact ⟨header, count.trans size⟩

/-- The device id of the output is that of the bootloader. -/
theorem signed_device :
    (image.getD Updater.fwinfoDeviceIdOffset 0).toNat = deviceId := by
  obtain ⟨⟨-, device⟩, -⟩ := signed_info tool signable long short nonneg small signed
    (memoryOf_holds image)
  have first : memoryOf image (fwinfoAddress + 4) = image.getD Updater.fwinfoDeviceIdOffset 0 := by
    rw [memoryOf, fwinfoAddress_eq, Nat.add_assoc, Nat.add_sub_cancel_left]
    rfl
  have word : le32 (memoryOf image (fwinfoAddress + 4)) (memoryOf image (fwinfoAddress + 5))
    (memoryOf image (fwinfoAddress + 6)) (memoryOf image (fwinfoAddress + 7)) = 0x42 := device
  have byte := (memoryOf image (fwinfoAddress + 4)).isLt
  rw [← first]
  show _ = 0x42
  unfold le32 at word
  omega

/-- Whatever else is in the flash: if the length is neither 0 nor 1 modulo 16 and the end is
plain, an update can install the output. -/
theorem signed_installable (flash0 : Flash) (partly : n % 16 ≠ 0) (whole : n % 16 ≠ 1)
    (plain : n % 16 = 2 → PlainEnd firmware) : Installable validateFlash flash0 image := by
  obtain ⟨length, tail⟩ := signed_tail tool signable long short nonneg small signed
  have holds := withImage_holds flash0 (length.le.trans short)
  have most : maxFwLength = 0x38000 := rfl
  have area : appAreaSize = 0x78000 := rfl
  obtain ⟨-, count⟩ := signed_info tool signable long short nonneg small signed holds
  refine ⟨length.le.trans short, signed_device tool signable long short nonneg small signed,
    length ▸ whole, ?_, ?_⟩
  · rw [length]
    intro two
    -- the last two bytes are behind the signature
    have same : image.drop (n - 2) = firmware.drop (firmware.length - 2) := by
      have size := signable.length_eq
      refine List.ext_getElem (by rw [List.length_drop, List.length_drop]; omega) ?_
      intro i here there
      rw [List.length_drop] at here there
      rw [List.getElem_drop, List.getElem_drop]
      have byte := tail (n - 2 + i) (by omega)
      rw [List.getD_eq_getElem?_getD, List.getD_eq_getElem?_getD,
        List.getElem?_eq_getElem (by omega), List.getElem?_eq_getElem (by omega)] at byte
      simp only [Option.getD_some] at byte
      rw [byte]
      congr 1
      omega
    rw [same]
    exact plain two
  · obtain ⟨fwImage, -, iff⟩ := agrees_iff tool signable long short version nonneg small
    obtain ⟨output, here, accepted⟩ := iff.mpr ((signerMac_eq_iff n _).mpr (.inl partly))
    rw [signed] at here
    obtain rfl := Except.ok.inj here
    exact validateFlash_of_accepts (by omega) (accepted _ holds)

end Signed

end SecureBootloader
