import SecureBootloader.Boot.Device
import SecureBootloader.Theorems.UpdateCompletes

/-!
# From the firmware binary to the running application

The signing script, the host, the bootloader and its validator work together: what the script
writes is installed and started. And no device is lost for good: after a reset it takes an
image again, whatever happened to it before.
-/

namespace SecureBootloader

open Signer

/-! ## Signed images -/

/-- For every firmware binary with the right info block, and a length that is neither 0 nor 1
modulo 16 with a plain end: the script signs it, and whatever the flash held and however the
update is interleaved, as long as every party gets its turn and no timer runs out, the signed
image ends up in the application area, the rest of the flash is as it was, the host reports
success, and the bootloader has started the application. -/
theorem signed_update_completes (drv : FlashDriver) {openssl : Openssl}
    (tool : IsAes128Cbc openssl) {firmware : List Byte} {n : Nat} (signable : Signable firmware n)
    (long : 0x1D0 ≤ n) (short : n ≤ maxFwLength) {version : Int} (nonneg : 0 ≤ version)
    (small : version < 2 ^ 32) (partly : n % 16 ≠ 0) (whole : n % 16 ≠ 1)
    (plain : n % 16 = 2 → PlainEnd firmware) :
    ∃ image, signFirmware openssl firmware version = .ok image ∧
      ∀ flash0 s (rounds : List (List ExchangeEvent)),
        ExchangeStart drv validateFlash flash0 image s →
        (∀ es ∈ rounds, Round es) → roundsFor image ≤ rounds.length →
        Lib.Run.Meets (exchangeStep drv validateFlash) InTime s rounds.flatten →
        ImageInstalled flash0 image
          (Lib.Run.run (exchangeStep drv validateFlash) s rounds.flatten) := by
  obtain ⟨fwImage, -, -, signed⟩ :=
    signFirmware_ok tool signable long short version nonneg small
  refine ⟨_, signed, ?_⟩
  intro flash0 s rounds start fair enough inTime
  have ok := signed_installable tool signable long short nonneg small signed flash0 partly whole
    plain
  exact start.underway.installs ok fair enough inTime

/-- An image of 0x1D8 bytes. -/
theorem signed_update_completes_0x1D8 : ∃ image,
    signFirmware aes128Cbc (firmwareOf (blankImage 0x1D8) 0x1D8) 0 = .ok image ∧
      ImageInstalled (fun _ => 0) image (Lib.Run.run (exchangeStep stm32Flash validateFlash)
        (freshExchange stm32Flash validateFlash (fun _ => 0) image)
        (List.replicate (roundsFor image) promptRound).flatten) := by
  obtain ⟨image, signed, installs⟩ := signed_update_completes stm32Flash (fun _ _ _ => rfl)
    (firmwareOf_signable (m := blankImage 0x1D8) (n := 0x1D8) (fun _ _ => rfl) (by decide))
    (by decide) (by decide) (by decide : (0 : Int) ≤ 0) (by decide) (by decide) (by decide)
    (fun two => absurd two (by decide))
  exact ⟨image, signed, installs _ _ _
    (freshExchange_start stm32Flash validateFlash (fun _ => 0) image) (promptRound_fair _)
    List.length_replicate.ge (prompt_inTime stm32Flash validateFlash (fun _ => 0) image _)⟩

/-! ## Recovery -/

section Recovery

variable (drv : FlashDriver) (validate : Flash → Option Bool) (flash0 : Flash)

/-- What was in the application area before does not matter. -/
theorem withImage_congr {flash1 : Flash} (fwImage : List Byte)
    (same : ∀ a, ¬InAppArea a → flash1 a = flash0 a) :
    withImage flash1 fwImage = withImage flash0 fwImage := by
  funext a
  unfold withImage
  split
  · rfl
  · rename_i outside
    exact same a outside

/-- The bootloader's steps of a life are those of its boots. -/
theorem deviceRun_boots (es : List DeviceEvent) (bs : List BootEvent) :
    (deviceRun drv validate flash0 (es ++ bs.map .boot)).boot =
      Lib.Run.run (bootStep drv validate) (deviceRun drv validate flash0 es).boot bs := by
  induction bs using List.reverseRecOn with
  | nil => rw [List.map_nil, List.append_nil, Lib.Run.run_nil]
  | append_singleton bs e ih =>
    rw [List.map_append, ← List.append_assoc, Lib.Run.run_concat, ← ih]
    exact congrArg Device.boot (Lib.Run.run_concat ..)

/-- Whatever happened to a device, bytes from anyone, resets and power failures in the middle
of a flash operation: one reset and one boot later it can run any image that can be
installed, with the image alone in the application area and the bootloader as it was when the
device was new. -/
theorem device_recovers {fwImage : List Byte} (ok : Installable validate flash0 fwImage)
    (history : List DeviceEvent) : ∃ bs : List BootEvent,
      (deviceRun drv validate flash0 (history ++ [.reset] ++ bs.map .boot)).boot.flash =
          withImage flash0 fwImage ∧
        .jumped ∈
          (deviceRun drv validate flash0 (history ++ [.reset] ++ bs.map .boot)).boot.trace := by
  generalize flash1_eq : (deviceRun drv validate flash0 history).boot.flash = flash1
  have kept (a : Nat) (outside : ¬InAppArea a) : flash1 a = flash0 a := by
    rw [← flash1_eq]
    exact (deviceRun_inv drv validate flash0 history).outside outside
  have same := withImage_congr flash0 fwImage kept
  have ok' : Installable validate flash1 fwImage :=
    ⟨ok.fits, ok.device, ok.whole, ok.plain, same.symm ▸ ok.valid⟩
  -- the boot of an update that starts fresh and is prompt
  have installed := (freshExchange_start drv validate flash1 fwImage).underway.installs ok'
    (promptRound_fair _) List.length_replicate.ge
    (prompt_inTime drv validate flash1 fwImage (roundsFor fwImage))
  obtain ⟨bs, boots⟩ := exchangeRun_boot drv validate (freshExchange drv validate flash1 fwImage)
    (List.replicate (roundsFor fwImage) promptRound).flatten
  have life : (deviceRun drv validate flash0 (history ++ [.reset] ++
      (syncEvents ++ bs).map .boot)).boot = Lib.Run.run (bootStep drv validate)
        (freshExchange drv validate flash1 fwImage).boot bs := by
    rw [deviceRun_boots]
    have reset : (deviceRun drv validate flash0 (history ++ [.reset])).boot = bootInit flash1 := by
      rw [← flash1_eq]
      exact congrArg Device.boot (Lib.Run.run_concat ..)
    rw [reset, Lib.Run.run_append]
    rfl
  refine ⟨syncEvents ++ bs, ?_, ?_⟩
  · rw [life, ← boots, installed.flash, same]
  · rw [life, ← boots]
    exact installed.jumped

end Recovery

/-- The handshake, and the power fails in the erase. -/
def tornErase : List DeviceEvent :=
  ((handshakeEvents 0x20).take 135).map .boot ++ [.cut fun _ => 0xa5]

/-- The application area holds what the power failure left there. -/
example : (deviceRun stm32Flash validateFlash (fun _ => 0) tornErase).boot.flash
    mainAppStartAddress = 0xa5 := by decide +kernel

theorem device_recovers_torn : ∃ fwImage, ∃ bs : List BootEvent,
    (deviceRun stm32Flash validateFlash (fun _ => 0)
      (tornErase ++ [.reset] ++ bs.map .boot)).boot.flash = withImage (fun _ => 0) fwImage ∧
    .jumped ∈ (deviceRun stm32Flash validateFlash (fun _ => 0)
      (tornErase ++ [.reset] ++ bs.map .boot)).boot.trace := by
  have tool : IsAes128Cbc aes128Cbc := fun _ _ _ => rfl
  have signable := firmwareOf_signable (m := blankImage 0x1D8) (n := 0x1D8) (fun _ _ => rfl)
    (by decide)
  obtain ⟨fwImage, -, -, signed⟩ :=
    signFirmware_ok tool signable (by decide) (by decide) 0 (by decide) (by decide)
  have ok := signed_installable tool signable (by decide) (by decide) (by decide) (by decide)
    signed (fun _ => 0) (by decide) (by decide) (fun two => absurd two (by decide))
  obtain ⟨bs, recovered⟩ := device_recovers stm32Flash validateFlash (fun _ => 0) ok tornErase
  exact ⟨_, bs, recovered⟩

end SecureBootloader
