import SecureBootloader.Link.Greeting
import SecureBootloader.Theorems.UpdateCompletes

/-!
# An update from the first sync sequence on

The bootloader boots, the host writes its sync sequence and looks for the answer a second
later. If everything is quiet by then, the update that follows installs its image.
-/

namespace SecureBootloader

section Boot

variable {drv : FlashDriver} {validate : Flash → Option Bool} {flash0 : Flash} {timeWaited : Nat}
  {es : List GreetingEvent} (early : .hostDelay ∉ es)
  (inTime : Lib.Run.Meets (greetingStep drv validate) Greeting.InTime
    (greetingStart flash0 timeWaited) es)
include early inTime

theorem greeting_greets (fwImage : List Byte) : Greets drv validate flash0 fwImage
    (Lib.Run.run (greetingStep drv validate) (greetingStart flash0 timeWaited) es) :=
  Greets.run (.start timeWaited) early inTime

/-- Whatever the host means to send and whatever is in the flash: in every interleaving in which
no timer of the bootloader runs out and everything is quiet when the second is over, the host is
synchronised. -/
theorem greeting_synced {g : Greeting}
    (greeted : g = Lib.Run.run (greetingStep drv validate) (greetingStart flash0 timeWaited) es)
    (quiet : g.Quiet) : g.hostDelay.sync.phase = .synced := by
  rw [greeted] at quiet ⊢
  exact ((greeting_greets early inTime []).delay quiet).1

end Boot

/-- Host and bootloader from the boot on: the host is synchronised, and the update that it then
begins installs the image, if it can be installed, in every interleaving in which no timer runs
out and each party gets its turn often enough. -/
theorem cold_update_completes {drv : FlashDriver} {validate : Flash → Option Bool} {flash0 : Flash}
    {fwImage : List Byte} (ok : Installable validate flash0 fwImage) (timeWaited : Nat)
    {es : List GreetingEvent} (early : .hostDelay ∉ es)
    (inTime : Lib.Run.Meets (greetingStep drv validate) Greeting.InTime
      (greetingStart flash0 timeWaited) es) {g : Greeting}
    (greeted : g = Lib.Run.run (greetingStep drv validate) (greetingStart flash0 timeWaited) es)
    (quiet : g.Quiet) {rounds : List (List ExchangeEvent)} (fair : ∀ es ∈ rounds, Round es)
    (enough : roundsFor fwImage ≤ rounds.length)
    (inTime' : Lib.Run.Meets (exchangeStep drv validate) InTime (g.hostDelay.begins fwImage)
      rounds.flatten) :
    g.hostDelay.sync.phase = .synced ∧ ImageInstalled flash0 fwImage
      (Lib.Run.run (exchangeStep drv validate) (g.hostDelay.begins fwImage) rounds.flatten) := by
  refine ⟨greeting_synced early inTime greeted quiet, ?_⟩
  have greets := greeting_greets early inTime fwImage
  rw [← greeted] at greets
  obtain ⟨-, n, under⟩ := greets.delay quiet
  exact under.installs ok fair enough inTime'

/-- A byte arrives, both programs get their turn, and no time passes; as often as it takes. -/
def promptGreeting : List GreetingEvent :=
  (List.replicate 24 [.bootRx, .bootMain, .bootMain, .bootMain, .hostData 18]).flatten

/-- The synchronisation of an empty part. -/
def promptlyGreeted : Greeting :=
  Lib.Run.run (greetingStep stm32Flash validateFlash) (greetingStart (fun _ => 0) 0) promptGreeting

theorem promptlyGreeted_quiet : promptlyGreeted.Quiet :=
  ⟨by decide +kernel, by decide +kernel, by decide +kernel, by decide +kernel⟩

theorem promptGreeting_inTime : Lib.Run.Meets (greetingStep stm32Flash validateFlash)
    Greeting.InTime (greetingStart (fun _ => 0) 0) promptGreeting := by
  decide +kernel

theorem promptlyGreeted_early : (promptlyGreeted.boot.timer.waitTime = defaultTimeoutMs ∧
    promptlyGreeted.boot.tickCount + 0 < promptlyGreeted.boot.timer.targetTime) ∧
      promptlyGreeted.boot.tickCount < 2 ^ 32 := by
  decide +kernel

/-- The second has just passed, and every later step finds the timer early. -/
theorem promptlyGreeted_inTime (fwImage : List Byte) (rounds : Nat) :
    Lib.Run.Meets (exchangeStep stm32Flash validateFlash) InTime
      (promptlyGreeted.hostDelay.begins fwImage) (List.replicate rounds promptRound).flatten := by
  have greets : Greets stm32Flash validateFlash (fun _ => 0) fwImage promptlyGreeted :=
    greeting_greets (by decide +kernel) promptGreeting_inTime fwImage
  obtain ⟨-, n, ⟨said, arrived, seen, inv⟩, -⟩ := greets.delay promptlyGreeted_quiet
  have boot := begins_boot promptlyGreeted fwImage
  refine promptRounds_inTime inv.boot.run ?_ ?_ rounds
  · rw [boot]
    exact .inr promptlyGreeted_early.1
  · rw [boot]
    exact promptlyGreeted_early.2

/-- The blank image, signed. -/
theorem cold_update_completes_signed : ∃ image,
    Signer.signFirmware Signer.aes128Cbc (firmwareOf (blankImage 0x1D8) 0x1D8) 0 = .ok image ∧
      ImageInstalled (fun _ => 0) image (Lib.Run.run (exchangeStep stm32Flash validateFlash)
        (promptlyGreeted.hostDelay.begins image)
        (List.replicate (roundsFor image) promptRound).flatten) := by
  have tool : IsAes128Cbc Signer.aes128Cbc := fun _ _ _ => rfl
  have signable := firmwareOf_signable (m := blankImage 0x1D8) (n := 0x1D8) (fun _ _ => rfl)
    (by decide)
  obtain ⟨fwImage, -, -, signed⟩ :=
    signFirmware_ok tool signable (by decide) (by decide) 0 (by decide) (by decide)
  have ok := signed_installable tool signable (by decide) (by decide) (by decide) (by decide)
    signed (fun _ => 0) (by decide) (by decide) (fun two => absurd two (by decide))
  have early : .hostDelay ∉ promptGreeting := by decide +kernel
  exact ⟨_, signed, (cold_update_completes ok 0 early promptGreeting_inTime rfl
    promptlyGreeted_quiet (promptRound_fair _) List.length_replicate.ge
    (promptlyGreeted_inTime _ _)).2⟩

end SecureBootloader
