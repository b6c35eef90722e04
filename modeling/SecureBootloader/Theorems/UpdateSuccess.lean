import SecureBootloader.Link.ExchangeInv
import SecureBootloader.Theorems.TransferOrder

/-!
# Success at the host

The host reports success when it has heard UPDATE_SUCCESSFUL. By then the image is in the
flash, complete, and the validator has accepted it; and until then the flash holds the
front part of the image that has been written.
-/

namespace SecureBootloader

/-- The application area starts with exactly the image, and the validator accepts it. -/
structure ImageInFlash (validate : Flash → Option Bool) (fwImage : List Byte) (b : Boot) :
    Prop where
  count : b.bytesWritten = fwImage.length
  content : ∀ i < fwImage.length, b.flash (mainAppStartAddress + i) = fwImage.getD i 0
  valid : validate b.flash = some true

/-- FW_LENGTH_RES announces the length of the image. -/
theorem fwLengthPacket_announces {fwImage : List Byte} {length : Nat}
    (short : fwImage.length < 2 ^ 32)
    (announced : IsFwLengthRes (Updater.fwLengthPacket fwImage) length) :
    length = fwImage.length := by
  obtain ⟨b1, b2, b3, b4, ⟨-, data⟩, rfl⟩ := announced
  have padded := padded_eq
    (blPacketFwLengthResData0 :: (List.range 4).map (leByte fwImage.length)) (by simp)
  have same := List.append_inj_left (padded.symm.trans data) rfl
  obtain ⟨rfl, rfl, rfl, rfl⟩ : leByte fwImage.length 0 = b1 ∧ leByte fwImage.length 1 = b2 ∧
      leByte fwImage.length 2 = b3 ∧ leByte fwImage.length 3 = b4 := by
    simpa [List.range_succ] using same
  exact le32_leByte short

section Inv

variable {drv : FlashDriver} {validate : Flash → Option Bool} {flash0 : Flash}
  {fwImage : List Byte} {n : Nat} {s : Exchange} {said : List (Option CommsPacket)}
  {arrived seen : List Byte}
  (inv : ExchangeInv drv validate flash0 fwImage n s said arrived seen)
include inv

/-- The packets taken are the first ones of the script. -/
theorem ExchangeInv.taken_script : s.boot.trace.taken <+: script fwImage := by
  have stored := (readFront inv.read).stored_front inv.scripted
  have queued : (s.boot.since n).stored = (s.boot.since n).taken ++ s.boot.comms.queue :=
    inv.boot.dialogue.queue.fifo inv.boot.safe
  have read : (s.boot.since n).stored = packetsOf (s.boot.since n).commsBytes :=
    inv.boot.dialogue.queue.stored
  rw [inv.boot.since_eq.1]
  exact (List.prefix_append _ _).trans (queued ▸ read ▸ stored)

/-- The flash holds the front part of the image that has been written. -/
theorem ExchangeInv.programmed :
    programmedBytes s.boot = fwImage.take s.boot.bytesWritten := by
  have accepted : s.boot.trace.accepted <+: s.boot.trace.taken.drop 3 := by
    rw [inv.boot.since_eq.1, inv.boot.since_eq.2]
    exact inv.boot.dialogue.accepted
  have chunks : s.boot.trace.accepted <+: dataPackets fwImage :=
    accepted.trans (inv.taken_script.drop 3)
  have front : programmedBytes s.boot <+: fwImage := by
    rw [programmedBytes_eq inv.boot.sessionInv]
    exact payload_prefix chunks
  have length : (programmedBytes s.boot).length = s.boot.bytesWritten := by
    rw [programmedBytes, List.length_map, List.length_range]
  rw [List.prefix_iff_eq_take.mp front, length]

theorem ExchangeInv.image_in_flash (short : fwImage.length < 2 ^ 32)
    (finished : s.main.host.phase = .finished) : ImageInFlash validate fwImage s.boot := by
  obtain ⟨valid, complete, accepted⟩ := inv.boot.dialogue.success (inv.success finished)
  change s.boot.firmwareLength ≤ s.boot.bytesWritten at complete
  have updating : Updating flash0 s.boot.session := by
    refine inv.boot.sessionInv.cases.resolve_left ?_
    rintro ⟨untouched, -⟩
    have none : s.boot.trace.accepted = [] := untouched.accepted
    rw [inv.boot.since_eq.2] at none
    exact accepted none
  have announced : s.boot.firmwareLength = fwImage.length := by
    obtain ⟨front, rest, request, device, announced, more, trace, taken, -, -, shape, -⟩ :=
      updating.authorized
    have all := inv.taken_script
    change s.boot.trace = _ at trace
    rw [trace, Trace.taken_append, taken_map_syncByte, List.nil_append, taken] at all
    obtain ⟨behind, all⟩ := all
    rw [List.cons_append, List.cons_append, List.cons_append, script, List.cons.injEq,
      List.cons.injEq, List.cons.injEq] at all
    rw [all.2.2.1] at shape
    exact fwLengthPacket_announces short shape
  have programmed := inv.programmed
  have count : s.boot.bytesWritten = fwImage.length := by
    have length := congrArg List.length programmed
    rw [programmedBytes, List.length_map, List.length_range, List.length_take] at length
    omega
  refine ⟨count, ?_, valid⟩
  intro i inside
  rw [count, List.take_length] at programmed
  have here : (programmedBytes s.boot)[i]? = some (s.boot.flash (mainAppStartAddress + i)) := by
    rw [programmedBytes, List.getElem?_map, List.getElem?_range (count ▸ inside)]
    rfl
  rw [programmed] at here
  rw [List.getD_eq_getElem?_getD, here]
  rfl

end Inv

section Runs

variable {drv : FlashDriver} {validate : Flash → Option Bool} {flash0 : Flash}
  {fwImage : List Byte} {s : Exchange}

theorem ExchangeStart.run_inv (start : ExchangeStart drv validate flash0 fwImage s)
    (es : List ExchangeEvent) : ∃ said arrived seen,
      ExchangeInv drv validate flash0 fwImage s.boot.trace.length
        (Lib.Run.run (exchangeStep drv validate) s es) said arrived seen :=
  Lib.Run.run_invariant (P := fun t => ∃ said arrived seen,
    ExchangeInv drv validate flash0 fwImage s.boot.trace.length t said arrived seen)
    (fun _ e ⟨_, _, _, inv⟩ => inv.step e) start.inv es

/-- In every state of every run of an update: the bytes written to the application area are
the first bytes of the image, and if the host has reported success the application area
starts with exactly the image and the validator accepts the flash. -/
theorem success_image_in_flash (short : fwImage.length < 2 ^ 32)
    (start : ExchangeStart drv validate flash0 fwImage s) (es : List ExchangeEvent) :
    programmedBytes (Lib.Run.run (exchangeStep drv validate) s es).boot =
        fwImage.take (Lib.Run.run (exchangeStep drv validate) s es).boot.bytesWritten ∧
      ((Lib.Run.run (exchangeStep drv validate) s es).main.host.phase = .finished →
        ImageInFlash validate fwImage (Lib.Run.run (exchangeStep drv validate) s es).boot) := by
  obtain ⟨said, arrived, seen, inv⟩ := start.run_inv es
  exact ⟨inv.programmed, inv.image_in_flash short⟩

end Runs

/-- An image of `n` bytes with the id of this bootloader at its place. -/
def markedImage (n : Nat) : List Byte :=
  (List.range n).map fun i =>
    if i = Updater.fwinfoDeviceIdOffset then BitVec.ofNat 8 deviceId else BitVec.ofNat 8 i

/-- The sync sequence arrives, and the main program answers it. -/
def syncEvents : List BootEvent := .main :: arrivals syncBytes ++ [.main, .main]

/-- The start of an update with `markedImage`, the ACK of SYNC_OBSERVED on its way. -/
def markedExchange (n : Nat) : Exchange where
  boot := bootRun stm32Flash validateFlash (fun _ => 0) syncEvents
  main := ⟨.fwUpdateReq, ⟨⟨[], [], ackPacket⟩, markedImage n, 0, .transfer⟩⟩
  toBoot := ackPacket.bytes
  toHost := []

theorem markedExchange_run (n : Nat) : ∃ es,
    (markedExchange n).boot = bootRun stm32Flash validateFlash (fun _ => 0) es := by
  refine ⟨syncEvents, ?_⟩
  simp only [markedExchange]

/-- The host speaks, two frames reach the bootloader, and it answers. -/
def exchangeRound : List ExchangeEvent :=
  [.hostMain, .hostMain] ++ (List.replicate 36 [.bootRx, .bootMain]).flatten ++
    List.replicate 8 .bootMain ++ [.hostData 72]

/-- After five rounds the first chunk is in the flash. -/
theorem success_image_in_flash_markedExchange :
    programmedBytes (Lib.Run.run (exchangeStep stm32Flash validateFlash) (markedExchange 438)
      (List.replicate 5 exchangeRound).flatten).boot = (markedImage 438).take 16 := by
  have start : ExchangeStart stm32Flash validateFlash (fun _ => 0) (markedImage 438)
      (markedExchange 438) :=
    { run := markedExchange_run 438
      waiting := by decide +kernel
      read := by decide +kernel
      between := by decide +kernel
      taken := by decide +kernel
      stage := rfl
      phase := rfl
      written := rfl
      image := rfl
      packets := rfl
      rx := rfl
      toHost := rfl
      toBoot := .inr rfl }
  have written : (Lib.Run.run (exchangeStep stm32Flash validateFlash) (markedExchange 438)
      (List.replicate 5 exchangeRound).flatten).boot.bytesWritten = 16 := by decide +kernel
  have programmed :=
    (success_image_in_flash (by decide +kernel) start (List.replicate 5 exchangeRound).flatten).1
  rwa [written] at programmed

end SecureBootloader
