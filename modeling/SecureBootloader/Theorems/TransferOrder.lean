import SecureBootloader.Link.TransferInv
import SecureBootloader.Theorems.FlashContent

/-!
# The order of the firmware data

RETX asks for whatever was sent last, and packets carry no number. The bytes in
the flash are the first bytes of the image as long as no chunk is lost, repeated
or overtaken on the way.
-/

namespace SecureBootloader

/-- The bytes programmed so far. -/
def programmedBytes (s : Boot) : List Byte :=
  (List.range s.bytesWritten).map fun i => s.flash (mainAppStartAddress + i)

/-- The start of a transfer: the bootloader has erased the application and entered
RECEIVE_FW, whatever happened before, and no packet for it is unread or on its way;
the host enters its transfer loop. Control packets, damaged frames and what the
bootloader has sent may still be in flight. -/
structure TransferStart (drv : FlashDriver) (validate : Flash → Option Bool) (flash0 : Flash)
    (fwImage : List Byte) (s : Transfer) : Prop where
  run : ∃ es, s.boot = bootRun drv validate flash0 es
  receiving : s.boot.bootloaderState = .receiveFw
  nothing : s.boot.bytesWritten = 0
  read : s.boot.rxRingBuffer.readIndex = s.boot.rxRingBuffer.writeIndex
  between : s.boot.comms.currentState = .length
  taken : commsPacketAvailable s.boot.comms = false
  none : s.inFlight = []
  host : s.host.phase = .transfer ∧ s.host.byteWritten = 0
  image : s.host.fwImage = fwImage
  rx : s.host.link.rxBuffer = []

section Runs

variable {drv : FlashDriver} {validate : Flash → Option Bool} {flash0 : Flash}
  {fwImage : List Byte} {s : Transfer}

/-- The flash holds what the accepted packets carried. -/
theorem programmedBytes_eq {b : Boot} (inv : SessionInv flash0 b.session) :
    programmedBytes b = b.trace.payload := by
  rcases inv.cases with ⟨untouched, -⟩ | updating
  · have none : b.bytesWritten = 0 := untouched.count
    have nothing : b.trace.accepted = [] := untouched.accepted
    rw [programmedBytes, none, Trace.payload, nothing]
    rfl
  · exact updating.updateContent.written

theorem TransferInv.programmed (inv : TransferInv drv validate flash0 fwImage s) :
    programmedBytes s.boot <+: fwImage := by
  rw [programmedBytes_eq inv.boot.sessionInv]
  refine payload_prefix ?_
  rcases inv.order with ⟨-, order, -⟩ | ⟨-, order⟩
  · exact ((List.prefix_append ..).trans (List.prefix_append ..)).trans order
  · exact order

/-- Without a byte nothing was accepted. -/
theorem accepted_eq_nil {t : Trace} (h : t.payload.length = 0) : t.accepted = [] := by
  rw [Trace.payload, List.length_eq_zero_iff, List.flatMap_eq_nil_iff] at h
  refine List.eq_nil_iff_forall_not_mem.mpr ?_
  intro packet member
  have none := congrArg List.length (h packet member)
  rw [chunkOf_length] at none
  exact absurd none (Nat.succ_ne_zero _)

theorem TransferStart.bootSide (start : TransferStart drv validate flash0 fwImage s) :
    BootSide drv validate flash0 s.boot := by
  refine ⟨start.run, start.read, ?_⟩
  obtain ⟨es, run⟩ := start.run
  have part : Partial s.boot.comms (tailOf s.boot.trace.commsBytes) := by
    rw [run]
    exact (bootRun_queueInv drv validate flash0 es).part
  have none : tailOf s.boot.trace.commsBytes = [] := part.eq_nil start.between
  exact none ▸ part

theorem TransferStart.inv (start : TransferStart drv validate flash0 fwImage s) :
    TransferInv drv validate flash0 fwImage s := by
  have boot := start.bootSide
  have sent : s.host.chunksSent = 0 := by
    rw [Updater.Host.chunksSent, start.host.2]
  have accepted : s.boot.trace.accepted = [] := by
    refine accepted_eq_nil ?_
    have count := (boot.sessionInv.updating start.receiving).1.count
    exact count.symm.trans start.nothing
  have queue : s.boot.comms.queue = [] := by
    by_contra some
    have := (commsPacketAvailable_iff boot.queueOk).mpr some
    rw [start.taken] at this
    cases this
  have delivered : s.delivered = [] := by
    rw [Transfer.delivered, accepted, queue, start.none]
    rfl
  refine ⟨boot, ⟨start.image, start.rx, ?_, ?_⟩, .inl ⟨start.receiving, ?_, ?_⟩⟩
  · rw [start.host.2, sent]
    exact (Nat.zero_min _).symm
  · intro _ some
    rw [sent] at some
    cases some
  · rw [delivered]
    exact List.nil_prefix
  · rw [delivered]
    exact Nat.zero_le _

/-- In every run from such a start whose steps lose, repeat and overtake no chunk: in
every state the programmed bytes are the first bytes of the image. -/
theorem programmed_in_order (start : TransferStart drv validate flash0 fwImage s)
    (es : List TransferEvent)
    (orderly : Lib.Run.Meets (transferStep drv validate) Orderly s es) :
    ∀ es', es' <+: es →
      programmedBytes (Lib.Run.run (transferStep drv validate) s es').boot <+: fwImage := by
  intro es' hprefix
  have inv := Lib.Run.run_invariant_of_meets
    (P := fun s => TransferInv drv validate flash0 fwImage s) (C := Orderly)
    (fun s e inv h => inv.step h) start.inv (orderly.of_prefix hprefix)
  exact inv.programmed

end Runs

section Decidable

variable (s : Transfer)

instance (h : Updater.Host) : Decidable h.ReadyToSend :=
  inferInstanceAs (Decidable (_ ∧ _ ∧ ∃ packet ∈ h.link.packets.head?, _ ∧ _))

instance (h : Updater.Host) : Decidable h.Listening := inferInstanceAs (Decidable (_ ∨ _))

instance : Decidable s.ReadsWithRoom :=
  inferInstanceAs (Decidable (_ → ∀ f ∈ s.toBoot.head?, _ → _))

instance : Decidable s.ResendsMissing :=
  inferInstanceAs (Decidable (_ → ∀ f ∈ s.toHost.head?, _ → _ → _))

instance : Decidable s.SendsInTurn := inferInstanceAs (Decidable (_ → _))

instance (i : Nat) (bytes : CommsPacket) : Decidable (s.DamagesLast i bytes) :=
  inferInstanceAs (Decidable (_ → ∀ f ∈ s.toBoot[i]?, _ → ∀ g ∈ s.toBoot.drop (i + 1), _))

instance (e : TransferEvent) : Decidable (Orderly s e) :=
  match e with
  | .bootReads => inferInstanceAs (Decidable (_ → s.ReadsWithRoom))
  | .hostReads => inferInstanceAs (Decidable (_ → s.ResendsMissing))
  | .hostMain => inferInstanceAs (Decidable (_ → s.SendsInTurn))
  | .damage .bootloader i bytes => inferInstanceAs (Decidable (_ → s.DamagesLast i bytes))
  | .damage .host _ _ | .bootMain | .bootTick | .hostTimeout =>
    inferInstanceAs (Decidable (_ → True))

end Decidable

/-! ## A chunk that is programmed twice -/

/-- READY_FOR_DATA. -/
def readyForData : CommsPacket := commsCreateSingleBytePacket blPacketReadyForDataData0

/-- An image of `n` different bytes. -/
def countingImage (n : Nat) : List Byte := (List.range n).map (BitVec.ofNat 8)

/-- The start of the transfer of `countingImage`, with READY_FOR_DATA in flight. -/
def countingTransfer (n : Nat) : Transfer where
  boot := bootRun stm32Flash validateFlash (fun _ => 0) (handshakeEvents (BitVec.ofNat 8 n))
  host :=
    { link := ⟨[], [], packetOf 5 [blPacketFwLengthResData0, BitVec.ofNat 8 n, 0, 0, 0]⟩
      fwImage := countingImage n
      byteWritten := 0
      phase := .transfer }
  toBoot := []
  toHost := [.clean readyForData]

theorem countingTransfer_run (n : Nat) : ∃ es,
    (countingTransfer n).boot = bootRun stm32Flash validateFlash (fun _ => 0) es := by
  refine ⟨handshakeEvents (BitVec.ofNat 8 n), ?_⟩
  simp only [countingTransfer]

/-- The ACK for READY_FOR_DATA is damaged while the first data packet is behind it:
the RETX that asks for the ACK is answered with the data packet. -/
def repeatEvents : List TransferEvent :=
  [.hostReads, .hostMain, .damage .bootloader 0 noise, .bootMain, .bootReads, .bootReads,
    .bootMain, .bootMain, .hostReads, .bootMain, .bootReads, .bootMain, .bootMain]

theorem repeated_not_in_order :
    ¬programmedBytes (Lib.Run.run (transferStep stm32Flash validateFlash) (countingTransfer 48)
      repeatEvents).boot <+: countingImage 48 := by
  decide +kernel

/-- A data packet is damaged and sent again, and the transfer completes. -/
def recoverEvents : List TransferEvent :=
  [.hostReads, .hostMain, .damage .bootloader 1 noise, .bootMain, .bootReads, .bootReads,
    .hostReads, .bootReads, .bootMain, .bootMain, .hostReads, .hostReads, .hostMain, .bootMain,
    .bootReads, .bootReads, .bootMain, .bootMain]

theorem programmed_in_order_recoverEvents :
    programmedBytes (Lib.Run.run (transferStep stm32Flash validateFlash) (countingTransfer 32)
      recoverEvents).boot <+: countingImage 32 := by
  have start : TransferStart stm32Flash validateFlash (fun _ => 0) (countingImage 32)
      (countingTransfer 32) :=
    { run := countingTransfer_run 32
      receiving := by decide +kernel
      nothing := by decide +kernel
      read := by decide +kernel
      between := by decide +kernel
      taken := by decide +kernel
      none := rfl
      host := ⟨rfl, rfl⟩
      image := rfl
      rx := rfl }
  exact programmed_in_order start recoverEvents (by decide +kernel) recoverEvents
    (List.prefix_refl _)

/-- The transfer completes. -/
example : programmedBytes (Lib.Run.run (transferStep stm32Flash validateFlash)
    (countingTransfer 32) recoverEvents).boot = countingImage 32 := by decide +kernel

end SecureBootloader
