import SecureBootloader.Boot.Since
import SecureBootloader.Theorems.FlashGuard
import SecureBootloader.Updater.Chunk

/-!
# Firmware chunks in data packets

The length byte of a data packet is one less than the size of its chunk, RECEIVE_FW
refuses a length byte of zero, and control packets are looked for first. A chunk
gets through exactly when it has two bytes or more and is not one of the two that,
padded, are the ACK and the RETX.
-/

namespace SecureBootloader

/-- A bootloader in RECEIVE_FW, between two frames and with an empty queue, has read
the packet of a chunk, and nothing else, and the `switch` is next. -/
structure ChunkDelivered (drv : FlashDriver) (validate : Flash → Option Bool)
    (chunk : List Byte) (s : Boot) (es : List BootEvent) : Prop where
  receiving : s.bootloaderState = .receiveFw
  boundary : s.comms.currentState = .length
  empty : commsPacketAvailable s.comms = false
  read : ((Lib.Run.run (bootStep drv validate) s es).since s.trace.length).commsBytes =
    Updater.toBuffer (chunkPacket chunk)
  untaken : ((Lib.Run.run (bootStep drv validate) s es).since s.trace.length).taken = []
  still : (Lib.Run.run (bootStep drv validate) s es).bootloaderState = .receiveFw
  turn : (Lib.Run.run (bootStep drv validate) s es).pc = .dispatch

/-- The packet is in the queue, and the next step programs exactly the chunk behind the
`bytes_written` bytes before it. -/
structure ChunkProgrammed (drv : FlashDriver) (validate : Flash → Option Bool)
    (chunk : List Byte) (t : Boot) : Prop where
  queued : t.comms.queue = [chunkPacket chunk]
  programmed : ∃ rest : Trace, (bootStep drv validate t .main).trace = t.trace ++
    [.taken (chunkPacket chunk), .accepted (chunkPacket chunk),
      .programmed (mainAppStartAddress + t.bytesWritten) chunk] ++ rest ∧ rest.flashOps = []
  flash : (bootStep drv validate t .main).flash =
    blFlashWrite drv (mainAppStartAddress + t.bytesWritten) chunk t.flash
  count : (bootStep drv validate t .main).bytesWritten = t.bytesWritten + chunk.length

/-! ## The queue -/

section Queue

variable {drv : FlashDriver} {validate : Flash → Option Bool} {s : Boot}

/-- From a fresh receiver on, one frame does not run over the queue. -/
theorem Fresh.no_overrun (fresh : Fresh s.comms) (es : List BootEvent)
    (short : ((Lib.Run.run (bootStep drv validate) s es).since s.trace.length).commsBytes.length ≤
      18) :
    .overrun ∉ (Lib.Run.run (bootStep drv validate) s es).since s.trace.length := by
  have nothing : (s.session.since s.trace.length).trace = [] := List.drop_length
  refine (since_run drv validate (P := fun v => QueueInv v ∧
    (v.trace.commsBytes.length ≤ 18 → .overrun ∉ v.trace)) (Nat.le_refl _)
      ⟨Fresh.queueInv (v := s.session) fresh, ?_⟩ ?_ es).2 short
  · intro _
    rw [nothing]
    exact List.not_mem_nil
  · rintro v v' ⟨inv, safe⟩ step
    refine ⟨inv.step step, ?_⟩
    intro short'
    have most := packetsOf_length_le v'.trace.commsBytes
    have read := (receiverStep step).commsBytes_le.trans short'
    exact inv.no_overrun (receiverStep step) (safe read) (by omega)

/-- The queue after the packet of a chunk has been read. -/
theorem ChunkDelivered.queue {chunk : List Byte} {es : List BootEvent}
    (delivered : ChunkDelivered drv validate chunk s es) (fresh : Fresh s.comms) :
    (Lib.Run.run (bootStep drv validate) s es).comms.queue =
      [chunkPacket chunk].filter fun packet => frameKind packet = .packet := by
  have inv := fresh.run_queueInv drv validate es
  have length : ((Lib.Run.run (bootStep drv validate) s es).since
      s.trace.length).commsBytes.length ≤ 18 := by
    rw [delivered.read, Updater.toBuffer_eq, CommsPacket.bytes_length]
  have fifo := inv.fifo (fresh.no_overrun es length)
  have stored := inv.stored
  have read : Trace.commsBytes (Session.since s.trace.length
      (Lib.Run.run (bootStep drv validate) s es).session).trace =
        [chunkPacket chunk].flatMap CommsPacket.bytes :=
    delivered.read.trans (List.flatMap_singleton ..).symm
  have untaken : Trace.taken (Session.since s.trace.length
      (Lib.Run.run (bootStep drv validate) s es).session).trace = [] := delivered.untaken
  rw [stored, untaken, List.nil_append, read, packetsOf_bytes] at fifo
  exact fifo.symm

end Queue

/-! ## The step that takes the packet -/

section Step

variable {drv : FlashDriver} {validate : Flash → Option Bool}

/-- With the packet of a chunk in the queue it is the size that matters. -/
theorem chunkProgrammed_iff_length {flash0 : Flash} {t : Boot} {chunk : List Byte}
    (inv : SessionInv flash0 t.session) (ok : QueueOk t.comms)
    (state : t.bootloaderState = .receiveFw) (turn : t.pc = .dispatch)
    (queue : t.comms.queue = [chunkPacket chunk])
    (least : 1 ≤ chunk.length) (most : chunk.length ≤ 16) :
    ChunkProgrammed drv validate chunk t ↔ 2 ≤ chunk.length := by
  have available : commsPacketAvailable t.comms = true := by
    rw [commsPacketAvailable_iff ok, queue]
    exact List.cons_ne_nil _ _
  have next : t.session.nextPacket = chunkPacket chunk := by
    have front := commsReceivePacket_queue ok available
    rw [queue] at front
    exact (List.cons.inj front).1.symm
  have room : t.session.bytesWritten < maxFwLength := (inv.updating state).2 (by
    show t.pc ≠ .gone
    rw [turn]
    decide)
  have small : maxFwLength = 0x38000 := rfl
  have start : mainAppStartAddress = 0x08008000 := rfl
  have address : t.session.writeAddress = mainAppStartAddress + t.session.bytesWritten :=
    Nat.mod_eq_of_lt (by omega)
  rcases receiveFw_step turn state available (dispatch_session drv validate turn) with
    ⟨lengthOk, ⟨last, trace, quiet⟩, flash, count, -⟩ | ⟨wrong, trace⟩
  · rw [next] at lengthOk trace flash count
    rw [address, chunkOf_chunkPacket least most] at trace flash
    rw [chunkLength_chunkPacket least most] at count
    refine iff_of_true ⟨queue, ⟨[last], trace, ?_⟩, flash, ?_⟩
      ((dataLengthOk_chunkPacket least most).mp lengthOk)
    · rw [Trace.flashOps, List.filter_singleton, quiet]
      rfl
    · exact count.trans (Nat.mod_eq_of_lt (by omega))
  · rw [next, dataLengthOk_chunkPacket least most] at wrong
    refine iff_of_false ?_ wrong
    intro programmed
    obtain ⟨rest, same, -⟩ := programmed.programmed
    -- a NACK is not the acceptance of the packet
    have both := List.append_cancel_left ((trace.symm.trans same).trans (List.append_assoc ..))
    injection both with _ tail
    injection tail with differs _
    cases differs

end Step

/-! ## Every chunk -/

section Runs

variable (drv : FlashDriver) (validate : Flash → Option Bool) (flash0 : Flash)
  (es : List BootEvent)

/-- Of a chunk of 1 to 16 bytes: its packet is queued as a data packet and makes the
bootloader program exactly the chunk, if and only if the chunk has two bytes or more and
is neither 15 FF nor 19 FF. -/
theorem chunk_programmed_iff {chunk : List Byte} (least : 1 ≤ chunk.length)
    (most : chunk.length ≤ 16) {es' : List BootEvent}
    (delivered : ChunkDelivered drv validate chunk (bootRun drv validate flash0 es) es') :
    ChunkProgrammed drv validate chunk
        (Lib.Run.run (bootStep drv validate) (bootRun drv validate flash0 es) es') ↔
      2 ≤ chunk.length ∧ chunk ≠ [packetAckData0, 0xff] ∧ chunk ≠ [packetRetxData0, 0xff] := by
  have queue := delivered.queue
    (bootRun_fresh drv validate flash0 es delivered.boundary delivered.empty)
  have still := delivered.still
  have turn := delivered.turn
  have run : Lib.Run.run (bootStep drv validate) (bootRun drv validate flash0 es) es' =
      bootRun drv validate flash0 (es ++ es') := (Lib.Run.run_append _ _ _ _).symm
  rw [run] at queue still turn ⊢
  have inv := bootRun_sessionInv drv validate flash0 (es ++ es')
  have ok := (bootRun_queueInv drv validate flash0 (es ++ es')).ok
  generalize bootRun drv validate flash0 (es ++ es') = t at inv ok queue still turn ⊢
  rw [List.filter_singleton] at queue
  rw [← frameKind_chunkPacket least most]
  by_cases packet : frameKind (chunkPacket chunk) = .packet
  · rw [decide_eq_true packet] at queue
    rw [chunkProgrammed_iff_length inv ok still turn queue least most]
    exact (and_iff_left packet).symm
  · rw [decide_eq_false packet] at queue
    refine iff_of_false ?_ fun ok => packet ok.2
    intro programmed
    exact absurd (queue.symm.trans programmed.queued) (by simp)

end Runs

/-! ## A chunk that gets through and one that does not -/

instance (drv : FlashDriver) (validate : Flash → Option Bool) (chunk : List Byte) (s : Boot)
    (es : List BootEvent) : Decidable (ChunkDelivered drv validate chunk s es) :=
  decidable_of_iff (_ ∧ _ ∧ _ ∧ _ ∧ _ ∧ _ ∧ _)
    ⟨fun ⟨receiving, boundary, empty, read, untaken, still, turn⟩ =>
      ⟨receiving, boundary, empty, read, untaken, still, turn⟩,
    fun h => ⟨h.receiving, h.boundary, h.empty, h.read, h.untaken, h.still, h.turn⟩⟩

/-- The packet of a chunk arrives, and `comms_update` has read it. -/
def chunkEvents (chunk : List Byte) : List BootEvent :=
  .main :: arrivals (chunkPacket chunk).bytes ++ [.main]

theorem chunk_programmed_iff_two_bytes :
    ChunkProgrammed stm32Flash validateFlash [0xab, 0xcd]
      (Lib.Run.run (bootStep stm32Flash validateFlash) handshakeRun
        (chunkEvents [0xab, 0xcd])) :=
  (chunk_programmed_iff stm32Flash validateFlash (fun _ => 0) (handshakeEvents 0x20)
    (by decide) (by decide) (by decide +kernel)).mpr (by decide)

/-- A chunk of one byte, as an image of 17 bytes ends with: its packet is refused. -/
theorem one_byte_chunk_refused :
    let last : List Byte := [0xab]
    let received := Lib.Run.run (bootStep stm32Flash validateFlash) handshakeRun (chunkEvents last)
    ChunkDelivered stm32Flash validateFlash last handshakeRun (chunkEvents last) ∧
      received.bytesWritten < received.firmwareLength ∧
      ¬ChunkProgrammed stm32Flash validateFlash last received := by
  refine ⟨by decide +kernel, by decide +kernel, ?_⟩
  intro programmed
  have count := programmed.count
  revert count
  decide +kernel

end SecureBootloader
