import SecureBootloader.Link.Progress

/-!
# What success requires

A host that reports success has sent an image that can be installed: each check the
bootloader makes on the way tells something about the image.
-/

namespace SecureBootloader

/-! ## Accepted packets -/

section Session

variable {drv : FlashDriver} {validate : Flash → Option Bool} {v v' : Session}

/-- The accepted packets passed the length check. -/
def AcceptedOk (v : Session) : Prop := ∀ packet ∈ v.trace.accepted, DataLengthOk packet

theorem AcceptedOk.step (h : AcceptedOk v) (step : SessionStep drv validate v v') :
    AcceptedOk v' := by
  have none {obs : Trace} (trace : v'.trace = v.trace ++ obs) (quiet : obs.accepted = []) :
      AcceptedOk v' := by
    intro packet member
    rw [trace, accepted_quiet quiet] at member
    exact h packet member
  have one {obs : Trace} (trace : v'.trace = v.trace ++ obs)
      (accepts : obs.accepted = [v.nextPacket]) (ok : DataLengthOk v.nextPacket) :
      AcceptedOk v' := by
    intro packet member
    rw [trace, Trace.accepted_append, accepts, List.mem_append, List.mem_singleton] at member
    rcases member with before | rfl
    · exact h packet before
    · exact ok
  cases step with
  | start | enter | drained | idle | syncIdle | unexpected =>
    exact none (List.append_nil _).symm rfl
  | timeout | syncTimeout | syncByte | syncMatch | flushByte | flushed | deviceIdReq |
      fwLengthReq => exact none rfl rfl
  | syncByteTimeout => exact none (List.append_assoc ..) rfl
  | commsByte byte hpc =>
    refine none (List.append_assoc ..) ?_
    rw [Trace.accepted_append, (commsUpdateByte_quiet v.comms byte).2.2]
    rfl
  | refused length hpc waiting available wrong announced =>
    exact none (takes_send_trace available _) rfl
  | fwUpdateReq hpc state available request => exact none (takes_send_trace available _) rfl
  | deviceIdRes hpc state available shape device => exact none (takes_trace available) rfl
  | fwLengthRes hpc state available shape fits => exact none (takes_trace available) rfl
  | erase hpc state => exact none (List.append_assoc ..) rfl
  | chunk hpc state available ok more =>
    exact one (takes_writes_append available _ _) rfl ok
  | lastChunk accepted hpc state available ok complete verdict =>
    exact one (takes_writes_append available _ _) rfl ok
  | lastChunkFault hpc state available ok complete fault =>
    exact one (takes_writes_append available _ _) rfl ok
  | left obs hpc ended way =>
    rcases way with ⟨rfl, -⟩ | ⟨rfl, -⟩ | ⟨rfl, -⟩ <;> exact none rfl rfl

end Session

theorem bootRun_acceptedOk (drv : FlashDriver) (validate : Flash → Option Bool) (flash0 : Flash)
    (es : List BootEvent) : AcceptedOk (bootRun drv validate flash0 es).session :=
  bootRun_invariant drv validate flash0 es (fun _ member => absurd member List.not_mem_nil)
    fun _ _ h step => h.step step

/-! ## The image of a host that reports success -/

section Inv

variable {drv : FlashDriver} {validate : Flash → Option Bool} {flash0 : Flash}
  {fwImage : List Byte} {n : Nat} {s : Exchange} {said : List (Option CommsPacket)}
  {arrived seen : List Byte}
  (inv : ExchangeInv drv validate flash0 fwImage n s said arrived seen)
include inv

/-- Accepted packets passed the length check, and read as packets. -/
theorem ExchangeInv.accepted_kind {packet : CommsPacket} (member : packet ∈ s.boot.trace.accepted) :
    DataLengthOk packet ∧ frameKind packet = .packet := by
  constructor
  · obtain ⟨es, run⟩ := inv.boot.run
    have ok := bootRun_acceptedOk drv validate flash0 es
    rw [← run] at ok
    exact ok packet member
  · rw [inv.boot.since_eq.2] at member
    have taken : packet ∈ (s.boot.since n).taken :=
      List.mem_of_mem_drop (inv.boot.dialogue.accepted.subset member)
    have queued : (s.boot.since n).stored = (s.boot.since n).taken ++ s.boot.comms.queue :=
      inv.boot.dialogue.queue.fifo inv.boot.safe
    have read : (s.boot.since n).stored = packetsOf (s.boot.since n).commsBytes :=
      inv.boot.dialogue.queue.stored
    have stored : packet ∈ packetsOf (s.boot.since n).commsBytes := by
      rw [← read, queued]
      exact List.mem_append_left _ taken
    exact of_decide_eq_true (List.mem_filter.mp stored).2

/-- If the payload is the whole image every chunk of it was accepted. -/
theorem ExchangeInv.all_accepted (payload : s.boot.trace.payload = fwImage) :
    s.boot.trace.accepted = dataPackets fwImage := by
  have front : s.boot.trace.accepted <+: dataPackets fwImage := by
    have accepted : s.boot.trace.accepted <+: s.boot.trace.taken.drop 3 := by
      rw [inv.boot.since_eq.1, inv.boot.since_eq.2]
      exact inv.boot.dialogue.accepted
    exact accepted.trans (inv.taken_script.drop 3)
  have most := front.length_le
  have chunks : (dataPackets fwImage).length = (fwImage.length + 15) / 16 := by
    rw [dataPackets, List.length_map, List.length_range]
  have size : (fwImage.take (16 * s.boot.trace.accepted.length)).length = fwImage.length := by
    rw [← payload_take fwImage (chunks ▸ most), ← List.prefix_iff_eq_take.mp front]
    exact congrArg List.length payload
  rw [List.length_take] at size
  exact front.eq_of_length (by omega)

/-- The image of a host that reports success is one that can be installed. -/
theorem ExchangeInv.installable (short : fwImage.length < 2 ^ 32)
    (finished : s.main.host.phase = .finished) : Installable validate flash0 fwImage := by
  have image := inv.image_in_flash short finished
  obtain ⟨-, -, accepted⟩ := inv.boot.dialogue.success (inv.success finished)
  have updating : Updating flash0 s.boot.session := by
    refine inv.boot.sessionInv.cases.resolve_left ?_
    rintro ⟨untouched, -⟩
    have none : s.boot.trace.accepted = [] := untouched.accepted
    rw [inv.boot.since_eq.2] at none
    exact accepted none
  have payload : s.boot.trace.payload = fwImage := by
    rw [← programmedBytes_eq inv.boot.sessionInv, inv.programmed, image.count, List.take_length]
  have flash : s.boot.flash = withImage flash0 fwImage := by
    rw [← payload]
    exact funext updating.content
  obtain ⟨front, rest, request, device, announced, more, trace, taken, -, isDevice, shape, fits⟩ :=
    updating.authorized
  obtain ⟨behind, all⟩ := inv.taken_script
  change s.boot.trace = _ at trace
  rw [trace, Trace.taken_append, taken_map_syncByte, List.nil_append, taken, script] at all
  injection all with _ all
  injection all with theDevice all
  injection all with announces _
  rw [announces] at shape
  rw [theDevice] at isDevice
  -- the chunk behind `16 * k` bytes was accepted
  have chunk {k : Nat} (inside : 16 * k < fwImage.length) :
      DataLengthOk (chunkPacket ((fwImage.drop (16 * k)).take 16)) ∧
        frameKind (chunkPacket ((fwImage.drop (16 * k)).take 16)) = .packet := by
    refine inv.accepted_kind ?_
    rw [inv.all_accepted payload, ← dataPacket_eq]
    exact List.mem_of_getElem? (dataPackets_getElem? inside)
  have size (k : Nat) := chunk_size fwImage (16 * k)
  refine ⟨?_, ?_, ?_, ?_, flash ▸ image.valid⟩
  · rw [← fwLengthPacket_announces short shape]
    exact fits
  · have data : (Updater.devIDPacket fwImage).data.toList = [blPacketDeviceIdResData0,
        fwImage.getD Updater.fwinfoDeviceIdOffset 0] ++ List.replicate 14 0xff :=
      padded_eq _ (Nat.le_of_ble_eq_true rfl)
    have same := List.append_inj_left (data.symm.trans isDevice.2) rfl
    injection same with _ same
    injection same with byte _
    rw [byte]
    rfl
  · intro one
    have place : 16 * (fwImage.length / 16) < fwImage.length := by omega
    have length := (chunk place).1
    rw [dataLengthOk_chunkPacket (by rw [size]; omega) (by rw [size]; omega), size] at length
    omega
  · intro two
    have place : 16 * (fwImage.length / 16) < fwImage.length := by omega
    have kind := (chunk place).2
    rw [frameKind_chunkPacket (by rw [size]; omega) (by rw [size]; omega),
      List.take_of_length_le (by rw [List.length_drop]; omega)] at kind
    rwa [show fwImage.length - 2 = 16 * (fwImage.length / 16) by omega]

end Inv

end SecureBootloader
