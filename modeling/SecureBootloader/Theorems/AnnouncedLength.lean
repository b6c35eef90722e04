import SecureBootloader.Boot.Receiver
import SecureBootloader.Theorems.FlashContent

/-!
# Programming within the announced length

RECEIVE_FW looks at the announced length only after it has written a packet. A
run stays within the announced length exactly when every data packet it accepts
fits into what is left of it.
-/

namespace SecureBootloader

/-- Every write lies inside the announced image, and the counters are in order. -/
structure WithinAnnounced (s : Boot) : Prop where
  writes : ∀ address data, .programmed address data ∈ s.trace →
    mainAppStartAddress ≤ address ∧
      address + data.length ≤ mainAppStartAddress + s.firmwareLength
  counters : s.bootloaderState = .eraseApplication ∨ InUpdate s →
    s.bytesWritten ≤ s.firmwareLength ∧ s.firmwareLength ≤ maxFwLength

/-- If the step is one in which RECEIVE_FW accepts a data packet, the packet fits
into what is left of the announced length. -/
def FitsAnnounced (s : Boot) (e : BootEvent) : Prop :=
  e = .main → s.pc = .dispatch → s.bootloaderState = .receiveFw →
    commsPacketAvailable s.comms = true → DataLengthOk s.session.nextPacket →
      s.bytesWritten + chunkLength s.session.nextPacket ≤ s.firmwareLength

/-! ## Where the writes are -/

theorem writesFrom_range {start address : Nat} {data : List Byte} {packets : List CommsPacket}
    (h : Obs.programmed address data ∈ writesFrom start packets) :
    start ≤ address ∧
      address + data.length ≤ start + (packets.flatMap chunkOf).length := by
  induction packets generalizing start with
  | nil => cases h
  | cons packet packets ih =>
    rw [List.flatMap_cons, List.length_append]
    rw [writesFrom, List.mem_cons] at h
    rcases h with h | h
    · cases h
      omega
    · have := ih h
      omega

theorem Untouched.no_write {flash0 : Flash} {v : Session} (h : Untouched flash0 v) {address : Nat}
    {data : List Byte} : Obs.programmed address data ∉ v.trace := fun written =>
  mem_flashOps written rfl h.ops

theorem Updating.write_range {flash0 : Flash} {v : Session} (h : Updating flash0 v) {address : Nat}
    {data : List Byte} (written : Obs.programmed address data ∈ v.trace) :
    mainAppStartAddress ≤ address ∧
      address + data.length ≤ mainAppStartAddress + v.bytesWritten := by
  have op : Obs.programmed address data ∈ v.trace.flashOps := List.mem_filter.mpr ⟨written, rfl⟩
  rw [h.ops, List.mem_cons] at op
  rw [h.count]
  exact writesFrom_range (op.resolve_left (by simp))

theorem SessionInv.within {flash0 : Flash} {s : Boot} (inv : SessionInv flash0 s.session)
    (h : s.bytesWritten ≤ s.firmwareLength) : WithinAnnounced s := by
  rcases inv.cases with ⟨untouched, other⟩ | updating
  · refine ⟨fun address data written => absurd written untouched.no_write, ?_⟩
    rintro (erase | receive | erased)
    · have authorized := inv.progress
      have state : s.session.bootloaderState = .eraseApplication := erase
      simp only [Progress, state] at authorized
      exact ⟨h, authorized.length_le⟩
    · exact absurd receive other
    · exact absurd untouched.ops (mem_flashOps erased rfl)
  · refine ⟨?_, fun _ => ⟨h, updating.length_le⟩⟩
    intro address data written
    have range := updating.write_range written
    have : s.session.bytesWritten ≤ s.firmwareLength := h
    omega

/-! ## One step -/

section Step

variable {flash0 : Flash} {drv : FlashDriver} {validate : Flash → Option Bool} {v v' : Session}

/-- `bytes_written` after a data packet. -/
theorem writes_bytesWritten (inv : SessionInv flash0 v) (h : v.pc = .dispatch)
    (state : v.bootloaderState = .receiveFw) :
    ((v.atPc .loop).takes.writes drv v.nextPacket).bytesWritten =
      v.bytesWritten + chunkLength v.nextPacket := by
  have room := (inv.updating state).2 (by rw [h]; decide)
  have size := chunkLength_le v.nextPacket
  have most : maxFwLength = 0x38000 := rfl
  exact Nat.mod_eq_of_lt (show v.bytesWritten + chunkLength v.nextPacket < 2 ^ 32 by omega)

/-- A step whose data packet fits keeps `bytes_written` within the announced length. -/
theorem bytesWritten_le_step (inv : SessionInv flash0 v) (h : v.bytesWritten ≤ v.firmwareLength)
    (fits : v.pc = .dispatch → v.bootloaderState = .receiveFw →
      commsPacketAvailable v.comms = true → DataLengthOk v.nextPacket →
        v.bytesWritten + chunkLength v.nextPacket ≤ v.firmwareLength)
    (step : SessionStep drv validate v v') : v'.bytesWritten ≤ v'.firmwareLength := by
  cases step with
  | refused length hpc waiting available wrong announced =>
    rcases announced with rfl | state
    · exact h
    · -- the announced length was just overwritten, nothing has been written yet
      have untouched := inv.untouched (by simp [state]) (by simp [state])
      show v.bytesWritten ≤ length
      rw [untouched.count]
      exact Nat.zero_le _
  | fwLengthRes hpc state available shape fits' =>
    have untouched := inv.untouched (by simp [state]) (by simp [state])
    show v.bytesWritten ≤ _
    rw [untouched.count]
    exact Nat.zero_le _
  | chunk hpc state available ok more =>
    show ((v.atPc .loop).takes.writes drv v.nextPacket).bytesWritten ≤ v.firmwareLength
    exact Nat.le_of_lt more
  | lastChunk accepted hpc state available ok complete verdict =>
    show ((v.atPc .loop).takes.writes drv v.nextPacket).bytesWritten ≤ v.firmwareLength
    rw [writes_bytesWritten inv hpc state]
    exact fits hpc state available ok
  | lastChunkFault hpc state available ok complete fault =>
    show ((v.atPc .loop).takes.writes drv v.nextPacket).bytesWritten ≤ v.firmwareLength
    rw [writes_bytesWritten inv hpc state]
    exact fits hpc state available ok
  | _ => exact h

/-- A step that accepts a data packet advances `bytes_written` by its size. -/
theorem accepts_step (inv : SessionInv flash0 v) (hpc : v.pc = .dispatch)
    (state : v.bootloaderState = .receiveFw) (available : commsPacketAvailable v.comms = true)
    (ok : DataLengthOk v.nextPacket) (step : SessionStep drv validate v v') :
    v'.bytesWritten = v.bytesWritten + chunkLength v.nextPacket ∧
      v'.firmwareLength = v.firmwareLength := by
  have noWrap : ((v.atPc .loop).takes.writes drv v.nextPacket).bytesWritten =
      v.bytesWritten + chunkLength v.nextPacket := writes_bytesWritten inv hpc state
  rcases receiveFw_step hpc state available step with ⟨-, -, -, count, length⟩ | ⟨wrong, -⟩
  · exact ⟨count.trans noWrap, length⟩
  · exact absurd ok wrong

/-- Once erased, always in an update. -/
theorem erased_step (inv : SessionInv flash0 v) (state : v.bootloaderState = .receiveFw)
    (step : SessionStep drv validate v v') : .erased ∈ v'.trace := by
  obtain ⟨obs, trace, -⟩ := sessionStep_trace step
  have op : Obs.erased ∈ v.trace.flashOps := by
    rw [(inv.updating state).1.ops]
    exact List.mem_cons_self
  rw [trace]
  exact List.mem_append_left _ (List.mem_filter.mp op).1

end Step

/-! ## Runs -/

section Runs

variable (drv : FlashDriver) (validate : Flash → Option Bool) (flash0 : Flash)
  (es : List BootEvent)

/-- An event whose data packet fits keeps the invariant and the bound. -/
theorem fits_step {s : Boot} {e : BootEvent}
    (h : SessionInv flash0 s.session ∧ s.bytesWritten ≤ s.firmwareLength)
    (fits : FitsAnnounced s e) :
    SessionInv flash0 (bootStep drv validate s e).session ∧
      (bootStep drv validate s e).bytesWritten ≤ (bootStep drv validate s e).firmwareLength := by
  rcases bootStep_session drv validate s e with same | ⟨rfl, step⟩
  · refine ⟨same ▸ h.1, ?_⟩
    show (bootStep drv validate s e).session.bytesWritten ≤
      (bootStep drv validate s e).session.firmwareLength
    rw [same]
    exact h.2
  · exact ⟨h.1.step step, bytesWritten_le_step h.1 h.2 (fits rfl) step⟩

/-- A data packet that does not fit is programmed past the announced length. -/
theorem overshoot_step {s : Boot} {e : BootEvent} (inv : SessionInv flash0 s.session)
    (overshoots : ¬FitsAnnounced s e) : ¬WithinAnnounced (bootStep drv validate s e) := by
  intro within
  refine overshoots ?_
  rintro rfl hpc state available ok
  -- the step accepts the packet, so its counters are those after the write
  have step := dispatch_session drv validate hpc
  obtain ⟨count, length⟩ := accepts_step inv hpc state available ok step
  have counters := (within.counters (.inr (.inr (erased_step inv state step)))).1
  change (bootStep drv validate s .main).session.bytesWritten ≤
    (bootStep drv validate s .main).session.firmwareLength at counters
  rw [count, length] at counters
  exact counters

/-- In every run: all its states are within the announced length if and only if
each data packet it accepts fits into what is left. -/
theorem withinAnnounced_iff :
    (∀ es', es' <+: es → WithinAnnounced (bootRun drv validate flash0 es')) ↔
      Lib.Run.Meets (bootStep drv validate) FitsAnnounced (bootInit flash0) es :=
  Lib.Run.meets_iff_always (P := WithinAnnounced)
    (I := fun s : Boot => SessionInv flash0 s.session ∧ s.bytesWritten ≤ s.firmwareLength)
    (fun _ _ h fits => fits_step drv validate flash0 h fits)
    (fun _ h => h.1.within h.2)
    (fun _ _ h overshoots => overshoot_step drv validate flash0 h.1 overshoots)
    ⟨SessionInv.init flash0, Nat.le_refl 0⟩ es

end Runs

/-! ## A run that leaves the announced image -/

/-- The host announces one byte and sends a full data packet. -/
def overshootEvents : List BootEvent :=
  handshakeEvents 1 ++ [.main] ++ frameArrives (packetOf 15 (List.replicate 16 0))

theorem overshoot_not_within :
    ¬WithinAnnounced (bootRun stm32Flash validateFlash (fun _ => 0) overshootEvents) := by
  intro within
  have ended := (within.counters (.inr (.inr (by decide +kernel)))).1
  exact absurd ended (by decide +kernel)

end SecureBootloader
