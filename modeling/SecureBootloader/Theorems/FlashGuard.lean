import SecureBootloader.Boot.Arrival

/-!
# Flash is touched only after a complete handshake

Whatever arrives and whenever: before its first erase or program operation the
bootloader has read the sync sequence and taken the three right answers of the
host, in order and with nothing in between.
-/

namespace SecureBootloader

/-- Every erase and program operation comes after an authorization. -/
def Guarded (t : Trace) : Prop :=
  ∀ before op after, t = before ++ op :: after → op.modifiesFlash = true →
    ∃ length, Authorized length before

theorem mem_flashOps {t : Trace} {op : Obs} (h : op ∈ t) (modifies : op.modifiesFlash = true) :
    t.flashOps ≠ [] := by
  have : op ∈ t.flashOps := List.mem_filter.mpr ⟨h, modifies⟩
  exact List.ne_nil_of_mem this

/-- New operations are guarded when the trace before them is authorized. -/
theorem Guarded.append {t obs : Trace} (h : Guarded t)
    (authorized : obs.flashOps ≠ [] → ∃ length, Authorized length t) : Guarded (t ++ obs) := by
  intro before op after heq modifies
  have inside (front : Trace) (hobs : obs = front ++ op :: after) :
      ∃ length, Authorized length (t ++ front) := by
    obtain ⟨length, hlength⟩ := authorized
      (mem_flashOps (by rw [hobs]; simp) modifies)
    exact ⟨length, hlength.append front⟩
  rcases List.append_eq_append_iff.mp heq with ⟨front, rfl, hobs⟩ | ⟨back, ht, hobs⟩
  · exact inside front hobs
  · cases back with
    | nil =>
      obtain ⟨length, hlength⟩ := inside [] hobs.symm
      exact ⟨length, by simpa [ht] using hlength⟩
    | cons first back =>
      rw [List.cons_append, List.cons.injEq] at hobs
      exact h before op back (by rw [ht, hobs.1]) modifies

section Step

variable {drv : FlashDriver} {validate : Flash → Option Bool} {v v' : Session}

/-- A step extends the trace, and touches the flash only in two states. -/
theorem sessionStep_trace (step : SessionStep drv validate v v') :
    ∃ obs, v'.trace = v.trace ++ obs ∧ (obs.flashOps ≠ [] →
      v.bootloaderState = .eraseApplication ∨ v.bootloaderState = .receiveFw) := by
  cases step with
  | start | enter | drained | idle | syncIdle | unexpected =>
    exact ⟨[], (List.append_nil _).symm, fun h => absurd rfl h⟩
  | timeout | syncTimeout | syncByte | syncMatch | flushByte | flushed | deviceIdReq |
      fwLengthReq => exact ⟨_, rfl, fun h => absurd rfl h⟩
  | syncByteTimeout => exact ⟨_, List.append_assoc .., fun h => absurd rfl h⟩
  | commsByte byte hpc =>
    refine ⟨_, List.append_assoc .., fun h => absurd ?_ h⟩
    rw [Trace.flashOps_append, (commsUpdateByte_quiet v.comms byte).2.1]
    rfl
  | refused length hpc waiting available wrong announced =>
    exact ⟨_, takes_send_trace available _, fun h => absurd rfl h⟩
  | fwUpdateReq hpc state available request =>
    exact ⟨_, takes_send_trace available _, fun h => absurd rfl h⟩
  | deviceIdRes hpc state available shape device =>
    exact ⟨_, takes_trace available, fun h => absurd rfl h⟩
  | fwLengthRes hpc state available shape fits =>
    exact ⟨_, takes_trace available, fun h => absurd rfl h⟩
  | erase hpc state => exact ⟨_, List.append_assoc .., fun _ => .inl state⟩
  | chunk hpc state available ok more =>
    exact ⟨_, (List.append_assoc ..).trans (List.append_assoc ..), fun _ => .inr state⟩
  | lastChunk accepted hpc state available ok complete verdict =>
    exact ⟨_, (List.append_assoc ..).trans (List.append_assoc ..), fun _ => .inr state⟩
  | lastChunkFault hpc state available ok complete fault =>
    exact ⟨_, (List.append_assoc ..).trans (List.append_assoc ..), fun _ => .inr state⟩
  | left obs hpc ended way =>
    rcases way with ⟨rfl, -⟩ | ⟨rfl, -⟩ | ⟨rfl, -⟩ <;> exact ⟨_, rfl, fun h => absurd rfl h⟩

theorem Guarded.step {flash0 : Flash} (h : Guarded v.trace) (inv : SessionInv flash0 v)
    (step : SessionStep drv validate v v') : Guarded v'.trace := by
  obtain ⟨obs, trace, states⟩ := sessionStep_trace step
  rw [trace]
  refine h.append ?_
  intro ops
  rcases states ops with erase | receive
  · have authorized := inv.progress
    simp only [Progress, erase] at authorized
    exact ⟨_, authorized⟩
  · exact ⟨_, (inv.updating receive).1.authorized⟩

end Step

/-- In every run: an erase or program operation is preceded by the sync sequence,
read in the SYNC state, and by exactly the three answers that authorize an
update; and as long as these have not been seen the flash is as it was at boot. -/
theorem flash_guarded (drv : FlashDriver) (validate : Flash → Option Bool) (flash0 : Flash)
    (es : List BootEvent) :
    (∀ before op after, (bootRun drv validate flash0 es).trace = before ++ op :: after →
      op.modifiesFlash = true → ∃ length, Authorized length before) ∧
    ((∀ length, ¬Authorized length (bootRun drv validate flash0 es).trace) →
      (bootRun drv validate flash0 es).flash = flash0) := by
  have nothing : Guarded (bootInit flash0).session.trace := by
    intro before op after h
    simp [bootInit, Boot.session] at h
  have both := bootRun_invariant (P := fun v => SessionInv flash0 v ∧ Guarded v.trace) drv
    validate flash0 es ⟨SessionInv.init flash0, nothing⟩
    fun v v' h step => ⟨h.1.step step, h.2.step h.1 step⟩
  refine ⟨both.2, ?_⟩
  intro unauthorized
  have inv := both.1
  by_cases receive : (bootRun drv validate flash0 es).bootloaderState = .receiveFw
  · exact absurd (inv.updating receive).1.authorized (unauthorized _)
  · by_cases done : (bootRun drv validate flash0 es).bootloaderState = .done
    · rcases inv.ended done with untouched | updating
      · exact untouched.flash
      · exact absurd updating.authorized (unauthorized _)
    · exact (inv.untouched receive done).flash

/-! ## A run that gets there -/

/-- A packet with the payload in front and the right CRC. -/
def packetOf (length : Byte) (payload : List Byte) : CommsPacket :=
  let packet : CommsPacket := ⟨length, Vector.ofFn fun i => payload.getD i.val 0xff, 0⟩
  { packet with crc := commsCalculateCrc packet }

/-- A frame arrives, and the main program goes once around its loop. -/
def frameArrives (packet : CommsPacket) : List BootEvent :=
  arrivals packet.bytes ++ [.main, .main, .main]

/-- The sync sequence and the three answers, announcing `length` bytes. -/
def handshakeEvents (length : Byte) : List BootEvent :=
  .main :: arrivals syncBytes ++ [.main, .main] ++
    frameArrives (packetOf 1 [blPacketFwUpdateReqData0]) ++ [.main, .main, .main] ++
    frameArrives (packetOf 2 [blPacketDeviceIdResData0, 0x42]) ++ [.main, .main, .main] ++
    frameArrives (packetOf 5 [blPacketFwLengthResData0, length, 0, 0, 0]) ++ [.main, .main]

/-- The run of `handshakeEvents` on an empty part. -/
def handshakeRun : Boot := bootRun stm32Flash validateFlash (fun _ => 0) (handshakeEvents 0x20)

theorem flash_guarded_handshakeRun :
    (∃ after, handshakeRun.trace = handshakeRun.trace.take 71 ++ .erased :: after) ∧
      ∃ length, Authorized length (handshakeRun.trace.take 71) := by
  have split : handshakeRun.trace =
      handshakeRun.trace.take 71 ++ .erased :: handshakeRun.trace.drop 72 := by
    decide +kernel
  exact ⟨⟨_, split⟩, (flash_guarded stm32Flash validateFlash (fun _ => 0)
    (handshakeEvents 0x20)).1 _ _ _ split rfl⟩

end SecureBootloader
