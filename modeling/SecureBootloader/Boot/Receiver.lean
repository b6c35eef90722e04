import SecureBootloader.Boot.Framing
import SecureBootloader.Boot.UpdateInv

/-!
# What a step does to the receiver

Of all the steps of a session one kind reads a byte and one kind takes a packet.
-/

namespace SecureBootloader

/-- Is it about received bytes and packets? -/
def Obs.received : Obs → Bool
  | .commsByte _ => true
  | .overrun => true
  | .stored _ => true
  | .taken _ => true
  | _ => false

/-- Observations that are not about received bytes and packets. -/
def Trace.Quiet (obs : Trace) : Prop := obs.filter Obs.received = []

theorem Trace.Quiet.filterMap {obs : Trace} (h : obs.Quiet) {α : Type} {f : Obs → Option α}
    (other : ∀ o : Obs, o.received = false → f o = none) : obs.filterMap f = [] := by
  rw [List.filterMap_eq_nil_iff]
  intro o ho
  refine other o ?_
  have := List.filter_eq_nil_iff.mp h o ho
  exact Bool.eq_false_iff.mpr this

theorem Trace.Quiet.commsBytes {obs : Trace} (h : obs.Quiet) : obs.commsBytes = [] :=
  h.filterMap fun o ho => by cases o <;> first | rfl | cases ho

theorem Trace.Quiet.stored {obs : Trace} (h : obs.Quiet) : obs.stored = [] :=
  h.filterMap fun o ho => by cases o <;> first | rfl | cases ho

theorem Trace.Quiet.taken {obs : Trace} (h : obs.Quiet) : obs.taken = [] :=
  h.filterMap fun o ho => by cases o <;> first | rfl | cases ho

theorem Trace.Quiet.overrun {obs : Trace} (h : obs.Quiet) : .overrun ∉ obs := by
  intro ho
  exact absurd rfl (List.filter_eq_nil_iff.mp h _ ho)

/-- The same variables up to `last_transmitted_packet`. -/
def SameReceiver (c c' : Comms) : Prop :=
  c' = { c with lastTransmittedPacket := c'.lastTransmittedPacket }

/-- A step reads a byte, takes a packet, or leaves the receiver alone. -/
inductive ReceiverStep (v v' : Session) : Prop
  | quiet (obs : Trace) (trace : v'.trace = v.trace ++ obs) (silent : obs.Quiet)
      (same : SameReceiver v.comms v'.comms)
  | byte (byte : Byte) (h : v.pc = .update)
      (trace : v'.trace = v.trace ++ .commsByte byte :: (commsUpdateByte v.comms byte).2)
      (comms : v'.comms = (commsUpdateByte v.comms byte).1)
  | take (obs : Trace) (available : commsPacketAvailable v.comms = true)
      (trace : v'.trace = v.trace ++ .taken v.nextPacket :: obs) (silent : obs.Quiet)
      (same : SameReceiver (commsReceivePacket v.comms).2.1 v'.comms)

theorem SameReceiver.sameQueue {c c' : Comms} (h : SameReceiver c c') : SameQueue c c' := by
  rw [h]
  exact ⟨rfl, rfl, rfl⟩

theorem SameReceiver.part {c c' : Comms} (h : SameReceiver c c') {part : List Byte}
    (p : Partial c part) : Partial c' part := by
  rw [h]
  exact p.congr rfl rfl rfl

section Step

variable {drv : FlashDriver} {validate : Flash → Option Bool} {v v' : Session}

/-- The trace after a data packet is written. -/
theorem takes_writes_trace (available : commsPacketAvailable v.comms = true)
    (packet : CommsPacket) :
    ((v.atPc .loop).takes.writes drv packet).trace = v.trace ++ [.taken v.nextPacket,
      .accepted packet, .programmed (v.atPc .loop).takes.writeAddress (chunkOf packet)] := by
  show (v.atPc .loop).takes.trace ++ _ = _
  rw [takes_trace available, List.append_assoc]
  rfl

/-- The trace after a data packet is written and something more shown. -/
theorem takes_writes_append (available : commsPacketAvailable v.comms = true)
    (packet : CommsPacket) (obs : Trace) :
    ((v.atPc .loop).takes.writes drv packet).trace ++ obs = v.trace ++ .taken v.nextPacket ::
      ([.accepted packet, .programmed (v.atPc .loop).takes.writeAddress (chunkOf packet)] ++
        obs) := by
  rw [takes_writes_trace available, List.append_assoc]
  rfl

theorem receiverStep (step : SessionStep drv validate v v') : ReceiverStep v v' := by
  cases step with
  | start | enter | drained | idle | syncIdle | unexpected =>
    exact .quiet [] (List.append_nil _).symm rfl rfl
  | timeout | syncTimeout | syncByte | syncMatch | flushByte | flushed | deviceIdReq |
      fwLengthReq => exact .quiet _ rfl rfl rfl
  | syncByteTimeout => exact .quiet _ (List.append_assoc ..) rfl rfl
  | commsByte byte hpc => exact .byte byte hpc (List.append_assoc ..) rfl
  | refused length hpc waiting available wrong announced =>
    exact .take _ available (takes_send_trace available _) rfl rfl
  | fwUpdateReq hpc state available request =>
    exact .take _ available (takes_send_trace available _) rfl rfl
  | deviceIdRes hpc state available shape device =>
    exact .take [] available (takes_trace available) rfl rfl
  | fwLengthRes hpc state available shape fits =>
    exact .take [] available (takes_trace available) rfl rfl
  | erase hpc state => exact .quiet _ (List.append_assoc ..) rfl rfl
  | chunk hpc state available ok more =>
    exact .take _ available (takes_writes_append available _ _) rfl rfl
  | lastChunk accepted hpc state available ok complete verdict =>
    exact .take _ available (takes_writes_append available _ _) rfl rfl
  | lastChunkFault hpc state available ok complete fault =>
    exact .take _ available (takes_writes_append available _ _) rfl rfl
  | left obs hpc ended way =>
    rcases way with ⟨rfl, -⟩ | ⟨rfl, -⟩ | ⟨rfl, -⟩ <;> exact .quiet _ rfl rfl rfl

/-- A step of RECEIVE_FW with a packet: it is programmed, or refused with a NACK. -/
theorem receiveFw_step (pc : v.pc = .dispatch)
    (state : v.bootloaderState = .receiveFw) (available : commsPacketAvailable v.comms = true)
    (step : SessionStep drv validate v v') :
    (DataLengthOk v.nextPacket ∧ (∃ last : Obs, v'.trace = v.trace ++ [.taken v.nextPacket,
        .accepted v.nextPacket, .programmed v.writeAddress (chunkOf v.nextPacket)] ++ [last] ∧
          last.modifiesFlash = false) ∧
      v'.flash = blFlashWrite drv v.writeAddress (chunkOf v.nextPacket) v.flash ∧
      v'.bytesWritten = (v.bytesWritten + chunkLength v.nextPacket) % 2 ^ 32 ∧
      v'.firmwareLength = v.firmwareLength) ∨
    (¬DataLengthOk v.nextPacket ∧ v'.trace = v.trace ++ [.taken v.nextPacket,
      .sent (commsCreateSingleBytePacket blPacketNackData0)]) := by
  have trace (last : Obs) : ((v.atPc .loop).takes.writes drv v.nextPacket).trace ++ [last] =
      v.trace ++ [.taken v.nextPacket, .accepted v.nextPacket,
        .programmed v.writeAddress (chunkOf v.nextPacket)] ++ [last] := by
    rw [takes_writes_trace available]
    rfl
  cases step with
  | chunk _ _ _ ok more => exact .inl ⟨ok, ⟨_, trace _, rfl⟩, rfl, rfl, rfl⟩
  | lastChunk accepted _ _ _ ok complete verdict =>
    exact .inl ⟨ok, ⟨_, trace _, rfl⟩, rfl, rfl, rfl⟩
  | lastChunkFault _ _ _ ok complete fault => exact .inl ⟨ok, ⟨_, trace _, rfl⟩, rfl, rfl, rfl⟩
  | refused length _ waiting _ wrong announced =>
    rw [state] at wrong
    exact .inr ⟨wrong, takes_send_trace available _⟩
  | _ => simp_all

end Step

end SecureBootloader
