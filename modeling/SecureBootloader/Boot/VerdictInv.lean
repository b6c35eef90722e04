import SecureBootloader.Boot.UpdateInv

/-!
# The verdict of a session

A session ends with UPDATE_SUCCESSFUL or NACK. Until then neither has been sent,
and the slot of the link layer holds neither, so no RETX brings one up; once it is
sent the main loop is over and nothing else is sent or programmed.
-/

namespace SecureBootloader

/-! ## Verdicts -/

/-- UPDATE_SUCCESSFUL. -/
def updateSuccessful : CommsPacket := commsCreateSingleBytePacket blPacketUpdateSuccessfulData0

/-- NACK. -/
def nack : CommsPacket := commsCreateSingleBytePacket blPacketNackData0

def IsVerdict (packet : CommsPacket) : Prop := packet = updateSuccessful ∨ packet = nack

instance (packet : CommsPacket) : Decidable (IsVerdict packet) :=
  inferInstanceAs (Decidable (_ ∨ _))

@[simp] theorem dataAt_single (byte : Byte) :
    (commsCreateSingleBytePacket byte).dataAt 0 = byte := rfl

theorem commsCreateSingleBytePacket_injective {byte byte' : Byte}
    (h : commsCreateSingleBytePacket byte = commsCreateSingleBytePacket byte') : byte = byte' := by
  rw [← dataAt_single byte, h, dataAt_single]

theorem updateSuccessful_ne_nack : updateSuccessful ≠ nack := by
  intro h
  exact absurd (commsCreateSingleBytePacket_injective h) (by decide)

theorem isVerdict_single {byte : Byte} :
    IsVerdict (commsCreateSingleBytePacket byte) ↔
      byte = blPacketUpdateSuccessfulData0 ∨ byte = blPacketNackData0 := by
  constructor
  · rintro (h | h)
    · exact .inl (commsCreateSingleBytePacket_injective h)
    · exact .inr (commsCreateSingleBytePacket_injective h)
  · rintro (rfl | rfl)
    · exact .inl rfl
    · exact .inr rfl

theorem ackPacket_not_verdict : ¬IsVerdict ackPacket := by
  intro h
  exact absurd (isVerdict_single.mp h) (by decide)

theorem retxPacket_not_verdict : ¬IsVerdict retxPacket := by
  intro h
  exact absurd (isVerdict_single.mp h) (by decide)

theorem zero_not_verdict : ¬IsVerdict .zero := by decide +kernel

/-- What the link layer sends by itself: a RETX, an ACK, or what the slot holds; and
that is what the slot holds then. -/
theorem commsUpdateByte_sends (c : Comms) (byte : Byte) :
    ((commsUpdateByte c byte).1.lastTransmittedPacket = c.lastTransmittedPacket ∨
      (commsUpdateByte c byte).1.lastTransmittedPacket = retxPacket ∨
      (commsUpdateByte c byte).1.lastTransmittedPacket = ackPacket) ∧
    ∀ packet ∈ (commsUpdateByte c byte).2.sent,
      packet = c.lastTransmittedPacket ∨ packet = retxPacket ∨ packet = ackPacket := by
  unfold commsUpdateByte
  cases c.currentState with
  | length => exact ⟨.inl rfl, nofun⟩
  | data =>
    dsimp only
    split
    · exact ⟨.inl rfl, nofun⟩
    · exact ⟨.inl rfl, nofun⟩
  | crc =>
    dsimp only
    rw [commsHandlePacket_eq]
    cases frameKind { c.currentTempPacket with crc := byte } with
    | corrupt =>
      refine ⟨.inr (.inl rfl), ?_⟩
      intro packet sent
      exact .inr (.inl (List.mem_singleton.mp sent))
    | retx =>
      refine ⟨.inl rfl, ?_⟩
      intro packet sent
      exact .inl (List.mem_singleton.mp sent)
    | ack => exact ⟨.inl rfl, nofun⟩
    | packet =>
      refine ⟨.inr (.inr rfl), ?_⟩
      intro packet sent
      dsimp only at sent
      rw [commsStorePacket_trace, Trace.sent, List.filterMap_append] at sent
      refine .inr (.inr ?_)
      split at sent
      · exact List.mem_singleton.mp sent
      · exact List.mem_singleton.mp sent

/-! ## Before and after the verdict -/

/-- The last thing done was a write to the flash. -/
def Trace.EndsInWrite (t : Trace) : Prop :=
  ∃ front address data, t = front ++ [.programmed address data]

theorem Trace.not_endsInWrite {t : Trace} {obs : Obs} (other : ∀ a d, obs ≠ .programmed a d) :
    ¬Trace.EndsInWrite (t ++ [obs]) := by
  rintro ⟨front, address, data, same⟩
  exact other address data (List.singleton_inj.mp (List.append_inj_right' same rfl))

/-- No verdict yet: none was sent, and none is in the slot. -/
structure Undecided (v : Session) : Prop where
  state : v.bootloaderState ≠ .done
  pc : v.pc ≠ .gone
  none : ∀ packet ∈ v.trace.sent, ¬IsVerdict packet
  slot : ¬IsVerdict v.comms.lastTransmittedPacket
  settled : ¬v.trace.EndsInWrite

/-- What the verdict, sent after `before`, says about the flash. -/
structure Report (validate : Flash → Bool) (v : Session) (before : Trace)
    (verdict : CommsPacket) : Prop where
  isVerdict : IsVerdict verdict
  only : ∀ packet ∈ before.sent, ¬IsVerdict packet
  success : verdict = updateSuccessful →
    validate v.flash = true ∧ v.firmwareLength ≤ v.bytesWritten
  failure : verdict = nack → before.EndsInWrite → validate v.flash = false

/-- A session has no verdict yet, or it was sent last, or the main program left right
after it. -/
inductive VerdictInv (validate : Flash → Bool) (v : Session) : Prop
  | undecided (h : Undecided v)
  | decided (before : Trace) (verdict : CommsPacket) (state : v.bootloaderState = .done)
      (pc : v.pc = .loop) (trace : v.trace = before ++ [.sent verdict])
      (report : Report validate v before verdict)
  | left (before : Trace) (verdict : CommsPacket) (last : Obs) (state : v.bootloaderState = .done)
      (pc : v.pc = .gone) (trace : v.trace = before ++ [.sent verdict, last])
      (report : Report validate v before verdict)
      (way : last = .jumped ∧ validate v.flash = true ∨
        last = .wasReset ∧ validate v.flash = false)

section Steps

variable {drv : FlashDriver} {validate : Flash → Bool} {flash0 : Flash} {v v' : Session}

/-- Out of the end state the main program can only leave. -/
theorem SessionStep.of_done {validate : Flash → Option Bool} (state : v.bootloaderState = .done)
    (pc : v.pc = .loop) (step : SessionStep drv validate v v') :
    ∃ obs, v' = (v.shows [obs]).atPc .gone ∧
      ((obs = .jumped ∧ validate v.flash = some true) ∨
        (obs = .wasReset ∧ validate v.flash = some false) ∨
        (obs = .faulted ∧ validate v.flash = none)) := by
  have other {p : Pc} (h : v.pc = p) (ne : p ≠ .loop) : False := ne (h.symm.trans pc)
  have awake {st : BlState} (h : v.bootloaderState = st) (ne : st ≠ .done) : False :=
    ne (h.symm.trans state)
  cases step with
  | left obs hpc ended way => exact ⟨obs, rfl, way⟩
  | enter hpc active => exact absurd state active.2
  | syncIdle hpc sync | syncTimeout hpc sync => exact (awake sync (by decide)).elim
  | syncByte byte hpc sync | syncByteTimeout byte hpc sync | syncMatch byte hpc sync =>
    exact (awake sync (by decide)).elim
  | flushByte byte hpc | commsByte byte hpc | refused length hpc | lastChunk accepted hpc =>
    exact (other hpc (by decide)).elim
  | start hpc | drained hpc | idle hpc | timeout hpc | flushed hpc | fwUpdateReq hpc
  | deviceIdReq hpc | deviceIdRes hpc | fwLengthReq hpc | fwLengthRes hpc | erase hpc | chunk hpc
  | lastChunkFault hpc | unexpected hpc => exact (other hpc (by decide)).elim

/-- Once the main program has left there are no steps. -/
theorem SessionStep.not_gone {validate : Flash → Option Bool} (pc : v.pc = .gone) :
    ¬SessionStep drv validate v v' := by
  intro step
  have other {p : Pc} (h : v.pc = p) (ne : p ≠ .gone) : False := ne (h.symm.trans pc)
  cases step with
  | syncByte byte hpc | syncByteTimeout byte hpc | syncMatch byte hpc | flushByte byte hpc
  | commsByte byte hpc | refused length hpc | lastChunk accepted hpc | left obs hpc =>
    exact other hpc (by decide)
  | start hpc | enter hpc | drained hpc | idle hpc | timeout hpc | syncIdle hpc | syncTimeout hpc
  | flushed hpc | fwUpdateReq hpc | deviceIdReq hpc | deviceIdRes hpc | fwLengthReq hpc
  | fwLengthRes hpc | erase hpc | chunk hpc | lastChunkFault hpc | unexpected hpc =>
    exact other hpc (by decide)

section Undecided

variable (h : Undecided v)
include h

theorem Undecided.none_append {obs : Trace} (trace : v'.trace = v.trace ++ obs)
    (sent : ∀ packet ∈ obs.sent, ¬IsVerdict packet) : ∀ packet ∈ v'.trace.sent,
      ¬IsVerdict packet := by
  intro packet member
  rw [trace, Trace.sent, List.filterMap_append, List.mem_append] at member
  rcases member with old | new
  · exact h.none packet old
  · exact sent packet new

/-- A step with nothing to see. -/
theorem Undecided.silent (trace : v'.trace = v.trace) (comms : v'.comms = v.comms)
    (state : v'.bootloaderState ≠ .done) (pc : v'.pc ≠ .gone) : Undecided v' := by
  refine ⟨state, pc, ?_, ?_, ?_⟩
  · rw [trace]
    exact h.none
  · rw [comms]
    exact h.slot
  · rw [trace]
    exact h.settled

/-- A step that sends no verdict and does not end in a write. -/
theorem Undecided.goes (obs : Trace) {last : Obs} (trace : v'.trace = v.trace ++ (obs ++ [last]))
    (sent : ∀ packet ∈ Trace.sent (obs ++ [last]), ¬IsVerdict packet)
    (other : ∀ a d, last ≠ .programmed a d)
    (slot : ¬IsVerdict v'.comms.lastTransmittedPacket) (state : v'.bootloaderState ≠ .done)
    (pc : v'.pc ≠ .gone) : Undecided v' := by
  refine ⟨state, pc, h.none_append trace sent, slot, ?_⟩
  rw [trace, ← List.append_assoc]
  exact Trace.not_endsInWrite other

/-- A step that ends the session with a NACK. -/
theorem Undecided.fails (obs : Trace) (trace : v'.trace = v.trace ++ obs ++ [.sent nack])
    (sent : ∀ packet ∈ obs.sent, ¬IsVerdict packet) (settled : ¬(v.trace ++ obs).EndsInWrite)
    (state : v'.bootloaderState = .done) (pc : v'.pc = .loop) : VerdictInv validate v' := by
  refine .decided (v.trace ++ obs) nack state pc trace ⟨.inr rfl, ?_, ?_, ?_⟩
  · intro packet member
    rw [Trace.sent, List.filterMap_append, List.mem_append] at member
    rcases member with old | new
    · exact h.none packet old
    · exact sent packet new
  · intro same
    exact absurd same.symm updateSuccessful_ne_nack
  · intro _ write
    exact absurd write settled

end Undecided

/-- A packet of the handshake is no verdict. -/
theorem sent_single (byte : Byte) {obs : Trace} (nothing : obs.sent = [])
    (other : byte ≠ blPacketUpdateSuccessfulData0 ∧ byte ≠ blPacketNackData0) :
    ∀ packet ∈ Trace.sent (obs ++ [.sent (commsCreateSingleBytePacket byte)]),
      ¬IsVerdict packet := by
  intro packet member
  rw [Trace.sent, List.filterMap_append, ← Trace.sent, nothing, List.nil_append] at member
  rw [List.mem_singleton.mp member, isVerdict_single]
  exact not_or.mpr other

/-- The link layer answers a byte. -/
theorem Undecided.commsByte (h : Undecided v) (byte : Byte) :
    Undecided ((v.shows [.commsByte byte]).afterComms (commsUpdateByte v.comms byte)) := by
  obtain ⟨slot, sent⟩ := commsUpdateByte_sends v.comms byte
  have quiet : ∀ packet ∈ (commsUpdateByte v.comms byte).2.sent, ¬IsVerdict packet := by
    intro packet member
    rcases sent packet member with rfl | rfl | rfl
    · exact h.slot
    · exact retxPacket_not_verdict
    · exact ackPacket_not_verdict
  have trace : ((v.shows [.commsByte byte]).afterComms (commsUpdateByte v.comms byte)).trace =
      v.trace ++ ([.commsByte byte] ++ (commsUpdateByte v.comms byte).2) := List.append_assoc ..
  refine ⟨h.state, h.pc, h.none_append trace quiet, ?_, ?_⟩
  · show ¬IsVerdict (commsUpdateByte v.comms byte).1.lastTransmittedPacket
    rcases slot with same | same | same
    · rw [same]
      exact h.slot
    · rw [same]
      exact retxPacket_not_verdict
    · rw [same]
      exact ackPacket_not_verdict
  · rw [trace, ← List.append_assoc]
    rcases commsUpdateByte_trace v.comms byte with none | ⟨packet, one⟩ | ⟨packet, two | three⟩
    · rw [none, List.append_nil]
      exact Trace.not_endsInWrite nofun
    · rw [one]
      exact Trace.not_endsInWrite nofun
    · rw [two, List.append_cons]
      exact Trace.not_endsInWrite nofun
    · rw [three, List.append_cons, List.append_cons]
      exact Trace.not_endsInWrite nofun

/-- The write that completes the image, and the verdict of the validator. -/
theorem Undecided.lastChunk (h : Undecided v) (available : commsPacketAvailable v.comms = true)
    (accepted : Bool)
    (complete : v.firmwareLength ≤ ((v.atPc .loop).takes.writes drv v.nextPacket).bytesWritten)
    (verdict : validate ((v.atPc .loop).takes.writes drv v.nextPacket).flash = accepted) :
    VerdictInv validate ((((v.atPc .loop).takes.writes drv v.nextPacket).sendSingleByte
      (if accepted then blPacketUpdateSuccessfulData0 else blPacketNackData0)).withState
        .done) := by
  have before : ((v.atPc .loop).takes.writes drv v.nextPacket).trace = v.trace ++
      [.taken v.nextPacket, .accepted v.nextPacket, .programmed (v.atPc .loop).takes.writeAddress
        (chunkOf v.nextPacket)] := by
    show (v.atPc .loop).takes.trace ++ _ = _
    rw [takes_trace available, List.append_assoc]
    rfl
  have none : ∀ packet ∈ Trace.sent ((v.atPc .loop).takes.writes drv v.nextPacket).trace,
      ¬IsVerdict packet := h.none_append before nofun
  cases accepted with
  | true =>
    refine .decided _ updateSuccessful rfl rfl rfl ⟨.inl rfl, none, ?_, ?_⟩
    · intro _
      exact ⟨verdict, complete⟩
    · intro same
      exact absurd same updateSuccessful_ne_nack
  | false =>
    refine .decided _ nack rfl rfl rfl ⟨.inr rfl, none, ?_, ?_⟩
    · intro same
      exact absurd same.symm updateSuccessful_ne_nack
    · intro _ _
      exact verdict

theorem Undecided.step (h : Undecided v) (inv : SessionInv flash0 v)
    (step : SessionStep drv (fun flash => some (validate flash)) v v') :
    VerdictInv validate v' := by
  cases step with
  | start hpc | enter hpc | drained hpc | idle hpc =>
    exact .undecided (h.silent rfl rfl h.state nofun)
  | syncIdle hpc sync => exact .undecided h
  | timeout hpc waiting empty =>
    exact h.fails [] (congrArg (· ++ _) (List.append_nil _).symm) nofun
      (by rw [List.append_nil]; exact h.settled) rfl rfl
  | syncTimeout hpc sync =>
    exact h.fails [] (congrArg (· ++ _) (List.append_nil _).symm) nofun
      (by rw [List.append_nil]; exact h.settled) rfl hpc
  | syncByte byte hpc sync other =>
    exact .undecided (h.goes [] rfl nofun nofun h.slot h.state h.pc)
  | syncByteTimeout byte hpc sync other =>
    exact h.fails [.syncByte byte] rfl nofun (Trace.not_endsInWrite nofun) rfl hpc
  | syncMatch byte hpc sync found =>
    exact .undecided (h.goes [] rfl nofun nofun h.slot h.state nofun)
  | flushByte byte hpc => exact .undecided (h.goes [] rfl nofun nofun h.slot h.state h.pc)
  | flushed hpc =>
    exact .undecided (h.goes [] rfl (sent_single _ rfl (by decide)) nofun
      (isVerdict_single.not.mpr (by decide)) nofun nofun)
  | commsByte byte hpc => exact .undecided (h.commsByte byte)
  | refused length hpc waiting available wrong announced =>
    refine h.fails [.taken v.nextPacket] ?_ nofun (Trace.not_endsInWrite nofun) rfl rfl
    show (v.atPc .loop).takes.trace ++ [_] = _
    rw [takes_trace available]
    rfl
  | fwUpdateReq hpc state available request =>
    exact .undecided (h.goes [.taken v.nextPacket]
      (takes_send_trace available blPacketFwUpdateResData0) (sent_single _ rfl (by decide)) nofun
      (isVerdict_single.not.mpr (by decide)) nofun nofun)
  | deviceIdReq hpc state =>
    exact .undecided (h.goes [] rfl (sent_single _ rfl (by decide)) nofun
      (isVerdict_single.not.mpr (by decide)) nofun nofun)
  | deviceIdRes hpc state available shape device =>
    exact .undecided (h.goes [] (takes_trace available) nofun nofun h.slot nofun nofun)
  | fwLengthReq hpc state =>
    exact .undecided (h.goes [] rfl (sent_single _ rfl (by decide)) nofun
      (isVerdict_single.not.mpr (by decide)) nofun nofun)
  | fwLengthRes hpc state available shape fits =>
    exact .undecided (h.goes [] (takes_trace available) nofun nofun h.slot nofun nofun)
  | erase hpc state =>
    refine .undecided (h.goes [.erased] (List.append_assoc ..) ?_ nofun ?_ nofun nofun)
    · exact sent_single blPacketReadyForDataData0 rfl (by decide)
    · show ¬IsVerdict (commsCreateSingleBytePacket blPacketReadyForDataData0)
      exact isVerdict_single.not.mpr (by decide)
  | chunk hpc state available ok more =>
    have trace : (((v.atPc .loop).takes.writes drv v.nextPacket).sendSingleByte
        blPacketReadyForDataData0).trace = v.trace ++ ([.taken v.nextPacket,
          .accepted v.nextPacket, .programmed (v.atPc .loop).takes.writeAddress
            (chunkOf v.nextPacket)] ++
          [.sent (commsCreateSingleBytePacket blPacketReadyForDataData0)]) := by
      show ((v.atPc .loop).takes.trace ++ _) ++ _ = _
      rw [takes_trace available, List.append_assoc, List.append_assoc]
      rfl
    refine .undecided (h.goes _ trace ?_ nofun ?_ h.state nofun)
    · exact sent_single blPacketReadyForDataData0 rfl (by decide)
    · show ¬IsVerdict (commsCreateSingleBytePacket blPacketReadyForDataData0)
      exact isVerdict_single.not.mpr (by decide)
  | lastChunk accepted hpc state available ok complete verdict =>
    exact h.lastChunk available accepted complete (Option.some.inj verdict)
  | lastChunkFault hpc state available ok complete fault => cases fault
  | unexpected hpc outside =>
    have active := inv.active (.inr hpc)
    rcases outside with sync | done
    · exact absurd sync active.1
    · exact absurd done active.2
  | left obs hpc ended way => exact absurd ended h.state

theorem VerdictInv.step (h : VerdictInv validate v) (inv : SessionInv flash0 v)
    (step : SessionStep drv (fun flash => some (validate flash)) v v') :
    VerdictInv validate v' := by
  cases h with
  | undecided h => exact h.step inv step
  | decided before verdict state pc trace report =>
    obtain ⟨obs, rfl, way⟩ := step.of_done state pc
    refine .left before verdict obs state rfl ?_ ⟨report.isVerdict, report.only, report.success,
      report.failure⟩ ?_
    · show v.trace ++ [obs] = _
      rw [trace, List.append_assoc]
      rfl
    · rcases way with ⟨rfl, accepted⟩ | ⟨rfl, accepted⟩ | ⟨-, fault⟩
      · exact .inl ⟨rfl, Option.some.inj accepted⟩
      · exact .inr ⟨rfl, Option.some.inj accepted⟩
      · cases fault
  | left before verdict last state pc => exact absurd step (SessionStep.not_gone pc)

end Steps

section Runs

variable (drv : FlashDriver) (validate : Flash → Bool) (flash0 : Flash) (es : List BootEvent)

theorem bootRun_verdictInv :
    VerdictInv validate (bootRun drv (fun flash => some (validate flash)) flash0 es).session := by
  have init : VerdictInv validate (bootInit flash0).session := by
    refine .undecided ⟨nofun, nofun, nofun, zero_not_verdict, ?_⟩
    rintro ⟨front, address, data, same⟩
    exact absurd same.symm (List.append_ne_nil_of_right_ne_nil _ (List.cons_ne_nil _ _))
  have both := bootRun_invariant (P := fun v => SessionInv flash0 v ∧ VerdictInv validate v) drv
    (fun flash => some (validate flash)) flash0 es ⟨SessionInv.init flash0, init⟩
    fun v v' h step => ⟨h.1.step step, h.2.step h.1 step⟩
  exact both.2

end Runs

end SecureBootloader
