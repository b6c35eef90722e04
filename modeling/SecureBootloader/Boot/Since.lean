import SecureBootloader.Boot.QueueInv

/-!
# Runs seen from some state on

No step looks at the record of what was done before it. What a receiver that stands
between two frames, its queue empty, does from then on depends on nothing before: the
invariant of the queue holds of the record from that state on.
-/

namespace SecureBootloader

/-- The session with its record from entry `n` on. -/
def Session.since (n : Nat) (v : Session) : Session := { v with trace := v.trace.drop n }

/-- The record of a state from entry `n` on. -/
def Boot.since (n : Nat) (s : Boot) : Trace := s.trace.drop n

/-- The receiver between two frames, its queue empty. -/
structure Fresh (c : Comms) : Prop where
  state : c.currentState = .length
  count : c.dataByteCount = 0
  indices : QueueOk c
  empty : c.queue = []

theorem Fresh.queueInv {v : Session} (fresh : Fresh v.comms) :
    QueueInv (v.since v.trace.length) := by
  have nothing : (v.since v.trace.length).trace = [] := List.drop_length
  refine ⟨?_, fresh.indices, ?_, ?_⟩
  · rw [nothing]
    exact .between fresh.state fresh.count
  · rw [nothing]
    rfl
  · intro _
    rw [nothing]
    exact fresh.empty.symm

/-! ## Steps do not look at the record -/

/-- The session with some entries in front of its record. -/
def Session.behind (t : Trace) (v : Session) : Session := { v with trace := t ++ v.trace }

section Behind

variable (t : Trace) (v : Session)

theorem behind_shows (obs : Trace) : (v.behind t).shows obs = (v.shows obs).behind t :=
  congrArg (Session.mk _ _ _ _ _ _ _) (List.append_assoc ..)

theorem behind_afterComms (r : Comms × Trace) :
    (v.behind t).afterComms r = (v.afterComms r).behind t :=
  congrArg (Session.mk _ _ _ _ _ _ _) (List.append_assoc ..)

theorem behind_sendSingleByte (byte : Byte) :
    (v.behind t).sendSingleByte byte = (v.sendSingleByte byte).behind t :=
  behind_afterComms t v _

theorem behind_fails : (v.behind t).fails = v.fails.behind t :=
  congrArg (Session.withState · .done) (behind_sendSingleByte t v _)

theorem behind_takes : (v.behind t).takes = v.takes.behind t := behind_afterComms t v _

theorem behind_reads (byte : Byte) : (v.behind t).reads byte = (v.reads byte).behind t :=
  congrArg (Session.mk _ _ _ _ _ _ _) (List.append_assoc ..)

theorem behind_writes (drv : FlashDriver) (packet : CommsPacket) :
    (v.behind t).writes drv packet = (v.writes drv packet).behind t :=
  congrArg (Session.mk _ _ _ _ _ _ _) (List.append_assoc ..)

theorem behind_erases (drv : FlashDriver) : (v.behind t).erases drv = (v.erases drv).behind t :=
  congrArg (Session.mk _ _ _ _ _ _ _) (List.append_assoc ..)

theorem behind_atPc (pc : Pc) : (v.behind t).atPc pc = (v.atPc pc).behind t := rfl

theorem behind_withState (state : BlState) :
    (v.behind t).withState state = (v.withState state).behind t := rfl

theorem behind_firmwareLength (length : Nat) :
    { v.behind t with firmwareLength := length } =
      Session.behind t { v with firmwareLength := length } := rfl

theorem behind_nextPacket : (v.behind t).nextPacket = v.nextPacket := rfl

end Behind

/-- A step behind a record is the step without it. -/
theorem SessionStep.of_behind {drv : FlashDriver} {validate : Flash → Option Bool} {t : Trace}
    {v w' : Session} (step : SessionStep drv validate (v.behind t) w') :
    ∃ v', w' = v'.behind t ∧ SessionStep drv validate v v' := by
  cases step with
  | start hpc => exact ⟨_, rfl, .start hpc⟩
  | enter hpc active => exact ⟨_, rfl, .enter hpc active⟩
  | drained hpc => exact ⟨_, rfl, .drained hpc⟩
  | idle hpc waiting empty => exact ⟨_, rfl, .idle hpc waiting empty⟩
  | timeout hpc waiting empty =>
    exact ⟨_, behind_fails t (v.atPc .loop), .timeout hpc waiting empty⟩
  | syncIdle hpc sync => exact ⟨_, rfl, .syncIdle hpc sync⟩
  | syncTimeout hpc sync => exact ⟨_, behind_fails t v, .syncTimeout hpc sync⟩
  | syncByte byte hpc sync other => exact ⟨_, behind_reads t v byte, .syncByte byte hpc sync other⟩
  | syncByteTimeout byte hpc sync other =>
    refine ⟨_, ?_, .syncByteTimeout byte hpc sync other⟩
    rw [behind_reads, behind_fails]
  | syncMatch byte hpc sync found =>
    refine ⟨_, ?_, .syncMatch byte hpc sync found⟩
    rw [behind_reads, behind_atPc]
  | flushByte byte hpc => exact ⟨_, behind_shows t v _, .flushByte byte hpc⟩
  | flushed hpc =>
    refine ⟨_, ?_, .flushed hpc⟩
    rw [behind_sendSingleByte, behind_withState, behind_atPc]
  | commsByte byte hpc =>
    refine ⟨_, ?_, .commsByte byte hpc⟩
    rw [behind_shows, behind_afterComms]
    rfl
  | refused length hpc waiting available wrong announced =>
    refine ⟨_, ?_, .refused length hpc waiting available wrong announced⟩
    rw [behind_atPc, behind_takes, behind_firmwareLength, behind_fails]
  | fwUpdateReq hpc state available request =>
    refine ⟨_, ?_, .fwUpdateReq hpc state available request⟩
    rw [behind_atPc, behind_takes, behind_sendSingleByte, behind_withState]
  | deviceIdReq hpc state =>
    refine ⟨_, ?_, .deviceIdReq hpc state⟩
    rw [behind_atPc, behind_sendSingleByte, behind_withState]
  | deviceIdRes hpc state available shape device =>
    refine ⟨_, ?_, .deviceIdRes hpc state available shape device⟩
    rw [behind_atPc, behind_takes, behind_withState]
  | fwLengthReq hpc state =>
    refine ⟨_, ?_, .fwLengthReq hpc state⟩
    rw [behind_atPc, behind_sendSingleByte, behind_withState]
  | fwLengthRes hpc state available shape fits =>
    refine ⟨_, ?_, .fwLengthRes hpc state available shape fits⟩
    rw [behind_atPc, behind_takes, behind_firmwareLength, behind_withState, behind_nextPacket]
  | erase hpc state =>
    refine ⟨_, ?_, .erase hpc state⟩
    rw [behind_atPc, behind_erases, behind_sendSingleByte, behind_withState]
  | chunk hpc state available ok more =>
    refine ⟨_, ?_, .chunk hpc state available ok more⟩
    rw [behind_atPc, behind_takes, behind_writes, behind_sendSingleByte, behind_nextPacket]
  | lastChunk accepted hpc state available ok complete verdict =>
    refine ⟨_, ?_, .lastChunk accepted hpc state available ok complete verdict⟩
    rw [behind_atPc, behind_takes, behind_writes, behind_sendSingleByte, behind_withState,
      behind_nextPacket]
  | lastChunkFault hpc state available ok complete fault =>
    refine ⟨_, ?_, .lastChunkFault hpc state available ok complete fault⟩
    rw [behind_atPc, behind_takes, behind_writes, behind_shows, behind_atPc, behind_nextPacket]
  | unexpected hpc outside => exact ⟨_, rfl, .unexpected hpc outside⟩
  | left obs hpc ended way =>
    refine ⟨_, ?_, .left obs hpc ended way⟩
    rw [behind_shows, behind_atPc]

/-- A step is one on the record from entry `n` on as well. -/
theorem SessionStep.since {drv : FlashDriver} {validate : Flash → Option Bool} {n : Nat}
    {v v' : Session} (inside : n ≤ v.trace.length) (step : SessionStep drv validate v v') :
    SessionStep drv validate (v.since n) (v'.since n) ∧ n ≤ v'.trace.length := by
  have front : (v.trace.take n).length = n := List.length_take_of_le inside
  have split : v = (v.since n).behind (v.trace.take n) :=
    congrArg (Session.mk _ _ _ _ _ _ _) (List.take_append_drop n v.trace).symm
  rw [split] at step
  obtain ⟨w, rfl, moved⟩ := step.of_behind
  have back : (w.behind (v.trace.take n)).since n = w :=
    congrArg (Session.mk _ _ _ _ _ _ _) (List.drop_left' front)
  rw [back]
  refine ⟨moved, ?_⟩
  show n ≤ (v.trace.take n ++ w.trace).length
  rw [List.length_append, front]
  exact Nat.le_add_right n _

/-! ## Runs -/

/-- The bytes read since then only grow. -/
theorem ReceiverStep.commsBytes_le {v v' : Session} (step : ReceiverStep v v') :
    v.trace.commsBytes.length ≤ v'.trace.commsBytes.length := by
  have grows {obs : Trace} (trace : v'.trace = v.trace ++ obs) :
      v.trace.commsBytes.length ≤ v'.trace.commsBytes.length := by
    rw [trace, Trace.commsBytes_append, List.length_append]
    exact Nat.le_add_right _ _
  cases step with
  | quiet obs trace silent same => exact grows trace
  | byte byte hpc trace comms => exact grows trace
  | take obs available trace silent same => exact grows trace

section Runs

variable (drv : FlashDriver) (validate : Flash → Option Bool) {s : Boot}

/-- What every step keeps, seen from entry `n` on, every run keeps. -/
theorem since_run {P : Session → Prop} {n : Nat} (inside : n ≤ s.trace.length)
    (start : P (s.session.since n)) (keep : ∀ v v', P v → SessionStep drv validate v v' → P v')
    (es : List BootEvent) : P ((Lib.Run.run (bootStep drv validate) s es).session.since n) := by
  have step (t : Boot) (e : BootEvent)
      (h : n ≤ t.session.trace.length ∧ P (t.session.since n)) :
      n ≤ (bootStep drv validate t e).session.trace.length ∧
        P ((bootStep drv validate t e).session.since n) := by
    rcases bootStep_session drv validate t e with same | ⟨-, step⟩
    · rw [same]
      exact h
    · obtain ⟨since, inside'⟩ := step.since h.1
      exact ⟨inside', keep _ _ h.2 since⟩
  exact (Lib.Run.run_invariant step ⟨inside, start⟩ es).2

theorem Fresh.run_queueInv (fresh : Fresh s.comms) (es : List BootEvent) :
    QueueInv ((Lib.Run.run (bootStep drv validate) s es).session.since s.trace.length) :=
  since_run drv validate (Nat.le_refl _) (Fresh.queueInv (v := s.session) fresh)
    (fun _ _ inv step => inv.step step) es

/-- A receiver of a run that waits for a length byte, with nothing in the queue. -/
theorem bootRun_fresh (flash0 : Flash) (es : List BootEvent)
    (boundary : (bootRun drv validate flash0 es).comms.currentState = .length)
    (empty : commsPacketAvailable (bootRun drv validate flash0 es).comms = false) :
    Fresh (bootRun drv validate flash0 es).comms := by
  have inv := bootRun_queueInv drv validate flash0 es
  have none : tailOf _ = [] := inv.part.eq_nil boundary
  have part : Partial _ [] := none ▸ inv.part
  refine ⟨boundary, part.count, inv.ok, ?_⟩
  by_contra some
  have available := (commsPacketAvailable_iff inv.ok).mpr some
  exact absurd (empty.symm.trans available) (by decide)

end Runs

end SecureBootloader
