import SecureBootloader.Boot.QueueInv
import SecureBootloader.Link.Transfer

/-!
# The invariant of a transfer

What each program does to the packets between them: the bootloader moves packets
from the wire to the queue and from the queue to the flash, the host puts the
next chunk, or a copy of the last one, on the wire.
-/

namespace SecureBootloader

/-! ## The bootloader -/

section Receiving

variable {drv : FlashDriver} {validate : Flash → Option Bool} {flash0 : Flash} {v v' : Session}

/-- The queue and the accepted packets after a data packet is taken and accepted. -/
theorem accepts_moves (ok : QueueOk v.comms) (available : commsPacketAvailable v.comms = true)
    (obs : Trace) (none : obs.accepted = []) :
    Trace.accepted (((v.atPc .loop).takes.writes drv v.nextPacket).trace ++ obs) ++
      (commsReceivePacket v.comms).2.1.queue = v.trace.accepted ++ v.comms.queue := by
  rw [takes_writes_append available, Trace.accepted_append, commsReceivePacket_queue ok available,
    List.append_assoc]
  show v.trace.accepted ++ (v.nextPacket :: obs.accepted ++ _) = _
  rw [none]
  rfl

/-- In RECEIVE_FW a step outside `comms_update` moves packets from the queue to the
accepted ones, or ends the session. -/
theorem receiving_step (inv : SessionInv flash0 v) (ok : QueueOk v.comms)
    (step : SessionStep drv validate v v') (outside : v.pc ≠ .update)
    (live : v.bootloaderState = .receiveFw) :
    (v'.bootloaderState = .receiveFw ∧
      v'.trace.accepted ++ v'.comms.queue = v.trace.accepted ++ v.comms.queue) ∨
    (v'.bootloaderState = .done ∧ v'.trace.accepted <+: v.trace.accepted ++ v.comms.queue) := by
  have other {state : BlState} (h : v.bootloaderState = state) (ne : state ≠ .receiveFw) :
      False := ne (h.symm.trans live)
  cases step with
  | start | enter | drained | idle => exact .inl ⟨live, rfl⟩
  | timeout hpc waiting empty =>
    refine .inr ⟨rfl, ?_⟩
    show Trace.accepted (v.trace ++ [.sent _]) <+: _
    rw [Trace.accepted_append]
    exact List.prefix_append_right_inj _ |>.mpr List.nil_prefix
  | commsByte byte hpc => exact absurd hpc outside
  | refused length hpc waiting available wrong announced =>
    refine .inr ⟨rfl, ?_⟩
    show Trace.accepted ((v.atPc .loop).takes.sendSingleByte blPacketNackData0).trace <+: _
    rw [takes_send_trace available, Trace.accepted_append]
    exact List.prefix_append_right_inj _ |>.mpr List.nil_prefix
  | chunk hpc state available enough more =>
    exact .inl ⟨live, accepts_moves ok available [.sent _] rfl⟩
  | lastChunk accepted hpc state available enough complete verdict =>
    exact .inr ⟨rfl, _, accepts_moves ok available [.sent _] rfl⟩
  | lastChunkFault hpc state available enough complete fault =>
    exact .inl ⟨live, accepts_moves ok available [.faulted] rfl⟩
  -- every other step starts in another state
  | flushByte byte hpc => exact (other (inv.flushing hpc).1 (by decide)).elim
  | flushed hpc => exact (other (inv.flushing hpc).1 (by decide)).elim
  | syncByte byte hpc state | syncByteTimeout byte hpc state | syncMatch byte hpc state =>
    exact (other state (by decide)).elim
  | syncIdle hpc state | syncTimeout hpc state | fwUpdateReq hpc state | deviceIdReq hpc state
  | deviceIdRes hpc state | fwLengthReq hpc state | fwLengthRes hpc state | erase hpc state
  | left obs hpc state => exact (other state (by decide)).elim
  | unexpected hpc state =>
    rcases state with state | state
    · exact (other state (by decide)).elim
    · exact (other state (by decide)).elim

/-- Once the session is over nothing more is accepted. -/
theorem done_step (inv : SessionInv flash0 v) (step : SessionStep drv validate v v')
    (ended : v.bootloaderState = .done) :
    v'.bootloaderState = .done ∧ v'.trace.accepted = v.trace.accepted := by
  have other {state : BlState} (h : v.bootloaderState = state) (ne : state ≠ .done) :
      False := ne (h.symm.trans ended)
  have busy (h : v.pc = .update ∨ v.pc = .dispatch) : False := (inv.active h).2 ended
  cases step with
  | start => exact ⟨ended, rfl⟩
  | left obs hpc state way =>
    refine ⟨ended, ?_⟩
    show Trace.accepted (v.trace ++ [obs]) = _
    rw [Trace.accepted_append]
    rcases way with ⟨rfl, -⟩ | ⟨rfl, -⟩ | ⟨rfl, -⟩
    · exact List.append_nil _
    · exact List.append_nil _
    · exact List.append_nil _
  | enter hpc active => exact absurd ended active.2
  -- every other step starts in another state, or inside the loop
  | flushByte byte hpc => exact (other (inv.flushing hpc).1 (by decide)).elim
  | flushed hpc => exact (other (inv.flushing hpc).1 (by decide)).elim
  | syncByte byte hpc state | syncByteTimeout byte hpc state | syncMatch byte hpc state =>
    exact (other state (by decide)).elim
  | syncIdle hpc state | syncTimeout hpc state => exact (other state (by decide)).elim
  | drained hpc | commsByte byte hpc => exact (busy (.inl hpc)).elim
  | idle hpc | timeout hpc | refused length hpc | fwUpdateReq hpc | deviceIdReq hpc
  | deviceIdRes hpc | fwLengthReq hpc | fwLengthRes hpc | erase hpc | chunk hpc
  | lastChunk accepted hpc | lastChunkFault hpc | unexpected hpc =>
    exact (busy (.inr hpc)).elim

end Receiving

/-- A bootloader that takes part in a transfer: any run of it that has read every
byte it got, the last frame to its end. -/
structure BootSide (drv : FlashDriver) (validate : Flash → Option Bool) (flash0 : Flash)
    (b : Boot) : Prop where
  run : ∃ es, b = bootRun drv validate flash0 es
  empty : b.rxRingBuffer.readIndex = b.rxRingBuffer.writeIndex
  between : Partial b.comms []

section BootSide

variable {drv : FlashDriver} {validate : Flash → Option Bool} {flash0 : Flash} {b : Boot}
  (h : BootSide drv validate flash0 b)
include h

theorem BootSide.ringOk : RingOk b.rxRingBuffer := by
  obtain ⟨es, rfl⟩ := h.run
  exact bootRun_ringOk drv validate flash0 es

theorem BootSide.sessionInv : SessionInv flash0 b.session := by
  obtain ⟨es, rfl⟩ := h.run
  exact bootRun_sessionInv drv validate flash0 es

theorem BootSide.queueOk : QueueOk b.comms := by
  obtain ⟨es, rfl⟩ := h.run
  exact (bootRun_queueInv drv validate flash0 es).ok

theorem BootSide.runs (es : List BootEvent) :
    ∃ es', Lib.Run.run (bootStep drv validate) b es = bootRun drv validate flash0 es' := by
  obtain ⟨before, rfl⟩ := h.run
  exact ⟨before ++ es, (Lib.Run.run_append _ _ _ _).symm⟩

theorem BootSide.listening (pc : b.pc = .update) : Listening b := ⟨pc, h.ringOk, h.empty⟩

/-- The main program makes a step. -/
theorem BootSide.main : BootSide drv validate flash0 (bootStep drv validate b .main) := by
  have ring : (bootStep drv validate b .main).rxRingBuffer = b.rxRingBuffer :=
    mainStep_ring_empty drv validate b h.empty
  refine ⟨h.runs [.main], ring ▸ h.empty, ?_⟩
  by_cases pc : b.pc = .update
  · rw [(h.listening pc).ends drv validate]
    exact h.between
  · rcases bootStep_session drv validate b .main with same | ⟨-, step⟩
    · exact (congrArg (fun v => Partial (Session.comms v) []) same).mpr h.between
    · rcases receiverStep step with ⟨_, _, _, same⟩ | ⟨_, update, _, _⟩ | ⟨_, _, _, _, same⟩
      · exact same.part h.between
      · exact absurd update pc
      · exact same.part (h.between.congr rfl rfl rfl)

theorem BootSide.tick : BootSide drv validate flash0 (bootStep drv validate b .tick) := by
  have same : (bootStep drv validate b .tick).rxRingBuffer = b.rxRingBuffer ∧
      (bootStep drv validate b .tick).comms = b.comms := by
    rw [bootStep]
    split <;> exact ⟨rfl, rfl⟩
  exact ⟨h.runs [.tick], same.1 ▸ h.empty, same.2 ▸ h.between⟩

/-- A frame is read. -/
theorem BootSide.reads (pc : b.pc = .update) (packet : CommsPacket) :
    BootSide drv validate flash0
      (Lib.Run.run (bootStep drv validate) b (arrivals packet.bytes)) := by
  obtain ⟨listening, session⟩ := (h.listening pc).arrivals drv validate packet.bytes
  refine ⟨h.runs _, listening.empty, ?_⟩
  exact (congrArg (fun v => Partial (Session.comms v) []) session).mpr (h.between.frame packet).1

/-- A step of the main program moves packets from the queue to the accepted ones at
most, or ends the session. -/
theorem BootSide.main_moves {b' : Boot} (stepped : b' = bootStep drv validate b .main) :
    (b.bootloaderState = .receiveFw →
      (b'.bootloaderState = .receiveFw ∧
        b'.trace.accepted ++ b'.comms.queue = b.trace.accepted ++ b.comms.queue) ∨
      (b'.bootloaderState = .done ∧
        b'.trace.accepted <+: b.trace.accepted ++ b.comms.queue)) ∧
    (b.bootloaderState = .done →
      b'.bootloaderState = .done ∧ b'.trace.accepted = b.trace.accepted) := by
  by_cases pc : b.pc = .update
  · rw [(h.listening pc).ends drv validate] at stepped
    subst stepped
    exact ⟨fun live => .inl ⟨live, rfl⟩, fun ended => ⟨ended, rfl⟩⟩
  · rcases bootStep_session drv validate b .main with same | ⟨-, step⟩
    · rw [← stepped] at same
      have state : b'.bootloaderState = b.bootloaderState :=
        congrArg Session.bootloaderState same
      have trace : b'.trace = b.trace := congrArg Session.trace same
      have comms : b'.comms = b.comms := congrArg Session.comms same
      rw [state, trace, comms]
      exact ⟨fun live => .inl ⟨live, rfl⟩, fun ended => ⟨ended, rfl⟩⟩
    · rw [← stepped] at step
      exact ⟨fun live => receiving_step h.sessionInv h.queueOk step pc live,
        fun ended => done_step h.sessionInv step ended⟩

/-- Reading a frame: the state and the accepted packets stay, and the queue takes the
frame in if it is a packet and there is room. -/
theorem BootSide.reads_moves (pc : b.pc = .update) (packet : CommsPacket) {b' : Boot}
    (stepped : b' = Lib.Run.run (bootStep drv validate) b (arrivals packet.bytes)) :
    b'.bootloaderState = b.bootloaderState ∧ b'.trace.accepted = b.trace.accepted ∧
      (frameKind packet ≠ .packet → b'.comms.queue = b.comms.queue) ∧
      (frameKind packet = .packet → b.comms.queue.length < 7 →
        b'.comms.queue = b.comms.queue ++ [packet]) := by
  obtain ⟨-, session⟩ := (h.listening pc).arrivals drv validate packet.bytes
  rw [← stepped] at session
  have comms : b'.comms = (commsUpdateBytes b.comms packet.bytes).1 :=
    congrArg Session.comms session
  have trace : b'.trace = b.trace ++ arrivalTrace b.comms packet.bytes :=
    congrArg Session.trace session
  refine ⟨congrArg Session.bootloaderState session, ?_, ?_,
    ?_⟩
  · rw [trace, Trace.accepted_append, arrivalTrace_accepted, List.append_nil]
  · intro control
    rw [comms, h.between.frame_control control]
  · intro isPacket room
    rw [comms, h.between.frame_packet h.queueOk isPacket room]

end BootSide

/-! ## The host -/

/-- The packets a party reads as packets. -/
def packetsIn (packets : List CommsPacket) : List CommsPacket :=
  packets.filter fun packet => frameKind packet = .packet

theorem packetsIn_singleton (packet : CommsPacket) :
    packetsIn [packet] = if frameKind packet = .packet then [packet] else [] := by
  rw [packetsIn, List.filter_singleton]
  by_cases h : frameKind packet = .packet
  · rw [decide_eq_true h, if_pos h]
    rfl
  · rw [decide_eq_false h, if_neg h]
    rfl

theorem packetsIn_control {packet : CommsPacket} (control : frameKind packet ≠ .packet) :
    packetsIn [packet] = [] := by
  rw [packetsIn_singleton, if_neg control]

theorem retxPacket_control : frameKind retxPacket ≠ .packet := by
  rw [frameKind_retxPacket]
  decide

theorem ackPacket_control : frameKind ackPacket ≠ .packet := by
  rw [frameKind_ackPacket]
  decide

/-- While the port is open a `data` event goes to the receive handler. -/
theorem hostData_listening {h : Updater.Host} (listening : h.Listening) (data : List Byte) :
    Updater.hostData h data =
      ({ h with link := (Updater.onData h.link data).1 }, (Updater.onData h.link data).2) := by
  unfold Updater.hostData
  rcases listening with phase | phase <;> rw [phase]

theorem hostData_closed {h : Updater.Host} (closed : ¬h.Listening) (data : List Byte) :
    Updater.hostData h data = (h, []) := by
  unfold Updater.hostData
  cases phase : h.phase with
  | transfer => exact absurd (.inl phase) closed
  | validation => exact absurd (.inr phase) closed
  | finished => rfl
  | exited => rfl

/-- The host with other packets in its queue. -/
def Updater.Host.withPackets (h : Updater.Host) (packets : List CommsPacket) : Updater.Host :=
  { h with link := { h.link with packets := packets } }

/-- What `main` does from the transfer loop on. -/
inductive HostMoves (h : Updater.Host) : Updater.Host × Trace → Prop
  | rests : HostMoves h (h, [])
  | sent (phase : h.phase = .transfer) (all : h.fwImage.length ≤ h.byteWritten) :
      HostMoves h ({ h with phase := .validation }, [])
  | chunk (packet : CommsPacket) (packets : List CommsPacket) (phase : h.phase = .transfer)
      (more : h.byteWritten < h.fwImage.length) (queue : h.link.packets = packet :: packets)
      (ready : packet.length = 1 ∧ packet.dataAt 0 = blPacketReadyForDataData0) :
      HostMoves h (Updater.sendChunk (h.withPackets packets))
  | success (packet : CommsPacket) (packets : List CommsPacket) (phase : h.phase = .validation)
      (queue : h.link.packets = packet :: packets)
      (successful : Updater.isSingleBytePacket packet blPacketUpdateSuccessfulData0 = true) :
      HostMoves h ({ h.withPackets packets with phase := .finished }, [])
  | exits (packets : List CommsPacket) (listening : h.Listening) :
      HostMoves h ({ h.withPackets packets with phase := .exited }, [])

theorem hostMain_moves (h : Updater.Host) : HostMoves h (Updater.hostMain h) := by
  unfold Updater.hostMain
  split
  · next phase =>
    split
    · next more =>
      split
      · exact .rests
      · next packet packets queue =>
        dsimp only
        split
        · exact .exits packets (.inl phase)
        · next ready =>
          rw [not_or, not_not, not_not] at ready
          exact .chunk packet packets phase more queue ready
    · next all => exact .sent phase (Nat.le_of_not_lt all)
  · next phase =>
    split
    · exact .rests
    · next packet packets queue =>
      dsimp only
      split
      · next successful => exact .success packet packets phase queue successful
      · exact .exits packets (.inr phase)
  · exact .rests
  · exact .rests

/-- The next chunk, when whole chunks have been sent. -/
theorem sendChunk_next {h : Updater.Host}
    (written : h.byteWritten = min (16 * h.chunksSent) h.fwImage.length)
    (more : h.byteWritten < h.fwImage.length) :
    (Updater.sendChunk h).1.byteWritten =
        min (16 * (Updater.sendChunk h).1.chunksSent) h.fwImage.length ∧
      (Updater.sendChunk h).1.chunksSent = h.chunksSent + 1 ∧
      (Updater.sendChunk h).2.sent = [Updater.dataPacket h.fwImage (16 * h.chunksSent)] ∧
      16 * h.chunksSent < h.fwImage.length := by
  have start : h.byteWritten = 16 * h.chunksSent := by omega
  have next : (Updater.sendChunk h).1.byteWritten =
      h.byteWritten + min 16 (h.fwImage.length - h.byteWritten) := rfl
  have count : (Updater.sendChunk h).1.chunksSent = h.chunksSent + 1 := by
    show ((Updater.sendChunk h).1.byteWritten + 15) / 16 = _
    rw [next]
    omega
  refine ⟨?_, count, ?_, by omega⟩
  · rw [count, next]
    omega
  · rw [← start]
    rfl

/-- A host that sends `fwImage`: nothing half read, whole chunks sent, and the last
chunk in the slot unless something was sent since. -/
structure HostSide (fwImage : List Byte) (h : Updater.Host) : Prop where
  image : h.fwImage = fwImage
  rx : h.link.rxBuffer = []
  written : h.byteWritten = min (16 * h.chunksSent) fwImage.length
  last : frameKind h.link.lastPacket = .packet → 0 < h.chunksSent →
    h.link.lastPacket = Updater.dataPacket fwImage (16 * (h.chunksSent - 1))

section HostSide

variable {fwImage : List Byte} {h : Updater.Host} (side : HostSide fwImage h)
include side

/-- A frame is read: nothing that counts as a packet is sent, or the host listens,
the frame is a RETX and the slot holds a packet, which is sent again. -/
theorem HostSide.reads (packet : CommsPacket) :
    HostSide fwImage (Updater.hostData h packet.bytes).1 ∧
      (Updater.hostData h packet.bytes).1.chunksSent = h.chunksSent ∧
      (packetsIn (Updater.hostData h packet.bytes).2.sent = [] ∨
        h.Listening ∧ frameKind packet = .retx ∧ frameKind h.link.lastPacket = .packet ∧
          (Updater.hostData h packet.bytes).2.sent = [h.link.lastPacket]) := by
  by_cases listening : h.Listening
  · rw [hostData_listening listening, Updater.onData_frame side.rx, Updater.handlePacket_eq]
    cases kind : frameKind packet with
    | corrupt =>
      refine ⟨⟨side.image, side.rx, side.written, ?_⟩, rfl,
        .inl (packetsIn_control retxPacket_control)⟩
      intro isPacket
      exact absurd isPacket retxPacket_control
    | retx =>
      refine ⟨side, rfl, ?_⟩
      by_cases isPacket : frameKind h.link.lastPacket = .packet
      · exact .inr ⟨listening, rfl, isPacket, rfl⟩
      · exact .inl (packetsIn_control isPacket)
    | ack => exact ⟨side, rfl, .inl rfl⟩
    | packet =>
      refine ⟨⟨side.image, side.rx, side.written, ?_⟩, rfl,
        .inl (packetsIn_control ackPacket_control)⟩
      intro isPacket
      exact absurd isPacket ackPacket_control
  · rw [hostData_closed listening]
    exact ⟨side, rfl, .inl rfl⟩

/-- The chunk that is sent next. -/
theorem HostSide.sendChunk (more : h.byteWritten < h.fwImage.length) :
    HostSide fwImage (Updater.sendChunk h).1 ∧
      (Updater.sendChunk h).1.chunksSent = h.chunksSent + 1 ∧
      (Updater.sendChunk h).2.sent = [Updater.dataPacket fwImage (16 * h.chunksSent)] ∧
      16 * h.chunksSent < fwImage.length := by
  obtain ⟨written, count, sent, inside⟩ := sendChunk_next (side.image ▸ side.written) more
  rw [side.image] at written sent inside
  refine ⟨⟨side.image, side.rx, written, fun _ _ => ?_⟩, count, sent, inside⟩
  rw [count, Nat.add_sub_cancel]
  injection sent with packet

/-- What `main` takes out of the queue does not matter to the side. -/
theorem HostSide.takes (packets : List CommsPacket) (phase : Updater.HostPhase) :
    HostSide fwImage { h with link := { h.link with packets := packets }, phase := phase } :=
  ⟨side.image, side.rx, side.written, side.last⟩

/-- `main` goes on: it sends the next chunk, or nothing. -/
theorem HostSide.main :
    HostSide fwImage (Updater.hostMain h).1 ∧
      ((Updater.hostMain h).1.chunksSent = h.chunksSent ∧ (Updater.hostMain h).2.sent = [] ∨
        h.ReadyToSend ∧ (Updater.hostMain h).1.chunksSent = h.chunksSent + 1 ∧
          (Updater.hostMain h).2.sent = [Updater.dataPacket fwImage (16 * h.chunksSent)] ∧
          16 * h.chunksSent < fwImage.length) := by
  have moves := hostMain_moves h
  generalize Updater.hostMain h = r at moves ⊢
  cases moves with
  | rests => exact ⟨side, .inl ⟨rfl, rfl⟩⟩
  | sent phase all => exact ⟨side.takes h.link.packets .validation, .inl ⟨rfl, rfl⟩⟩
  | chunk packet packets phase more queue ready =>
    obtain ⟨side', count, sent, inside⟩ := (side.takes packets h.phase).sendChunk more
    exact ⟨side', .inr ⟨⟨phase, more, packet, by rw [queue]; rfl, ready⟩, count, sent, inside⟩⟩
  | success packet packets phase queue successful =>
    exact ⟨side.takes packets .finished, .inl ⟨rfl, rfl⟩⟩
  | exits packets listening => exact ⟨side.takes packets .exited, .inl ⟨rfl, rfl⟩⟩

theorem HostSide.timeout : HostSide fwImage (Updater.hostTimeout h) ∧
    (Updater.hostTimeout h).chunksSent = h.chunksSent := by
  have ended : HostSide fwImage { h with phase := .exited } := side.takes h.link.packets .exited
  unfold Updater.hostTimeout
  cases h.phase with
  | transfer =>
    dsimp only
    split
    · exact ⟨ended, rfl⟩
    · exact ⟨side, rfl⟩
  | validation => exact ⟨ended, rfl⟩
  | finished => exact ⟨side, rfl⟩
  | exited => exact ⟨side, rfl⟩

end HostSide

/-! ## Both together -/

/-- While RECEIVE_FW is active the packets delivered are the first chunks, as many as
have been sent at most; when it is over the accepted ones are the first chunks. -/
def InOrder (fwImage : List Byte) (s : Transfer) : Prop :=
  (s.boot.bootloaderState = .receiveFw ∧ s.delivered <+: dataPackets fwImage ∧
    s.delivered.length ≤ s.host.chunksSent) ∨
  (s.boot.bootloaderState = .done ∧ s.boot.trace.accepted <+: dataPackets fwImage)

structure TransferInv (drv : FlashDriver) (validate : Flash → Option Bool) (flash0 : Flash)
    (fwImage : List Byte) (s : Transfer) : Prop where
  boot : BootSide drv validate flash0 s.boot
  host : HostSide fwImage s.host
  order : InOrder fwImage s

namespace Transfer

/-- A packet is read only with room in the queue. -/
def ReadsWithRoom (s : Transfer) : Prop :=
  s.boot.pc = .update → ∀ f ∈ s.toBoot.head?, frameKind f.wire = .packet →
    s.boot.comms.queue.length < 7

/-- A RETX is answered with a packet only if the last chunk sent is the only one missing. -/
def ResendsMissing (s : Transfer) : Prop :=
  s.host.Listening → ∀ f ∈ s.toHost.head?, frameKind f.wire = .retx →
    frameKind s.host.link.lastPacket = .packet → s.delivered.length + 1 = s.host.chunksSent

/-- A new chunk is sent only if none is missing. -/
def SendsInTurn (s : Transfer) : Prop :=
  s.host.ReadyToSend → s.delivered.length = s.host.chunksSent

/-- A packet is damaged only if there is no other behind it. -/
def DamagesLast (s : Transfer) (i : Nat) (bytes : CommsPacket) : Prop :=
  frameKind bytes = .corrupt → ∀ f ∈ s.toBoot[i]?, frameKind f.wire = .packet →
    ∀ g ∈ s.toBoot.drop (i + 1), frameKind g.wire ≠ .packet

end Transfer

/-- A step at which no chunk is lost, repeated or overtaken while RECEIVE_FW is active. -/
def Orderly (s : Transfer) (e : TransferEvent) : Prop :=
  s.boot.bootloaderState = .receiveFw →
    match e with
    | .bootReads => s.ReadsWithRoom
    | .hostReads => s.ResendsMissing
    | .hostMain => s.SendsInTurn
    | .damage .bootloader i bytes => s.DamagesLast i bytes
    | _ => True

/-- The packets among some frames, as they would be read. -/
theorem inFlight_eq (s : Transfer) : s.inFlight = packetsIn (s.toBoot.map fun f => f.wire) := rfl

/-- Frames that were just sent are behind the others. -/
theorem packetsIn_sent (frames : List Frame) (sent : List CommsPacket) :
    packetsIn ((frames ++ sent.map (.clean : CommsPacket → Frame)).map fun f => f.wire) =
      packetsIn (frames.map fun f => f.wire) ++ packetsIn sent := by
  have clean : (sent.map (.clean : CommsPacket → Frame)).map (fun f => f.wire) = sent := by
    rw [List.map_map]
    exact List.map_id sent
  rw [List.map_append, clean, packetsIn, List.filter_append]
  rfl

/-- What the host sends is delivered as far as it counts as packets. -/
theorem delivered_hostDoes (s : Transfer) (r : Updater.Host × Trace) :
    (s.hostDoes r).delivered = s.delivered ++ packetsIn r.2.sent := by
  show _ ++ packetsIn ((s.toBoot ++ r.2.sent.map (.clean : CommsPacket → Frame)).map _) = _
  rw [packetsIn_sent, ← List.append_assoc]
  rfl

/-- A prefix of the chunks grows by the chunk behind it. -/
theorem prefix_next {fwImage : List Byte} {packets : List CommsPacket} {k : Nat}
    (h : packets <+: dataPackets fwImage) (length : packets.length = k)
    (inside : 16 * k < fwImage.length) :
    packets ++ [Updater.dataPacket fwImage (16 * k)] <+: dataPackets fwImage := by
  have front := List.prefix_iff_eq_take.mp h
  rw [length] at front
  have next : packets ++ [Updater.dataPacket fwImage (16 * k)] =
      (dataPackets fwImage).take (k + 1) := by
    rw [List.take_add_one, dataPackets_getElem? inside, ← front]
    rfl
  rw [next]
  exact List.take_prefix _ _

/-- Damage to a frame with no packet behind it takes the last packet away. -/
theorem packetsIn_damage (frames : List Frame) (i : Nat) (bytes : CommsPacket)
    (corrupt : frameKind bytes = .corrupt)
    (last : ∀ f ∈ frames[i]?, frameKind f.wire = .packet →
      ∀ g ∈ frames.drop (i + 1), frameKind g.wire ≠ .packet) :
    packetsIn ((frames.modify i (.damage bytes)).map fun f => f.wire) <+:
      packetsIn (frames.map fun f => f.wire) := by
  by_cases inside : i < frames.length
  · have wire : (frames[i].damage bytes).wire = bytes := by
      rw [Lib.Resend.Flight.damage, dif_pos (show commsCodec.kind bytes = .corrupt from corrupt)]
    have split : frames = frames.take i ++ frames[i] :: frames.drop (i + 1) := by
      rw [List.cons_getElem_drop_succ, List.take_append_drop]
    have control : frameKind bytes ≠ .packet := by
      rw [corrupt]
      decide
    rw [List.modify_eq_take_cons_drop inside]
    conv_rhs => rw [split]
    rw [List.map_append, List.map_append, List.map_cons, List.map_cons, wire, packetsIn,
      packetsIn, List.filter_append, List.filter_append,
      List.filter_cons_of_neg (by simpa using control)]
    refine (List.prefix_append_right_inj _).mpr ?_
    by_cases packet : frameKind frames[i].wire = .packet
    · have none : packetsIn ((frames.drop (i + 1)).map fun f => f.wire) = [] := by
        refine List.filter_eq_nil_iff.mpr ?_
        intro p hp
        obtain ⟨g, hg, rfl⟩ := List.mem_map.mp hp
        have := last frames[i] (List.getElem?_eq_getElem inside) packet g hg
        simpa using this
      rw [packetsIn] at none
      rw [none]
      exact List.nil_prefix
    · rw [List.filter_cons_of_neg (by simpa using packet)]
  · rw [List.modify_eq_self (Nat.le_of_not_lt inside)]

section Steps

variable {drv : FlashDriver} {validate : Flash → Option Bool} {flash0 : Flash}
  {fwImage : List Byte} {s : Transfer} (inv : TransferInv drv validate flash0 fwImage s)
include inv

/-- The bootloader steps, without reading a frame. -/
theorem TransferInv.bootMain : TransferInv drv validate flash0 fwImage
    (s.bootRuns drv validate [.main]) := by
  refine ⟨inv.boot.main, inv.host, ?_⟩
  obtain ⟨live, ended⟩ := inv.boot.main_moves rfl
  rcases inv.order with ⟨state, order, count⟩ | ⟨state, order⟩
  · rcases live state with ⟨state', moved⟩ | ⟨state', accepted⟩
    · have same : (s.bootRuns drv validate [.main]).delivered = s.delivered :=
        congrArg (· ++ s.inFlight) moved
      exact .inl ⟨state', same ▸ order, same ▸ count⟩
    · exact .inr ⟨state', accepted.trans ((List.prefix_append ..).trans order)⟩
  · obtain ⟨state', accepted⟩ := ended state
    exact .inr ⟨state', accepted ▸ order⟩

theorem TransferInv.bootTick : TransferInv drv validate flash0 fwImage
    (s.bootRuns drv validate [.tick]) := by
  have same : (bootStep drv validate s.boot .tick).session = s.boot.session :=
    (bootStep_session drv validate s.boot .tick).resolve_right fun h => by cases h.1
  have state : (bootStep drv validate s.boot .tick).bootloaderState = s.boot.bootloaderState :=
    congrArg Session.bootloaderState same
  have accepted : (bootStep drv validate s.boot .tick).trace.accepted = s.boot.trace.accepted :=
    congrArg (fun v => (Session.trace v).accepted) same
  have queue : (bootStep drv validate s.boot .tick).comms.queue = s.boot.comms.queue :=
    congrArg (fun v => (Session.comms v).queue) same
  refine ⟨inv.boot.tick, inv.host, ?_⟩
  rcases inv.order with ⟨live, order, count⟩ | ⟨ended, order⟩
  · have delivered : (s.bootRuns drv validate [.tick]).delivered = s.delivered := by
      show (bootStep drv validate s.boot .tick).trace.accepted ++
        (bootStep drv validate s.boot .tick).comms.queue ++ s.inFlight = _
      rw [accepted, queue]
      rfl
    exact .inl ⟨state.trans live, delivered ▸ order, delivered ▸ count⟩
  · exact .inr ⟨state.trans ended, accepted ▸ order⟩

/-- The bootloader reads a frame. -/
theorem TransferInv.bootReads (orderly : Orderly s .bootReads) :
    TransferInv drv validate flash0 fwImage (s.bootReads drv validate) := by
  cases wire : s.toBoot with
  | nil =>
    rw [Transfer.bootReads, wire]
    exact inv
  | cons f toBoot =>
    rw [Transfer.bootReads, wire]
    by_cases pc : s.boot.pc = .update
    · simp only [if_pos pc]
      refine ⟨inv.boot.reads pc f.wire, inv.host, ?_⟩
      obtain ⟨state, accepted, control, packet⟩ := inv.boot.reads_moves pc f.wire rfl
      rcases inv.order with ⟨live, order, count⟩ | ⟨ended, order⟩
      · have front : s.inFlight = packetsIn [f.wire] ++ packetsIn (toBoot.map fun f => f.wire) := by
          rw [inFlight_eq, wire, List.map_cons, packetsIn, ← List.singleton_append,
            List.filter_append]
          rfl
        have delivered : Transfer.delivered ({ s with toBoot := toBoot }.bootRuns drv validate
            (arrivals f.wire.bytes)) = s.delivered := by
          refine (congrArg (· ++ _ ++ _) accepted).trans ?_
          show s.boot.trace.accepted ++ (Lib.Run.run (bootStep drv validate) s.boot
              (arrivals f.wire.bytes)).comms.queue ++ packetsIn (toBoot.map fun f => f.wire) =
            s.boot.trace.accepted ++ s.boot.comms.queue ++ s.inFlight
          rw [front, packetsIn_singleton]
          by_cases kind : frameKind f.wire = .packet
          · have room := orderly live pc f (by rw [wire]; rfl) kind
            rw [packet kind room, if_pos kind]
            simp only [List.append_assoc]
          · rw [control kind, if_neg kind, List.nil_append]
        exact .inl ⟨state.trans live, delivered ▸ order, delivered ▸ count⟩
      · exact .inr ⟨state.trans ended, accepted ▸ order⟩
    · simp only [if_neg pc]
      exact inv

/-- The host reads a frame. -/
theorem TransferInv.hostReads (orderly : Orderly s .hostReads) :
    TransferInv drv validate flash0 fwImage s.hostReads := by
  cases wire : s.toHost with
  | nil =>
    rw [Transfer.hostReads, wire]
    exact inv
  | cons f toHost =>
    rw [Transfer.hostReads, wire]
    obtain ⟨side, sent, answer⟩ := inv.host.reads f.wire
    refine ⟨inv.boot, side, ?_⟩
    rcases inv.order with ⟨live, order, count⟩ | ⟨ended, order⟩
    · refine .inl ⟨live, ?_⟩
      rw [delivered_hostDoes]
      show s.delivered ++ packetsIn (Updater.hostData s.host f.wire.bytes).2.sent <+: _ ∧
        (s.delivered ++ packetsIn (Updater.hostData s.host f.wire.bytes).2.sent).length ≤
          (Updater.hostData s.host f.wire.bytes).1.chunksSent
      rw [sent]
      rcases answer with none | ⟨listening, retx, isPacket, again⟩
      · rw [none, List.append_nil]
        exact ⟨order, count⟩
      · -- the slot holds the last chunk, and that is the one missing
        have missing := orderly live listening f (by rw [wire]; rfl) retx isPacket
        have slot := inv.host.last isPacket (missing ▸ Nat.succ_pos _)
        have written := inv.host.written
        have count' : s.host.chunksSent = (s.host.byteWritten + 15) / 16 := rfl
        rw [← missing, Nat.add_sub_cancel] at slot
        rw [again, packetsIn_singleton, if_pos isPacket, slot]
        refine ⟨prefix_next order rfl (by omega), ?_⟩
        rw [List.length_append]
        exact Nat.le_of_eq missing
    · exact .inr ⟨ended, order⟩

/-- The host goes on. -/
theorem TransferInv.hostMain (orderly : Orderly s .hostMain) :
    TransferInv drv validate flash0 fwImage (s.hostDoes (Updater.hostMain s.host)) := by
  obtain ⟨side, sends⟩ := inv.host.main
  refine ⟨inv.boot, side, ?_⟩
  rcases inv.order with ⟨live, order, count⟩ | ⟨ended, order⟩
  · refine .inl ⟨live, ?_⟩
    rw [delivered_hostDoes]
    show _ ∧ _ ≤ (Updater.hostMain s.host).1.chunksSent
    rcases sends with ⟨sent, none⟩ | ⟨ready, sent, one, inside⟩
    · rw [none, show packetsIn [] = [] from rfl, List.append_nil, sent]
      exact ⟨order, count⟩
    · have all := orderly live ready
      rw [one, packetsIn_singleton, sent]
      split
      · refine ⟨prefix_next order all inside, ?_⟩
        rw [List.length_append, all]
        exact Nat.le_refl _
      · rw [List.append_nil]
        exact ⟨order, Nat.le_succ_of_le count⟩
  · exact .inr ⟨ended, order⟩

/-- A frame is damaged. -/
theorem TransferInv.damage {party : Party} {i : Nat} {bytes : CommsPacket}
    (orderly : Orderly s (.damage party i bytes)) :
    TransferInv drv validate flash0 fwImage (s.damage i bytes party) := by
  cases party with
  | host => exact ⟨inv.boot, inv.host, inv.order⟩
  | bootloader =>
    refine ⟨inv.boot, inv.host, ?_⟩
    rcases inv.order with ⟨live, order, count⟩ | ⟨ended, order⟩
    · by_cases corrupt : frameKind bytes = .corrupt
      · have shrinks : (s.damage i bytes .bootloader).delivered <+: s.delivered :=
          (List.prefix_append_right_inj _).mpr
            (packetsIn_damage s.toBoot i bytes corrupt (orderly live corrupt))
        exact .inl ⟨live, shrinks.trans order, shrinks.length_le.trans count⟩
      · have none : (Lib.Resend.Flight.damage bytes : Frame → Frame) = id :=
          funext fun f => dif_neg corrupt
        have same : s.damage i bytes .bootloader = s := by
          show { s with toBoot := s.toBoot.modify i (.damage bytes) } = s
          rw [none, List.modify_id]
        rw [same]
        exact .inl ⟨live, order, count⟩
    · exact .inr ⟨ended, order⟩

theorem TransferInv.step {e : TransferEvent} (orderly : Orderly s e) :
    TransferInv drv validate flash0 fwImage (transferStep drv validate s e) := by
  cases e with
  | bootReads => exact inv.bootReads orderly
  | bootMain => exact inv.bootMain
  | bootTick => exact inv.bootTick
  | hostReads => exact inv.hostReads orderly
  | hostMain => exact inv.hostMain orderly
  | hostTimeout =>
    obtain ⟨side, sent⟩ := inv.host.timeout
    refine ⟨inv.boot, side, ?_⟩
    rcases inv.order with ⟨live, order, count⟩ | ⟨ended, order⟩
    · exact .inl ⟨live, order, count.trans (Nat.le_of_eq sent.symm)⟩
    · exact .inr ⟨ended, order⟩
  | damage party i bytes => exact inv.damage orderly

end Steps

end SecureBootloader
