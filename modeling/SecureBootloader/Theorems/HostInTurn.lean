import SecureBootloader.Lib.Run
import SecureBootloader.Link.HostScript
import SecureBootloader.Updater.Sync

/-!
# The host speaks in turn

`main` of `index.ts` behind the synchronisation, with anything at all at its port. What it
writes is its script, in order and as far as the other end asks for it word by word, and an
answer to each frame that arrives, in the place where it arrives. A word that it waits for is
answered in its next turn, any other packet ends it, and so does a wait that takes too long.
-/

namespace SecureBootloader

open Updater (MainState SyncState)

/-! ## The host alone -/

/-- What can happen to the host. -/
inductive HostEvent where
  | data (bytes : List Byte)
  | main
  | timeout
  deriving DecidableEq, Repr

def hostEvent (m : MainState) : HostEvent → MainState × Trace
  | .data bytes => Updater.mainData m bytes
  | .main => Updater.mainStep m
  | .timeout => (Updater.mainTimeout m, [])

def hostStep (m : MainState) (e : HostEvent) : MainState := (hostEvent m e).1

/-- The packets written at an event. -/
def hostWrote (m : MainState) (e : HostEvent) : List CommsPacket := (hostEvent m e).2.sent

instance (m : MainState) : Decidable m.host.Listening := inferInstanceAs (Decidable (_ ∨ _))

/-- The bytes that reach the open port at an event. -/
def hostHeard (m : MainState) : HostEvent → List Byte
  | .data bytes => if m.host.Listening then bytes else []
  | .main | .timeout => []

/-! ## Its frames -/

/-- A frame of the script, or one that reached the host. -/
inductive Line where
  | own (packet : CommsPacket)
  | heard (frame : CommsPacket)

namespace Line

def own? : Line → Option CommsPacket
  | .own packet => some packet
  | .heard _ => none

def heard? : Line → Option CommsPacket
  | .own _ => none
  | .heard frame => some frame

/-- What is written for a line, if `last` was written last. -/
def writes (last : CommsPacket) : Line → List CommsPacket
  | .own packet => [packet]
  | .heard frame =>
    match frameKind frame with
    | .corrupt => [retxPacket]
    | .retx => [last]
    | .ack => []
    | .packet => [ackPacket]

/-- What has been written last behind it. -/
def slot (last : CommsPacket) (line : Line) : CommsPacket := (line.writes last).getLastD last

end Line

/-- The frames of the script among some lines. -/
def ownOf (lines : List Line) : List CommsPacket := lines.filterMap Line.own?

/-- The frames heard among some lines. -/
def heardOf (lines : List Line) : List CommsPacket := lines.filterMap Line.heard?

/-- All that is written for some lines. -/
def spell (last : CommsPacket) (lines : List Line) : List CommsPacket :=
  Lib.Run.emitted Line.slot Line.writes last lines

section Lines

variable (lines more : List Line) (packets : List CommsPacket)

@[simp] theorem ownOf_append : ownOf (lines ++ more) = ownOf lines ++ ownOf more :=
  List.filterMap_append ..

@[simp] theorem heardOf_append : heardOf (lines ++ more) = heardOf lines ++ heardOf more :=
  List.filterMap_append ..

@[simp] theorem ownOf_own : ownOf (packets.map .own) = packets := by
  rw [ownOf, List.filterMap_map]
  exact List.filterMap_some

@[simp] theorem ownOf_heard : ownOf (packets.map .heard) = [] := by
  rw [ownOf, List.filterMap_map]
  exact List.filterMap_none packets

@[simp] theorem heardOf_own : heardOf (packets.map .own) = [] := by
  rw [heardOf, List.filterMap_map]
  exact List.filterMap_none packets

@[simp] theorem heardOf_heard : heardOf (packets.map .heard) = packets := by
  rw [heardOf, List.filterMap_map]
  exact List.filterMap_some

end Lines

/-- The handler does for a frame what its line says. -/
theorem handlePacket_line (h : Updater.HostLink) (frame : CommsPacket) :
    (Updater.handlePacket h frame).2.sent = (Line.heard frame).writes h.lastPacket ∧
      (Updater.handlePacket h frame).1.lastPacket = (Line.heard frame).slot h.lastPacket := by
  rw [Updater.handlePacket_eq, Line.slot, Line.writes]
  cases frameKind frame <;> exact ⟨rfl, rfl⟩

/-- The loop of the handler goes through the frames there are. -/
theorem handleLoop_lines (h : Updater.HostLink) :
    (Updater.handleLoop (h.rxBuffer.length / Updater.packetLength) h).2.sent =
        spell h.lastPacket ((framesOf h.rxBuffer).map .heard) ∧
      (Updater.handleLoop (h.rxBuffer.length / Updater.packetLength) h).1.lastPacket =
        Lib.Run.run Line.slot h.lastPacket ((framesOf h.rxBuffer).map .heard) := by
  induction h using Updater.HostLink.frames_induction with
  | short h short =>
    rw [Updater.handleLoop_short short, (framesOf_short short).1]
    exact ⟨rfl, rfl⟩
  | frame h enough ih =>
    obtain ⟨frames, -⟩ := framesOf_drop enough
    obtain ⟨wrote, slot⟩ := handlePacket_line h (frameOf h.rxBuffer)
    have behind : (Updater.afterFrame h).rxBuffer = h.rxBuffer.drop 18 :=
      (Updater.afterFrame_eq enough).1
    have last : (Updater.afterFrame h).lastPacket =
        (Line.heard (frameOf h.rxBuffer)).slot h.lastPacket := by
      unfold Updater.afterFrame
      rw [Updater.ofRaw_take enough]
      exact slot
    have sent : (Updater.frameTrace h).sent =
        (Line.heard (frameOf h.rxBuffer)).writes h.lastPacket := by
      rw [Updater.frameTrace, Updater.ofRaw_take enough]
      exact wrote
    rw [last, behind] at ih
    rw [Updater.handleLoop_turn enough, behind, frames, Trace.sent_append, sent, ih.1, ih.2,
      List.map_cons, Lib.Run.run_cons, spell, spell, Lib.Run.emitted]
    exact ⟨rfl, rfl⟩

/-- What a `data` event does to a handler that has seen `seen`. -/
theorem onData_lines {h : Updater.HostLink} {seen : List Byte} (rx : h.rxBuffer = tailOf seen)
    (data : List Byte) : ∃ frames, framesOf (seen ++ data) = framesOf seen ++ frames ∧
      (Updater.onData h data).1.rxBuffer = tailOf (seen ++ data) ∧
      (Updater.onData h data).1.packets = h.packets ++ packetsIn frames ∧
      (Updater.onData h data).2.sent = spell h.lastPacket (frames.map .heard) ∧
      (Updater.onData h data).1.lastPacket =
        Lib.Run.run Line.slot h.lastPacket (frames.map .heard) := by
  obtain ⟨frames, tail⟩ := framesOf_append seen data
  obtain ⟨rest, packets, -⟩ :=
    Updater.handleLoop_frames { h with rxBuffer := h.rxBuffer ++ data }
  obtain ⟨wrote, slot⟩ := handleLoop_lines { h with rxBuffer := h.rxBuffer ++ data }
  rw [← rx] at frames tail
  exact ⟨_, frames, rest.trans tail.symm, packets, wrote, slot⟩

/-! ## What `main` waits for -/

/-- The word behind which `main` sends its packet number `i + 1`. -/
def promptOf : Nat → Byte
  | 0 => blPacketFwUpdateResData0
  | 1 => blPacketDeviceIdReqData0
  | 2 => blPacketFwLengthReqData0
  | _ => blPacketReadyForDataData0

/-- The padding is not looked at. -/
def Prompts (i : Nat) (packet : CommsPacket) : Prop :=
  packet.length = 1 ∧ packet.dataAt 0 = promptOf i

/-- The first `n` packets are the words `main` waits for, in order. -/
def Prompted (n : Nat) (packets : List CommsPacket) : Prop :=
  ∀ i < n, ∃ packet ∈ packets[i]?, Prompts i packet

theorem Prompted.mono {n k : Nat} {packets : List CommsPacket} (h : Prompted n packets)
    (le : k ≤ n) (more : List CommsPacket) : Prompted k (packets ++ more) := by
  intro i inside
  obtain ⟨packet, member, prompts⟩ := h i (Nat.lt_of_lt_of_le inside le)
  obtain ⟨short, rfl⟩ := List.getElem?_eq_some_iff.mp member
  exact ⟨packets[i], by rw [List.getElem?_append_left short]; exact member, prompts⟩

theorem Prompted.concat {packets : List CommsPacket} {packet : CommsPacket}
    (h : Prompted packets.length packets) (prompts : Prompts packets.length packet) :
    Prompted (packets.length + 1) (packets ++ [packet]) := by
  intro i inside
  rcases Nat.lt_succ_iff_lt_or_eq.mp inside with earlier | rfl
  · exact h.mono (Nat.le_refl _) [packet] i earlier
  · exact ⟨packet, by simp, prompts⟩

/-- The verdict is waited for in the last stage. -/
theorem MainOk.validates {fwImage : List Byte} {m : MainState} (ok : MainOk fwImage m)
    (phase : m.host.phase = .validation) : m.stage = .fwData := by
  by_contra early
  rcases (ok.early early).2 with transfer | exited
  · exact absurd (phase.symm.trans transfer) (by decide)
  · exact absurd (phase.symm.trans exited) (by decide)

/-- The whole image has been sent. -/
def Updater.MainState.Sent (m : MainState) : Prop :=
  m.host.phase = .validation ∨ m.host.phase = .finished

/-- What a turn of `main` does to what it has heard, what it wrote last and how it stands. -/
structure MainAdvances (fwImage : List Byte) (m : MainState) (r : MainState × Trace) : Prop where
  heard : r.1.heard = m.heard ∨ r.1.heard = m.heard + 1 ∧
    ∃ packet packets, m.host.link.packets = packet :: packets ∧ Prompts m.heard packet
  slot : r.1.host.link.lastPacket = r.2.sent.getLastD m.host.link.lastPacket
  whole : (m.Sent → m.said = (script fwImage).length) → r.1.Sent →
    r.1.said = (script fwImage).length
  success : r.1.host.phase = .finished → m.host.phase = .finished ∨ m.host.phase = .validation ∧
    ∃ packet packets, m.host.link.packets = packet :: packets ∧
      Updater.isSingleBytePacket packet blPacketUpdateSuccessfulData0 = true

section Advances

variable {fwImage : List Byte} {m : MainState} {r : MainState × Trace}

/-- As long as the image is being sent the end is not to be explained. -/
theorem MainAdvances.early (heard : r.1.heard = m.heard ∨ r.1.heard = m.heard + 1 ∧
      ∃ packet packets, m.host.link.packets = packet :: packets ∧ Prompts m.heard packet)
    (slot : r.1.host.link.lastPacket = r.2.sent.getLastD m.host.link.lastPacket)
    (phase : r.1.host.phase = .transfer ∨ r.1.host.phase = .exited) : MainAdvances fwImage m r := by
  refine ⟨heard, slot, fun _ ended => ?_, fun finished => ?_⟩
  · rcases phase with phase | phase <;> rcases ended with ended | ended <;>
      exact absurd (phase.symm.trans ended) (by decide)
  · rcases phase with phase | phase <;> exact absurd (phase.symm.trans finished) (by decide)

/-- `waitForSingleBytePacket` in the handshake. -/
theorem awaits_advances {byte : Byte} {follow : MainState → MainState × Trace}
    (transfer : m.host.phase = .transfer) (word : byte = promptOf m.heard)
    (follows : ∀ packets, ∃ next : MainState × Trace,
      follow { m with host := m.host.withPackets packets } = next ∧
        next.1.heard = m.heard + 1 ∧ next.1.host.phase = .transfer ∧
        next.1.host.link.lastPacket = next.2.sent.getLastD m.host.link.lastPacket) :
    MainAdvances fwImage m (m.awaits byte follow) := by
  unfold MainState.awaits
  split
  · exact .early (.inl rfl) rfl (.inl transfer)
  · next packet packets queue =>
    dsimp only
    split
    · exact .early (.inl rfl) rfl (.inr rfl)
    · next expected =>
      rw [not_or, not_not, not_not] at expected
      obtain ⟨next, same, heard, phase, slot⟩ := follows packets
      rw [Updater.Host.withPackets] at same
      rw [same]
      refine .early (.inr ⟨heard, packet, packets, queue, expected.1, ?_⟩) slot (.inl phase)
      rw [expected.2, word]

/-- The transfer loop and the wait for the verdict. -/
theorem fwData_advances (ok : MainOk fwImage m) (stage : m.stage = .fwData) :
    MainAdvances fwImage m ({ m with host := (Updater.hostMain m.host).1 },
      (Updater.hostMain m.host).2) := by
  have said (host : Updater.Host) : ({ m with host := host } : MainState).said =
      3 + host.chunksSent := by rw [MainState.said, stage]
  have heard (host : Updater.Host) : ({ m with host := host } : MainState).heard =
      3 + host.chunksSent := by rw [MainState.heard, stage]
  have moves := hostMain_moves m.host
  generalize Updater.hostMain m.host = r at moves ⊢
  cases moves with
  | rests => exact ⟨.inl rfl, rfl, id, .inl⟩
  | sent phase all =>
    refine ⟨.inl ?_, rfl, fun _ _ => ?_, ?_⟩
    · exact (heard _).trans (heard m.host).symm
    · have written := ok.written
      rw [ok.image] at all written
      refine (said _).trans ?_
      show 3 + (m.host.byteWritten + 15) / 16 = _
      rw [script_length]
      omega
    · rintro finished
      cases finished
  | chunk packet packets phase more queue ready =>
    obtain ⟨-, count, -, -⟩ := sendChunk_next (h := m.host.withPackets packets) ok.written more
    refine .early (.inr ⟨?_, packet, packets, queue, ready.1, ?_⟩) rfl (.inl phase)
    · rw [heard, count]
      exact congrArg (· + 1) (heard m.host).symm
    · rw [ready.2, show m.heard = m.host.chunksSent + 3 from (heard m.host).trans (Nat.add_comm ..)]
      rfl
  | success packet packets phase queue successful =>
    refine ⟨.inl ?_, rfl, fun whole _ => ?_,
      fun _ => .inr ⟨phase, packet, packets, queue, successful⟩⟩
    · exact (heard _).trans (heard m.host).symm
    · exact ((said _).trans (said m.host).symm).trans (whole (.inl phase))
  | exits packets listening =>
    exact .early (.inl ((heard _).trans (heard m.host).symm)) rfl (.inr rfl)

theorem mainStep_advances (ok : MainOk fwImage m) :
    MainAdvances fwImage m (Updater.mainStep m) := by
  unfold Updater.mainStep
  by_cases exited : m.host.phase = .exited
  · rw [if_pos exited]
    exact .early (.inl rfl) rfl (.inr exited)
  · rw [if_neg exited]
    have early (stage : m.stage ≠ .fwData) := ok.transfer stage exited
    cases stage : m.stage with
    | fwUpdateReq =>
      have transfer := early (by rw [stage]; decide)
      have heard : m.heard = 0 := by rw [MainState.heard, stage]
      exact .early (.inl heard.symm) rfl (.inl transfer)
    | fwUpdateRes =>
      have transfer := early (by rw [stage]; decide)
      have heard : m.heard = 0 := by rw [MainState.heard, stage]
      refine awaits_advances transfer (by rw [heard]; rfl) fun packets => ?_
      rw [heard]
      exact ⟨_, rfl, rfl, transfer, rfl⟩
    | deviceIdReq =>
      have transfer := early (by rw [stage]; decide)
      have heard : m.heard = 1 := by rw [MainState.heard, stage]
      refine awaits_advances transfer (by rw [heard]; rfl) fun packets => ?_
      rw [heard]
      exact ⟨_, rfl, rfl, transfer, rfl⟩
    | fwLengthReq =>
      have transfer := early (by rw [stage]; decide)
      have heard : m.heard = 2 := by rw [MainState.heard, stage]
      have none : m.host.chunksSent = 0 := by
        rw [Updater.Host.chunksSent, (ok.early (by rw [stage]; decide)).1]
      refine awaits_advances transfer (by rw [heard]; rfl) fun packets => ?_
      rw [heard]
      exact ⟨_, rfl, congrArg (3 + ·) none, transfer, rfl⟩
    | fwData =>
      dsimp only
      rw [← stage]
      exact fwData_advances ok stage

theorem mainTimeout_advances (ok : MainOk fwImage m) :
    MainAdvances fwImage m (Updater.mainTimeout m, []) := by
  rcases mainTimeout_eq m ok with same | ⟨-, same⟩
  · rw [same]
    exact ⟨.inl rfl, rfl, id, .inl⟩
  · rw [same]
    exact .early (.inl rfl) rfl (.inr rfl)

end Advances

/-! ## What `main` does in its turn -/

/-- As long as its port is open, what `main` does next with the packet in front of its queue. -/
structure Responds (fwImage : List Byte) (m : MainState) : Prop where
  opens : m.host.Listening → m.said = 0 → hostWrote m .main = (script fwImage).take 1
  /-- it takes the word it waits for, and writes up to the packet behind it -/
  answers : ∀ packet ∈ m.host.link.packets.head?, m.host.Listening → 0 < m.said →
    m.said < (script fwImage).length → Prompts m.heard packet →
      (hostStep m .main).heard = m.heard + 1 ∧
        hostWrote m .main = ((script fwImage).drop m.said).take (m.heard + 1 - m.said)
  /-- any other packet ends it -/
  refuses : ∀ packet ∈ m.host.link.packets.head?, m.host.Listening → 0 < m.said →
    m.said < (script fwImage).length → ¬Prompts m.heard packet →
      (hostStep m .main).host.phase = .exited
  /-- behind the last packet of the script it takes the verdict -/
  verdict : ∀ packet ∈ m.host.link.packets.head?, m.host.Listening →
    m.said = (script fwImage).length →
      (Lib.Run.run hostStep m [.main, .main]).host.phase =
        if Updater.isSingleBytePacket packet blPacketUpdateSuccessfulData0 then .finished
        else .exited
  /-- a wait for a word that runs out ends it -/
  quits : m.host.Listening → 0 < m.said → m.said < (script fwImage).length →
    (hostStep m .timeout).host.phase = .exited

section Turns

variable {fwImage : List Byte} {m : MainState} {packet : CommsPacket} {packets : List CommsPacket}
  (here : m.host.link.packets = packet :: packets)
include here

/-- `waitForSingleBytePacket`, when there is a packet. -/
theorem awaits_responds {byte : Byte} {follow : MainState → MainState × Trace}
    {said : List CommsPacket} (word : byte = promptOf m.heard)
    (follows : (follow { m with host := m.host.withPackets packets }).1.heard = m.heard + 1 ∧
      (follow { m with host := m.host.withPackets packets }).2.sent = said) :
    (Prompts m.heard packet → (m.awaits byte follow).1.heard = m.heard + 1 ∧
      (m.awaits byte follow).2.sent = said) ∧
      (¬Prompts m.heard packet → (m.awaits byte follow).1.host.phase = .exited) := by
  unfold MainState.awaits
  rw [here]
  dsimp only
  refine ⟨fun prompts => ?_, fun other => ?_⟩
  · rw [if_neg (by rw [not_or, not_not, not_not]; exact ⟨prompts.1, prompts.2.trans word.symm⟩)]
    exact follows
  · rw [if_pos (by rw [← not_and_or]; exact fun same => other ⟨same.1, same.2.trans word⟩)]
    rfl

/-- The transfer loop, when there is a packet and something left to send. -/
theorem fwData_responds (ok : MainOk fwImage m) (stage : m.stage = .fwData)
    (transfer : m.host.phase = .transfer) (more : m.host.byteWritten < m.host.fwImage.length) :
    (Prompts m.heard packet → (Updater.hostMain m.host).1.chunksSent = m.host.chunksSent + 1 ∧
      (Updater.hostMain m.host).2.sent = ((script fwImage).drop m.said).take 1) ∧
      (¬Prompts m.heard packet → (Updater.hostMain m.host).1.phase = .exited) := by
  have heard : m.heard = m.host.chunksSent + 3 := by
    rw [MainState.heard, stage]
    exact Nat.add_comm ..
  have said : m.said = m.host.chunksSent + 3 := by
    rw [MainState.said, stage]
    exact Nat.add_comm ..
  have word : blPacketReadyForDataData0 = promptOf m.heard := by
    rw [heard]
    rfl
  obtain ⟨-, count, sent, inside⟩ :=
    sendChunk_next (h := m.host.withPackets packets) ok.written more
  have next : ((script fwImage).drop m.said).take 1 =
      [Updater.dataPacket m.host.fwImage (16 * m.host.chunksSent)] := by
    have place : (script fwImage)[m.said]? =
        some (Updater.dataPacket m.host.fwImage (16 * m.host.chunksSent)) := by
      rw [said, ← ok.image]
      exact dataPackets_getElem? inside
    rw [List.take_one, List.head?_drop, place]
    rfl
  unfold Updater.hostMain
  rw [transfer, here]
  dsimp only
  rw [if_pos more]
  refine ⟨fun prompts => ?_, fun other => ?_⟩
  · rw [if_neg (by rw [not_or, not_not, not_not]; exact ⟨prompts.1, prompts.2.trans word.symm⟩),
      next]
    exact ⟨count, sent⟩
  · rw [if_pos (by rw [← not_and_or]; exact fun same => other ⟨same.1, same.2.trans word⟩)]

end Turns

/-- Until the whole script is said the port is open for the transfer. -/
theorem sending_transfer {fwImage : List Byte} {m : MainState}
    (whole : m.Sent → m.said = (script fwImage).length) (listening : m.host.Listening)
    (more : m.said < (script fwImage).length) : m.host.phase = .transfer :=
  listening.resolve_right fun validation =>
    absurd (whole (.inl validation)) (Nat.ne_of_lt more)

/-- In the last stage there is something left to send as long as the script is not said. -/
theorem MainOk.sent_iff {fwImage : List Byte} {m : MainState} (ok : MainOk fwImage m)
    (stage : m.stage = .fwData) :
    m.said < (script fwImage).length ↔ m.host.byteWritten < m.host.fwImage.length := by
  have written := ok.written
  rw [script_length, MainState.said, stage, ← ok.image]
  have count : m.host.chunksSent = (m.host.byteWritten + 15) / 16 := rfl
  dsimp only
  omega

/-- What `main` does with the packet in front of the queue, wherever it stands. -/
theorem mainStep_front {fwImage : List Byte} {m : MainState} (ok : MainOk fwImage m)
    (whole : m.Sent → m.said = (script fwImage).length) (listening : m.host.Listening)
    {packet : CommsPacket} {packets : List CommsPacket}
    (here : m.host.link.packets = packet :: packets) (some : 0 < m.said)
    (more : m.said < (script fwImage).length) :
    (Prompts m.heard packet → (Updater.mainStep m).1.heard = m.heard + 1 ∧
      (Updater.mainStep m).2.sent = ((script fwImage).drop m.said).take (m.heard + 1 - m.said)) ∧
      (¬Prompts m.heard packet → (Updater.mainStep m).1.host.phase = .exited) := by
  have transfer := sending_transfer whole listening more
  have running : m.host.phase ≠ .exited := by
    rw [transfer]
    decide
  unfold Updater.mainStep
  rw [if_neg running]
  cases stage : m.stage with
  | fwUpdateReq =>
    rw [MainState.said, stage] at some
    exact absurd some (Nat.lt_irrefl 0)
  | fwUpdateRes =>
    have heard : m.heard = 0 := by rw [MainState.heard, stage]
    have said : m.said = 1 := by rw [MainState.said, stage]
    refine awaits_responds here (by rw [heard]; rfl) ?_
    rw [heard, said]
    exact ⟨rfl, rfl⟩
  | deviceIdReq =>
    have heard : m.heard = 1 := by rw [MainState.heard, stage]
    have said : m.said = 1 := by rw [MainState.said, stage]
    refine awaits_responds here (by rw [heard]; rfl) ?_
    rw [heard, said, ← ok.image]
    exact ⟨rfl, rfl⟩
  | fwLengthReq =>
    have heard : m.heard = 2 := by rw [MainState.heard, stage]
    have said : m.said = 2 := by rw [MainState.said, stage]
    have none : m.host.chunksSent = 0 := by
      rw [Updater.Host.chunksSent, (ok.early (by rw [stage]; decide)).1]
    refine awaits_responds here (by rw [heard]; rfl) ?_
    rw [heard, said, ← ok.image]
    exact ⟨congrArg (3 + ·) none, rfl⟩
  | fwData =>
    have heard : m.heard = 3 + m.host.chunksSent := by rw [MainState.heard, stage]
    have same : m.heard + 1 - m.said = 1 := by
      rw [MainState.heard, MainState.said, stage]
      exact Nat.add_sub_cancel_left ..
    obtain ⟨takes, exits⟩ :=
      fwData_responds here ok stage transfer ((ok.sent_iff stage).mp more)
    rw [same]
    refine ⟨fun prompts => ?_, exits⟩
    obtain ⟨count, sent⟩ := takes prompts
    refine ⟨?_, sent⟩
    rw [heard]
    exact congrArg (3 + ·) count

/-- The last stage is that of the transfer and the verdict. -/
theorem hostStep_fwData {m : MainState} (stage : m.stage = .fwData)
    (running : m.host.phase ≠ .exited) :
    hostStep m .main = { m with host := (Updater.hostMain m.host).1 } := by
  show (Updater.mainStep m).1 = _
  unfold Updater.mainStep
  rw [if_neg running, stage]

/-- There `main` takes the verdict. -/
theorem hostStep_verdict {m : MainState} (stage : m.stage = .fwData)
    (phase : m.host.phase = .validation) {packet : CommsPacket} {packets : List CommsPacket}
    (here : m.host.link.packets = packet :: packets) : (hostStep m .main).host.phase =
      if Updater.isSingleBytePacket packet blPacketUpdateSuccessfulData0 then .finished
      else .exited := by
  rw [hostStep_fwData stage (by rw [phase]; decide)]
  dsimp only
  rw [Updater.hostMain, phase, here]
  dsimp only
  split <;> rfl

/-- And there it stays, once it is over. -/
theorem hostStep_over {m : MainState} (stage : m.stage = .fwData)
    (ended : m.host.phase = .finished ∨ m.host.phase = .exited) : hostStep m .main = m := by
  rcases ended with finished | exited
  · rw [hostStep_fwData stage (by rw [finished]; decide), Updater.hostMain, finished]
  · show (Updater.mainStep m).1 = m
    rw [Updater.mainStep, if_pos exited]

/-- What the queue holds, and how far the script is said, decides what `main` does. -/
theorem mainStep_responds {fwImage : List Byte} {m : MainState} (ok : MainOk fwImage m)
    (whole : m.Sent → m.said = (script fwImage).length) : Responds fwImage m where
  opens listening none := by
    have long := script_length fwImage
    have transfer := sending_transfer whole listening (by omega)
    have stage : m.stage = .fwUpdateReq := by
      rw [MainState.said] at none
      cases stage : m.stage with
      | fwUpdateReq => rfl
      | _ =>
        rw [stage] at none
        dsimp only at none
        omega
    show (Updater.mainStep m).2.sent = _
    rw [Updater.mainStep, if_neg (by rw [transfer]; decide), stage]
    rfl
  answers packet front listening some more := by
    obtain ⟨packets, here⟩ := List.head?_eq_some_iff.mp front
    exact (mainStep_front ok whole listening here some more).1
  refuses packet front listening some more := by
    obtain ⟨packets, here⟩ := List.head?_eq_some_iff.mp front
    exact (mainStep_front ok whole listening here some more).2
  verdict packet front listening all := by
    obtain ⟨packets, here⟩ := List.head?_eq_some_iff.mp front
    have stage : m.stage = .fwData := by
      have long := script_length fwImage
      rw [MainState.said] at all
      cases stage : m.stage with
      | fwData => rfl
      | _ =>
        rw [stage] at all
        dsimp only at all
        omega
    rcases listening with transfer | validation
    · -- first it finds that nothing is left to send
      have done : ¬m.host.byteWritten < m.host.fwImage.length :=
        (ok.sent_iff stage).not.mp (by rw [all]; exact Nat.lt_irrefl _)
      have first : hostStep m .main = { m with host := { m.host with phase := .validation } } := by
        rw [hostStep_fwData stage (by rw [transfer]; decide), Updater.hostMain, transfer]
        dsimp only
        rw [if_neg done]
      rw [Lib.Run.run_cons, Lib.Run.run_cons, Lib.Run.run_nil, first]
      exact hostStep_verdict (m := { m with host := { m.host with phase := .validation } })
        stage rfl here
    · have first := hostStep_verdict stage validation here
      have still : (hostStep m .main).stage = .fwData := by
        rw [hostStep_fwData stage (by rw [validation]; decide)]
        exact stage
      rw [Lib.Run.run_cons, Lib.Run.run_cons, Lib.Run.run_nil, hostStep_over still, first]
      rw [first]
      split
      · exact .inl rfl
      · exact .inr rfl
  quits listening some more := by
    have transfer := sending_transfer whole listening more
    show (Updater.mainTimeout m).host.phase = .exited
    rw [Updater.mainTimeout]
    cases stage : m.stage with
    | fwUpdateReq =>
      rw [MainState.said, stage] at some
      exact absurd some (Nat.lt_irrefl 0)
    | fwData =>
      dsimp only
      rw [Updater.hostTimeout, transfer]
      dsimp only
      rw [if_pos ((ok.sent_iff stage).mp more)]
    | _ => rfl

/-! ## A run of the host -/

/-- The frames that the receive handler queues. -/
abbrev packetsHeard (lines : List Line) : List CommsPacket := packetsIn (heardOf lines)

/-- The host, which began with `waiting` in its queue and `last` written last, stands at `m`;
`received` has reached its port, and it has written `sent`, the frames of `lines`. -/
structure OnItsScript (fwImage : List Byte) (waiting : List CommsPacket) (last : CommsPacket)
    (m : MainState) (received : List Byte) (sent : List CommsPacket) (lines : List Line) :
    Prop where
  sent : sent = spell last lines
  own : ownOf lines <+: script fwImage
  heard : heardOf lines = framesOf received
  /-- from the second packet on each comes behind the word it waits for -/
  inTurn : ∀ front, front <+: lines → (ownOf front).length ≤ 1 ∨
    Prompted (ownOf front).length (waiting ++ packetsHeard front)
  success : m.host.phase = .finished → ownOf lines = script fwImage ∧
    Prompted (script fwImage).length (waiting ++ packetsOf received) ∧
    ∃ verdict ∈ (waiting ++ packetsOf received)[(script fwImage).length]?,
      Updater.isSingleBytePacket verdict blPacketUpdateSuccessfulData0 = true

/-- What the host has heard as long as its port is open. -/
structure PortOpen (waiting : List CommsPacket) (m : MainState) (received : List Byte) : Prop where
  rx : m.host.link.rxBuffer = tailOf received
  queue : ∃ heard, heard ++ m.host.link.packets = waiting ++ packetsOf received ∧
    heard.length = m.heard ∧ Prompted m.heard heard

section PortOpen

variable {waiting : List CommsPacket} {m m' : MainState} {received : List Byte}
  (port : PortOpen waiting m received)
include port

theorem PortOpen.prompted : Prompted m.heard (waiting ++ packetsOf received) := by
  obtain ⟨heard, queue, -, prompted⟩ := port.queue
  rw [← queue]
  exact prompted.mono (Nat.le_refl _) _

/-- What is in front of the queue is the packet behind those that were heard. -/
theorem PortOpen.front {packet : CommsPacket} {packets : List CommsPacket}
    (here : m.host.link.packets = packet :: packets) :
    (waiting ++ packetsOf received)[m.heard]? = some packet := by
  obtain ⟨heard, queue, length, -⟩ := port.queue
  rw [← queue, here, ← length, List.getElem?_append_right (Nat.le_refl _), Nat.sub_self]
  rfl

/-- `main` takes nothing, or the word it waits for. -/
theorem PortOpen.takes {taken : List CommsPacket}
    (rx : m'.host.link.rxBuffer = m.host.link.rxBuffer)
    (packets : m.host.link.packets = taken ++ m'.host.link.packets)
    (hears : m'.heard = m.heard + taken.length) (next : m'.heard = m.heard ∨
      m'.heard = m.heard + 1 ∧ ∃ packet packets, m.host.link.packets = packet :: packets ∧
        Prompts m.heard packet) : PortOpen waiting m' received := by
  obtain ⟨heard, queue, length, prompted⟩ := port.queue
  refine ⟨rx.trans port.rx, heard ++ taken, ?_, ?_, ?_⟩
  · rw [List.append_assoc, ← packets, queue]
  · rw [List.length_append, length, hears]
  · rcases next with same | ⟨one, packet, rest, here, prompts⟩
    · obtain rfl : taken = [] := List.eq_nil_of_length_eq_zero (by omega)
      rw [same, List.append_nil]
      exact prompted
    · obtain ⟨only, rfl⟩ : ∃ only, taken = [only] := List.length_eq_one_iff.mp (by omega)
      obtain rfl : packet = only := (List.cons.inj (here.symm.trans packets)).1
      rw [one, ← length]
      rw [← length] at prompted prompts
      exact prompted.concat prompts

end PortOpen

/-- The invariant. -/
structure ScriptInv (fwImage : List Byte) (waiting : List CommsPacket) (last : CommsPacket)
    (m : MainState) (received : List Byte) (sent : List CommsPacket) (lines : List Line) : Prop
    extends OnItsScript fwImage waiting last m received sent lines where
  ok : MainOk fwImage m
  whole : m.Sent → m.said = (script fwImage).length
  count : (ownOf lines).length = m.said
  slot : m.host.link.lastPacket = Lib.Run.run Line.slot last lines
  listens : m.host.Listening → PortOpen waiting m received

/-- The front of two lists in a row. -/
theorem front_cases {α : Type} {front l more : List α} (h : front <+: l ++ more) :
    front <+: l ∨ ∃ new, new <+: more ∧ front = l ++ new := by
  by_cases short : front.length ≤ l.length
  · exact .inl (List.prefix_of_prefix_length_le h (List.prefix_append l more) short)
  · obtain ⟨new, rfl⟩ := List.prefix_of_prefix_length_le (List.prefix_append l more) h (by omega)
    exact .inr ⟨new, (List.prefix_append_right_inj l).mp h, rfl⟩

/-- What is written last behind frames of the script. -/
theorem run_slot_own (last : CommsPacket) (packets : List CommsPacket) :
    spell last (packets.map .own) = packets ∧
      Lib.Run.run Line.slot last (packets.map .own) = packets.getLastD last := by
  induction packets generalizing last with
  | nil => exact ⟨rfl, rfl⟩
  | cons packet packets ih =>
    obtain ⟨wrote, slot⟩ := ih packet
    rw [List.map_cons, spell, Lib.Run.emitted, Lib.Run.run_cons, List.getLastD_cons]
    exact ⟨congrArg (packet :: ·) wrote, slot⟩

section Steps

variable {fwImage : List Byte} {waiting : List CommsPacket} {last : CommsPacket} {m : MainState}
  {received : List Byte} {sent : List CommsPacket} {lines : List Line}
  (inv : ScriptInv fwImage waiting last m received sent lines)
include inv

/-- The frames heard so far come behind nothing that they have to prompt. -/
theorem ScriptInv.inTurn_heard {frames : List CommsPacket} {front : List Line}
    (h : front <+: lines ++ frames.map .heard) : (ownOf front).length ≤ 1 ∨
      Prompted (ownOf front).length (waiting ++ packetsHeard front) := by
  rcases front_cases h with earlier | ⟨new, isFront, rfl⟩
  · exact inv.inTurn front earlier
  · obtain ⟨frames', -, rfl⟩ := List.prefix_map_iff.mp isFront
    have more : packetsHeard (lines ++ frames'.map .heard) =
        packetsHeard lines ++ packetsIn frames' := by
      rw [packetsHeard, heardOf_append, heardOf_heard, packetsIn, List.filter_append]
      rfl
    rw [ownOf_append, ownOf_heard, List.append_nil, more, ← List.append_assoc]
    exact (inv.inTurn lines (List.prefix_refl _)).imp_right fun prompted =>
      prompted.mono (Nat.le_refl _) _

/-- The frames said behind them were prompted. -/
theorem ScriptInv.inTurn_own {m' : MainState} {said : List CommsPacket} {front : List Line}
    (port : PortOpen waiting m' received) (count : m'.said = m.said + said.length)
    (h : front <+: lines ++ said.map .own) : (ownOf front).length ≤ 1 ∨
      Prompted (ownOf front).length (waiting ++ packetsHeard front) := by
  rcases front_cases h with earlier | ⟨new, isFront, rfl⟩
  · exact inv.inTurn front earlier
  · obtain ⟨said', few, rfl⟩ := List.prefix_map_iff.mp isFront
    have most := few.length_le
    rw [ownOf_append, ownOf_own, List.length_append, inv.count, packetsHeard, heardOf_append,
      heardOf_own, List.append_nil, inv.heard]
    refine m'.said_le_heard.imp (fun one => by omega) fun le => ?_
    rw [← List.append_nil (waiting ++ _)]
    exact port.prompted.mono (by omega) []

/-- Bytes arrive. -/
theorem ScriptInv.data (bytes : List Byte) : ∃ lines', ScriptInv fwImage waiting last
    (hostStep m (.data bytes)) (received ++ hostHeard m (.data bytes))
      (sent ++ hostWrote m (.data bytes)) lines' := by
  have step : hostStep m (.data bytes) = { m with host := (Updater.hostData m.host bytes).1 } := rfl
  have wrote : hostWrote m (.data bytes) = (Updater.hostData m.host bytes).2.sent := rfl
  rw [step, wrote, hostHeard]
  by_cases listening : m.host.Listening
  · obtain ⟨rx, heard, queue, length, prompted⟩ := inv.listens listening
    obtain ⟨frames, all, rest, packets, wrote, slot⟩ := onData_lines rx bytes
    rw [inv.slot] at wrote slot
    rw [hostData_listening listening, if_pos listening]
    refine ⟨lines ++ frames.map .heard,
      ⟨?_, ?_, ?_, fun front h => inv.inTurn_heard h, fun finished => ?_⟩, inv.ok.withLink _,
      inv.whole, ?_, ?_, fun _ => ⟨rest, heard, ?_, length, prompted⟩⟩
    · rw [spell, Lib.Run.emitted_append, inv.sent]
      exact congrArg (_ ++ ·) wrote
    · rw [ownOf_append, ownOf_heard, List.append_nil]
      exact inv.own
    · rw [heardOf_append, heardOf_heard, all, inv.heard]
    · rcases listening with phase | phase <;> exact absurd (phase.symm.trans finished) (by decide)
    · rw [ownOf_append, ownOf_heard, List.append_nil]
      exact inv.count
    · rw [Lib.Run.run_append]
      exact slot
    · show heard ++ (Updater.onData m.host.link bytes).1.packets = _
      rw [packets, ← List.append_assoc, queue, packetsOf, packetsOf, all, List.filter_append,
        List.append_assoc]
      rfl
  · rw [hostData_closed listening, if_neg listening, List.append_nil]
    exact ⟨lines, (List.append_nil sent).symm ▸ inv⟩

/-- `main` goes on, or gives up. -/
theorem ScriptInv.moves {r : MainState × Trace} (ok : MainOk fwImage r.1)
    (moves : MainMoves fwImage m r.1 r.2) (advances : MainAdvances fwImage m r) :
    ∃ lines', ScriptInv fwImage waiting last r.1 received (sent ++ r.2.sent) lines' := by
  have slot := advances.slot
  cases moves with
  | rests same silent =>
    rw [silent, List.append_nil, same]
    exact ⟨lines, inv⟩
  | goes heard said listening packets rx hears undecided writes count scripted =>
    have port := (inv.listens listening.1).takes rx packets hears advances.heard
    rw [writes] at slot ⊢
    refine ⟨lines ++ said.map .own, ⟨?_, ?_, ?_, fun front h => inv.inTurn_own port count h,
      fun finished => ?_⟩, ok, advances.whole inv.whole, ?_, ?_, fun _ => port⟩
    · rw [spell, Lib.Run.emitted_append, inv.sent]
      exact congrArg (_ ++ ·) (run_slot_own _ said).1.symm
    · obtain ⟨rest, whole⟩ := inv.own
      rw [← inv.count, ← whole, List.drop_left] at scripted
      rw [ownOf_append, ownOf_own, ← whole]
      exact (List.prefix_append_right_inj _).mpr scripted
    · rw [heardOf_append, heardOf_own, List.append_nil]
      exact inv.heard
    · rcases listening.2 with phase | phase <;> exact absurd (phase.symm.trans finished) (by decide)
    · rw [ownOf_append, ownOf_own, List.length_append, inv.count, count]
    · rw [slot, inv.slot, Lib.Run.run_append]
      exact (run_slot_own _ said).2.symm
  | ends listening ended silent count success =>
    have port := inv.listens listening
    rw [silent, List.append_nil]
    rw [silent] at slot
    refine ⟨lines, ⟨inv.sent, inv.own, inv.heard, inv.inTurn, fun finished => ?_⟩, ok,
      advances.whole inv.whole, inv.count.trans count.symm, slot.trans inv.slot,
      fun still => absurd still ended⟩
    rcases advances.success finished with already | ⟨phase, packet, packets, here, successful⟩
    · rcases listening with phase | phase <;> exact absurd (phase.symm.trans already) (by decide)
    · have whole : m.said = (script fwImage).length := inv.whole (.inl phase)
      have all : m.heard = (script fwImage).length := by
        rw [← whole, MainState.heard, MainState.said, inv.ok.validates phase]
      have verdict := port.front here
      have prompted := port.prompted
      rw [all] at verdict prompted
      exact ⟨inv.own.eq_of_length (inv.count.trans whole), prompted, packet, verdict, successful⟩

theorem ScriptInv.step (e : HostEvent) : ∃ lines', ScriptInv fwImage waiting last (hostStep m e)
    (received ++ hostHeard m e) (sent ++ hostWrote m e) lines' := by
  cases e with
  | data bytes => exact inv.data bytes
  | main =>
    rw [hostHeard, List.append_nil]
    exact inv.moves inv.ok.step (mainStep_moves inv.ok) (mainStep_advances inv.ok)
  | timeout =>
    rw [hostHeard, List.append_nil]
    exact inv.moves inv.ok.timeout (mainTimeout_moves inv.ok) (mainTimeout_advances inv.ok)

end Steps

/-- Behind the synchronisation, whatever it left in the queue. -/
theorem begins_scriptInv (s : SyncState) (fwImage : List Byte) :
    ScriptInv fwImage s.link.packets s.link.lastPacket (s.begins fwImage) [] [] [] where
  sent := rfl
  own := List.nil_prefix
  heard := rfl
  inTurn front h := by
    rw [List.prefix_nil.mp h]
    exact .inl (Nat.zero_le 1)
  success := nofun
  ok := by
    have none : (s.begins fwImage).host.chunksSent = 0 := show (0 + 15) / 16 = 0 from rfl
    refine ⟨rfl, ?_, fun _ => ⟨rfl, .inl rfl⟩⟩
    rw [none]
    exact (Nat.zero_min _).symm
  whole := by rintro (h | h) <;> cases h
  count := rfl
  slot := rfl
  listens _ := ⟨rfl, [], (List.append_nil _).symm, rfl,
    fun i inside => absurd inside (Nat.not_lt_zero i)⟩

/-- Whatever reaches its port and whenever, `main` writes its script and the answers to the
frames that arrive, each packet of the script but the first behind the word it waits for. It ends
with success only behind all of them and the verdict. And wherever it stands, it goes on as soon
as it has its turn and the word. -/
theorem host_on_script (fwImage : List Byte) (s : SyncState) (es : List HostEvent) :
    Responds fwImage (Lib.Run.run hostStep (s.begins fwImage) es) ∧ ∃ lines,
      OnItsScript fwImage s.link.packets s.link.lastPacket
        (Lib.Run.run hostStep (s.begins fwImage) es)
        (Lib.Run.emitted hostStep hostHeard (s.begins fwImage) es)
        (Lib.Run.emitted hostStep hostWrote (s.begins fwImage) es) lines := by
  obtain ⟨lines, inv⟩ := Lib.Run.run_emits
    (P := fun m received sent => ∃ lines, ScriptInv fwImage s.link.packets s.link.lastPacket m
      received sent lines)
    (fun m e received sent inv => inv.elim fun lines inv => inv.step e)
    ⟨[], begins_scriptInv s fwImage⟩ es
  exact ⟨mainStep_responds inv.ok inv.whole, lines, inv.toOnItsScript⟩

end SecureBootloader
