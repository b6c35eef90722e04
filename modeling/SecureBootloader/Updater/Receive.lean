import SecureBootloader.Boot.Framing
import SecureBootloader.Updater.Host

/-!
# What the receive handler does

The handler processes the stream frame by frame: how the bytes are split into
`data` events does not matter, and a frame is treated as the link layer of the
bootloader treats it.
-/

namespace SecureBootloader.Updater

theorem ofRaw_bytes (packet : CommsPacket) : ofRaw packet.bytes = packet := by
  obtain ⟨length, data, crc⟩ := packet
  have front : ((CommsPacket.bytes ⟨length, data, crc⟩).drop 1).take packetDataBytes =
      data.toList := by
    show (data.toList ++ [crc]).take 16 = _
    rw [List.take_append_of_le_length (by simp), List.take_of_length_le (by simp)]
  have last : (CommsPacket.bytes ⟨length, data, crc⟩).getD 17 0 = crc := by
    show (length :: (data.toList ++ [crc])).getD 17 0 = crc
    rw [List.getD_cons_succ, List.getD_eq_getElem?_getD, List.getElem?_append_right (by simp)]
    simp
  have whole : (Vector.ofFn fun i : Fin 16 => data.toList.getD i.val 0xff) = data := by
    refine Vector.ext ?_
    intro i hi
    rw [Vector.getElem_ofFn, List.getD_eq_getElem?_getD]
    simp [hi]
  unfold ofRaw newPacket
  rw [front, last, whole]
  rfl

/-- The handler classifies packets as the bootloader does. -/
theorem handlePacket_eq (h : HostLink) (packet : CommsPacket) :
    handlePacket h packet =
      match frameKind packet with
      | .corrupt => writePacket h retxPacket
      | .retx => writePacket h h.lastPacket
      | .ack => (h, [])
      | .packet =>
        ({ h with packets := h.packets ++ [packet], lastPacket := ackPacket },
          [.stored packet, .sent ackPacket]) := by
  have check : packet.crc.toNat ≠ computeCrc packet ↔
      ¬commsCalculateCrc packet = packet.crc := by
    rw [computeCrc_eq, ne_eq, ← BitVec.toNat_inj, eq_comm]
  unfold handlePacket frameKind
  rw [isRetx_eq, isAck_eq, retx_eq, ack_eq]
  by_cases intact : commsCalculateCrc packet = packet.crc
  · rw [if_neg (fun wrong => check.mp wrong intact), if_pos intact]
    by_cases retx : commsIsSingleBytePacket packet SecureBootloader.packetRetxData0 = true
    · rw [if_pos retx, if_pos retx]
    · rw [if_neg retx, if_neg retx]
      by_cases ack : commsIsSingleBytePacket packet SecureBootloader.packetAckData0 = true
      · rw [if_pos ack, if_pos ack]
      · rw [if_neg ack, if_neg ack]
        rfl
  · rw [if_pos (check.mpr intact), if_neg intact]

/-- The unread bytes play no part in what a packet does. -/
theorem handlePacket_rxBuffer (h : HostLink) (rx : List Byte) (packet : CommsPacket) :
    handlePacket { h with rxBuffer := rx } packet =
      ({ (handlePacket h packet).1 with rxBuffer := rx }, (handlePacket h packet).2) := by
  rw [handlePacket_eq, handlePacket_eq]
  cases frameKind packet <;> rfl

theorem handlePacket_keeps (h : HostLink) (packet : CommsPacket) :
    (handlePacket h packet).1.rxBuffer = h.rxBuffer := by
  rw [handlePacket_eq]
  cases frameKind packet <;> rfl

/-! ## Splitting the stream -/

/-- With less than a frame there is nothing to do. -/
theorem handleLoop_short {h : HostLink} (short : h.rxBuffer.length < packetLength) (fuel : Nat) :
    handleLoop fuel h = (h, []) := by
  cases fuel with
  | zero => rfl
  | succ fuel => rw [handleLoop, if_pos short]

/-- The handler after the frame at the front of the buffer. -/
def afterFrame (h : HostLink) : HostLink :=
  { (handlePacket h (ofRaw (h.rxBuffer.take packetLength))).1 with
    rxBuffer := h.rxBuffer.drop packetLength }

/-- What that frame made it do. -/
def frameTrace (h : HostLink) : Trace :=
  (handlePacket h (ofRaw (h.rxBuffer.take packetLength))).2

/-- One turn of the loop, the fuel being what the handler gives it. -/
theorem handleLoop_turn {h : HostLink} (enough : packetLength ≤ h.rxBuffer.length) :
    handleLoop (h.rxBuffer.length / packetLength) h =
      ((handleLoop ((afterFrame h).rxBuffer.length / packetLength) (afterFrame h)).1,
        frameTrace h ++
          (handleLoop ((afterFrame h).rxBuffer.length / packetLength) (afterFrame h)).2) := by
  have fuel : h.rxBuffer.length / packetLength =
      (afterFrame h).rxBuffer.length / packetLength + 1 := by
    show _ = (h.rxBuffer.drop packetLength).length / packetLength + 1
    rw [List.length_drop]
    exact Nat.div_eq_sub_div (by decide) enough
  rw [fuel, handleLoop, if_neg (Nat.not_lt.mpr enough)]
  dsimp only
  rw [handlePacket_rxBuffer]
  rfl

/-- Induction over the frames in the receive buffer. -/
@[elab_as_elim]
theorem HostLink.frames_induction {motive : HostLink → Prop}
    (short : ∀ h : HostLink, h.rxBuffer.length < packetLength → motive h)
    (frame : ∀ h : HostLink, packetLength ≤ h.rxBuffer.length → motive (afterFrame h) → motive h)
    (h : HostLink) : motive h := by
  generalize buffer : h.rxBuffer = bytes
  induction bytes using SecureBootloader.frames_induction generalizing h with
  | short bytes fewer => exact short h (buffer ▸ fewer)
  | frame bytes enough ih =>
    exact frame h (buffer ▸ enough) (ih (afterFrame h) (congrArg (List.drop 18) buffer))

/-- Bytes that arrive while the loop runs may as well arrive behind it. -/
theorem handleLoop_append (h : HostLink) (data : List Byte) :
    onData h data =
      ((onData (handleLoop (h.rxBuffer.length / packetLength) h).1 data).1,
        (handleLoop (h.rxBuffer.length / packetLength) h).2 ++
          (onData (handleLoop (h.rxBuffer.length / packetLength) h).1 data).2) := by
  induction h using HostLink.frames_induction with
  | short h short =>
    rw [handleLoop_short short]
    rfl
  | frame h enough ih =>
    have more : packetLength ≤ (h.rxBuffer ++ data).length := by
      rw [List.length_append]
      exact Nat.le_add_right_of_le enough
    -- the first frame is the same, and the bytes are behind what is left after it
    have after : afterFrame { h with rxBuffer := h.rxBuffer ++ data } =
        { afterFrame h with rxBuffer := (afterFrame h).rxBuffer ++ data } := by
      unfold afterFrame
      rw [List.take_append_of_le_length enough, List.drop_append_of_le_length enough,
        handlePacket_rxBuffer]
    have obs : frameTrace { h with rxBuffer := h.rxBuffer ++ data } = frameTrace h := by
      unfold frameTrace
      rw [List.take_append_of_le_length enough, handlePacket_rxBuffer]
    have turn := handleLoop_turn (h := { h with rxBuffer := h.rxBuffer ++ data }) more
    rw [after, obs] at turn
    rw [handleLoop_turn enough, List.append_assoc]
    show handleLoop ((h.rxBuffer ++ data).length / packetLength) _ = _
    rw [turn]
    exact congrArg (fun r => (r.1, frameTrace h ++ r.2)) ih

/-- Two `data` events have the effect of one with the bytes of both. -/
theorem onData_append (h : HostLink) (data data' : List Byte) :
    onData h (data ++ data') = ((onData (onData h data).1 data').1,
      (onData h data).2 ++ (onData (onData h data).1 data').2) := by
  have split := handleLoop_append { h with rxBuffer := h.rxBuffer ++ data } data'
  unfold onData at split ⊢
  dsimp only at split ⊢
  rw [← List.append_assoc]
  exact split

/-- A frame that arrives between two frames is handled as it is. -/
theorem onData_frame {h : HostLink} (empty : h.rxBuffer = []) (packet : CommsPacket) :
    onData h packet.bytes = handlePacket h packet := by
  have length : packetLength = packet.bytes.length := packet.bytes_length.symm
  have turn := handleLoop_turn (h := { h with rxBuffer := packet.bytes }) (Nat.le_of_eq length)
  have after : afterFrame { h with rxBuffer := packet.bytes } = (handlePacket h packet).1 := by
    unfold afterFrame
    rw [length, List.take_length, List.drop_length, ofRaw_bytes, handlePacket_rxBuffer, ← empty,
      ← handlePacket_keeps h packet]
  have obs : frameTrace { h with rxBuffer := packet.bytes } = (handlePacket h packet).2 := by
    unfold frameTrace
    rw [length, List.take_length, ofRaw_bytes, handlePacket_rxBuffer]
  have short : (handlePacket h packet).1.rxBuffer.length < packetLength := by
    rw [handlePacket_keeps, empty]
    decide
  rw [after, obs, handleLoop_short short, List.append_nil] at turn
  unfold onData
  dsimp only
  rw [empty, List.nil_append]
  exact turn

/-! ## Frame by frame -/

/-- The handler reads a frame off the front of the buffer. -/
theorem ofRaw_take {bytes : List Byte} (enough : 18 ≤ bytes.length) :
    ofRaw (bytes.take packetLength) = frameOf bytes := by
  have front (i : Nat) (hi : i < 18) (default : Byte) :
      (bytes.take 18).getD i default = bytes.getD i 0 := by
    rw [List.getD_eq_getElem?_getD, List.getD_eq_getElem?_getD, List.getElem?_take_of_lt hi,
      List.getElem?_eq_getElem (by omega)]
    rfl
  have data : (Vector.ofFn fun i : Fin 16 =>
      (((bytes.take 18).drop 1).take packetDataBytes).getD i.val 0xff) =
        Vector.ofFn fun i => bytes.getD (i.val + 1) 0 := by
    refine Vector.ext ?_
    intro i hi
    rw [Vector.getElem_ofFn, Vector.getElem_ofFn, ← front (i + 1) (by omega) 0xff,
      List.getD_eq_getElem?_getD, List.getD_eq_getElem?_getD,
      List.getElem?_take_of_lt (show i < packetDataBytes from hi), List.getElem?_drop,
      Nat.add_comm 1 i]
  unfold ofRaw newPacket frameOf packetLength
  rw [front 0 (by decide), front 17 (by decide), data]
  rfl

/-- What a frame does to the queue of the host. -/
theorem handlePacket_packets (h : HostLink) (packet : CommsPacket) :
    (handlePacket h packet).1.packets =
        h.packets ++ [packet].filter (fun packet => frameKind packet = .packet) ∧
      (handlePacket h packet).2.taken = [] := by
  rw [handlePacket_eq, List.filter_singleton]
  cases frameKind packet with
  | corrupt => exact ⟨(List.append_nil _).symm, rfl⟩
  | retx => exact ⟨(List.append_nil _).symm, rfl⟩
  | ack => exact ⟨(List.append_nil _).symm, rfl⟩
  | packet => exact ⟨rfl, rfl⟩

/-- The frame at the front of the buffer. -/
theorem afterFrame_eq {h : HostLink} (enough : 18 ≤ h.rxBuffer.length) :
    (afterFrame h).rxBuffer = h.rxBuffer.drop 18 ∧
      (afterFrame h).packets = h.packets ++
        [frameOf h.rxBuffer].filter (fun packet => frameKind packet = .packet) ∧
      (frameTrace h).taken = [] := by
  obtain ⟨packets, taken⟩ := handlePacket_packets h (frameOf h.rxBuffer)
  unfold afterFrame frameTrace
  rw [ofRaw_take enough]
  exact ⟨rfl, packets, taken⟩

/-- The loop goes through the frames there are. -/
theorem handleLoop_frames (h : HostLink) :
    (handleLoop (h.rxBuffer.length / packetLength) h).1.rxBuffer = tailOf h.rxBuffer ∧
      (handleLoop (h.rxBuffer.length / packetLength) h).1.packets =
        h.packets ++ packetsOf h.rxBuffer ∧
      (handleLoop (h.rxBuffer.length / packetLength) h).2.taken = [] := by
  induction h using HostLink.frames_induction with
  | short h short =>
    have none := framesOf_short short
    rw [handleLoop_short short, packetsOf, none.1, none.2]
    exact ⟨rfl, (List.append_nil _).symm, rfl⟩
  | frame h enough ih =>
    obtain ⟨behind, packets, taken⟩ := afterFrame_eq enough
    obtain ⟨frames, tail⟩ := framesOf_drop enough
    obtain ⟨rest, packets', taken'⟩ := ih
    rw [handleLoop_turn enough]
    refine ⟨?_, ?_, ?_⟩
    · rw [rest, behind, tail]
    · rw [packets', packets, behind, List.append_assoc, packetsOf, packetsOf, frames,
        ← List.filter_append]
      rfl
    · rw [Trace.taken_append, taken, taken']
      rfl

/-- Frames that are ACKs or packets are answered with an ACK for each packet. -/
theorem handleLoop_acks (h : HostLink)
    (polite : ∀ frame ∈ framesOf h.rxBuffer, frameKind frame = .ack ∨ frameKind frame = .packet) :
    (handleLoop (h.rxBuffer.length / packetLength) h).2.sent =
      List.replicate (packetsOf h.rxBuffer).length ackPacket := by
  induction h using HostLink.frames_induction with
  | short h short =>
    have none := framesOf_short short
    rw [handleLoop_short short, packetsOf, none.1]
    rfl
  | frame h enough ih =>
    obtain ⟨frames, -⟩ := framesOf_drop enough
    rw [frames, List.forall_mem_cons] at polite
    have behind : (afterFrame h).rxBuffer = h.rxBuffer.drop 18 := (afterFrame_eq enough).1
    have rest := ih (behind ▸ polite.2)
    rw [handleLoop_turn enough, Trace.sent_append, rest, behind, packetsOf, packetsOf, frames,
      frameTrace, ofRaw_take enough, handlePacket_eq, List.filter_cons]
    rcases polite.1 with ack | packet
    · rw [ack]
      rfl
    · rw [packet]
      rfl

/-- What a `data` event does to a handler that has seen `seen`, if the frames are ACKs and
packets. -/
theorem onData_acks {h : HostLink} {seen data : List Byte} (rx : h.rxBuffer = tailOf seen)
    (polite : ∀ frame ∈ framesOf (seen ++ data),
      frameKind frame = .ack ∨ frameKind frame = .packet) :
    ∃ new, packetsOf (seen ++ data) = packetsOf seen ++ new ∧
      (onData h data).1.rxBuffer = tailOf (seen ++ data) ∧
      (onData h data).1.packets = h.packets ++ new ∧
      (onData h data).2.sent = List.replicate new.length ackPacket := by
  obtain ⟨split, tail⟩ := framesOf_append seen data
  rw [split] at polite
  obtain ⟨rest, packets, -⟩ := handleLoop_frames { h with rxBuffer := h.rxBuffer ++ data }
  have acks := handleLoop_acks { h with rxBuffer := h.rxBuffer ++ data } fun frame member => by
    rw [rx] at member
    exact polite frame (List.mem_append_right _ member)
  refine ⟨packetsOf (h.rxBuffer ++ data), ?_, ?_, packets, acks⟩
  · rw [packetsOf_append, rx]
  · rw [tail, ← rx]
    exact rest

end SecureBootloader.Updater
