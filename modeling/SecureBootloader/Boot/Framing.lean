import SecureBootloader.Boot.Queue

/-!
# Framing

The state machine of `comms_update` against the frames of the stream: its state
after some bytes is determined by the bytes of the unfinished frame, and the
last byte of a frame hands exactly the 18 bytes of that frame on.
-/

namespace SecureBootloader

/-! ## Frames of a byte stream -/

/-- The packet that 18 bytes make. -/
def frameOf (bytes : List Byte) : CommsPacket where
  length := bytes.getD 0 0
  data := Vector.ofFn fun i => bytes.getD (i.val + 1) 0
  crc := bytes.getD 17 0

/-- The complete frames at the front of a stream. -/
def framesOf (bytes : List Byte) : List CommsPacket :=
  (List.range (bytes.length / 18)).map fun k => frameOf (bytes.drop (18 * k))

/-- The bytes behind the last complete frame. -/
def tailOf (bytes : List Byte) : List Byte := bytes.drop (18 * (bytes.length / 18))

/-- The frames that are neither corrupt nor control packets. -/
def packetsOf (bytes : List Byte) : List CommsPacket :=
  (framesOf bytes).filter fun packet => frameKind packet = .packet

/-- A frame is read back from its bytes, whatever follows them. -/
theorem frameOf_bytes (packet : CommsPacket) (rest : List Byte) :
    frameOf (packet.bytes ++ rest) = packet := by
  obtain ⟨length, data, crc⟩ := packet
  have hdata : (Vector.ofFn fun i : Fin 16 =>
      ((length :: data.toList ++ [crc]) ++ rest).getD (i.val + 1) 0) = data := by
    refine Vector.ext ?_
    intro i hi
    rw [Vector.getElem_ofFn, List.getD_eq_getElem?_getD, List.getElem?_append_left (by simp; omega)]
    rw [List.cons_append, List.getElem?_cons_succ, List.getElem?_append_left (by simpa using hi)]
    simp [hi]
  have hcrc : ((length :: data.toList ++ [crc]) ++ rest).getD 17 0 = crc := by
    rw [List.getD_eq_getElem?_getD, List.getElem?_append_left (by simp)]
    rw [List.getElem?_append_right (by simp)]
    simp
  unfold frameOf CommsPacket.bytes
  rw [hdata, hcrc]
  rfl

theorem tailOf_length (bytes : List Byte) : (tailOf bytes).length = bytes.length % 18 := by
  rw [tailOf, List.length_drop]
  omega

theorem tailOf_length_lt (bytes : List Byte) : (tailOf bytes).length < 18 := by
  rw [tailOf_length]
  exact Nat.mod_lt _ (by decide)

@[simp] theorem tailOf_nil : tailOf [] = [] := rfl

@[simp] theorem packetsOf_nil : packetsOf [] = [] := rfl

/-- A frame is its first 18 bytes. -/
theorem frameOf_append {bytes : List Byte} (h : 18 ≤ bytes.length) (rest : List Byte) :
    frameOf (bytes ++ rest) = frameOf bytes := by
  have front (i : Nat) (hi : i < 18) : (bytes ++ rest).getD i 0 = bytes.getD i 0 := by
    rw [List.getD_eq_getElem?_getD, List.getElem?_append_left (by omega),
      ← List.getD_eq_getElem?_getD]
  have data : (Vector.ofFn fun i : Fin 16 => (bytes ++ rest).getD (i.val + 1) 0) =
      Vector.ofFn fun i => bytes.getD (i.val + 1) 0 := by
    refine Vector.ext ?_
    intro i hi
    rw [Vector.getElem_ofFn, Vector.getElem_ofFn]
    exact front (i + 1) (by omega)
  unfold frameOf
  rw [front 0 (by decide), front 17 (by decide), data]

/-- A byte behind the complete frames changes none of them. -/
theorem framesOf_blocks (bytes : List Byte) (byte : Byte) :
    (List.range (bytes.length / 18)).map (fun k => frameOf ((bytes ++ [byte]).drop (18 * k))) =
      framesOf bytes := by
  refine List.map_congr_left ?_
  intro k hk
  have below := List.mem_range.mp hk
  rw [List.drop_append_of_le_length (by omega)]
  exact frameOf_append (by rw [List.length_drop]; omega) _

/-- A byte that does not complete a frame makes the tail longer. -/
theorem tailOf_concat {bytes : List Byte} {byte : Byte} (h : (tailOf bytes).length < 17) :
    tailOf (bytes ++ [byte]) = tailOf bytes ++ [byte] ∧
      framesOf (bytes ++ [byte]) = framesOf bytes := by
  rw [tailOf_length] at h
  have blocks : (bytes ++ [byte]).length / 18 = bytes.length / 18 := by
    rw [List.length_append, List.length_singleton]
    omega
  constructor
  · rw [tailOf, blocks, tailOf, List.drop_append_of_le_length (by omega)]
  · rw [framesOf, blocks]
    exact framesOf_blocks bytes byte

/-- The byte that completes a frame adds the frame and leaves no tail. -/
theorem tailOf_complete {bytes : List Byte} {byte : Byte} (h : (tailOf bytes).length = 17) :
    tailOf (bytes ++ [byte]) = [] ∧
      framesOf (bytes ++ [byte]) = framesOf bytes ++ [frameOf (tailOf bytes ++ [byte])] := by
  rw [tailOf_length] at h
  have blocks : (bytes ++ [byte]).length / 18 = bytes.length / 18 + 1 := by
    rw [List.length_append, List.length_singleton]
    omega
  constructor
  · rw [tailOf, blocks, List.drop_eq_nil_iff, List.length_append, List.length_singleton]
    omega
  · rw [framesOf, blocks, List.range_succ, List.map_append, framesOf_blocks, tailOf,
      ← List.drop_append_of_le_length (by omega)]
    rfl

theorem packetsOf_concat {bytes : List Byte} {byte : Byte} (h : (tailOf bytes).length < 17) :
    packetsOf (bytes ++ [byte]) = packetsOf bytes := by
  rw [packetsOf, (tailOf_concat h).2, packetsOf]

theorem packetsOf_complete {bytes : List Byte} {byte : Byte} (h : (tailOf bytes).length = 17) :
    packetsOf (bytes ++ [byte]) = packetsOf bytes ++
      [frameOf (tailOf bytes ++ [byte])].filter fun packet => frameKind packet = .packet := by
  rw [packetsOf, (tailOf_complete h).2, List.filter_append, packetsOf]

/-- The first frame of a stream and the stream behind it. -/
theorem framesOf_drop {bytes : List Byte} (enough : 18 ≤ bytes.length) :
    framesOf bytes = frameOf bytes :: framesOf (bytes.drop 18) ∧
      tailOf bytes = tailOf (bytes.drop 18) := by
  have blocks : bytes.length / 18 = (bytes.drop 18).length / 18 + 1 := by
    rw [List.length_drop]
    omega
  constructor
  · rw [framesOf, framesOf, blocks, List.range_succ_eq_map, List.map_cons, List.map_map]
    refine congrArg _ (List.map_congr_left ?_)
    intro k _
    rw [Function.comp_apply, List.drop_drop, Nat.mul_succ, Nat.add_comm]
  · rw [tailOf, tailOf, blocks, List.drop_drop, Nat.mul_succ, Nat.add_comm]

theorem framesOf_short {bytes : List Byte} (short : bytes.length < 18) :
    framesOf bytes = [] ∧ tailOf bytes = bytes := by
  have blocks : bytes.length / 18 = 0 := Nat.div_eq_of_lt short
  constructor
  · rw [framesOf, blocks]
    rfl
  · rw [tailOf, blocks]
    rfl

/-- Induction over the frames of a stream. -/
@[elab_as_elim]
theorem frames_induction {motive : List Byte → Prop}
    (short : ∀ bytes, bytes.length < 18 → motive bytes)
    (frame : ∀ bytes, 18 ≤ bytes.length → motive (bytes.drop 18) → motive bytes)
    (bytes : List Byte) : motive bytes := by
  induction n : bytes.length using Nat.strong_induction_on generalizing bytes with
  | _ n ih =>
    subst n
    by_cases enough : 18 ≤ bytes.length
    · exact frame bytes enough (ih _ (by rw [List.length_drop]; omega) _ rfl)
    · exact short bytes (Nat.lt_of_not_le enough)

/-- What arrives behind a stream continues its tail. -/
theorem framesOf_append (bytes more : List Byte) :
    framesOf (bytes ++ more) = framesOf bytes ++ framesOf (tailOf bytes ++ more) ∧
      tailOf (bytes ++ more) = tailOf (tailOf bytes ++ more) := by
  induction bytes using frames_induction with
  | short bytes short =>
    have short := framesOf_short short
    rw [short.1, short.2]
    exact ⟨rfl, rfl⟩
  | frame bytes enough ih =>
    have longer : 18 ≤ (bytes ++ more).length := by
      rw [List.length_append]
      omega
    have behind : (bytes ++ more).drop 18 = bytes.drop 18 ++ more :=
      List.drop_append_of_le_length enough
    rw [(framesOf_drop longer).1, (framesOf_drop longer).2, behind, ih.1, ih.2,
      (framesOf_drop enough).1, (framesOf_drop enough).2, frameOf_append enough]
    exact ⟨rfl, rfl⟩

theorem packetsOf_append (bytes more : List Byte) :
    packetsOf (bytes ++ more) = packetsOf bytes ++ packetsOf (tailOf bytes ++ more) := by
  rw [packetsOf, (framesOf_append bytes more).1, List.filter_append]
  rfl

/-- The frames of serialised packets are the packets. -/
theorem framesOf_bytes (packets : List CommsPacket) :
    framesOf (packets.flatMap CommsPacket.bytes) = packets ∧
      tailOf (packets.flatMap CommsPacket.bytes) = [] := by
  induction packets with
  | nil => exact ⟨rfl, rfl⟩
  | cons packet packets ih =>
    have enough : 18 ≤ (packet.bytes ++ packets.flatMap CommsPacket.bytes).length := by
      rw [List.length_append, packet.bytes_length]
      exact Nat.le_add_right 18 _
    have behind : (packet.bytes ++ packets.flatMap CommsPacket.bytes).drop 18 =
        packets.flatMap CommsPacket.bytes := List.drop_left' packet.bytes_length
    rw [List.flatMap_cons, (framesOf_drop enough).1, (framesOf_drop enough).2, behind, ih.1, ih.2,
      frameOf_bytes]
    exact ⟨rfl, rfl⟩

theorem packetsOf_bytes (packets : List CommsPacket) :
    packetsOf (packets.flatMap CommsPacket.bytes) =
      packets.filter fun packet => frameKind packet = .packet := by
  rw [packetsOf, (framesOf_bytes packets).1]

/-- A packet takes 18 bytes. -/
theorem packetsOf_length_le (bytes : List Byte) : (packetsOf bytes).length ≤ bytes.length / 18 := by
  refine (List.length_filter_le ..).trans ?_
  rw [framesOf, List.length_map, List.length_range]

/-! ## The state after the bytes of an unfinished frame -/

/-- The state of `comms_update` for the unfinished frame `part`. -/
structure Partial (c : Comms) (part : List Byte) : Prop where
  short : part.length < 18
  state : c.currentState =
    if part.length = 0 then .length else if part.length ≤ 16 then .data else .crc
  count : c.dataByteCount = if part.length ≤ 16 then part.length - 1 else 0
  bytes : c.currentTempPacket.bytes.take part.length = part

theorem partial_init : Partial commsInit [] := ⟨by decide, rfl, rfl, rfl⟩

/-- Sending and taking packets does not touch the unfinished frame. -/
theorem Partial.congr {c c' : Comms} {part : List Byte} (h : Partial c part)
    (state : c'.currentState = c.currentState) (count : c'.dataByteCount = c.dataByteCount)
    (packet : c'.currentTempPacket = c.currentTempPacket) : Partial c' part :=
  ⟨h.short, state.trans h.state, count.trans h.count, packet ▸ h.bytes⟩

/-- Between two frames nothing of the last one matters. -/
theorem Partial.between {c : Comms} (state : c.currentState = .length)
    (count : c.dataByteCount = 0) : Partial c [] := ⟨by decide, state, count, rfl⟩

/-- A receiver that waits for a length byte has no unfinished frame. -/
theorem Partial.eq_nil {c : Comms} {part : List Byte} (h : Partial c part)
    (state : c.currentState = .length) : part = [] := by
  refine List.length_eq_zero_iff.mp ?_
  by_contra some
  have other := h.state
  rw [state, if_neg some] at other
  split at other <;> cases other

/-- A data byte stored behind the length byte and the `k` data bytes of `part`. -/
theorem CommsPacket.take_setData (packet : CommsPacket) {part : List Byte} {k : Nat}
    (size : part.length = k + 1) (room : k < 16)
    (bytes : packet.bytes.take part.length = part) (byte : Byte) :
    ({ packet with data := packet.data.setIfInBounds k byte } : CommsPacket).bytes.take
      (part ++ [byte]).length = part ++ [byte] := by
  rw [size] at bytes
  simp only [CommsPacket.bytes, List.cons_append, List.take_succ_cons] at bytes
  rw [List.take_append_of_le_length (by simp; omega)] at bytes
  rw [List.length_append, List.length_singleton, size, CommsPacket.bytes, List.cons_append,
    List.take_succ_cons, List.take_append_of_le_length (by simp; omega),
    Vector.toList_setIfInBounds, ← bytes, List.cons_append]
  congr 1
  rw [List.take_add_one, List.take_set_of_le (Nat.le_refl _)]
  rw [List.getElem?_set_self (by simp; omega)]
  rfl

section UpdateByte

variable {c : Comms} {part : List Byte} (h : Partial c part) (byte : Byte)
include h

/-- The length byte starts a frame. -/
theorem Partial.step_length (first : part = []) :
    (commsUpdateByte c byte).2 = [] ∧ Partial (commsUpdateByte c byte).1 (part ++ [byte]) ∧
      SameQueue c (commsUpdateByte c byte).1 ∧
      (commsUpdateByte c byte).1.lastTransmittedPacket = c.lastTransmittedPacket := by
  subst first
  have state : c.currentState = .length := h.state
  have count : c.dataByteCount = 0 := h.count
  rw [commsUpdateByte, state]
  exact ⟨rfl, ⟨by simp, rfl, count, rfl⟩, ⟨rfl, rfl, rfl⟩, rfl⟩

/-- A data byte is stored behind the `k` before it. -/
theorem Partial.step_data {k : Nat} (size : part.length = k + 1) (room : k < 16) :
    (commsUpdateByte c byte).2 = [] ∧ Partial (commsUpdateByte c byte).1 (part ++ [byte]) ∧
      SameQueue c (commsUpdateByte c byte).1 ∧
      (commsUpdateByte c byte).1.lastTransmittedPacket = c.lastTransmittedPacket := by
  have state : c.currentState = .data := by
    rw [h.state, if_neg (by omega), if_pos (by omega)]
  have count : c.dataByteCount = k := by
    rw [h.count, if_pos (by omega), size, Nat.add_sub_cancel]
  -- `data_byte_count` is a `uint8_t`, far from its end here
  have counted : (k + 1) % 2 ^ 8 = k + 1 := Nat.mod_eq_of_lt (by omega)
  have stored := c.currentTempPacket.take_setData size room h.bytes byte
  have length : (part ++ [byte]).length = k + 2 := by
    rw [List.length_append, List.length_singleton, size]
  rw [commsUpdateByte, state]
  dsimp only
  rw [count, counted]
  by_cases last : packetDataLength ≤ k + 1
  · -- the sixteenth data byte: the CRC is next, and the count starts again
    rw [if_pos last]
    unfold packetDataLength at last
    refine ⟨rfl, ⟨by omega, ?_, ?_, stored⟩, ⟨rfl, rfl, rfl⟩, rfl⟩
    · rw [length, if_neg (by omega), if_neg (by omega)]
    · rw [length, if_neg (by omega)]
  · rw [if_neg last]
    unfold packetDataLength at last
    refine ⟨rfl, ⟨by omega, ?_, ?_, stored⟩, ⟨rfl, rfl, rfl⟩, rfl⟩
    · rw [length, if_neg (by omega), if_pos (by omega)]
    · rw [length, if_pos (by omega)]
      rfl

/-- A byte inside a frame is stored and nothing else happens. -/
theorem Partial.step (inside : part.length < 17) :
    (commsUpdateByte c byte).2 = [] ∧ Partial (commsUpdateByte c byte).1 (part ++ [byte]) ∧
      SameQueue c (commsUpdateByte c byte).1 ∧
      (commsUpdateByte c byte).1.lastTransmittedPacket = c.lastTransmittedPacket := by
  cases size : part.length with
  | zero => exact h.step_length byte (List.eq_nil_of_length_eq_zero size)
  | succ k => exact h.step_data byte size (by omega)

/-- With the CRC byte the scratch packet is the frame. -/
theorem Partial.last_packet (full : part.length = 17) :
    { c.currentTempPacket with crc := byte } = frameOf (part ++ [byte]) := by
  have bytes := h.bytes
  rw [full, CommsPacket.bytes, List.take_append_of_le_length (by simp),
    List.take_of_length_le (by simp)] at bytes
  rw [← bytes]
  exact (frameOf_bytes { c.currentTempPacket with crc := byte } []).symm.trans
    (by rw [List.append_nil]; rfl)

/-- The last byte of a frame hands the frame on. -/
theorem Partial.complete (full : part.length = 17) :
    commsUpdateByte c byte =
      let (handled, obs) :=
        commsHandlePacket { c with currentTempPacket := frameOf (part ++ [byte]) }
      ({ handled with currentState := .length }, obs) := by
  have state : c.currentState = .crc := by
    rw [h.state, if_neg (by omega), if_neg (by omega)]
  rw [commsUpdateByte, state, ← h.last_packet byte full]

/-- After the last byte of a frame the next frame starts. -/
theorem Partial.restarts (full : part.length = 17) : Partial (commsUpdateByte c byte).1 [] := by
  have count : c.dataByteCount = 0 := by rw [h.count, if_neg (by omega)]
  rw [h.complete byte full, commsHandlePacket_eq]
  refine .between rfl ?_
  dsimp only
  split <;> exact count

/-- A frame that is corrupt or a control packet. -/
theorem Partial.control (full : part.length = 17)
    (control : frameKind (frameOf (part ++ [byte])) ≠ .packet) :
    SameQueue c (commsUpdateByte c byte).1 ∧
      ((commsUpdateByte c byte).2 = [] ∨
        ∃ packet, (commsUpdateByte c byte).2 = [.sent packet]) := by
  rw [h.complete byte full]
  generalize frameOf (part ++ [byte]) = frame at control
  obtain ⟨same, answer⟩ :=
    commsHandlePacket_control (c := { c with currentTempPacket := frame }) control
  exact ⟨⟨same.buffer, same.read, same.write⟩, answer⟩

/-- A frame that is stored, with room for it. -/
theorem Partial.packet_room (full : part.length = 17)
    (packet : frameKind (frameOf (part ++ [byte])) = .packet) (ok : QueueOk c)
    (room : c.queue.length < 7) :
    (commsUpdateByte c byte).1.queue = c.queue ++ [frameOf (part ++ [byte])] ∧
      (commsUpdateByte c byte).2 = [.stored (frameOf (part ++ [byte])), .sent ackPacket] := by
  rw [h.complete byte full]
  generalize frameOf (part ++ [byte]) = frame at packet
  rw [commsHandlePacket_packet (c := { c with currentTempPacket := frame }) packet]
  exact commsStorePacket_room (c := { c with currentTempPacket := frame }) ⟨ok.read, ok.write⟩ room

/-- A frame that is stored into a full queue. -/
theorem Partial.packet_full (full : part.length = 17)
    (packet : frameKind (frameOf (part ++ [byte])) = .packet) (ok : QueueOk c)
    (crowded : c.queue.length = 7) : (commsUpdateByte c byte).2 =
      [.overrun, .stored (frameOf (part ++ [byte])), .sent ackPacket] := by
  rw [h.complete byte full]
  generalize frameOf (part ++ [byte]) = frame at packet
  rw [commsHandlePacket_packet (c := { c with currentTempPacket := frame }) packet]
  exact commsStorePacket_full (c := { c with currentTempPacket := frame }) ⟨ok.read, ok.write⟩
    crowded

/-- The indices of the queue stay inside the buffer. -/
theorem Partial.queueOk (ok : QueueOk c) : QueueOk (commsUpdateByte c byte).1 := by
  by_cases full : part.length = 17
  · rw [h.complete byte full]
    generalize frameOf (part ++ [byte]) = frame
    by_cases packet : frameKind frame = .packet
    · rw [commsHandlePacket_packet (c := { c with currentTempPacket := frame }) packet]
      have stored := commsStorePacket_ok (c := { c with currentTempPacket := frame })
        ⟨ok.read, ok.write⟩
      exact ⟨stored.read, stored.write⟩
    · have same :=
        (commsHandlePacket_control (c := { c with currentTempPacket := frame }) packet).1
      have handled := same.ok ⟨ok.read, ok.write⟩
      exact ⟨handled.read, handled.write⟩
  · have inside := h.short
    exact (h.step byte (by omega)).2.2.1.ok ok

end UpdateByte

/-! ## Whole frames -/

/-- The loop of `comms_update` over some bytes. -/
def commsUpdateBytes : Comms → List Byte → Comms × Trace
  | c, [] => (c, [])
  | c, byte :: bytes =>
    let (updated, obs) := commsUpdateByte c byte
    let (done, obs') := commsUpdateBytes updated bytes
    (done, obs ++ obs')

theorem commsUpdateBytes_append (c : Comms) (bytes bytes' : List Byte) :
    commsUpdateBytes c (bytes ++ bytes') =
      ((commsUpdateBytes (commsUpdateBytes c bytes).1 bytes').1,
        (commsUpdateBytes c bytes).2 ++
          (commsUpdateBytes (commsUpdateBytes c bytes).1 bytes').2) := by
  induction bytes generalizing c with
  | nil => rfl
  | cons byte bytes ih =>
    rw [List.cons_append, commsUpdateBytes]
    dsimp only
    rw [ih, ← List.append_assoc]
    rfl

/-- Bytes inside a frame. -/
theorem Partial.steps {c : Comms} {part : List Byte} (h : Partial c part) (bytes : List Byte)
    (inside : part.length + bytes.length < 18) :
    (commsUpdateBytes c bytes).2 = [] ∧ Partial (commsUpdateBytes c bytes).1 (part ++ bytes) ∧
      SameQueue c (commsUpdateBytes c bytes).1 ∧
      (commsUpdateBytes c bytes).1.lastTransmittedPacket = c.lastTransmittedPacket := by
  induction bytes generalizing c part with
  | nil =>
    rw [List.append_nil]
    exact ⟨rfl, h, SameQueue.refl c, rfl⟩
  | cons byte bytes ih =>
    rw [List.length_cons] at inside
    obtain ⟨silent, part', same, last⟩ := h.step byte (by omega)
    obtain ⟨silent', part'', same', last'⟩ := ih part' (by simp; omega)
    rw [commsUpdateBytes]
    dsimp only
    rw [silent, silent']
    rw [List.append_assoc] at part''
    refine ⟨rfl, part'', ⟨?_, ?_, ?_⟩, last'.trans last⟩
    · exact same'.buffer.trans same.buffer
    · exact same'.read.trans same.read
    · exact same'.write.trans same.write

/-- A frame that starts between two frames is handled as it is. -/
theorem Partial.frame {c : Comms} (h : Partial c []) (packet : CommsPacket) :
    Partial (commsUpdateBytes c packet.bytes).1 [] ∧
      ∃ c', SameQueue c c' ∧ c'.lastTransmittedPacket = c.lastTransmittedPacket ∧
        c'.currentTempPacket = packet ∧ commsUpdateBytes c packet.bytes =
          ({ (commsHandlePacket c').1 with currentState := .length },
            (commsHandlePacket c').2) := by
  have front : (packet.length :: packet.data.toList).length = 17 := by simp
  obtain ⟨silent, part, same, last⟩ :=
    h.steps (packet.length :: packet.data.toList) (by rw [front]; decide)
  have whole : frameOf (packet.length :: packet.data.toList ++ [packet.crc]) = packet := by
    have := frameOf_bytes packet []
    rwa [List.append_nil] at this
  have complete := part.complete packet.crc front
  rw [List.nil_append, whole] at complete
  have split : commsUpdateBytes c packet.bytes =
      commsUpdateByte (commsUpdateBytes c (packet.length :: packet.data.toList)).1 packet.crc := by
    rw [CommsPacket.bytes, commsUpdateBytes_append, silent]
    simp [commsUpdateBytes]
  rw [split]
  refine ⟨part.restarts packet.crc front,
    { (commsUpdateBytes c (packet.length :: packet.data.toList)).1 with
      currentTempPacket := packet },
    ⟨same.buffer, same.read, same.write⟩, last, rfl, ?_⟩
  exact complete

/-- A corrupt frame or a control packet leaves the queue alone. -/
theorem Partial.frame_control {c : Comms} (h : Partial c []) {packet : CommsPacket}
    (control : frameKind packet ≠ .packet) :
    (commsUpdateBytes c packet.bytes).1.queue = c.queue := by
  obtain ⟨-, c', same, -, rfl, updated⟩ := h.frame packet
  have handled := (commsHandlePacket_control control).1
  rw [updated, ← same.queue, ← handled.queue]
  rfl

/-- A packet is appended to the queue if there is room. -/
theorem Partial.frame_packet {c : Comms} (h : Partial c []) (ok : QueueOk c)
    {packet : CommsPacket} (isPacket : frameKind packet = .packet) (room : c.queue.length < 7) :
    (commsUpdateBytes c packet.bytes).1.queue = c.queue ++ [packet] := by
  obtain ⟨-, c', same, -, rfl, updated⟩ := h.frame packet
  rw [← same.queue] at room ⊢
  rw [updated, commsHandlePacket_packet isPacket]
  exact (commsStorePacket_room (same.ok ok) room).1

end SecureBootloader
