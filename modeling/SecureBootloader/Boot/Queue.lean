import SecureBootloader.Boot.Comms
import SecureBootloader.Lib.Circular

/-!
# The packet queue

`incoming_packet_buffer` with its two indices is a queue of at most seven
packets. Storing a packet appends it as long as there is room, and
`comms_receive_packet` takes the oldest one.
-/

namespace SecureBootloader

/-- The packets stored and not yet returned, oldest first. -/
def Comms.queue (c : Comms) : List CommsPacket :=
  Lib.Circular.contents (fun i => c.incomingPacketBuffer.toList.getD i .zero) packetBufferLength
    c.packetReadIndex c.packetWriteIndex

/-- The indices stay inside the buffer. -/
structure QueueOk (c : Comms) : Prop where
  read : c.packetReadIndex < packetBufferLength
  write : c.packetWriteIndex < packetBufferLength

/-- Nothing happened to the queue. -/
structure SameQueue (c c' : Comms) : Prop where
  buffer : c'.incomingPacketBuffer = c.incomingPacketBuffer
  read : c'.packetReadIndex = c.packetReadIndex
  write : c'.packetWriteIndex = c.packetWriteIndex

theorem SameQueue.refl (c : Comms) : SameQueue c c := ⟨rfl, rfl, rfl⟩

theorem SameQueue.queue {c c' : Comms} (h : SameQueue c c') : c'.queue = c.queue := by
  rw [Comms.queue, h.buffer, h.read, h.write, Comms.queue]

theorem SameQueue.ok {c c' : Comms} (h : SameQueue c c') (ok : QueueOk c) : QueueOk c' :=
  ⟨h.read ▸ ok.read, h.write ▸ ok.write⟩

theorem queueOk_init : QueueOk commsInit := ⟨by decide, by decide⟩

/-- The mask keeps an index in the buffer. -/
theorem and_packetBufferMask (i : Nat) : i &&& packetBufferMask = i % packetBufferLength :=
  Nat.and_two_pow_sub_one_eq_mod i 3

theorem mod_packetBufferLength_lt (i : Nat) : i % packetBufferLength < packetBufferLength :=
  Nat.mod_lt _ (by decide)

section Operations

variable {c : Comms} (ok : QueueOk c)
include ok

theorem queue_length_le : c.queue.length ≤ 7 := by
  have := Lib.Circular.count_lt ok.read ok.write
  rw [Comms.queue, Lib.Circular.contents_length]
  exact Nat.le_of_lt_succ this

theorem commsPacketAvailable_iff : commsPacketAvailable c = true ↔ c.queue ≠ [] := by
  rw [commsPacketAvailable, bne_iff_ne, Ne, Ne, Comms.queue, Lib.Circular.contents_eq_nil ok.read]

/-- The test before the breakpoint. -/
theorem full_iff :
    (c.packetWriteIndex + 1) &&& packetBufferMask = c.packetReadIndex ↔ c.queue.length = 7 := by
  rw [and_packetBufferMask, Lib.Circular.full_iff ok.read ok.write, Comms.queue,
    Lib.Circular.contents_length]
  rfl

theorem commsStorePacket_ok : QueueOk (commsStorePacket c).1 := by
  refine ⟨ok.read, ?_⟩
  show (c.packetWriteIndex + 1) &&& packetBufferMask < _
  rw [and_packetBufferMask]
  exact mod_packetBufferLength_lt _

/-- With room in the queue the packet is appended and the breakpoint not reached. -/
theorem commsStorePacket_room (room : c.queue.length < 7) :
    (commsStorePacket c).1.queue = c.queue ++ [c.currentTempPacket] ∧
      (commsStorePacket c).2 = [.stored c.currentTempPacket, .sent ackPacket] := by
  have notFull : ¬(c.packetWriteIndex + 1) &&& packetBufferMask = c.packetReadIndex := by
    rw [full_iff ok]
    exact Nat.ne_of_lt room
  constructor
  · show Lib.Circular.contents (fun i => (c.incomingPacketBuffer.setIfInBounds c.packetWriteIndex
      c.currentTempPacket).toList.getD i .zero) packetBufferLength c.packetReadIndex
        ((c.packetWriteIndex + 1) &&& packetBufferMask) = _
    rw [and_packetBufferMask] at notFull ⊢
    refine Lib.Circular.contents_push ok.read ok.write notFull ?_ ?_
    · have inside : c.packetWriteIndex < c.incomingPacketBuffer.toList.length := by
        rw [Vector.length_toList]
        exact ok.write
      rw [Vector.toList_setIfInBounds, List.getD_eq_getElem?_getD, List.getElem?_set_self inside]
      rfl
    · intro i other
      rw [Vector.toList_setIfInBounds, List.getD_eq_getElem?_getD,
        List.getElem?_set_ne (Ne.symm other), ← List.getD_eq_getElem?_getD]
  · rw [commsStorePacket_trace, if_neg notFull]
    rfl

/-- Into a full queue the packet is stored past the breakpoint. -/
theorem commsStorePacket_full (full : c.queue.length = 7) :
    (commsStorePacket c).2 = [.overrun, .stored c.currentTempPacket, .sent ackPacket] := by
  rw [commsStorePacket_trace, if_pos ((full_iff ok).mpr full)]
  rfl

theorem commsReceivePacket_ok : QueueOk (commsReceivePacket c).2.1 := by
  refine ⟨?_, ok.write⟩
  show (c.packetReadIndex + 1) &&& packetBufferMask < _
  rw [and_packetBufferMask]
  exact mod_packetBufferLength_lt _

/-- `comms_receive_packet` returns the oldest packet and leaves the others. -/
theorem commsReceivePacket_queue (available : commsPacketAvailable c = true) :
    c.queue = (commsReceivePacket c).1 :: (commsReceivePacket c).2.1.queue := by
  rw [commsPacketAvailable, bne_iff_ne] at available
  rw [Comms.queue, Lib.Circular.contents_pop ok.read ok.write _ available,
    ← and_packetBufferMask]
  rfl

end Operations

/-- A corrupt frame or a control packet makes the link answer at most, and leaves
the queue alone. -/
theorem commsHandlePacket_control {c : Comms} (control : frameKind c.currentTempPacket ≠ .packet) :
    SameQueue c (commsHandlePacket c).1 ∧
      ((commsHandlePacket c).2 = [] ∨ ∃ packet, (commsHandlePacket c).2 = [.sent packet]) := by
  rw [commsHandlePacket_eq]
  cases kind : frameKind c.currentTempPacket with
  | corrupt => exact ⟨⟨rfl, rfl, rfl⟩, .inr ⟨retxPacket, rfl⟩⟩
  | retx => exact ⟨⟨rfl, rfl, rfl⟩, .inr ⟨c.lastTransmittedPacket, rfl⟩⟩
  | ack => exact ⟨⟨rfl, rfl, rfl⟩, .inl rfl⟩
  | packet => exact absurd kind control

/-- Any other frame is stored. -/
theorem commsHandlePacket_packet {c : Comms} (packet : frameKind c.currentTempPacket = .packet) :
    commsHandlePacket c = commsStorePacket c := by
  rw [commsHandlePacket_eq, packet]

end SecureBootloader
