import SecureBootloader.Boot.Receiver

/-!
# The invariant of the packet queue

The receiver's variables, the bytes read and the packets stored and taken belong
together in every state of every run.
-/

namespace SecureBootloader

/-- The receiver's variables are those the bytes read so far lead to; the queue
holds what was stored and not yet taken, unless the breakpoint was reached. -/
structure QueueInv (v : Session) : Prop where
  part : Partial v.comms (tailOf v.trace.commsBytes)
  ok : QueueOk v.comms
  stored : v.trace.stored = packetsOf v.trace.commsBytes
  fifo : .overrun ∉ v.trace → v.trace.stored = v.trace.taken ++ v.comms.queue

theorem QueueInv.init (flash0 : Flash) : QueueInv (bootInit flash0).session where
  part := by
    show Partial commsInit (tailOf [])
    rw [tailOf_nil]
    exact partial_init
  ok := queueOk_init
  stored := packetsOf_nil.symm
  fifo := fun _ => rfl

theorem mem_before {t t' obs : Trace} (trace : t' = t ++ obs) (safe : .overrun ∉ t') :
    .overrun ∉ t := fun ho => safe (trace ▸ List.mem_append_left _ ho)

section Step

variable {v v' : Session} (inv : QueueInv v)
include inv

/-- A step that reads no byte and takes no packet. -/
theorem QueueInv.quiet {obs : Trace} (trace : v'.trace = v.trace ++ obs) (silent : obs.Quiet)
    (same : SameReceiver v.comms v'.comms) : QueueInv v' := by
  have bytes : v'.trace.commsBytes = v.trace.commsBytes := by
    rw [trace, Trace.commsBytes_append, silent.commsBytes, List.append_nil]
  have stored : v'.trace.stored = v.trace.stored := by
    rw [trace, Trace.stored_append, silent.stored, List.append_nil]
  have taken : v'.trace.taken = v.trace.taken := by
    rw [trace, Trace.taken_append, silent.taken, List.append_nil]
  refine ⟨?_, same.sameQueue.ok inv.ok, ?_, ?_⟩
  · rw [bytes]
    exact same.part inv.part
  · rw [stored, bytes, inv.stored]
  · intro safe
    rw [stored, taken, same.sameQueue.queue]
    exact inv.fifo (mem_before trace safe)

/-- A step that takes a packet. -/
theorem QueueInv.take {obs : Trace} (available : commsPacketAvailable v.comms = true)
    (trace : v'.trace = v.trace ++ .taken v.nextPacket :: obs) (silent : obs.Quiet)
    (same : SameReceiver (commsReceivePacket v.comms).2.1 v'.comms) : QueueInv v' := by
  have bytes : v'.trace.commsBytes = v.trace.commsBytes := by
    rw [trace, Trace.commsBytes_append]
    exact (congrArg _ silent.commsBytes).trans (List.append_nil _)
  have stored : v'.trace.stored = v.trace.stored := by
    rw [trace, Trace.stored_append]
    exact (congrArg _ silent.stored).trans (List.append_nil _)
  have taken : v'.trace.taken = v.trace.taken ++ [v.nextPacket] := by
    rw [trace, Trace.taken_append]
    exact congrArg (fun l => v.trace.taken ++ v.nextPacket :: l) silent.taken
  refine ⟨?_, same.sameQueue.ok (commsReceivePacket_ok inv.ok), ?_, ?_⟩
  · rw [bytes]
    exact same.part (inv.part.congr rfl rfl rfl)
  · rw [stored, bytes, inv.stored]
  · intro safe
    rw [stored, taken, same.sameQueue.queue, inv.fifo (mem_before trace safe),
      commsReceivePacket_queue inv.ok available, List.append_assoc]
    rfl

section Byte

variable {byte : Byte}
  (trace : v'.trace = v.trace ++ .commsByte byte :: (commsUpdateByte v.comms byte).2)
  (comms : v'.comms = (commsUpdateByte v.comms byte).1)
include trace

omit inv in
theorem byte_commsBytes : v'.trace.commsBytes = v.trace.commsBytes ++ [byte] := by
  rw [trace, Trace.commsBytes_append]
  refine congrArg _ (congrArg (byte :: ·) ?_)
  rcases commsUpdateByte_trace v.comms byte with h | ⟨p, h⟩ | ⟨p, h | h⟩ <;> rw [h] <;> rfl

omit inv in
theorem byte_taken : v'.trace.taken = v.trace.taken := by
  rw [trace, Trace.taken_append]
  exact (congrArg _ (commsUpdateByte_quiet v.comms byte).1).trans (List.append_nil _)

omit inv in
theorem byte_stored :
    v'.trace.stored = v.trace.stored ++ (commsUpdateByte v.comms byte).2.stored := by
  rw [trace, Trace.stored_append]
  rfl

include comms

/-- A byte inside a frame. -/
theorem QueueInv.inside (h : (tailOf v.trace.commsBytes).length < 17) : QueueInv v' := by
  obtain ⟨silent, part, same, -⟩ := inv.part.step byte h
  have bytes := byte_commsBytes trace
  have stored : v'.trace.stored = v.trace.stored := by
    rw [byte_stored trace, silent]
    exact List.append_nil _
  refine ⟨?_, comms ▸ inv.part.queueOk byte inv.ok, ?_, ?_⟩
  · rw [comms, bytes, (tailOf_concat h).1]
    exact part
  · rw [bytes, packetsOf_concat h, ← inv.stored, stored]
  · intro safe
    rw [stored, byte_taken trace, comms, same.queue, inv.fifo (mem_before trace safe)]

/-- The last byte of a corrupt frame or a control packet. -/
theorem QueueInv.control (h : (tailOf v.trace.commsBytes).length = 17)
    (control : frameKind (frameOf (tailOf v.trace.commsBytes ++ [byte])) ≠ .packet) :
    QueueInv v' := by
  obtain ⟨same, answer⟩ := inv.part.control byte h control
  have bytes := byte_commsBytes trace
  have stored : v'.trace.stored = v.trace.stored := by
    rw [byte_stored trace]
    rcases answer with none | ⟨packet, one⟩
    · rw [none]
      exact List.append_nil _
    · rw [one]
      exact List.append_nil _
  refine ⟨?_, comms ▸ inv.part.queueOk byte inv.ok, ?_, ?_⟩
  · rw [comms, bytes, (tailOf_complete h).1]
    exact inv.part.restarts byte h
  · rw [bytes, packetsOf_complete h, stored, inv.stored, List.filter_singleton,
      decide_eq_false control]
    exact (List.append_nil _).symm
  · intro safe
    rw [stored, byte_taken trace, comms, same.queue, inv.fifo (mem_before trace safe)]

/-- The last byte of a packet that is stored. -/
theorem QueueInv.packet (h : (tailOf v.trace.commsBytes).length = 17)
    (packet : frameKind (frameOf (tailOf v.trace.commsBytes ++ [byte])) = .packet) :
    QueueInv v' := by
  have bytes := byte_commsBytes trace
  have stored : v'.trace.stored =
      v.trace.stored ++ [frameOf (tailOf v.trace.commsBytes ++ [byte])] := by
    rw [byte_stored trace]
    by_cases room : v.comms.queue.length < 7
    · rw [(inv.part.packet_room byte h packet inv.ok room).2]
      rfl
    · have most := queue_length_le inv.ok
      rw [inv.part.packet_full byte h packet inv.ok (by omega)]
      rfl
  refine ⟨?_, comms ▸ inv.part.queueOk byte inv.ok, ?_, ?_⟩
  · rw [comms, bytes, (tailOf_complete h).1]
    exact inv.part.restarts byte h
  · rw [bytes, packetsOf_complete h, stored, inv.stored, List.filter_singleton,
      decide_eq_true packet]
    rfl
  · intro safe
    have room : v.comms.queue.length < 7 := by
      refine Nat.lt_of_le_of_ne (queue_length_le inv.ok) fun full => safe ?_
      rw [trace, inv.part.packet_full byte h packet inv.ok full]
      simp
    rw [stored, byte_taken trace, comms, (inv.part.packet_room byte h packet inv.ok room).1,
      inv.fifo (mem_before trace safe), List.append_assoc]

end Byte

end Step

theorem QueueInv.receives {v v' : Session} (inv : QueueInv v) (step : ReceiverStep v v') :
    QueueInv v' := by
  cases step with
  | quiet obs trace silent same => exact inv.quiet trace silent same
  | take obs available trace silent same => exact inv.take available trace silent same
  | byte byte hpc trace comms =>
    by_cases h : (tailOf v.trace.commsBytes).length = 17
    · by_cases kind : frameKind (frameOf (tailOf v.trace.commsBytes ++ [byte])) = .packet
      · exact inv.packet trace comms h kind
      · exact inv.control trace comms h kind
    · have short := tailOf_length_lt v.trace.commsBytes
      exact inv.inside trace comms (by omega)

theorem QueueInv.step {drv : FlashDriver} {validate : Flash → Option Bool} {v v' : Session}
    (inv : QueueInv v) (step : SessionStep drv validate v v') : QueueInv v' :=
  inv.receives (receiverStep step)

/-- A step after which few packets are unread does not run over the queue. -/
theorem QueueInv.no_overrun {v v' : Session} (inv : QueueInv v) (step : ReceiverStep v v')
    (safe : .overrun ∉ v.trace)
    (few : (packetsOf v'.trace.commsBytes).length ≤ v'.trace.taken.length + 7) :
    .overrun ∉ v'.trace := by
  cases step with
  | quiet obs trace silent same =>
    rw [trace, List.mem_append, not_or]
    exact ⟨safe, silent.overrun⟩
  | take obs available trace silent same =>
    rw [trace, List.mem_append, not_or]
    exact ⟨safe, fun ho => (List.mem_cons.mp ho).elim (by simp) silent.overrun⟩
  | byte byte hpc trace comms =>
    have short := tailOf_length_lt v.trace.commsBytes
    by_cases h : (tailOf v.trace.commsBytes).length = 17
    · by_cases kind : frameKind (frameOf (tailOf v.trace.commsBytes ++ [byte])) = .packet
      · have room : v.comms.queue.length < 7 := by
          refine Nat.lt_of_le_of_ne (queue_length_le inv.ok) ?_
          intro full
          -- the packet would be the eighth unread one
          have queued := congrArg List.length (inv.fifo safe)
          rw [inv.stored, List.length_append, full] at queued
          rw [byte_commsBytes trace, packetsOf_complete h, List.filter_singleton,
            decide_eq_true kind, List.length_append, byte_taken trace, queued] at few
          exact absurd few (by simp)
        rw [trace, (inv.part.packet_room byte h kind inv.ok room).2]
        simpa using safe
      · obtain none | ⟨packet, one⟩ := (inv.part.control byte h kind).2
        · rw [trace, none]
          simpa using safe
        · rw [trace, one]
          simpa using safe
    · rw [trace, (inv.part.step byte (by omega)).1]
      simpa using safe

theorem bootRun_queueInv (drv : FlashDriver) (validate : Flash → Option Bool) (flash0 : Flash)
    (es : List BootEvent) : QueueInv (bootRun drv validate flash0 es).session :=
  bootRun_invariant drv validate flash0 es (QueueInv.init flash0) fun _ _ h step => h.step step

end SecureBootloader
