import SecureBootloader.Boot.QueueInv
import SecureBootloader.Link.FrameEvents

/-!
# One framing for both receivers

However a byte stream is cut into arrivals, and whatever else the main program
does with the link in between, each receiver takes the stream for the frames the
format makes of it, and keeps the bytes of an unfinished frame for later.
-/

namespace SecureBootloader

open Updater

/-! ## Receivers at work -/

/-- A receiver, what it has done, and what it has taken the frames for. -/
structure Receiving (S : Type) where
  state : S
  trace : Trace
  events : List FrameEvent
  deriving DecidableEq

/-- What the receiver does goes on record. -/
def Receiving.does {S : Type} (r : Receiving S) (done : (S × Trace) × List FrameEvent) :
    Receiving S :=
  ⟨done.1.1, r.trace ++ done.1.2, r.events ++ done.2⟩

/-- A receiver that has done nothing yet. -/
def Receiving.start {S : Type} (s : S) : Receiving S := ⟨s, [], []⟩

/-- What happens at the bootloader's end. -/
inductive CommsOp where
  /-- `comms_update` finds these bytes -/
  | update (bytes : List Byte)
  /-- `comms_receive_packet`, if there is a packet -/
  | receive
  /-- `comms_send_packet` -/
  | send (packet : CommsPacket)

/-- What happens at the host's end. -/
inductive HandlerOp where
  /-- a `data` event -/
  | data (chunk : List Byte)
  /-- `packets.shift()`, if there is a packet -/
  | shift
  /-- `writePacket` -/
  | write (packet : CommsPacket)

/-- The bytes that arrive in an operation. -/
def CommsOp.bytes : CommsOp → List Byte
  | .update bytes => bytes
  | _ => []

def HandlerOp.bytes : HandlerOp → List Byte
  | .data chunk => chunk
  | _ => []

def commsOp (r : Receiving Comms) : CommsOp → Receiving Comms
  | .update bytes => r.does (commsUpdateEvents r.state bytes)
  | .receive =>
    if commsPacketAvailable r.state then r.does ((commsReceivePacket r.state).2, []) else r
  | .send packet => r.does (commsSendPacket r.state packet, [])

def handlerOp (r : Receiving HostLink) : HandlerOp → Receiving HostLink
  | .data chunk => r.does (onDataEvents r.state chunk)
  | .shift =>
    match r.state.packets with
    | [] => r
    | packet :: packets => r.does (({ r.state with packets := packets }, [.taken packet]), [])
  | .write packet => r.does (writePacket r.state packet, [])

/-- The bootloader's receiver after some operations. -/
def commsRun (c : Comms) (ops : List CommsOp) : Receiving Comms :=
  Lib.Run.run commsOp (.start c) ops

/-- The host's receiver after some operations. -/
def handlerRun (h : HostLink) (ops : List HandlerOp) : Receiving HostLink :=
  Lib.Run.run handlerOp (.start h) ops

/-- Between two frames, with the indices of the queue inside the buffer. -/
structure AtBoundary (c : Comms) : Prop where
  state : c.currentState = .length
  count : c.dataByteCount = 0
  indices : QueueOk c

/-! ## The format and the queue -/

/-- A packet is accepted. -/
def FrameEvent.isPacket : FrameEvent → Bool
  | .packet _ _ => true
  | _ => false

/-- The format's classification is the one that decides what is queued. -/
theorem referenceEvent_kind (packet : CommsPacket) :
    referenceEvent packet =
      match frameKind packet with
      | .corrupt => .corrupt
      | .retx => .retx
      | .ack => .ack
      | .packet => .ofPacket packet := by
  rw [← commsHandlePacketEvent_event { commsInit with currentTempPacket := packet }]
  unfold commsHandlePacketEvent frameKind
  dsimp only
  by_cases intact : commsCalculateCrc packet = packet.crc
  · by_cases retx : commsIsSingleBytePacket packet packetRetxData0 = true
    · simp [intact, retx]
    · by_cases ack : commsIsSingleBytePacket packet packetAckData0 = true
      · simp [intact, retx, ack]
      · simp [intact, retx, ack, FrameEvent.ofPacket]
  · simp [intact]

/-- The packets of a stream are those the format accepts. -/
theorem packetsOf_events (bytes : List Byte) :
    (packetsOf bytes).map FrameEvent.ofPacket =
      (referenceEvents bytes).filter FrameEvent.isPacket := by
  rw [packetsOf, referenceEvents]
  induction framesOf bytes with
  | nil => rfl
  | cons frame frames ih =>
    rw [List.map_cons, List.filter_cons, List.filter_cons, ← ih, referenceEvent_kind]
    cases frameKind frame <;> rfl

theorem referenceEvents_concat {bytes : List Byte} {byte : Byte}
    (h : (tailOf bytes).length < 17) :
    referenceEvents (bytes ++ [byte]) = referenceEvents bytes := by
  rw [referenceEvents, (tailOf_concat h).2, referenceEvents]

theorem referenceEvents_complete {bytes : List Byte} {byte : Byte}
    (h : (tailOf bytes).length = 17) :
    referenceEvents (bytes ++ [byte]) =
      referenceEvents bytes ++ [referenceEvent (frameOf (tailOf bytes ++ [byte]))] := by
  rw [referenceEvents, (tailOf_complete h).2, List.map_append, referenceEvents]
  rfl

/-! ## The bootloader's receiver -/

/-- The receiver has followed the format over the bytes `seen`, from a state in
which `queued` was in the queue. -/
structure CommsFollows (queued : List CommsPacket) (seen : List Byte) (r : Receiving Comms) :
    Prop where
  part : Partial r.state (tailOf seen)
  events : r.events = referenceEvents seen
  indices : QueueOk r.state
  fifo : .overrun ∉ r.trace → r.trace.taken ++ r.state.queue = queued ++ packetsOf seen

theorem AtBoundary.follows {c : Comms} (h : AtBoundary c) : CommsFollows c.queue [] (.start c) where
  part := .between h.state h.count
  events := rfl
  indices := h.indices
  fifo := fun _ => (List.append_nil _).symm

/-- A byte inside a frame completes none. -/
theorem Partial.step_events {c : Comms} {part : List Byte} (h : Partial c part) (byte : Byte)
    (inside : part.length < 17) : (commsUpdateByteEvents c byte).2 = [] := by
  have state : c.currentState ≠ .crc := by
    rw [h.state]
    split
    · simp
    · rw [if_pos (by omega)]
      simp
  unfold commsUpdateByteEvents
  cases current : c.currentState with
  | length => rfl
  | data => rfl
  | crc => exact absurd current state

/-- The last byte of a frame has it taken for what the format says. -/
theorem Partial.complete_events {c : Comms} {part : List Byte} (h : Partial c part) (byte : Byte)
    (full : part.length = 17) :
    (commsUpdateByteEvents c byte).2 = [referenceEvent (frameOf (part ++ [byte]))] := by
  have state : c.currentState = .crc := by
    rw [h.state, if_neg (by omega), if_neg (by omega)]
  unfold commsUpdateByteEvents
  rw [state]
  dsimp only
  rw [commsHandlePacketEvent_event, h.last_packet byte full]

section Byte

variable {queued : List CommsPacket} {seen : List Byte} {r : Receiving Comms}
  (h : CommsFollows queued seen r) (byte : Byte)
include h

theorem CommsFollows.inside (part : (tailOf seen).length < 17) :
    CommsFollows queued (seen ++ [byte]) (r.does (commsUpdateByteEvents r.state byte)) := by
  obtain ⟨silent, stored, same, -⟩ := h.part.step byte part
  have erased := commsUpdateByteEvents_erase r.state byte
  have indices := same.ok h.indices
  rw [← erased] at silent stored same indices
  refine ⟨?_, ?_, indices, ?_⟩
  · rw [(tailOf_concat part).1]
    exact stored
  · rw [referenceEvents_concat part, ← h.events, Receiving.does, h.part.step_events byte part,
      List.append_nil]
  · intro safe
    unfold Receiving.does at safe ⊢
    dsimp only at safe ⊢
    rw [silent, List.append_nil] at safe ⊢
    rw [same.queue, packetsOf_concat part, h.fifo safe]

theorem CommsFollows.complete (part : (tailOf seen).length = 17) :
    CommsFollows queued (seen ++ [byte]) (r.does (commsUpdateByteEvents r.state byte)) := by
  have erased := commsUpdateByteEvents_erase r.state byte
  have restarts := h.part.restarts byte part
  have indices := h.part.queueOk byte h.indices
  rw [← erased] at restarts indices
  refine ⟨?_, ?_, indices, ?_⟩
  · rw [(tailOf_complete part).1]
    exact restarts
  · rw [referenceEvents_complete part, ← h.events, Receiving.does,
      h.part.complete_events byte part]
  · intro safe
    unfold Receiving.does at safe ⊢
    dsimp only at safe ⊢
    rw [List.mem_append, not_or] at safe
    rw [packetsOf_complete part, ← List.append_assoc, ← h.fifo safe.1, Trace.taken_append,
      erased, (commsUpdateByte_quiet r.state byte).1, List.append_nil, List.append_assoc]
    rw [erased] at safe
    by_cases kind : frameKind (frameOf (tailOf seen ++ [byte])) = .packet
    · have room : r.state.queue.length < 7 := by
        refine Nat.lt_of_le_of_ne (queue_length_le h.indices) fun full => safe.2 ?_
        rw [h.part.packet_full byte part kind h.indices full]
        exact List.mem_cons_self
      rw [(h.part.packet_room byte part kind h.indices room).1, List.filter_singleton,
        decide_eq_true kind]
      rfl
    · rw [(h.part.control byte part kind).1.queue, List.filter_singleton, decide_eq_false kind]
      exact congrArg _ (List.append_nil _).symm

theorem CommsFollows.updateByte :
    CommsFollows queued (seen ++ [byte]) (r.does (commsUpdateByteEvents r.state byte)) := by
  by_cases full : (tailOf seen).length = 17
  · exact h.complete byte full
  · have short := tailOf_length_lt seen
    exact h.inside byte (by omega)

end Byte

/-- The bytes of a call of `comms_update`, one by one. -/
theorem CommsFollows.update {queued : List CommsPacket} {seen : List Byte} {r : Receiving Comms}
    (h : CommsFollows queued seen r) (bytes : List Byte) :
    CommsFollows queued (seen ++ bytes) (r.does (commsUpdateEvents r.state bytes)) := by
  induction bytes generalizing seen r with
  | nil =>
    have same : r.does (commsUpdateEvents r.state []) = r := by
      unfold Receiving.does commsUpdateEvents
      dsimp only
      rw [List.append_nil, List.append_nil]
    rw [same, List.append_nil]
    exact h
  | cons byte bytes ih =>
    have first := ih (h.updateByte byte)
    have both : (r.does (commsUpdateByteEvents r.state byte)).does
        (commsUpdateEvents (r.does (commsUpdateByteEvents r.state byte)).state bytes) =
          r.does (commsUpdateEvents r.state (byte :: bytes)) := by
      unfold Receiving.does
      dsimp only
      rw [List.append_assoc, List.append_assoc]
      rfl
    rw [both, List.append_assoc] at first
    exact first

/-- What reads no byte and only takes from the front of the queue. -/
theorem CommsFollows.unread {queued : List CommsPacket} {seen : List Byte} {r : Receiving Comms}
    (h : CommsFollows queued seen r) {out : Comms × Trace} (part : Partial out.1 (tailOf seen))
    (indices : QueueOk out.1) (queue : out.2.taken ++ out.1.queue = r.state.queue) :
    CommsFollows queued seen (r.does (out, [])) := by
  refine ⟨part, (List.append_nil _).trans h.events, indices, ?_⟩
  intro safe
  unfold Receiving.does at safe ⊢
  dsimp only at safe ⊢
  rw [List.mem_append, not_or] at safe
  rw [← h.fifo safe.1, ← queue, Trace.taken_append, List.append_assoc]

/-- Taking and sending packets does not disturb the framing. -/
theorem CommsFollows.op {queued : List CommsPacket} {seen : List Byte} {r : Receiving Comms}
    (h : CommsFollows queued seen r) (op : CommsOp) :
    CommsFollows queued (seen ++ op.bytes) (commsOp r op) := by
  cases op with
  | update bytes => exact h.update bytes
  | receive =>
    unfold CommsOp.bytes commsOp
    rw [List.append_nil]
    by_cases available : commsPacketAvailable r.state = true
    · rw [if_pos available]
      refine h.unread (h.part.congr rfl rfl rfl) (commsReceivePacket_ok h.indices) ?_
      rw [commsReceivePacket_trace available]
      exact (commsReceivePacket_queue h.indices available).symm
    · rw [if_neg available]
      exact h
  | send packet =>
    unfold CommsOp.bytes commsOp
    rw [List.append_nil]
    exact h.unread (h.part.congr rfl rfl rfl) ⟨h.indices.read, h.indices.write⟩ rfl

theorem commsRun_follows {c : Comms} (h : AtBoundary c) (ops : List CommsOp) :
    CommsFollows c.queue (ops.flatMap CommsOp.bytes) (commsRun c ops) := by
  induction ops using List.reverseRecOn with
  | nil => exact h.follows
  | append_singleton ops op ih =>
    rw [List.flatMap_append, List.flatMap_singleton, commsRun, Lib.Run.run_concat]
    exact ih.op op

/-! ## The host's receiver -/

/-- The handler has followed the format over the bytes `seen`, from a state in which
`queued` was in the queue. -/
structure HandlerFollows (queued : List CommsPacket) (seen : List Byte)
    (r : Receiving HostLink) : Prop where
  rest : r.state.rxBuffer = tailOf seen
  events : r.events = referenceEvents seen
  fifo : r.trace.taken ++ r.state.packets = queued ++ packetsOf seen

theorem follows_empty {h : HostLink} (empty : h.rxBuffer = []) :
    HandlerFollows h.packets [] (.start h) where
  rest := empty
  events := rfl
  fifo := (List.append_nil _).symm

/-- The loop of the handler takes each frame for what it is. -/
theorem handleLoopEvents_events (h : HostLink) :
    (handleLoopEvents (h.rxBuffer.length / packetLength) h).2 = referenceEvents h.rxBuffer := by
  -- the fuel is the number of frames in the buffer
  generalize turns : h.rxBuffer.length / packetLength = fuel
  unfold packetLength at turns
  induction fuel generalizing h with
  | zero =>
    have none := framesOf_short (show h.rxBuffer.length < 18 by omega)
    rw [referenceEvents, none.1]
    rfl
  | succ fuel ih =>
    have enough : 18 ≤ h.rxBuffer.length := by omega
    rw [handleLoopEvents, if_neg (show ¬h.rxBuffer.length < packetLength from by
      unfold packetLength; omega)]
    dsimp only
    rw [ofRaw_take enough]
    generalize frame : handlePacketEvent { h with rxBuffer := h.rxBuffer.drop packetLength }
      (frameOf h.rxBuffer) = handled
    have event := handlePacketEvent_event { h with rxBuffer := h.rxBuffer.drop packetLength }
      (frameOf h.rxBuffer)
    have behind := handlePacket_keeps { h with rxBuffer := h.rxBuffer.drop packetLength }
      (frameOf h.rxBuffer)
    rw [← handlePacketEvent_erase] at behind
    rw [frame] at event behind
    have rest := ih handled.1.1 (by rw [behind, List.length_drop]; unfold packetLength; omega)
    rw [rest, event, behind, referenceEvents, referenceEvents, (framesOf_drop enough).1]
    rfl

/-- A `data` event continues the tail. -/
theorem HandlerFollows.data {queued : List CommsPacket} {seen : List Byte}
    {r : Receiving HostLink} (h : HandlerFollows queued seen r) (chunk : List Byte) :
    HandlerFollows queued (seen ++ chunk) (r.does (onDataEvents r.state chunk)) := by
  have events := handleLoopEvents_events { r.state with rxBuffer := r.state.rxBuffer ++ chunk }
  obtain ⟨rest, packets, taken⟩ :=
    handleLoop_frames { r.state with rxBuffer := r.state.rxBuffer ++ chunk }
  obtain ⟨frames, tail⟩ := framesOf_append seen chunk
  have erase := onDataEvents_erase r.state chunk
  refine ⟨?_, ?_, ?_⟩
  · rw [tail, ← h.rest, Receiving.does, erase]
    exact rest
  · rw [referenceEvents, frames, List.map_append, ← h.rest, ← referenceEvents, ← h.events]
    exact congrArg _ events
  · rw [packetsOf_append, ← List.append_assoc, ← h.fifo, ← h.rest, Receiving.does, erase, onData]
    dsimp only
    rw [Trace.taken_append, taken, packets, List.append_nil, List.append_assoc]

/-- Taking and sending packets does not disturb the buffer. -/
theorem HandlerFollows.op {queued : List CommsPacket} {seen : List Byte}
    {r : Receiving HostLink} (h : HandlerFollows queued seen r) (op : HandlerOp) :
    HandlerFollows queued (seen ++ op.bytes) (handlerOp r op) := by
  cases op with
  | data chunk => exact h.data chunk
  | shift =>
    unfold HandlerOp.bytes handlerOp
    rw [List.append_nil]
    cases packets : r.state.packets with
    | nil => exact h
    | cons packet rest =>
      refine ⟨h.rest, ?_, ?_⟩
      · rw [← h.events]
        exact List.append_nil _
      · rw [← h.fifo, packets]
        unfold Receiving.does
        dsimp only
        rw [Trace.taken_append, List.append_assoc]
        rfl
  | write packet =>
    unfold HandlerOp.bytes handlerOp
    rw [List.append_nil]
    refine ⟨h.rest, ?_, ?_⟩
    · rw [← h.events]
      exact List.append_nil _
    · rw [← h.fifo]
      unfold Receiving.does
      dsimp only
      rw [Trace.taken_append]
      exact congrArg (· ++ r.state.packets) (List.append_nil _)

theorem handlerRun_follows {h : HostLink} (empty : h.rxBuffer = []) (ops : List HandlerOp) :
    HandlerFollows h.packets (ops.flatMap HandlerOp.bytes) (handlerRun h ops) := by
  induction ops using List.reverseRecOn with
  | nil => exact follows_empty empty
  | append_singleton ops op ih =>
    rw [List.flatMap_append, List.flatMap_singleton, handlerRun, Lib.Run.run_concat]
    exact ih.op op

/-! ## What one end serialises -/

/-- A packet whose CRC is the computed one is not taken for a corrupt frame. -/
theorem referenceEvent_intact {packet : CommsPacket}
    (intact : commsCalculateCrc packet = packet.crc) : referenceEvent packet ≠ .corrupt := by
  have check : crc8Compute (packet.bytes.take 17) = packet.crc := packet.take_bytes ▸ intact
  unfold referenceEvent
  dsimp only
  rw [if_neg (not_not.mpr check)]
  split
  · simp
  · split <;> simp

/-- The packets that were serialised are the frames, and none of them is corrupt. -/
theorem referenceEvents_serialised {packets : List CommsPacket}
    (intact : ∀ packet ∈ packets, commsCalculateCrc packet = packet.crc) :
    referenceEvents (packets.flatMap CommsPacket.bytes) = packets.map referenceEvent ∧
      .corrupt ∉ packets.map referenceEvent := by
  refine ⟨by rw [referenceEvents, (framesOf_bytes packets).1], ?_⟩
  intro corrupt
  obtain ⟨packet, sent, event⟩ := List.mem_map.mp corrupt
  exact referenceEvent_intact (intact packet sent) event

/-- `comms_send_packet` puts the packets on the wire one after the other. -/
theorem commsRun_sends (sender : Comms) (packets : List CommsPacket) :
    (commsRun sender (packets.map .send)).trace.sent = packets := by
  induction packets using List.reverseRecOn with
  | nil => rfl
  | append_singleton packets packet ih =>
    rw [List.map_append, List.map_singleton, commsRun, Lib.Run.run_concat, ← commsRun]
    unfold commsOp Receiving.does
    dsimp only
    rw [Trace.sent_append, ih]
    rfl

/-- Data bytes are only stored where there is room for them. -/
theorem Partial.count_lt {c : Comms} {part : List Byte} (h : Partial c part) :
    c.dataByteCount < 16 := by
  have short := h.short
  rw [h.count]
  by_cases few : part.length ≤ 16
  · rw [if_pos few]
    by_cases first : part.length = 0
    · omega
    · omega
  · rw [if_neg few]
    decide

/-- Serialised packets are seen as the frames they are, and the next frame starts
behind them. -/
theorem AtBoundary.serialised {c : Comms} (boundary : AtBoundary c) {packets : List CommsPacket}
    (intact : ∀ packet ∈ packets, commsCalculateCrc packet = packet.crc) {ops : List CommsOp}
    (arrived : ops.flatMap CommsOp.bytes = packets.flatMap CommsPacket.bytes) :
    (commsRun c ops).events = packets.map referenceEvent ∧ .corrupt ∉ (commsRun c ops).events ∧
      AtBoundary (commsRun c ops).state := by
  have follows := commsRun_follows boundary ops
  obtain ⟨events, none⟩ := referenceEvents_serialised intact
  rw [arrived] at follows
  have part := follows.part
  rw [(framesOf_bytes packets).2] at part
  rw [follows.events, events]
  exact ⟨rfl, none, part.state, part.count, follows.indices⟩

/-- From a frame boundary on, for every stream and every way to cut it: both
receivers have the events of the format and keep an unfinished frame, the data
index stays inside the buffer, and the packets accepted are the packets delivered
(the bootloader's queue never being full). What one end serialises is what the
other end sees. -/
theorem one_framing {c : Comms} {h : HostLink} (boundary : AtBoundary c) (empty : h.rxBuffer = []) :
    (∀ (ops : List CommsOp) (ops' : List HandlerOp),
      ops.flatMap CommsOp.bytes = ops'.flatMap HandlerOp.bytes →
        (commsRun c ops).events = (handlerRun h ops').events) ∧
    (∀ ops : List CommsOp,
      (commsRun c ops).events = referenceEvents (ops.flatMap CommsOp.bytes) ∧
        Partial (commsRun c ops).state (tailOf (ops.flatMap CommsOp.bytes)) ∧
        (commsRun c ops).state.dataByteCount < 16 ∧
        (.overrun ∉ (commsRun c ops).trace →
          ((commsRun c ops).trace.taken ++ (commsRun c ops).state.queue).map FrameEvent.ofPacket =
            c.queue.map FrameEvent.ofPacket ++
              (commsRun c ops).events.filter FrameEvent.isPacket)) ∧
    (∀ ops : List HandlerOp,
      (handlerRun h ops).events = referenceEvents (ops.flatMap HandlerOp.bytes) ∧
        (handlerRun h ops).state.rxBuffer = tailOf (ops.flatMap HandlerOp.bytes) ∧
        ((handlerRun h ops).trace.taken ++ (handlerRun h ops).state.packets).map
            FrameEvent.ofPacket =
          h.packets.map FrameEvent.ofPacket ++
            (handlerRun h ops).events.filter FrameEvent.isPacket) ∧
    (∀ (packets : List (Byte × { data : List Byte // data.length ≤ packetDataBytes }))
      (ops : List CommsOp),
      ops.flatMap CommsOp.bytes =
        packets.flatMap (fun p => toBuffer (newPacket p.1 p.2.val none)) →
      (commsRun c ops).events =
          packets.map (fun p => referenceEvent (newPacket p.1 p.2.val none)) ∧
        .corrupt ∉ (commsRun c ops).events ∧ AtBoundary (commsRun c ops).state) ∧
    (∀ (sender : Comms) (packets : List CommsPacket) (ops : List HandlerOp),
      (∀ packet ∈ packets, commsCalculateCrc packet = packet.crc) →
      ops.flatMap HandlerOp.bytes =
        (commsRun sender (packets.map .send)).trace.sent.flatMap CommsPacket.bytes →
      (handlerRun h ops).events = packets.map referenceEvent ∧
        .corrupt ∉ (handlerRun h ops).events ∧ (handlerRun h ops).state.rxBuffer = []) := by
  refine ⟨?_, ?_, ?_, ?_, ?_⟩
  · intro ops ops' same
    rw [(commsRun_follows boundary ops).events, (handlerRun_follows empty ops').events, same]
  · intro ops
    have follows := commsRun_follows boundary ops
    refine ⟨follows.events, follows.part, follows.part.count_lt, ?_⟩
    intro safe
    rw [follows.fifo safe, List.map_append, packetsOf_events, follows.events]
  · intro ops
    have follows := handlerRun_follows empty ops
    refine ⟨follows.events, follows.rest, ?_⟩
    rw [follows.fifo, List.map_append, packetsOf_events, follows.events]
  · intro packets ops arrived
    have made (packet : CommsPacket)
        (h : packet ∈ packets.map fun p => newPacket p.1 p.2.val none) :
        commsCalculateCrc packet = packet.crc := by
      obtain ⟨p, -, rfl⟩ := List.mem_map.mp h
      exact newPacket_crc _ _
    have stream : ops.flatMap CommsOp.bytes =
        (packets.map fun p => newPacket p.1 p.2.val none).flatMap CommsPacket.bytes := by
      rw [arrived, List.flatMap_map]
      simp only [toBuffer_eq]
    obtain ⟨events, intact, between⟩ := boundary.serialised made stream
    refine ⟨?_, intact, between⟩
    rw [events, List.map_map, Function.comp_def]
  · intro sender packets ops intact arrived
    have follows := handlerRun_follows empty ops
    obtain ⟨events, none⟩ := referenceEvents_serialised intact
    rw [arrived, commsRun_sends] at follows
    rw [follows.events, follows.rest, events, (framesOf_bytes packets).2]
    exact ⟨rfl, none, rfl⟩

/-- A retransmission request, a packet and an acknowledgement, cut in different places,
and a byte of the next frame. -/
theorem one_framing_uneven :
    let stream := [retxPacket, .zero, ackPacket].flatMap CommsPacket.bytes ++ [7]
    let seen := commsRun commsInit
      [.update (stream.take 5), .receive, .update ((stream.drop 5).take 30),
        .update (stream.drop 35)]
    seen.events = (handlerRun ⟨[], [], ack⟩ [.data (stream.take 40), .shift,
        .data (stream.drop 40)]).events ∧
      seen.events = [.retx, .packet 0 (Vector.replicate 16 0), .ack] := by
  have boundary : AtBoundary commsInit := ⟨rfl, rfl, queueOk_init⟩
  exact ⟨(one_framing boundary rfl).1 _ _ (by decide +kernel),
    ((one_framing (h := ⟨[], [], ack⟩) boundary rfl).2.1 _).1.trans (by decide +kernel)⟩

end SecureBootloader
