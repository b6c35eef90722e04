import SecureBootloader.Updater.Receive

/-!
# The two link layers and the wire between them

`comms.c` at one end, the receive handler of `index.ts` at the other, and a
channel in each direction that keeps the order of the frames and loses none of
them, but may damage any of them in a way the CRC shows. A frame is read as a
whole: until its last byte is there neither end does anything with it.
-/

namespace SecureBootloader

/-- A packet on the wire. -/
abbrev Frame := Lib.Resend.Flight commsCodec

/-- Bytes that fail the CRC check. -/
def noise : CommsPacket := { CommsPacket.zero with crc := 1 }

/-- The two ends of the link. -/
inductive Party where
  | host
  | bootloader
  deriving DecidableEq, Repr

def Party.peer : Party → Party
  | .host => .bootloader
  | .bootloader => .host

/-- The state of both link layers, what they have done, and the frames in flight. -/
structure LinkState where
  comms : Comms
  bootTrace : Trace
  host : Updater.HostLink
  hostTrace : Trace
  toBoot : List Frame
  toHost : List Frame

namespace LinkState

/-- The frames on their way to a party. -/
def incoming (s : LinkState) : Party → List Frame
  | .host => s.toHost
  | .bootloader => s.toBoot

/-- What the link layer of a party has done. -/
def trace (s : LinkState) : Party → Trace
  | .host => s.hostTrace
  | .bootloader => s.bootTrace

/-- `lastPacket` and `last_transmitted_packet`. -/
def slot (s : LinkState) : Party → CommsPacket
  | .host => s.host.lastPacket
  | .bootloader => s.comms.lastTransmittedPacket

/-- What the host did goes on record, what it sent goes on the wire. -/
def hostDoes (s : LinkState) (r : Updater.HostLink × Trace) : LinkState :=
  { s with
    host := r.1
    hostTrace := s.hostTrace ++ r.2
    toBoot := s.toBoot ++ r.2.sent.map .clean }

/-- What the bootloader did goes on record, what it sent goes on the wire. -/
def bootDoes (s : LinkState) (r : Comms × Trace) : LinkState :=
  { s with
    comms := r.1
    bootTrace := s.bootTrace ++ r.2
    toHost := s.toHost ++ r.2.sent.map .clean }

/-- The application of a party sends a packet. -/
def sendPacket (s : LinkState) (packet : CommsPacket) : Party → LinkState
  | .host => s.hostDoes (Updater.writePacket s.host packet)
  | .bootloader => s.bootDoes (commsSendPacket s.comms packet)

/-- The next frame reaches a party. -/
def reads (s : LinkState) : Party → LinkState
  | .host =>
    match s.toHost with
    | [] => s
    | f :: toHost => { s with toHost := toHost }.hostDoes (Updater.onData s.host f.wire.bytes)
  | .bootloader =>
    match s.toBoot with
    | [] => s
    | f :: toBoot => { s with toBoot := toBoot }.bootDoes (commsUpdateBytes s.comms f.wire.bytes)

/-- The application of a party takes a packet from its queue. -/
def takes (s : LinkState) : Party → LinkState
  | .host =>
    match s.host.packets with
    | [] => s
    | packet :: packets => s.hostDoes ({ s.host with packets := packets }, [.taken packet])
  | .bootloader =>
    if commsPacketAvailable s.comms then s.bootDoes (commsReceivePacket s.comms).2 else s

/-- Damage to the frame at place `i` on its way to a party. -/
def damage (s : LinkState) (i : Nat) (bytes : CommsPacket) : Party → LinkState
  | .host => { s with toHost := s.toHost.modify i (.damage bytes) }
  | .bootloader => { s with toBoot := s.toBoot.modify i (.damage bytes) }

end LinkState

/-- What can happen on the link while no application sends. -/
inductive LinkEvent where
  | reads (party : Party)
  | takes (party : Party)
  | damage (party : Party) (i : Nat) (bytes : CommsPacket)

def linkStep (s : LinkState) : LinkEvent → LinkState
  | .reads party => s.reads party
  | .takes party => s.takes party
  | .damage party i bytes => s.damage i bytes party

/-! ## Both link layers resend on request -/

open Lib.Resend

/-- The state of the abstract link layer. -/
def LinkState.endpoint (s : LinkState) (party : Party) : Endpoint CommsPacket :=
  ⟨s.slot party, (s.trace party).stored⟩

/-- Nothing stored, nothing accepted. -/
theorem accepted_nothing (last : CommsPacket) (accepted replies : List CommsPacket) :
    ((⟨last, accepted⟩, replies) : Endpoint CommsPacket × List CommsPacket) =
      (⟨last, accepted ++ []⟩, replies) := by
  rw [List.append_nil]

/-- `comms_update` does with a frame what the abstract link layer does. -/
theorem commsUpdateBytes_receive {c : Comms} (h : Partial c []) (t : Trace)
    (packet : CommsPacket) :
    receive commsCodec ⟨c.lastTransmittedPacket, t.stored⟩ packet =
      (⟨(commsUpdateBytes c packet.bytes).1.lastTransmittedPacket,
        (t ++ (commsUpdateBytes c packet.bytes).2).stored⟩,
        (commsUpdateBytes c packet.bytes).2.sent) := by
  obtain ⟨-, c', -, last, rfl, updated⟩ := h.frame packet
  have kind : commsCodec.kind c'.currentTempPacket = frameKind c'.currentTempPacket := rfl
  rw [updated, commsHandlePacket_eq, receive, kind, ← last, Trace.stored_append]
  cases frameKind c'.currentTempPacket with
  | corrupt => exact accepted_nothing retxPacket t.stored [retxPacket]
  | retx =>
    exact accepted_nothing c'.lastTransmittedPacket t.stored [c'.lastTransmittedPacket]
  | ack => exact accepted_nothing c'.lastTransmittedPacket t.stored []
  | packet =>
    have stored : (commsStorePacket c').2.stored = [c'.currentTempPacket] ∧
        (commsStorePacket c').2.sent = [ackPacket] := by
      rw [commsStorePacket_trace]
      split <;> exact ⟨rfl, rfl⟩
    dsimp only
    rw [stored.1, stored.2]
    rfl

/-- The receive handler does with a frame what the abstract link layer does. -/
theorem onData_receive {h : Updater.HostLink} (empty : h.rxBuffer = []) (t : Trace)
    (packet : CommsPacket) :
    receive commsCodec ⟨h.lastPacket, t.stored⟩ packet =
      (⟨(Updater.onData h packet.bytes).1.lastPacket,
        (t ++ (Updater.onData h packet.bytes).2).stored⟩,
        (Updater.onData h packet.bytes).2.sent) := by
  have kind : commsCodec.kind packet = frameKind packet := rfl
  rw [Updater.onData_frame empty, Updater.handlePacket_eq, receive, kind, Trace.stored_append]
  cases frameKind packet with
  | corrupt => exact accepted_nothing retxPacket t.stored [retxPacket]
  | retx => exact accepted_nothing h.lastPacket t.stored [h.lastPacket]
  | ack => exact accepted_nothing h.lastPacket t.stored []
  | packet => rfl

namespace LinkState

/-- No frame is half read. -/
structure Between (s : LinkState) : Prop where
  comms : Partial s.comms []
  host : s.host.rxBuffer = []

/-- The link seen from a sender. -/
def net (s : LinkState) (sender : Party) : Net commsCodec where
  sender := s.endpoint sender
  receiver := s.endpoint sender.peer
  forward := s.incoming sender.peer
  backward := s.incoming sender

end LinkState

/-- What an event is to the sender; taking packets is no event of the link. -/
def LinkEvent.net (sender : Party) : LinkEvent → List (Event CommsPacket)
  | .reads party => if party = sender then [.senderReads] else [.receiverReads]
  | .takes _ => []
  | .damage party i bytes =>
    if party = sender then [.damageBackward i bytes] else [.damageForward i bytes]

theorem between_step {s : LinkState} (h : s.Between) (e : LinkEvent) :
    (linkStep s e).Between := by
  cases e with
  | reads party =>
    cases party with
    | host =>
      show (s.reads .host).Between
      unfold LinkState.reads
      cases s.toHost with
      | nil => exact h
      | cons f toHost =>
        refine ⟨h.comms, ?_⟩
        show (Updater.onData s.host f.wire.bytes).1.rxBuffer = []
        rw [Updater.onData_frame h.host, Updater.handlePacket_keeps, h.host]
    | bootloader =>
      show (s.reads .bootloader).Between
      unfold LinkState.reads
      cases s.toBoot with
      | nil => exact h
      | cons f toBoot => exact ⟨(h.comms.frame f.wire).1, h.host⟩
  | takes party =>
    cases party with
    | host =>
      show (s.takes .host).Between
      unfold LinkState.takes
      cases s.host.packets with
      | nil => exact h
      | cons packet packets => exact ⟨h.comms, h.host⟩
    | bootloader =>
      show (s.takes .bootloader).Between
      unfold LinkState.takes
      by_cases available : commsPacketAvailable s.comms = true
      · rw [if_pos available]
        exact ⟨h.comms.congr rfl rfl rfl, h.host⟩
      · rw [if_neg available]
        exact h
  | damage party i bytes => cases party <;> exact ⟨h.comms, h.host⟩

section Refines

variable {s : LinkState} (h : s.Between)
include h

omit h in
theorem reads_nil {party : Party} (none : s.incoming party = []) : s.reads party = s := by
  cases party with
  | host =>
    change s.toHost = [] at none
    rw [LinkState.reads, none]
  | bootloader =>
    change s.toBoot = [] at none
    rw [LinkState.reads, none]

/-- Reading a frame, seen from the party that reads and from its peer. -/
theorem reads_cons {party : Party} {f : Frame} {frames : List Frame}
    (some : s.incoming party = f :: frames) :
    (s.reads party).endpoint party = (receive commsCodec (s.endpoint party) f.wire).1 ∧
      (s.reads party).incoming party = frames ∧
      (s.reads party).endpoint party.peer = s.endpoint party.peer ∧
      (s.reads party).incoming party.peer = s.incoming party.peer ++
        (receive commsCodec (s.endpoint party) f.wire).2.map .clean := by
  cases party with
  | host =>
    have received := onData_receive h.host s.hostTrace f.wire
    have read : s.reads .host =
        { s with toHost := frames }.hostDoes (Updater.onData s.host f.wire.bytes) := by
      rw [LinkState.reads, show s.toHost = f :: frames from some]
    rw [read, show s.endpoint .host = ⟨s.host.lastPacket, s.hostTrace.stored⟩ from rfl, received]
    exact ⟨rfl, rfl, rfl, rfl⟩
  | bootloader =>
    have received := commsUpdateBytes_receive h.comms s.bootTrace f.wire
    have read : s.reads .bootloader =
        { s with toBoot := frames }.bootDoes (commsUpdateBytes s.comms f.wire.bytes) := by
      rw [LinkState.reads, show s.toBoot = f :: frames from some]
    rw [read, show s.endpoint .bootloader =
      ⟨s.comms.lastTransmittedPacket, s.bootTrace.stored⟩ from rfl, received]
    exact ⟨rfl, rfl, rfl, rfl⟩

theorem reads_sender (sender : Party) :
    (s.reads sender).net sender = (s.net sender).step .senderReads := by
  cases incoming : s.incoming sender with
  | nil => rw [reads_nil incoming, Net.step_senderReads_nil incoming]
  | cons f frames =>
    obtain ⟨self, rest, other, replies⟩ := reads_cons h incoming
    rw [Net.step_senderReads incoming, LinkState.net, self, rest, other, replies]
    rfl

theorem reads_receiver {sender party : Party} (other : party ≠ sender) :
    (s.reads party).net sender = (s.net sender).step .receiverReads := by
  obtain rfl : party = sender.peer := by
    cases party <;> cases sender <;> first | rfl | exact absurd rfl other
  have back : sender.peer.peer = sender := by cases sender <;> rfl
  cases incoming : s.incoming sender.peer with
  | nil => rw [reads_nil incoming, Net.step_receiverReads_nil incoming]
  | cons f frames =>
    obtain ⟨self, rest, sent, replies⟩ := reads_cons h incoming
    rw [back] at sent replies
    rw [Net.step_receiverReads incoming, LinkState.net, self, rest, sent, replies]
    rfl

omit h in
/-- Taking a packet is nothing to the link. -/
theorem takes_net (party sender : Party) : (s.takes party).net sender = s.net sender := by
  have same : (s.takes party).endpoint = s.endpoint ∧ (s.takes party).incoming = s.incoming := by
    cases party with
    | host =>
      unfold LinkState.takes
      cases s.host.packets with
      | nil => exact ⟨rfl, rfl⟩
      | cons packet packets =>
        constructor
        · funext party
          cases party with
          | host =>
            show (⟨s.host.lastPacket, (s.hostTrace ++ [Obs.taken packet]).stored⟩ : Endpoint _) = _
            rw [Trace.stored_append]
            exact congrArg (Endpoint.mk _) (List.append_nil _)
          | bootloader => rfl
        · funext party
          cases party with
          | host => rfl
          | bootloader => exact List.append_nil _
    | bootloader =>
      unfold LinkState.takes
      by_cases available : commsPacketAvailable s.comms = true
      · rw [if_pos available]
        constructor
        · funext party
          cases party with
          | host => rfl
          | bootloader =>
            show (⟨s.comms.lastTransmittedPacket,
              (s.bootTrace ++ (commsReceivePacket s.comms).2.2).stored⟩ : Endpoint _) = _
            rw [Trace.stored_append, commsReceivePacket_trace available]
            exact congrArg (Endpoint.mk _) (List.append_nil _)
        · funext party
          cases party with
          | host =>
            show s.toHost ++ ((commsReceivePacket s.comms).2.2).sent.map _ = _
            rw [commsReceivePacket_trace available]
            exact List.append_nil _
          | bootloader => rfl
      · rw [if_neg available]
        exact ⟨rfl, rfl⟩
  rw [LinkState.net, same.1, same.2]
  rfl

/-- The link of the repository refines the abstract one. -/
theorem linkStep_net (sender : Party) (e : LinkEvent) :
    (linkStep s e).net sender = Lib.Run.run Net.step (s.net sender) (e.net sender) := by
  cases e with
  | reads party =>
    by_cases self : party = sender
    · rw [LinkEvent.net, if_pos self, self]
      exact reads_sender h sender
    · rw [LinkEvent.net, if_neg self]
      exact reads_receiver h self
  | takes party => exact takes_net party sender
  | damage party i bytes => cases party <;> cases sender <;> rfl

end Refines

end SecureBootloader
