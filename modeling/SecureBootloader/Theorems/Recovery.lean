import SecureBootloader.Link.Endpoints

/-!
# Recovery of a packet under corruption

One end sends a packet and neither application sends anything else. As long as
the sending end reads nothing it answers with a control packet of its own, the
packet has arrived, is on its way or can be asked for. A corrupt frame there is
answered with a RETX, which takes the place of the packet in its slot.
-/

namespace SecureBootloader

open Lib.Resend

/-- The packets a party has stored behind its first `n`. -/
def LinkState.storedSince (s : LinkState) (n : Nat) (party : Party) : List CommsPacket :=
  (s.trace party).stored.drop n

/-- The peer, which had stored `n` packets when the packet was sent, has stored it since, a copy
is in flight, or the slot holds it. -/
def Recoverable (sender : Party) (packet : CommsPacket) (n : Nat) (s : LinkState) : Prop :=
  packet ∈ s.storedSince n sender.peer ∨ (∃ f ∈ s.incoming sender.peer, f.sent = packet) ∨
    s.slot sender = packet

/-- If the step is one in which the sender reads a corrupt frame or a packet, the peer
has stored the packet since it was sent. -/
def Undisturbed (sender : Party) (packet : CommsPacket) (n : Nat) (s : LinkState)
    (e : LinkEvent) : Prop :=
  e = .reads sender → ∀ f ∈ (s.incoming sender).head?,
    frameKind f.wire = .corrupt ∨ frameKind f.wire = .packet →
      packet ∈ s.storedSince n sender.peer

/-- Nothing is in flight. -/
structure LinkState.Idle (s : LinkState) : Prop where
  toBoot : s.toBoot = []
  toHost : s.toHost = []

instance (sender : Party) (packet : CommsPacket) (n : Nat) (s : LinkState) :
    Decidable (Recoverable sender packet n s) :=
  inferInstanceAs (Decidable (_ ∨ _ ∨ _))

section Steps

variable {sender : Party} {packet : CommsPacket} {n : Nat} {s : LinkState}

theorem sendPacket_between (between : s.Between) (sender : Party) (packet : CommsPacket) :
    (s.sendPacket packet sender).Between := by
  cases sender with
  | host => exact ⟨between.comms, between.host⟩
  | bootloader => exact ⟨between.comms.congr rfl rfl rfl, between.host⟩

/-- The link seen from the sender, the peer's record from its `n`-th packet on. -/
def LinkState.netSince (s : LinkState) (n : Nat) (sender : Party) : Net commsCodec :=
  (s.net sender).since n

/-- A packet just sent is in the slot. -/
theorem sendPacket_held (s : LinkState) (n : Nat) (sender : Party) (packet : CommsPacket) :
    ((s.sendPacket packet sender).netSince n sender).Held packet := by
  cases sender with
  | host => exact .inr rfl
  | bootloader => exact .inr rfl

/-- A packet just sent over an idle link is all that is on its way. -/
theorem sendPacket_phase (idle : s.Idle) (n : Nat) (sender : Party) (packet : CommsPacket) :
    Net.Phase packet ((s.sendPacket packet sender).netSince n sender) := by
  cases sender with
  | host =>
    refine .forth (.clean packet) rfl ?_ rfl idle.toHost
    show s.toBoot ++ _ = _
    rw [idle.toBoot]
    rfl
  | bootloader =>
    refine .forth (.clean packet) rfl ?_ rfl idle.toBoot
    show s.toHost ++ _ = _
    rw [idle.toHost]
    rfl

/-- Sending stores nothing at the peer. -/
theorem sendPacket_stored (s : LinkState) (sender : Party) (packet : CommsPacket) :
    ((s.sendPacket packet sender).trace sender.peer).stored = (s.trace sender.peer).stored := by
  cases sender <;> rfl

variable {e : LinkEvent} (between : s.Between)
include between

/-- The peer's record only grows. -/
theorem stored_grows (inside : n ≤ (s.trace sender.peer).stored.length) :
    n ≤ ((linkStep s e).trace sender.peer).stored.length := by
  have net := linkStep_net between sender e
  show n ≤ ((linkStep s e).net sender).receiver.accepted.length
  rw [net]
  refine Lib.Run.run_invariant (P := fun t : Net commsCodec => n ≤ t.receiver.accepted.length)
    (fun t e h => h.trans (Net.step_accepted e).length_le) (s := s.net sender) inside _

/-- What the steps of the abstract link keep, the steps of the link keep. -/
theorem net_step {P : Net commsCodec → Prop} (inside : n ≤ (s.trace sender.peer).stored.length)
    (keep : ∀ {s : Net commsCodec} {e}, P s → s.Undisturbed packet e → P (s.step e))
    (h : P (s.netSince n sender)) (undisturbed : Undisturbed sender packet n s e) :
    P ((linkStep s e).netSince n sender) := by
  have step (e : Event CommsPacket) : ((s.net sender).step e).since n =
      (s.netSince n sender).step e := Net.step_since inside e
  rw [LinkState.netSince, linkStep_net between]
  cases e with
  | reads party =>
    by_cases self : party = sender
    · rw [LinkEvent.net, if_pos self, Lib.Run.run_cons, Lib.Run.run_nil, step]
      exact keep h fun _ => undisturbed (congrArg _ self)
    · rw [LinkEvent.net, if_neg self, Lib.Run.run_cons, Lib.Run.run_nil, step]
      exact keep h fun h => by cases h
  | takes party => exact h
  | damage party i bytes =>
    by_cases self : party = sender
    · rw [LinkEvent.net, if_pos self, Lib.Run.run_cons, Lib.Run.run_nil, step]
      exact keep h fun h => by cases h
    · rw [LinkEvent.net, if_neg self, Lib.Run.run_cons, Lib.Run.run_nil, step]
      exact keep h fun h => by cases h

/-- A disturbed step loses the packet. -/
theorem lost_step (isPacket : frameKind packet = .packet)
    (inside : n ≤ (s.trace sender.peer).stored.length)
    (phase : Net.Phase packet (s.netSince n sender))
    (disturbed : ¬Undisturbed sender packet n s e) :
    ¬Recoverable sender packet n (linkStep s e) := by
  have read : e = .reads sender := by
    by_contra other
    exact disturbed fun h => absurd h other
  subst read
  have lost := phase.disturbed isPacket (e := .senderReads) fun undisturbed =>
    disturbed fun _ => undisturbed rfl
  show ¬((linkStep s (.reads sender)).netSince n sender).Recoverable packet
  rw [LinkState.netSince, linkStep_net between, LinkEvent.net, if_pos rfl, Lib.Run.run_cons,
    Lib.Run.run_nil, Net.step_since inside]
  exact lost

end Steps

/-- Whoever sends a packet, whatever is in flight then and whatever has been stored before: in
every run after it the packet stays recoverable if the sender reads no corrupt frame and no
packet before the peer has stored it, and over an idle link only if. -/
theorem recoverable_iff (sender : Party) (packet : CommsPacket)
    (isPacket : frameKind packet = .packet) (s : LinkState) (between : s.Between)
    (es : List LinkEvent) :
    let n := (s.trace sender.peer).stored.length
    (Lib.Run.Meets linkStep (Undisturbed sender packet n) (s.sendPacket packet sender) es →
      ∀ es', es' <+: es →
        Recoverable sender packet n (Lib.Run.run linkStep (s.sendPacket packet sender) es')) ∧
    (s.Idle →
      (∀ es', es' <+: es →
        Recoverable sender packet n (Lib.Run.run linkStep (s.sendPacket packet sender) es')) →
      Lib.Run.Meets linkStep (Undisturbed sender packet n) (s.sendPacket packet sender) es) := by
  intro n
  have sent := sendPacket_between between sender packet
  have inside : n ≤ ((s.sendPacket packet sender).trace sender.peer).stored.length :=
    Nat.le_of_eq (congrArg List.length (sendPacket_stored s sender packet).symm)
  constructor
  · intro meets es' hprefix
    have kept := Lib.Run.run_invariant_of_meets
      (P := fun s : LinkState => s.Between ∧ n ≤ (s.trace sender.peer).stored.length ∧
        (s.netSince n sender).Held packet)
      (fun s e h undisturbed => ⟨between_step h.1 e, stored_grows h.1 h.2.1,
        net_step h.1 h.2.1 Net.Held.step h.2.2 undisturbed⟩)
      ⟨sent, inside, sendPacket_held s n sender packet⟩ (meets.of_prefix hprefix)
    exact kept.2.2.recoverable
  · intro idle
    refine (Lib.Run.meets_iff_always
      (I := fun s : LinkState => s.Between ∧ n ≤ (s.trace sender.peer).stored.length ∧
        Net.Phase packet (s.netSince n sender))
      (?_) (fun s h => h.2.2.held.recoverable)
      (?_) ⟨sent, inside, sendPacket_phase idle n sender packet⟩ es).mp
    · intro s e h undisturbed
      exact ⟨between_step h.1 e, stored_grows h.1 h.2.1,
        net_step h.1 h.2.1 (fun phase => phase.step isPacket) h.2.2 undisturbed⟩
    · intro s e h disturbed
      exact lost_step h.1 isPacket h.2.1 h.2.2 disturbed

/-! ## A packet that is lost -/

/-- Both ends as they start. -/
def idleLink : LinkState where
  comms := commsInit
  bootTrace := []
  host := ⟨[], [], Updater.ack⟩
  hostTrace := []
  toBoot := []
  toHost := []

/-- FW_UPDATE_REQ. -/
def updateRequest : CommsPacket := commsCreateSingleBytePacket blPacketFwUpdateReqData0

/-- The packet is damaged on its way, and so is the RETX that asks for it. -/
def lossEvents (sender : Party) : List LinkEvent :=
  [.damage sender.peer 0 noise, .reads sender.peer, .damage sender 0 noise, .reads sender]

theorem updateRequest_lost :
    ¬Recoverable .host updateRequest 0
      (Lib.Run.run linkStep (idleLink.sendPacket updateRequest .host) (lossEvents .host)) ∧
    ¬Recoverable .bootloader updateRequest 0 (Lib.Run.run linkStep
      (idleLink.sendPacket updateRequest .bootloader) (lossEvents .bootloader)) := by
  decide +kernel

/-- The packet is damaged, and the sender reads the RETX as it was sent. -/
def recoveryEvents : List LinkEvent :=
  [.damage .bootloader 0 noise, .reads .bootloader, .reads .host]

theorem recoverable_iff_updateRequest :
    Recoverable .host updateRequest 0
      (Lib.Run.run linkStep (idleLink.sendPacket updateRequest .host) recoveryEvents) :=
  (recoverable_iff .host updateRequest (by decide +kernel) idleLink ⟨partial_init, rfl⟩
    recoveryEvents).1 ⟨nofun, nofun, fun _ => by decide +kernel, trivial⟩ recoveryEvents
    (List.prefix_refl _)

end SecureBootloader
