import SecureBootloader.Lib.Run

/-!
# Resend on request

A link layer with one slot: an endpoint remembers the message it sent last,
answers a damaged message with a request to resend and such a request with the
remembered message, requests and acknowledgements included. A message that was
sent is recovered as long as its sender reads nothing it answers with a control
message of its own.
-/

namespace Lib.Resend

/-- What a receiver takes a message for. -/
inductive Kind where
  | corrupt
  | retx
  | ack
  | packet
  deriving DecidableEq, Repr

/-- How messages are told apart, and the two control messages. -/
structure Codec (M : Type*) where
  kind : M → Kind
  retx : M
  ack : M
  kind_retx : kind retx = .retx

/-- One end of the link: the slot, and the packets accepted so far. -/
structure Endpoint (M : Type*) where
  last : M
  accepted : List M

variable {M : Type*} (codec : Codec M)

/-- A message is read: the endpoint after it, and what it sends. -/
def receive (e : Endpoint M) (m : M) : Endpoint M × List M :=
  match codec.kind m with
  -- the request to resend is remembered like any other message
  | .corrupt => ({ e with last := codec.retx }, [codec.retx])
  | .retx => (e, [e.last])
  | .ack => (e, [])
  | .packet => (⟨codec.ack, e.accepted ++ [m]⟩, [codec.ack])

/-- A message in flight: what was sent and what is on the wire, the same or
visibly damaged. -/
structure Flight where
  sent : M
  wire : M
  sound : wire = sent ∨ codec.kind wire = .corrupt

variable {codec}

namespace Flight

def clean (m : M) : Flight codec := ⟨m, m, .inl rfl⟩

/-- Damage replaces what is on the wire by something no receiver accepts. -/
def damage (m : M) (f : Flight codec) : Flight codec :=
  if h : codec.kind m = .corrupt then ⟨f.sent, m, .inr h⟩ else f

@[simp] theorem damage_sent (m : M) (f : Flight codec) : (f.damage m).sent = f.sent := by
  unfold damage
  split <;> rfl

end Flight

variable (codec) in
/-- Two endpoints and the two channels between them. -/
structure Net where
  sender : Endpoint M
  receiver : Endpoint M
  forward : List (Flight codec)
  backward : List (Flight codec)

/-- What can happen: an endpoint reads a message, or a message is damaged. -/
inductive Event (M : Type*) where
  | senderReads
  | receiverReads
  | damageForward (i : Nat) (m : M)
  | damageBackward (i : Nat) (m : M)

namespace Net

def step (s : Net codec) : Event M → Net codec
  | .senderReads =>
    match s.backward with
    | [] => s
    | f :: backward =>
      let (sender, replies) := receive codec s.sender f.wire
      { s with
        sender := sender
        forward := s.forward ++ replies.map .clean
        backward := backward }
  | .receiverReads =>
    match s.forward with
    | [] => s
    | f :: forward =>
      let (receiver, replies) := receive codec s.receiver f.wire
      { s with
        receiver := receiver
        forward := forward
        backward := s.backward ++ replies.map .clean }
  | .damageForward i m => { s with forward := s.forward.modify i (Flight.damage m) }
  | .damageBackward i m => { s with backward := s.backward.modify i (Flight.damage m) }

variable {s : Net codec} {f : Flight codec} {flights : List (Flight codec)}

theorem step_senderReads (backward : s.backward = f :: flights) : s.step .senderReads =
    { s with
      sender := (receive codec s.sender f.wire).1
      forward := s.forward ++ (receive codec s.sender f.wire).2.map .clean
      backward := flights } := by
  rw [step, backward]

theorem step_receiverReads (forward : s.forward = f :: flights) : s.step .receiverReads =
    { s with
      receiver := (receive codec s.receiver f.wire).1
      forward := flights
      backward := s.backward ++ (receive codec s.receiver f.wire).2.map .clean } := by
  rw [step, forward]

theorem step_senderReads_nil (backward : s.backward = []) : s.step .senderReads = s := by
  rw [step, backward]

theorem step_receiverReads_nil (forward : s.forward = []) : s.step .receiverReads = s := by
  rw [step, forward]

/-- The link with what the receiver accepted behind its first `n` packets. -/
def since (n : Nat) (s : Net codec) : Net codec :=
  { s with receiver := ⟨s.receiver.last, s.receiver.accepted.drop n⟩ }

theorem receive_since {n : Nat} {e : Endpoint M} (inside : n ≤ e.accepted.length) (m : M) :
    receive codec ⟨e.last, e.accepted.drop n⟩ m =
      (⟨(receive codec e m).1.last, (receive codec e m).1.accepted.drop n⟩,
        (receive codec e m).2) := by
  unfold receive
  split
  · rfl
  · rfl
  · rfl
  · dsimp only
    rw [List.drop_append_of_le_length inside]

/-- What was accepted before plays no part. -/
theorem step_since {n : Nat} (inside : n ≤ s.receiver.accepted.length) (e : Event M) :
    (s.step e).since n = (s.since n).step e := by
  cases e with
  | senderReads =>
    cases backward : s.backward with
    | nil => rw [step_senderReads_nil backward, step_senderReads_nil (s := s.since n) backward]
    | cons f flights =>
      rw [step_senderReads backward, step_senderReads (s := s.since n) backward]
      rfl
  | receiverReads =>
    cases forward : s.forward with
    | nil => rw [step_receiverReads_nil forward, step_receiverReads_nil (s := s.since n) forward]
    | cons f flights =>
      rw [step_receiverReads forward, step_receiverReads (s := s.since n) forward]
      have received : receive codec ⟨s.receiver.last, s.receiver.accepted.drop n⟩ f.wire = _ :=
        receive_since inside f.wire
      show Net.mk _ _ _ _ = Net.mk _ (receive codec ⟨_, s.receiver.accepted.drop n⟩ _).1 _
        (_ ++ (receive codec ⟨_, s.receiver.accepted.drop n⟩ _).2.map _)
      rw [received]
      rfl
  | damageForward i m => rfl
  | damageBackward i m => rfl

/-- `packet` has arrived, is on its way, or can still be asked for. -/
def Recoverable (packet : M) (s : Net codec) : Prop :=
  packet ∈ s.receiver.accepted ∨ (∃ f ∈ s.forward, f.sent = packet) ∨ s.sender.last = packet

/-- Before `packet` has arrived the sender reads nothing damaged and no packet, which
it would answer with a control message of its own. -/
def Undisturbed (packet : M) (s : Net codec) (e : Event M) : Prop :=
  e = .senderReads → ∀ f ∈ s.backward.head?,
    codec.kind f.wire = .corrupt ∨ codec.kind f.wire = .packet → packet ∈ s.receiver.accepted

/-- `packet` has arrived, or the slot holds it. -/
def Held (packet : M) (s : Net codec) : Prop :=
  packet ∈ s.receiver.accepted ∨ s.sender.last = packet

/-- Until `packet` arrives a single message goes back and forth: the packet, or a
request for it. -/
inductive Phase (packet : M) (s : Net codec) : Prop
  | accepted (h : packet ∈ s.receiver.accepted)
  | forth (f : Flight codec) (last : s.sender.last = packet) (forward : s.forward = [f])
      (sent : f.sent = packet) (backward : s.backward = [])
  | back (f : Flight codec) (last : s.sender.last = packet) (forward : s.forward = [])
      (backward : s.backward = [f]) (sent : f.sent = codec.retx)

variable {packet : M}

theorem Held.recoverable (h : s.Held packet) : s.Recoverable packet :=
  h.imp_right .inr

theorem Phase.held (h : Phase packet s) : s.Held packet := by
  cases h with
  | accepted h => exact .inl h
  | forth f last forward sent backward => exact .inr last
  | back f last forward backward sent => exact .inr last

/-- An endpoint never forgets a packet. -/
theorem receive_accepted (e : Endpoint M) (m : M) :
    e.accepted <+: (receive codec e m).1.accepted := by
  unfold receive
  split
  · exact List.prefix_refl _
  · exact List.prefix_refl _
  · exact List.prefix_refl _
  · exact List.prefix_append _ _

theorem step_accepted (e : Event M) : s.receiver.accepted <+: (s.step e).receiver.accepted := by
  cases e with
  | senderReads =>
    cases backward : s.backward with
    | nil => rw [step_senderReads_nil backward]
    | cons f flights => rw [step_senderReads backward]
  | receiverReads =>
    cases forward : s.forward with
    | nil => rw [step_receiverReads_nil forward]
    | cons f flights =>
      rw [step_receiverReads forward]
      exact receive_accepted _ _
  | damageForward i m => exact List.prefix_refl _
  | damageBackward i m => exact List.prefix_refl _

/-- Only damage and packets take the place of what the slot holds. -/
theorem receive_last (e : Endpoint M) {m : M}
    (h : ¬(codec.kind m = .corrupt ∨ codec.kind m = .packet)) :
    (receive codec e m).1.last = e.last := by
  rw [not_or] at h
  unfold receive
  cases kind : codec.kind m with
  | corrupt => exact absurd kind h.1
  | retx => rfl
  | ack => rfl
  | packet => exact absurd kind h.2

/-- An undisturbed step leaves the packet in the slot until it has arrived. -/
theorem Held.step {e : Event M} (h : s.Held packet) (undisturbed : s.Undisturbed packet e) :
    (s.step e).Held packet := by
  rcases h with arrived | last
  · exact .inl ((step_accepted e).subset arrived)
  · cases e with
    | senderReads =>
      cases backward : s.backward with
      | nil =>
        rw [step_senderReads_nil backward]
        exact .inr last
      | cons f flights =>
        have head : f ∈ s.backward.head? := by
          rw [backward]
          rfl
        by_cases answered : codec.kind f.wire = .corrupt ∨ codec.kind f.wire = .packet
        · exact .inl ((step_accepted _).subset (undisturbed rfl f head answered))
        · rw [step_senderReads backward]
          exact .inr ((receive_last s.sender answered).trans last)
    | receiverReads =>
      cases forward : s.forward with
      | nil =>
        rw [step_receiverReads_nil forward]
        exact .inr last
      | cons f flights =>
        rw [step_receiverReads forward]
        exact .inr last
    | damageForward i m => exact .inr last
    | damageBackward i m => exact .inr last

/-- What a clean or damaged flight is taken for. -/
theorem kind_wire {f : Flight codec} (intact : codec.kind f.wire ≠ .corrupt) : f.wire = f.sent :=
  f.sound.resolve_right intact

theorem modify_singleton (f : Flight codec) (i : Nat) (m : M) :
    ∃ f', [f].modify i (Flight.damage m) = [f'] ∧ f'.sent = f.sent := by
  cases i with
  | zero => exact ⟨f.damage m, rfl, Flight.damage_sent m f⟩
  | succ i => exact ⟨f, by simp, rfl⟩

section Step

variable (isPacket : codec.kind packet = .packet)
include isPacket

/-- The receiver reads the packet, or asks for it again. -/
theorem Phase.receiverReads {f : Flight codec} (last : s.sender.last = packet)
    (forward : s.forward = [f]) (sent : f.sent = packet) (backward : s.backward = []) :
    Phase packet (s.step .receiverReads) := by
  rw [step_receiverReads forward]
  by_cases damaged : codec.kind f.wire = .corrupt
  · refine .back (.clean codec.retx) last rfl ?_ rfl
    show s.backward ++ (receive codec s.receiver f.wire).2.map _ = _
    rw [backward, receive, damaged]
    rfl
  · refine .accepted ?_
    show packet ∈ (receive codec s.receiver f.wire).1.accepted
    rw [kind_wire damaged, sent, receive, isPacket]
    exact List.mem_append_right _ (List.mem_singleton_self packet)

omit isPacket in
/-- The sender reads an intact request and sends the packet again. -/
theorem Phase.senderReads {f : Flight codec} (last : s.sender.last = packet)
    (forward : s.forward = []) (backward : s.backward = [f]) (sent : f.sent = codec.retx)
    (intact : codec.kind f.wire ≠ .corrupt) : Phase packet (s.step .senderReads) := by
  have answer : receive codec s.sender f.wire = (s.sender, [packet]) := by
    rw [kind_wire intact, sent, receive, codec.kind_retx, last]
  rw [step_senderReads backward, answer, forward]
  exact .forth (.clean packet) last rfl rfl rfl

theorem Phase.step {e : Event M} (h : Phase packet s) (undisturbed : s.Undisturbed packet e) :
    Phase packet (s.step e) := by
  cases h with
  | accepted h => exact .accepted ((step_accepted e).subset h)
  | forth f last forward sent backward =>
    cases e with
    | senderReads =>
      rw [step_senderReads_nil backward]
      exact .forth f last forward sent backward
    | receiverReads => exact .receiverReads isPacket last forward sent backward
    | damageForward i m =>
      obtain ⟨f', modified, same⟩ := modify_singleton f i m
      refine .forth f' last ?_ (same.trans sent) backward
      show s.forward.modify i (Flight.damage m) = [f']
      rw [forward, modified]
    | damageBackward i m =>
      refine .forth f last forward sent ?_
      show s.backward.modify i (Flight.damage m) = []
      rw [backward, List.modify_nil]
  | back f last forward backward sent =>
    cases e with
    | senderReads =>
      by_cases damaged : codec.kind f.wire = .corrupt
      · have head : f ∈ s.backward.head? := by
          rw [backward]
          rfl
        exact .accepted ((step_accepted _).subset (undisturbed rfl f head (.inl damaged)))
      · exact .senderReads last forward backward sent damaged
    | receiverReads =>
      rw [step_receiverReads_nil forward]
      exact .back f last forward backward sent
    | damageForward i m =>
      refine .back f last ?_ backward sent
      show s.forward.modify i (Flight.damage m) = []
      rw [forward, List.modify_nil]
    | damageBackward i m =>
      obtain ⟨f', modified, same⟩ := modify_singleton f i m
      refine .back f' last forward ?_ (same.trans sent)
      show s.backward.modify i (Flight.damage m) = [f']
      rw [backward, modified]

/-- A damaged request takes the place of the packet in the sender's slot. -/
theorem Phase.disturbed {e : Event M} (h : Phase packet s)
    (disturbed : ¬s.Undisturbed packet e) : ¬(s.step e).Recoverable packet := by
  simp only [Undisturbed, Classical.not_imp, not_forall] at disturbed
  obtain ⟨rfl, f, head, answered, missing⟩ := disturbed
  cases h with
  | accepted h => exact absurd h missing
  | forth g last forward sent backward =>
    rw [backward] at head
    cases head
  | back g last forward backward sent =>
    rw [backward] at head
    obtain rfl : g = f := Option.some.inj head
    have damaged : codec.kind g.wire = .corrupt := by
      refine g.sound.elim (?_) id
      intro intact
      rw [intact, sent, codec.kind_retx] at answered
      rcases answered with h | h <;> cases h
    have answer : receive codec s.sender g.wire =
        ({ s.sender with last := codec.retx }, [codec.retx]) := by
      rw [receive, damaged]
    have other : codec.retx ≠ packet := fun same => by
      rw [← same, codec.kind_retx] at isPacket
      cases isPacket
    rw [step_senderReads backward, answer, forward]
    rintro (arrived | ⟨f, member, sent⟩ | last)
    · exact missing arrived
    · obtain rfl := List.mem_singleton.mp member
      exact other sent
    · exact other last

end Step

end Net

end Lib.Resend
