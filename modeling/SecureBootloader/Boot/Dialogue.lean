import SecureBootloader.Boot.Since
import SecureBootloader.Boot.VerdictInv

/-!
# The bootloader's part of an update

From the moment it waits for the update request the bootloader speaks in turn: what
it may have said by then is bounded by the number of packets it has taken, a packet
said again on a RETX apart. It says one verdict, as its last word, and UPDATE_SUCCESSFUL
only of a flash that the validator accepts.
-/

namespace SecureBootloader

/-! ## What the bootloader says -/

/-- A packet that the other end queues, and not the verdict. -/
def Spoken (packet : CommsPacket) : Bool :=
  frameKind packet = .packet ∧ ¬IsVerdict packet

/-- The packets that may have been said once `taken` packets are taken. -/
def turnsAfter (taken : Nat) : Nat :=
  if taken = 0 then 0 else if taken = 1 then 2 else taken + 1

/-- The packets a state says before it takes the next one. -/
def BlState.owes : BlState → Nat
  | .deviceIdReq | .fwLengthReq | .eraseApplication => 1
  | _ => 0

/-- How many packets have been taken in a state. -/
def BlState.TakenSoFar (state : BlState) (taken : Nat) : Prop :=
  match state with
  | .sync | .done => True
  | .waitForFwUpdateReq => taken = 0
  | .deviceIdReq | .deviceIdRes => taken = 1
  | .fwLengthReq | .fwLengthRes => taken = 2
  | .eraseApplication => taken = 3
  | .receiveFw => 3 ≤ taken

/-- The RETX frames among some bytes. -/
def retxFrames (bytes : List Byte) : Nat :=
  (framesOf bytes).countP fun packet => frameKind packet = .retx

theorem frameKind_single {byte : Byte}
    (word : byte ≠ packetAckData0 ∧ byte ≠ packetRetxData0) :
    frameKind (commsCreateSingleBytePacket byte) = .packet := by
  have intact : commsCalculateCrc (commsCreateSingleBytePacket byte) =
      (commsCreateSingleBytePacket byte).crc := rfl
  have single (other : Byte) (ne : byte ≠ other) :
      commsIsSingleBytePacket (commsCreateSingleBytePacket byte) other = false := by
    rw [Bool.eq_false_iff, ne_eq, commsIsSingleBytePacket_iff]
    intro same
    injection same with _ data
    injection data with first
    exact ne first
  rw [frameKind, if_pos intact, single _ word.2, single _ word.1]
  rfl

theorem updateSuccessful_not_said {byte : Byte} (other : byte ≠ blPacketUpdateSuccessfulData0) :
    updateSuccessful ∉ [commsCreateSingleBytePacket byte] := fun said =>
  other (commsCreateSingleBytePacket_injective (List.mem_singleton.mp said)).symm

theorem turnsAfter_succ (taken : Nat) : turnsAfter taken + 1 ≤ turnsAfter (taken + 1) := by
  unfold turnsAfter
  rcases taken with _ | _ | taken
  · decide
  · decide
  · simp

theorem turnsAfter_mono {n m : Nat} (le : n ≤ m) : turnsAfter n ≤ turnsAfter m := by
  induction le with
  | refl => exact Nat.le_refl _
  | step _ ih => exact ih.trans (Nat.le_of_succ_le (turnsAfter_succ _))

/-- A bootloader in the dialogue, its record starting where the dialogue does. -/
structure Dialogue (validate : Flash → Option Bool) (v : Session) : Prop where
  queue : QueueInv v
  past : v.bootloaderState ≠ .sync ∧ v.pc ≠ .flush
  active : v.bootloaderState = .done → v.pc = .loop ∨ v.pc = .gone
  taken : v.bootloaderState.TakenSoFar v.trace.taken.length
  accepted : v.trace.accepted <+: v.trace.taken.drop 3
  receiving : v.bootloaderState = .receiveFw → v.trace.accepted = v.trace.taken.drop 3
  kinds : ∀ packet ∈ v.trace.sent, frameKind packet = .ack ∨ frameKind packet = .packet
  answered : v.trace.stored ≠ [] → v.trace.sent ≠ []
  slot : v.trace.sent ≠ [] → v.comms.lastTransmittedPacket ∈ v.trace.sent
  verdict : v.trace.sent.countP (fun packet => IsVerdict packet) ≤
    if v.bootloaderState = .done then 1 else 0
  turns : v.trace.sent.countP Spoken + v.bootloaderState.owes ≤
    turnsAfter v.trace.taken.length + retxFrames v.trace.commsBytes
  success : updateSuccessful ∈ v.trace.sent →
    validate v.flash = some true ∧ v.firmwareLength ≤ v.bytesWritten ∧ v.trace.accepted ≠ []

/-- It starts where nothing is on record yet. -/
theorem Dialogue.start {validate : Flash → Option Bool} {v : Session} (queue : QueueInv v)
    (nothing : v.trace = []) (state : v.bootloaderState = .waitForFwUpdateReq)
    (pc : v.pc ≠ .flush) : Dialogue validate v where
  queue := queue
  past := ⟨by rw [state]; decide, pc⟩
  active ended := by rw [state] at ended; cases ended
  taken := by rw [nothing, state]; rfl
  accepted := by rw [nothing]; exact List.nil_prefix
  receiving there := by rw [state] at there; cases there
  kinds := by rw [nothing]; nofun
  answered := by rw [nothing]; exact fun some => absurd rfl some
  slot := by rw [nothing]; exact fun some => absurd rfl some
  verdict := by rw [nothing]; exact Nat.zero_le _
  turns := by rw [nothing, state]; exact Nat.zero_le _
  success := by rw [nothing]; nofun

/-- What a step of the main program says outside `comms_update`: nothing, or one
packet made of one byte, a verdict only at the end. -/
inductive Says (v v' : Session) (obs : Trace) : Prop
  | nothing (sent : obs.sent = [])
      (slot : v'.comms.lastTransmittedPacket = v.comms.lastTransmittedPacket)
  | word (byte : Byte) (sent : obs.sent = [commsCreateSingleBytePacket byte])
      (slot : v'.comms.lastTransmittedPacket = commsCreateSingleBytePacket byte)
      (word : byte ≠ packetAckData0 ∧ byte ≠ packetRetxData0)
      (last : IsVerdict (commsCreateSingleBytePacket byte) → v'.bootloaderState = .done)

/-- What is said in one byte, if it is neither a control packet nor a verdict. -/
theorem Says.plain {v v' : Session} {obs : Trace} (byte : Byte)
    (sent : obs.sent = [commsCreateSingleBytePacket byte])
    (slot : v'.comms.lastTransmittedPacket = commsCreateSingleBytePacket byte)
    (control : byte ≠ packetAckData0 ∧ byte ≠ packetRetxData0)
    (other : byte ≠ blPacketUpdateSuccessfulData0 ∧ byte ≠ blPacketNackData0) :
    Says v v' obs ∧ updateSuccessful ∉ obs.sent := by
  have undecided : ¬IsVerdict (commsCreateSingleBytePacket byte) := fun verdict =>
    (isVerdict_single.mp verdict).elim other.1 other.2
  refine ⟨.word byte sent slot control (absurd · undecided), ?_⟩
  rw [sent]
  exact updateSuccessful_not_said other.1

/-- The slot still holds something that was said, when it is left alone or takes what is. -/
theorem slot_said {sent new : List CommsPacket} {slot slot' : CommsPacket}
    (old : sent ≠ [] → slot ∈ sent) (kept : (new = [] ∧ slot' = slot) ∨ slot' ∈ new)
    (some : sent ++ new ≠ []) : slot' ∈ sent ++ new := by
  rcases kept with ⟨rfl, rfl⟩ | said
  · rw [List.append_nil] at some ⊢
    exact old some
  · exact List.mem_append_right _ said

theorem Says.kept {v v' : Session} {obs : Trace} (speech : Says v v' obs) :
    (obs.sent = [] ∧ v'.comms.lastTransmittedPacket = v.comms.lastTransmittedPacket) ∨
      v'.comms.lastTransmittedPacket ∈ obs.sent := by
  cases speech with
  | nothing none slot => exact .inl ⟨none, slot⟩
  | word byte one slot =>
    rw [slot, one]
    exact .inr (List.mem_singleton_self _)

/-- At the end at most one verdict is said, before it none. -/
theorem Says.verdicts {v v' : Session} {obs : Trace} (speech : Says v v' obs) :
    obs.sent.countP (fun packet => IsVerdict packet) ≤
      if v'.bootloaderState = .done then 1 else 0 := by
  cases speech with
  | nothing none =>
    rw [none]
    exact Nat.zero_le _
  | word byte one slot word last =>
    rw [one, List.countP_singleton]
    by_cases verdict : IsVerdict (commsCreateSingleBytePacket byte)
    · rw [if_pos (last verdict)]
      split <;> decide
    · rw [if_neg (by simpa using verdict)]
      exact Nat.zero_le _

/-- A move of the handshake: with `taken` packets taken, `takes` more are and `words` said. -/
structure InTurn (here there : BlState) (taken takes words : Nat) : Prop where
  live : here ≠ .done ∧ there ≠ .sync
  soFar : there.TakenSoFar (taken + takes)
  last : there = .receiveFw → taken + takes = 3
  turns : words + there.owes + turnsAfter taken ≤ here.owes + turnsAfter (taken + takes)

theorem countP_verdict_eq_zero {packets : List CommsPacket}
    (none : ∀ packet ∈ packets, ¬IsVerdict packet) :
    packets.countP (fun packet => IsVerdict packet) = 0 := by
  rw [List.countP_eq_zero]
  intro packet member
  simpa using none packet member

section Steps

variable {drv : FlashDriver} {validate : Flash → Option Bool} {v v' : Session}
  (h : Dialogue validate v)
include h

/-- The loop is left only when the session is over. -/
theorem Dialogue.unfinished (pc : v.pc ≠ .loop ∧ v.pc ≠ .gone) : v.bootloaderState ≠ .done := by
  intro ended
  rcases h.active ended with hpc | hpc
  · exact pc.1 hpc
  · exact pc.2 hpc

/-- Before the end no verdict has been said. -/
theorem Dialogue.undecided (state : v.bootloaderState ≠ .done) :
    ∀ packet ∈ v.trace.sent, ¬IsVerdict packet := by
  have none := h.verdict
  rw [if_neg state, Nat.le_zero, List.countP_eq_zero] at none
  intro packet sent
  simpa using none packet sent

/-- A step of the main program outside `comms_update`. -/
theorem Dialogue.goes (queue : QueueInv v') (obs : Trace) (trace : v'.trace = v.trace ++ obs)
    (unread : obs.commsBytes = [] ∧ obs.stored = []) (speech : Says v v' obs)
    (state : v.bootloaderState ≠ .done)
    (past : v'.bootloaderState ≠ .sync ∧ v'.pc ≠ .flush)
    (active : v'.bootloaderState = .done → v'.pc = .loop ∨ v'.pc = .gone)
    (taken : v'.bootloaderState.TakenSoFar (v.trace.taken ++ obs.taken).length)
    (accepted : v.trace.accepted ++ obs.accepted <+: (v.trace.taken ++ obs.taken).drop 3)
    (receiving : v'.bootloaderState = .receiveFw →
      v.trace.accepted ++ obs.accepted = (v.trace.taken ++ obs.taken).drop 3)
    (turns : obs.sent.countP Spoken + v'.bootloaderState.owes + turnsAfter v.trace.taken.length ≤
      v.bootloaderState.owes + turnsAfter (v.trace.taken ++ obs.taken).length)
    (success : updateSuccessful ∈ obs.sent → validate v'.flash = some true ∧
      v'.firmwareLength ≤ v'.bytesWritten ∧ obs.accepted ≠ []) : Dialogue validate v' := by
  have bytes : v'.trace.commsBytes = v.trace.commsBytes := by
    rw [trace, Trace.commsBytes_append, unread.1, List.append_nil]
  have stored : v'.trace.stored = v.trace.stored := by
    rw [trace, Trace.stored_append, unread.2, List.append_nil]
  have sent : v'.trace.sent = v.trace.sent ++ obs.sent := by rw [trace, Trace.sent_append]
  have takes : v'.trace.taken = v.trace.taken ++ obs.taken := by rw [trace, Trace.taken_append]
  have accepts : v'.trace.accepted = v.trace.accepted ++ obs.accepted := by
    rw [trace, Trace.accepted_append]
  have undecided := h.undecided state
  refine ⟨queue, past, active, takes ▸ taken, ?_, ?_, ?_, ?_, ?_, ?_, ?_, ?_⟩
  · rw [accepts, takes]
    exact accepted
  · rw [accepts, takes]
    exact receiving
  · rw [sent]
    intro packet member
    rcases List.mem_append.mp member with old | new
    · exact h.kinds packet old
    · cases speech with
      | nothing none => rw [none] at new; cases new
      | word byte one slot word last =>
        rw [one, List.mem_singleton] at new
        rw [new]
        exact .inr (frameKind_single word)
  · rw [stored, sent]
    intro some
    exact List.append_ne_nil_of_left_ne_nil (h.answered some) _
  · rw [sent]
    exact slot_said h.slot speech.kept
  · rw [sent, List.countP_append, countP_verdict_eq_zero undecided, Nat.zero_add]
    exact speech.verdicts
  · have before := h.turns
    rw [sent, takes, bytes, List.countP_append]
    omega
  · intro member
    rw [sent, List.mem_append] at member
    rcases member with old | new
    · exact absurd (.inl rfl) (undecided _ old)
    · obtain ⟨valid, length, some⟩ := success new
      refine ⟨valid, length, ?_⟩
      rw [accepts]
      exact List.append_ne_nil_of_right_ne_nil _ some

/-- A step with nothing of the dialogue to see. -/
theorem Dialogue.unseen (queue : QueueInv v') (obs : Trace) (trace : v'.trace = v.trace ++ obs)
    (nothing : obs.commsBytes = [] ∧ obs.stored = [] ∧ obs.taken = [] ∧ obs.sent = [] ∧
      obs.accepted = [])
    (same : v'.bootloaderState = v.bootloaderState ∧ v'.flash = v.flash ∧
      v'.firmwareLength = v.firmwareLength ∧ v'.bytesWritten = v.bytesWritten)
    (slot : v'.comms.lastTransmittedPacket = v.comms.lastTransmittedPacket)
    (pc : v'.pc ≠ .flush)
    (active : v'.bootloaderState = .done → v'.pc = .loop ∨ v'.pc = .gone) :
    Dialogue validate v' := by
  obtain ⟨state, flash, length, count⟩ := same
  obtain ⟨noBytes, noStored, noTaken, noSent, noAccepted⟩ := nothing
  have bytes : v'.trace.commsBytes = v.trace.commsBytes := by
    rw [trace, Trace.commsBytes_append, noBytes, List.append_nil]
  have stored : v'.trace.stored = v.trace.stored := by
    rw [trace, Trace.stored_append, noStored, List.append_nil]
  have taken : v'.trace.taken = v.trace.taken := by
    rw [trace, Trace.taken_append, noTaken, List.append_nil]
  have sent : v'.trace.sent = v.trace.sent := by
    rw [trace, Trace.sent_append, noSent, List.append_nil]
  have accepted : v'.trace.accepted = v.trace.accepted := by
    rw [trace, Trace.accepted_append, noAccepted, List.append_nil]
  refine ⟨queue, ⟨state ▸ h.past.1, pc⟩, active, ?_, ?_, ?_, ?_, ?_, ?_, ?_, ?_, ?_⟩
  · rw [state, taken]
    exact h.taken
  · rw [accepted, taken]
    exact h.accepted
  · rw [state, accepted, taken]
    exact h.receiving
  · rw [sent]
    exact h.kinds
  · rw [stored, sent]
    exact h.answered
  · rw [sent, slot]
    exact h.slot
  · rw [sent, state]
    exact h.verdict
  · rw [sent, state, taken, bytes]
    exact h.turns
  · rw [sent, flash, length, count, accepted]
    exact h.success

/-- A step with nothing to see at all. -/
theorem Dialogue.silent (queue : QueueInv v') (trace : v'.trace = v.trace)
    (same : v'.bootloaderState = v.bootloaderState ∧ v'.flash = v.flash ∧
      v'.firmwareLength = v.firmwareLength ∧ v'.bytesWritten = v.bytesWritten)
    (slot : v'.comms.lastTransmittedPacket = v.comms.lastTransmittedPacket)
    (live : v.bootloaderState ≠ .done) (pc : v'.pc ≠ .flush) : Dialogue validate v' :=
  h.unseen queue [] (trace.trans (List.append_nil _).symm) ⟨rfl, rfl, rfl, rfl, rfl⟩ same slot pc
    fun ended => absurd (same.1.symm.trans ended) live

/-- What the bytes read so far must be like: none of the frames is corrupt, and before
a RETX something has been said. -/
structure ReadsWell (v v' : Session) : Prop where
  intact : ∀ packet ∈ framesOf v'.trace.commsBytes, frameKind packet ≠ .corrupt
  late : ∀ packet ∈ framesOf v'.trace.commsBytes, frameKind packet = .retx → v.trace.sent ≠ []

end Steps

/-- What the last byte of a frame makes the link layer say, and keep. -/
theorem Partial.complete_says {c : Comms} {part : List Byte} (h : Partial c part) (byte : Byte)
    (full : part.length = 17) :
    (commsUpdateByte c byte).2.sent =
        (match frameKind (frameOf (part ++ [byte])) with
          | .corrupt => [retxPacket]
          | .retx => [c.lastTransmittedPacket]
          | .ack => []
          | .packet => [ackPacket]) ∧
      (commsUpdateByte c byte).1.lastTransmittedPacket =
        (match frameKind (frameOf (part ++ [byte])) with
          | .corrupt => retxPacket
          | .retx => c.lastTransmittedPacket
          | .ack => c.lastTransmittedPacket
          | .packet => ackPacket) := by
  rw [h.complete byte full]
  generalize frameOf (part ++ [byte]) = frame
  dsimp only
  rw [commsHandlePacket_eq]
  dsimp only
  cases frameKind frame with
  | corrupt => exact ⟨rfl, rfl⟩
  | retx => exact ⟨rfl, rfl⟩
  | ack => exact ⟨rfl, rfl⟩
  | packet =>
    refine ⟨?_, rfl⟩
    dsimp only
    rw [commsStorePacket_trace]
    split <;> rfl

/-- What the link layer says when a byte is read: nothing, the last packet again, or an
ACK. -/
inductive Answers (v v' : Session) (byte : Byte) : Prop
  | nothing (sent : (commsUpdateByte v.comms byte).2.sent = [])
      (slot : v'.comms.lastTransmittedPacket = v.comms.lastTransmittedPacket)
      (stored : v'.trace.stored = v.trace.stored)
      (retx : retxFrames v'.trace.commsBytes = retxFrames v.trace.commsBytes)
  | again (sent : (commsUpdateByte v.comms byte).2.sent = [v.comms.lastTransmittedPacket])
      (slot : v'.comms.lastTransmittedPacket = v.comms.lastTransmittedPacket)
      (retx : retxFrames v'.trace.commsBytes = retxFrames v.trace.commsBytes + 1)
      (some : v.trace.sent ≠ [])
  | ack (sent : (commsUpdateByte v.comms byte).2.sent = [ackPacket])
      (slot : v'.comms.lastTransmittedPacket = ackPacket)
      (retx : retxFrames v'.trace.commsBytes = retxFrames v.trace.commsBytes)

section Answers

variable {validate : Flash → Option Bool} {v v' : Session} {byte : Byte}
  (answers : Answers v v' byte)
include answers

/-- Whatever is said is an ACK or was said before. -/
theorem Answers.known (h : Dialogue validate v) : ∀ packet ∈ (commsUpdateByte v.comms byte).2.sent,
    packet ∈ v.trace.sent ∨ packet = ackPacket := by
  intro packet member
  cases answers with
  | nothing none => rw [none] at member; cases member
  | again one slot retx some =>
    rw [one, List.mem_singleton] at member
    exact .inl (member ▸ h.slot some)
  | ack one =>
    rw [one, List.mem_singleton] at member
    exact .inr member

theorem Answers.answered (h : Dialogue validate v) (stored : v'.trace.stored ≠ []) :
    v.trace.sent ++ (commsUpdateByte v.comms byte).2.sent ≠ [] := by
  cases answers with
  | nothing _ _ same => exact List.append_ne_nil_of_left_ne_nil (h.answered (same ▸ stored)) _
  | again _ _ _ before => exact List.append_ne_nil_of_left_ne_nil before _
  | ack one =>
    rw [one]
    exact List.append_ne_nil_of_right_ne_nil _ (List.cons_ne_nil _ _)

theorem Answers.kept : ((commsUpdateByte v.comms byte).2.sent = [] ∧
      v'.comms.lastTransmittedPacket = v.comms.lastTransmittedPacket) ∨
    v'.comms.lastTransmittedPacket ∈ (commsUpdateByte v.comms byte).2.sent := by
  cases answers with
  | nothing none slot => exact .inl ⟨none, slot⟩
  | again one slot =>
    rw [slot, one]
    exact .inr (List.mem_singleton_self _)
  | ack one slot =>
    rw [slot, one]
    exact .inr (List.mem_singleton_self _)

/-- Only a RETX makes it say something of the dialogue again. -/
theorem Answers.spoken : (commsUpdateByte v.comms byte).2.sent.countP Spoken +
    retxFrames v.trace.commsBytes ≤ retxFrames v'.trace.commsBytes := by
  cases answers with
  | nothing none _ _ retx =>
    rw [none, retx, List.countP_nil, Nat.zero_add]
  | again one _ retx =>
    have most := List.countP_le_length (p := Spoken) (l := [v.comms.lastTransmittedPacket])
    rw [List.length_singleton] at most
    rw [one, retx]
    omega
  | ack one _ retx =>
    have ack : [ackPacket].countP Spoken = 0 := by decide +kernel
    rw [one, retx, ack, Nat.zero_add]

end Answers

section Byte

variable {validate : Flash → Option Bool} {v v' : Session} {byte : Byte}
  (trace : v'.trace = v.trace ++ .commsByte byte :: (commsUpdateByte v.comms byte).2)
  (comms : v'.comms = (commsUpdateByte v.comms byte).1) (reads : ReadsWell v v')
include trace comms reads

theorem QueueInv.answers (inv : QueueInv v) (inv' : QueueInv v') : Answers v v' byte := by
  have bytes := byte_commsBytes trace
  have short := tailOf_length_lt v.trace.commsBytes
  by_cases full : (tailOf v.trace.commsBytes).length = 17
  · obtain ⟨sent, slot⟩ := inv.part.complete_says byte full
    rw [← comms] at slot
    have frames : framesOf v'.trace.commsBytes = _ :=
      bytes ▸ (tailOf_complete full).2
    have count : retxFrames v'.trace.commsBytes = retxFrames v.trace.commsBytes +
        [frameOf (tailOf v.trace.commsBytes ++ [byte])].countP
          fun packet => frameKind packet = .retx := by
      rw [retxFrames, frames, List.countP_append, retxFrames]
    have packets : packetsOf v'.trace.commsBytes = _ := bytes ▸ packetsOf_complete full
    rw [← inv.stored, ← inv'.stored] at packets
    have last : frameOf (tailOf v.trace.commsBytes ++ [byte]) ∈ framesOf v'.trace.commsBytes := by
      rw [frames]
      exact List.mem_append_right _ (List.mem_singleton_self _)
    rw [List.countP_singleton] at count
    cases kind : frameKind (frameOf (tailOf v.trace.commsBytes ++ [byte])) with
    | corrupt => exact absurd kind (reads.intact _ last)
    | retx =>
      rw [kind] at sent slot count
      exact .again sent slot count (reads.late _ last kind)
    | ack =>
      rw [kind] at sent slot count
      rw [List.filter_singleton, kind] at packets
      exact .nothing sent slot (packets.trans (List.append_nil _)) count
    | packet =>
      rw [kind] at sent slot count
      exact .ack sent slot count
  · obtain ⟨silent, -, -, slot⟩ := inv.part.step byte (by omega)
    rw [← comms] at slot
    have same : _ ∧ framesOf v'.trace.commsBytes = framesOf v.trace.commsBytes :=
      bytes ▸ tailOf_concat (by omega)
    refine .nothing ?_ slot ?_ ?_
    · rw [silent]
      rfl
    · rw [inv'.stored, inv.stored, packetsOf, same.2, packetsOf]
    · rw [retxFrames, same.2, retxFrames]

/-- A byte is read. -/
theorem Dialogue.byte_read (h : Dialogue validate v) (queue : QueueInv v') (pc : v.pc = .update)
    (same : v'.bootloaderState = v.bootloaderState ∧ v'.pc = v.pc ∧ v'.flash = v.flash ∧
      v'.firmwareLength = v.firmwareLength ∧ v'.bytesWritten = v.bytesWritten) :
    Dialogue validate v' := by
  obtain ⟨state, pc', flash, length, count⟩ := same
  have live := h.unfinished (by rw [pc]; decide)
  have undecided := h.undecided live
  have taken := byte_taken trace
  have accepted : v'.trace.accepted = v.trace.accepted := by
    rw [trace, Trace.accepted_append]
    exact (congrArg _ (commsUpdateByte_quiet v.comms byte).2.2).trans (List.append_nil _)
  have sent : v'.trace.sent = v.trace.sent ++ (commsUpdateByte v.comms byte).2.sent := by
    rw [trace, Trace.sent_append]
    rfl
  have answers := h.queue.answers trace comms reads queue
  have known : ∀ packet ∈ v'.trace.sent, packet ∈ v.trace.sent ∨ packet = ackPacket := by
    rw [sent]
    intro packet member
    exact (List.mem_append.mp member).elim .inl (answers.known h packet)
  have none : ∀ packet ∈ v'.trace.sent, ¬IsVerdict packet := by
    intro packet member
    rcases known packet member with old | rfl
    · exact undecided packet old
    · exact ackPacket_not_verdict
  refine ⟨queue, ⟨state ▸ h.past.1, pc'.symm ▸ h.past.2⟩,
    fun ended => absurd (state ▸ ended) live, ?_, ?_, ?_, ?_, ?_, ?_, ?_, ?_, ?_⟩
  · rw [state, taken]
    exact h.taken
  · rw [accepted, taken]
    exact h.accepted
  · rw [state, accepted, taken]
    exact h.receiving
  · intro packet member
    rcases known packet member with old | rfl
    · exact h.kinds packet old
    · exact .inl frameKind_ackPacket
  · rw [sent]
    exact answers.answered h
  · rw [sent]
    exact slot_said h.slot answers.kept
  · rw [countP_verdict_eq_zero none]
    exact Nat.zero_le _
  · have before := h.turns
    have spoken := answers.spoken
    rw [sent, List.countP_append, state, taken]
    omega
  · intro member
    exact absurd (.inl rfl) (none _ member)

end Byte

/-! ## Every step -/

section Step

variable {drv : FlashDriver} {validate : Flash → Option Bool} {v v' : Session}
  (h : Dialogue validate v)
include h

/-- A NACK ends the session. -/
theorem Dialogue.fails (queue : QueueInv v') (obs : Trace) (trace : v'.trace = v.trace ++ obs)
    (unread : obs.commsBytes = [] ∧ obs.stored = [] ∧ obs.accepted = [])
    (sent : obs.sent = [nack]) (slot : v'.comms.lastTransmittedPacket = nack)
    (live : v.bootloaderState ≠ .done) (state : v'.bootloaderState = .done)
    (pc : v'.pc = .loop) : Dialogue validate v' := by
  refine h.goes queue obs trace ⟨unread.1, unread.2.1⟩
    (.word blPacketNackData0 sent slot (by decide) fun _ => state) live ?_ ?_ ?_ ?_ ?_ ?_ ?_
  · rw [state, pc]
    decide
  · exact fun _ => .inl pc
  · rw [state]
    trivial
  · rw [unread.2.2, List.append_nil]
    exact h.accepted.trans (List.IsPrefix.drop (List.prefix_append _ _) 3)
  · rw [state]
    nofun
  · have spoken : [nack].countP Spoken = 0 := by decide +kernel
    have more : turnsAfter v.trace.taken.length ≤
        turnsAfter (v.trace.taken ++ obs.taken).length := by
      rw [List.length_append]
      exact turnsAfter_mono (Nat.le_add_right _ _)
    rw [sent, spoken, state]
    show 0 + 0 + _ ≤ _
    omega
  · rw [sent, List.mem_singleton]
    intro same
    exact absurd same updateSuccessful_ne_nack

/-- A state of the handshake goes to the next one. -/
theorem Dialogue.advances {here there : BlState} {taken : Nat} (queue : QueueInv v') (obs : Trace)
    (trace : v'.trace = v.trace ++ obs)
    (unread : obs.commsBytes = [] ∧ obs.stored = [] ∧ obs.accepted = [])
    (speech : Says v v' obs ∧ updateSuccessful ∉ obs.sent) (pc : v'.pc = .loop)
    (state : v.bootloaderState = here) (next : v'.bootloaderState = there)
    (count : v.trace.taken.length = taken)
    (turn : InTurn here there taken obs.taken.length obs.sent.length) : Dialogue validate v' := by
  have spoken : obs.sent.countP Spoken ≤ obs.sent.length := List.countP_le_length
  have accepted : v.trace.accepted ++ obs.accepted <+: (v.trace.taken ++ obs.taken).drop 3 := by
    rw [unread.2.2, List.append_nil]
    exact h.accepted.trans (List.IsPrefix.drop (List.prefix_append _ _) 3)
  have turns := turn.turns
  have all : (v.trace.taken ++ obs.taken).length = taken + obs.taken.length := by
    rw [List.length_append, count]
  subst state next
  refine h.goes queue obs trace ⟨unread.1, unread.2.1⟩ speech.1 turn.live.1
    ⟨turn.live.2, ?_⟩ (fun _ => .inl pc) (all ▸ turn.soFar) accepted ?_ ?_ (absurd · speech.2)
  · rw [pc]
    decide
  · intro state
    have none : (v.trace.taken ++ obs.taken).drop 3 = [] :=
      List.drop_of_length_le (Nat.le_of_eq (all.trans (turn.last state)))
    rw [none] at accepted ⊢
    exact List.prefix_nil.mp accepted
  · rw [all, count]
    omega

/-- A data packet is programmed. -/
theorem Dialogue.programs (queue : QueueInv v') (available : commsPacketAvailable v.comms = true)
    (obs : Trace)
    (trace : v'.trace = ((v.atPc .loop).takes.writes drv v.nextPacket).trace ++ obs)
    (unread : obs.commsBytes = [] ∧ obs.stored = [] ∧ obs.accepted = [] ∧ obs.taken = [])
    (speech : Says v v' obs) (state : v.bootloaderState = .receiveFw)
    (there : v'.bootloaderState = .receiveFw ∨ v'.bootloaderState = .done)
    (pc : v'.pc = .loop ∨ v'.pc = .gone)
    (turns : obs.sent.length ≤ 1)
    (success : updateSuccessful ∈ obs.sent →
      validate v'.flash = some true ∧ v'.firmwareLength ≤ v'.bytesWritten) :
    Dialogue validate v' := by
  have three : 3 ≤ v.trace.taken.length := by
    have taken := h.taken
    rwa [state] at taken
  have same := h.receiving state
  have accepted : v.trace.accepted ++ [v.nextPacket] =
      (v.trace.taken ++ [v.nextPacket]).drop 3 := by
    rw [List.drop_append_of_le_length three, same]
  have new : v'.trace = v.trace ++ ([.taken v.nextPacket, .accepted v.nextPacket,
      .programmed (v.atPc .loop).takes.writeAddress (chunkOf v.nextPacket)] ++ obs) := by
    rw [trace, takes_writes_trace available, List.append_assoc]
  have front : Trace.sent ([.taken v.nextPacket, .accepted v.nextPacket,
      .programmed (v.atPc .loop).takes.writeAddress (chunkOf v.nextPacket)] ++ obs) = obs.sent := by
    rw [Trace.sent_append]
    rfl
  have takes : Trace.taken ([.taken v.nextPacket, .accepted v.nextPacket,
      .programmed (v.atPc .loop).takes.writeAddress (chunkOf v.nextPacket)] ++ obs) =
        [v.nextPacket] := by
    rw [Trace.taken_append, unread.2.2.2]
    rfl
  have accepts : Trace.accepted ([.taken v.nextPacket, .accepted v.nextPacket,
      .programmed (v.atPc .loop).takes.writeAddress (chunkOf v.nextPacket)] ++ obs) =
        [v.nextPacket] := by
    rw [Trace.accepted_append, unread.2.2.1]
    rfl
  have more := turnsAfter_succ v.trace.taken.length
  have spoken : obs.sent.countP Spoken ≤ obs.sent.length := List.countP_le_length
  refine h.goes queue _ new ⟨?_, ?_⟩ ?_ (by rw [state]; decide) ⟨?_, ?_⟩ ?_ ?_ ?_ ?_ ?_ ?_
  · rw [Trace.commsBytes_append, unread.1]
    rfl
  · rw [Trace.stored_append, unread.2.1]
    rfl
  · cases speech with
    | nothing none slot => exact .nothing (front.trans none) slot
    | word byte one slot word last => exact .word byte (front.trans one) slot word last
  · rcases there with there | there <;> rw [there] <;> decide
  · rcases pc with pc | pc <;> rw [pc] <;> decide
  · exact fun _ => pc
  · rw [takes, List.length_append]
    rcases there with there | there
    · rw [there]
      exact Nat.le_add_right_of_le three
    · rw [there]
      trivial
  · rw [accepts, takes, accepted]
  · intro _
    rw [accepts, takes, accepted]
  · have owes : v'.bootloaderState.owes = 0 := by
      rcases there with there | there <;> rw [there] <;> rfl
    rw [front, takes, owes, List.length_append, List.length_singleton]
    omega
  · rw [front, accepts]
    intro said
    exact ⟨(success said).1, (success said).2, List.cons_ne_nil _ _⟩

theorem Dialogue.step (step : SessionStep drv validate v v')
    (reads : v.pc = .update → ReadsWell v v') : Dialogue validate v' := by
  have queue := h.queue.step step
  have inside (pc : v.pc = .dispatch) : v.bootloaderState ≠ .done :=
    h.unfinished (by rw [pc]; decide)
  have count {state : BlState} (here : v.bootloaderState = state) :
      state.TakenSoFar v.trace.taken.length := here ▸ h.taken
  cases step with
  | start hpc =>
    have live := h.unfinished (by rw [hpc]; decide)
    exact h.silent queue rfl ⟨rfl, rfl, rfl, rfl⟩ rfl live nofun
  | enter hpc active => exact h.silent queue rfl ⟨rfl, rfl, rfl, rfl⟩ rfl active.2 nofun
  | drained hpc =>
    have live := h.unfinished (by rw [hpc]; decide)
    exact h.silent queue rfl ⟨rfl, rfl, rfl, rfl⟩ rfl live nofun
  | idle hpc waiting empty => exact h.silent queue rfl ⟨rfl, rfl, rfl, rfl⟩ rfl (inside hpc) nofun
  | timeout hpc waiting empty =>
    exact h.fails queue [.sent nack] rfl ⟨rfl, rfl, rfl⟩ rfl rfl (inside hpc) rfl rfl
  | syncIdle hpc sync => exact absurd sync h.past.1
  | syncTimeout hpc sync => exact absurd sync h.past.1
  | syncByte byte hpc sync => exact absurd sync h.past.1
  | syncByteTimeout byte hpc sync => exact absurd sync h.past.1
  | syncMatch byte hpc sync => exact absurd sync h.past.1
  | flushByte byte hpc => exact absurd hpc h.past.2
  | flushed hpc => exact absurd hpc h.past.2
  | commsByte byte hpc =>
    exact h.byte_read (List.append_assoc v.trace [.commsByte byte] _) rfl (reads hpc) queue hpc
      ⟨rfl, rfl, rfl, rfl, rfl⟩
  | refused length hpc waiting available wrong announced =>
    exact h.fails queue _ (takes_send_trace available blPacketNackData0) ⟨rfl, rfl, rfl⟩ rfl rfl
      (inside hpc) rfl rfl
  | fwUpdateReq hpc state available request =>
    exact h.advances queue _ (takes_send_trace available _) ⟨rfl, rfl, rfl⟩
      (Says.plain blPacketFwUpdateResData0 rfl rfl (by decide) (by decide)) rfl state rfl
      (count state) (show InTurn _ .deviceIdReq 0 1 1 from ⟨by decide, rfl, nofun, by decide⟩)
  | deviceIdReq hpc state =>
    exact h.advances queue [.sent _] rfl ⟨rfl, rfl, rfl⟩
      (Says.plain blPacketDeviceIdReqData0 rfl rfl (by decide) (by decide)) rfl state rfl
      (count state) (show InTurn _ .deviceIdRes 1 0 1 from ⟨by decide, rfl, nofun, by decide⟩)
  | deviceIdRes hpc state available shape device =>
    exact h.advances queue _ (takes_trace available) ⟨rfl, rfl, rfl⟩ ⟨.nothing rfl rfl, nofun⟩ rfl
      state rfl (count state)
      (show InTurn _ .fwLengthReq 1 1 0 from ⟨by decide, rfl, nofun, by decide⟩)
  | fwLengthReq hpc state =>
    exact h.advances queue [.sent _] rfl ⟨rfl, rfl, rfl⟩
      (Says.plain blPacketFwLengthReqData0 rfl rfl (by decide) (by decide)) rfl state rfl
      (count state) (show InTurn _ .fwLengthRes 2 0 1 from ⟨by decide, rfl, nofun, by decide⟩)
  | fwLengthRes hpc state available shape fits =>
    exact h.advances queue _ (takes_trace available) ⟨rfl, rfl, rfl⟩ ⟨.nothing rfl rfl, nofun⟩ rfl
      state rfl (count state)
      (show InTurn _ .eraseApplication 2 1 0 from ⟨by decide, rfl, nofun, by decide⟩)
  | erase hpc state =>
    exact h.advances queue _ (List.append_assoc ..) ⟨rfl, rfl, rfl⟩
      (Says.plain blPacketReadyForDataData0 rfl rfl (by decide) (by decide)) rfl state rfl
      (count state)
      (show InTurn _ .receiveFw 3 0 1 from ⟨by decide, Nat.le_refl 3, fun _ => rfl, by decide⟩)
  | chunk hpc state available ok more =>
    exact h.programs queue available [.sent _] rfl ⟨rfl, rfl, rfl, rfl⟩
      (Says.plain blPacketReadyForDataData0 rfl rfl (by decide) (by decide)).1 state (.inl state)
      (.inl rfl) (Nat.le_refl 1) fun said => absurd said (updateSuccessful_not_said (by decide))
  | lastChunk accepted hpc state available ok complete verdict =>
    refine h.programs queue available [.sent _] rfl ⟨rfl, rfl, rfl, rfl⟩
      (.word _ rfl rfl ?_ fun _ => rfl) state (.inr rfl) (.inl rfl) (Nat.le_refl 1) ?_
    · cases accepted <;> decide
    · intro said
      refine ⟨?_, complete⟩
      cases accepted with
      | true => exact verdict
      | false => exact absurd said (updateSuccessful_not_said (by decide))
  | lastChunkFault hpc state available ok complete fault =>
    exact h.programs queue available [.faulted] rfl ⟨rfl, rfl, rfl, rfl⟩
      (.nothing rfl rfl) state (.inl state) (.inr rfl) (Nat.zero_le _) nofun
  | unexpected hpc outside =>
    rcases outside with sync | done
    · exact absurd sync h.past.1
    · exact absurd done (inside hpc)
  | left obs hpc ended way =>
    have nothing : Trace.commsBytes [obs] = [] ∧ Trace.stored [obs] = [] ∧
        Trace.taken [obs] = [] ∧ Trace.sent [obs] = [] ∧ Trace.accepted [obs] = [] := by
      rcases way with ⟨rfl, -⟩ | ⟨rfl, -⟩ | ⟨rfl, -⟩ <;> exact ⟨rfl, rfl, rfl, rfl, rfl⟩
    exact h.unseen queue [obs] rfl nothing ⟨rfl, rfl, rfl, rfl⟩ rfl nofun fun _ => .inr rfl

end Step

end SecureBootloader
