import SecureBootloader.Link.Exchange

/-!
# The invariant of an update

Every byte between the two programs is accounted for: what the bootloader has read, what
its byte queue holds and what is on the wire to it are, one after the other, what the host
has said; and the same the other way. The bootloader never has more than seven frames
ahead of it.
-/

namespace SecureBootloader

open Updater (MainState)

/-! ## The bootloader and its byte queue -/

section Reading

variable (drv : FlashDriver) (validate : Flash → Option Bool) {b : Boot}

/-- The record only grows. -/
theorem bootStep_trace (e : BootEvent) :
    ∃ obs, (bootStep drv validate b e).trace = b.trace ++ obs := by
  rcases bootStep_session drv validate b e with same | ⟨-, step⟩
  · exact ⟨[], (congrArg Session.trace same).trans (List.append_nil _).symm⟩
  · cases receiverStep step with
    | quiet obs trace => exact ⟨obs, trace⟩
    | byte byte hpc trace => exact ⟨_, trace⟩
    | take obs available trace => exact ⟨_, trace⟩

/-- Outside `comms_update` the main program leaves the byte queue alone, once the
synchronisation is over. -/
theorem mainStep_ring_same (past : b.bootloaderState ≠ .sync ∧ b.pc ≠ .flush)
    (outside : b.pc ≠ .update) :
    (bootStep drv validate b .main).rxRingBuffer = b.rxRingBuffer := by
  unfold bootStep Boot.mainStep
  dsimp only
  split
  · rfl
  · split
    · exact leave_ring validate b
    · next sync => exact absurd sync past.1
    · rfl
  · next flush => exact absurd flush past.2
  · next update => exact absurd update outside
  · exact switchState_ring drv validate (b.atPc .loop)
  · rfl

/-- A step of the main program reads the oldest byte of the byte queue, or none. -/
theorem main_reads (ok : RingOk b.rxRingBuffer)
    (past : b.bootloaderState ≠ .sync ∧ b.pc ≠ .flush) :
    ∃ obs, (bootStep drv validate b .main).trace = b.trace ++ obs ∧
      ((bootStep drv validate b .main).rxRingBuffer = b.rxRingBuffer ∧
          Trace.commsBytes obs = [] ∨
        ∃ byte, b.pc = .update ∧ Trace.commsBytes obs = [byte] ∧
          b.rxRingBuffer.held = byte :: (bootStep drv validate b .main).rxRingBuffer.held) := by
  by_cases update : b.pc = .update
  · rw [bootStep_update drv validate update, Boot.updateStep]
    rcases ringBufferRead_held (k := 7) (by decide) ok.ringSize with
      ⟨-, nothing⟩ | ⟨byte, read, -, held⟩
    · rw [nothing]
      exact ⟨[], (List.append_nil _).symm, .inl ⟨rfl, rfl⟩⟩
    · rw [← Prod.mk.eta (p := ringBufferRead b.rxRingBuffer), read]
      refine ⟨.commsByte byte :: (commsUpdateByte b.comms byte).2,
        List.append_assoc b.trace [.commsByte byte] _, .inr ⟨byte, update, ?_, held⟩⟩
      refine congrArg (byte :: ·) ?_
      rcases commsUpdateByte_trace b.comms byte with h | ⟨p, h⟩ | ⟨p, h | h⟩ <;> rw [h] <;> rfl
  · have ring := mainStep_ring_same drv validate past update
    rcases bootStep_session drv validate b .main with same | ⟨-, step⟩
    · refine ⟨[], ?_, .inl ⟨ring, rfl⟩⟩
      rw [List.append_nil]
      exact congrArg Session.trace same
    · cases receiverStep step with
      | quiet obs trace silent same => exact ⟨obs, trace, .inl ⟨ring, silent.commsBytes⟩⟩
      | byte byte hpc trace comms => exact absurd hpc update
      | take obs available trace silent same =>
        exact ⟨.taken b.session.nextPacket :: obs, trace, .inl ⟨ring, silent.commsBytes⟩⟩

end Reading

/-- The bootloader from entry `n` of its record on, when `arrived` has arrived since. -/
structure BootPart (drv : FlashDriver) (validate : Flash → Option Bool) (flash0 : Flash)
    (n : Nat) (b : Boot) (arrived : List Byte) : Prop where
  run : ∃ es, b = bootRun drv validate flash0 es
  inside : n ≤ b.trace.length
  before : Trace.taken (b.trace.take n) = [] ∧ Trace.accepted (b.trace.take n) = []
  dialogue : Dialogue validate (b.session.since n)
  safe : .overrun ∉ b.since n
  read : (b.since n).commsBytes <+: arrived
  held : b.pc ≠ .gone → (b.since n).commsBytes ++ b.rxRingBuffer.held = arrived

section BootPart

variable {drv : FlashDriver} {validate : Flash → Option Bool} {flash0 : Flash} {n : Nat}
  {b : Boot} {arrived : List Byte} (h : BootPart drv validate flash0 n b arrived)
include h

theorem BootPart.ringOk : RingOk b.rxRingBuffer := by
  obtain ⟨es, rfl⟩ := h.run
  exact bootRun_ringOk drv validate flash0 es

theorem BootPart.sessionInv : SessionInv flash0 b.session := by
  obtain ⟨es, rfl⟩ := h.run
  exact bootRun_sessionInv drv validate flash0 es

theorem BootPart.run_step (e : BootEvent) :
    ∃ es, bootStep drv validate b e = bootRun drv validate flash0 es := by
  obtain ⟨es, rfl⟩ := h.run
  exact ⟨es ++ [e], (bootRun_concat drv validate flash0 es e).symm⟩

/-- Nothing was taken or accepted before. -/
theorem BootPart.since_eq : b.trace.taken = (b.since n).taken ∧
    b.trace.accepted = (b.since n).accepted := by
  have split : b.trace = b.trace.take n ++ b.since n := (List.take_append_drop n b.trace).symm
  constructor
  · calc b.trace.taken = Trace.taken (b.trace.take n ++ b.since n) := congrArg _ split
      _ = (b.since n).taken := by rw [Trace.taken_append, h.before.1, List.nil_append]
  · calc b.trace.accepted = Trace.accepted (b.trace.take n ++ b.since n) := congrArg _ split
      _ = (b.since n).accepted := by rw [Trace.accepted_append, h.before.2, List.nil_append]

/-- An event that the session does not see. -/
theorem BootPart.unseen {b' : Boot} {more : List Byte}
    (run : ∃ es, b' = bootRun drv validate flash0 es) (same : b'.session = b.session)
    (held : b.pc ≠ .gone → b'.rxRingBuffer.held = b.rxRingBuffer.held ++ more) :
    BootPart drv validate flash0 n b' (arrived ++ more) := by
  have trace : b'.trace = b.trace := congrArg Session.trace same
  have pc : b'.pc = b.pc := congrArg Session.pc same
  have since : b'.since n = b.since n := congrArg (List.drop n) trace
  refine ⟨run, trace ▸ h.inside, trace ▸ h.before, same ▸ h.dialogue, since ▸ h.safe, ?_, ?_⟩
  · rw [since]
    exact h.read.trans (List.prefix_append _ _)
  · intro live
    rw [pc] at live
    rw [since, held live, ← List.append_assoc, h.held live]

/-- A byte arrives, and there is room for it. -/
theorem BootPart.rx (byte : Byte) (room : b.pc ≠ .gone → b.rxRingBuffer.held.length < 127) :
    BootPart drv validate flash0 n (bootStep drv validate b (.rx byte)) (arrived ++ [byte]) := by
  have same : (bootStep drv validate b (.rx byte)).session = b.session :=
    (bootStep_session drv validate b (.rx byte)).resolve_right (by rintro ⟨main, -⟩; cases main)
  refine h.unseen (h.run_step _) same fun live => ?_
  rw [bootStep, if_neg live]
  exact (ringBufferWrite_room (k := 7) (by decide) h.ringOk.ringSize (room live)).2

theorem BootPart.tick :
    BootPart drv validate flash0 n (bootStep drv validate b .tick) arrived := by
  have same : (bootStep drv validate b .tick).session = b.session :=
    (bootStep_session drv validate b .tick).resolve_right (by rintro ⟨main, -⟩; cases main)
  rw [← List.append_nil arrived]
  refine h.unseen (h.run_step .tick) same fun live => ?_
  rw [bootStep, if_neg live, List.append_nil]

/-- The main program makes a step, if what it reads reads well and is not too much. -/
theorem BootPart.main {b' : Boot} (stepped : b' = bootStep drv validate b .main)
    (reads : ∀ more : List Byte, more.length ≤ 1 →
      (b'.since n).commsBytes = (b.since n).commsBytes ++ more →
        (b'.since n).commsBytes <+: arrived →
          ReadsWell (b.session.since n) (b'.session.since n) ∧
            (packetsOf (b'.since n).commsBytes).length ≤ (b.since n).taken.length + 7) :
    BootPart drv validate flash0 n b' arrived := by
  obtain ⟨obs, trace, byte⟩ := main_reads drv validate h.ringOk h.dialogue.past
  rw [← stepped] at trace byte
  have since : b'.since n = b.since n ++ obs := by
    rw [Boot.since, trace, List.drop_append_of_le_length h.inside]
    rfl
  have front : b'.trace.take n = b.trace.take n := by
    rw [trace, List.take_append_of_le_length h.inside]
  have bytes : (b'.since n).commsBytes = (b.since n).commsBytes ++ obs.commsBytes := by
    rw [since, Trace.commsBytes_append]
  have session : b'.session = b.session ∨
      SessionStep drv validate (b.session.since n) (b'.session.since n) := by
    rw [stepped]
    rcases bootStep_session drv validate b .main with same | ⟨-, step⟩
    · exact .inl same
    · exact .inr (step.since h.inside).1
  have few : obs.commsBytes.length ≤ 1 := by
    rcases byte with ⟨-, none⟩ | ⟨byte, -, one, -⟩
    · rw [none]
      exact Nat.zero_le 1
    · rw [one]
      exact Nat.le_refl 1
  have inside : (b'.since n).commsBytes <+: arrived := by
    rw [bytes]
    rcases byte with ⟨ring, none⟩ | ⟨byte, update, one, ring⟩
    · rw [none, List.append_nil]
      exact h.read
    · rw [one, ← h.held (by rw [update]; decide), ring]
      exact (List.prefix_append_right_inj _).mpr (List.prefix_append [byte] _)
  obtain ⟨well, unread⟩ := reads _ few bytes inside
  refine ⟨stepped ▸ h.run_step .main, ?_, front ▸ h.before, ?_, ?_, inside, ?_⟩
  · rw [trace, List.length_append]
    exact Nat.le_add_right_of_le h.inside
  · rcases session with same | step
    · exact same ▸ h.dialogue
    · exact h.dialogue.step step fun _ => well
  · rcases session with same | step
    · have same : b'.trace = b.trace := congrArg Session.trace same
      rw [Boot.since, same]
      exact h.safe
    · refine h.dialogue.queue.no_overrun (receiverStep step) h.safe (unread.trans ?_)
      show _ ≤ (b'.since n).taken.length + 7
      rw [since, Trace.taken_append, List.length_append]
      omega
  · intro live
    have live' : b.pc ≠ .gone := by
      intro gone
      rw [stepped, bootStep, Boot.mainStep, gone] at live
      exact live gone
    rw [bytes, ← h.held live', List.append_assoc]
    rcases byte with ⟨ring, none⟩ | ⟨byte, update, one, ring⟩
    · rw [ring, none, List.nil_append]
    · rw [one, ring]
      rfl

end BootPart

/-! ## What the bootloader may read, and how much -/

section Reads

variable {validate : Flash → Option Bool} {fwImage : List Byte} {m : MainState}
  {said : List (Option CommsPacket)} (h : HostSaid fwImage m said) {v v' : Session}
  (dialogue : Dialogue validate v)
include h dialogue

/-- The frames of the host are intact, and one that looks like a RETX comes behind others
that the bootloader answers. -/
theorem HostSaid.readsWell {more : List Byte} (one : more.length ≤ 1)
    (grows : v'.trace.commsBytes = v.trace.commsBytes ++ more)
    (inside : v'.trace.commsBytes <+: (wirePackets said).flatMap CommsPacket.bytes) :
    ReadsWell v v' := by
  have after := readFront inside
  have before := readFront ((grows ▸ List.prefix_append _ _ : _ <+: v'.trace.commsBytes).trans
    inside)
  generalize said.take (v'.trace.commsBytes.length / 18) = front' at after
  generalize said.take (v.trace.commsBytes.length / 18) = front at before
  refine ⟨?_, ?_⟩
  · intro frame member
    rcases after.frame member with rfl | scripted
    · rw [frameKind_ackPacket]
      nofun
    · exact script_intact frame ((after.lines h).subset scripted)
  · intro frame member retx
    rcases after.frame member with rfl | scripted
    · rw [frameKind_ackPacket] at retx
      cases retx
    · -- the script is complete, so its first packet was read before
      have complete : (script fwImage).length ≤ front'.reduceOption.length := by
        by_contra short
        have packet := lines_packets (after.lines h) (by omega) frame scripted
        rw [retx] at packet
        cases packet
      have three : 3 ≤ (script fwImage).length := by
        rw [script_length]
        omega
      have longer := congrArg List.length grows
      rw [List.length_append] at longer
      have isFront : front <+: front' := by
        refine List.prefix_of_prefix_length_le before.isFront after.isFront ?_
        rw [before.count, after.count]
        omega
      obtain ⟨rest, rfl⟩ := isFront
      have few := List.reduceOption_length_le rest
      have counts := after.count
      rw [List.length_append, before.count] at counts
      rw [List.reduceOption_append, List.length_append] at complete
      have first : Updater.fwUpdateReqPacket ∈ front.reduceOption := by
        obtain ⟨tail, whole⟩ := before.lines h
        cases lines : front.reduceOption with
        | nil =>
          rw [lines, List.length_nil] at complete
          omega
        | cons packet packets =>
          rw [lines, List.cons_append, script, List.cons.injEq] at whole
          rw [whole.1]
          exact List.mem_cons_self
      have stored : Updater.fwUpdateReqPacket ∈ v.trace.stored := by
        rw [dialogue.queue.stored, before.stored]
        exact List.mem_filter.mpr ⟨first, by decide +kernel⟩
      exact dialogue.answered (List.ne_nil_of_mem stored)

end Reads

/-- What the host takes for a packet is a verdict, or counts as spoken. -/
theorem countP_packets (sent : List CommsPacket) :
    sent.countP (fun packet => frameKind packet = .packet) ≤
      sent.countP Spoken + sent.countP fun packet => IsVerdict packet := by
  induction sent with
  | nil => exact Nat.le_refl 0
  | cons packet sent ih =>
    have one : (if frameKind packet = .packet then 1 else 0) ≤
        (if Spoken packet = true then 1 else 0) + if IsVerdict packet then 1 else 0 := by
      by_cases isPacket : frameKind packet = .packet
      · by_cases verdict : IsVerdict packet
        · simp [isPacket, verdict]
        · simp [isPacket, verdict, Spoken]
      · simp [isPacket]
    rw [List.countP_cons, List.countP_cons, List.countP_cons]
    simp only [decide_eq_true_eq]
    omega

section Ahead

variable {validate : Flash → Option Bool} {fwImage : List Byte} {m : MainState}
  {said : List (Option CommsPacket)} (h : HostSaid fwImage m said) {v : Session}
  (dialogue : Dialogue validate v) (safe : .overrun ∉ v.trace)
  (read : v.trace.commsBytes <+: (wirePackets said).flatMap CommsPacket.bytes)
include h dialogue safe read

/-- Every packet taken is one of the script that was read. -/
theorem HostSaid.taken_le : ∃ front, ReadFront said v.trace.commsBytes front ∧
    v.trace.taken.length + retxFrames v.trace.commsBytes ≤ front.reduceOption.length ∧
      retxFrames v.trace.commsBytes ≤ 1 := by
  have front := readFront read
  obtain ⟨stored, one⟩ := front.stored_length h
  have queued := congrArg List.length (dialogue.queue.fifo safe)
  rw [dialogue.queue.stored, List.length_append] at queued
  exact ⟨_, front, by omega, one⟩

/-- What the host says is never far ahead of what the bootloader has read. -/
theorem HostSaid.ahead
    (answers : said.count none ≤ v.trace.sent.countP (frameKind · = .packet) + 1)
    (pace : m.said ≤ v.trace.taken.length + 1) :
    said.length ≤ v.trace.commsBytes.length / 18 + 7 := by
  obtain ⟨front, isRead, taken, one⟩ := h.taken_le dialogue safe read
  have lines := said_length said
  have ahead := said_length front
  have paced := h.paced front isRead.isFront
  have packets := countP_packets v.trace.sent
  have verdict : v.trace.sent.countP (fun packet => IsVerdict packet) ≤ 1 :=
    dialogue.verdict.trans (by split <;> decide)
  have turns := dialogue.turns
  have count := isRead.count
  have said := h.count
  unfold turnsAfter at turns
  -- two packets at least are said for the first one taken, one for each later one
  split at turns
  · omega
  · split at turns
    · omega
    · omega

omit safe in
/-- While there is more of the script to say the bootloader speaks in turn. -/
theorem HostSaid.in_turn (more : m.said < (script fwImage).length) :
    v.trace.sent.countP Spoken ≤ turnsAfter v.trace.taken.length := by
  have none := (readFront read).no_retx h more
  have turns := dialogue.turns
  omega

end Ahead

/-! ## The invariant -/

/-- A packet that is intact and made of one byte is the packet made of that byte. -/
theorem eq_single {packet : CommsPacket} {byte : Byte} (intact : frameKind packet = .packet)
    (single : commsIsSingleBytePacket packet byte = true) :
    packet = commsCreateSingleBytePacket byte := by
  have crc : commsCalculateCrc packet = packet.crc := by
    by_contra wrong
    rw [frameKind, if_neg wrong] at intact
    cases intact
  have same := (commsIsSingleBytePacket_iff packet byte).mp single
  have made : (commsCreateSingleBytePacket byte).bytes.take 17 =
      1 :: byte :: List.replicate 15 0xff := rfl
  rw [← made, packet.take_bytes, CommsPacket.take_bytes, List.cons.injEq,
    Vector.toList_inj] at same
  obtain ⟨length, data, check⟩ := packet
  obtain ⟨rfl, rfl⟩ := same
  exact congrArg (CommsPacket.mk _ _) crc.symm

/-- What a host that listens has heard: the frames seen so far, as far as `main` has got,
each answered with an ACK. The one more there may be is the ACK of SYNC_OBSERVED. -/
structure HostHears (m : MainState) (seen : List Byte) (replies : Nat) : Prop where
  rx : m.host.link.rxBuffer = tailOf seen
  heard : ∃ heard, heard ++ m.host.link.packets = packetsOf seen ∧ heard.length = m.heard ∧
    ∀ packet ∈ heard, ¬IsVerdict packet
  answered : (packetsOf seen).length ≤ replies ∧ replies ≤ (packetsOf seen).length + 1

/-- The invariant of an update, seen from entry `n` of the bootloader's record on: the
host has said `said`, of which `arrived` has arrived, and has seen `seen`. -/
structure ExchangeInv (drv : FlashDriver) (validate : Flash → Option Bool) (flash0 : Flash)
    (fwImage : List Byte) (n : Nat) (s : Exchange) (said : List (Option CommsPacket))
    (arrived seen : List Byte) : Prop where
  boot : BootPart drv validate flash0 n s.boot arrived
  forward : arrived ++ s.toBoot = (wirePackets said).flatMap CommsPacket.bytes
  backward : seen ++ s.toHost = (s.boot.since n).sent.flatMap CommsPacket.bytes
  main : MainOk fwImage s.main
  scripted : HostSaid fwImage s.main said
  answers : said.count none ≤ (s.boot.since n).sent.countP (frameKind · = .packet) + 1
  pace : s.main.said ≤ (s.boot.since n).taken.length + 1
  hears : s.main.host.Listening → HostHears s.main seen (said.count none)
  success : s.main.host.phase = .finished → updateSuccessful ∈ (s.boot.since n).sent

section Keep

variable {drv : FlashDriver} {validate : Flash → Option Bool} {flash0 : Flash}
  {fwImage : List Byte} {n : Nat} {s : Exchange} {said : List (Option CommsPacket)}
  {arrived seen : List Byte}
  (inv : ExchangeInv drv validate flash0 fwImage n s said arrived seen)
include inv

theorem ExchangeInv.read :
    (s.boot.since n).commsBytes <+: (wirePackets said).flatMap CommsPacket.bytes :=
  inv.boot.read.trans (inv.forward ▸ List.prefix_append _ _)

/-- A host that says nothing puts nothing on the wire. -/
theorem ExchangeInv.silent {obs : Trace} (silent : obs.sent = []) :
    arrived ++ (s.toBoot ++ obs.sent.flatMap Updater.toBuffer) =
      (wirePackets said).flatMap CommsPacket.bytes := by
  rw [silent, List.flatMap_nil, List.append_nil]
  exact inv.forward

/-- What the host has seen are the first frames the bootloader has said. -/
theorem ExchangeInv.seen_frames {data : List Byte} (arrives : data <+: s.toHost) :
    framesOf (seen ++ data) <+: (s.boot.since n).sent := by
  have part : seen ++ data <+: (s.boot.since n).sent.flatMap CommsPacket.bytes := by
    rw [← inv.backward]
    exact (List.prefix_append_right_inj _).mpr arrives
  rw [framesOf_front part]
  exact List.take_prefix _ _

theorem ExchangeInv.seen_sent : framesOf seen <+: (s.boot.since n).sent := by
  have frames := inv.seen_frames (List.nil_prefix (l := s.toHost))
  rwa [List.append_nil] at frames

/-- What `main` has heard, the bootloader has spoken. -/
theorem ExchangeInv.spoken {heard rest : List CommsPacket} (all : heard ++ rest = packetsOf seen)
    (undecided : ∀ packet ∈ heard, ¬IsVerdict packet) :
    heard.length ≤ (s.boot.since n).sent.countP Spoken := by
  have spoken : heard.countP Spoken = heard.length := by
    rw [List.countP_eq_length]
    intro packet member
    have seen : packet ∈ packetsOf seen := all ▸ List.mem_append_left _ member
    have isPacket := of_decide_eq_true (List.mem_filter.mp seen).2
    exact decide_eq_true ⟨isPacket, undecided packet member⟩
  rw [← spoken]
  have part : heard.Sublist (packetsOf seen) := all ▸ List.sublist_append_left _ _
  exact ((part.trans List.filter_sublist).trans inv.seen_sent.sublist).countP_le

/-- The bootloader goes through an event. -/
theorem ExchangeInv.bootDoes {e : BootEvent} {arrived' toBoot : List Byte}
    (boot : BootPart drv validate flash0 n (bootStep drv validate s.boot e) arrived')
    (forward : arrived' ++ toBoot = arrived ++ s.toBoot) :
    ExchangeInv drv validate flash0 fwImage n
      ({ s with toBoot := toBoot }.bootDoes drv validate e) said arrived' seen := by
  obtain ⟨obs, trace⟩ := bootStep_trace drv validate (b := s.boot) e
  have since : (bootStep drv validate s.boot e).since n = s.boot.since n ++ obs := by
    rw [Boot.since, trace, List.drop_append_of_le_length inv.boot.inside]
    rfl
  have sent : ((bootStep drv validate s.boot e).since n).sent =
      (s.boot.since n).sent ++ obs.sent := by
    rw [since, Trace.sent_append]
  refine ⟨boot, forward.trans inv.forward, ?_, inv.main, inv.scripted, ?_, ?_, inv.hears, ?_⟩
  · show seen ++ (s.toHost ++ ((bootStep drv validate s.boot e).trace.sent.drop
      s.boot.trace.sent.length).flatMap CommsPacket.bytes) =
        ((bootStep drv validate s.boot e).since n).sent.flatMap CommsPacket.bytes
    rw [sent, List.flatMap_append, ← inv.backward, trace, Trace.sent_append, List.drop_left,
      List.append_assoc]
  · refine inv.answers.trans ?_
    show _ ≤ ((bootStep drv validate s.boot e).since n).sent.countP _ + 1
    rw [sent, List.countP_append]
    omega
  · refine inv.pace.trans ?_
    show _ ≤ ((bootStep drv validate s.boot e).since n).taken.length + 1
    rw [since, Trace.taken_append, List.length_append]
    omega
  · intro finished
    show updateSuccessful ∈ ((bootStep drv validate s.boot e).since n).sent
    rw [sent]
    exact List.mem_append_left _ (inv.success finished)

/-- A byte reaches the receive interrupt. The byte queue has room for it. -/
theorem ExchangeInv.bootRx : ∃ arrived', ExchangeInv drv validate flash0 fwImage n
    (s.bootRx drv validate) said arrived' seen := by
  unfold Exchange.bootRx
  cases wire : s.toBoot with
  | nil => exact ⟨arrived, inv⟩
  | cons byte toBoot =>
    have forward := inv.forward
    rw [wire] at forward
    refine ⟨arrived ++ [byte], inv.bootDoes (inv.boot.rx byte fun live => ?_) ?_⟩
    · have ahead := inv.scripted.ahead inv.boot.dialogue inv.boot.safe inv.read inv.answers
        inv.pace
      have held := congrArg List.length (inv.boot.held live)
      have all := congrArg List.length forward
      rw [flatMap_bytes_length, wirePackets, List.length_map, List.length_append,
        List.length_cons] at all
      rw [List.length_append] at held
      change said.length ≤ (s.boot.since n).commsBytes.length / 18 + 7 at ahead
      omega
    · rw [List.append_assoc, wire]
      rfl

theorem ExchangeInv.bootTick : ExchangeInv drv validate flash0 fwImage n
    (s.bootDoes drv validate .tick) said arrived seen := inv.bootDoes inv.boot.tick rfl

/-- The main program of the bootloader makes a step. -/
theorem ExchangeInv.bootMain : ExchangeInv drv validate flash0 fwImage n
    (s.bootDoes drv validate .main) said arrived seen := by
  refine inv.bootDoes (inv.boot.main rfl ?_) rfl
  intro more one grows inside
  have whole := inside.trans (inv.forward ▸ List.prefix_append arrived s.toBoot)
  refine ⟨inv.scripted.readsWell inv.boot.dialogue one grows whole, ?_⟩
  have front := readFront whole
  have stored := (front.stored_length inv.scripted).1
  have lines := (reduceOption_front front.isFront).length_le
  have count := inv.scripted.count
  have pace := inv.pace
  omega

/-- The receive handler gets some bytes. -/
theorem ExchangeInv.hostData (k : Nat) : ∃ said' seen', ExchangeInv drv validate flash0 fwImage n
    (s.hostData k) said' arrived seen' := by
  have seen_all : seen ++ s.toHost.take k ++ s.toHost.drop k =
      (s.boot.since n).sent.flatMap CommsPacket.bytes := by
    rw [List.append_assoc, List.take_append_drop]
    exact inv.backward
  by_cases listening : s.main.host.Listening
  · have hears := inv.hears listening
    have frames := inv.seen_frames (List.take_prefix k s.toHost)
    -- the bootloader says nothing but ACKs and packets
    obtain ⟨new, stored, rx, packets, acks⟩ := Updater.onData_acks hears.rx fun frame member =>
      inv.boot.dialogue.kinds frame (frames.subset member)
    have said_count : (said ++ List.replicate new.length none).count none =
        said.count none + new.length := by
      rw [List.count_append, List.count_replicate_self]
    have stored_length : (packetsOf (seen ++ s.toHost.take k)).length =
        (packetsOf seen).length + new.length := by
      rw [stored, List.length_append]
    have answered := hears.answered
    refine ⟨said ++ List.replicate new.length none, seen ++ s.toHost.take k, ?_⟩
    unfold Exchange.hostData Updater.mainData
    rw [hostData_listening listening]
    refine ⟨inv.boot, ?_, seen_all, inv.main.withLink _, ?_, ?_, inv.pace,
      fun _ => ⟨rx, ?_, ?_⟩, inv.success⟩
    · show arrived ++ (s.toBoot ++ (Updater.onData _ _).2.sent.flatMap _) = _
      rw [acks, ← List.append_assoc, inv.forward, wirePackets_append, List.flatMap_append,
        wirePackets_acks]
      rfl
    · have same : (MainState.mk s.main.stage { s.main.host with
          link := (Updater.onData s.main.host.link (s.toHost.take k)).1 }).said = s.main.said := rfl
      exact inv.scripted.replies same new.length
    · show _ ≤ (s.boot.since n).sent.countP (frameKind · = .packet) + 1
      have most := frames.sublist.filter fun packet => frameKind packet = .packet
      have most := most.length_le
      rw [← packetsOf, stored_length, ← List.countP_eq_length_filter] at most
      rw [said_count]
      omega
    · obtain ⟨heard, queue, count, undecided⟩ := hears.heard
      refine ⟨heard, ?_, count, undecided⟩
      show heard ++ (Updater.onData _ _).1.packets = _
      rw [packets, stored, ← queue, List.append_assoc]
    · rw [said_count, stored_length]
      omega
  · refine ⟨said, seen ++ s.toHost.take k, ?_⟩
    unfold Exchange.hostData Updater.mainData
    rw [hostData_closed listening]
    exact ⟨inv.boot, inv.silent rfl, seen_all, inv.main, inv.scripted, inv.answers, inv.pace,
      fun again => absurd again listening, inv.success⟩

/-- `main` goes on. -/
theorem ExchangeInv.moves {m' : MainState} {obs : Trace} (ok : MainOk fwImage m')
    (moves : MainMoves fwImage s.main m' obs) :
    ∃ said', ExchangeInv drv validate flash0 fwImage n (s.hostDoes (m', obs)) said' arrived
      seen := by
  cases moves with
  | rests same silent =>
    refine ⟨said, inv.boot, inv.silent silent, inv.backward, ok, ?_, inv.answers, ?_, ?_, ?_⟩
    · exact same ▸ inv.scripted
    · exact same ▸ inv.pace
    · exact same ▸ inv.hears
    · exact same ▸ inv.success
  | ends listening ended silent count success =>
    refine ⟨said, inv.boot, inv.silent silent, inv.backward, ok, ?_, inv.answers, ?_, ?_, ?_⟩
    · exact ⟨inv.scripted.scripted, inv.scripted.count.trans count.symm, inv.scripted.paced⟩
    · exact count ▸ inv.pace
    · exact fun again => absurd again ended
    · intro finished
      obtain ⟨packet, member, successful⟩ := success finished
      obtain ⟨-, ⟨before, queue, -, -⟩, -⟩ := inv.hears listening
      have seen : packet ∈ packetsOf seen := queue ▸ List.mem_append_right _ member
      have isPacket := of_decide_eq_true (List.mem_filter.mp seen).2
      rw [updateSuccessful, ← eq_single isPacket successful]
      exact inv.seen_sent.subset (List.mem_filter.mp seen).1
  | goes heard lines listening packets rx hears undecided sent count scripted =>
    obtain ⟨rx', ⟨before, queue, length, earlier⟩, answered⟩ := inv.hears listening.1
    have all : before ++ heard ++ m'.host.link.packets = packetsOf seen := by
      rw [List.append_assoc, ← packets, queue]
    have undecided' : ∀ packet ∈ before ++ heard, ¬IsVerdict packet := by
      intro packet member
      exact (List.mem_append.mp member).elim (earlier packet) (undecided packet)
    have inTime : m'.heard ≤ (packetsOf seen).length := by
      rw [← all, List.length_append, List.length_append]
      omega
    have paced := m'.said_le_heard
    have acks : (said ++ lines.map some).count none = said.count none := by
      have none : (lines.map some).count none = 0 := List.count_eq_zero_of_not_mem (by simp)
      rw [List.count_append, none, Nat.add_zero]
    refine ⟨said ++ lines.map some, inv.boot, ?_, inv.backward, ok, ?_, ?_, ?_, ?_, ?_⟩
    · show arrived ++ (s.toBoot ++ obs.sent.flatMap Updater.toBuffer) = _
      rw [sent, ← List.append_assoc, inv.forward, wirePackets_append, List.flatMap_append,
        wirePackets_lines]
      rfl
    · exact inv.scripted.goes scripted count
        (paced.imp_right fun few => few.trans (inTime.trans answered.1))
    · rw [acks]
      exact inv.answers
    · show m'.said ≤ (s.boot.since n).taken.length + 1
      cases lines with
      | nil => exact count ▸ inv.pace
      | cons line lines =>
        have more : s.main.said < (script fwImage).length := by
          have room := scripted.length_le
          rw [List.length_drop, List.length_cons] at room
          omega
        have turn := inv.scripted.in_turn inv.boot.dialogue inv.read more
        change (s.boot.since n).sent.countP Spoken ≤ turnsAfter (s.boot.since n).taken.length
          at turn
        have spoken := inv.spoken all undecided'
        rw [List.length_append, length, ← hears] at spoken
        unfold turnsAfter at turn
        split at turn
        · omega
        · split at turn <;> omega
    · intro _
      refine ⟨rx.trans rx', ⟨before ++ heard, all, ?_, undecided'⟩, ?_⟩
      · rw [List.length_append, length]
        exact hears.symm
      · rwa [acks]
    · intro finished
      rcases listening.2 with phase | phase
      · exact absurd (phase.symm.trans finished) (by decide)
      · exact absurd (phase.symm.trans finished) (by decide)

theorem ExchangeInv.step (e : ExchangeEvent) : ∃ said' arrived' seen',
    ExchangeInv drv validate flash0 fwImage n (exchangeStep drv validate s e) said' arrived'
      seen' := by
  cases e with
  | bootRx =>
    obtain ⟨arrived', inv'⟩ := inv.bootRx
    exact ⟨said, arrived', seen, inv'⟩
  | bootTick => exact ⟨said, arrived, seen, inv.bootTick⟩
  | bootMain => exact ⟨said, arrived, seen, inv.bootMain⟩
  | hostData k =>
    obtain ⟨said', seen', inv'⟩ := inv.hostData k
    exact ⟨said', arrived, seen', inv'⟩
  | hostMain =>
    obtain ⟨said', inv'⟩ := inv.moves inv.main.step (mainStep_moves inv.main)
    exact ⟨said', arrived, seen, inv'⟩
  | hostTimeout =>
    obtain ⟨said', inv'⟩ := inv.moves inv.main.timeout (mainTimeout_moves inv.main)
    have silent : s.hostDoes (Updater.mainTimeout s.main, []) =
        { s with main := Updater.mainTimeout s.main } := by
      unfold Exchange.hostDoes
      exact congrArg (Exchange.mk _ _ · _) (List.append_nil _)
    rw [silent] at inv'
    exact ⟨said', arrived, seen, inv'⟩

end Keep

/-! ## The start -/

section Start

variable {drv : FlashDriver} {validate : Flash → Option Bool} {flash0 : Flash}
  {fwImage : List Byte} {s : Exchange}
  (start : ExchangeStart drv validate flash0 fwImage s)
include start

theorem ExchangeStart.bootPart :
    BootPart drv validate flash0 s.boot.trace.length s.boot [] := by
  obtain ⟨es, run⟩ := start.run
  have session : SessionInv flash0 s.boot.session :=
    run ▸ bootRun_sessionInv drv validate flash0 es
  have ring : RingOk s.boot.rxRingBuffer := run ▸ bootRun_ringOk drv validate flash0 es
  have nothing : s.boot.since s.boot.trace.length = [] := List.drop_length
  have all : s.boot.trace.take s.boot.trace.length = s.boot.trace := List.take_length
  have waiting : s.boot.session.bootloaderState = .waitForFwUpdateReq := start.waiting
  have fresh : Fresh s.boot.comms :=
    run ▸ bootRun_fresh drv validate flash0 es (run ▸ start.between) (run ▸ start.taken)
  refine ⟨start.run, Nat.le_refl _, ?_, ?_, ?_, ?_, ?_⟩
  · have progress := session.progress
    unfold Progress at progress
    rw [waiting] at progress
    rw [all]
    have before := session.untouched (by rw [waiting]; decide) (by rw [waiting]; decide)
    exact ⟨progress, before.accepted⟩
  · refine .start (Fresh.queueInv (v := s.boot.session) fresh) nothing waiting ?_
    intro flush
    exact absurd (waiting.symm.trans (session.flushing flush).1) (by decide)
  · rw [nothing]
    nofun
  · rw [nothing]
    exact List.nil_prefix
  · intro _
    rw [nothing, (held_eq_nil ring.ringSize).mpr start.read]
    rfl

theorem ExchangeStart.inv : ∃ said arrived seen,
    ExchangeInv drv validate flash0 fwImage s.boot.trace.length s said arrived seen := by
  obtain ⟨k, one, wire⟩ : ∃ k ≤ 1,
      s.toBoot = (wirePackets (List.replicate k none)).flatMap CommsPacket.bytes := by
    rcases start.toBoot with none | ack
    · exact ⟨0, Nat.zero_le 1, none⟩
    · exact ⟨1, Nat.le_refl 1, ack.trans (List.append_nil _).symm⟩
  have nothing : s.boot.since s.boot.trace.length = [] := List.drop_length
  have said : s.main.said = 0 := by rw [MainState.said, start.stage]
  have heard : s.main.heard = 0 := by rw [MainState.heard, start.stage]
  have unsent : s.main.host.chunksSent = 0 := by rw [Updater.Host.chunksSent, start.written]
  have acks : (List.replicate k (none : Option CommsPacket)).count none = k :=
    List.count_replicate_self
  have lines : (List.replicate k (none : Option CommsPacket)).reduceOption = [] :=
    List.reduceOption_replicate_none
  refine ⟨List.replicate k none, [], [], start.bootPart, wire, ?_, ?_, ?_, ?_, ?_, ?_, ?_⟩
  · rw [nothing, start.toHost]
    rfl
  · refine ⟨start.image, ?_, fun _ => ⟨start.written, .inl start.phase⟩⟩
    rw [start.written, unsent]
    exact (Nat.zero_min _).symm
  · refine ⟨lines ▸ List.nil_prefix, by rw [lines, said]; rfl, ?_⟩
    intro front hprefix
    have few := (reduceOption_front hprefix).length_le
    rw [lines] at few
    exact .inl (few.trans (Nat.zero_le 1))
  · rw [acks]
    omega
  · rw [said]
    exact Nat.zero_le _
  · intro _
    refine ⟨start.rx, ⟨[], ?_, heard.symm, fun _ none => absurd none List.not_mem_nil⟩, ?_⟩
    · rw [start.packets]
      rfl
    · rw [acks]
      exact ⟨Nat.zero_le _, one⟩
  · intro finished
    exact absurd (start.phase.symm.trans finished) (by decide)

end Start

end SecureBootloader
