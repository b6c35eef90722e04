import SecureBootloader.Link.Progress
import SecureBootloader.Boot.Serving
import SecureBootloader.Updater.Sync

/-!
# The synchronisation

The bootloader as it boots and `syncWithBootloader` of `index.ts`, with the wires of an
update between them. When everything is quiet at the end of a second the update starts: the
bootloader has heard the sync sequence once, and the ACK of its answer is behind it.
-/

namespace SecureBootloader

open Updater (SyncState)

/-- The two programs before the update, and the bytes in flight. -/
structure Greeting where
  boot : Boot
  sync : SyncState
  toBoot : List Byte
  toHost : List Byte

inductive GreetingEvent where
  | bootRx
  | bootTick
  | bootMain
  | hostData (n : Nat)
  | hostDelay
  deriving DecidableEq, Repr

namespace Greeting

section Steps

variable (drv : FlashDriver) (validate : Flash → Option Bool)

/-- The bootloader goes through an event; what it sends goes on the wire. -/
def bootDoes (g : Greeting) (e : BootEvent) : Greeting :=
  let boot := bootStep drv validate g.boot e
  { g with
    boot := boot
    toHost := g.toHost ++
      (boot.trace.sent.drop g.boot.trace.sent.length).flatMap CommsPacket.bytes }

/-- The next byte reaches the receive interrupt. -/
def bootRx (g : Greeting) : Greeting :=
  match g.toBoot with
  | [] => g
  | byte :: toBoot => { g with toBoot := toBoot }.bootDoes drv validate (.rx byte)

end Steps

/-- The next `n` bytes reach the host, or those there are. -/
def hostData (g : Greeting) (n : Nat) : Greeting :=
  let (sync, obs) := Updater.syncData g.sync (g.toHost.take n)
  { g with
    sync := sync
    toBoot := g.toBoot ++ obs.sent.flatMap Updater.toBuffer
    toHost := g.toHost.drop n }

/-- A second is over. -/
def hostDelay (g : Greeting) : Greeting :=
  let (sync, written) := Updater.syncDelay g.sync
  { g with sync := sync, toBoot := g.toBoot ++ written }

/-- The update behind the synchronisation. -/
def begins (g : Greeting) (fwImage : List Byte) : Exchange :=
  ⟨g.boot, g.sync.begins fwImage, g.toBoot, g.toHost⟩

end Greeting

def greetingStep (drv : FlashDriver) (validate : Flash → Option Bool) (g : Greeting) :
    GreetingEvent → Greeting
  | .bootRx => g.bootRx drv validate
  | .bootTick => g.bootDoes drv validate .tick
  | .bootMain => g.bootDoes drv validate .main
  | .hostData n => g.hostData n
  | .hostDelay => g.hostDelay

/-- The bootloader boots, and the host has written the sync sequence, for the first time or
not; what it wrote before was lost. -/
def greetingStart (flash0 : Flash) (timeWaited : Nat) : Greeting where
  boot := bootInit flash0
  sync := ⟨⟨[], [], ackPacket⟩, timeWaited, .waiting⟩
  toBoot := Updater.syncSeq
  toHost := []

/-- The bootloader looks at its timer before the target only. -/
def Greeting.InTime (g : Greeting) : GreetingEvent → Prop
  | .bootMain => g.boot.FindsNoPacket →
      (simpleTimerHasElapsed g.boot.tickCount g.boot.timer).1 = false
  | _ => True

instance (g : Greeting) (e : GreetingEvent) : Decidable (g.InTime e) :=
  match e with
  | .bootMain => inferInstanceAs (Decidable (_ → _))
  | .bootRx | .bootTick | .hostData _ | .hostDelay => inferInstanceAs (Decidable True)

theorem begins_boot (g : Greeting) (fwImage : List Byte) :
    (g.hostDelay.begins fwImage).boot = g.boot := rfl

/-- Nothing is on its way or waits to be read, and no answer is due. -/
structure Greeting.Quiet (g : Greeting) : Prop where
  toBoot : g.toBoot = []
  toHost : g.toHost = []
  read : g.boot.rxRingBuffer.readIndex = g.boot.rxRingBuffer.writeIndex
  pc : g.boot.pc ≠ .flush

/-! ## Before the answer -/

section Listening

variable (drv : FlashDriver) (validate : Flash → Option Bool) {b : Boot}

theorem unseen_session {e : BootEvent} (other : e ≠ .main) :
    (bootStep drv validate b e).session = b.session := by
  rcases bootStep_session drv validate b e with same | ⟨main, -⟩
  · exact same
  · exact absurd main other

/-- A look at the timer that comes in time. -/
theorem checkForTimeout_early (early : (simpleTimerHasElapsed b.tickCount b.timer).1 = false) :
    b.checkForTimeout.session = b.session ∧ b.checkForTimeout.rxRingBuffer = b.rxRingBuffer := by
  unfold Boot.checkForTimeout
  dsimp only
  rw [early]
  exact ⟨rfl, rfl⟩

/-- In the SYNC state a step in time reads the oldest byte of the byte queue, or there is none. -/
theorem sync_reads (ok : RingOk b.rxRingBuffer) (pc : b.pc = .loop)
    (sync : b.bootloaderState = .sync) (inTime : b.FindsNoPacket →
      (simpleTimerHasElapsed b.tickCount b.timer).1 = false) :
    (b.rxRingBuffer.held = [] ∧ (bootStep drv validate b .main).session = b.session ∧
      (bootStep drv validate b .main).rxRingBuffer = b.rxRingBuffer) ∨
    ∃ byte, b.rxRingBuffer.held = byte :: (bootStep drv validate b .main).rxRingBuffer.held ∧
      (bootStep drv validate b .main).session = if b.session.shifted byte = syncSequence then
        (b.session.reads byte).atPc .flush else b.session.reads byte := by
  have step : bootStep drv validate b .main = b.syncStep := by
    rw [bootStep, Boot.mainStep, pc, sync]
  rw [step]
  unfold Boot.syncStep
  rcases ringBufferRead_held (k := 7) (by decide) ok.ringSize with
    ⟨empty, nothing⟩ | ⟨byte, read, -, held⟩
  · have early := inTime (.inl ⟨pc, sync, fun byte member => by
      rw [nothing] at member
      cases member⟩)
    rw [nothing]
    exact .inl ⟨empty, checkForTimeout_early early⟩
  · refine .inr ⟨byte, ?_⟩
    rw [← Prod.mk.eta (p := ringBufferRead b.rxRingBuffer), read]
    dsimp only
    by_cases found : b.session.shifted byte = syncSequence
    · rw [if_pos (show (⟨b.syncSeq.s1, b.syncSeq.s2, b.syncSeq.s3, byte⟩ : SyncSeq) =
        syncSequence from found)]
      exact ⟨held, (if_pos found).symm⟩
    · have early := inTime (.inl ⟨pc, sync, fun byte' member => by
        rw [read] at member
        cases member
        exact found⟩)
      have same := checkForTimeout_early (b := ({ b with
        rxRingBuffer := (ringBufferRead b.rxRingBuffer).2
        syncSeq := b.session.shifted byte } : Boot).shows [.syncByte byte]) early
      rw [if_neg (show (⟨b.syncSeq.s1, b.syncSeq.s2, b.syncSeq.s3, byte⟩ : SyncSeq) ≠
        syncSequence from found), if_neg found]
      exact ⟨held.trans (congrArg (byte :: RingBuffer.held ·) same.2.symm), same.1⟩

end Listening

/-- The bootloader has heard a front part of the sync sequence, and the rest is on its way. -/
structure Hearing (drv : FlashDriver) (validate : Flash → Option Bool) (flash0 : Flash)
    (g : Greeting) : Prop where
  run : ∃ es, g.boot = bootRun drv validate flash0 es
  pc : g.boot.pc = .setup ∨ g.boot.pc = .loop ∨ g.boot.pc = .flush
  state : g.boot.bootloaderState = .sync
  comms : g.boot.comms = commsInit
  bytes : g.boot.trace.heard ++ g.boot.rxRingBuffer.held ++ g.toBoot = syncBytes
  whole : g.boot.trace.heard = syncBytes ↔ g.boot.pc = .flush
  toHost : g.toHost = []
  link : g.sync.link = ⟨[], [], ackPacket⟩
  phase : g.sync.phase = .waiting

/-- Less than a frame is only kept. -/
theorem onData_short {link : Updater.HostLink} {data : List Byte}
    (short : (link.rxBuffer ++ data).length < 18) :
    Updater.onData link data = ({ link with rxBuffer := link.rxBuffer ++ data }, []) :=
  Updater.handleLoop_short short _

theorem onData_nothing {link : Updater.HostLink} (rx : link.rxBuffer = []) :
    Updater.onData link [] = (link, []) := by
  rw [onData_short (by simp [rx]), List.append_nil]

theorem syncData_nothing {s : SyncState} (rx : s.link.rxBuffer = []) :
    Updater.syncData s [] = (s, []) := by
  unfold Updater.syncData
  rw [onData_nothing rx]
  split <;> rfl

theorem syncData_waiting {s : SyncState} (waiting : s.phase = .waiting) (data : List Byte) :
    Updater.syncData s data =
      ({ s with link := (Updater.onData s.link data).1 }, (Updater.onData s.link data).2) := by
  obtain ⟨link, waited, phase⟩ := s
  obtain rfl : phase = .waiting := waiting
  rfl

/-- The answer to the sync sequence. -/
def syncObserved : CommsPacket := commsCreateSingleBytePacket blPacketSyncObservedData0

/-- The update as it will begin once the host has taken the answer. -/
def Greeting.toCome (g : Greeting) (fwImage : List Byte) : Exchange :=
  ⟨g.boot, ⟨.fwUpdateReq, ⟨⟨[], [], g.sync.link.lastPacket⟩, fwImage, 0, .transfer⟩⟩, g.toBoot, []⟩

/-- The bootloader has answered, and the answer is on its way to the host, or there and
acknowledged. -/
structure Answered (drv : FlashDriver) (validate : Flash → Option Bool) (flash0 : Flash)
    (fwImage : List Byte) (n : Nat) (g : Greeting) (said : List (Option CommsPacket))
    (arrived : List Byte) : Prop where
  inv : ExchangeInv drv validate flash0 fwImage n (g.toCome fwImage) said arrived []
  course : Course fwImage (g.boot.session.since n)
  answer : ∃ seen, seen ++ g.toHost = syncObserved.bytes ∧
    g.sync.link = (Updater.onData ⟨[], [], ackPacket⟩ seen).1
  unheard : g.toHost ≠ [] → g.toBoot = [] ∧ arrived = []
  phase : g.sync.phase = .waiting

theorem syncDelay_observed {s : SyncState} (waiting : s.phase = .waiting)
    (link : s.link = ⟨[], [syncObserved], ackPacket⟩) : Updater.syncDelay s =
      (⟨⟨[], [], ackPacket⟩, s.timeWaited + 1000, .synced⟩, []) := by
  obtain ⟨_, waited, phase⟩ := s
  obtain rfl : phase = .waiting := waiting
  obtain rfl := link
  rfl

section Hearing

variable {drv : FlashDriver} {validate : Flash → Option Bool} {flash0 : Flash} {g : Greeting}
  (h : Hearing drv validate flash0 g)
include h

theorem Hearing.ringOk : RingOk g.boot.rxRingBuffer := by
  obtain ⟨es, run⟩ := h.run
  rw [run]
  exact bootRun_ringOk drv validate flash0 es

theorem Hearing.run_step (e : BootEvent) :
    ∃ es, bootStep drv validate g.boot e = bootRun drv validate flash0 es := by
  obtain ⟨es, run⟩ := h.run
  exact ⟨es ++ [e], by rw [run, bootRun_concat]⟩

/-- An event that says nothing and leaves the sequence together. -/
theorem Hearing.goesOn {e : BootEvent} {toBoot : List Byte} (obs : Trace)
    (trace : (bootStep drv validate g.boot e).trace = g.boot.trace ++ obs) (silent : obs.sent = [])
    (pc : (bootStep drv validate g.boot e).pc = .setup ∨
      (bootStep drv validate g.boot e).pc = .loop ∨ (bootStep drv validate g.boot e).pc = .flush)
    (state : (bootStep drv validate g.boot e).bootloaderState = .sync)
    (comms : (bootStep drv validate g.boot e).comms = g.boot.comms)
    (bytes : obs.heard ++ (bootStep drv validate g.boot e).rxRingBuffer.held ++ toBoot =
      g.boot.rxRingBuffer.held ++ g.toBoot)
    (whole : g.boot.trace.heard ++ obs.heard = syncBytes ↔
      (bootStep drv validate g.boot e).pc = .flush) :
    Hearing drv validate flash0 ({ g with toBoot := toBoot }.bootDoes drv validate e) := by
  have heard : (bootStep drv validate g.boot e).trace.heard = g.boot.trace.heard ++ obs.heard := by
    rw [trace, Trace.heard_append]
  refine ⟨h.run_step e, pc, state, comms.trans h.comms, ?_, ?_, ?_, h.link, h.phase⟩
  · show (bootStep drv validate g.boot e).trace.heard ++ _ ++ toBoot = _
    rw [heard, List.append_assoc, List.append_assoc, ← List.append_assoc obs.heard]
    refine Eq.trans (congrArg (_ ++ ·) bytes) ?_
    rw [← List.append_assoc]
    exact h.bytes
  · show (bootStep drv validate g.boot e).trace.heard = _ ↔
      (bootStep drv validate g.boot e).pc = _
    rw [heard]
    exact whole
  · show g.toHost ++ ((bootStep drv validate g.boot e).trace.sent.drop _).flatMap _ = []
    rw [trace, Trace.sent_append, List.drop_left, silent, h.toHost]
    rfl

/-- An event that the session does not see. -/
theorem Hearing.unseen {e : BootEvent} {toBoot : List Byte}
    (same : (bootStep drv validate g.boot e).session = g.boot.session)
    (bytes : (bootStep drv validate g.boot e).rxRingBuffer.held ++ toBoot =
      g.boot.rxRingBuffer.held ++ g.toBoot) :
    Hearing drv validate flash0 ({ g with toBoot := toBoot }.bootDoes drv validate e) := by
  have pc : (bootStep drv validate g.boot e).pc = g.boot.pc := congrArg Session.pc same
  refine h.goesOn [] ?_ rfl (pc ▸ h.pc) ((congrArg Session.bootloaderState same).trans h.state)
    (congrArg Session.comms same) bytes ?_
  · rw [List.append_nil]
    exact congrArg Session.trace same
  · rw [pc, ← h.whole]
    exact Iff.of_eq (congrArg (· = _) (List.append_nil _))

theorem Hearing.bootTick : Hearing drv validate flash0 (g.bootDoes drv validate .tick) := by
  refine h.unseen (unseen_session drv validate BootEvent.noConfusion) ?_
  rw [bootStep]
  split <;> rfl

theorem Hearing.bootRx : Hearing drv validate flash0 (g.bootRx drv validate) := by
  unfold Greeting.bootRx
  cases wire : g.toBoot with
  | nil => exact h
  | cons byte toBoot =>
    refine h.unseen (unseen_session drv validate BootEvent.noConfusion) ?_
    have room : g.boot.rxRingBuffer.held.length < 127 := by
      have all := congrArg List.length h.bytes
      simp only [List.length_append, syncBytes, List.length_cons, List.length_nil] at all
      omega
    have live : g.boot.pc ≠ .gone := by
      rcases h.pc with pc | pc | pc <;> simp [pc]
    rw [wire, bootStep, if_neg live]
    show (ringBufferWrite g.boot.rxRingBuffer byte).2.held ++ toBoot = _
    rw [(ringBufferWrite_room (k := 7) (by decide) h.ringOk.ringSize room).2, List.append_assoc]
    rfl

theorem Hearing.hostData (k : Nat) : Hearing drv validate flash0 (g.hostData k) := by
  have nothing : g.toHost.take k = [] := by simp [h.toHost]
  have same := syncData_nothing (s := g.sync) (by rw [h.link])
  have still : g.hostData k = { g with toHost := [] } := by
    unfold Greeting.hostData
    rw [nothing, same, h.toHost]
    simp [Trace.sent]
  rw [still]
  exact ⟨h.run, h.pc, h.state, h.comms, h.bytes, h.whole, rfl, h.link, h.phase⟩

/-- `sync_seq` is complete when the whole sequence is heard. -/
theorem Hearing.complete (pc : g.boot.pc ≠ .flush) (byte : Byte)
    (part : g.boot.trace.heard ++ [byte] <+: syncBytes) :
    g.boot.session.shifted byte = syncSequence ↔ g.boot.trace.heard ++ [byte] = syncBytes := by
  obtain ⟨es, run⟩ := h.run
  have inv : SessionInv flash0 g.boot.session := run ▸ bootRun_sessionInv drv validate flash0 es
  obtain ⟨bytes, trace, seq⟩ := inv.reading h.state pc
  have heard : g.boot.trace.heard = bytes := by
    rw [show g.boot.trace = bytes.map Obs.syncByte from trace, Trace.heard_syncBytes]
  have window : g.boot.session.shifted byte = windowOf (g.boot.trace.heard ++ [byte]) := by
    rw [heard, windowOf_concat, ← seq]
    rfl
  rw [window, windowOf_iff]
  constructor
  · intro suffix
    exact part.eq_of_length_le suffix.length_le
  · intro all
    rw [all]

/-- The flush finds nothing more, and the bootloader answers. -/
theorem Hearing.answers (pc : g.boot.pc = .flush) (fwImage : List Byte) :
    ∃ n said arrived, Answered drv validate flash0 fwImage n (g.bootDoes drv validate .main) said
      arrived := by
  have rest := h.bytes
  rw [h.whole.mpr pc, List.append_assoc, List.append_right_eq_self] at rest
  obtain ⟨held, wire⟩ := List.append_eq_nil_iff.mp rest
  have empty := (held_eq_nil h.ringOk.ringSize).mp held
  have nothing : ringBufferRead g.boot.rxRingBuffer = (none, g.boot.rxRingBuffer) := by
    rw [ringBufferRead, if_pos empty]
  have step : bootStep drv validate g.boot .main = (((g.boot.sendSingleByte
      blPacketSyncObservedData0).withState .waitForFwUpdateReq).resetTimer).atPc .loop := by
    rw [bootStep, Boot.mainStep, pc]
    show g.boot.flushStep = _
    rw [Boot.flushStep, nothing]
  have comms : (bootStep drv validate g.boot .main).comms =
      (commsSendPacket commsInit syncObserved).1 := by
    rw [step, ← h.comms]
    rfl
  have start : ExchangeStart drv validate flash0 fwImage
      ((g.bootDoes drv validate .main).toCome fwImage) := by
    refine ⟨h.run_step .main, ?_, ?_, ?_, ?_, rfl, rfl, rfl, rfl, rfl, rfl, rfl, .inl wire⟩
    · show (bootStep drv validate g.boot .main).bootloaderState = _
      rw [step]
      rfl
    · show (bootStep drv validate g.boot .main).rxRingBuffer.readIndex =
        (bootStep drv validate g.boot .main).rxRingBuffer.writeIndex
      rw [step]
      exact empty
    · show (bootStep drv validate g.boot .main).comms.currentState = _
      rw [comms]
      rfl
    · show commsPacketAvailable (bootStep drv validate g.boot .main).comms = _
      rw [comms]
      rfl
  have under := start.underway
  obtain ⟨said, arrived, seen, inv⟩ := under.inv
  obtain ⟨rfl, rfl⟩ := start.nothing_yet inv
  refine ⟨_, said, [], inv, under.course, ⟨[], ?_, ?_⟩, fun _ => ⟨wire, rfl⟩, h.phase⟩
  · show g.toHost ++ ((bootStep drv validate g.boot .main).trace.sent.drop _).flatMap _ = _
    have trace : (bootStep drv validate g.boot .main).trace =
        g.boot.trace ++ [.sent syncObserved] := by
      rw [step]
      rfl
    rw [trace, Trace.sent_append, List.drop_left, h.toHost]
    exact List.append_nil _
  · rw [onData_nothing rfl]
    exact h.link

/-- The main program makes a step in time: it hears on, or it answers. -/
theorem Hearing.bootMain (inTime : g.InTime .bootMain) (fwImage : List Byte) :
    Hearing drv validate flash0 (g.bootDoes drv validate .main) ∨
      ∃ n said arrived, Answered drv validate flash0 fwImage n (g.bootDoes drv validate .main) said
        arrived := by
  have front := h.bytes
  rcases h.pc with pc | pc | pc
  · -- the timer is armed
    have armed : (bootStep drv validate g.boot .main).session = g.boot.session.atPc .loop ∧
        (bootStep drv validate g.boot .main).rxRingBuffer = g.boot.rxRingBuffer := by
      rw [bootStep, Boot.mainStep, pc]
      exact ⟨rfl, rfl⟩
    have there : (bootStep drv validate g.boot .main).pc = .loop := congrArg Session.pc armed.1
    refine .inl (h.goesOn [] ?_ rfl (.inr (.inl there))
      ((congrArg Session.bootloaderState armed.1).trans h.state) (congrArg Session.comms armed.1)
      (by rw [armed.2]; rfl) ?_)
    · rw [List.append_nil]
      exact congrArg Session.trace armed.1
    · constructor
      · intro all
        have flush := h.whole.mp ((List.append_nil _).symm.trans all)
        simp [pc] at flush
      · intro flush
        simp [there] at flush
  · rcases sync_reads drv validate h.ringOk pc h.state inTime with
      ⟨-, same, ring⟩ | ⟨byte, held, session⟩
    · exact .inl (h.unseen same (by rw [ring]))
    · have unfinished : g.boot.pc ≠ .flush := by simp [pc]
      have part : g.boot.trace.heard ++ [byte] <+: syncBytes := by
        rw [held] at front
        exact ⟨_, (by simpa using front)⟩
      rw [if_congr (h.complete unfinished byte part) rfl rfl] at session
      have bytes : Trace.heard [.syncByte byte] ++
          (bootStep drv validate g.boot .main).rxRingBuffer.held ++ g.toBoot =
            g.boot.rxRingBuffer.held ++ g.toBoot := by
        rw [held]
        rfl
      by_cases all : g.boot.trace.heard ++ [byte] = syncBytes
      · rw [if_pos all] at session
        have there : (bootStep drv validate g.boot .main).pc = .flush := congrArg Session.pc session
        exact .inl (h.goesOn [.syncByte byte] (congrArg Session.trace session) rfl
          (.inr (.inr there)) ((congrArg Session.bootloaderState session).trans h.state)
          (congrArg Session.comms session) bytes ⟨fun _ => there, fun _ => all⟩)
      · rw [if_neg all] at session
        have there : (bootStep drv validate g.boot .main).pc = .loop :=
          (congrArg Session.pc session).trans pc
        exact .inl (h.goesOn [.syncByte byte] (congrArg Session.trace session) rfl
          (.inr (.inl there)) ((congrArg Session.bootloaderState session).trans h.state)
          (congrArg Session.comms session) bytes
          ⟨fun whole => absurd whole all, fun flush => by simp [there] at flush⟩)
  · exact .inr (h.answers pc fwImage)

end Hearing

/-! ## Behind the answer -/

/-- A bootloader that has heard nothing but ACKs: it waits for the update request, and has said
nothing since its answer. -/
structure Unasked (v : Session) : Prop where
  state : v.bootloaderState = .waitForFwUpdateReq
  empty : commsPacketAvailable v.comms = false
  sent : v.trace.sent = []

section Unasked

variable {drv : FlashDriver} {validate : Flash → Option Bool} {flash0 : Flash}
  {fwImage : List Byte} {n : Nat} {s : Exchange} {said : List (Option CommsPacket)}
  {arrived seen : List Byte}
  (inv : ExchangeInv drv validate flash0 fwImage n s said arrived seen) (unsaid : s.main.said = 0)
include inv unsaid

/-- As long as the host has said no packet, each of its frames is an ACK. -/
theorem ExchangeInv.heard_acks : ∀ frame ∈ framesOf (s.boot.since n).commsBytes,
    frameKind frame = .ack := by
  have count := inv.scripted.count
  rw [unsaid] at count
  have lines : said.reduceOption = [] := List.eq_nil_of_length_eq_zero count
  have front := readFront inv.read
  intro frame member
  rcases front.frame member with rfl | packet
  · exact frameKind_ackPacket
  · have few := reduceOption_front front.isFront
    rw [lines, List.prefix_nil] at few
    rw [few] at packet
    exact absurd packet List.not_mem_nil

/-- Then no packet has been stored, taken or queued. -/
theorem ExchangeInv.heard_none : (s.boot.since n).stored = [] ∧ (s.boot.since n).taken = [] ∧
    commsPacketAvailable s.boot.comms = false := by
  have stored : (s.boot.since n).stored = [] := by
    rw [show (s.boot.since n).stored = packetsOf (s.boot.since n).commsBytes from
      inv.boot.dialogue.queue.stored, packetsOf, List.filter_eq_nil_iff]
    intro frame member
    simp [inv.heard_acks unsaid frame member]
  have queued : (s.boot.since n).stored = (s.boot.since n).taken ++ s.boot.comms.queue :=
    inv.boot.dialogue.queue.fifo inv.boot.safe
  rw [stored] at queued
  obtain ⟨taken, queue⟩ := List.append_eq_nil_iff.mp queued.symm
  refine ⟨stored, taken, Bool.eq_false_iff.mpr fun available => ?_⟩
  exact (commsPacketAvailable_iff inv.boot.dialogue.queue.ok).mp available queue

/-- And on its course the bootloader says nothing. -/
theorem ExchangeInv.unasked (course : Course fwImage (s.boot.session.since n)) :
    Unasked (s.boot.session.since n) := by
  obtain ⟨stored, taken, empty⟩ := inv.heard_none unsaid
  have sofar := inv.boot.dialogue.taken
  have past := inv.boot.dialogue.past.1
  have complete := course.complete
  have words := course.words
  have acks := course.acks
  rw [show (s.boot.session.since n).trace.taken = [] from taken] at sofar complete words
  rw [show (s.boot.session.since n).trace.stored = [] from stored] at acks
  have state : (s.boot.session.since n).bootloaderState = .waitForFwUpdateReq := by
    cases state : (s.boot.session.since n).bootloaderState with
    | waitForFwUpdateReq => rfl
    | sync => exact absurd state past
    | done => simp [state, script] at complete
    | _ => simp [state, BlState.TakenSoFar] at sofar
  rw [state, List.length_nil, BlState.hasSaid, List.take_zero] at words
  rw [words] at acks
  exact ⟨state, empty, List.eq_nil_of_length_eq_zero (Nat.le_zero.mp acks)⟩

end Unasked

/-- Without a packet, and in time, the main program looks for bytes, reads one, or waits. -/
theorem Course.unasked_step {drv : FlashDriver} {validate : Flash → Option Bool}
    {fwImage : List Byte} {v v' : Session} (h : Course fwImage v) (unasked : Unasked v)
    (dialogue : Dialogue validate v) (step : SessionStep drv validate v v')
    (patient : v'.bootloaderState = .done → v.pc ≠ .dispatch)
    (acks : ∀ frame ∈ framesOf v'.trace.commsBytes, frameKind frame = .ack) :
    Course fwImage v' := by
  obtain ⟨state, empty, -⟩ := unasked
  have rests (pc : Pc) (other : pc ≠ .setup ∧ pc ≠ .gone) : Course fwImage (v.atPc pc) :=
    h.rests [] (List.append_nil _).symm rfl rfl (by simp [Session.atPc, state]) other
  have queue := dialogue.queue.step step
  cases step with
  | start pc => exact absurd pc h.started
  | enter => exact rests .update (by decide)
  | drained => exact rests .dispatch (by decide)
  | idle => exact rests .loop (by decide)
  | commsByte byte pc =>
    exact h.byte_read dialogue.queue queue pc (by simp [state])
      (List.append_assoc v.trace [.commsByte byte] _) ⟨rfl, rfl⟩
      fun frame member => .inl (acks frame member)
  | timeout pc => exact absurd pc (patient rfl)
  | flushByte _ pc | flushed pc => exact absurd pc dialogue.past.2
  | syncIdle _ sync | syncTimeout _ sync | syncByte _ _ sync | syncByteTimeout _ _ sync
  | syncMatch _ _ sync => exact absurd sync dialogue.past.1
  | refused _ _ _ available | fwUpdateReq _ _ available | deviceIdRes _ _ available
  | fwLengthRes _ _ available | chunk _ _ available | lastChunk _ _ _ available
  | lastChunkFault _ _ available => exact absurd (available.symm.trans empty) (by decide)
  | deviceIdReq _ here | fwLengthReq _ here | erase _ here | left _ _ here =>
    exact absurd (here.symm.trans state) (by decide)
  | unexpected _ outside =>
    rcases outside with here | here <;> exact absurd (here.symm.trans state) (by decide)

section Answered

variable {drv : FlashDriver} {validate : Flash → Option Bool} {flash0 : Flash}
  {fwImage : List Byte} {n : Nat} {g : Greeting} {said : List (Option CommsPacket)}
  {arrived : List Byte} (h : Answered drv validate flash0 fwImage n g said arrived)
include h

theorem Answered.underway : Underway drv validate flash0 fwImage n (g.toCome fwImage) :=
  ⟨⟨said, arrived, [], h.inv⟩, h.course,
    ⟨Updater.HostPhase.noConfusion, fun other => absurd rfl other⟩⟩

/-- The bootloader goes through an event, and says nothing. -/
theorem Answered.bootDoes {e : BootEvent} {toBoot arrived' : List Byte}
    (next : ExchangeInv drv validate flash0 fwImage n
      ({ g.toCome fwImage with toBoot := toBoot }.bootDoes drv validate e) said arrived' [])
    (course : Course fwImage ((bootStep drv validate g.boot e).session.since n))
    (unheard : g.toHost ≠ [] → toBoot = [] ∧ arrived' = []) :
    Answered drv validate flash0 fwImage n ({ g with toBoot := toBoot }.bootDoes drv validate e)
      said arrived' := by
  have silent := (next.unasked rfl course).sent
  have nothing : ((bootStep drv validate g.boot e).trace.sent.drop
      g.boot.trace.sent.length).flatMap CommsPacket.bytes = [] :=
    next.backward.trans (congrArg (fun sent => sent.flatMap CommsPacket.bytes) silent)
  have wire : ({ g with toBoot := toBoot }.bootDoes drv validate e).toHost = g.toHost :=
    (congrArg (g.toHost ++ ·) nothing).trans (List.append_nil _)
  have same : { g.toCome fwImage with toBoot := toBoot }.bootDoes drv validate e =
      ({ g with toBoot := toBoot }.bootDoes drv validate e).toCome fwImage :=
    congrArg (Exchange.mk _ _ _) nothing
  rw [same] at next
  refine ⟨next, course, ?_, ?_, h.phase⟩
  · rw [wire]
    exact h.answer
  · rw [wire]
    exact unheard

theorem Answered.bootTick :
    Answered drv validate flash0 fwImage n (g.bootDoes drv validate .tick) said arrived := by
  refine h.bootDoes h.inv.bootTick ?_ h.unheard
  rw [unseen_session drv validate BootEvent.noConfusion]
  exact h.course

theorem Answered.bootMain (inTime : g.InTime .bootMain) :
    Answered drv validate flash0 fwImage n (g.bootDoes drv validate .main) said arrived := by
  have unasked := h.inv.unasked rfl h.course
  refine h.bootDoes h.inv.bootMain ?_ h.unheard
  rcases bootStep_session drv validate g.boot .main with same | ⟨-, step⟩
  · rw [same]
    exact h.course
  · refine h.course.unasked_step unasked h.inv.boot.dialogue (step.since h.underway.inside).1 ?_
      (h.inv.bootMain.heard_acks rfl)
    intro ended pc
    have looks : g.boot.FindsNoPacket := .inr ⟨pc, .inl unasked.state, unasked.empty⟩
    have stays : (bootStep drv validate g.boot .main).bootloaderState = g.boot.bootloaderState :=
      looks.waits (inTime looks)
    exact absurd ((stays.symm.trans ended).symm.trans unasked.state) (by decide)

theorem Answered.bootRx : ∃ arrived',
    Answered drv validate flash0 fwImage n (g.bootRx drv validate) said arrived' := by
  unfold Greeting.bootRx
  cases wire : g.toBoot with
  | nil => exact ⟨arrived, h⟩
  | cons byte toBoot =>
    obtain ⟨arrived', next⟩ := h.inv.bootRx
    unfold Exchange.bootRx at next
    rw [show (g.toCome fwImage).toBoot = byte :: toBoot from wire] at next
    refine ⟨arrived', h.bootDoes next ?_ fun unheard => ?_⟩
    · rw [unseen_session drv validate BootEvent.noConfusion]
      exact h.course
    · simp [(h.unheard unheard).1] at wire

omit h in
/-- The answer, and the ACK of it. -/
theorem onData_syncObserved : Updater.onData ⟨[], [], ackPacket⟩ syncObserved.bytes =
    (⟨[], [syncObserved], ackPacket⟩, [.stored syncObserved, .sent ackPacket]) := by
  rw [Updater.onData_frame rfl]
  decide +kernel

/-- The host acknowledges the answer. -/
theorem Answered.acks (unheard : g.toBoot = [] ∧ arrived = [])
    (link : g.sync.link.lastPacket = ackPacket) {sync : SyncState} (waiting : sync.phase = .waiting)
    (heard : sync.link = ⟨[], [syncObserved], ackPacket⟩) :
    Answered drv validate flash0 fwImage n ⟨g.boot, sync, ackPacket.bytes, []⟩ [none] [] := by
  obtain ⟨wire, rfl⟩ := unheard
  obtain rfl : said = [] := by
    have forward := congrArg List.length h.inv.forward
    rw [show (g.toCome fwImage).toBoot = [] from wire, flatMap_bytes_length, wirePackets,
      List.length_map] at forward
    exact List.eq_nil_of_length_eq_zero (by simpa using forward.symm)
  have inv := h.inv
  have host : (⟨g.boot, sync, ackPacket.bytes, []⟩ : Greeting).toCome fwImage =
      { g.toCome fwImage with toBoot := ackPacket.bytes } := by
    simp [Greeting.toCome, heard, link]
  refine ⟨?_, h.course, ⟨syncObserved.bytes, List.append_nil _, ?_⟩, fun some => absurd rfl some,
    waiting⟩
  · rw [host]
    refine ⟨inv.boot, (List.append_nil _).symm, inv.backward, inv.main,
      inv.scripted.replies rfl 1, ?_, inv.pace, fun _ => ?_, inv.success⟩
    · exact Nat.le_add_left 1 _
    · exact ⟨rfl, ⟨[], rfl, rfl, fun _ none => absurd none List.not_mem_nil⟩, by decide, by decide⟩
  · rw [heard, onData_syncObserved]

theorem Answered.hostData (k : Nat) : ∃ said',
    Answered drv validate flash0 fwImage n (g.hostData k) said' arrived := by
  obtain ⟨seen, all, link⟩ := h.answer
  have length := congrArg List.length all
  rw [List.length_append, syncObserved.bytes_length] at length
  by_cases heard : g.toHost = []
  · -- the answer is there already
    rw [heard, List.append_nil] at all
    rw [all, onData_syncObserved] at link
    have still : g.hostData k = g := by
      unfold Greeting.hostData
      rw [heard, List.take_nil, syncData_nothing (by rw [link])]
      obtain ⟨boot, sync, toBoot, toHost⟩ := g
      obtain rfl : toHost = [] := heard
      simp [Trace.sent]
    rw [still]
    exact ⟨said, h⟩
  · have short : seen.length < 18 := by
      have some := List.length_pos_of_ne_nil heard
      omega
    have before : Updater.onData ⟨[], [], ackPacket⟩ seen = (⟨seen, [], ackPacket⟩, []) :=
      onData_short short
    have together := Updater.onData_append ⟨[], [], ackPacket⟩ seen (g.toHost.take k)
    rw [before] at link together
    have handled : g.hostData k = ⟨g.boot,
        { g.sync with link := (Updater.onData ⟨[], [], ackPacket⟩ (seen ++ g.toHost.take k)).1 },
        g.toBoot ++ (Updater.onData ⟨[], [], ackPacket⟩ (seen ++ g.toHost.take k)).2.sent.flatMap
          Updater.toBuffer, g.toHost.drop k⟩ := by
      unfold Greeting.hostData
      rw [syncData_waiting h.phase, together, link]
      rfl
    obtain ⟨wire, nothing⟩ := h.unheard heard
    rw [handled]
    by_cases whole : g.toHost.drop k = []
    · rw [show g.toHost.take k = g.toHost by simpa [whole] using List.take_append_drop k g.toHost,
        all, onData_syncObserved, whole, wire, nothing]
      exact ⟨[none], h.acks ⟨wire, nothing⟩ (by rw [link]) h.phase rfl⟩
    · have more := List.length_pos_of_ne_nil whole
      have less : (seen ++ g.toHost.take k).length < 18 := by
        rw [List.length_drop] at more
        rw [List.length_append, List.length_take]
        omega
      rw [onData_short less]
      refine ⟨said, ?_, h.course, ⟨seen ++ g.toHost.take k, ?_, ?_⟩, fun _ => ⟨?_, nothing⟩,
        h.phase⟩
      · have same : Greeting.toCome ⟨g.boot, { g.sync with
            link := ⟨[] ++ (seen ++ g.toHost.take k), [], ackPacket⟩ }, g.toBoot ++ [],
            g.toHost.drop k⟩ fwImage = g.toCome fwImage := by
          simp [Greeting.toCome, link]
        exact same ▸ h.inv
      · rw [List.append_assoc, List.take_append_drop, all]
      · rw [onData_short less]
      · exact (List.append_nil _).trans wire

end Answered

/-- The synchronisation from the first sync sequence of the host that arrives. -/
def Greets (drv : FlashDriver) (validate : Flash → Option Bool) (flash0 : Flash)
    (fwImage : List Byte) (g : Greeting) : Prop :=
  Hearing drv validate flash0 g ∨
    ∃ n said arrived, Answered drv validate flash0 fwImage n g said arrived

section Greets

variable {drv : FlashDriver} {validate : Flash → Option Bool} {flash0 : Flash}
  {fwImage : List Byte}

theorem Greets.start (timeWaited : Nat) :
    Greets drv validate flash0 fwImage (greetingStart flash0 timeWaited) := by
  refine .inl ⟨⟨[], rfl⟩, .inl rfl, rfl, rfl, ?_, ?_, rfl, rfl, rfl⟩
  · have empty : (bootInit flash0).rxRingBuffer.held = [] :=
      (held_eq_nil (bootRun_ringOk drv validate flash0 []).ringSize).mpr rfl
    show [] ++ (bootInit flash0).rxRingBuffer.held ++ _ = _
    rw [empty]
    rfl
  · constructor
    · intro all
      exact absurd all (show [] ≠ syncBytes by decide)
    · intro flush
      exact Pc.noConfusion flush

theorem Greets.step {g : Greeting} {e : GreetingEvent}
    (greets : Greets drv validate flash0 fwImage g) (inTime : g.InTime e) (early : e ≠ .hostDelay) :
    Greets drv validate flash0 fwImage (greetingStep drv validate g e) := by
  rcases greets with h | ⟨n, said, arrived, h⟩
  · cases e with
    | bootRx => exact .inl h.bootRx
    | bootTick => exact .inl h.bootTick
    | bootMain => exact h.bootMain inTime fwImage
    | hostData k => exact .inl (h.hostData k)
    | hostDelay => exact absurd rfl early
  · cases e with
    | bootRx => exact .inr ⟨n, said, h.bootRx⟩
    | bootTick => exact .inr ⟨n, said, arrived, h.bootTick⟩
    | bootMain => exact .inr ⟨n, said, arrived, h.bootMain inTime⟩
    | hostData k =>
      obtain ⟨said', next⟩ := h.hostData k
      exact .inr ⟨n, said', arrived, next⟩
    | hostDelay => exact absurd rfl early

theorem Greets.run {g : Greeting} {es : List GreetingEvent}
    (greets : Greets drv validate flash0 fwImage g) (early : .hostDelay ∉ es)
    (inTime : Lib.Run.Meets (greetingStep drv validate) Greeting.InTime g es) :
    Greets drv validate flash0 fwImage (Lib.Run.run (greetingStep drv validate) g es) := by
  induction es generalizing g with
  | nil => exact greets
  | cons e es ih =>
    rw [List.mem_cons, not_or] at early
    exact ih (greets.step inTime.1 (Ne.symm early.1)) early.2 inTime.2

/-- When everything is quiet at the end of the second, the update begins. -/
theorem Greets.delay {g : Greeting} (greets : Greets drv validate flash0 fwImage g)
    (quiet : g.Quiet) : g.hostDelay.sync.phase = .synced ∧
      ∃ n, Underway drv validate flash0 fwImage n (g.hostDelay.begins fwImage) := by
  rcases greets with h | ⟨n, said, arrived, h⟩
  · -- the whole sequence would have been heard, and not answered
    have held := (held_eq_nil h.ringOk.ringSize).mpr quiet.read
    have bytes := h.bytes
    rw [held, quiet.toBoot, List.append_nil, List.append_nil] at bytes
    exact absurd (h.whole.mp bytes) quiet.pc
  · obtain ⟨seen, all, link⟩ := h.answer
    rw [quiet.toHost, List.append_nil] at all
    rw [all, onData_syncObserved] at link
    have later : g.hostDelay.begins fwImage = g.toCome fwImage := by
      unfold Greeting.hostDelay
      rw [syncDelay_observed h.phase link]
      simp [Greeting.begins, Greeting.toCome, SyncState.begins, link, quiet.toHost]
    refine ⟨?_, n, later ▸ h.underway⟩
    unfold Greeting.hostDelay
    rw [syncDelay_observed h.phase link]

end Greets

end SecureBootloader
