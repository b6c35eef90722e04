import SecureBootloader.Link.Course
import SecureBootloader.Theorems.SessionTimeout
import SecureBootloader.Theorems.UpdateSuccess

/-!
# The progress of an update

While no timer runs out, the bootloader stays on its course and the host hears what it
waits for. Every event makes progress or finds nothing to do, and if there is nothing left
to do anywhere the update is complete: there is no deadlock.
-/

namespace SecureBootloader

open Updater (MainState)

/-- No timer runs out: the bootloader looks at its timer before the target only, and
`waitForPacket` does not give up. -/
def InTime (s : Exchange) : ExchangeEvent → Prop
  | .bootMain => s.boot.FindsNoPacket →
      (simpleTimerHasElapsed s.boot.tickCount s.boot.timer).1 = false
  | .hostTimeout => Updater.mainTimeout s.main = s.main
  | _ => True

instance (s : Exchange) (e : ExchangeEvent) : Decidable (InTime s e) :=
  match e with
  | .bootMain => inferInstanceAs (Decidable (_ → _))
  | .hostTimeout => inferInstanceAs (Decidable (_ = _))
  | .bootRx | .bootTick | .hostData _ | .hostMain => inferInstanceAs (Decidable True)

section Inv

variable {drv : FlashDriver} {validate : Flash → Option Bool} {flash0 : Flash}
  {fwImage : List Byte} {n : Nat} {s : Exchange} {said : List (Option CommsPacket)}
  {arrived seen : List Byte}
  (inv : ExchangeInv drv validate flash0 fwImage n s said arrived seen)
include inv

/-! ## The bootloader -/

/-- The oldest packet of the queue is the next one of the script. -/
theorem ExchangeInv.next (available : commsPacketAvailable s.boot.comms = true) :
    (script fwImage)[(s.boot.since n).taken.length]? = some s.boot.session.nextPacket := by
  have queue := inv.boot.dialogue.queue
  have stored := (readFront inv.read).stored_front inv.scripted
  have read : (s.boot.since n).stored = packetsOf (s.boot.since n).commsBytes := queue.stored
  have queued : (s.boot.since n).stored = (s.boot.since n).taken ++ s.boot.comms.queue :=
    queue.fifo inv.boot.safe
  have ok : QueueOk s.boot.comms := queue.ok
  rw [← read, queued, commsReceivePacket_queue ok available] at stored
  obtain ⟨rest, all⟩ := stored
  rw [← all, List.append_assoc, List.getElem?_append_right (Nat.le_refl _), Nat.sub_self]
  rfl

theorem ExchangeInv.polite (ok : Installable validate flash0 fwImage) :
    ∀ frame ∈ framesOf (s.boot.since n).commsBytes,
      frameKind frame = .ack ∨ frameKind frame = .packet := by
  intro frame member
  have front := readFront inv.read
  rcases front.frame member with rfl | scripted
  · exact .inl frameKind_ackPacket
  · exact .inr (ok.kind frame ((front.lines inv.scripted).subset scripted))

/-- The announced length is that of the image. -/
theorem ExchangeInv.announced (ok : Installable validate flash0 fwImage)
    (state : s.boot.bootloaderState = .receiveFw) : s.boot.firmwareLength = fwImage.length := by
  obtain ⟨front, rest, request, device, announced, more, trace, taken, -, -, shape, -⟩ :=
    (inv.boot.sessionInv.updating state).1.authorized
  obtain ⟨behind, all⟩ := inv.taken_script
  change s.boot.trace = _ at trace
  rw [trace, Trace.taken_append, taken_map_syncByte, List.nil_append, taken, script] at all
  injection all with _ all
  injection all with _ all
  injection all with announces _
  rw [announces] at shape
  exact fwLengthPacket_announces ok.small shape

/-- The flash is as it was, or holds the bytes of the accepted packets. -/
theorem ExchangeInv.payload : s.boot.bytesWritten = s.boot.trace.payload.length ∧
    (s.boot.bytesWritten ≠ 0 → s.boot.flash = withImage flash0 s.boot.trace.payload) := by
  rcases inv.boot.sessionInv.cases with ⟨untouched, -⟩ | updating
  · have none : s.boot.bytesWritten = 0 := untouched.count
    have nothing : s.boot.trace.accepted = [] := untouched.accepted
    refine ⟨?_, absurd none⟩
    rw [none, Trace.payload, nothing]
    rfl
  · exact ⟨updating.count, fun _ => funext updating.content⟩

/-- With a chunk accepted for each packet taken behind the handshake the front part of the
image is written. -/
theorem ExchangeInv.written
    (all : (s.boot.since n).accepted = (s.boot.since n).taken.drop 3) :
    s.boot.bytesWritten = min (16 * ((s.boot.since n).taken.length - 3)) fwImage.length := by
  rw [← inv.boot.since_eq.1, ← inv.boot.since_eq.2] at all
  have front : s.boot.trace.taken.drop 3 <+: dataPackets fwImage := inv.taken_script.drop 3
  have few := inv.taken_script.length_le
  rw [script_length] at few
  have payload : s.boot.trace.payload =
      fwImage.take (16 * (s.boot.trace.taken.length - 3)) := by
    rw [Trace.payload, all, List.prefix_iff_eq_take.mp front, List.length_drop]
    exact payload_take fwImage (by omega)
  rw [inv.payload.1, payload, List.length_take, inv.boot.since_eq.1]

/-- With as many bytes written as it has the image is in the flash. -/
theorem ExchangeInv.installed (ok : Installable validate flash0 fwImage)
    (complete : s.boot.bytesWritten = fwImage.length) :
    s.boot.flash = withImage flash0 fwImage := by
  have long := ok.long
  have payload : s.boot.trace.payload = fwImage := by
    rw [← programmedBytes_eq inv.boot.sessionInv, inv.programmed, complete, List.take_length]
  rw [inv.payload.2 (by omega), payload]

end Inv

/-- A host that has not given up, and ends the transfer when all chunks are sent. -/
structure Attends (fwImage : List Byte) (m : MainState) : Prop where
  running : m.host.phase ≠ .exited
  sentAll : m.host.phase ≠ .transfer →
    m.stage = .fwData ∧ m.host.chunksSent = chunkCount fwImage

/-- An update in which no timer has run out so far. -/
structure Underway (drv : FlashDriver) (validate : Flash → Option Bool) (flash0 : Flash)
    (fwImage : List Byte) (n : Nat) (s : Exchange) : Prop where
  inv : ∃ said arrived seen, ExchangeInv drv validate flash0 fwImage n s said arrived seen
  course : Course fwImage (s.boot.session.since n)
  host : Attends fwImage s.main

/-- A look at the timer that comes in time does nothing. -/
theorem Boot.FindsNoPacket.waits {drv : FlashDriver} {validate : Flash → Option Bool} {b : Boot}
    (looks : b.FindsNoPacket)
    (early : (simpleTimerHasElapsed b.tickCount b.timer).1 = false) :
    (bootStep drv validate b .main).bootloaderState = b.bootloaderState := by
  obtain ⟨b', step, timer, tick, state, -⟩ := looks.looks drv validate
  rw [step, Boot.checkForTimeout, timer, tick]
  dsimp only
  rw [early, if_neg Bool.false_ne_true]
  exact state

/-! ## The host -/

namespace Updater.MainState

/-- How far `main` is. -/
def position (m : MainState) : Nat :=
  match m.stage with
  | .fwUpdateReq => 0
  | .fwUpdateRes => 1
  | .deviceIdReq => 2
  | .fwLengthReq => 3
  | .fwData =>
    4 + m.host.chunksSent +
      match m.host.phase with
      | .transfer | .exited => 0
      | .validation => 1
      | .finished => 2

end Updater.MainState

/-- What a step of an attentive `main` does: it has nothing to do, or gets further. -/
inductive Attentive (fwImage : List Byte) (m : MainState) (r : MainState × Trace) : Prop
  | rests (same : r.1 = m) (silent : r.2.sent = [])
      (idle : m.host.phase = .finished ∨ m.stage ≠ .fwUpdateReq ∧ m.host.link.packets = [])
  | advances (attends : Attends fwImage r.1) (further : r.1.position = m.position + 1)

section Attends

variable {fwImage : List Byte} {m : MainState} (attends : Attends fwImage m)
  (heard : m.host.Listening → ∀ packet packets, m.host.link.packets = packet :: packets →
    (replies (chunkCount fwImage))[m.heard]? = some packet)
include attends

/-- Before the transfer the phase is `transfer`. -/
theorem Attends.early (stage : m.stage ≠ .fwData) : m.host.phase = .transfer := by
  by_contra other
  exact stage (attends.sentAll other).1

/-- A `data` event changes neither the place of `main` nor its transfer. -/
theorem Attends.data (data : List Byte) :
    Attends fwImage (Updater.mainData m data).1 ∧
      (Updater.mainData m data).1.position = m.position := by
  unfold Updater.mainData
  by_cases listening : m.host.Listening
  · rw [hostData_listening listening]
    exact ⟨⟨attends.running, attends.sentAll⟩, rfl⟩
  · rw [hostData_closed listening]
    exact ⟨attends, rfl⟩

include heard

/-- `waitForSingleBytePacket` gets what it waits for. -/
theorem Attends.awaits {byte : Byte} {follow : MainState → MainState × Trace} {place : Nat}
    (stage : m.stage ≠ .fwUpdateReq ∧ m.stage ≠ .fwData) (hears : m.heard = place)
    (expected : (replies (chunkCount fwImage))[place]? = some (commsCreateSingleBytePacket byte))
    (follows : ∀ packets, Attends fwImage
        (follow { m with host := m.host.withPackets packets }).1 ∧
      (follow { m with host := m.host.withPackets packets }).1.position = m.position + 1) :
    Attentive fwImage m (m.awaits byte follow) := by
  unfold MainState.awaits
  cases queue : m.host.link.packets with
  | nil => exact .rests rfl rfl (.inr ⟨stage.1, queue⟩)
  | cons packet packets =>
    have same := heard (.inl (attends.early stage.2)) packet packets queue
    rw [hears, expected] at same
    obtain rfl := Option.some.inj same
    dsimp only
    rw [if_neg (by simp [show (commsCreateSingleBytePacket byte).length = 1 from rfl])]
    exact .advances (follows packets).1 (follows packets).2

theorem Attends.fwData (ok : MainOk fwImage m) (stage : m.stage = .fwData) :
    Attentive fwImage m
      ({ m with host := (Updater.hostMain m.host).1 }, (Updater.hostMain m.host).2) := by
  have hears : m.heard = m.host.chunksSent + 3 := by
    rw [MainState.heard, stage]
    exact Nat.add_comm _ _
  have position (host : Updater.Host) : ({ m with host := host } : MainState).position =
      4 + host.chunksSent + match host.phase with
        | .transfer | .exited => 0
        | .validation => 1
        | .finished => 2 := by rw [MainState.position, stage]
  have chunks : chunkCount fwImage = (fwImage.length + 15) / 16 := rfl
  have written := ok.written
  have sent : m.host.chunksSent = (m.host.byteWritten + 15) / 16 := rfl
  rw [ok.image] at written
  unfold Updater.hostMain
  cases phase : m.host.phase with
  | transfer =>
    dsimp only
    by_cases more : m.host.byteWritten < m.host.fwImage.length
    · rw [if_pos more]
      rw [ok.image] at more
      cases queue : m.host.link.packets with
      | nil => exact .rests rfl rfl (.inr ⟨by rw [stage]; decide, queue⟩)
      | cons packet packets =>
        have same := heard (.inl phase) packet packets queue
        rw [hears, replies_ready (by omega)] at same
        obtain rfl := Option.some.inj same
        dsimp only
        rw [if_neg (by decide +kernel)]
        obtain ⟨-, count, -⟩ := sendChunk_next
          (h := { m.host.withPackets packets with phase := .transfer }) ok.written
          (ok.image.symm ▸ more)
        refine .advances ⟨(by decide : Updater.HostPhase.transfer ≠ .exited),
          fun other => absurd rfl other⟩ ((position _).trans ?_)
        rw [MainState.position, stage, phase]
        exact congrArg (4 + ·) count
    · rw [if_neg more]
      rw [ok.image] at more
      refine .advances ⟨(by decide : Updater.HostPhase.validation ≠ .exited),
        fun _ => ⟨stage, ?_⟩⟩ ?_
      · show (m.host.byteWritten + 15) / 16 = _
        omega
      · rw [MainState.position, MainState.position, stage, phase]
        rfl
  | validation =>
    cases queue : m.host.link.packets with
    | nil => exact .rests rfl rfl (.inr ⟨by rw [stage]; decide, queue⟩)
    | cons packet packets =>
      have all := (attends.sentAll (by rw [phase]; decide)).2
      have same := heard (.inr phase) packet packets queue
      rw [hears, all, replies_last] at same
      obtain rfl := Option.some.inj same
      dsimp only
      rw [if_pos (by decide +kernel)]
      refine .advances ⟨(by decide : Updater.HostPhase.finished ≠ .exited),
        fun _ => ⟨stage, all⟩⟩ ?_
      rw [MainState.position, MainState.position, stage, phase]
      rfl
  | finished => exact .rests rfl rfl (.inl phase)
  | exited => exact absurd phase attends.running

theorem Attends.mainStep (ok : MainOk fwImage m) :
    Attentive fwImage m (Updater.mainStep m) := by
  unfold Updater.mainStep
  rw [if_neg attends.running]
  -- on to the next stage of the handshake
  have next (stage : Updater.MainStage) (early : m.stage ≠ .fwData) (link : Updater.HostLink)
      (further : MainState.position ⟨stage, { m.host with link := link }⟩ = m.position + 1) :
      Attends fwImage ⟨stage, { m.host with link := link }⟩ ∧
        MainState.position ⟨stage, { m.host with link := link }⟩ = m.position + 1 :=
    ⟨⟨attends.running, fun other => absurd (attends.early early) other⟩, further⟩
  cases stage : m.stage with
  | fwUpdateReq =>
    have further := next .fwUpdateRes (by rw [stage]; decide)
      (Updater.writePacket m.host.link Updater.fwUpdateReqPacket).1 (by
        rw [MainState.position, MainState.position, stage])
    exact .advances further.1 further.2
  | fwUpdateRes =>
    refine attends.awaits heard (by rw [stage]; decide) (by rw [MainState.heard, stage]) rfl
      fun packets => ?_
    exact next .deviceIdReq (by rw [stage]; decide) _ (by
      rw [MainState.position, MainState.position, stage])
  | deviceIdReq =>
    refine attends.awaits heard (by rw [stage]; decide) (by rw [MainState.heard, stage]) rfl
      fun packets => ?_
    exact next .fwLengthReq (by rw [stage]; decide) _ (by
      rw [MainState.position, MainState.position, stage])
  | fwLengthReq =>
    refine attends.awaits heard (by rw [stage]; decide) (by rw [MainState.heard, stage]) rfl
      fun packets => ?_
    have none : m.host.chunksSent = 0 := by
      rw [Updater.Host.chunksSent, (ok.early (by rw [stage]; decide)).1]
    have transfer := attends.early (by rw [stage]; decide)
    exact next .fwData (by rw [stage]; decide) _ (by
      rw [MainState.position, MainState.position, stage, transfer]
      exact congrArg (4 + ·) none)
  | fwData =>
    dsimp only
    rw [← stage]
    exact attends.fwData heard ok stage

end Attends

section Underway

variable {drv : FlashDriver} {validate : Flash → Option Bool} {flash0 : Flash}
  {fwImage : List Byte} {n : Nat} {s : Exchange} (ok : Installable validate flash0 fwImage)
  (under : Underway drv validate flash0 fwImage n s)
include under

/-- What is in the queue of a host that listens is what the bootloader said next. -/
theorem Underway.hears (listening : s.main.host.Listening) (packet : CommsPacket)
    (packets : List CommsPacket) (queue : s.main.host.link.packets = packet :: packets) :
    (replies (chunkCount fwImage))[s.main.heard]? = some packet := by
  obtain ⟨said, arrived, seen, inv⟩ := under.inv
  obtain ⟨-, ⟨heard, all, count, -⟩, -⟩ := inv.hears listening
  have words : packetsOf seen <+: (s.boot.session.since n).trace.words :=
    inv.seen_sent.filter _
  rw [← all, queue, under.course.words] at words
  obtain ⟨rest, front⟩ := words.trans (List.take_prefix _ _)
  rw [← front, ← count, List.append_assoc, List.getElem?_append_right (Nat.le_refl _),
    Nat.sub_self]
  rfl

include ok

/-- What a step of the bootloader's main program may rely on. -/
theorem Underway.onCourse (inTime : InTime s .bootMain) :
    OnCourse validate fwImage (s.boot.session.since n)
      ((bootStep drv validate s.boot .main).session.since n) := by
  obtain ⟨said, arrived, seen, inv⟩ := under.inv
  have inv' := inv.bootMain
  refine ⟨?_, inv.next, inv'.polite ok, inv.announced ok, inv'.written, ?_⟩
  · intro ended pc waiting
    by_contra empty
    have looks : s.boot.FindsNoPacket := .inr ⟨pc, waiting, Bool.eq_false_iff.mpr empty⟩
    have stays : (bootStep drv validate s.boot .main).bootloaderState = _ :=
      looks.waits (inTime looks)
    have waits : s.boot.bootloaderState.Waiting := waiting
    rw [← stays, show (bootStep drv validate s.boot .main).bootloaderState = .done from ended]
      at waits
    exact absurd waits (by decide)
  · intro complete
    show validate (s.bootDoes drv validate .main).boot.flash = _
    rw [inv'.installed ok complete]
    exact ok.valid

/-! ## The measure -/

omit ok under

/-- How far the bootloader is: what it has read, what it has in its byte queue, what it has
taken and said. A byte counts once when it arrives and once more when it is read. -/
def Boot.progress (n : Nat) (b : Boot) : Nat :=
  2 * (b.since n).commsBytes.length + b.rxRingBuffer.held.length + (b.session.since n).turns

/-- How far an update is, with what the host has seen and where its `main` is. -/
def Exchange.progress (n : Nat) (s : Exchange) : Nat :=
  s.boot.progress n + (18 * (s.boot.since n).sent.length - s.toHost.length) + s.main.position

/-- There is nothing to do for an event. -/
def Idle (s : Exchange) : ExchangeEvent → Prop
  | .bootRx => s.boot.pc = .gone ∨ s.toBoot = []
  | .bootMain => s.boot.pc = .gone ∨
      (s.boot.pc = .loop → s.boot.bootloaderState ≠ .done) ∧
      (s.boot.pc = .update → s.boot.rxRingBuffer.held = []) ∧
      (s.boot.pc = .dispatch →
        s.boot.bootloaderState.Waiting ∧ commsPacketAvailable s.boot.comms = false)
  | .hostData k => k = 0 ∨ s.toHost = []
  | .hostMain => s.main.host.phase = .finished ∨
      s.main.stage ≠ .fwUpdateReq ∧ s.main.host.link.packets = []
  | .bootTick | .hostTimeout => True

/-- Nothing has changed but where the main program of the bootloader looks. -/
structure Stands (s t : Exchange) : Prop where
  main : t.main = s.main
  toHost : t.toHost = s.toHost
  toBoot : s.boot.pc ≠ .gone → t.toBoot = s.toBoot
  ring : t.boot.rxRingBuffer = s.boot.rxRingBuffer
  session : t.boot.session = s.boot.session.atPc t.boot.pc
  gone : t.boot.pc = .gone ↔ s.boot.pc = .gone

/-- The place the main program of the bootloader goes to at an event. -/
def pcAfter (pc : Pc) : ExchangeEvent → Pc
  | .bootMain => pc.next
  | _ => pc

/-- An event of an update makes progress or finds nothing to do. -/
inductive Moves (n : Nat) (s : Exchange) (e : ExchangeEvent) (t : Exchange) : Prop
  | further (h : s.progress n < t.progress n)
  | idle (same : t.progress n = s.progress n) (idle : Idle s e) (stands : Stands s t)
      (pc : t.boot.pc = pcAfter s.boot.pc e)

/-- What the bootloader sends is not seen yet. -/
theorem bootDoes_progress {e : BootEvent} (toBoot : List Byte)
    (inside : n ≤ s.boot.trace.length) (t : Exchange)
    (step : t = { s with toBoot := toBoot }.bootDoes drv validate e) :
    t.progress n + s.boot.progress n = s.progress n + t.boot.progress n := by
  obtain ⟨obs, trace⟩ := bootStep_trace drv validate (b := s.boot) e
  have since : (bootStep drv validate s.boot e).since n = s.boot.since n ++ obs := by
    rw [Boot.since, trace, List.drop_append_of_le_length inside]
    rfl
  have sent : t.toHost = s.toHost ++ obs.sent.flatMap CommsPacket.bytes ∧
      (t.boot.since n).sent.length = (s.boot.since n).sent.length + obs.sent.length := by
    subst step
    refine ⟨?_, ?_⟩
    · show s.toHost ++ ((bootStep drv validate s.boot e).trace.sent.drop _).flatMap _ = _
      rw [trace, Trace.sent_append, List.drop_left]
    · show ((bootStep drv validate s.boot e).since n).sent.length = _
      rw [since, Trace.sent_append, List.length_append]
  have main : t.main = s.main := by
    subst step
    rfl
  unfold Exchange.progress
  rw [main, sent.1, sent.2, List.length_append, flatMap_bytes_length, Nat.mul_add,
    Nat.add_sub_add_right]
  omega

/-- Nothing happens at all. -/
theorem Moves.rests {e : ExchangeEvent} (idle : Idle s e)
    (pc : pcAfter s.boot.pc e = s.boot.pc) : Moves n s e s :=
  .idle rfl idle ⟨rfl, rfl, fun _ => rfl, rfl, rfl, Iff.rfl⟩ pc.symm

/-- The bootloader goes through an event that its session does not see. -/
theorem bootDoes_unseen {e : BootEvent} {toBoot : List Byte}
    (same : (bootStep drv validate s.boot e).session = s.boot.session) :
    ({ s with toBoot := toBoot }.bootDoes drv validate e).toHost = s.toHost := by
  have trace : (bootStep drv validate s.boot e).trace = s.boot.trace := congrArg Session.trace same
  show s.toHost ++ ((bootStep drv validate s.boot e).trace.sent.drop _).flatMap _ = _
  rw [trace, List.drop_length]
  exact List.append_nil _

include under

theorem Underway.inside : n ≤ s.boot.trace.length := by
  obtain ⟨said, arrived, seen, inv⟩ := under.inv
  exact inv.boot.inside

/-- A byte arrives at the bootloader. -/
theorem Underway.bootRx : Moves n s .bootRx (s.bootRx drv validate) := by
  obtain ⟨said, arrived, seen, inv⟩ := under.inv
  obtain ⟨arrived', inv'⟩ := inv.bootRx
  cases wire : s.toBoot with
  | nil =>
    rw [Exchange.bootRx, wire]
    exact .rests (.inr wire) rfl
  | cons byte toBoot =>
    rw [Exchange.bootRx, wire] at inv' ⊢
    dsimp only at inv' ⊢
    have same : (bootStep drv validate s.boot (.rx byte)).session = s.boot.session :=
      (bootStep_session drv validate s.boot (.rx byte)).resolve_right fun step =>
        BootEvent.noConfusion step.1
    have progress := bootDoes_progress toBoot under.inside _
      (rfl : { s with toBoot := toBoot }.bootDoes drv validate (.rx byte) = _)
    generalize after : { s with toBoot := toBoot }.bootDoes drv validate (.rx byte) = t at *
    have boot : t.boot = bootStep drv validate s.boot (.rx byte) := by rw [← after]; rfl
    by_cases gone : s.boot.pc = .gone
    · have rests : t.boot = s.boot := by rw [boot, bootStep, if_pos gone]
      have toHost : t.toHost = s.toHost := after ▸ bootDoes_unseen same
      rw [rests] at progress
      refine .idle (by omega) (.inl gone)
        ⟨after ▸ rfl, toHost, absurd gone, by rw [rests], ?_, by rw [rests]⟩ ?_
      · rw [rests]
        rfl
      · rw [rests]
        rfl
    · -- one byte more has arrived, and none was read
      have session : t.boot.session = s.boot.session := boot ▸ same
      have since : t.boot.since n = s.boot.since n := congrArg (fun v => v.trace.drop n) session
      have live : t.boot.pc ≠ .gone := by
        rw [show t.boot.pc = s.boot.pc from congrArg Session.pc session]
        exact gone
      have before := inv.forward
      have now := inv'.forward
      rw [wire] at before
      rw [← after] at now
      change arrived' ++ toBoot = _ at now
      rw [← before] at now
      have arrived := congrArg List.length now
      have held := congrArg List.length (inv.boot.held gone)
      have held' := congrArg List.length (inv'.boot.held live)
      rw [List.length_append, List.length_append, List.length_cons] at arrived
      rw [List.length_append] at held held'
      rw [since] at held'
      have further : t.boot.progress n = s.boot.progress n + 1 := by
        unfold Boot.progress
        rw [since, session]
        omega
      exact .further (by omega)

theorem Underway.bootTick : Moves n s .bootTick (s.bootDoes drv validate .tick) := by
  have same : (bootStep drv validate s.boot .tick).session = s.boot.session :=
    (bootStep_session drv validate s.boot .tick).resolve_right (by rintro ⟨main, -⟩; cases main)
  have ring : (bootStep drv validate s.boot .tick).rxRingBuffer = s.boot.rxRingBuffer := by
    rw [bootStep]
    split <;> rfl
  have progress := bootDoes_progress s.toBoot under.inside _
    (rfl : s.bootDoes drv validate .tick = _)
  have boot : (s.bootDoes drv validate .tick).boot.progress n = s.boot.progress n := by
    show 2 * (Trace.commsBytes
        ((bootStep drv validate s.boot .tick).session.since n).trace).length +
      (bootStep drv validate s.boot .tick).rxRingBuffer.held.length +
        ((bootStep drv validate s.boot .tick).session.since n).turns = _
    rw [same, ring]
    rfl
  have pc : (bootStep drv validate s.boot .tick).pc = s.boot.pc := congrArg Session.pc same
  refine .idle (by omega) trivial ⟨rfl, bootDoes_unseen same, fun _ => rfl, ring, ?_, ?_⟩ pc
  · show (bootStep drv validate s.boot .tick).session =
      s.boot.session.atPc (bootStep drv validate s.boot .tick).pc
    rw [same, pc]
    rfl
  · show (bootStep drv validate s.boot .tick).pc = .gone ↔ _
    rw [pc]

omit under in
variable (drv validate) in
/-- Behind the synchronisation the main program does one of the listed things. -/
theorem main_session {b : Boot} (past : b.bootloaderState ≠ .sync)
    (running : b.pc = .loop ∨ b.pc = .dispatch) :
    SessionStep drv validate b.session (bootStep drv validate b .main).session := by
  rcases running with loop | dispatch
  · by_cases ended : b.bootloaderState = .done
    · have leaves : bootStep drv validate b .main = b.leave validate := by
        rw [bootStep, Boot.mainStep, loop, ended]
      rw [leaves]
      exact leave_session drv validate loop ended
    · have enters : bootStep drv validate b .main = b.atPc .update := by
        rw [bootStep, Boot.mainStep, loop]
        cases state : b.bootloaderState with
        | sync => exact absurd state past
        | done => exact absurd state ended
        | _ => rfl
      rw [enters]
      exact .enter loop ⟨past, ended⟩
  · exact dispatch_session drv validate dispatch

omit under in
/-- A session that is the same from entry `n` on, but for its place, is the same. -/
theorem session_of_since {v v' : Session} {pc : Pc} (inside : n ≤ v.trace.length)
    (grows : ∃ obs, v'.trace = v.trace ++ obs) (same : v'.since n = (v.since n).atPc pc) :
    v' = v.atPc pc := by
  obtain ⟨obs, trace⟩ := grows
  have rest : v'.trace.drop n = v.trace.drop n := congrArg Session.trace same
  rw [trace, List.drop_append_of_le_length inside, List.append_right_eq_self] at rest
  rw [rest, List.append_nil] at trace
  have behind := congrArg (Session.behind (v.trace.take n)) same
  have split (w : Session) (whole : w.trace = v.trace) :
      (w.since n).behind (v.trace.take n) = w := by
    rw [← whole]
    exact congrArg (Session.mk _ _ _ _ _ _ _) (List.take_append_drop n w.trace)
  rw [← behind_atPc, split v rfl, split v' trace] at behind
  exact behind

omit under in
/-- The main program looks at another place, and that is all. -/
theorem Moves.polls (pc : Pc) (inside : n ≤ s.boot.trace.length)
    (ring : (bootStep drv validate s.boot .main).rxRingBuffer = s.boot.rxRingBuffer)
    (same : (bootStep drv validate s.boot .main).session = s.boot.session.atPc pc)
    (gone : pc = .gone ↔ s.boot.pc = .gone) (next : pc = s.boot.pc.next) (idle : Idle s .bootMain) :
    Moves n s .bootMain (s.bootDoes drv validate .main) := by
  have progress := bootDoes_progress s.toBoot inside _
    (rfl : s.bootDoes drv validate .main = _)
  change _ + _ = _ + (bootStep drv validate s.boot .main).progress n at progress
  have trace : (bootStep drv validate s.boot .main).trace = s.boot.trace :=
    congrArg Session.trace same
  have place : (bootStep drv validate s.boot .main).pc = pc := congrArg Session.pc same
  have boot : (bootStep drv validate s.boot .main).progress n = s.boot.progress n := by
    have turns : ((s.boot.session.atPc pc).since n).turns = (s.boot.session.since n).turns := by
      unfold Session.turns
      refine congrArg _ ?_
      show (if pc = .gone then 1 else 0) = if s.boot.pc = .gone then 1 else 0
      rw [if_congr gone rfl rfl]
    unfold Boot.progress Boot.since
    rw [ring, trace, same, turns]
  refine .idle (by omega) idle ⟨rfl, ?_, fun _ => rfl, ring, ?_, ?_⟩ (place.trans next)
  · show s.toHost ++ ((bootStep drv validate s.boot .main).trace.sent.drop _).flatMap _ = _
    rw [trace, List.drop_length]
    exact List.append_nil _
  · show (bootStep drv validate s.boot .main).session =
      s.boot.session.atPc (bootStep drv validate s.boot .main).pc
    rw [place, same]
  · show (bootStep drv validate s.boot .main).pc = .gone ↔ _
    rw [place, gone]

/-- The main program of the bootloader makes a step. -/
theorem Underway.bootMain (ok : Installable validate flash0 fwImage) (inTime : InTime s .bootMain) :
    Moves n s .bootMain (s.bootDoes drv validate .main) := by
  have on := under.onCourse ok inTime
  have started := under.course.started
  have inside := under.inside
  obtain ⟨said, arrived, seen, inv⟩ := under.inv
  have past : s.boot.bootloaderState ≠ .sync ∧ s.boot.pc ≠ .flush := inv.boot.dialogue.past
  have progress := bootDoes_progress s.toBoot inside _
    (rfl : s.bootDoes drv validate .main = _)
  change _ + _ = _ + (bootStep drv validate s.boot .main).progress n at progress
  obtain ⟨obs, trace, reads⟩ := main_reads drv validate inv.boot.ringOk past
  have since : (bootStep drv validate s.boot .main).since n = s.boot.since n ++ obs := by
    rw [Boot.since, trace, List.drop_append_of_le_length inside]
    rfl
  -- outside `comms_update` the byte queue stays as it is
  have outside (running : s.boot.pc = .loop ∨ s.boot.pc = .dispatch) :
      Moves n s .bootMain (s.bootDoes drv validate .main) := by
    have other : s.boot.pc ≠ .update ∧ s.boot.pc ≠ .gone ∧ s.boot.pc.next ≠ .gone := by
      rcases running with pc | pc <;> rw [pc] <;> decide
    have ring := mainStep_ring_same drv validate past other.1
    have step := main_session drv validate past.1 running
    rcases under.course.turns inv.boot.dialogue ok (step.since inside).1 on other.1 with
      further | polls
    · have boot : s.boot.progress n < (bootStep drv validate s.boot .main).progress n := by
        unfold Boot.progress
        rw [ring, since, Trace.commsBytes_append, List.length_append]
        omega
      exact .further (by omega)
    · refine .polls _ inside ring (session_of_since inside ⟨obs, trace⟩ polls.next)
        (iff_of_false other.2.2 other.2.1) rfl (.inr ⟨polls.active, ?_, polls.waits⟩)
      exact fun update => absurd update other.1
  cases pc : s.boot.pc with
  | setup => exact absurd pc started
  | flush => exact absurd pc past.2
  | gone =>
    have rests : bootStep drv validate s.boot .main = s.boot := by
      rw [bootStep, Boot.mainStep, pc]
    exact .polls _ inside (congrArg Boot.rxRingBuffer rests) (congrArg Boot.session rests) Iff.rfl
      (by rw [pc]; rfl) (.inl pc)
  | update =>
    have step := bootStep_update drv validate pc
    rw [Boot.updateStep] at step
    rcases ringBufferRead_held (k := 7) (by decide) inv.boot.ringOk.ringSize with
      ⟨empty, nothing⟩ | ⟨byte, read, -, held⟩
    · rw [nothing] at step
      refine .polls .dispatch inside (by rw [step]; rfl) (by rw [step]; rfl) ?_ ?_
        (.inr ⟨?_, fun _ => empty, ?_⟩)
      · rw [pc]
        decide
      · rw [pc]
        rfl
      · rw [pc]
        exact fun loop => absurd loop (by decide)
      · rw [pc]
        exact fun dispatch => absurd dispatch (by decide)
    · rw [← Prod.mk.eta (p := ringBufferRead s.boot.rxRingBuffer), read] at step
      have ring : (bootStep drv validate s.boot .main).rxRingBuffer =
          (ringBufferRead s.boot.rxRingBuffer).2 := congrArg Boot.rxRingBuffer step
      have one : Trace.commsBytes obs = [byte] := by
        rcases reads with ⟨same, -⟩ | ⟨byte', -, one, held'⟩
        · have length := congrArg List.length held
          rw [← ring, same, List.length_cons] at length
          omega
        · rw [held, ← ring, List.cons.injEq] at held'
          rw [one, held'.1]
      have less := congrArg List.length held
      rw [← ring, List.length_cons] at less
      have boot : s.boot.progress n < (bootStep drv validate s.boot .main).progress n := by
        have turns : (s.boot.session.since n).turns ≤
            ((bootStep drv validate s.boot .main).session.since n).turns := by
          show (s.boot.since n).taken.length + (s.boot.since n).sent.length +
              (if s.boot.pc = .gone then 1 else 0) ≤
            ((bootStep drv validate s.boot .main).since n).taken.length +
              ((bootStep drv validate s.boot .main).since n).sent.length + _
          rw [since, Trace.taken_append, Trace.sent_append, List.length_append, List.length_append,
            if_neg (by rw [pc]; decide)]
          omega
        unfold Boot.progress
        rw [since, Trace.commsBytes_append, one, List.length_append, List.length_singleton]
        omega
      exact .further (by omega)
  | loop => exact outside (.inl pc)
  | dispatch => exact outside (.inr pc)

/-- Some bytes arrive at the host. -/
theorem Underway.hostData (k : Nat) : Moves n s (.hostData k) (s.hostData k) := by
  obtain ⟨said, arrived, seen, inv⟩ := under.inv
  have sent := congrArg List.length inv.backward
  rw [List.length_append, flatMap_bytes_length] at sent
  have position := (under.host.data (s.toHost.take k)).2
  by_cases idle : k = 0 ∨ s.toHost = []
  · have nothing : s.toHost.take k = [] ∧ s.toHost.drop k = s.toHost := by
      rcases idle with rfl | none
      · exact ⟨rfl, rfl⟩
      · rw [none]
        exact ⟨List.take_nil, List.drop_nil⟩
    have rests : Updater.mainData s.main [] = (s.main, []) := by
      unfold Updater.mainData
      by_cases listening : s.main.host.Listening
      · have short : s.main.host.link.rxBuffer.length < Updater.packetLength := by
          rw [(inv.hears listening).rx]
          exact tailOf_length_lt seen
        have same : { s.main.host.link with rxBuffer := s.main.host.link.rxBuffer ++ [] } =
            s.main.host.link := by
          rw [List.append_nil]
        rw [hostData_listening listening, Updater.onData, same]
        dsimp only
        rw [Updater.handleLoop_short short]
      · rw [hostData_closed listening]
    have same : s.hostData k = s := by
      unfold Exchange.hostData
      rw [nothing.1, nothing.2, rests]
      exact congrArg (Exchange.mk _ _ · _) (List.append_nil _)
    rw [same]
    exact .rests idle rfl
  · rw [not_or] at idle
    have some := List.length_pos_of_ne_nil idle.2
    refine .further ?_
    show _ < s.boot.progress n + (18 * (s.boot.since n).sent.length - (s.toHost.drop k).length) +
      (Updater.mainData s.main (s.toHost.take k)).1.position
    rw [position, List.length_drop]
    unfold Exchange.progress
    change _ = 18 * (s.boot.since n).sent.length at sent
    omega

/-- `main` of the host goes on. -/
theorem Underway.hostMain : Moves n s .hostMain (s.hostDoes (Updater.mainStep s.main)) ∧
    Attends fwImage (Updater.mainStep s.main).1 := by
  obtain ⟨said, arrived, seen, inv⟩ := under.inv
  cases under.host.mainStep under.hears inv.main with
  | rests same silent idle =>
    have stays : s.hostDoes (Updater.mainStep s.main) = s := by
      unfold Exchange.hostDoes
      rw [same, silent]
      exact congrArg (Exchange.mk _ _ · _) (List.append_nil _)
    rw [stays, same]
    exact ⟨.rests idle rfl, under.host⟩
  | advances attends further =>
    refine ⟨.further ?_, attends⟩
    show _ < s.boot.progress n + _ + (Updater.mainStep s.main).1.position
    rw [further]
    exact Nat.lt_succ_self _

/-- Every event makes progress or finds nothing to do. -/
theorem Underway.moves (ok : Installable validate flash0 fwImage) {e : ExchangeEvent}
    (inTime : InTime s e) : Moves n s e (exchangeStep drv validate s e) := by
  cases e with
  | bootRx => exact under.bootRx
  | bootTick => exact under.bootTick
  | bootMain => exact under.bootMain ok inTime
  | hostData k => exact under.hostData k
  | hostMain => exact under.hostMain.1
  | hostTimeout =>
    have same : exchangeStep drv validate s .hostTimeout = s := by
      show { s with main := Updater.mainTimeout s.main } = s
      rw [show Updater.mainTimeout s.main = s.main from inTime]
    rw [same]
    exact .rests trivial rfl

/-- Every event that comes in time keeps an update under way. -/
theorem Underway.step (ok : Installable validate flash0 fwImage) {e : ExchangeEvent}
    (inTime : InTime s e) :
    Underway drv validate flash0 fwImage n (exchangeStep drv validate s e) := by
  obtain ⟨said, arrived, seen, inv⟩ := under.inv
  have inv' := inv.step e
  -- an event that the session does not see
  have unseen {e : BootEvent} (other : e ≠ .main) :
      Course fwImage ((bootStep drv validate s.boot e).session.since n) := by
    rw [(bootStep_session drv validate s.boot e).resolve_right fun step => other step.1]
    exact under.course
  cases e with
  | bootRx =>
    cases wire : s.toBoot with
    | nil =>
      have same : exchangeStep drv validate s .bootRx = s := by
        rw [exchangeStep, Exchange.bootRx, wire]
      rw [same]
      exact under
    | cons byte toBoot =>
      have step : exchangeStep drv validate s .bootRx =
          { s with toBoot := toBoot }.bootDoes drv validate (.rx byte) := by
        rw [exchangeStep, Exchange.bootRx, wire]
      rw [step] at inv' ⊢
      exact ⟨inv', unseen nofun, under.host⟩
  | bootTick => exact ⟨inv', unseen nofun, under.host⟩
  | bootMain =>
    refine ⟨inv', ?_, under.host⟩
    have on := under.onCourse ok inTime
    show Course fwImage ((bootStep drv validate s.boot .main).session.since n)
    rcases bootStep_session drv validate s.boot .main with same | ⟨-, step⟩
    · rw [same]
      exact under.course
    · exact under.course.step inv.boot.dialogue ok (step.since under.inside).1 on
  | hostData k => exact ⟨inv', under.course, (under.host.data _).1⟩
  | hostMain => exact ⟨inv', under.course, under.hostMain.2⟩
  | hostTimeout =>
    refine ⟨inv', under.course, ?_⟩
    show Attends fwImage (Updater.mainTimeout s.main)
    rw [show Updater.mainTimeout s.main = s.main from inTime]
    exact under.host

end Underway

/-! ## The start -/

section Start

variable {drv : FlashDriver} {validate : Flash → Option Bool} {flash0 : Flash}
  {fwImage : List Byte} {s : Exchange}

/-- Before the timer is armed the state is SYNC, and the main program leaves at the end of a
session or from RECEIVE_FW. -/
theorem bootRun_ends (es : List BootEvent) :
    ((bootRun drv validate flash0 es).pc = .setup →
      (bootRun drv validate flash0 es).bootloaderState = .sync) ∧
    ((bootRun drv validate flash0 es).pc = .gone →
      (bootRun drv validate flash0 es).bootloaderState = .done ∨
        (bootRun drv validate flash0 es).bootloaderState = .receiveFw) := by
  refine bootRun_invariant (P := fun v => (v.pc = .setup → v.bootloaderState = .sync) ∧
    (v.pc = .gone → v.bootloaderState = .done ∨ v.bootloaderState = .receiveFw)) drv validate
    flash0 es ⟨fun _ => rfl, nofun⟩ ?_
  intro v v' keep step
  have moved (pc : Pc) (there : v'.pc = pc) (other : pc ≠ .setup ∧ pc ≠ .gone) :
      (v'.pc = .setup → v'.bootloaderState = .sync) ∧
        (v'.pc = .gone → v'.bootloaderState = .done ∨ v'.bootloaderState = .receiveFw) :=
    ⟨fun setup => absurd (there.symm.trans setup) other.1,
      fun gone => absurd (there.symm.trans gone) other.2⟩
  cases step with
  | flushByte byte hpc | commsByte byte hpc | syncIdle hpc | syncTimeout hpc | syncByte byte hpc
  | syncByteTimeout byte hpc => exact moved _ hpc (by decide)
  | lastChunkFault hpc state => exact ⟨nofun, fun _ => .inr state⟩
  | left obs hpc ended => exact ⟨nofun, fun _ => .inl ended⟩
  | enter => exact moved .update rfl (by decide)
  | drained => exact moved .dispatch rfl (by decide)
  | syncMatch => exact moved .flush rfl (by decide)
  | _ => exact moved .loop rfl (by decide)

theorem ExchangeStart.underway (start : ExchangeStart drv validate flash0 fwImage s) :
    Underway drv validate flash0 fwImage s.boot.trace.length s := by
  have nothing : (s.boot.session.since s.boot.trace.length).trace = [] := List.drop_length
  have state : (s.boot.session.since s.boot.trace.length).bootloaderState = .waitForFwUpdateReq :=
    start.waiting
  refine ⟨start.inv, ⟨?_, ?_, ?_, ?_, ?_⟩, ⟨?_, ?_⟩⟩
  · intro setup
    obtain ⟨es, run⟩ := start.run
    have sync : s.boot.bootloaderState = .sync := by
      rw [run]
      exact (bootRun_ends es).1 (run ▸ setup)
    exact absurd (start.waiting.symm.trans sync) (by decide)
  · rw [nothing, state]
    rfl
  · rw [nothing]
    exact Nat.zero_le _
  · rw [state]
    nofun
  · intro gone
    obtain ⟨es, run⟩ := start.run
    have ends : s.boot.bootloaderState = .done ∨ s.boot.bootloaderState = .receiveFw := by
      rw [run]
      exact (bootRun_ends es).2 (run ▸ gone)
    rw [start.waiting] at ends
    exact absurd ends (by decide)
  · rw [start.phase]
    decide
  · exact fun other => absurd start.phase other

/-- At the start of an update nothing has arrived at either end. -/
theorem ExchangeStart.nothing_yet (start : ExchangeStart drv validate flash0 fwImage s)
    {said : List (Option CommsPacket)} {arrived seen : List Byte}
    (inv : ExchangeInv drv validate flash0 fwImage s.boot.trace.length s said arrived seen) :
    arrived = [] ∧ seen = [] := by
  have since : s.boot.since s.boot.trace.length = [] := List.drop_length
  have backward := inv.backward
  rw [since] at backward
  refine ⟨?_, (List.append_eq_nil_iff.mp backward).1⟩
  obtain ⟨es, run⟩ := start.run
  have live : s.boot.pc ≠ .gone := by
    intro gone
    have ends : s.boot.bootloaderState = .done ∨ s.boot.bootloaderState = .receiveFw := by
      rw [run]
      exact (bootRun_ends es).2 (run ▸ gone)
    simp [start.waiting] at ends
  have ring : RingOk s.boot.rxRingBuffer := run ▸ bootRun_ringOk drv validate flash0 es
  have held := inv.boot.held live
  rw [since, (held_eq_nil ring.ringSize).mpr start.read] at held
  exact held.symm

end Start

end SecureBootloader
