import SecureBootloader.Link.FreshStart
import SecureBootloader.Link.Installed
import SecureBootloader.Link.SignedImage

/-!
# Updates complete

The host and the bootloader wait for each other in every state of an update, but never both
at once. However their steps and the bytes on the wires are interleaved, as long as each
gets its turn and no timer runs out the image is installed and started.
-/

namespace SecureBootloader

open Updater (MainState)

/-- The host has reported success and the bootloader has gone to the application. -/
structure Complete (s : Exchange) : Prop where
  finished : s.main.host.phase = .finished
  gone : s.boot.pc = .gone

/-! ## There is no deadlock -/

/-- Behind the request `main` says a packet for each one it hears, and then waits. -/
theorem said_heard {m : MainState} (stage : m.stage ≠ .fwUpdateReq) :
    m.said = 1 ∧ m.heard ≤ 1 ∨ 2 ≤ m.said ∧ m.heard = m.said := by
  unfold MainState.said MainState.heard
  cases here : m.stage with
  | fwUpdateReq => exact absurd here stage
  | fwUpdateRes => exact .inl ⟨rfl, Nat.zero_le 1⟩
  | deviceIdReq => exact .inl ⟨rfl, Nat.le_refl 1⟩
  | fwLengthReq => exact .inr ⟨Nat.le_refl 2, rfl⟩
  | fwData => exact .inr ⟨by dsimp only; omega, rfl⟩

section Underway

variable {drv : FlashDriver} {validate : Flash → Option Bool} {flash0 : Flash}
  {fwImage : List Byte} {n : Nat} {s : Exchange} (ok : Installable validate flash0 fwImage)
  (under : Underway drv validate flash0 fwImage n s)
include under

/-- A host that has not finished listens. -/
theorem Underway.listening (unfinished : s.main.host.phase ≠ .finished) :
    s.main.host.Listening := by
  cases phase : s.main.host.phase with
  | transfer => exact .inl phase
  | validation => exact .inr phase
  | finished => exact absurd phase unfinished
  | exited => exact absurd phase under.host.running

/-- A host that has seen everything and has nothing in its queue has heard every word. -/
theorem Underway.heard_all (toHost : s.toHost = []) (packets : s.main.host.link.packets = [])
    (listening : s.main.host.Listening) :
    s.main.heard = (s.boot.session.since n).trace.words.length := by
  obtain ⟨said, arrived, seen, inv⟩ := under.inv
  obtain ⟨-, ⟨heard, all, count, -⟩, -⟩ := inv.hears listening
  have backward := inv.backward
  rw [toHost, List.append_nil] at backward
  rw [packets, List.append_nil] at all
  rw [← count, all, backward, packetsOf_bytes]
  rfl

theorem Underway.heard_le : s.main.heard ≤ chunkCount fwImage + 3 := by
  obtain ⟨said, arrived, seen, inv⟩ := under.inv
  have written := inv.main.written
  have sent : s.main.host.chunksSent = (s.main.host.byteWritten + 15) / 16 := rfl
  rw [inv.main.image] at written
  have most : s.main.host.chunksSent ≤ chunkCount fwImage := by
    unfold chunkCount
    omega
  unfold MainState.heard
  cases s.main.stage with
  | fwData =>
    dsimp only
    omega
  | _ =>
    dsimp only
    omega

/-- A bootloader that has read everything and has nothing in its queue has taken every
packet of the host. -/
theorem Underway.taken_all (ok : Installable validate flash0 fwImage) (live : s.boot.pc ≠ .gone)
    (toBoot : s.toBoot = []) (held : s.boot.rxRingBuffer.held = [])
    (empty : commsPacketAvailable s.boot.comms = false) :
    s.main.said = (s.boot.since n).taken.length := by
  obtain ⟨said, arrived, seen, inv⟩ := under.inv
  have queue := inv.boot.dialogue.queue
  have okQueue : QueueOk s.boot.comms := queue.ok
  have none : s.boot.comms.queue = [] := by
    by_contra some
    exact absurd (empty.symm.trans ((commsPacketAvailable_iff okQueue).mpr some)) (by decide)
  have read := inv.boot.held live
  have forward := inv.forward
  rw [held, List.append_nil] at read
  rw [toBoot, List.append_nil, ← read] at forward
  have packets : said.reduceOption.filter (fun packet => frameKind packet = .packet) =
      said.reduceOption := by
    refine List.filter_eq_self.mpr ?_
    intro packet member
    exact decide_eq_true (ok.kind packet (inv.scripted.scripted.subset member))
  have stored : (s.boot.since n).stored = said.reduceOption := by
    rw [show (s.boot.since n).stored = packetsOf (s.boot.since n).commsBytes from queue.stored,
      forward, packetsOf_bytes, wirePackets_filter said (by decide), packets]
  have queued : (s.boot.since n).stored = (s.boot.since n).taken ++ s.boot.comms.queue :=
    queue.fifo inv.boot.safe
  rw [← inv.scripted.count, ← stored, queued, none, List.append_nil]

/-- Where there is nothing to do for anyone the update is complete. -/
theorem Underway.complete (ok : Installable validate flash0 fwImage)
    (rx : s.boot.pc = .gone ∨ s.toBoot = []) (toHost : s.toHost = [])
    (boot : s.boot.pc = .gone ∨ s.boot.rxRingBuffer.held = [] ∧ s.boot.bootloaderState.Waiting ∧
      commsPacketAvailable s.boot.comms = false)
    (host : s.main.host.phase = .finished ∨
      s.main.stage ≠ .fwUpdateReq ∧ s.main.host.link.packets = []) : Complete s := by
  have heard_le := under.heard_le
  have words := under.course.words
  have length : (s.boot.session.since n).trace.words.length = min
      (s.boot.bootloaderState.hasSaid (s.boot.since n).taken.length) (chunkCount fwImage + 4) := by
    rw [words, List.length_take, replies_length]
    rfl
  by_cases gone : s.boot.pc = .gone
  · -- the bootloader has said its last word
    refine ⟨?_, gone⟩
    by_contra unfinished
    obtain ⟨-, packets⟩ := host.resolve_left unfinished
    have heard := under.heard_all toHost packets (under.listening unfinished)
    have ended : s.boot.bootloaderState = .done := (under.course.left gone).1
    have taken : (s.boot.since n).taken.length = _ := under.course.complete ended
    have all : (script fwImage).length = 3 + chunkCount fwImage := script_length fwImage
    rw [ended, taken, all] at length
    change _ = min (3 + chunkCount fwImage + 1) _ at length
    omega
  · -- the bootloader waits for a packet, so the host has heard what it waits for
    exfalso
    obtain ⟨held, waiting, empty⟩ := boot.resolve_left gone
    have said := under.taken_all ok gone (rx.resolve_left gone) held empty
    obtain ⟨saids, arrived, seen, inv⟩ := under.inv
    have soFar : s.boot.bootloaderState.TakenSoFar (s.boot.since n).taken.length :=
      inv.boot.dialogue.taken
    have most := inv.taken_script.length_le
    rw [inv.boot.since_eq.1, script_length] at most
    have undecided : s.boot.bootloaderState ≠ .done := by
      intro ended
      rw [ended] at waiting
      exact absurd waiting (by decide)
    have unfinished : s.main.host.phase ≠ .finished := by
      intro finished
      exact inv.boot.dialogue.undecided undecided _ (inv.success finished) (.inl rfl)
    obtain ⟨stage, packets⟩ := host.resolve_left unfinished
    have heard := under.heard_all toHost packets (under.listening unfinished)
    have pace := said_heard stage
    rw [length] at heard
    rw [said] at pace
    have chunks : chunkCount fwImage = (fwImage.length + 15) / 16 := rfl
    rcases waiting with state | state | state | state
    · rw [state] at heard soFar
      change _ = 0 at soFar
      omega
    · rw [state] at heard soFar
      change _ = 1 at soFar
      change _ = min 2 _ at heard
      omega
    · rw [state] at heard soFar
      change _ = 2 at soFar
      change _ = min 3 _ at heard
      omega
    · rw [state] at heard soFar
      change 3 ≤ _ at soFar
      change _ = min ((s.boot.since n).taken.length + 1) _ at heard
      omega

/-- A complete update stays so. -/
theorem Underway.stays (complete : Complete s) (e : ExchangeEvent) :
    Complete (exchangeStep drv validate s e) := by
  obtain ⟨finished, gone⟩ := complete
  have boot (e : BootEvent) : (bootStep drv validate s.boot e).pc = .gone := by
    cases e with
    | rx byte => rw [bootStep, if_pos gone, gone]
    | tick => rw [bootStep, if_pos gone, gone]
    | main => rw [bootStep, Boot.mainStep, gone]; exact gone
  have stage := (under.host.sentAll (by rw [finished]; decide)).1
  have closed : ¬s.main.host.Listening := by
    rintro (phase | phase) <;> rw [finished] at phase <;> cases phase
  cases e with
  | bootRx =>
    show Complete (s.bootRx drv validate)
    unfold Exchange.bootRx
    split
    · exact ⟨finished, gone⟩
    · exact ⟨finished, boot _⟩
  | bootTick => exact ⟨finished, boot _⟩
  | bootMain => exact ⟨finished, boot _⟩
  | hostData k =>
    refine ⟨?_, gone⟩
    show (Updater.mainData s.main _).1.host.phase = .finished
    rw [Updater.mainData, hostData_closed closed]
    exact finished
  | hostMain =>
    refine ⟨?_, gone⟩
    show (Updater.mainStep s.main).1.host.phase = .finished
    rw [Updater.mainStep, if_neg under.host.running, stage]
    show (Updater.hostMain s.main.host).1.phase = .finished
    rw [Updater.hostMain, finished]
    exact finished
  | hostTimeout =>
    refine ⟨?_, gone⟩
    show (Updater.mainTimeout s.main).host.phase = .finished
    rw [Updater.mainTimeout, stage]
    show (Updater.hostTimeout s.main.host).phase = .finished
    rw [Updater.hostTimeout, finished]
    exact finished

/-- The rounds an update takes at most. -/
def roundsFor (fwImage : List Byte) : Nat := 112 * chunkCount fwImage + 559

theorem Underway.bounded : s.progress n < roundsFor fwImage := by
  obtain ⟨said, arrived, seen, inv⟩ := under.inv
  have script : (script fwImage).length = 3 + chunkCount fwImage := script_length fwImage
  have lines := inv.scripted.scripted.length_le
  have read := inv.read.length_le
  rw [flatMap_bytes_length, wirePackets, List.length_map, said_length] at read
  have answers := inv.answers
  have words := congrArg List.length under.course.words
  rw [List.length_take, replies_length] at words
  have spoken : (s.boot.since n).sent.countP (frameKind · = .packet) =
      (s.boot.session.since n).trace.words.length := List.countP_eq_length_filter
  have stored := ((readFront inv.read).stored_front inv.scripted).length_le
  rw [← show (s.boot.since n).stored = packetsOf (s.boot.since n).commsBytes from
    inv.boot.dialogue.queue.stored] at stored
  have acks : (s.boot.since n).sent.length ≤ (s.boot.session.since n).trace.words.length +
      (s.boot.since n).stored.length := under.course.acks
  have taken := inv.taken_script.length_le
  rw [inv.boot.since_eq.1] at taken
  have held := held_length_lt (k := 7) inv.boot.ringOk.ringSize
  have heard := under.heard_le
  have position : s.main.position ≤ chunkCount fwImage + 6 := by
    unfold MainState.heard at heard
    unfold MainState.position
    cases stage : s.main.stage with
    | fwData =>
      rw [stage] at heard
      dsimp only at heard ⊢
      cases s.main.host.phase <;> dsimp only <;> omega
    | _ =>
      dsimp only
      omega
  have turns : (s.boot.session.since n).turns ≤ (s.boot.since n).taken.length +
      (s.boot.since n).sent.length + 1 := by
    refine Nat.add_le_add_left ?_ _
    split <;> decide
  unfold Exchange.progress Boot.progress roundsFor
  omega

end Underway

/-! ## Rounds -/

/-- A round of an update: a byte may arrive at either end, `main` of the host gets a turn, and
the bootloader gets once around its main loop. -/
structure Round (es : List ExchangeEvent) : Prop where
  rx : .bootRx ∈ es
  turn : 3 ≤ es.count .bootMain
  data : ∃ k, 0 < k ∧ .hostData k ∈ es
  main : .hostMain ∈ es

theorem Stands.trans {s t u : Exchange} (h : Stands s t) (h' : Stands t u) : Stands s u where
  main := h'.main.trans h.main
  toHost := h'.toHost.trans h.toHost
  toBoot live := (h'.toBoot (mt h.gone.mp live)).trans (h.toBoot live)
  ring := h'.ring.trans h.ring
  session := by rw [h'.session, h.session]; rfl
  gone := h'.gone.trans h.gone

/-- The steps of the main loop up to a place in it. -/
def Pc.until (target pc : Pc) : Nat :=
  if pc = target then 0 else if pc.next = target then 1 else 2

/-- A place in the main loop. -/
def Pc.Looping (pc : Pc) : Prop := pc = .loop ∨ pc = .update ∨ pc = .dispatch

theorem Pc.next_until {target pc : Pc} (place : target.Looping) (running : pc.Looping)
    (other : pc ≠ target) : pc.next.Looping ∧ target.until pc.next < target.until pc := by
  unfold Pc.Looping at *
  rcases place with rfl | rfl | rfl <;> rcases running with rfl | rfl | rfl <;>
    revert other <;> decide

theorem Pc.until_le (target pc : Pc) : target.until pc ≤ 2 := by
  unfold Pc.until
  split
  · decide
  · split <;> decide

section Resting

variable (drv : FlashDriver) (validate : Flash → Option Bool)

/-- An event that finds nothing to do. -/
def Resting (s : Exchange) (e : ExchangeEvent) : Prop :=
  Idle s e ∧ Stands s (exchangeStep drv validate s e) ∧
    (exchangeStep drv validate s e).boot.pc = pcAfter s.boot.pc e

variable {drv validate} {s : Exchange} {es : List ExchangeEvent}
  (rests : Lib.Run.Meets (exchangeStep drv validate) (Resting drv validate) s es)
include rests

theorem resting_at {e : ExchangeEvent} (member : e ∈ es) : ∃ t, Stands s t ∧ Idle t e := by
  induction es generalizing s with
  | nil => cases member
  | cons e' es ih =>
    obtain ⟨⟨idle, stands, -⟩, more⟩ := rests
    rcases List.mem_cons.mp member with rfl | later
    · exact ⟨s, ⟨rfl, rfl, fun _ => rfl, rfl, rfl, Iff.rfl⟩, idle⟩
    · obtain ⟨t, there, idle⟩ := ih more later
      exact ⟨t, stands.trans there, idle⟩

/-- The main program of a resting bootloader comes to every place of its loop. -/
theorem resting_main {target : Pc} (place : target.Looping) (running : s.boot.pc.Looping)
    (enough : target.until s.boot.pc < es.count .bootMain) :
    ∃ t, Stands s t ∧ t.boot.pc = target ∧ Idle t .bootMain := by
  induction es generalizing s with
  | nil => cases enough
  | cons e es ih =>
    obtain ⟨⟨idle, stands, pc⟩, more⟩ := rests
    by_cases main : e = .bootMain
    · subst main
      by_cases here : s.boot.pc = target
      · exact ⟨s, ⟨rfl, rfl, fun _ => rfl, rfl, rfl, Iff.rfl⟩, here, idle⟩
      · rw [List.count_cons_self] at enough
        change _ = s.boot.pc.next at pc
        obtain ⟨running', closer⟩ := Pc.next_until place running here
        rw [← pc] at running' closer
        obtain ⟨t, there, at_, idle⟩ := ih more running' (by omega)
        exact ⟨t, stands.trans there, at_, idle⟩
    · rw [List.count_cons_of_ne main] at enough
      have same : (exchangeStep drv validate s e).boot.pc = s.boot.pc := by
        rw [pc]
        cases e with
        | bootMain => exact absurd rfl main
        | _ => rfl
      rw [← same] at running enough
      obtain ⟨t, there, at_, idle⟩ := ih more running enough
      exact ⟨t, stands.trans there, at_, idle⟩

/-- If a whole round rests the update is complete. -/
theorem Underway.round {flash0 : Flash} {fwImage : List Byte} {n : Nat}
    (under : Underway drv validate flash0 fwImage n s)
    (ok : Installable validate flash0 fwImage) (round : Round es) : Complete s := by
  obtain ⟨t, stands, rx⟩ := resting_at rests round.rx
  obtain ⟨k, positive, member⟩ := round.data
  obtain ⟨u, standsData, data⟩ := resting_at rests member
  obtain ⟨w, standsMain, main⟩ := resting_at rests round.main
  refine under.complete ok ?_ ?_ ?_ ?_
  · by_cases gone : s.boot.pc = .gone
    · exact .inl gone
    · rw [← stands.toBoot gone]
      exact .inr (rx.resolve_left (mt stands.gone.mp gone))
  · rw [← standsData.toHost]
    exact data.resolve_left (by omega)
  · by_cases gone : s.boot.pc = .gone
    · exact .inl gone
    · have running : s.boot.pc.Looping := by
        obtain ⟨said, arrived, seen, inv⟩ := under.inv
        have started : s.boot.pc ≠ .setup := under.course.started
        have flush : s.boot.pc ≠ .flush := inv.boot.dialogue.past.2
        cases pc : s.boot.pc with
        | setup => exact absurd pc started
        | flush => exact absurd pc flush
        | gone => exact absurd pc gone
        | loop => exact .inl rfl
        | update => exact .inr (.inl rfl)
        | dispatch => exact .inr (.inr rfl)
      have turn := round.turn
      -- at `comms_update` the byte queue is empty, at the `switch` there is no packet
      have update := Pc.until_le .update s.boot.pc
      have dispatch := Pc.until_le .dispatch s.boot.pc
      obtain ⟨a, standsA, pcA, idleA⟩ := resting_main rests (.inr (.inl rfl)) running
        (by omega)
      obtain ⟨b, standsB, pcB, idleB⟩ := resting_main rests (.inr (.inr rfl)) running
        (by omega)
      have held := (idleA.resolve_left (mt standsA.gone.mp gone)).2.1 pcA
      have waits := (idleB.resolve_left (mt standsB.gone.mp gone)).2.2 pcB
      have state : b.boot.bootloaderState = s.boot.bootloaderState :=
        congrArg Session.bootloaderState standsB.session
      have comms : b.boot.comms = s.boot.comms := congrArg Session.comms standsB.session
      rw [standsA.ring] at held
      rw [state, comms] at waits
      exact .inr ⟨held, waits⟩
  · rw [← standsMain.main]
    exact main

end Resting

/-! ## The theorem -/

/-- The update is complete, and the image is installed. -/
structure ImageInstalled (flash0 : Flash) (fwImage : List Byte) (s : Exchange) : Prop where
  complete : Complete s
  jumped : .jumped ∈ s.boot.trace
  flash : s.boot.flash = withImage flash0 fwImage

section Theorem

variable {drv : FlashDriver} {validate : Flash → Option Bool} {flash0 : Flash}
  {fwImage : List Byte} {s : Exchange}

theorem Underway.installed {n : Nat} (under : Underway drv validate flash0 fwImage n s)
    (ok : Installable validate flash0 fwImage) (complete : Complete s) :
    ImageInstalled flash0 fwImage s := by
  obtain ⟨said, arrived, seen, inv⟩ := under.inv
  have jumped : .jumped ∈ s.boot.trace.drop n := (under.course.left complete.gone).2
  have image := inv.image_in_flash ok.small complete.finished
  exact ⟨complete, List.mem_of_mem_drop jumped, inv.installed ok image.count⟩

/-- An image that can be installed is installed. -/
theorem Underway.installs {n : Nat} (under : Underway drv validate flash0 fwImage n s)
    (ok : Installable validate flash0 fwImage) {rounds : List (List ExchangeEvent)}
    (fair : ∀ es ∈ rounds, Round es) (enough : roundsFor fwImage ≤ rounds.length)
    (inTime : Lib.Run.Meets (exchangeStep drv validate) InTime s rounds.flatten) :
    ImageInstalled flash0 fwImage
      (Lib.Run.run (exchangeStep drv validate) s rounds.flatten) := by
  -- the events to come are in time
  have keep (t : Exchange) (e : ExchangeEvent) (es : List ExchangeEvent)
      (h : Underway drv validate flash0 fwImage n t ∧
        Lib.Run.Meets (exchangeStep drv validate) InTime t (e :: es)) :=
    And.intro (h.1.step ok h.2.1) h.2.2
  have under' := Lib.Run.run_invariant_of_meets
    (P := Underway drv validate flash0 fwImage n) (C := InTime)
    (fun _ _ under inTime => under.step ok inTime) under inTime
  refine under'.installed ok ?_
  refine Lib.Run.run_rounds (fun t es => Underway drv validate flash0 fwImage n t ∧
      Lib.Run.Meets (exchangeStep drv validate) InTime t es)
    Complete (Exchange.progress n) (Resting drv validate) Round
    (roundsFor fwImage - 1) keep ?_ ?_ ?_ ?_ ⟨under, inTime⟩ fair (.inr ?_)
  · rintro t e es ⟨under, inTime, -⟩
    cases under.moves ok inTime with
    | further more => exact .inl more
    | idle same idle stands pc => exact .inr ⟨same, idle, stands, pc⟩
  · rintro t es ⟨under, -⟩
    exact Nat.le_sub_one_of_lt under.bounded
  · rintro t e es ⟨under, -⟩ complete
    exact under.stays complete e
  · rintro t es rest ⟨under, -⟩ round rests
    exact under.round rests ok round
  · have some : 0 < roundsFor fwImage := Nat.succ_pos _
    omega

/-- However the steps of an update are interleaved, as long as no timer runs out and there are
enough rounds in which each party gets its turn: the update ends with the image in the
application area, the rest of the flash as it was, success at the host and the bootloader gone
to the application exactly when the image is one that can be installed. -/
theorem update_completes (short : fwImage.length < 2 ^ 32)
    (start : ExchangeStart drv validate flash0 fwImage s) {rounds : List (List ExchangeEvent)}
    (fair : ∀ es ∈ rounds, Round es) (enough : roundsFor fwImage ≤ rounds.length)
    (inTime : Lib.Run.Meets (exchangeStep drv validate) InTime s rounds.flatten) :
    ImageInstalled flash0 fwImage (Lib.Run.run (exchangeStep drv validate) s rounds.flatten) ↔
      Installable validate flash0 fwImage := by
  constructor
  · intro installed
    obtain ⟨said, arrived, seen, inv⟩ := start.run_inv rounds.flatten
    exact inv.installable short installed.complete.finished
  · exact fun ok => start.underway.installs ok fair enough inTime

end Theorem

theorem promptRound_fair (rounds : Nat) : ∀ es ∈ List.replicate rounds promptRound, Round es := by
  intro es member
  rw [List.eq_of_mem_replicate member]
  exact ⟨by decide, by decide, ⟨18, by decide, by decide⟩, by decide⟩

/-- The blank image, signed. -/
theorem update_completes_signed : ∃ image,
    Signer.signFirmware Signer.aes128Cbc (firmwareOf (blankImage 0x1D8) 0x1D8) 0 = .ok image ∧
      ImageInstalled (fun _ => 0) image (Lib.Run.run (exchangeStep stm32Flash validateFlash)
        (freshExchange stm32Flash validateFlash (fun _ => 0) image)
        (List.replicate (roundsFor image) promptRound).flatten) := by
  have tool : IsAes128Cbc Signer.aes128Cbc := fun _ _ _ => rfl
  have signable := firmwareOf_signable (m := blankImage 0x1D8) (n := 0x1D8) (fun _ _ => rfl)
    (by decide)
  obtain ⟨fwImage, -, -, signed⟩ :=
    signFirmware_ok tool signable (by decide) (by decide) 0 (by decide) (by decide)
  have ok := signed_installable tool signable (by decide) (by decide) (by decide) (by decide)
    signed (fun _ => 0) (by decide) (by decide) (fun two => absurd two (by decide))
  exact ⟨_, signed, (update_completes ok.small
    (freshExchange_start stm32Flash validateFlash (fun _ => 0) _) (promptRound_fair _)
    List.length_replicate.ge (prompt_inTime stm32Flash validateFlash (fun _ => 0) _ _)).mpr ok⟩

end SecureBootloader
