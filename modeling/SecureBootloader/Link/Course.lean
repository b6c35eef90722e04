import SecureBootloader.Boot.Server
import SecureBootloader.Link.Exchange

/-!
# The course of an update

What the bootloader answers to the packets of an image it takes: each of them is the
one its state waits for, and its words, ACKs apart, are the same in every run.
-/

namespace SecureBootloader

/-! ## The image -/

/-- The number of data packets for an image. -/
def chunkCount (fwImage : List Byte) : Nat := (fwImage.length + 15) / 16

/-- An image that an update can install: it fits, it is for this device, its last chunk is
neither a single byte nor one that reads as a control packet, and the validator accepts it. -/
structure Installable (validate : Flash → Option Bool) (flash0 : Flash) (fwImage : List Byte) :
    Prop where
  fits : fwImage.length ≤ maxFwLength
  device : (fwImage.getD Updater.fwinfoDeviceIdOffset 0).toNat = deviceId
  whole : fwImage.length % 16 ≠ 1
  plain : fwImage.length % 16 = 2 → fwImage.drop (fwImage.length - 2) ≠ [packetAckData0, 0xff] ∧
    fwImage.drop (fwImage.length - 2) ≠ [packetRetxData0, 0xff]
  valid : validate (withImage flash0 fwImage) = some true

section Image

variable {validate : Flash → Option Bool} {flash0 : Flash} {fwImage : List Byte}
  (ok : Installable validate flash0 fwImage)
include ok

/-- Without the device id in it an image is not for this device. -/
theorem Installable.long : Updater.fwinfoDeviceIdOffset < fwImage.length := by
  by_contra short
  have device := ok.device
  rw [List.getD_eq_getElem?_getD, List.getElem?_eq_none (Nat.le_of_not_lt short)] at device
  cases device

theorem Installable.small : fwImage.length < 2 ^ 32 :=
  Nat.lt_of_le_of_lt ok.fits (by decide)

/-- The chunk behind `16 * k` bytes. -/
theorem Installable.chunk {k : Nat} (inside : 16 * k < fwImage.length) :
    frameKind (Updater.dataPacket fwImage (16 * k)) = .packet ∧
      DataLengthOk (Updater.dataPacket fwImage (16 * k)) := by
  have size := chunk_size fwImage (16 * k)
  have whole := ok.whole
  rw [dataPacket_eq]
  refine ⟨(frameKind_chunkPacket (by omega) (by omega)).mpr ?_,
    (dataLengthOk_chunkPacket (by omega) (by omega)).mpr (by omega)⟩
  constructor
  · intro pair
    obtain ⟨two, -, same⟩ := chunk_pair pair
    exact (ok.plain two).1 same
  · intro pair
    obtain ⟨two, -, same⟩ := chunk_pair pair
    exact (ok.plain two).2 same

/-- Every packet of the script is a packet to the bootloader. -/
theorem Installable.kind : ∀ packet ∈ script fwImage, frameKind packet = .packet := by
  intro packet member
  rw [script, List.mem_cons, List.mem_cons, List.mem_cons] at member
  rcases member with rfl | rfl | rfl | member
  · decide +kernel
  · exact frameKind_newPacket (by decide)
  · exact frameKind_newPacket (by decide)
  · obtain ⟨k, inside, rfl⟩ := List.mem_map.mp member
    rw [List.mem_range] at inside
    exact (ok.chunk (by omega)).1

/-- The device id is that of the bootloader. -/
theorem Installable.deviceId : Expected .deviceIdRes (Updater.devIDPacket fwImage) := by
  have data : (Updater.devIDPacket fwImage).data.toList = [blPacketDeviceIdResData0,
      fwImage.getD Updater.fwinfoDeviceIdOffset 0] ++ List.replicate 14 0xff :=
    padded_eq _ (Nat.le_of_ble_eq_true rfl)
  have first : (Updater.devIDPacket fwImage).dataAt 0 = blPacketDeviceIdResData0 := by
    rw [CommsPacket.dataAt, data]
    rfl
  have second : (Updater.devIDPacket fwImage).dataAt 1 =
      fwImage.getD Updater.fwinfoDeviceIdOffset 0 := by
    rw [CommsPacket.dataAt, data]
    rfl
  have length : (Updater.devIDPacket fwImage).length = 2 := rfl
  refine ⟨?_, second ▸ ok.device⟩
  unfold isDeviceIdPacket
  rw [if_neg (not_not.mpr length), if_neg (not_not.mpr first), data]
  show (List.replicate 14 (0xff : Byte)).all (· == 0xff) = true
  decide

/-- The announced length is that of the image, and it fits. -/
theorem Installable.announces : Expected .fwLengthRes (Updater.fwLengthPacket fwImage) ∧
    announcedLength (Updater.fwLengthPacket fwImage) = fwImage.length := by
  have data : (Updater.fwLengthPacket fwImage).data.toList = [blPacketFwLengthResData0,
      leByte fwImage.length 0, leByte fwImage.length 1, leByte fwImage.length 2,
      leByte fwImage.length 3] ++ List.replicate 11 0xff :=
    padded_eq _ (Nat.le_of_ble_eq_true rfl)
  have first : (Updater.fwLengthPacket fwImage).dataAt 0 = blPacketFwLengthResData0 := by
    rw [CommsPacket.dataAt, data]
    rfl
  have announced : announcedLength (Updater.fwLengthPacket fwImage) = fwImage.length := by
    rw [announcedLength_eq]
    unfold CommsPacket.dataAt
    rw [data]
    exact le32_leByte ok.small
  have length : (Updater.fwLengthPacket fwImage).length = 5 := rfl
  refine ⟨⟨?_, announced ▸ ok.fits⟩, announced⟩
  unfold isFwLengthPacket
  rw [if_neg (not_not.mpr length), if_neg (not_not.mpr first), data]
  show (List.replicate 11 (0xff : Byte)).all (· == 0xff) = true
  decide

/-- Each packet of the script is the one the bootloader waits for when it takes it. -/
theorem Installable.expected {state : BlState} {taken : Nat} {packet : CommsPacket}
    (waiting : state.Waiting) (soFar : state.TakenSoFar taken)
    (here : (script fwImage)[taken]? = some packet) : Expected state packet := by
  rcases waiting with rfl | rfl | rfl | rfl
  · obtain rfl : taken = 0 := soFar
    rw [← Option.some.inj here]
    show commsIsSingleBytePacket Updater.fwUpdateReqPacket blPacketFwUpdateReqData0 = true
    decide +kernel
  · obtain rfl : taken = 1 := soFar
    rw [← Option.some.inj here]
    exact ok.deviceId
  · obtain rfl : taken = 2 := soFar
    rw [← Option.some.inj here]
    exact ok.announces.1
  · obtain ⟨k, rfl⟩ := Nat.exists_eq_add_of_le' soFar
    change (dataPackets fwImage)[k]? = some packet at here
    obtain ⟨inside, -⟩ := List.getElem?_eq_some_iff.mp here
    rw [dataPackets, List.length_map, List.length_range] at inside
    rw [dataPackets_getElem? (by omega)] at here
    rw [← Option.some.inj here]
    exact (ok.chunk (by omega)).2

end Image

/-! ## The words of the bootloader -/

/-- What the bootloader says while it takes an image of `chunks` chunks, ACKs apart. -/
def replies (chunks : Nat) : List CommsPacket :=
  [commsCreateSingleBytePacket blPacketFwUpdateResData0,
    commsCreateSingleBytePacket blPacketDeviceIdReqData0,
    commsCreateSingleBytePacket blPacketFwLengthReqData0] ++
  List.replicate chunks (commsCreateSingleBytePacket blPacketReadyForDataData0) ++
  [updateSuccessful]

@[simp] theorem replies_length (chunks : Nat) : (replies chunks).length = chunks + 4 := by
  rw [replies, List.length_append, List.length_append, List.length_replicate]
  show 3 + chunks + 1 = _
  omega

theorem replies_ready {chunks k : Nat} (inside : k < chunks) : (replies chunks)[k + 3]? =
    some (commsCreateSingleBytePacket blPacketReadyForDataData0) := by
  have ready : (List.replicate chunks (commsCreateSingleBytePacket blPacketReadyForDataData0))[k]? =
      some (commsCreateSingleBytePacket blPacketReadyForDataData0) := by
    rw [List.getElem?_replicate, if_pos inside]
  rw [replies, List.append_assoc]
  show (List.replicate chunks _ ++ [updateSuccessful])[k]? = _
  rw [List.getElem?_append_left (by rwa [List.length_replicate]), ready]

theorem replies_last (chunks : Nat) : (replies chunks)[chunks + 3]? = some updateSuccessful := by
  rw [replies, List.append_assoc]
  show (List.replicate chunks _ ++ [updateSuccessful])[chunks]? = _
  rw [List.getElem?_append_right (by rw [List.length_replicate]), List.length_replicate,
    Nat.sub_self]
  rfl

/-- How many of them have been said in a state, when `taken` packets have been taken. -/
def BlState.hasSaid (state : BlState) (taken : Nat) : Nat :=
  match state with
  | .sync | .waitForFwUpdateReq => 0
  | .deviceIdReq => 1
  | .deviceIdRes | .fwLengthReq => 2
  | .fwLengthRes | .eraseApplication => 3
  | .receiveFw | .done => taken + 1

/-- The words among what was sent. -/
def Trace.words (t : Trace) : List CommsPacket :=
  t.sent.filter fun packet => frameKind packet = .packet

theorem Trace.words_append (t more : Trace) : Trace.words (t ++ more) = t.words ++ more.words := by
  rw [Trace.words, Trace.sent_append, List.filter_append]
  rfl

/-- A session on its course: it has said what it should have by now, one ACK at most for each
packet stored, is over only when the whole script is taken, and then goes to the
application. -/
structure Course (fwImage : List Byte) (v : Session) : Prop where
  started : v.pc ≠ .setup
  words : v.trace.words = (replies (chunkCount fwImage)).take
    (v.bootloaderState.hasSaid v.trace.taken.length)
  acks : v.trace.sent.length ≤ v.trace.words.length + v.trace.stored.length
  complete : v.bootloaderState = .done → v.trace.taken.length = (script fwImage).length
  left : v.pc = .gone → v.bootloaderState = .done ∧ .jumped ∈ v.trace

section Course

variable {fwImage : List Byte} {v v' : Session} (h : Course fwImage v)
include h

/-- A step that says nothing and stays where it is in the course. -/
theorem Course.rests (obs : Trace) (trace : v'.trace = v.trace ++ obs)
    (silent : obs.sent = []) (count : v'.bootloaderState.hasSaid v'.trace.taken.length =
      v.bootloaderState.hasSaid v.trace.taken.length) (state : v'.bootloaderState ≠ .done)
    (pc : v'.pc ≠ .setup ∧ v'.pc ≠ .gone) : Course fwImage v' := by
  have words : v'.trace.words = v.trace.words := by
    rw [trace, Trace.words_append, Trace.words, Trace.words, silent]
    exact List.append_nil _
  refine ⟨pc.1, by rw [words, count, h.words], ?_, fun ended => absurd ended state,
    fun gone => absurd gone pc.2⟩
  have acks := h.acks
  rw [words, trace, Trace.sent_append, Trace.stored_append, silent, List.append_nil,
    List.length_append]
  omega

/-- A step that says the next word. -/
theorem Course.speaks (byte : Byte) (obs : Trace) (trace : v'.trace = v.trace ++ obs)
    (sent : obs.sent = [commsCreateSingleBytePacket byte])
    (control : byte ≠ packetAckData0 ∧ byte ≠ packetRetxData0)
    (next : (replies (chunkCount fwImage))[v.bootloaderState.hasSaid v.trace.taken.length]? =
      some (commsCreateSingleBytePacket byte))
    (count : v'.bootloaderState.hasSaid v'.trace.taken.length =
      v.bootloaderState.hasSaid v.trace.taken.length + 1)
    (complete : v'.bootloaderState = .done → v'.trace.taken.length = (script fwImage).length)
    (pc : v'.pc ≠ .setup ∧ v'.pc ≠ .gone) : Course fwImage v' := by
  have word : Trace.words obs = [commsCreateSingleBytePacket byte] := by
    rw [Trace.words, sent]
    exact List.filter_cons_of_pos (decide_eq_true (frameKind_single control))
  refine ⟨pc.1, ?_, ?_, complete, fun gone => absurd gone pc.2⟩
  · rw [trace, Trace.words_append, word, ← trace, count, List.take_add_one, next, h.words]
    rfl
  · have acks := h.acks
    rw [trace, Trace.words_append, Trace.sent_append, Trace.stored_append, sent, word,
      List.length_append, List.length_append, List.length_append]
    omega

end Course

/-- What a step of an update may rely on while no timer runs out: the next packet is the one
of the script, no frame is damaged or asks for one again, the announced length is that of
the image, as many bytes are written as chunks are taken, and the complete image is valid. -/
structure OnCourse (validate : Flash → Option Bool) (fwImage : List Byte) (v v' : Session) :
    Prop where
  patient : v'.bootloaderState = .done → v.pc = .dispatch → v.bootloaderState.Waiting →
    commsPacketAvailable v.comms = true
  next : commsPacketAvailable v.comms = true →
    (script fwImage)[v.trace.taken.length]? = some v.nextPacket
  polite : ∀ frame ∈ framesOf v'.trace.commsBytes,
    frameKind frame = .ack ∨ frameKind frame = .packet
  announced : v.bootloaderState = .receiveFw → v.firmwareLength = fwImage.length
  written : v'.trace.accepted = v'.trace.taken.drop 3 →
    v'.bytesWritten = min (16 * (v'.trace.taken.length - 3)) fwImage.length
  valid : v'.bytesWritten = fwImage.length → validate v'.flash = some true

section Step

variable {drv : FlashDriver} {validate : Flash → Option Bool} {flash0 : Flash}
  {fwImage : List Byte} {v v' : Session}

/-- A byte is read: an ACK is said for a packet that is stored, and nothing else. -/
theorem Course.byte_read (h : Course fwImage v) (queue : QueueInv v) (queue' : QueueInv v')
    (pc : v.pc = .update) (state : v.bootloaderState ≠ .done) {byte : Byte}
    (trace : v'.trace = v.trace ++ .commsByte byte :: (commsUpdateByte v.comms byte).2)
    (same : v'.bootloaderState = v.bootloaderState ∧ v'.pc = v.pc)
    (polite : ∀ frame ∈ framesOf v'.trace.commsBytes,
      frameKind frame = .ack ∨ frameKind frame = .packet) : Course fwImage v' := by
  have bytes := byte_commsBytes trace
  have taken := byte_taken trace
  have short := tailOf_length_lt v.trace.commsBytes
  have sent : v'.trace.sent = v.trace.sent ++ (commsUpdateByte v.comms byte).2.sent := by
    rw [trace, Trace.sent_append]
    rfl
  -- it is an ACK if the byte completes a packet
  have said : (commsUpdateByte v.comms byte).2.sent = [] ∨
      (commsUpdateByte v.comms byte).2.sent = [ackPacket] ∧
        v'.trace.stored.length = v.trace.stored.length + 1 := by
    by_cases full : (tailOf v.trace.commsBytes).length = 17
    · have last : frameOf (tailOf v.trace.commsBytes ++ [byte]) ∈ framesOf v'.trace.commsBytes := by
        rw [bytes, (tailOf_complete full).2]
        exact List.mem_append_right _ (List.mem_singleton_self _)
      obtain ⟨answer, -⟩ := queue.part.complete_says byte full
      rcases polite _ last with ack | packet
      · rw [ack] at answer
        exact .inl answer
      · rw [packet] at answer
        refine .inr ⟨answer, ?_⟩
        rw [queue'.stored, bytes, packetsOf_complete full, List.filter_singleton,
          decide_eq_true packet, List.length_append, ← queue.stored]
        rfl
    · obtain ⟨silent, -⟩ := queue.part.step byte (by omega)
      rw [silent]
      exact .inl rfl
  have more : v.trace.stored.length ≤ v'.trace.stored.length := by
    rw [byte_stored trace, List.length_append]
    exact Nat.le_add_right _ _
  have words : v'.trace.words = v.trace.words := by
    rw [Trace.words, sent, List.filter_append, Trace.words]
    rcases said with none | ⟨ack, -⟩
    · rw [none]
      exact List.append_nil _
    · rw [ack, List.filter_cons_of_neg (by rw [frameKind_ackPacket]; decide)]
      exact List.append_nil _
  have acks := h.acks
  refine ⟨?_, ?_, ?_, ?_, ?_⟩
  · rw [same.2, pc]
    decide
  · rw [words, taken, same.1, h.words]
  · rw [words, sent, List.length_append]
    rcases said with none | ⟨ack, one⟩
    · rw [none]
      exact acks.trans (Nat.add_le_add_left more _)
    · rw [ack, one]
      exact Nat.succ_le_succ acks
  · exact fun ended => absurd (same.1.symm.trans ended) state
  · intro gone
    rw [same.2, pc] at gone
    cases gone

/-- A data packet is taken, and it is one of the image. -/
theorem OnCourse.wrote (on : OnCourse validate fwImage v v') (dialogue : Dialogue validate v)
    (available : commsPacketAvailable v.comms = true) (state : v.bootloaderState = .receiveFw)
    (obs : Trace) (trace : v'.trace = ((v.atPc .loop).takes.writes drv v.nextPacket).trace ++ obs)
    (none : obs.taken = [] ∧ obs.accepted = []) :
    v'.trace.taken.length = v.trace.taken.length + 1 ∧
      v.trace.taken.length < 3 + chunkCount fwImage ∧
      v'.bytesWritten = min (16 * (v.trace.taken.length - 2)) fwImage.length := by
  have three : 3 ≤ v.trace.taken.length := by
    have soFar := dialogue.taken
    rwa [state] at soFar
  have taken : v'.trace.taken = v.trace.taken ++ [v.nextPacket] := by
    rw [trace, takes_writes_append available, Trace.taken_append]
    exact congrArg (fun more => v.trace.taken ++ v.nextPacket :: more) none.1
  have accepted : v'.trace.accepted = v.trace.accepted ++ [v.nextPacket] := by
    rw [trace, takes_writes_append available, Trace.accepted_append]
    exact congrArg (fun more => v.trace.accepted ++ v.nextPacket :: more) none.2
  obtain ⟨inside, -⟩ := List.getElem?_eq_some_iff.mp (on.next available)
  rw [script_length] at inside
  have length : v'.trace.taken.length = v.trace.taken.length + 1 := by
    rw [taken, List.length_append]
    rfl
  refine ⟨length, inside, ?_⟩
  rw [on.written, length]
  · congr 2
  · rw [accepted, dialogue.receiving state, taken, List.drop_append_of_le_length three]

section Kinds

variable (h : Course fwImage v) (dialogue : Dialogue validate v)
include h dialogue

/-- In an update whose timers do not run out the session stays on its course. -/
theorem Course.step (ok : Installable validate flash0 fwImage)
    (step : SessionStep drv validate v v') (on : OnCourse validate fwImage v v') :
    Course fwImage v' := by
  have inside (pc : v.pc = .dispatch) : v.bootloaderState ≠ .done :=
    dialogue.unfinished (by rw [pc]; decide)
  have count {state : BlState} (here : v.bootloaderState = state) :
      state.TakenSoFar v.trace.taken.length := here ▸ dialogue.taken
  have chunks : 0 < chunkCount fwImage := by
    have long := ok.long
    unfold chunkCount
    omega
  have queue := dialogue.queue.step step
  cases step with
  | start hpc => exact absurd hpc h.started
  | enter hpc active =>
    exact h.rests [] (List.append_nil _).symm rfl rfl active.2 ⟨nofun, nofun⟩
  | drained hpc =>
    have live := dialogue.unfinished (by rw [hpc]; decide)
    exact h.rests [] (List.append_nil _).symm rfl rfl live ⟨nofun, nofun⟩
  | idle hpc waiting empty =>
    exact h.rests [] (List.append_nil _).symm rfl rfl (inside hpc) ⟨nofun, nofun⟩
  | timeout hpc waiting empty =>
    exact absurd (on.patient rfl hpc waiting) (by rw [empty]; decide)
  | syncIdle hpc sync => exact absurd sync dialogue.past.1
  | syncTimeout hpc sync => exact absurd sync dialogue.past.1
  | syncByte byte hpc sync => exact absurd sync dialogue.past.1
  | syncByteTimeout byte hpc sync => exact absurd sync dialogue.past.1
  | syncMatch byte hpc sync => exact absurd sync dialogue.past.1
  | flushByte byte hpc => exact absurd hpc dialogue.past.2
  | flushed hpc => exact absurd hpc dialogue.past.2
  | commsByte byte hpc =>
    have live := dialogue.unfinished (by rw [hpc]; decide)
    exact h.byte_read dialogue.queue queue hpc live
      (List.append_assoc v.trace [.commsByte byte] _) ⟨rfl, rfl⟩ on.polite
  | refused length hpc waiting available wrong announced =>
    exact absurd (ok.expected waiting dialogue.taken (on.next available)) wrong
  | fwUpdateReq hpc state available request =>
    have none : v.trace.taken.length = 0 := count state
    refine h.speaks blPacketFwUpdateResData0 _ (takes_send_trace available _) rfl (by decide) ?_ ?_
      nofun ⟨nofun, nofun⟩
    · rw [state]
      rfl
    · rw [state]
      rfl
  | deviceIdReq hpc state =>
    refine h.speaks blPacketDeviceIdReqData0 [.sent _] rfl rfl (by decide) ?_ ?_ nofun
      ⟨nofun, nofun⟩
    · rw [state]
      rfl
    · rw [state]
      rfl
  | deviceIdRes hpc state available shape device =>
    refine h.rests _ (takes_trace available) rfl ?_ nofun ⟨nofun, nofun⟩
    rw [state]
    rfl
  | fwLengthReq hpc state =>
    refine h.speaks blPacketFwLengthReqData0 [.sent _] rfl rfl (by decide) ?_ ?_ nofun
      ⟨nofun, nofun⟩
    · rw [state]
      rfl
    · rw [state]
      rfl
  | fwLengthRes hpc state available shape fits =>
    refine h.rests _ (takes_trace available) rfl ?_ nofun ⟨nofun, nofun⟩
    rw [state]
    rfl
  | erase hpc state =>
    have three : v.trace.taken.length = 3 := count state
    refine h.speaks blPacketReadyForDataData0 _ (List.append_assoc ..) rfl (by decide) ?_ ?_ nofun
      ⟨nofun, nofun⟩
    · rw [state]
      exact replies_ready chunks
    · have taken : Trace.taken (((v.atPc .loop).erases drv).sendSingleByte
          blPacketReadyForDataData0).trace = v.trace.taken := by
        refine (congrArg Trace.taken (List.append_assoc ..)).trans ?_
        rw [Trace.taken_append]
        exact List.append_nil _
      rw [state, three]
      exact congrArg (fun more => List.length more + 1) taken |>.trans (by rw [three]; rfl)
  | chunk hpc state available enough more =>
    obtain ⟨taken, -, written⟩ := on.wrote dialogue available state [.sent _] rfl ⟨rfl, rfl⟩
    obtain ⟨k, three⟩ := Nat.exists_eq_add_of_le' (count state)
    change ((v.atPc .loop).takes.writes drv v.nextPacket).bytesWritten = _ at written
    rw [on.announced state] at more
    refine h.speaks blPacketReadyForDataData0 _ (takes_writes_append available _ _) rfl (by decide)
      ?_ ?_ (fun ended => absurd (state.symm.trans ended) (by decide)) ⟨nofun, nofun⟩
    · rw [state]
      show (replies _)[v.trace.taken.length + 1]? = _
      rw [three]
      exact replies_ready (by unfold chunkCount; omega)
    · show BlState.hasSaid v.bootloaderState _ = _
      rw [state]
      exact congrArg (· + 1) taken
  | lastChunk accepted hpc state available enough complete verdict =>
    obtain ⟨taken, inside, written⟩ := on.wrote dialogue available state [.sent _] rfl ⟨rfl, rfl⟩
    obtain ⟨k, three⟩ := Nat.exists_eq_add_of_le' (count state)
    change ((v.atPc .loop).takes.writes drv v.nextPacket).bytesWritten = _ at written
    rw [on.announced state] at complete
    have last : v.trace.taken.length + 1 = chunkCount fwImage + 3 := by
      unfold chunkCount at inside ⊢
      omega
    -- the complete image is valid
    obtain rfl : accepted = true :=
      Option.some.inj (verdict.symm.trans (on.valid (by
        show ((v.atPc .loop).takes.writes drv v.nextPacket).bytesWritten = _
        omega)))
    refine h.speaks blPacketUpdateSuccessfulData0 _ (takes_writes_append available _ _) rfl
      (by decide) ?_ ?_ (fun _ => ?_) ⟨nofun, nofun⟩
    · rw [state]
      show (replies _)[v.trace.taken.length + 1]? = _
      rw [last]
      exact replies_last _
    · rw [state]
      exact congrArg (· + 1) taken
    · rw [script_length, taken, last]
      exact Nat.add_comm _ _
  | lastChunkFault hpc state available enough complete fault =>
    obtain ⟨taken, inside, written⟩ := on.wrote dialogue available state [.faulted] rfl ⟨rfl, rfl⟩
    change ((v.atPc .loop).takes.writes drv v.nextPacket).bytesWritten = _ at written
    rw [on.announced state] at complete
    have valid := on.valid (by
      show ((v.atPc .loop).takes.writes drv v.nextPacket).bytesWritten = _
      omega)
    exact absurd (fault.symm.trans valid) (by decide)
  | unexpected hpc outside =>
    rcases outside with sync | done
    · exact absurd sync dialogue.past.1
    · exact absurd done (inside hpc)
  | left obs hpc ended way =>
    -- everything was said, UPDATE_SUCCESSFUL too
    have all : v.trace.words = replies (chunkCount fwImage) := by
      rw [h.words, ended]
      show (replies _).take (v.trace.taken.length + 1) = _
      rw [h.complete ended, script_length]
      exact List.take_of_length_le (by rw [replies_length]; unfold chunkCount; omega)
    have success : updateSuccessful ∈ v.trace.sent := by
      have said : updateSuccessful ∈ v.trace.words := by
        rw [all]
        exact List.mem_append_right _ (List.mem_singleton_self _)
      exact (List.mem_filter.mp said).1
    have valid := (dialogue.success success).1
    obtain ⟨rfl, -⟩ : obs = .jumped ∧ validate v.flash = some true := by
      rcases way with jumped | ⟨-, refused⟩ | ⟨-, fault⟩
      · exact jumped
      · exact absurd (refused.symm.trans valid) (by decide)
      · exact absurd (fault.symm.trans valid) (by decide)
    have words : Trace.words (v.trace ++ [.jumped]) = v.trace.words := by
      rw [Trace.words_append]
      exact List.append_nil _
    have taken : Trace.taken (v.trace ++ [.jumped]) = v.trace.taken := by
      rw [Trace.taken_append]
      exact List.append_nil _
    refine ⟨nofun, ?_, ?_, ?_,
      fun _ => ⟨ended, List.mem_append_right _ (List.mem_singleton_self _)⟩⟩
    · show Trace.words (v.trace ++ [.jumped]) = _
      rw [words]
      show _ = (replies _).take (BlState.hasSaid v.bootloaderState
        (Trace.taken (v.trace ++ [.jumped])).length)
      rw [taken, h.words]
    · show (Trace.sent (v.trace ++ [.jumped])).length ≤
        (Trace.words (v.trace ++ [.jumped])).length + (Trace.stored (v.trace ++ [.jumped])).length
      rw [words, Trace.sent_append, Trace.stored_append, List.length_append, List.length_append]
      exact h.acks
    · intro _
      show (Trace.taken (v.trace ++ [.jumped])).length = _
      rw [taken, h.complete ended]

/-- Where the main program goes on when there is nothing to do. -/
def Pc.next : Pc → Pc
  | .loop => .update
  | .update => .dispatch
  | .dispatch => .loop
  | pc => pc

/-- The steps of a session that count as progress: packets taken, packets sent, and the way
out. -/
def Session.turns (v : Session) : Nat :=
  v.trace.taken.length + v.trace.sent.length + if v.pc = .gone then 1 else 0

/-- A session with nothing to do but to look for bytes and packets. -/
structure Session.Polls (v v' : Session) : Prop where
  next : v' = v.atPc v.pc.next
  running : v.pc = .loop ∨ v.pc = .dispatch
  active : v.pc = .loop → v.bootloaderState ≠ .done
  waits : v.pc = .dispatch → v.bootloaderState.Waiting ∧ commsPacketAvailable v.comms = false

/-- A step on the course outside `comms_update` counts, or there is nothing to do. -/
theorem Course.turns (ok : Installable validate flash0 fwImage)
    (step : SessionStep drv validate v v') (on : OnCourse validate fwImage v v')
    (outside : v.pc ≠ .update) : v.turns < v'.turns ∨ v.Polls v' := by
  -- something is taken or sent
  have more (obs : Trace) (live : v.pc ≠ .gone) (trace : v'.trace = v.trace ++ obs)
      (some : 0 < obs.taken.length + obs.sent.length) : v.turns < v'.turns := by
    unfold Session.turns
    rw [if_neg live, trace, Trace.taken_append, Trace.sent_append, List.length_append,
      List.length_append]
    omega
  have dispatch (pc : v.pc = .dispatch) : v.pc ≠ .gone := by
    rw [pc]
    decide
  cases step with
  | start hpc => exact absurd hpc h.started
  | enter hpc active =>
    refine .inr ⟨by rw [hpc]; rfl, .inl hpc, fun _ => active.2, fun pc => ?_⟩
    rw [hpc] at pc
    cases pc
  | drained hpc => exact absurd hpc outside
  | idle hpc waiting empty =>
    refine .inr ⟨by rw [hpc]; rfl, .inr hpc, fun pc => ?_, fun _ => ⟨waiting, empty⟩⟩
    rw [hpc] at pc
    cases pc
  | timeout hpc => exact .inl (more [.sent _] (dispatch hpc) rfl Nat.one_pos)
  | syncIdle hpc sync => exact absurd sync dialogue.past.1
  | syncTimeout hpc sync => exact absurd sync dialogue.past.1
  | syncByte byte hpc sync => exact absurd sync dialogue.past.1
  | syncByteTimeout byte hpc sync => exact absurd sync dialogue.past.1
  | syncMatch byte hpc sync => exact absurd sync dialogue.past.1
  | flushByte byte hpc => exact absurd hpc dialogue.past.2
  | flushed hpc => exact absurd hpc dialogue.past.2
  | commsByte byte hpc => exact absurd hpc outside
  | refused length hpc waiting available wrong announced =>
    exact absurd (ok.expected waiting dialogue.taken (on.next available)) wrong
  | fwUpdateReq hpc state available =>
    exact .inl (more _ (dispatch hpc) (takes_send_trace available _) (Nat.succ_pos _))
  | deviceIdReq hpc => exact .inl (more [.sent _] (dispatch hpc) rfl Nat.one_pos)
  | deviceIdRes hpc state available =>
    exact .inl (more _ (dispatch hpc) (takes_trace available) (Nat.succ_pos _))
  | fwLengthReq hpc => exact .inl (more [.sent _] (dispatch hpc) rfl Nat.one_pos)
  | fwLengthRes hpc state available =>
    exact .inl (more _ (dispatch hpc) (takes_trace available) (Nat.succ_pos _))
  | erase hpc => exact .inl (more _ (dispatch hpc) (List.append_assoc ..) Nat.one_pos)
  | chunk hpc state available =>
    exact .inl (more _ (dispatch hpc) (takes_writes_append available _ _) (Nat.succ_pos _))
  | lastChunk accepted hpc state available =>
    exact .inl (more _ (dispatch hpc) (takes_writes_append available _ _) (Nat.succ_pos _))
  | lastChunkFault hpc state available =>
    exact .inl (more _ (dispatch hpc) (takes_writes_append available _ _) (Nat.succ_pos _))
  | unexpected hpc waits =>
    rcases waits with sync | done
    · exact absurd sync dialogue.past.1
    · exact absurd done (dialogue.unfinished (by rw [hpc]; decide))
  | left obs hpc ended way =>
    have quiet : Trace.taken [obs] = [] ∧ Trace.sent [obs] = [] := by
      rcases way with ⟨rfl, -⟩ | ⟨rfl, -⟩ | ⟨rfl, -⟩ <;> exact ⟨rfl, rfl⟩
    refine .inl ?_
    show _ + _ + _ < (Trace.taken (v.trace ++ [obs])).length +
      (Trace.sent (v.trace ++ [obs])).length + 1
    rw [Trace.taken_append, Trace.sent_append, quiet.1, quiet.2, List.append_nil, List.append_nil,
      if_neg (by rw [hpc]; decide)]
    exact Nat.lt_succ_self _

end Kinds

end Step

end SecureBootloader
