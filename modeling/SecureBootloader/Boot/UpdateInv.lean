import SecureBootloader.Boot.Handshake
import SecureBootloader.Lib.Run

/-!
# The invariant of an update

One invariant ties the state of the bootloader, the packets taken so far, the
flash operations and the flash content together. It is kept by every step of a
session, so it holds in every state of every run.
-/

namespace SecureBootloader

/-! ## What has been written -/

/-- The firmware bytes accepted so far. -/
def Trace.payload (t : Trace) : List Byte := t.accepted.flatMap chunkOf

/-- Programming the chunks of `packets` one after the other from `address`. -/
def writesFrom : Nat → List CommsPacket → Trace
  | _, [] => []
  | address, packet :: packets =>
    .programmed address (chunkOf packet) :: writesFrom (address + (chunkOf packet).length) packets

theorem writesFrom_concat (address : Nat) (packets : List CommsPacket) (packet : CommsPacket) :
    writesFrom address (packets ++ [packet]) = writesFrom address packets ++
      [.programmed (address + (packets.flatMap chunkOf).length) (chunkOf packet)] := by
  induction packets generalizing address with
  | nil => rfl
  | cons p packets ih => simp [writesFrom, ih, Nat.add_assoc]

theorem chunkLength_le (packet : CommsPacket) : chunkLength packet ≤ 16 := by
  rw [chunkLength, BitVec.toNat_and]
  exact Nat.succ_le_succ Nat.and_le_right

@[simp] theorem chunkOf_length (packet : CommsPacket) :
    (chunkOf packet).length = chunkLength packet := by
  have := chunkLength_le packet
  simp [chunkOf, this]

/-- Nothing has been erased or programmed. -/
structure Untouched (flash0 : Flash) (v : Session) : Prop where
  ops : v.trace.flashOps = []
  accepted : v.trace.accepted = []
  flash : v.flash = flash0
  count : v.bytesWritten = 0

/-- The application area has been erased, then programmed with the accepted
bytes one after the other. -/
structure Updating (flash0 : Flash) (v : Session) : Prop where
  authorized : Authorized v.firmwareLength v.trace
  ops : v.trace.flashOps = .erased :: writesFrom mainAppStartAddress v.trace.accepted
  count : v.bytesWritten = v.trace.payload.length
  bound : v.bytesWritten ≤ maxFwLength + 15
  content : ∀ a, v.flash a =
    if mainAppStartAddress ≤ a ∧ a < flashBase + flashSize then
      v.trace.payload.getD (a - mainAppStartAddress) 0xff
    else flash0 a

theorem Updating.length_le {flash0 : Flash} {v : Session} (h : Updating flash0 v) :
    v.firmwareLength ≤ maxFwLength := h.authorized.length_le

/-- Taking packets and sending do not start an update. -/
theorem Untouched.quiet {flash0 : Flash} {v v' : Session} (h : Untouched flash0 v) {obs : Trace}
    (trace : v'.trace = v.trace ++ obs) (ops : obs.flashOps = []) (accepted : obs.accepted = [])
    (flash : v'.flash = v.flash) (count : v'.bytesWritten = v.bytesWritten) :
    Untouched flash0 v' := by
  refine ⟨?_, ?_, flash.trans h.flash, count.trans h.count⟩
  · rw [trace, Trace.flashOps_append, h.ops, ops]
    rfl
  · rw [trace, Trace.accepted_append, h.accepted, accepted]
    rfl

/-- Taking packets and sending do not disturb an update. -/
theorem Updating.quiet {flash0 : Flash} {v v' : Session} (h : Updating flash0 v) {obs : Trace}
    (trace : v'.trace = v.trace ++ obs) (ops : obs.flashOps = []) (accepted : obs.accepted = [])
    (flash : v'.flash = v.flash) (count : v'.bytesWritten = v.bytesWritten)
    (length : v'.firmwareLength = v.firmwareLength) : Updating flash0 v' := by
  have same_accepted : v'.trace.accepted = v.trace.accepted := by
    rw [trace, Trace.accepted_append, accepted, List.append_nil]
  have same_payload : v'.trace.payload = v.trace.payload := by
    rw [Trace.payload, same_accepted, Trace.payload]
  refine ⟨?_, ?_, ?_, ?_, ?_⟩
  · rw [length, trace]
    exact h.authorized.append obs
  · rw [same_accepted, trace, Trace.flashOps_append, ops, List.append_nil]
    exact h.ops
  · rw [count, same_payload]
    exact h.count
  · rw [count]
    exact h.bound
  · rw [flash, same_payload]
    exact h.content

/-- The erase starts an update. -/
theorem Untouched.erases {flash0 : Flash} {v : Session} (drv : FlashDriver)
    (h : Untouched flash0 v) (authorized : Authorized v.firmwareLength v.trace) :
    Updating flash0 (v.erases drv) := by
  have accepted : (v.erases drv).trace.accepted = [] := by
    rw [Session.erases, Trace.accepted_append, h.accepted]
    rfl
  have payload : (v.erases drv).trace.payload = [] := by rw [Trace.payload, accepted]; rfl
  refine ⟨authorized.append _, ?_, ?_, ?_, ?_⟩
  · rw [accepted, Session.erases, Trace.flashOps_append, h.ops]
    rfl
  · rw [payload]
    exact h.count
  · show v.bytesWritten ≤ _
    rw [h.count]
    exact Nat.zero_le _
  · intro a
    rw [payload]
    show blFlashEraseMainApplication drv v.flash a = _
    rw [blFlashEraseMainApplication_spec, h.flash]
    simp

/-- Programming a chunk behind what is there continues it. -/
theorem Updating.writes {flash0 : Flash} {v : Session} (drv : FlashDriver)
    (h : Updating flash0 v) (packet : CommsPacket) (room : v.bytesWritten < maxFwLength) :
    Updating flash0 (v.writes drv packet) := by
  have size := chunkLength_le packet
  have top : flashBase + flashSize = mainAppStartAddress + 0x78000 := rfl
  have most : maxFwLength = 0x38000 := rfl
  have start : mainAppStartAddress = 0x08008000 := rfl
  have address : v.writeAddress = mainAppStartAddress + v.bytesWritten :=
    Nat.mod_eq_of_lt (by omega)
  have accepted : (v.writes drv packet).trace.accepted = v.trace.accepted ++ [packet] := by
    rw [Session.writes, Trace.accepted_append]
    rfl
  have payload : (v.writes drv packet).trace.payload = v.trace.payload ++ chunkOf packet := by
    rw [Trace.payload, accepted, List.flatMap_append, List.flatMap_singleton, Trace.payload]
  have count : (v.writes drv packet).bytesWritten = v.bytesWritten + chunkLength packet :=
    Nat.mod_eq_of_lt (by omega)
  refine ⟨h.authorized.append _, ?_, ?_, ?_, ?_⟩
  · rw [accepted, writesFrom_concat, ← Trace.payload, ← h.count, ← address, ← List.cons_append,
      ← h.ops, Session.writes, Trace.flashOps_append]
    rfl
  · rw [count, payload, List.length_append, ← h.count, chunkOf_length]
  · rw [count]
    omega
  · intro a
    rw [payload]
    show blFlashWrite drv v.writeAddress (chunkOf packet) v.flash a = _
    rw [blFlashWrite_spec, address, chunkOf_length, h.content a, List.getD_eq_getElem?_getD,
      List.getD_eq_getElem?_getD, List.getD_eq_getElem?_getD]
    have length := h.count
    by_cases inside : mainAppStartAddress + v.bytesWritten ≤ a ∧
        a < mainAppStartAddress + v.bytesWritten + chunkLength packet
    · -- the byte was erased and not yet written
      rw [if_pos inside, if_pos (by omega), if_pos (by omega),
        List.getElem?_append_right (by omega), List.getElem?_eq_none (by omega)]
      rw [show a - (mainAppStartAddress + v.bytesWritten) =
        a - mainAppStartAddress - v.trace.payload.length by omega]
      rw [List.getElem?_eq_getElem (by rw [chunkOf_length]; omega)]
      exact BitVec.allOnes_and
    · rw [if_neg inside]
      by_cases area : mainAppStartAddress ≤ a ∧ a < flashBase + flashSize
      · rw [if_pos area, if_pos area]
        by_cases before : a - mainAppStartAddress < v.trace.payload.length
        · rw [List.getElem?_append_left before]
        · rw [List.getElem?_eq_none (by omega),
            List.getElem?_eq_none (by rw [List.length_append, chunkOf_length]; omega)]
      · rw [if_neg area, if_neg area]

/-! ## The invariant -/

/-- How far the handshake is, by state. -/
def Progress (v : Session) : Prop :=
  match v.bootloaderState with
  | .sync | .waitForFwUpdateReq => v.trace.taken = []
  | .deviceIdReq | .deviceIdRes => ∃ request, v.trace.taken = [request] ∧ IsFwUpdateReq request
  | .fwLengthReq | .fwLengthRes => ∃ request device, v.trace.taken = [request, device] ∧
      IsFwUpdateReq request ∧ IsDeviceIdRes device
  | .eraseApplication => Authorized v.firmwareLength v.trace
  | .receiveFw | .done => True

/-- The invariant of a session that booted with the flash content `flash0`. -/
structure SessionInv (flash0 : Flash) (v : Session) : Prop where
  flushing : v.pc = .flush → v.bootloaderState = .sync ∧ Synced v.trace
  active : v.pc = .update ∨ v.pc = .dispatch →
    v.bootloaderState ≠ .sync ∧ v.bootloaderState ≠ .done
  reading : v.bootloaderState = .sync → v.pc ≠ .flush →
    ∃ bytes, v.trace = bytes.map Obs.syncByte ∧ v.syncSeq = windowOf bytes
  synced : v.bootloaderState ≠ .sync → v.bootloaderState ≠ .done → Synced v.trace
  progress : Progress v
  untouched : v.bootloaderState ≠ .receiveFw → v.bootloaderState ≠ .done → Untouched flash0 v
  updating : v.bootloaderState = .receiveFw → Updating flash0 v ∧
    (v.pc ≠ .gone → v.bytesWritten < maxFwLength)
  ended : v.bootloaderState = .done → Untouched flash0 v ∨ Updating flash0 v

/-- In the SYNC state the invariant says that nothing but sync bytes was read. -/
theorem SessionInv.inSync {flash0 : Flash} {v : Session} (bytes : List Byte)
    (state : v.bootloaderState = .sync) (trace : v.trace = bytes.map Obs.syncByte)
    (seq : v.syncSeq = windowOf bytes) (untouched : Untouched flash0 v)
    (inactive : v.pc ≠ .update ∧ v.pc ≠ .dispatch) (flush : v.pc = .flush → Synced v.trace) :
    SessionInv flash0 v where
  flushing hpc := ⟨state, flush hpc⟩
  active hpc := by
    rcases hpc with hpc | hpc
    · exact absurd hpc inactive.1
    · exact absurd hpc inactive.2
  reading _ _ := ⟨bytes, trace, seq⟩
  synced hn := absurd state hn
  progress := by
    unfold Progress
    rw [state, trace]
    exact taken_map_syncByte bytes
  untouched _ _ := untouched
  updating hrec := absurd (state.symm.trans hrec) (by decide)
  ended hdone := absurd (state.symm.trans hdone) (by decide)

theorem SessionInv.init (flash0 : Flash) : SessionInv flash0 (bootInit flash0).session :=
  .inSync [] rfl rfl rfl ⟨rfl, rfl, rfl, rfl⟩ ⟨nofun, nofun⟩ nofun

/-! ## Kinds of steps -/

section Kinds

variable {flash0 : Flash} {v v' : Session} {obs : Trace}

/-- A step that stays in its state and takes no packet. -/
theorem SessionInv.stays (h : SessionInv flash0 v) (trace : v'.trace = v.trace ++ obs)
    (taken : obs.taken = []) (ops : obs.flashOps = []) (accepted : obs.accepted = [])
    (state : v'.bootloaderState = v.bootloaderState) (seq : v'.syncSeq = v.syncSeq)
    (flash : v'.flash = v.flash) (count : v'.bytesWritten = v.bytesWritten)
    (length : v'.firmwareLength = v.firmwareLength) (live : v.pc ≠ .gone)
    (flush : v'.pc = .flush ↔ v.pc = .flush) (silent : v.pc ≠ .flush →
      v.bootloaderState = .sync → obs = [])
    (active : v'.pc = .update ∨ v'.pc = .dispatch →
      v.bootloaderState ≠ .sync ∧ v.bootloaderState ≠ .done) : SessionInv flash0 v' := by
  have same_taken : v'.trace.taken = v.trace.taken := by
    rw [trace, Trace.taken_append, taken, List.append_nil]
  refine ⟨?_, ?_, ?_, ?_, ?_, ?_, ?_, ?_⟩
  · intro hpc
    obtain ⟨hsync, hsynced⟩ := h.flushing (flush.mp hpc)
    exact ⟨state.trans hsync, trace ▸ hsynced.append obs⟩
  · rw [state]
    exact active
  · intro hsync hpc
    have hpc' : v.pc ≠ .flush := fun hv => hpc (flush.mpr hv)
    obtain ⟨bytes, hbytes, hseq⟩ := h.reading (state ▸ hsync) hpc'
    refine ⟨bytes, ?_, seq.trans hseq⟩
    rw [trace, silent hpc' (state ▸ hsync), List.append_nil, hbytes]
  · rw [state]
    intro h1 h2
    exact trace ▸ (h.synced h1 h2).append obs
  · have before := h.progress
    unfold Progress at before ⊢
    rw [state, same_taken, length]
    cases hstate : v.bootloaderState <;> rw [hstate] at before <;> try exact before
    rw [trace]
    exact Authorized.append before obs
  · rw [state]
    intro h1 h2
    exact (h.untouched h1 h2).quiet trace ops accepted flash count
  · rw [state, count]
    intro hrec
    exact ⟨(h.updating hrec).1.quiet trace ops accepted flash count length,
      fun _ => (h.updating hrec).2 live⟩
  · rw [state]
    intro hdone
    rcases h.ended hdone with old | old
    · exact .inl (old.quiet trace ops accepted flash count)
    · exact .inr (old.quiet trace ops accepted flash count length)

/-- Between two turns of the loop, and after the last one, nothing is under way. -/
theorem pc_outside {p q : Pc} (outside : p = .loop ∨ p = .gone) (inside : q ≠ .loop ∧ q ≠ .gone) :
    p ≠ q := by
  rintro rfl
  rcases outside with loop | gone
  · exact inside.1 loop
  · exact inside.2 gone

/-- A step that ends the session without touching the flash. -/
theorem SessionInv.ends (h : SessionInv flash0 v) (trace : v'.trace = v.trace ++ obs)
    (ops : obs.flashOps = []) (accepted : obs.accepted = []) (state : v'.bootloaderState = .done)
    (flash : v'.flash = v.flash) (count : v'.bytesWritten = v.bytesWritten)
    (length : v'.firmwareLength = v.firmwareLength ∨ v.bootloaderState = .fwLengthRes)
    (pc : v'.pc = .loop ∨ v'.pc = .gone) : SessionInv flash0 v' := by
  have untouched : v.bootloaderState ≠ .receiveFw → v.bootloaderState ≠ .done →
      Untouched flash0 v' := fun h1 h2 => (h.untouched h1 h2).quiet trace ops accepted flash count
  refine ⟨?_, ?_, ?_, ?_, ?_, ?_, ?_, ?_⟩
  · intro hpc
    exact absurd hpc (pc_outside pc (by decide))
  · rintro (hpc | hpc)
    · exact absurd hpc (pc_outside pc (by decide))
    · exact absurd hpc (pc_outside pc (by decide))
  · intro hsync
    exact absurd (state.symm.trans hsync) (by decide)
  · intro _ hdone
    exact absurd state hdone
  · unfold Progress
    rw [state]
    trivial
  · intro _ hdone
    exact absurd state hdone
  · intro hrec
    exact absurd (state.symm.trans hrec) (by decide)
  · intro _
    by_cases hrec : v.bootloaderState = .receiveFw
    · have keep : v'.firmwareLength = v.firmwareLength :=
        length.resolve_right (by rw [hrec]; decide)
      exact .inr ((h.updating hrec).1.quiet trace ops accepted flash count keep)
    · by_cases hdone : v.bootloaderState = .done
      · have keep : v'.firmwareLength = v.firmwareLength :=
          length.resolve_right (by rw [hdone]; decide)
        rcases h.ended hdone with old | old
        · exact .inl (old.quiet trace ops accepted flash count)
        · exact .inr (old.quiet trace ops accepted flash count keep)
      · exact .inl (untouched hrec hdone)

/-- A step of the handshake from one state to the next. -/
theorem SessionInv.advances (untouched : Untouched flash0 v) (synced : Synced v.trace)
    (trace : v'.trace = v.trace ++ obs) (ops : obs.flashOps = []) (accepted : obs.accepted = [])
    (state : v'.bootloaderState ≠ .sync ∧ v'.bootloaderState ≠ .receiveFw ∧
      v'.bootloaderState ≠ .done) (flash : v'.flash = v.flash)
    (count : v'.bytesWritten = v.bytesWritten) (pc : v'.pc = .loop) (progress : Progress v') :
    SessionInv flash0 v' where
  flushing hpc := absurd (pc.symm.trans hpc) (by decide)
  active _ := ⟨state.1, state.2.2⟩
  reading hsync := absurd hsync state.1
  synced _ _ := trace ▸ synced.append obs
  progress := progress
  untouched _ _ := untouched.quiet trace ops accepted flash count
  updating hrec := absurd hrec state.2.1
  ended hdone := absurd hdone state.2.2

/-- A step of the handshake that starts in it. -/
theorem SessionInv.moves (h : SessionInv flash0 v)
    (here : v.bootloaderState ≠ .sync ∧ v.bootloaderState ≠ .receiveFw ∧
      v.bootloaderState ≠ .done)
    (trace : v'.trace = v.trace ++ obs) (ops : obs.flashOps = []) (accepted : obs.accepted = [])
    (there : v'.bootloaderState ≠ .sync ∧ v'.bootloaderState ≠ .receiveFw ∧
      v'.bootloaderState ≠ .done) (flash : v'.flash = v.flash)
    (count : v'.bytesWritten = v.bytesWritten) (pc : v'.pc = .loop) (progress : Progress v') :
    SessionInv flash0 v' :=
  .advances (h.untouched here.2.1 here.2.2) (h.synced here.1 here.2.2) trace ops accepted there
    flash count pc progress

/-- A step into, or inside, RECEIVE_FW. -/
theorem SessionInv.receives (updating : Updating flash0 v) (synced : Synced v.trace)
    (state : v.bootloaderState = .receiveFw) (pc : v.pc = .loop ∨ v.pc = .gone)
    (room : v.pc ≠ .gone → v.bytesWritten < maxFwLength) : SessionInv flash0 v := by
  refine ⟨?_, ?_, ?_, ?_, ?_, ?_, ?_, ?_⟩
  · intro hpc
    exact absurd hpc (pc_outside pc (by decide))
  · rw [state]
    intro _
    decide
  · intro hsync
    exact absurd (state.symm.trans hsync) (by decide)
  · intro _ _
    exact synced
  · unfold Progress
    rw [state]
    trivial
  · intro hn
    exact absurd state hn
  · intro _
    exact ⟨updating, room⟩
  · intro hdone
    exact absurd (state.symm.trans hdone) (by decide)

/-- The step that completes an update. -/
theorem SessionInv.finishes (updating : Updating flash0 v) (state : v.bootloaderState = .done)
    (pc : v.pc = .loop) : SessionInv flash0 v where
  flushing hpc := absurd (pc.symm.trans hpc) (by decide)
  active hpc := by
    rw [pc] at hpc
    rcases hpc with hpc | hpc <;> cases hpc
  reading hsync := absurd (state.symm.trans hsync) (by decide)
  synced _ hdone := absurd state hdone
  progress := by
    unfold Progress
    rw [state]
    trivial
  untouched _ hdone := absurd state hdone
  updating hrec := absurd (state.symm.trans hrec) (by decide)
  ended _ := .inr updating

end Kinds

/-! ## Every step keeps the invariant -/

/-- The packets taken so far give the authorization, once they start with the
three answers. -/
theorem authorized_of_taken {t : Trace} {length : Nat} {request device announced : CommsPacket}
    (synced : Synced t) (taken : t.taken = [request, device, announced])
    (h1 : IsFwUpdateReq request) (h2 : IsDeviceIdRes device) (h3 : IsFwLengthRes announced length)
    (fits : length ≤ maxFwLength) : Authorized length t := by
  obtain ⟨front, rest, rfl⟩ := synced
  rw [Trace.taken_append, taken_map_syncByte, List.nil_append] at taken
  exact ⟨front, rest, request, device, announced, [], rfl, taken, h1, h2, h3, fits⟩

section Steps

variable {flash0 : Flash} {drv : FlashDriver} {validate : Flash → Option Bool} {v v' : Session}

theorem takes_trace (available : commsPacketAvailable v.comms = true) :
    (v.atPc .loop).takes.trace = v.trace ++ [.taken v.nextPacket] :=
  congrArg (v.trace ++ ·) (commsReceivePacket_trace available)

theorem takes_send_trace (available : commsPacketAvailable v.comms = true) (byte : Byte) :
    ((v.atPc .loop).takes.sendSingleByte byte).trace =
      v.trace ++ [.taken v.nextPacket, .sent (commsCreateSingleBytePacket byte)] := by
  show (v.atPc .loop).takes.trace ++ [.sent _] = _
  rw [takes_trace available, List.append_assoc]
  rfl

theorem takes_taken (available : commsPacketAvailable v.comms = true) :
    (v.atPc .loop).takes.trace.taken = v.trace.taken ++ [v.nextPacket] := by
  rw [takes_trace available, Trace.taken_append]
  rfl

/-- A byte is read in the SYNC state. -/
theorem SessionInv.syncReads (h : SessionInv flash0 v) (pc : v.pc = .loop)
    (sync : v.bootloaderState = .sync) (byte : Byte) :
    ∃ bytes, (v.reads byte).trace = bytes.map Obs.syncByte ∧ v.shifted byte = windowOf bytes ∧
      Untouched flash0 (v.reads byte) := by
  obtain ⟨bytes, trace, seq⟩ := h.reading sync (by rw [pc]; decide)
  have before : Untouched flash0 v :=
    h.untouched (by rw [sync]; decide) (by rw [sync]; decide)
  refine ⟨bytes ++ [byte], ?_, ?_, before.quiet rfl rfl rfl rfl rfl⟩
  · rw [List.map_append, ← trace]
    rfl
  · rw [windowOf_concat, ← seq]
    rfl

theorem SessionInv.syncByte (h : SessionInv flash0 v) (pc : v.pc = .loop)
    (sync : v.bootloaderState = .sync) (byte : Byte) : SessionInv flash0 (v.reads byte) := by
  obtain ⟨bytes, trace, seq, untouched⟩ := h.syncReads pc sync byte
  have pc' : (v.reads byte).pc = .loop := pc
  refine .inSync bytes sync trace seq untouched ?_ ?_
  · rw [pc']
    decide
  · intro flush
    exact absurd (pc'.symm.trans flush) (by decide)

/-- The sync sequence is complete. -/
theorem SessionInv.syncMatch (h : SessionInv flash0 v) (pc : v.pc = .loop)
    (sync : v.bootloaderState = .sync) (byte : Byte) (found : v.shifted byte = syncSequence) :
    SessionInv flash0 ((v.reads byte).atPc .flush) := by
  obtain ⟨bytes, trace, seq, untouched⟩ := h.syncReads pc sync byte
  obtain ⟨front, split⟩ := windowOf_eq_syncSequence (seq.symm.trans found)
  refine .inSync bytes sync trace seq (untouched.quiet (List.append_nil _).symm rfl rfl rfl rfl)
    ⟨nofun, nofun⟩ ?_
  intro _
  refine ⟨front, [], ?_⟩
  rw [List.append_nil, ← split]
  exact trace

/-- The flush is over: nothing was taken from the queue yet. -/
theorem SessionInv.flushed (h : SessionInv flash0 v) (pc : v.pc = .flush) :
    SessionInv flash0 (((v.sendSingleByte blPacketSyncObservedData0).withState
      .waitForFwUpdateReq).atPc .loop) := by
  obtain ⟨sync, synced⟩ := h.flushing pc
  have before := h.progress
  simp only [Progress, sync] at before
  refine .advances (h.untouched (by simp [sync]) (by simp [sync])) synced rfl rfl rfl
    (by simp [Session.withState, Session.atPc]) rfl rfl rfl ?_
  show Trace.taken (v.trace ++ [_]) = []
  rw [Trace.taken_append, before]
  rfl

theorem SessionInv.commsByte (h : SessionInv flash0 v) (pc : v.pc = .update) (byte : Byte) :
    SessionInv flash0
      ((v.shows [.commsByte byte]).afterComms (commsUpdateByte v.comms byte)) := by
  obtain ⟨taken, ops, accepted⟩ := commsUpdateByte_quiet v.comms byte
  have trace : ((v.shows [.commsByte byte]).afterComms (commsUpdateByte v.comms byte)).trace =
      v.trace ++ ([.commsByte byte] ++ (commsUpdateByte v.comms byte).2) :=
    List.append_assoc ..
  have active := h.active (.inl pc)
  refine h.stays trace ?_ ?_ ?_ rfl rfl rfl rfl rfl (by simp [pc]) Iff.rfl ?_ (fun _ => active)
  · rw [Trace.taken_append, taken]
    rfl
  · rw [Trace.flashOps_append, ops]
    rfl
  · rw [Trace.accepted_append, accepted]
    rfl
  · intro _ sync
    exact absurd sync active.1

/-! ### The handshake, packet by packet -/

section Handshake

variable (h : SessionInv flash0 v)
include h

theorem SessionInv.fwUpdateReq (state : v.bootloaderState = .waitForFwUpdateReq)
    (available : commsPacketAvailable v.comms = true)
    (request : commsIsSingleBytePacket v.nextPacket blPacketFwUpdateReqData0 = true) :
    SessionInv flash0 (((v.atPc .loop).takes.sendSingleByte
      blPacketFwUpdateResData0).withState .deviceIdReq) := by
  have before := h.progress
  simp only [Progress, state] at before
  refine h.moves (by simp [state]) (takes_send_trace available blPacketFwUpdateResData0) rfl rfl
    (by simp [Session.withState]) rfl rfl rfl ⟨v.nextPacket, ?_, ?_⟩
  · show Trace.taken ((v.atPc .loop).takes.sendSingleByte _).trace = _
    rw [takes_send_trace available, Trace.taken_append, before]
    rfl
  · exact commsIsSingleBytePacket_canonical request

theorem SessionInv.deviceIdReq (state : v.bootloaderState = .deviceIdReq) :
    SessionInv flash0
      (((v.atPc .loop).sendSingleByte blPacketDeviceIdReqData0).withState .deviceIdRes) := by
  have before := h.progress
  simp only [Progress, state] at before
  obtain ⟨request, taken, isRequest⟩ := before
  refine h.moves (by simp [state]) rfl rfl rfl (by simp [Session.withState]) rfl rfl rfl
    ⟨request, ?_, isRequest⟩
  show Trace.taken (v.trace ++ [_]) = _
  rw [Trace.taken_append, taken]
  rfl

theorem SessionInv.deviceIdRes (state : v.bootloaderState = .deviceIdRes)
    (available : commsPacketAvailable v.comms = true)
    (shape : isDeviceIdPacket v.nextPacket = true)
    (device : (v.nextPacket.dataAt 1).toNat = deviceId) :
    SessionInv flash0 ((v.atPc .loop).takes.withState .fwLengthReq) := by
  have before := h.progress
  simp only [Progress, state] at before
  obtain ⟨request, taken, isRequest⟩ := before
  refine h.moves (by simp [state]) (takes_trace available) rfl rfl (by simp [Session.withState])
    rfl rfl rfl ⟨request, v.nextPacket, ?_, isRequest, ?_⟩
  · show (v.atPc .loop).takes.trace.taken = _
    rw [takes_taken available, taken]
    rfl
  · exact isDeviceIdPacket_canonical shape device

theorem SessionInv.fwLengthReq (state : v.bootloaderState = .fwLengthReq) :
    SessionInv flash0
      (((v.atPc .loop).sendSingleByte blPacketFwLengthReqData0).withState .fwLengthRes) := by
  have before := h.progress
  simp only [Progress, state] at before
  obtain ⟨request, device, taken, answers⟩ := before
  refine h.moves (by simp [state]) rfl rfl rfl (by simp [Session.withState]) rfl rfl rfl
    ⟨request, device, ?_, answers⟩
  show Trace.taken (v.trace ++ [_]) = _
  rw [Trace.taken_append, taken]
  rfl

/-- The third answer: the packets taken so far authorize the update. -/
theorem SessionInv.fwLengthRes (state : v.bootloaderState = .fwLengthRes)
    (available : commsPacketAvailable v.comms = true)
    (shape : isFwLengthPacket v.nextPacket = true)
    (fits : announcedLength v.nextPacket ≤ maxFwLength) :
    SessionInv flash0 ({ (v.atPc .loop).takes with
      firmwareLength := announcedLength v.nextPacket }.withState .eraseApplication) := by
  have before := h.progress
  simp only [Progress, state] at before
  obtain ⟨request, device, taken, isRequest, isDevice⟩ := before
  refine h.moves (by simp [state]) (takes_trace available) rfl rfl (by simp [Session.withState])
    rfl rfl rfl ?_
  show Authorized (announcedLength v.nextPacket) (v.atPc .loop).takes.trace
  refine authorized_of_taken ?_ ?_ isRequest isDevice (isFwLengthRes_of_check shape) fits
  · rw [takes_trace available]
    exact (h.synced (by simp [state]) (by simp [state])).append _
  · rw [takes_taken available, taken]
    rfl

end Handshake

/-! ### The update -/

section Update

variable (h : SessionInv flash0 v)
include h

theorem SessionInv.erase (drv : FlashDriver) (state : v.bootloaderState = .eraseApplication) :
    SessionInv flash0 ((((v.atPc .loop).erases drv).sendSingleByte
      blPacketReadyForDataData0).withState .receiveFw) := by
  have authorized := h.progress
  simp only [Progress, state] at authorized
  have untouched := h.untouched (by simp [state]) (by simp [state])
  have started : Updating flash0 (v.erases drv) := untouched.erases drv authorized
  refine .receives (started.quiet rfl rfl rfl rfl rfl rfl) ?_ rfl (.inl rfl) ?_
  · exact ((h.synced (by simp [state]) (by simp [state])).append _).append _
  · intro _
    show v.bytesWritten < maxFwLength
    rw [untouched.count]
    decide

/-- The write of the packet taken. There is room for it, since the packets before it
did not complete the image. -/
theorem SessionInv.writes (drv : FlashDriver) (live : v.pc = .dispatch)
    (state : v.bootloaderState = .receiveFw) (available : commsPacketAvailable v.comms = true) :
    Updating flash0 ((v.atPc .loop).takes.writes drv v.nextPacket) ∧
      Synced ((v.atPc .loop).takes.writes drv v.nextPacket).trace := by
  obtain ⟨updating, room⟩ := h.updating state
  have taken : Updating flash0 (v.atPc .loop).takes :=
    updating.quiet (takes_trace available) rfl rfl rfl rfl rfl
  have synced := h.synced (by simp [state]) (by simp [state])
  exact ⟨taken.writes drv v.nextPacket (room (by rw [live]; decide)),
    (synced.append _).append _⟩

theorem SessionInv.chunk (live : v.pc = .dispatch) (state : v.bootloaderState = .receiveFw)
    (available : commsPacketAvailable v.comms = true)
    (more : ((v.atPc .loop).takes.writes drv v.nextPacket).bytesWritten < v.firmwareLength) :
    SessionInv flash0
      (((v.atPc .loop).takes.writes drv v.nextPacket).sendSingleByte
        blPacketReadyForDataData0) := by
  obtain ⟨written, synced⟩ := h.writes drv live state available
  refine .receives (written.quiet rfl rfl rfl rfl rfl rfl) (synced.append _) state (.inl rfl) ?_
  intro _
  exact Nat.lt_of_lt_of_le more written.length_le

end Update

theorem SessionInv.step (h : SessionInv flash0 v) (step : SessionStep drv validate v v') :
    SessionInv flash0 v' := by
  cases step with
  | start hpc =>
    exact h.stays (List.append_nil _).symm rfl rfl rfl rfl rfl rfl rfl rfl (by simp [hpc])
      (by simp [hpc, Session.atPc]) (fun _ _ => rfl) (by simp [Session.atPc])
  | enter hpc active =>
    exact h.stays (List.append_nil _).symm rfl rfl rfl rfl rfl rfl rfl rfl (by simp [hpc])
      (by simp [hpc, Session.atPc]) (fun _ _ => rfl) (fun _ => active)
  | drained hpc =>
    exact h.stays (List.append_nil _).symm rfl rfl rfl rfl rfl rfl rfl rfl (by simp [hpc])
      (by simp [hpc, Session.atPc]) (fun _ _ => rfl) (fun _ => h.active (.inl hpc))
  | idle hpc waiting empty =>
    exact h.stays (List.append_nil _).symm rfl rfl rfl rfl rfl rfl rfl rfl (by simp [hpc])
      (by simp [hpc, Session.atPc]) (fun _ _ => rfl) (by simp [Session.atPc])
  | timeout hpc waiting empty => exact h.ends rfl rfl rfl rfl rfl rfl (.inl rfl) (.inl rfl)
  | syncIdle hpc sync => exact h
  | syncTimeout hpc sync => exact h.ends rfl rfl rfl rfl rfl rfl (.inl rfl) (.inl hpc)
  | syncByte byte hpc sync other => exact h.syncByte hpc sync byte
  | syncByteTimeout byte hpc sync other =>
    exact h.ends (List.append_assoc ..) rfl rfl rfl rfl rfl (.inl rfl) (.inl hpc)
  | syncMatch byte hpc sync found => exact h.syncMatch hpc sync byte found
  | flushByte byte hpc =>
    exact h.stays rfl rfl rfl rfl rfl rfl rfl rfl rfl (by simp [hpc]) Iff.rfl
      (fun hn _ => absurd hpc hn) (by simp [Session.shows, hpc])
  | flushed hpc => exact h.flushed hpc
  | commsByte byte hpc => exact h.commsByte hpc byte
  | refused length hpc waiting available wrong announced =>
    exact h.ends (takes_send_trace available blPacketNackData0) rfl rfl rfl rfl rfl announced
      (.inl rfl)
  | fwUpdateReq hpc state available request => exact h.fwUpdateReq state available request
  | deviceIdReq hpc state => exact h.deviceIdReq state
  | deviceIdRes hpc state available shape device =>
    exact h.deviceIdRes state available shape device
  | fwLengthReq hpc state => exact h.fwLengthReq state
  | fwLengthRes hpc state available shape fits => exact h.fwLengthRes state available shape fits
  | erase hpc state => exact h.erase drv state
  | chunk hpc state available ok more => exact h.chunk hpc state available more
  | lastChunk accepted hpc state available ok complete verdict =>
    obtain ⟨written, -⟩ := h.writes drv hpc state available
    exact SessionInv.finishes (written.quiet rfl rfl rfl rfl rfl rfl) rfl rfl
  | lastChunkFault hpc state available ok complete fault =>
    obtain ⟨written, synced⟩ := h.writes drv hpc state available
    exact .receives (written.quiet rfl rfl rfl rfl rfl rfl) (synced.append _) state (.inr rfl)
      fun live => absurd rfl live
  | unexpected hpc outside =>
    -- the main loop never gets to the `switch` in SYNC or DONE
    have active := h.active (.inr hpc)
    rcases outside with sync | done
    · exact absurd sync active.1
    · exact absurd done active.2
  | left obs hpc ended way =>
    rcases way with ⟨rfl, -⟩ | ⟨rfl, -⟩ | ⟨rfl, -⟩
    · exact h.ends rfl rfl rfl ended rfl rfl (.inl rfl) (.inr rfl)
    · exact h.ends rfl rfl rfl ended rfl rfl (.inl rfl) (.inr rfl)
    · exact h.ends rfl rfl rfl ended rfl rfl (.inl rfl) (.inr rfl)

end Steps

/-! ## Runs -/

/-- The state after the events `es` of a bootloader that booted with `flash0`. -/
def bootRun (drv : FlashDriver) (validate : Flash → Option Bool) (flash0 : Flash)
    (es : List BootEvent) : Boot :=
  Lib.Run.run (bootStep drv validate) (bootInit flash0) es

section Runs

variable (drv : FlashDriver) (validate : Flash → Option Bool) (flash0 : Flash)
  (es : List BootEvent)

theorem bootRun_concat (e : BootEvent) :
    bootRun drv validate flash0 (es ++ [e]) =
      bootStep drv validate (bootRun drv validate flash0 es) e :=
  Lib.Run.run_concat ..

/-- What holds at boot and is kept by every session step holds in every run. -/
theorem bootRun_invariant {P : Session → Prop} (init : P (bootInit flash0).session)
    (keep : ∀ v v', P v → SessionStep drv validate v v' → P v') :
    P (bootRun drv validate flash0 es).session := by
  refine Lib.Run.run_invariant (P := fun s : Boot => P s.session) (?_) init es
  intro s e h
  rcases bootStep_session drv validate s e with same | ⟨-, step⟩
  · exact same ▸ h
  · exact keep _ _ h step

theorem bootRun_sessionInv : SessionInv flash0 (bootRun drv validate flash0 es).session :=
  bootRun_invariant drv validate flash0 es (SessionInv.init flash0) fun _ _ h step => h.step step

end Runs

end SecureBootloader
