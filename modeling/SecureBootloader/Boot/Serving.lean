import SecureBootloader.Boot.Device
import SecureBootloader.Boot.Server

/-!
# The bootloader serves

The bootloader is the server with a delay: between two inputs it has words still to say and
an erase still to make. Each step of the main program is the server's on some inputs, most
of them on none.
-/

namespace SecureBootloader

/-! ## What the bootloader still owes -/

/-- The words that belong to the input before and have not been said yet. -/
def Session.owes (v : Session) : List Byte :=
  match v.bootloaderState with
  | .sync => if v.pc = .flush then [blPacketSyncObservedData0] else []
  | .deviceIdReq => [blPacketDeviceIdReqData0]
  | .fwLengthReq => [blPacketFwLengthReqData0]
  | .eraseApplication => [blPacketReadyForDataData0]
  | _ => []

theorem owes_length (v : Session) : v.owes.length ≤ 1 := by
  unfold Session.owes
  split
  · split <;> decide
  all_goals decide

/-- What the main program sends in a step. What is sent in `comms_update` belongs to the link. -/
def Session.wordsTo (v v' : Session) : List CommsPacket :=
  if v.pc = .update then [] else v'.trace.sent.drop v.trace.sent.length

theorem wordsTo_eq {v v' : Session} {obs : Trace} (main : v.pc ≠ .update)
    (trace : v'.trace = v.trace ++ obs) : v.wordsTo v' = obs.sent := by
  rw [Session.wordsTo, if_neg main, trace, Trace.sent_append, List.drop_left]

/-- The stage of a state, once `announced` is known. -/
def BlState.stage (state : BlState) (announced : Nat) : Stage :=
  match state with
  | .sync => .listening
  | .waitForFwUpdateReq => .request
  | .deviceIdReq | .deviceIdRes => .device
  | .fwLengthReq | .fwLengthRes => .length
  | .eraseApplication | .receiveFw => .data announced
  | .done => .closed

/-- The session stands where the server does. Behind the sync sequence the server waits for the
request, while the bootloader throws away what it has not read. -/
def Session.StandsAt (v : Session) (stage : Stage) : Prop :=
  if v.pc = .gone then
    ∃ verdict, stage = .gone verdict ∧ v.trace.getLast? = some (.wayOut verdict)
  else stage = if v.pc = .flush then .request else v.bootloaderState.stage v.firmwareLength

theorem looping : Pc.loop ≠ .flush ∧ Pc.loop ≠ .gone := by decide

theorem standsAt_running {v : Session} {stage : Stage} (pc : v.pc ≠ .flush ∧ v.pc ≠ .gone) :
    v.StandsAt stage ↔ stage = v.bootloaderState.stage v.firmwareLength := by
  rw [Session.StandsAt, if_neg pc.2, if_neg pc.1]

/-- The bytes read in the SYNC state. -/
def Trace.heard (t : Trace) : List Byte :=
  t.filterMap fun
    | .syncByte byte => some byte
    | _ => none

theorem Trace.heard_append (t more : Trace) : Trace.heard (t ++ more) = t.heard ++ more.heard :=
  List.filterMap_append

theorem Trace.heard_syncBytes (bytes : List Byte) :
    Trace.heard (bytes.map Obs.syncByte) = bytes := by
  rw [Trace.heard, List.filterMap_map]
  exact List.filterMap_some

/-- The session is the server up to what it owes: it stands where the server stands, has heard
and stored the same, has said `words` and owes the rest, and unless the erase is still to come
its flash is that of the server. -/
structure Matches (flash0 : Flash) (v : Session) (words : List CommsPacket) (s : Server) :
    Prop where
  stands : v.StandsAt s.stage
  heard : s.heard = v.trace.heard
  chunks : s.stored = v.trace.accepted.map chunkOf
  erasing : v.bootloaderState = .eraseApplication → s.chunks = some []
  flash : v.bootloaderState ≠ .eraseApplication → v.flash = s.flash flash0
  said : words ++ v.owes.map commsCreateSingleBytePacket =
    s.said.map commsCreateSingleBytePacket

theorem Matches.init (flash0 : Flash) : Matches flash0 (bootInit flash0).session [] .start where
  stands := rfl
  heard := rfl
  chunks := rfl
  erasing erase := absurd (show BlState.sync = .eraseApplication from erase) (by decide)
  flash _ := rfl
  said := rfl

section Step

variable {flash0 : Flash} {v v' : Session} {words : List CommsPacket} {s s' : Server}

theorem chunks_quiet {obs : Trace} (trace : v'.trace = v.trace ++ obs) (quiet : obs.accepted = []) :
    v'.trace.accepted.map chunkOf = v.trace.accepted.map chunkOf := by
  rw [trace, accepted_quiet quiet]

variable (h : Matches flash0 v words s)
include h

/-- Nothing of the update changes but what is said and owed. -/
theorem Matches.goesOn (obs : Trace) (trace : v'.trace = v.trace ++ obs)
    (stands : v'.StandsAt s.stage) (quiet : obs.heard = [] ∧ obs.accepted = [])
    (erasing : v'.bootloaderState = .eraseApplication → v.bootloaderState = .eraseApplication)
    (flash : v'.bootloaderState ≠ .eraseApplication → v'.flash = s.flash flash0)
    (said : v.wordsTo v' ++ v'.owes.map commsCreateSingleBytePacket =
      v.owes.map commsCreateSingleBytePacket) : Matches flash0 v' (words ++ v.wordsTo v') s := by
  refine ⟨stands, ?_, ?_, fun erase => h.erasing (erasing erase), flash, ?_⟩
  · rw [trace, Trace.heard_append, quiet.1, List.append_nil]
    exact h.heard
  · exact h.chunks.trans (chunks_quiet trace quiet.2).symm
  · rw [List.append_assoc, said]
    exact h.said

/-- A step of the loop. -/
theorem Matches.moves (pc : Pc) (here : v.pc ≠ .flush ∧ v.pc ≠ .gone)
    (there : pc ≠ .flush ∧ pc ≠ .gone) :
    Matches flash0 (v.atPc pc) (words ++ v.wordsTo (v.atPc pc)) s := by
  have owes : (v.atPc pc).owes = v.owes := by
    unfold Session.owes
    rw [if_neg here.1, if_neg (show (v.atPc pc).pc ≠ .flush from there.1)]
    rfl
  have silent : v.wordsTo (v.atPc pc) = [] := by
    rw [Session.wordsTo]
    split
    · rfl
    · exact List.drop_length
  refine h.goesOn [] (List.append_nil _).symm ?_ ⟨rfl, rfl⟩ id h.flash
    (by rw [silent, owes]; rfl)
  exact (standsAt_running there).mpr ((standsAt_running here).mp h.stands)

/-- A word that was owed is said. -/
theorem Matches.pays (obs : Trace) (main : v.pc ≠ .update) (word : Byte)
    (trace : v'.trace = v.trace ++ obs) (owes : v.owes = [word])
    (sent : obs.sent = [commsCreateSingleBytePacket word]) (paid : v'.owes = [])
    (stands : v'.StandsAt s.stage) (quiet : obs.heard = [] ∧ obs.accepted = [])
    (state : v'.bootloaderState ≠ .eraseApplication) (flash : v'.flash = s.flash flash0) :
    Matches flash0 v' (words ++ v.wordsTo v') s := by
  refine h.goesOn obs trace stands quiet (fun erase => absurd erase state) (fun _ => flash) ?_
  rw [wordsTo_eq main trace, sent, owes, paid]
  rfl

/-- The server takes an input and answers with `more`, of which the bootloader says the first
words now. -/
theorem Matches.answers (obs : Trace) (more : List Byte) (main : v.pc ≠ .update)
    (trace : v'.trace = v.trace ++ obs) (settled : v.owes = [])
    (sent : obs.sent ++ v'.owes.map commsCreateSingleBytePacket =
      more.map commsCreateSingleBytePacket)
    (said : s'.said = s.said ++ more) (heard : s'.heard = s.heard ++ obs.heard)
    (stands : v'.StandsAt s'.stage) (chunks : s'.stored = v'.trace.accepted.map chunkOf)
    (erasing : v'.bootloaderState = .eraseApplication → s'.chunks = some [])
    (flash : v'.bootloaderState ≠ .eraseApplication → v'.flash = s'.flash flash0) :
    Matches flash0 v' (words ++ v.wordsTo v') s' := by
  refine ⟨stands, ?_, chunks, erasing, flash, ?_⟩
  · rw [trace, Trace.heard_append, heard, h.heard]
  · have spoken := h.said
    rw [settled, List.map_nil, List.append_nil] at spoken
    rw [wordsTo_eq main trace, List.append_assoc, sent, said, List.map_append, spoken]

/-- The session ends with a NACK. -/
theorem Matches.refuses (obs : Trace) (main : v.pc ≠ .update) (trace : v'.trace = v.trace ++ obs)
    (waiting : v.owes = [] ∧ v.bootloaderState ≠ .eraseApplication)
    (sent : obs.sent = [commsCreateSingleBytePacket blPacketNackData0])
    (quiet : obs.heard = [] ∧ obs.accepted = []) (state : v'.bootloaderState = .done)
    (pc : v'.pc ≠ .flush ∧ v'.pc ≠ .gone) (flash : v'.flash = v.flash) :
    Matches flash0 v' (words ++ v.wordsTo v') s.refuses := by
  refine h.answers obs [blPacketNackData0] main trace waiting.1 ?_ rfl ?_ ?_ ?_ ?_ ?_
  · rw [sent, Session.owes, state]
    rfl
  · rw [quiet.1, List.append_nil]
    rfl
  · rw [standsAt_running pc, state]
    rfl
  · exact h.chunks.trans (chunks_quiet trace quiet.2).symm
  · rw [state]
    exact fun erase => absurd erase (by decide)
  · intro _
    rw [flash]
    exact h.flash waiting.2

end Step

/-! ## Every step -/

theorem waiting_owes {v : Session} (waiting : v.bootloaderState.Waiting) :
    v.owes = [] ∧ v.bootloaderState ≠ .eraseApplication := by
  rcases waiting with state | state | state | state <;> rw [Session.owes, state] <;>
    exact ⟨rfl, by decide⟩

theorem waiting_stage {state : BlState} (waiting : state.Waiting) (announced : Nat) :
    (state.stage announced).Waits := by
  rcases waiting with rfl | rfl | rfl | rfl <;> exact trivial

theorem windowOf_iff (bytes : List Byte) :
    windowOf bytes = syncSequence ↔ syncBytes <:+ bytes := by
  constructor
  · intro found
    obtain ⟨front, rfl⟩ := windowOf_eq_syncSequence found
    exact List.suffix_append front syncBytes
  · rintro ⟨front, rfl⟩
    rw [windowOf, List.foldl_append]
    rfl

/-- Behind `s` the server attends to `inputs` with the packets the step takes, and the session
matches it again. -/
structure Follows (validate : Flash → Option Bool) (flash0 : Flash) (v v' : Session)
    (words : List CommsPacket) (s : Server) (inputs : List Input) : Prop where
  taken : v'.trace.taken = v.trace.taken ++ inputs.filterMap Input.packet?
  attends : Lib.Run.Meets (Server.serve validate flash0) Server.Attends s inputs
  same : Matches flash0 v' (words ++ v.wordsTo v')
    (Lib.Run.run (Server.serve validate flash0) s inputs)

section Steps

variable {drv : FlashDriver} {validate : Flash → Option Bool} {flash0 : Flash} {v v' : Session}
  {words : List CommsPacket} {s : Server}

/-- A step that is no input. -/
theorem Matches.rests (obs : Trace) (trace : v'.trace = v.trace ++ obs) (taken : obs.taken = [])
    (same : Matches flash0 v' (words ++ v.wordsTo v') s) :
    ∃ inputs, Follows validate flash0 v v' words s inputs := by
  refine ⟨[], ?_, trivial, same⟩
  rw [trace, Trace.taken_append, taken]
  rfl

/-- A step that is one input. -/
theorem Matches.receives (input : Input) (obs : Trace) (trace : v'.trace = v.trace ++ obs)
    (taken : obs.taken = [input].filterMap Input.packet?) (attends : s.Attends input)
    (served : Matches flash0 v' (words ++ v.wordsTo v')
      (Server.serve validate flash0 s input)) :
    ∃ inputs, Follows validate flash0 v v' words s inputs := by
  refine ⟨[input], ?_, ⟨attends, trivial⟩, served⟩
  rw [trace, Trace.taken_append, taken]

variable (h : Matches flash0 v words s)
include h

/-- A byte while listening. -/
theorem Matches.listens (inv : SessionInv flash0 v) (pc : v.pc = .loop)
    (sync : v.bootloaderState = .sync) (byte : Byte) :
    s.stage = .listening ∧
      ((syncBytes <:+ s.heard ++ [byte]) ↔ v.shifted byte = syncSequence) := by
  have running : v.pc ≠ .flush ∧ v.pc ≠ .gone := by
    rw [pc]
    decide
  obtain ⟨bytes, trace, seq⟩ := inv.reading sync running.1
  have heard := h.heard
  rw [trace, Trace.heard_syncBytes] at heard
  refine ⟨by rw [(standsAt_running running).mp h.stands, sync]; rfl, ?_⟩
  rw [heard, ← windowOf_iff, windowOf_concat, ← seq]
  rfl

/-- A byte that does not complete the sync sequence. -/
theorem Matches.otherByte (validate : Flash → Option Bool) (inv : SessionInv flash0 v)
    (pc : v.pc = .loop) (sync : v.bootloaderState = .sync) (byte : Byte)
    (other : v.shifted byte ≠ syncSequence) :
    Matches flash0 (v.reads byte) (words ++ v.wordsTo (v.reads byte))
        (Server.serve validate flash0 s (.byte byte)) ∧ v.wordsTo (v.reads byte) = [] := by
  obtain ⟨listening, found⟩ := h.listens inv pc sync byte
  have main : v.pc ≠ .update := by
    rw [pc]
    decide
  have running : v.pc ≠ .flush ∧ v.pc ≠ .gone := by
    rw [pc]
    decide
  have settled : v.owes = [] := by rw [Session.owes, sync]; exact if_neg running.1
  have settled' : (v.reads byte).owes = [] := settled
  have served : Server.serve validate flash0 s (.byte byte) = s.hears byte := by
    rw [Server.serve, listening]
  have hears : s.hears byte = { s with heard := s.heard ++ [byte] } :=
    if_neg (mt found.mp other)
  rw [served, hears]
  refine ⟨h.answers [.syncByte byte] [] main rfl settled ?_ (List.append_nil _).symm rfl ?_ ?_ ?_
    ?_, wordsTo_eq main (show (v.reads byte).trace = v.trace ++ [.syncByte byte] from rfl)⟩
  · rw [settled']
    rfl
  · exact (standsAt_running (v := v.reads byte) running).mpr
      ((standsAt_running running).mp h.stands)
  · exact h.chunks.trans (chunks_quiet rfl rfl).symm
  · exact h.erasing
  · exact h.flash

/-- The byte that completes it. -/
theorem Matches.lastByte (inv : SessionInv flash0 v) (pc : v.pc = .loop)
    (sync : v.bootloaderState = .sync) (byte : Byte) (found : v.shifted byte = syncSequence) :
    Matches flash0 ((v.reads byte).atPc .flush) (words ++ v.wordsTo ((v.reads byte).atPc .flush))
      (Server.serve validate flash0 s (.byte byte)) := by
  obtain ⟨listening, complete⟩ := h.listens inv pc sync byte
  have main : v.pc ≠ .update := by
    rw [pc]
    decide
  have settled : v.owes = [] := by
    rw [Session.owes, sync]
    exact if_neg (by rw [pc]; decide)
  have owes : ((v.reads byte).atPc .flush).owes = [blPacketSyncObservedData0] := by
    rw [Session.owes, show ((v.reads byte).atPc .flush).bootloaderState = _ from sync]
    exact if_pos rfl
  have served : Server.serve validate flash0 s (.byte byte) = s.hears byte := by
    rw [Server.serve, listening]
  have hears : s.hears byte = (Server.speaks { s with heard := s.heard ++ [byte] }
      blPacketSyncObservedData0).goes .request := if_pos (complete.mpr found)
  rw [served, hears]
  refine h.answers [.syncByte byte] [blPacketSyncObservedData0] main rfl settled ?_ rfl rfl rfl ?_
    h.erasing h.flash
  · rw [owes]
    rfl
  · exact h.chunks.trans (chunks_quiet rfl rfl).symm

/-- In a state that waits the server does. -/
theorem Matches.waits (pc : v.pc = .loop ∨ v.pc = .dispatch)
    (waiting : v.bootloaderState = .sync ∨ v.bootloaderState.Waiting) : s.stage.Waits := by
  have running : v.pc ≠ .flush ∧ v.pc ≠ .gone := by
    rcases pc with pc | pc <;> rw [pc] <;> decide
  rw [(standsAt_running running).mp h.stands]
  rcases waiting with sync | waiting
  · rw [sync]
    exact trivial
  · exact waiting_stage waiting _

/-- A timeout in a state that waits. -/
theorem Matches.timesOut (validate : Flash → Option Bool) (pc : v.pc = .loop ∨ v.pc = .dispatch)
    (waiting : v.bootloaderState = .sync ∨ v.bootloaderState.Waiting)
    (same : v'.trace = v.trace ++ [.sent (commsCreateSingleBytePacket blPacketNackData0)] ∧
      v'.bootloaderState = .done ∧ v'.pc = .loop ∧ v'.flash = v.flash) :
    Matches flash0 v' (words ++ v.wordsTo v') (Server.serve validate flash0 s .timeout) := by
  have running : v.pc ≠ .flush ∧ v.pc ≠ .gone := by
    rcases pc with pc | pc <;> rw [pc] <;> decide
  have settled : v.owes = [] ∧ v.bootloaderState ≠ .eraseApplication := by
    rcases waiting with sync | waiting
    · rw [Session.owes, sync]
      exact ⟨if_neg running.1, by decide⟩
    · exact waiting_owes waiting
  rw [show Server.serve validate flash0 s .timeout = s.refuses from if_pos (h.waits pc waiting)]
  obtain ⟨trace, state, loop, flash⟩ := same
  refine h.refuses _ ?_ trace settled rfl ⟨rfl, rfl⟩ state ?_ flash
  · rcases pc with pc | pc <;> rw [pc] <;> decide
  · rw [loop]
    decide

/-- A packet in a state that waits for one. -/
theorem Matches.stage_waiting (pc : v.pc = .dispatch) (state : BlState)
    (here : v.bootloaderState = state) : s.stage = state.stage v.firmwareLength := by
  have running : v.pc ≠ .flush ∧ v.pc ≠ .gone := by
    rw [pc]
    decide
  rw [(standsAt_running running).mp h.stands, here]

theorem Matches.attendsPacket (pc : v.pc = .dispatch) (waiting : v.bootloaderState.Waiting) :
    s.Attends (.packet v.nextPacket) := by
  refine ⟨h.waits (.inr pc) (.inr waiting), ?_⟩
  rw [h.stage_waiting pc _ rfl]
  rcases waiting with state | state | state | state <;> rw [state] <;> exact Stage.noConfusion

theorem Matches.refusesPacket (pc : v.pc = .dispatch) (waiting : v.bootloaderState.Waiting)
    (packet : CommsPacket) (wrong : ¬Expected v.bootloaderState packet)
    (trace : v'.trace = v.trace ++
      [.taken packet, .sent (commsCreateSingleBytePacket blPacketNackData0)])
    (same : v'.bootloaderState = .done ∧ v'.pc = .loop ∧ v'.flash = v.flash) :
    Matches flash0 v' (words ++ v.wordsTo v')
      (Server.serve validate flash0 s (.packet packet)) := by
  have served : Server.serve validate flash0 s (.packet packet) = s.refuses := by
    show s.takes validate flash0 packet = _
    unfold Server.takes
    rcases waiting with state | state | state | state <;> rw [h.stage_waiting pc _ state] <;>
      rw [state] at wrong <;> exact if_neg wrong
  obtain ⟨state, loop, flash⟩ := same
  rw [served]
  refine h.refuses _ ?_ trace (waiting_owes waiting) rfl ⟨rfl, rfl⟩ state ?_ flash
  · rw [pc]
    decide
  · rw [loop]
    decide

/-- A chunk is written, the server has stored one more. -/
theorem Matches.stores (drv : FlashDriver) (validate : Flash → Option Bool)
    (inv : SessionInv flash0 v) (pc : v.pc = .dispatch) (state : v.bootloaderState = .receiveFw)
    (available : commsPacketAvailable v.comms = true)
    (ok : DataLengthOk v.nextPacket) {u : Session}
    (written : u = (v.atPc .loop).takes.writes drv v.nextPacket) :
    Server.serve validate flash0 s (.packet v.nextPacket) =
        (if v.firmwareLength ≤ u.bytesWritten then
          Server.judges validate flash0 { s with chunks := some (u.trace.accepted.map chunkOf) }
        else Server.speaks { s with chunks := some (u.trace.accepted.map chunkOf) }
          blPacketReadyForDataData0) ∧
      u.flash = withImage flash0 (u.trace.accepted.map chunkOf).flatten := by
  have updating : Updating flash0 u := written ▸ (inv.writes drv pc state available).1
  have grown : s.stored ++ [chunkOf v.nextPacket] = u.trace.accepted.map chunkOf := by
    rw [h.chunks, written, takes_writes_trace available, Trace.accepted_append, List.map_append]
    rfl
  refine ⟨?_, funext updating.content⟩
  have takes : s.takes validate flash0 v.nextPacket =
      s.stores validate flash0 v.firmwareLength (chunkOf v.nextPacket) := by
    unfold Server.takes
    rw [h.stage_waiting pc _ state]
    exact if_pos ok
  show s.takes validate flash0 v.nextPacket = _
  rw [takes, Server.stores, grown, updating.count]
  rfl

/-- The erase. -/
theorem Matches.erases (inv : SessionInv flash0 v) (pc : v.pc = .dispatch)
    (state : v.bootloaderState = .eraseApplication)
    (erased : v' = (((v.atPc .loop).erases drv).sendSingleByte
      blPacketReadyForDataData0).withState .receiveFw) :
    ∃ inputs, Follows validate flash0 v v' words s inputs := by
  have trace : v'.trace = v.trace ++
      [.erased, .sent (commsCreateSingleBytePacket blPacketReadyForDataData0)] := by
    rw [erased]
    exact List.append_assoc ..
  have receiving : v'.bootloaderState = .receiveFw := erased ▸ rfl
  have inv' : SessionInv flash0 v' := by
    rw [erased]
    exact inv.step (@SessionStep.erase drv validate v pc state)
  have updating := (inv'.updating receiving).1
  have nothing : v'.trace.accepted.map chunkOf = [] := by
    rw [chunks_quiet trace rfl, ← h.chunks, Server.stored, h.erasing state]
    rfl
  have main : v.pc ≠ .update := by
    rw [pc]
    decide
  have running : v'.pc ≠ .flush ∧ v'.pc ≠ .gone := by
    rw [erased]
    exact looping
  refine Matches.rests _ trace rfl (h.pays _ main blPacketReadyForDataData0 trace ?_ rfl
    (waiting_owes (.inr (.inr (.inr receiving)))).1 ?_ ⟨rfl, rfl⟩
    (waiting_owes (.inr (.inr (.inr receiving)))).2 ?_)
  · rw [Session.owes, state]
  · rw [standsAt_running running, receiving, h.stage_waiting pc _ state, erased]
    rfl
  · rw [Server.flash, h.erasing state]
    refine (funext updating.content).trans ?_
    rw [show v'.trace.payload = (v'.trace.accepted.map chunkOf).flatten from rfl, nothing]
    rfl

/-- A chunk that does not complete the image. -/
theorem Matches.chunk (inv : SessionInv flash0 v) (pc : v.pc = .dispatch)
    (state : v.bootloaderState = .receiveFw) (available : commsPacketAvailable v.comms = true)
    (ok : DataLengthOk v.nextPacket)
    (more : ((v.atPc .loop).takes.writes drv v.nextPacket).bytesWritten < v.firmwareLength) :
    Matches flash0
      (((v.atPc .loop).takes.writes drv v.nextPacket).sendSingleByte blPacketReadyForDataData0)
      (words ++ v.wordsTo (((v.atPc .loop).takes.writes drv v.nextPacket).sendSingleByte
        blPacketReadyForDataData0))
      (Server.serve validate flash0 s (.packet v.nextPacket)) := by
  obtain ⟨served, content⟩ := h.stores drv validate inv pc state available ok rfl
  have trace := @takes_writes_append drv v available v.nextPacket
    [.sent (commsCreateSingleBytePacket blPacketReadyForDataData0)]
  have receiving : (((v.atPc .loop).takes.writes drv v.nextPacket).sendSingleByte
      blPacketReadyForDataData0).bootloaderState = .receiveFw := state
  have main : v.pc ≠ .update := by
    rw [pc]
    decide
  rw [served, if_neg (Nat.not_le.mpr more)]
  refine h.answers _ [blPacketReadyForDataData0] main trace
    (waiting_owes (.inr (.inr (.inr state)))).1 ?_ rfl (List.append_nil _).symm ?_
    (chunks_quiet (v := (v.atPc .loop).takes.writes drv v.nextPacket) rfl rfl).symm
    (fun erase => absurd (receiving.symm.trans erase) (by decide)) fun _ => content
  · rw [(waiting_owes (.inr (.inr (.inr receiving)))).1]
    rfl
  · rw [standsAt_running looping, receiving]
    exact h.stage_waiting pc _ state

/-- The chunk that completes the image. -/
theorem Matches.lastChunk (inv : SessionInv flash0 v) (pc : v.pc = .dispatch)
    (state : v.bootloaderState = .receiveFw) (available : commsPacketAvailable v.comms = true)
    (ok : DataLengthOk v.nextPacket) (accepted : Bool)
    (complete : v.firmwareLength ≤ ((v.atPc .loop).takes.writes drv v.nextPacket).bytesWritten)
    (verdict : validate ((v.atPc .loop).takes.writes drv v.nextPacket).flash = some accepted)
    (judged : v' = (((v.atPc .loop).takes.writes drv v.nextPacket).sendSingleByte
      (if accepted then blPacketUpdateSuccessfulData0 else blPacketNackData0)).withState .done) :
    Matches flash0 v' (words ++ v.wordsTo v')
      (Server.serve validate flash0 s (.packet v.nextPacket)) := by
  obtain ⟨served, content⟩ := h.stores drv validate inv pc state available ok rfl
  have trace := @takes_writes_append drv v available v.nextPacket
    [.sent (commsCreateSingleBytePacket
      (if accepted then blPacketUpdateSuccessfulData0 else blPacketNackData0))]
  have main : v.pc ≠ .update := by
    rw [pc]
    decide
  rw [content] at verdict
  rw [served, if_pos complete, Server.judges, Server.flash, verdict, judged]
  cases accepted <;>
    exact h.answers _ [_] main trace (waiting_owes (.inr (.inr (.inr state)))).1 rfl rfl
      (List.append_nil _).symm ((standsAt_running looping).mpr rfl)
      (chunks_quiet (v := (v.atPc .loop).takes.writes drv v.nextPacket) rfl rfl).symm
      (fun erase => absurd erase (by decide : BlState.done ≠ .eraseApplication))
      fun _ => content

/-- The chunk that completes an image on which the validation faults. -/
theorem Matches.lastChunkFault (inv : SessionInv flash0 v) (pc : v.pc = .dispatch)
    (state : v.bootloaderState = .receiveFw) (available : commsPacketAvailable v.comms = true)
    (ok : DataLengthOk v.nextPacket)
    (complete : v.firmwareLength ≤ ((v.atPc .loop).takes.writes drv v.nextPacket).bytesWritten)
    (fault : validate ((v.atPc .loop).takes.writes drv v.nextPacket).flash = none)
    (faulted : v' =
      (((v.atPc .loop).takes.writes drv v.nextPacket).shows [.faulted]).atPc .gone) :
    Matches flash0 v' (words ++ v.wordsTo v')
      (Server.serve validate flash0 s (.packet v.nextPacket)) := by
  obtain ⟨served, content⟩ := h.stores drv validate inv pc state available ok rfl
  have trace := @takes_writes_append drv v available v.nextPacket [.faulted]
  have receiving : v'.bootloaderState = .receiveFw := by
    rw [faulted]
    exact state
  subst faulted
  have main : v.pc ≠ .update := by
    rw [pc]
    decide
  rw [content] at fault
  rw [served, if_pos complete, Server.judges, Server.flash, fault]
  refine h.answers _ [] main trace (waiting_owes (.inr (.inr (.inr state)))).1 ?_
    (List.append_nil _).symm (List.append_nil _).symm ?_ ?_
    (fun erase => absurd (receiving.symm.trans erase) (by decide)) fun _ => content
  · rw [(waiting_owes (.inr (.inr (.inr receiving)))).1]
    rfl
  · exact (if_pos rfl).mpr ⟨none, rfl, List.getLast?_concat⟩
  · exact (chunks_quiet (v := (v.atPc .loop).takes.writes drv v.nextPacket) rfl rfl).symm

/-- Past the loop. -/
theorem Matches.leaves (obs : Obs) (pc : v.pc = .loop) (ended : v.bootloaderState = .done)
    (out : obs = .wayOut (validate v.flash)) (left : v' = (v.shows [obs]).atPc .gone) :
    ∃ inputs, Follows validate flash0 v v' words s inputs := by
  have running : v.pc ≠ .flush ∧ v.pc ≠ .gone := by
    rw [pc]
    decide
  have main : v.pc ≠ .update := by
    rw [pc]
    decide
  have settled : v.owes = [] := by rw [Session.owes, ended]
  have done : v'.bootloaderState = .done := by
    rw [left]
    exact ended
  have flash : v.flash = s.flash flash0 := h.flash (by rw [ended]; decide)
  have trace : v'.trace = v.trace ++ [obs] := left ▸ rfl
  have silent : Trace.sent [obs] = [] ∧ Trace.heard [obs] = [] ∧ Trace.accepted [obs] = [] ∧
      Trace.taken [obs] = [] := by
    rw [out]
    cases validate v.flash with
    | none => exact ⟨rfl, rfl, rfl, rfl⟩
    | some accepted => cases accepted <;> exact ⟨rfl, rfl, rfl, rfl⟩
  have closed : s.stage = .closed := by
    rw [(standsAt_running running).mp h.stands, ended]
    rfl
  have served : Server.serve validate flash0 s .leave =
      s.goes (.gone (validate (s.flash flash0))) := by
    rw [Server.serve, closed]
  refine Matches.receives .leave _ trace silent.2.2.2 closed ?_
  rw [served]
  refine h.answers [obs] [] main trace settled ?_ (List.append_nil _).symm ?_ ?_
    (h.chunks.trans (chunks_quiet trace silent.2.2.1).symm)
    (fun erase => absurd (done.symm.trans erase) (by decide)) fun _ => left ▸ flash
  · rw [silent.1, Session.owes, done]
    rfl
  · rw [silent.2.1]
    exact (List.append_nil _).symm
  · rw [Session.StandsAt, if_pos (show v'.pc = .gone from left ▸ rfl)]
    exact ⟨_, rfl, by rw [trace, List.getLast?_concat, out, flash]⟩

end Steps

/-- Each step of the main program is one of the server on some inputs. -/
theorem Matches.step {drv : FlashDriver} {validate : Flash → Option Bool} {flash0 : Flash}
    {v v' : Session} {words : List CommsPacket} {s : Server} (h : Matches flash0 v words s)
    (inv : SessionInv flash0 v) (step : SessionStep drv validate v v') :
    ∃ inputs, Follows validate flash0 v v' words s inputs := by
  have dispatch (pc : v.pc = .dispatch) : v.pc ≠ .update := by
    rw [pc]
    decide
  -- the stage is that of the state after the step
  have stage (pc : v.pc = .dispatch) {state : BlState} (here : v.bootloaderState = state) :=
    h.stage_waiting pc state here
  cases step with
  | start hpc =>
    exact Matches.rests [] (List.append_nil _).symm rfl
      (h.moves .loop (by rw [hpc]; decide) looping)
  | enter hpc active =>
    exact Matches.rests [] (List.append_nil _).symm rfl
      (h.moves .update (by rw [hpc]; decide) (by decide))
  | drained hpc =>
    exact Matches.rests [] (List.append_nil _).symm rfl
      (h.moves .dispatch (by rw [hpc]; decide) (by decide))
  | idle hpc waiting empty =>
    exact Matches.rests [] (List.append_nil _).symm rfl
      (h.moves .loop (by rw [hpc]; decide) looping)
  | timeout hpc waiting empty =>
    exact Matches.receives .timeout _ rfl rfl (h.waits (.inr hpc) (.inr waiting))
      (h.timesOut validate (.inr hpc) (.inr waiting) ⟨rfl, rfl, rfl, rfl⟩)
  | syncIdle hpc sync =>
    refine Matches.rests [] (List.append_nil _).symm rfl
      (h.goesOn [] (List.append_nil _).symm h.stands ⟨rfl, rfl⟩ id h.flash ?_)
    rw [wordsTo_eq (by rw [hpc]; decide) (List.append_nil _).symm]
    rfl
  | syncTimeout hpc sync =>
    exact Matches.receives .timeout _ rfl rfl (h.waits (.inl hpc) (.inl sync))
      (h.timesOut validate (.inl hpc) (.inl sync) ⟨rfl, rfl, hpc, rfl⟩)
  | syncByte byte hpc sync other =>
    exact Matches.receives (.byte byte) _ rfl rfl (h.listens inv hpc sync byte).1
      (h.otherByte validate inv hpc sync byte other).1
  | syncByteTimeout byte hpc sync other =>
    have heard := h.otherByte validate inv hpc sync byte other
    have refused : Matches flash0 (v.reads byte).fails _ _ :=
      heard.1.timesOut validate (.inl hpc) (.inl sync) ⟨rfl, rfl, hpc, rfl⟩
    have trace : (v.reads byte).fails.trace = v.trace ++
        [.syncByte byte, .sent (commsCreateSingleBytePacket blPacketNackData0)] :=
      List.append_assoc ..
    have main : v.pc ≠ .update := by
      rw [hpc]
      decide
    have refusal : (v.reads byte).wordsTo (v.reads byte).fails =
        Trace.sent [.sent (commsCreateSingleBytePacket blPacketNackData0)] :=
      wordsTo_eq (show (v.reads byte).pc ≠ .update from main) rfl
    have same : (v.reads byte).wordsTo (v.reads byte).fails = v.wordsTo (v.reads byte).fails :=
      refusal.trans (wordsTo_eq main trace).symm
    rw [heard.2, List.append_nil, same] at refused
    refine ⟨[.byte byte, .timeout], ?_, ⟨(h.listens inv hpc sync byte).1,
      heard.1.waits (.inl hpc) (.inl sync), trivial⟩, refused⟩
    rw [trace, Trace.taken_append]
    rfl
  | syncMatch byte hpc sync found =>
    exact Matches.receives (.byte byte) _ rfl rfl (h.listens inv hpc sync byte).1
      (h.lastByte inv hpc sync byte found)
  | flushByte byte hpc =>
    have trace : (v.shows [.flushByte byte]).trace = v.trace ++ [.flushByte byte] := rfl
    refine Matches.rests _ trace rfl (h.goesOn _ trace ?_ ⟨rfl, rfl⟩ id h.flash ?_)
    · have running : v.pc ≠ .gone := by
        rw [hpc]
        decide
      have stands := h.stands
      rw [Session.StandsAt, if_neg running] at stands
      rw [Session.StandsAt, if_neg (show (v.shows [.flushByte byte]).pc ≠ .gone from running)]
      exact stands
    · rw [wordsTo_eq (by rw [hpc]; decide) trace]
      rfl
  | flushed hpc =>
    have sync := (inv.flushing hpc).1
    refine Matches.rests [.sent _] rfl rfl (h.pays [.sent _] (by rw [hpc]; decide)
      blPacketSyncObservedData0 rfl ?_ rfl rfl ?_ ⟨rfl, rfl⟩
      (by decide : BlState.waitForFwUpdateReq ≠ .eraseApplication) ?_)
    · rw [Session.owes, sync]
      exact if_pos hpc
    · have stands := h.stands
      rw [Session.StandsAt, if_neg (by rw [hpc]; decide), if_pos hpc] at stands
      exact (standsAt_running looping).mpr stands
    · exact h.flash (by rw [sync]; decide)
  | commsByte byte hpc =>
    have trace : ((v.shows [.commsByte byte]).afterComms (commsUpdateByte v.comms byte)).trace =
        v.trace ++ (.commsByte byte :: (commsUpdateByte v.comms byte).2) := List.append_assoc ..
    have quiet := commsUpdateByte_quiet v.comms byte
    have running : v.pc ≠ .flush ∧ v.pc ≠ .gone := by
      rw [hpc]
      decide
    refine Matches.rests _ trace quiet.1 (h.goesOn _ trace ?_ ⟨?_, quiet.2.2⟩ id h.flash ?_)
    · rw [Session.StandsAt, if_neg (show ((v.shows [.commsByte byte]).afterComms
        (commsUpdateByte v.comms byte)).pc ≠ .gone from running.2)]
      exact (if_neg running.1).symm ▸ (standsAt_running running).mp h.stands
    · rcases commsUpdateByte_trace v.comms byte with obs | ⟨packet, obs⟩ | ⟨packet, obs | obs⟩ <;>
        rw [obs] <;> rfl
    · rw [Session.wordsTo, if_pos hpc]
      rfl
  | refused length hpc waiting available wrong announced =>
    have trace := takes_send_trace available blPacketNackData0
    exact Matches.receives (.packet v.nextPacket) _ trace rfl (h.attendsPacket hpc waiting)
      (h.refusesPacket hpc waiting v.nextPacket wrong trace ⟨rfl, rfl, rfl⟩)
  | fwUpdateReq hpc state available request =>
    have trace := takes_send_trace available blPacketFwUpdateResData0
    have served : Server.serve validate flash0 s (.packet v.nextPacket) =
        ((s.speaks blPacketFwUpdateResData0).speaks blPacketDeviceIdReqData0).goes .device := by
      show s.takes validate flash0 v.nextPacket = _
      unfold Server.takes
      rw [stage hpc state]
      exact if_pos request
    refine Matches.receives (.packet v.nextPacket) _ trace rfl (h.attendsPacket hpc (.inl state)) ?_
    rw [served]
    refine h.answers _ [blPacketFwUpdateResData0, blPacketDeviceIdReqData0] (dispatch hpc) trace
      (waiting_owes (.inl state)).1 rfl (List.append_assoc ..) (List.append_nil _).symm
      ((standsAt_running looping).mpr rfl) ?_ (fun erase => absurd erase
        (by decide : BlState.deviceIdReq ≠ .eraseApplication)) fun _ => ?_
    · exact h.chunks.trans (chunks_quiet trace rfl).symm
    · exact h.flash (by rw [state]; decide)
  | deviceIdReq hpc state =>
    refine Matches.rests [.sent _] rfl rfl (h.pays [.sent _] (dispatch hpc)
      blPacketDeviceIdReqData0 rfl ?_ rfl rfl ?_ ⟨rfl, rfl⟩
      (by decide : BlState.deviceIdRes ≠ .eraseApplication) ?_)
    · rw [Session.owes, state]
    · exact (standsAt_running looping).mpr ((stage hpc state).trans rfl)
    · exact h.flash (by rw [state]; decide)
  | deviceIdRes hpc state available shape device =>
    have trace := takes_trace available
    have served : Server.serve validate flash0 s (.packet v.nextPacket) =
        (s.speaks blPacketFwLengthReqData0).goes .length := by
      show s.takes validate flash0 v.nextPacket = _
      unfold Server.takes
      rw [stage hpc state]
      exact if_pos ⟨shape, device⟩
    refine Matches.receives (.packet v.nextPacket) _ trace rfl
      (h.attendsPacket hpc (.inr (.inl state))) ?_
    rw [served]
    refine h.answers _ [blPacketFwLengthReqData0] (dispatch hpc) trace
      (waiting_owes (.inr (.inl state))).1 rfl rfl (List.append_nil _).symm
      ((standsAt_running looping).mpr rfl) ?_ (fun erase => absurd erase
        (by decide : BlState.fwLengthReq ≠ .eraseApplication)) fun _ => ?_
    · exact h.chunks.trans (chunks_quiet trace rfl).symm
    · exact h.flash (by rw [state]; decide)
  | fwLengthReq hpc state =>
    refine Matches.rests [.sent _] rfl rfl (h.pays [.sent _] (dispatch hpc)
      blPacketFwLengthReqData0 rfl ?_ rfl rfl ?_ ⟨rfl, rfl⟩
      (by decide : BlState.fwLengthRes ≠ .eraseApplication) ?_)
    · rw [Session.owes, state]
    · exact (standsAt_running looping).mpr ((stage hpc state).trans rfl)
    · exact h.flash (by rw [state]; decide)
  | fwLengthRes hpc state available shape fits =>
    have trace := takes_trace available
    have served : Server.serve validate flash0 s (.packet v.nextPacket) =
        (Server.speaks { s with chunks := some [] } blPacketReadyForDataData0).goes
          (.data (announcedLength v.nextPacket)) := by
      show s.takes validate flash0 v.nextPacket = _
      unfold Server.takes
      rw [stage hpc state]
      exact if_pos ⟨shape, fits⟩
    have untouched := inv.untouched (by rw [state]; decide) (by rw [state]; decide)
    refine Matches.receives (.packet v.nextPacket) _ trace rfl
      (h.attendsPacket hpc (.inr (.inr (.inl state)))) ?_
    rw [served]
    refine h.answers _ [blPacketReadyForDataData0] (dispatch hpc) trace
      (waiting_owes (.inr (.inr (.inl state)))).1 rfl rfl (List.append_nil _).symm
      ((standsAt_running looping).mpr rfl) ?_ (fun _ => rfl) fun other => absurd rfl other
    refine Eq.trans ?_ (chunks_quiet trace rfl).symm
    rw [untouched.accepted]
    rfl
  | erase hpc state => exact h.erases inv hpc state rfl
  | chunk hpc state available ok more =>
    exact Matches.receives (.packet v.nextPacket) _ (takes_writes_append available _ _) rfl
      (h.attendsPacket hpc (.inr (.inr (.inr state))))
      (h.chunk inv hpc state available ok more)
  | lastChunk accepted hpc state available ok complete verdict =>
    exact Matches.receives (.packet v.nextPacket) _ (takes_writes_append available _ _) rfl
      (h.attendsPacket hpc (.inr (.inr (.inr state))))
      (h.lastChunk inv hpc state available ok accepted complete verdict rfl)
  | lastChunkFault hpc state available ok complete fault =>
    exact Matches.receives (.packet v.nextPacket) _ (takes_writes_append available _ _) rfl
      (h.attendsPacket hpc (.inr (.inr (.inr state))))
      (h.lastChunkFault inv hpc state available ok complete fault rfl)
  | unexpected hpc outside =>
    have active := inv.active (.inr hpc)
    rcases outside with sync | done
    · exact absurd sync active.1
    · exact absurd done active.2
  | left obs hpc ended way =>
    refine h.leaves obs hpc ended ?_ rfl
    rcases way with ⟨rfl, verdict⟩ | ⟨rfl, verdict⟩ | ⟨rfl, verdict⟩ <;> rw [verdict] <;> rfl

end SecureBootloader
