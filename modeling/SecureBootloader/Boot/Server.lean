import SecureBootloader.Boot.Watchdog

/-!
# What the bootloader is for

A server that hears the sync sequence, talks to one peer about one image, stores it and
gives a verdict. It knows nothing of queues, interrupts, timers and the steps of a loop: it
is a function of what reaches it.
-/

namespace SecureBootloader

/-- The flash with the application area erased and the image at its start. -/
def withImage (flash0 : Flash) (fwImage : List Byte) : Flash := fun a =>
  if mainAppStartAddress ≤ a ∧ a < flashBase + flashSize then
    fwImage.getD (a - mainAppStartAddress) 0xff
  else flash0 a

/-- Where the server stands: it listens for the sync sequence, waits for one of the packets of
an update, has closed the session, or has given up the processor with a verdict on the flash,
`none` for a validation that faulted. -/
inductive Stage where
  | listening
  | request
  | device
  | length
  | data (announced : Nat)
  | closed
  | gone (verdict : Option Bool)

/-- The stages in which the server waits for its peer. -/
def Stage.Waits : Stage → Prop
  | .closed | .gone _ => False
  | _ => True

instance : ∀ stage : Stage, Decidable stage.Waits
  | .closed | .gone _ => inferInstanceAs (Decidable False)
  | .listening | .request | .device | .length | .data _ => inferInstanceAs (Decidable True)

/-- What reaches the server. -/
inductive Input where
  | byte (byte : Byte)
  | packet (packet : CommsPacket)
  | timeout
  | leave

def Input.packet? : Input → Option CommsPacket
  | .packet taken => some taken
  | _ => none

/-- The bytes it has heard while listening, where it stands, the chunks it has stored since the
erase, and the words it has said, each a packet of one byte. -/
structure Server where
  heard : List Byte
  stage : Stage
  chunks : Option (List (List Byte))
  said : List Byte

namespace Server

def start : Server := ⟨[], .listening, none, []⟩

/-- The chunks since the erase. -/
def stored (s : Server) : List (List Byte) := s.chunks.getD []

/-- The flash as the server leaves it. -/
def flash (flash0 : Flash) (s : Server) : Flash :=
  match s.chunks with
  | none => flash0
  | some chunks => withImage flash0 chunks.flatten

def speaks (s : Server) (word : Byte) : Server := { s with said := s.said ++ [word] }

def goes (s : Server) (stage : Stage) : Server := { s with stage := stage }

def refuses (s : Server) : Server := (s.speaks blPacketNackData0).goes .closed

/-- A byte while listening. -/
def hears (s : Server) (byte : Byte) : Server :=
  let s := { s with heard := s.heard ++ [byte] }
  if syncBytes <:+ s.heard then (s.speaks blPacketSyncObservedData0).goes .request else s

section Serve

variable (validate : Flash → Option Bool) (flash0 : Flash)

/-- The verdict on a complete image. -/
def judges (s : Server) : Server :=
  match validate (s.flash flash0) with
  | some true => (s.speaks blPacketUpdateSuccessfulData0).goes .closed
  | some false => s.refuses
  | none => s.goes (.gone none)

/-- A chunk of an image of `announced` bytes. -/
def stores (s : Server) (announced : Nat) (chunk : List Byte) : Server :=
  let s := { s with chunks := some (s.stored ++ [chunk]) }
  if announced ≤ s.stored.flatten.length then s.judges validate flash0
  else s.speaks blPacketReadyForDataData0

theorem stores_eq (s : Server) (announced : Nat) (chunk : List Byte) :
    s.stores validate flash0 announced chunk =
      if announced ≤ (s.stored ++ [chunk]).flatten.length then
        judges validate flash0 { s with chunks := some (s.stored ++ [chunk]) }
      else speaks { s with chunks := some (s.stored ++ [chunk]) } blPacketReadyForDataData0 :=
  rfl

/-- A packet, the one the stage waits for or another. -/
def takes (s : Server) (packet : CommsPacket) : Server :=
  match s.stage with
  | .request =>
    if Expected .waitForFwUpdateReq packet then
      ((s.speaks blPacketFwUpdateResData0).speaks blPacketDeviceIdReqData0).goes .device
    else s.refuses
  | .device =>
    if Expected .deviceIdRes packet then (s.speaks blPacketFwLengthReqData0).goes .length
    else s.refuses
  | .length =>
    if Expected .fwLengthRes packet then
      ({ s with chunks := some [] }.speaks blPacketReadyForDataData0).goes
        (.data (announcedLength packet))
    else s.refuses
  | .data announced =>
    if DataLengthOk packet then s.stores validate flash0 announced (chunkOf packet)
    else s.refuses
  | _ => s

def serve (s : Server) : Input → Server
  | .byte byte => match s.stage with
    | .listening => s.hears byte
    | _ => s
  | .packet packet => s.takes validate flash0 packet
  | .timeout => if s.stage.Waits then s.refuses else s
  | .leave => match s.stage with
    | .closed => s.goes (.gone (validate (s.flash flash0)))
    | _ => s

/-- The server after `inputs`. -/
def after (inputs : List Input) : Server :=
  Lib.Run.run (serve validate flash0) start inputs

/-- The inputs that mean something to the server where it stands. -/
def Attends (s : Server) : Input → Prop
  | .byte _ => s.stage = .listening
  | .packet _ => s.stage.Waits ∧ s.stage ≠ .listening
  | .timeout => s.stage.Waits
  | .leave => s.stage = .closed

/-- The server that has heard the sync sequence and then got `packets`. -/
def given (packets : List CommsPacket) : Server :=
  Lib.Run.run (takes validate flash0) ((start.speaks blPacketSyncObservedData0).goes .request)
    packets

end Serve

/-! ## What it says -/

/-- The words up to the erase. -/
def opening : List Byte :=
  [blPacketSyncObservedData0, blPacketFwUpdateResData0, blPacketDeviceIdReqData0,
    blPacketFwLengthReqData0]

/-- The words of an update with `ready` calls for data. -/
def calls (ready : Nat) : List Byte := opening ++ List.replicate ready blPacketReadyForDataData0

theorem calls_succ (ready : Nat) :
    calls ready ++ [blPacketReadyForDataData0] = calls (ready + 1) := by
  rw [calls, calls, List.append_assoc, List.replicate_succ']

theorem calls_front (ready : Nat) : calls ready <+: calls (ready + 1) :=
  ⟨[blPacketReadyForDataData0], calls_succ ready⟩

/-- The words of an update that has stored `chunks` chunks: a front part of the script, the
whole script with the success, or a front part with a NACK behind it. -/
def InScript (chunks : Nat) (words : List Byte) : Prop :=
  words <+: calls (chunks + 1) ∨ words = calls chunks ++ [blPacketUpdateSuccessfulData0] ∨
    ∃ front, front <+: calls (chunks + 1) ∧ words = front ++ [blPacketNackData0]

/-- The words at a stage. -/
def OnScript (s : Server) : Prop :=
  match s.stage with
  | .listening => s.said = []
  | .request => s.said = opening.take 1
  | .device => s.said = opening.take 3
  | .length => s.said = opening
  | .data _ => s.said = calls (s.stored.length + 1)
  | .closed | .gone _ => InScript s.stored.length s.said

theorem InScript.front {chunks : Nat} {start words : List Byte} (h : InScript chunks words)
    (part : start <+: words) : InScript chunks start := by
  rcases h with calling | rfl | ⟨front, calling, rfl⟩
  · exact .inl (part.trans calling)
  · rcases List.prefix_concat_iff.mp part with all | shorter
    · exact .inr (.inl all)
    · exact .inl (shorter.trans (calls_front chunks))
  · rcases List.prefix_concat_iff.mp part with all | shorter
    · exact .inr (.inr ⟨front, calling, all⟩)
    · exact .inl (shorter.trans calling)

theorem OnScript.waiting {s : Server} (h : s.OnScript) (waits : s.stage.Waits) :
    s.said <+: calls (s.stored.length + 1) := by
  have short (words : List Byte) (start : words <+: opening) :
      words <+: calls (s.stored.length + 1) := start.trans (List.prefix_append _ _)
  unfold OnScript at h
  cases stage : s.stage with
  | listening =>
    rw [stage] at h
    exact short _ (h ▸ List.nil_prefix)
  | request | device =>
    rw [stage] at h
    exact short _ (h ▸ List.take_prefix _ _)
  | length =>
    rw [stage] at h
    exact short _ (h ▸ List.prefix_refl _)
  | data announced =>
    rw [stage] at h
    exact h ▸ List.prefix_refl _
  | closed | gone verdict =>
    rw [stage] at waits
    exact absurd waits id

theorem OnScript.inScript {s : Server} (h : s.OnScript) : InScript s.stored.length s.said := by
  by_cases waits : s.stage.Waits
  · exact .inl (h.waiting waits)
  · unfold OnScript at h
    cases stage : s.stage with
    | closed | gone verdict => rwa [stage] at h
    | _ =>
      rw [stage] at waits
      exact absurd trivial waits

theorem OnScript.refuses {s : Server} (h : s.OnScript) (waits : s.stage.Waits) :
    s.refuses.OnScript :=
  .inr (.inr ⟨s.said, h.waiting waits, rfl⟩)

section Serve

variable {validate : Flash → Option Bool} {flash0 : Flash} {s : Server}

theorem OnScript.judges (said : s.said = calls s.stored.length) :
    (s.judges validate flash0).OnScript := by
  unfold Server.judges
  split
  · exact .inr (.inl (congrArg (· ++ _) said))
  · exact .inr (.inr ⟨s.said, said ▸ calls_front _, rfl⟩)
  · exact .inl (said ▸ calls_front _)

theorem OnScript.stores {announced : Nat} (chunk : List Byte) (stage : s.stage = .data announced)
    (said : s.said = calls (s.stored.length + 1)) :
    (s.stores validate flash0 announced chunk).OnScript := by
  have grown : (Server.stored { s with chunks := some (s.stored ++ [chunk]) }).length =
      s.stored.length + 1 := List.length_append
  unfold Server.stores
  dsimp only
  split
  · exact OnScript.judges (said.trans (congrArg calls grown.symm))
  · unfold OnScript Server.speaks
    rw [stage]
    show s.said ++ _ = calls _
    rw [said, calls_succ]
    exact congrArg (fun n => calls (n + 1)) grown.symm

theorem OnScript.takes (h : s.OnScript) (packet : CommsPacket) :
    (s.takes validate flash0 packet).OnScript := by
  have refused := h.refuses
  have said := h
  unfold OnScript at said
  unfold Server.takes
  cases stage : s.stage with
  | listening | closed | gone verdict => exact h
  | request =>
    rw [stage] at said refused
    dsimp only
    split
    · exact congrArg (fun words => words ++ _ ++ _) said
    · exact refused trivial
  | device | length =>
    rw [stage] at said refused
    dsimp only
    split
    · exact congrArg (· ++ _) said
    · exact refused trivial
  | data announced =>
    rw [stage] at said refused
    dsimp only
    split
    · exact OnScript.stores _ stage said
    · exact refused trivial

theorem OnScript.serve (h : s.OnScript) (input : Input) :
    (s.serve validate flash0 input).OnScript := by
  cases input with
  | byte byte =>
    unfold Server.serve
    cases stage : s.stage with
    | listening =>
      have said := h
      unfold OnScript at said
      rw [stage] at said
      dsimp only
      unfold Server.hears
      dsimp only
      split
      · exact congrArg (· ++ _) said
      · unfold OnScript
        rw [stage]
        exact said
    | _ => exact h
  | packet packet => exact h.takes packet
  | timeout =>
    show Server.OnScript (if s.stage.Waits then s.refuses else s)
    split
    · next waits => exact h.refuses waits
    · exact h
  | leave =>
    unfold Server.serve
    cases stage : s.stage with
    | closed => exact h.inScript
    | _ => exact h

/-- After every list of inputs. -/
theorem after_onScript (validate : Flash → Option Bool) (flash0 : Flash) (inputs : List Input) :
    (after validate flash0 inputs).OnScript :=
  Lib.Run.run_invariant (P := OnScript) (fun _ input h => h.serve input)
    (show start.OnScript from rfl) inputs

end Serve

/-! ## What it has stored -/

/-- The same server up to what it has heard and said. -/
def SameStore (s t : Server) : Prop := s.stage = t.stage ∧ s.chunks = t.chunks

section Serve

variable {validate : Flash → Option Bool} {flash0 : Flash} {s t : Server}

theorem SameStore.flash (h : s.SameStore t) : s.flash flash0 = t.flash flash0 := by
  unfold Server.flash
  rw [h.2]

theorem SameStore.judges (h : s.SameStore t) :
    (s.judges validate flash0).SameStore (t.judges validate flash0) := by
  unfold Server.judges
  rw [h.flash]
  split
  · exact ⟨rfl, h.2⟩
  · exact ⟨rfl, h.2⟩
  · exact ⟨rfl, h.2⟩

theorem SameStore.stores (h : s.SameStore t) (announced : Nat) (chunk : List Byte) :
    (s.stores validate flash0 announced chunk).SameStore
      (t.stores validate flash0 announced chunk) := by
  have stored : s.stored = t.stored := congrArg (Option.getD · []) h.2
  rw [stores_eq, stores_eq, stored]
  split
  · exact SameStore.judges ⟨h.1, rfl⟩
  · exact ⟨h.1, rfl⟩

/-- What a packet does depends on the stage and the chunks alone. -/
theorem SameStore.takes (h : s.SameStore t) (packet : CommsPacket) :
    (s.takes validate flash0 packet).SameStore (t.takes validate flash0 packet) := by
  unfold Server.takes
  rw [h.1]
  cases stage : t.stage with
  | listening | closed | gone verdict => exact h
  | request | device =>
    dsimp only
    split <;> exact ⟨rfl, h.2⟩
  | length =>
    dsimp only
    split
    · exact ⟨rfl, rfl⟩
    · exact ⟨rfl, h.2⟩
  | data announced =>
    dsimp only
    split
    · exact h.stores announced _
    · exact ⟨rfl, h.2⟩

/-- The server is past the sync sequence, and if it is gone, then with the verdict on its flash. -/
structure Judged (validate : Flash → Option Bool) (flash0 : Flash) (s : Server) : Prop where
  synced : s.stage ≠ .listening
  gone : ∀ verdict, s.stage = .gone verdict → verdict = validate (s.flash flash0)

theorem Judged.there (stage : Stage) (there : s.stage = stage)
    (here : stage ≠ .listening ∧ ∀ verdict, stage ≠ .gone verdict) : Judged validate flash0 s :=
  ⟨there ▸ here.1, fun verdict gone => absurd (there.symm.trans gone) (here.2 verdict)⟩

theorem judges_judged : (s.judges validate flash0).Judged validate flash0 := by
  unfold Server.judges
  split
  · exact .there .closed rfl ⟨Stage.noConfusion, fun _ => Stage.noConfusion⟩
  · exact .there .closed rfl ⟨Stage.noConfusion, fun _ => Stage.noConfusion⟩
  · next fault =>
    exact ⟨Stage.noConfusion, fun verdict gone => (Stage.gone.inj gone).symm.trans fault.symm⟩

theorem takes_judged (packet : CommsPacket) (waits : s.stage.Waits)
    (synced : s.stage ≠ .listening) : (s.takes validate flash0 packet).Judged validate flash0 := by
  unfold Server.takes
  cases stage : s.stage with
  | listening => exact absurd stage synced
  | closed | gone out =>
    rw [stage] at waits
    exact absurd waits id
  | request | device | length =>
    dsimp only
    split <;> exact .there _ rfl ⟨Stage.noConfusion, fun _ => Stage.noConfusion⟩
  | data announced =>
    dsimp only
    split
    · rw [stores_eq]
      split
      · exact judges_judged
      · exact .there _ stage ⟨Stage.noConfusion, fun _ => Stage.noConfusion⟩
    · exact .there .closed rfl ⟨Stage.noConfusion, fun _ => Stage.noConfusion⟩

/-- The chunks and, while the server waits for packets, its stage are those of the packets it
has taken; and it goes with the verdict on its flash. -/
def FromPackets (validate : Flash → Option Bool) (flash0 : Flash) (packets : List CommsPacket)
    (s : Server) : Prop :=
  match s.stage with
  | .listening => packets = [] ∧ s.chunks = none
  | .closed => s.chunks = (given validate flash0 packets).chunks
  | .gone verdict => s.chunks = (given validate flash0 packets).chunks ∧
      verdict = validate (s.flash flash0)
  | _ => s.SameStore (given validate flash0 packets)

theorem FromPackets.init : FromPackets validate flash0 [] start := ⟨rfl, rfl⟩

theorem FromPackets.chunks {packets : List CommsPacket}
    (h : FromPackets validate flash0 packets s) :
    s.chunks = (given validate flash0 packets).chunks := by
  unfold FromPackets at h
  cases stage : s.stage with
  | listening =>
    rw [stage] at h
    rw [h.1, h.2]
    rfl
  | closed =>
    rw [stage] at h
    exact h
  | gone verdict =>
    rw [stage] at h
    exact h.1
  | request | device | length | data announced =>
    rw [stage] at h
    exact h.2

/-- The flash of the server is that of the packets it has taken. -/
theorem FromPackets.flash {packets : List CommsPacket}
    (h : FromPackets validate flash0 packets s) :
    s.flash flash0 = (given validate flash0 packets).flash flash0 := by
  unfold Server.flash
  rw [h.chunks]

theorem FromPackets.verdict {packets : List CommsPacket} {verdict : Option Bool}
    (h : FromPackets validate flash0 packets s) (gone : s.stage = .gone verdict) :
    verdict = validate (s.flash flash0) := by
  unfold FromPackets at h
  rw [gone] at h
  exact h.2

theorem FromPackets.store {packets : List CommsPacket} (h : FromPackets validate flash0 packets s)
    (waits : s.stage.Waits) (synced : s.stage ≠ .listening) :
    s.SameStore (given validate flash0 packets) := by
  unfold FromPackets at h
  cases stage : s.stage with
  | listening => exact absurd stage synced
  | closed | gone verdict =>
    rw [stage] at waits
    exact absurd waits id
  | request | device | length | data announced => rwa [stage] at h

/-- What has the chunks of the packets and the verdict, and the stage while it waits. -/
theorem SameStore.fromPackets {packets : List CommsPacket}
    (h : s.SameStore (given validate flash0 packets)) (judged : s.Judged validate flash0) :
    FromPackets validate flash0 packets s := by
  unfold FromPackets
  cases stage : s.stage with
  | listening => exact absurd stage judged.synced
  | closed => exact h.2
  | gone verdict => exact ⟨h.2, judged.gone verdict stage⟩
  | request | device | length | data announced => exact h

theorem FromPackets.takes {packets : List CommsPacket} (h : FromPackets validate flash0 packets s)
    (packet : CommsPacket) (waits : s.stage.Waits) (synced : s.stage ≠ .listening) :
    FromPackets validate flash0 (packets ++ [packet]) (s.takes validate flash0 packet) := by
  have store : SameStore (s.takes validate flash0 packet)
      (given validate flash0 (packets ++ [packet])) := by
    rw [given, Lib.Run.run_concat]
    exact (h.store waits synced).takes packet
  exact store.fromPackets (takes_judged packet waits synced)

/-- An input that the server attends to. -/
theorem FromPackets.serve {packets : List CommsPacket} (h : FromPackets validate flash0 packets s)
    (input : Input) (attends : s.Attends input) :
    FromPackets validate flash0 (packets ++ [input].filterMap Input.packet?)
      (s.serve validate flash0 input) := by
  have chunks := h.chunks
  cases input with
  | packet packet => exact h.takes packet attends.1 attends.2
  | byte byte =>
    unfold FromPackets at h
    rw [attends] at h
    have served : s.serve validate flash0 (.byte byte) = s.hears byte := by
      rw [Server.serve, attends]
    rw [served, Server.hears]
    dsimp only
    rw [h.1]
    split
    · exact ⟨rfl, h.2⟩
    · unfold FromPackets
      rw [attends]
      exact ⟨rfl, h.2⟩
  | timeout =>
    rw [show s.serve validate flash0 .timeout = s.refuses from if_pos attends,
      show [Input.timeout].filterMap Input.packet? = [] from rfl, List.append_nil]
    exact chunks
  | leave =>
    have served : s.serve validate flash0 .leave =
        s.goes (.gone (validate (s.flash flash0))) := by
      rw [Server.serve, attends]
    rw [served, show [Input.leave].filterMap Input.packet? = [] from rfl, List.append_nil]
    exact ⟨chunks, rfl⟩

/-- After inputs that the server attends to. -/
theorem after_fromPackets {inputs : List Input}
    (attends : Lib.Run.Meets (Server.serve validate flash0) Attends start inputs) :
    FromPackets validate flash0 (inputs.filterMap Input.packet?)
      (after validate flash0 inputs) := by
  induction inputs using List.reverseRecOn with
  | nil => exact .init
  | append_singleton inputs input ih =>
    obtain ⟨before, attended, -⟩ := Lib.Run.meets_append.mp attends
    rw [List.filterMap_append, after, Lib.Run.run_concat]
    exact (ih before).serve input attended

end Serve

end Server

end SecureBootloader
