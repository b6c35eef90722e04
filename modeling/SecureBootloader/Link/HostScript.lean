import SecureBootloader.Boot.VerdictInv
import SecureBootloader.Link.TransferInv
import SecureBootloader.Updater.Main

/-!
# What `main` says, in order

The packets of `main` for an image are the same in every run; what differs is how far
it gets, and that is a number. It says each of them, from the second on, behind one more
packet that it has heard.
-/

namespace SecureBootloader

/-! ## The script -/

/-- The packets `main` sends for an image, in order. -/
def script (fwImage : List Byte) : List CommsPacket :=
  Updater.fwUpdateReqPacket :: Updater.devIDPacket fwImage :: Updater.fwLengthPacket fwImage ::
    dataPackets fwImage

theorem script_length (fwImage : List Byte) :
    (script fwImage).length = 3 + (fwImage.length + 15) / 16 := by
  show (dataPackets fwImage).length + 1 + 1 + 1 = _
  rw [dataPackets, List.length_map, List.length_range]
  omega

/-- A packet whose length byte is not one is no control packet. -/
theorem frameKind_newPacket {length : Byte} {data : List Byte} (ne : length ≠ 1) :
    frameKind (Updater.newPacket length data none) = .packet := by
  have intact := Updater.newPacket_crc length data
  have single (byte : Byte) :
      commsIsSingleBytePacket (Updater.newPacket length data none) byte = false := if_pos ne
  rw [frameKind, if_pos intact, single, single]
  rfl

/-- No packet the host makes is corrupt. -/
theorem newPacket_intact (length : Byte) (data : List Byte) :
    frameKind (Updater.newPacket length data none) ≠ .corrupt := by
  rw [frameKind, if_pos (Updater.newPacket_crc length data)]
  split
  · nofun
  · split <;> nofun

section Script

variable {fwImage : List Byte}

/-- Every data packet but the last is a packet to the bootloader. -/
theorem dataPacket_kind {k : Nat} (more : 16 * (k + 1) < fwImage.length) :
    frameKind (Updater.dataPacket fwImage (16 * k)) = .packet := by
  have whole : ((fwImage.drop (16 * k)).take 16).length = 16 := by
    rw [chunk_size]
    omega
  have long (byte : Byte) : (fwImage.drop (16 * k)).take 16 ≠ [byte, 0xff] := by
    intro same
    rw [same] at whole
    cases whole
  rw [dataPacket_eq]
  exact (frameKind_chunkPacket (by omega) (by omega)).mpr ⟨long _, long _⟩

theorem script_intact : ∀ packet ∈ script fwImage, frameKind packet ≠ .corrupt := by
  intro packet member
  rw [script, List.mem_cons, List.mem_cons, List.mem_cons] at member
  rcases member with rfl | rfl | rfl | member
  · exact newPacket_intact _ _
  · exact newPacket_intact _ _
  · exact newPacket_intact _ _
  · obtain ⟨k, -, rfl⟩ := List.mem_map.mp member
    exact newPacket_intact _ _

/-- Every packet of the script but the last is a packet to the bootloader. -/
theorem script_kind {i : Nat} (more : i + 1 < (script fwImage).length) {packet : CommsPacket}
    (here : (script fwImage)[i]? = some packet) : frameKind packet = .packet := by
  rw [script_length] at more
  rcases i with _ | _ | _ | k
  · obtain rfl : Updater.fwUpdateReqPacket = packet := Option.some.inj here
    decide +kernel
  · obtain rfl : Updater.devIDPacket fwImage = packet := Option.some.inj here
    exact frameKind_newPacket (by decide)
  · obtain rfl : Updater.fwLengthPacket fwImage = packet := Option.some.inj here
    exact frameKind_newPacket (by decide)
  · change (dataPackets fwImage)[k]? = some packet at here
    rw [dataPackets_getElem? (by omega)] at here
    rw [← Option.some.inj here]
    exact dataPacket_kind (by omega)

end Script

/-! ## How far `main` is -/

namespace Updater.MainState

/-- How many packets of the script `main` has sent. -/
def said (m : MainState) : Nat :=
  match m.stage with
  | .fwUpdateReq => 0
  | .fwUpdateRes | .deviceIdReq => 1
  | .fwLengthReq => 2
  | .fwData => 3 + m.host.chunksSent

/-- How many packets `main` has taken out of the queue to get there. -/
def heard (m : MainState) : Nat :=
  match m.stage with
  | .fwUpdateReq | .fwUpdateRes => 0
  | .deviceIdReq => 1
  | .fwLengthReq => 2
  | .fwData => 3 + m.host.chunksSent

/-- From the second packet on there is one heard for each one said. -/
theorem said_le_heard (m : MainState) : m.said ≤ 1 ∨ m.said ≤ m.heard := by
  unfold said heard
  cases m.stage with
  | fwUpdateReq => exact .inl (Nat.zero_le 1)
  | fwUpdateRes => exact .inl (Nat.le_refl 1)
  | deviceIdReq => exact .inl (Nat.le_refl 1)
  | fwLengthReq => exact .inr (Nat.le_refl 2)
  | fwData => exact .inr (Nat.le_refl _)

end Updater.MainState

open Updater (MainState)

/-- A host that sends `fwImage`, whole chunks so far, and none before the transfer. -/
structure MainOk (fwImage : List Byte) (m : MainState) : Prop where
  image : m.host.fwImage = fwImage
  written : m.host.byteWritten = min (16 * m.host.chunksSent) m.host.fwImage.length
  early : m.stage ≠ .fwData → m.host.byteWritten = 0 ∧
    (m.host.phase = .transfer ∨ m.host.phase = .exited)

/-- What a step of `main` does: nothing; take some packets, none of them a verdict, and
say the next ones of the script; or end. -/
inductive MainMoves (fwImage : List Byte) (m m' : MainState) (obs : Trace) : Prop
  | rests (same : m' = m) (silent : obs.sent = [])
  | goes (heard said : List CommsPacket)
      (listening : m.host.Listening ∧ m'.host.Listening)
      (packets : m.host.link.packets = heard ++ m'.host.link.packets)
      (rx : m'.host.link.rxBuffer = m.host.link.rxBuffer)
      (hears : m'.heard = m.heard + heard.length)
      (undecided : ∀ packet ∈ heard, ¬IsVerdict packet)
      (sent : obs.sent = said) (count : m'.said = m.said + said.length)
      (scripted : said <+: (script fwImage).drop m.said)
  | ends (listening : m.host.Listening) (ended : ¬m'.host.Listening) (silent : obs.sent = [])
      (count : m'.said = m.said)
      (success : m'.host.phase = .finished → ∃ packet ∈ m.host.link.packets,
        Updater.isSingleBytePacket packet blPacketUpdateSuccessfulData0 = true)

theorem not_verdict_of_data0 {packet : CommsPacket} {byte : Byte} (data0 : packet.dataAt 0 = byte)
    (other : byte ≠ blPacketUpdateSuccessfulData0 ∧ byte ≠ blPacketNackData0) :
    ¬IsVerdict packet := by
  rintro (rfl | rfl)
  · exact other.1 (data0.symm.trans (dataAt_single _))
  · exact other.2 (data0.symm.trans (dataAt_single _))

section Moves

variable {fwImage : List Byte} {m : MainState}

theorem MainOk.transfer (ok : MainOk fwImage m) (early : m.stage ≠ .fwData)
    (running : m.host.phase ≠ .exited) : m.host.phase = .transfer :=
  (ok.early early).2.resolve_right running

/-- The element at a place is the front of what follows it. -/
theorem singleton_prefix_drop {l : List CommsPacket} {i : Nat} {packet : CommsPacket}
    (here : l[i]? = some packet) : [packet] <+: l.drop i := by
  obtain ⟨inside, rfl⟩ := List.getElem?_eq_some_iff.mp here
  rw [List.drop_eq_getElem_cons inside]
  exact List.prefix_append [_] _

/-- `waitForSingleBytePacket` in the handshake: no packet, another one, or the one it waits
for, and then what follows. -/
theorem awaits_moves {byte : Byte} {follow : MainState → MainState × Trace}
    (transfer : m.host.phase = .transfer)
    (other : byte ≠ blPacketUpdateSuccessfulData0 ∧ byte ≠ blPacketNackData0)
    (said : List CommsPacket) (scripted : said <+: (script fwImage).drop m.said)
    (follows : ∀ packets, ∃ next : MainState × Trace,
      follow { m with host := m.host.withPackets packets } = next ∧ next.1.host.Listening ∧
        next.1.host.link.packets = packets ∧
        next.1.host.link.rxBuffer = m.host.link.rxBuffer ∧ next.1.heard = m.heard + 1 ∧
        next.2.sent = said ∧ next.1.said = m.said + said.length) :
    MainMoves fwImage m (m.awaits byte follow).1 (m.awaits byte follow).2 := by
  unfold MainState.awaits
  split
  · exact .rests rfl rfl
  · next packet packets queue =>
    dsimp only
    split
    · exact .ends (.inl transfer) (by rintro (h | h) <;> cases h) rfl rfl nofun
    · next expected =>
      rw [not_or, not_not, not_not] at expected
      obtain ⟨next, same, listening, rest, rx, hears, sent, count⟩ := follows packets
      have undecided : ∀ p ∈ [packet], ¬IsVerdict p := by
        intro p member
        rw [List.mem_singleton.mp member]
        exact not_verdict_of_data0 expected.2 other
      rw [Updater.Host.withPackets] at same
      rw [same]
      exact .goes [packet] said ⟨.inl transfer, listening⟩ (by rw [queue, rest]; rfl) rx hears
        undecided sent count scripted

/-- The transfer loop and the wait for the verdict. -/
theorem fwData_moves (ok : MainOk fwImage m) (stage : m.stage = .fwData) :
    MainMoves fwImage m { m with host := (Updater.hostMain m.host).1 }
      (Updater.hostMain m.host).2 := by
  have said (host : Updater.Host) : ({ m with host := host } : MainState).said =
      3 + host.chunksSent := by rw [MainState.said, stage]
  have heard (host : Updater.Host) : ({ m with host := host } : MainState).heard =
      3 + host.chunksSent := by rw [MainState.heard, stage]
  have moves := hostMain_moves m.host
  generalize Updater.hostMain m.host = r at moves ⊢
  cases moves with
  | rests => exact .rests rfl rfl
  | sent phase all =>
    refine .goes [] [] ⟨.inl phase, .inr rfl⟩ rfl rfl ?_ nofun rfl ?_ List.nil_prefix
    · exact (heard _).trans (heard m.host).symm
    · exact (said _).trans (said m.host).symm
  | chunk packet packets phase more queue ready =>
    obtain ⟨-, count, sent, inside⟩ :=
      sendChunk_next (h := m.host.withPackets packets) ok.written more
    refine .goes [packet] [Updater.dataPacket m.host.fwImage (16 * m.host.chunksSent)]
      ⟨.inl phase, .inl phase⟩ queue rfl ?_ ?_ sent ?_ ?_
    · rw [heard, count]
      exact congrArg (· + 1) (heard m.host).symm
    · intro p member
      rw [List.mem_singleton.mp member]
      exact not_verdict_of_data0 ready.2 (by decide)
    · rw [said, count]
      exact congrArg (· + 1) (said m.host).symm
    · have next : (script fwImage)[m.said]? =
          some (Updater.dataPacket m.host.fwImage (16 * m.host.chunksSent)) := by
        rw [show m.said = m.host.chunksSent + 3 from (said m.host).trans (Nat.add_comm ..)]
        rw [← ok.image]
        exact dataPackets_getElem? inside
      exact singleton_prefix_drop next
  | success packet packets phase queue successful =>
    refine .ends (.inr phase) (by rintro (h | h) <;> cases h) rfl ?_ ?_
    · exact (said _).trans (said m.host).symm
    · exact fun _ => ⟨packet, queue ▸ List.mem_cons_self, successful⟩
  | exits packets listening =>
    exact .ends listening (by rintro (h | h) <;> cases h) rfl
      ((said _).trans (said m.host).symm) nofun

theorem mainStep_moves (ok : MainOk fwImage m) :
    MainMoves fwImage m (Updater.mainStep m).1 (Updater.mainStep m).2 := by
  unfold Updater.mainStep
  by_cases exited : m.host.phase = .exited
  · rw [if_pos exited]
    exact .rests rfl rfl
  · rw [if_neg exited]
    have early (stage : m.stage ≠ .fwData) := ok.transfer stage exited
    cases stage : m.stage with
    | fwUpdateReq =>
      have transfer := early (by rw [stage]; decide)
      have said : m.said = 0 := by rw [MainState.said, stage]
      have heard : m.heard = 0 := by rw [MainState.heard, stage]
      refine .goes [] [Updater.fwUpdateReqPacket] ⟨.inl transfer, .inl transfer⟩ rfl rfl
        heard.symm nofun rfl ?_ ?_
      · rw [said]
        rfl
      · rw [said]
        exact singleton_prefix_drop rfl
    | fwUpdateRes =>
      have transfer := early (by rw [stage]; decide)
      have said : m.said = 1 := by rw [MainState.said, stage]
      have heard : m.heard = 0 := by rw [MainState.heard, stage]
      refine awaits_moves transfer (by decide) [] List.nil_prefix fun packets => ?_
      rw [said, heard]
      exact ⟨_, rfl, .inl transfer, rfl, rfl, rfl, rfl, rfl⟩
    | deviceIdReq =>
      have transfer := early (by rw [stage]; decide)
      have said : m.said = 1 := by rw [MainState.said, stage]
      have heard : m.heard = 1 := by rw [MainState.heard, stage]
      refine awaits_moves transfer (by decide) [Updater.devIDPacket m.host.fwImage] ?_
        fun packets => ?_
      · rw [said, ok.image]
        exact singleton_prefix_drop rfl
      · rw [said, heard]
        exact ⟨_, rfl, .inl transfer, rfl, rfl, rfl, rfl, rfl⟩
    | fwLengthReq =>
      have transfer := early (by rw [stage]; decide)
      have said : m.said = 2 := by rw [MainState.said, stage]
      have heard : m.heard = 2 := by rw [MainState.heard, stage]
      have none : m.host.chunksSent = 0 := by
        rw [Updater.Host.chunksSent, (ok.early (by rw [stage]; decide)).1]
      refine awaits_moves transfer (by decide) [Updater.fwLengthPacket m.host.fwImage] ?_
        fun packets => ?_
      · rw [said, ok.image]
        exact singleton_prefix_drop rfl
      · rw [said, heard]
        exact ⟨_, rfl, .inl transfer, rfl, rfl, congrArg (3 + ·) none, rfl,
          congrArg (3 + ·) none⟩
    | fwData =>
      dsimp only
      rw [← stage]
      exact fwData_moves ok stage

/-- `process.exit` while something is waited for. -/
theorem exits_moves (listening : m.host.Listening) : MainMoves fwImage m m.exits [] :=
  .ends listening (by rintro (h | h) <;> cases h) rfl rfl nofun

/-- A timeout ends `main`, or there is nothing it waits for. -/
theorem mainTimeout_eq (m : MainState) (ok : MainOk fwImage m) :
    Updater.mainTimeout m = m ∨ m.host.Listening ∧ Updater.mainTimeout m = m.exits := by
  have early (stage : m.stage ≠ .fwData) : m.exits = m ∨ m.host.Listening := by
    rcases (ok.early stage).2 with transfer | exited
    · exact .inr (.inl transfer)
    · refine .inl ?_
      show MainState.mk m.stage { m.host with phase := .exited } = m
      rw [← exited]
  unfold Updater.mainTimeout
  cases stage : m.stage with
  | fwUpdateReq => exact .inl rfl
  | fwUpdateRes => exact (early (by rw [stage]; decide)).imp_right fun waits => ⟨waits, rfl⟩
  | deviceIdReq => exact (early (by rw [stage]; decide)).imp_right fun waits => ⟨waits, rfl⟩
  | fwLengthReq => exact (early (by rw [stage]; decide)).imp_right fun waits => ⟨waits, rfl⟩
  | fwData =>
    dsimp only
    rw [← stage]
    unfold Updater.hostTimeout
    split
    · next phase =>
      split
      · exact .inr ⟨.inl phase, rfl⟩
      · exact .inl rfl
    · next phase => exact .inr ⟨.inr phase, rfl⟩
    · exact .inl rfl

theorem mainTimeout_moves (ok : MainOk fwImage m) :
    MainMoves fwImage m (Updater.mainTimeout m) [] := by
  rcases mainTimeout_eq m ok with same | ⟨listening, same⟩
  · exact .rests same rfl
  · rw [same]
    exact exits_moves listening

/-! ## What stays -/

/-- The link layer plays no part in how far `main` is. -/
theorem MainOk.withLink (ok : MainOk fwImage m) (link : Updater.HostLink) :
    MainOk fwImage { m with host := { m.host with link := link } } :=
  ⟨ok.image, ok.written, ok.early⟩

theorem MainOk.exits (ok : MainOk fwImage m) : MainOk fwImage m.exits :=
  ⟨ok.image, ok.written, fun stage => ⟨(ok.early stage).1, .inr rfl⟩⟩

/-- On to another stage of the handshake, or to the transfer. -/
theorem MainOk.next (ok : MainOk fwImage m) (early : m.stage ≠ .fwData) (stage : Updater.MainStage)
    (link : Updater.HostLink) : MainOk fwImage ⟨stage, { m.host with link := link }⟩ :=
  ⟨ok.image, ok.written, fun _ => ok.early early⟩

theorem MainOk.awaits (ok : MainOk fwImage m) {byte : Byte}
    {follow : MainState → MainState × Trace}
    (follows : ∀ packets, MainOk fwImage
      (follow { m with host := m.host.withPackets packets }).1) :
    MainOk fwImage (m.awaits byte follow).1 := by
  unfold MainState.awaits
  split
  · exact ok
  · next packet packets queue =>
    dsimp only
    split
    · exact (ok.withLink _).exits
    · exact follows packets

theorem MainOk.step (ok : MainOk fwImage m) : MainOk fwImage (Updater.mainStep m).1 := by
  unfold Updater.mainStep
  by_cases exited : m.host.phase = .exited
  · rw [if_pos exited]
    exact ok
  · rw [if_neg exited]
    have next (early : m.stage ≠ .fwData) {link : Updater.HostLink} {stage : Updater.MainStage} :=
      ok.next early stage link
    cases stage : m.stage with
    | fwUpdateReq => exact next (by rw [stage]; decide)
    | fwUpdateRes => exact ok.awaits fun packets => next (by rw [stage]; decide)
    | deviceIdReq => exact ok.awaits fun packets => next (by rw [stage]; decide)
    | fwLengthReq => exact ok.awaits fun packets => next (by rw [stage]; decide)
    | fwData =>
      have late {host : Updater.Host} (image : host.fwImage = m.host.fwImage)
          (written : host.byteWritten = min (16 * host.chunksSent) host.fwImage.length) :
          MainOk fwImage { m with host := host } :=
        ⟨image.trans ok.image, written, fun early => absurd stage early⟩
      dsimp only
      rw [← stage]
      have moves := hostMain_moves m.host
      generalize Updater.hostMain m.host = r at moves ⊢
      cases moves with
      | rests => exact ok
      | sent => exact late rfl ok.written
      | chunk packet packets phase more queue ready =>
        exact late rfl (sendChunk_next (h := m.host.withPackets packets) ok.written more).1
      | success => exact late rfl ok.written
      | exits => exact late rfl ok.written

theorem MainOk.timeout (ok : MainOk fwImage m) : MainOk fwImage (Updater.mainTimeout m) := by
  rcases mainTimeout_eq m ok with same | ⟨-, same⟩
  · exact same.symm ▸ ok
  · exact same.symm ▸ ok.exits

end Moves

end SecureBootloader
