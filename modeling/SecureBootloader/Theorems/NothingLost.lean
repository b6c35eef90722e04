import SecureBootloader.Link.FreshStart

/-!
# Nothing is lost

During an update every byte that the host writes is read by the bootloader, waits in its
byte queue or is on the wire, in the order in which it was written, as long as the
bootloader is in its main loop; and there is always room for what is on the wire. Neither
side asks for a frame again, but for one image: if its last chunk is RETX and 0xff, the
data packet for it is the request itself.
-/

namespace SecureBootloader

/-- The bytes the host writes at an event. -/
def hostWrites (s : Exchange) : ExchangeEvent → List Byte
  | .hostData k =>
    (Updater.mainData s.main (s.toHost.take k)).2.sent.flatMap Updater.toBuffer
  | .hostMain => (Updater.mainStep s.main).2.sent.flatMap Updater.toBuffer
  | .bootRx | .bootTick | .bootMain | .hostTimeout => []

/-- The bytes that reach the receive handler of the host at an event. -/
def hostReads (s : Exchange) : ExchangeEvent → List Byte
  | .hostData k => s.toHost.take k
  | .bootRx | .bootTick | .bootMain | .hostMain | .hostTimeout => []

section Step

variable {drv : FlashDriver} {validate : Flash → Option Bool} {flash0 : Flash}
  {fwImage : List Byte} {n : Nat} {s : Exchange} {said : List (Option CommsPacket)}
  {arrived seen : List Byte}
  (inv : ExchangeInv drv validate flash0 fwImage n s said arrived seen)
include inv

/-- No event takes a byte off a wire without delivering it. -/
theorem ExchangeInv.conserves (e : ExchangeEvent) : ∃ said' arrived' seen',
    ExchangeInv drv validate flash0 fwImage n (exchangeStep drv validate s e) said' arrived'
      seen' ∧
    arrived' ++ (exchangeStep drv validate s e).toBoot = arrived ++ s.toBoot ++ hostWrites s e ∧
    seen' = seen ++ hostReads s e := by
  cases e with
  | bootRx =>
    obtain ⟨arrived', inv'⟩ := inv.bootRx
    refine ⟨said, arrived', seen, inv', ?_, (List.append_nil _).symm⟩
    rw [hostWrites, List.append_nil, inv.forward]
    exact inv'.forward
  | bootTick =>
    exact ⟨said, arrived, seen, inv.bootTick, (List.append_nil _).symm, (List.append_nil _).symm⟩
  | bootMain =>
    exact ⟨said, arrived, seen, inv.bootMain, (List.append_nil _).symm, (List.append_nil _).symm⟩
  | hostData k =>
    obtain ⟨said', seen', inv'⟩ := inv.hostData k
    refine ⟨said', arrived, seen', inv', (List.append_assoc ..).symm, ?_⟩
    have before := inv.backward
    have after : seen' ++ s.toHost.drop k = (s.boot.since n).sent.flatMap CommsPacket.bytes :=
      inv'.backward
    rw [← before, ← List.take_append_drop k s.toHost, ← List.append_assoc] at after
    rw [List.take_append_drop] at after
    exact List.append_cancel_right after
  | hostMain =>
    obtain ⟨said', inv'⟩ := inv.moves inv.main.step (mainStep_moves inv.main)
    exact ⟨said', arrived, seen, inv', (List.append_assoc ..).symm, (List.append_nil _).symm⟩
  | hostTimeout =>
    obtain ⟨said', inv'⟩ := inv.moves inv.main.timeout (mainTimeout_moves inv.main)
    have silent : s.hostDoes (Updater.mainTimeout s.main, []) =
        exchangeStep drv validate s .hostTimeout :=
      congrArg (Exchange.mk _ _ · _) (List.append_nil _)
    rw [silent] at inv'
    exact ⟨said', arrived, seen, inv', (List.append_nil _).symm, (List.append_nil _).symm⟩

/-- What the host has said and the bootloader has not read fits into the byte queue. -/
theorem ExchangeInv.room (live : s.boot.pc ≠ .gone) :
    s.boot.rxRingBuffer.held.length + s.toBoot.length ≤ 126 := by
  have ahead : said.length ≤ (s.boot.since n).commsBytes.length / 18 + 7 :=
    inv.scripted.ahead inv.boot.dialogue inv.boot.safe inv.read inv.answers inv.pace
  have held := congrArg List.length (inv.boot.held live)
  have all := congrArg List.length inv.forward
  rw [flatMap_bytes_length, wirePackets, List.length_map, List.length_append] at all
  rw [List.length_append] at held
  omega

/-- Every frame of the host is an ACK or one of the script. -/
theorem ExchangeInv.host_frames {frame : CommsPacket}
    (member : frame ∈ framesOf (arrived ++ s.toBoot)) :
    frame = ackPacket ∨ frame ∈ script fwImage := by
  rw [inv.forward, (framesOf_bytes _).1, wirePackets, List.mem_map] at member
  obtain ⟨packet, member, rfl⟩ := member
  cases packet with
  | none => exact .inl rfl
  | some packet =>
    exact .inr (inv.scripted.scripted.subset (List.reduceOption_mem_iff.mpr member))

end Step

/-- A data packet that reads as RETX: the image ends in a chunk of two bytes, 0x19 and 0xff. -/
structure AsksByChance (fwImage : List Byte) (frame : CommsPacket) : Prop where
  kind : frameKind frame = .retx
  last : frame = Updater.dataPacket fwImage (fwImage.length - 2)
  two : fwImage.length % 16 = 2
  chunk : fwImage.drop (fwImage.length - 2) = [packetRetxData0, 0xff]

theorem single_of_retx {packet : CommsPacket} (kind : frameKind packet = .retx) :
    commsIsSingleBytePacket packet packetRetxData0 = true := by
  by_contra other
  unfold frameKind at kind
  rw [if_neg other] at kind
  split at kind
  · split at kind <;> cases kind
  · cases kind

/-- Nothing in the script but such a chunk reads as RETX, and nothing as a corrupt frame. -/
theorem script_asks {fwImage : List Byte} {frame : CommsPacket} (member : frame ∈ script fwImage) :
    frameKind frame = .ack ∨ frameKind frame = .packet ∨ AsksByChance fwImage frame := by
  cases kind : frameKind frame with
  | ack => exact .inl rfl
  | packet => exact .inr (.inl rfl)
  | corrupt => exact absurd kind (script_intact frame member)
  | retx =>
    rw [script, List.mem_cons, List.mem_cons, List.mem_cons] at member
    rcases member with rfl | rfl | rfl | member
    · exact absurd kind (by decide +kernel)
    · exact absurd (kind.symm.trans (frameKind_newPacket (by decide))) (by decide)
    · exact absurd (kind.symm.trans (frameKind_newPacket (by decide))) (by decide)
    · obtain ⟨k, inside, rfl⟩ := List.mem_map.mp member
      rw [List.mem_range] at inside
      have size := chunk_size fwImage (16 * k)
      have chunk : (fwImage.drop (16 * k)).take 16 = [packetRetxData0, 0xff] := by
        rw [← chunkPacket_single (by omega) (by omega), ← dataPacket_eq]
        exact single_of_retx kind
      obtain ⟨two, place, same⟩ := chunk_pair chunk
      exact .inr (.inr ⟨kind, by rw [place], two, same⟩)

example : AsksByChance [0x19, 0xff] retxPacket := ⟨by decide +kernel, by decide +kernel, rfl, rfl⟩

/-- The update stands at `t`; the bootloader's record of it begins at entry `n`, the host has
written `written`, and `handed` has reached its receive handler. -/
structure NothingLost (fwImage : List Byte) (n : Nat) (t : Exchange)
    (written handed : List Byte) : Prop where
  toBoot : t.boot.pc ≠ .gone →
    (t.boot.since n).commsBytes ++ t.boot.rxRingBuffer.held ++ t.toBoot = written
  read : (t.boot.since n).commsBytes <+: written
  toHost : handed ++ t.toHost = (t.boot.since n).sent.flatMap CommsPacket.bytes
  room : t.boot.pc ≠ .gone → t.boot.rxRingBuffer.held.length + t.toBoot.length ≤ 126
  packets : .overrun ∉ t.boot.since n
  boot : ∀ frame ∈ (t.boot.since n).sent, frameKind frame = .ack ∨ frameKind frame = .packet
  host : ∀ frame ∈ framesOf written, frame = ackPacket ∨ frame ∈ script fwImage
  asks : ∀ frame ∈ framesOf written, frameKind frame = .ack ∨ frameKind frame = .packet ∨
    AsksByChance fwImage frame

section Run

variable {drv : FlashDriver} {validate : Flash → Option Bool} {flash0 : Flash}
  {fwImage : List Byte} {s : Exchange}

/-- In every state of every run of an update, in time or not: what the host has written is what
the bootloader has read since, what its byte queue holds and what is on the wire, one after
the other, and the byte queue has room for all of it; what has reached the host and what is
on the wire to it is what the bootloader has sent; the packet queue has never overrun; and
neither side has asked for a frame again, unless the last chunk of the image reads so. -/
theorem nothing_lost (start : ExchangeStart drv validate flash0 fwImage s)
    (es : List ExchangeEvent) :
    NothingLost fwImage s.boot.trace.length (Lib.Run.run (exchangeStep drv validate) s es)
      (s.toBoot ++ Lib.Run.emitted (exchangeStep drv validate) hostWrites s es)
      (Lib.Run.emitted (exchangeStep drv validate) hostReads s es) := by
  obtain ⟨said, arrived, seen, inv⟩ := start.inv
  obtain ⟨rfl, rfl⟩ := start.nothing_yet inv
  have keep (t : Exchange) (e : ExchangeEvent) (written handed : List Byte)
      (h : ∃ said arrived, ExchangeInv drv validate flash0 fwImage s.boot.trace.length t
        said arrived handed ∧ arrived ++ t.toBoot = written) :
      ∃ said arrived, ExchangeInv drv validate flash0 fwImage s.boot.trace.length
        (exchangeStep drv validate t e) said arrived (handed ++ hostReads t e) ∧
          arrived ++ (exchangeStep drv validate t e).toBoot = written ++ hostWrites t e := by
    obtain ⟨said, arrived, inv, rfl⟩ := h
    obtain ⟨said', arrived', seen', inv', same, rfl⟩ := inv.conserves e
    exact ⟨said', arrived', inv', same⟩
  obtain ⟨said, arrived, inv, all⟩ := Lib.Run.run_emits keep ⟨said, [], inv, rfl⟩ es
  have frames : ∀ frame ∈ framesOf (arrived ++ _), frame = ackPacket ∨ frame ∈ script fwImage :=
    fun _ => inv.host_frames
  rw [all] at frames
  refine ⟨?_, ?_, inv.backward, inv.room, inv.boot.safe, inv.boot.dialogue.kinds, ?_, ?_⟩
  · intro live
    rw [inv.boot.held live]
    exact all
  · exact inv.boot.read.trans ⟨_, all⟩
  · exact frames
  · intro frame member
    rcases frames frame member with rfl | scripted
    · exact .inl frameKind_ackPacket
    · exact script_asks scripted

end Run

/-- The start of an update with an image of three chunks. -/
def shortUpdate : Exchange :=
  freshExchange stm32Flash validateFlash (fun _ => 0) (List.replicate 40 0x5a)

theorem nothing_lost_shortUpdate :
    NothingLost (List.replicate 40 0x5a) shortUpdate.boot.trace.length
      (Lib.Run.run (exchangeStep stm32Flash validateFlash) shortUpdate promptRound)
      (shortUpdate.toBoot ++
        Lib.Run.emitted (exchangeStep stm32Flash validateFlash) hostWrites shortUpdate promptRound)
      (Lib.Run.emitted (exchangeStep stm32Flash validateFlash) hostReads shortUpdate
        promptRound) :=
  nothing_lost (freshExchange_start stm32Flash validateFlash (fun _ => 0) _) promptRound

end SecureBootloader
