import SecureBootloader.Boot.Dialogue
import SecureBootloader.Link.HostScript
import Mathlib.Data.List.ReduceOption

/-!
# An update from the request to the verdict

The bootloader of `bootloader.c` with its interrupts and `main` of `index.ts` with its
receive handler, and a wire in each direction that delivers every byte in order. A byte
for the bootloader goes through its byte queue; the host gets any number of bytes in one
`data` event.
-/

namespace SecureBootloader

/-- The two programs and the bytes in flight. -/
structure Exchange where
  boot : Boot
  main : Updater.MainState
  toBoot : List Byte
  toHost : List Byte

/-- What can happen during an update. -/
inductive ExchangeEvent where
  | bootRx
  | bootTick
  | bootMain
  | hostData (n : Nat)
  | hostMain
  | hostTimeout
  deriving DecidableEq, Repr

namespace Exchange

section Steps

variable (drv : FlashDriver) (validate : Flash → Option Bool)

/-- The bootloader goes through an event; what it sends goes on the wire. -/
def bootDoes (s : Exchange) (e : BootEvent) : Exchange :=
  let boot := bootStep drv validate s.boot e
  { s with
    boot := boot
    toHost := s.toHost ++
      (boot.trace.sent.drop s.boot.trace.sent.length).flatMap CommsPacket.bytes }

/-- The next byte reaches the receive interrupt. -/
def bootRx (s : Exchange) : Exchange :=
  match s.toBoot with
  | [] => s
  | byte :: toBoot => { s with toBoot := toBoot }.bootDoes drv validate (.rx byte)

end Steps

/-- What the host sends goes on the wire. -/
def hostDoes (s : Exchange) (r : Updater.MainState × Trace) : Exchange :=
  { s with main := r.1, toBoot := s.toBoot ++ r.2.sent.flatMap Updater.toBuffer }

/-- The next `n` bytes reach the host, or those there are. -/
def hostData (s : Exchange) (n : Nat) : Exchange :=
  { s with toHost := s.toHost.drop n }.hostDoes (Updater.mainData s.main (s.toHost.take n))

end Exchange

def exchangeStep (drv : FlashDriver) (validate : Flash → Option Bool) (s : Exchange) :
    ExchangeEvent → Exchange
  | .bootRx => s.bootRx drv validate
  | .bootTick => s.bootDoes drv validate .tick
  | .bootMain => s.bootDoes drv validate .main
  | .hostData n => s.hostData n
  | .hostMain => s.hostDoes (Updater.mainStep s.main)
  | .hostTimeout => { s with main := Updater.mainTimeout s.main }

/-- The start of an update: the bootloader waits for the request, whatever happened
before, between two frames and with nothing unread; the host has taken SYNC_OBSERVED and
nothing else is there; on the wires there is at most the ACK of SYNC_OBSERVED. -/
structure ExchangeStart (drv : FlashDriver) (validate : Flash → Option Bool) (flash0 : Flash)
    (fwImage : List Byte) (s : Exchange) : Prop where
  run : ∃ es, s.boot = bootRun drv validate flash0 es
  waiting : s.boot.bootloaderState = .waitForFwUpdateReq
  read : s.boot.rxRingBuffer.readIndex = s.boot.rxRingBuffer.writeIndex
  between : s.boot.comms.currentState = .length
  taken : commsPacketAvailable s.boot.comms = false
  stage : s.main.stage = .fwUpdateReq
  phase : s.main.host.phase = .transfer
  written : s.main.host.byteWritten = 0
  image : s.main.host.fwImage = fwImage
  packets : s.main.host.link.packets = []
  rx : s.main.host.link.rxBuffer = []
  toHost : s.toHost = []
  toBoot : s.toBoot = [] ∨ s.toBoot = ackPacket.bytes

/-! ## What is on the wire to the bootloader -/

/-- The packets of what the host has said, an ACK of its receive handler being `none`. -/
def wirePackets (said : List (Option CommsPacket)) : List CommsPacket :=
  said.map fun packet => packet.getD ackPacket

@[simp] theorem wirePackets_append (said more : List (Option CommsPacket)) :
    wirePackets (said ++ more) = wirePackets said ++ wirePackets more := List.map_append

theorem wirePackets_acks (k : Nat) :
    wirePackets (List.replicate k none) = List.replicate k ackPacket := List.map_replicate

theorem wirePackets_lines (lines : List CommsPacket) : wirePackets (lines.map some) = lines := by
  rw [wirePackets, List.map_map]
  exact List.map_id lines

/-- To the bootloader an ACK is nothing else. -/
theorem wirePackets_filter (said : List (Option CommsPacket)) {kind : Lib.Resend.Kind}
    (other : kind ≠ .ack) : (wirePackets said).filter (fun packet => frameKind packet = kind) =
      said.reduceOption.filter fun packet => frameKind packet = kind := by
  induction said with
  | nil => rfl
  | cons packet said ih =>
    cases packet with
    | none =>
      rw [List.reduceOption_cons_of_none, ← ih]
      refine List.filter_cons_of_neg ?_
      show ¬decide (frameKind ackPacket = kind) = true
      rw [frameKind_ackPacket]
      simpa using Ne.symm other
    | some packet =>
      rw [List.reduceOption_cons_of_some, List.filter_cons, ← ih]
      exact List.filter_cons

theorem said_length (said : List (Option CommsPacket)) :
    said.length = said.reduceOption.length + said.count none := by
  induction said with
  | nil => rfl
  | cons packet said ih =>
    cases packet with
    | none =>
      rw [List.reduceOption_cons_of_none, List.count_cons_self, List.length_cons, ih]
      rfl
    | some packet =>
      rw [List.reduceOption_cons_of_some, List.count_cons_of_ne (by simp), List.length_cons,
        List.length_cons, ih]
      omega

/-- The frames of the bytes of some packets, as far as they are there. -/
theorem framesOf_front {packets : List CommsPacket} {bytes : List Byte}
    (h : bytes <+: packets.flatMap CommsPacket.bytes) :
    framesOf bytes = packets.take (bytes.length / 18) := by
  obtain ⟨rest, all⟩ := h
  have frames := (framesOf_append bytes rest).1
  rw [all, (framesOf_bytes packets).1] at frames
  have count : (framesOf bytes).length = bytes.length / 18 := by
    rw [framesOf, List.length_map, List.length_range]
  rw [frames, ← count, List.take_left]

theorem flatMap_bytes_length (packets : List CommsPacket) :
    (packets.flatMap CommsPacket.bytes).length = 18 * packets.length := by
  induction packets with
  | nil => rfl
  | cons packet packets ih =>
    rw [List.flatMap_cons, List.length_append, packet.bytes_length, ih, List.length_cons]
    omega

theorem reduceOption_map_some (packets : List CommsPacket) :
    (packets.map some).reduceOption = packets := by
  rw [List.reduceOption, List.filterMap_map]
  exact List.filterMap_some

theorem reduceOption_front {front said : List (Option CommsPacket)} (h : front <+: said) :
    front.reduceOption <+: said.reduceOption := by
  obtain ⟨rest, rfl⟩ := h
  rw [List.reduceOption_append]
  exact List.prefix_append _ _

/-- From the second packet on there are as many ACKs in front as packets. -/
def Paced (said : List (Option CommsPacket)) : Prop :=
  ∀ front, front <+: said →
    front.reduceOption.length ≤ 1 ∨ front.reduceOption.length ≤ front.count none

/-- ACKs that were there before allow more packets. -/
theorem Paced.append {said more : List (Option CommsPacket)} (h : Paced said)
    (fits : (said ++ more).reduceOption.length ≤ 1 ∨
      (said ++ more).reduceOption.length ≤ said.count none) : Paced (said ++ more) := by
  intro front hprefix
  have lines := (reduceOption_front hprefix).length_le
  by_cases long : said.length ≤ front.length
  · have acks : said.count none ≤ front.count none :=
      ((List.prefix_of_prefix_length_le (List.prefix_append _ _) hprefix long).sublist).count_le _
    omega
  · exact h front (List.prefix_of_prefix_length_le hprefix (List.prefix_append _ _) (by omega))

/-- What the host has said: the script as far as `main` is, with ACKs in between. -/
structure HostSaid (fwImage : List Byte) (m : Updater.MainState)
    (said : List (Option CommsPacket)) : Prop where
  scripted : said.reduceOption <+: script fwImage
  count : said.reduceOption.length = m.said
  paced : Paced said

section HostSaid

variable {fwImage : List Byte} {m m' : Updater.MainState} {said : List (Option CommsPacket)}
  (h : HostSaid fwImage m said)
include h

/-- The receive handler says some ACKs. -/
theorem HostSaid.replies (same : m'.said = m.said) (k : Nat) :
    HostSaid fwImage m' (said ++ List.replicate k none) := by
  have lines : (said ++ List.replicate k none).reduceOption = said.reduceOption := by
    rw [List.reduceOption_append, List.reduceOption_replicate_none, List.append_nil]
  refine ⟨lines ▸ h.scripted, by rw [lines, h.count, same], h.paced.append ?_⟩
  rw [lines]
  exact h.paced said (List.prefix_refl said)

/-- `main` says the next packets of the script. -/
theorem HostSaid.goes {lines : List CommsPacket}
    (scripted : lines <+: (script fwImage).drop m.said) (count : m'.said = m.said + lines.length)
    (paced : m'.said ≤ 1 ∨ m'.said ≤ said.count none) :
    HostSaid fwImage m' (said ++ lines.map some) := by
  have all : (said ++ lines.map some).reduceOption = said.reduceOption ++ lines := by
    rw [List.reduceOption_append, reduceOption_map_some]
  have length : (said ++ lines.map some).reduceOption.length = m'.said := by
    rw [all, List.length_append, h.count, count]
  refine ⟨?_, length, h.paced.append (length ▸ paced)⟩
  rw [all, List.prefix_iff_eq_take.mp h.scripted, h.count]
  calc (script fwImage).take m.said ++ lines
      <+: (script fwImage).take m.said ++ (script fwImage).drop m.said :=
        (List.prefix_append_right_inj _).mpr scripted
    _ = script fwImage := List.take_append_drop _ _

end HostSaid

/-! ## What the bootloader makes of it -/

section Lines

variable {fwImage : List Byte} {lines : List CommsPacket} (h : lines <+: script fwImage)
include h

/-- As long as the script is not complete all of it are packets to the bootloader. -/
theorem lines_packets (short : lines.length < (script fwImage).length) :
    ∀ packet ∈ lines, frameKind packet = .packet := by
  intro packet member
  obtain ⟨i, inside, rfl⟩ := List.mem_iff_getElem.mp member
  exact script_kind (by omega) (List.prefix_iff_getElem?.mp h i inside)

/-- What the bootloader stores of it is a front part, and it takes one for a RETX at most. -/
theorem lines_stored : lines.filter (fun packet => frameKind packet = .packet) <+: lines ∧
    lines.countP (fun packet => frameKind packet = .retx) ≤ 1 ∧
    (lines.filter fun packet => frameKind packet = .packet).length +
      lines.countP (fun packet => frameKind packet = .retx) ≤ lines.length := by
  rcases List.eq_nil_or_concat lines with rfl | ⟨front, last, rfl⟩
  · exact ⟨List.prefix_refl [], Nat.zero_le 1, Nat.zero_le 0⟩
  · rw [List.concat_eq_append] at h ⊢
    have most := h.length_le
    rw [List.length_append, List.length_singleton] at most
    have packets := lines_packets ((List.prefix_append front [last]).trans h) most
    have stored : front.filter (fun packet => frameKind packet = .packet) = front :=
      List.filter_eq_self.mpr fun packet member => decide_eq_true (packets packet member)
    have none : front.countP (fun packet => frameKind packet = .retx) = 0 := by
      rw [List.countP_eq_zero]
      intro packet member
      simp [packets packet member]
    rw [List.filter_append, stored, List.countP_append, none, List.filter_singleton,
      List.countP_singleton]
    cases frameKind last <;> simp

end Lines

/-- What has been read is the front part `front` of what the host has said, and what
there is of a frame more. -/
structure ReadFront (said : List (Option CommsPacket)) (read : List Byte)
    (front : List (Option CommsPacket)) : Prop where
  isFront : front <+: said
  count : front.length = read.length / 18
  frames : framesOf read = wirePackets front
  stored : packetsOf read =
    front.reduceOption.filter fun packet => frameKind packet = .packet
  retx : retxFrames read =
    front.reduceOption.countP fun packet => frameKind packet = .retx

theorem readFront {said : List (Option CommsPacket)} {read : List Byte}
    (h : read <+: (wirePackets said).flatMap CommsPacket.bytes) :
    ReadFront said read (said.take (read.length / 18)) := by
  have frames : framesOf read = wirePackets (said.take (read.length / 18)) := by
    rw [framesOf_front h, wirePackets, wirePackets, List.map_take]
  have most := h.length_le
  rw [flatMap_bytes_length, wirePackets, List.length_map] at most
  refine ⟨List.take_prefix _ _, List.length_take_of_le (by omega), frames, ?_, ?_⟩
  · rw [packetsOf, frames, wirePackets_filter _ (by decide)]
  · rw [retxFrames, frames, List.countP_eq_length_filter, List.countP_eq_length_filter,
      wirePackets_filter _ (by decide)]

section ReadFront

variable {fwImage : List Byte} {m : Updater.MainState} {said : List (Option CommsPacket)}
  (h : HostSaid fwImage m said) {read : List Byte} {front : List (Option CommsPacket)}
  (r : ReadFront said read front)
include h r

theorem ReadFront.lines : front.reduceOption <+: script fwImage :=
  (reduceOption_front r.isFront).trans h.scripted

omit h in
/-- A frame that has been read is an ACK or one of the script. -/
theorem ReadFront.frame {frame : CommsPacket} (member : frame ∈ framesOf read) :
    frame = ackPacket ∨ frame ∈ front.reduceOption := by
  rw [r.frames, wirePackets, List.mem_map] at member
  obtain ⟨packet, member, rfl⟩ := member
  cases packet with
  | none => exact .inl rfl
  | some packet => exact .inr (List.reduceOption_mem_iff.mpr member)

/-- The packets stored are the first ones of the script. -/
theorem ReadFront.stored_front : packetsOf read <+: script fwImage := by
  rw [r.stored]
  exact (lines_stored (r.lines h)).1.trans (r.lines h)

theorem ReadFront.stored_length : (packetsOf read).length + retxFrames read ≤
    front.reduceOption.length ∧ retxFrames read ≤ 1 := by
  obtain ⟨-, one, both⟩ := lines_stored (r.lines h)
  rw [r.stored, r.retx]
  exact ⟨both, one⟩

/-- As long as the script is not complete nothing reads as a RETX. -/
theorem ReadFront.no_retx (short : m.said < (script fwImage).length) : retxFrames read = 0 := by
  have few := (reduceOption_front r.isFront).length_le
  rw [h.count] at few
  rw [r.retx, List.countP_eq_zero]
  intro packet member
  simp [lines_packets (r.lines h) (by omega) packet member]

end ReadFront

end SecureBootloader
