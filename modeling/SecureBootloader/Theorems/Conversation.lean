import SecureBootloader.Boot.Serving
import SecureBootloader.Theorems.FlashGuard

/-!
# The bootloader as a server

Whatever arrives and however the interrupts fall, what the bootloader does is what the
server does with the bytes it has heard and the packets it has taken. So its words follow
the script, and its flash and its verdict depend on those packets alone, as long as no erase
is still to be made.
-/

namespace SecureBootloader

/-- The bootloader and what its main program has said. -/
def talkStep (drv : FlashDriver) (validate : Flash → Option Bool) (s : Boot × List CommsPacket)
    (e : BootEvent) : Boot × List CommsPacket :=
  (bootStep drv validate s.1 e,
    s.2 ++ s.1.session.wordsTo (bootStep drv validate s.1 e).session)

/-- What the main program has said in a run. -/
def spoken (drv : FlashDriver) (validate : Flash → Option Bool) (flash0 : Flash)
    (es : List BootEvent) : List CommsPacket :=
  (Lib.Run.run (talkStep drv validate) (bootInit flash0, []) es).2

/-! ## Every run is one of the server -/

theorem wordsTo_self (v : Session) : v.wordsTo v = [] := by
  unfold Session.wordsTo
  split
  · rfl
  · exact List.drop_length

/-- The bootloader with what it has said matches the server. -/
def Talks (flash0 : Flash) (s : Boot × List CommsPacket) (t : Server) : Prop :=
  SessionInv flash0 s.1.session ∧ Matches flash0 s.1.session s.2 t

section Runs

variable (drv : FlashDriver) (validate : Flash → Option Bool) (flash0 : Flash)
  (es : List BootEvent)

theorem talk_boot (s : Boot × List CommsPacket) :
    (Lib.Run.run (talkStep drv validate) s es).1 = Lib.Run.run (bootStep drv validate) s.1 es := by
  induction es generalizing s with
  | nil => rfl
  | cons e es ih => exact ih (talkStep drv validate s e)

variable {flash0} in
theorem Talks.follows (s : Boot × List CommsPacket) (t : Server) (e : BootEvent)
    (h : Talks flash0 s t) : ∃ inputs,
      (talkStep drv validate s e).1.trace.taken =
        s.1.trace.taken ++ inputs.filterMap Input.packet? ∧
      Lib.Run.Meets (Server.serve validate flash0) Server.Attends t inputs ∧
      Talks flash0 (talkStep drv validate s e)
        (Lib.Run.run (Server.serve validate flash0) t inputs) := by
  obtain ⟨inv, same⟩ := h
  rcases bootStep_session drv validate s.1 e with still | ⟨-, step⟩
  · refine ⟨[], ?_, trivial, ?_⟩
    · rw [List.filterMap_nil, List.append_nil]
      exact congrArg (fun v : Session => v.trace.taken) still
    · show SessionInv flash0 (bootStep drv validate s.1 e).session ∧
        Matches flash0 (bootStep drv validate s.1 e).session (s.2 ++ _) t
      rw [still, wordsTo_self, List.append_nil]
      exact ⟨inv, same⟩
  · obtain ⟨inputs, next⟩ := same.step inv step
    exact ⟨inputs, next.taken, next.attends, inv.step step, next.same⟩

theorem run_served : ∃ inputs,
    (bootRun drv validate flash0 es).trace.taken = inputs.filterMap Input.packet? ∧
      Lib.Run.Meets (Server.serve validate flash0) Server.Attends .start inputs ∧
      Matches flash0 (bootRun drv validate flash0 es).session (spoken drv validate flash0 es)
        (Server.after validate flash0 inputs) := by
  obtain ⟨inputs, taken, attends, -, same⟩ := Lib.Run.run_simulates
    (fun s : Boot × List CommsPacket => s.1.trace.taken) Input.packet?
    (Talks.follows drv validate)
    (show Talks flash0 (bootInit flash0, []) .start from
      ⟨SessionInv.init flash0, Matches.init flash0⟩) es
  rw [talk_boot] at taken same
  exact ⟨inputs, taken, attends, same⟩

/-- The bootloader refines the server: in every run there are inputs to which a server attends,
among them the packets the bootloader has taken and the bytes it has heard, such that the
bootloader stands where the server then stands, has said its words but for one at most, and
has its flash, unless the erase is still to be made. -/
theorem boot_refines_server : ∃ inputs, ∃ owed : List CommsPacket,
    Lib.Run.Meets (Server.serve validate flash0) Server.Attends .start inputs ∧
    (bootRun drv validate flash0 es).trace.taken = inputs.filterMap Input.packet? ∧
    (bootRun drv validate flash0 es).trace.heard = (Server.after validate flash0 inputs).heard ∧
    (bootRun drv validate flash0 es).session.StandsAt (Server.after validate flash0 inputs).stage ∧
    spoken drv validate flash0 es ++ owed =
      (Server.after validate flash0 inputs).said.map commsCreateSingleBytePacket ∧
    owed.length ≤ 1 ∧
    ((bootRun drv validate flash0 es).bootloaderState ≠ .eraseApplication →
      (bootRun drv validate flash0 es).flash =
        (Server.after validate flash0 inputs).flash flash0) := by
  obtain ⟨inputs, taken, attends, same⟩ := run_served drv validate flash0 es
  refine ⟨inputs, _, attends, taken, same.heard.symm, same.stands, same.said, ?_, same.flash⟩
  rw [List.length_map]
  exact owes_length _

/-! ## The script -/

/-- In every run the main program has said a front part of the script, with one call for data
for the erase and one for every accepted chunk; the success comes only in the place of the
last of these calls, and a NACK only as the last word. -/
theorem words_on_script : ∃ words,
    spoken drv validate flash0 es = words.map commsCreateSingleBytePacket ∧
      Server.InScript (bootRun drv validate flash0 es).trace.accepted.length words := by
  obtain ⟨inputs, -, -, same⟩ := run_served drv validate flash0 es
  obtain ⟨words, owed, all, said, -⟩ := List.map_eq_append_iff.mp same.said.symm
  have script := (Server.after_onScript validate flash0 inputs).inScript
  have count := congrArg List.length same.chunks
  rw [List.length_map] at count
  rw [count] at script
  exact ⟨words, said.symm, script.front ⟨owed, all.symm⟩⟩

/-! ## The packets alone -/

/-- The flash is that of the packets taken, and the way out that of the flash. -/
theorem run_given (settled : (bootRun drv validate flash0 es).bootloaderState ≠ .eraseApplication) :
    (bootRun drv validate flash0 es).flash = (Server.given validate flash0
        (bootRun drv validate flash0 es).trace.taken).flash flash0 ∧
      ((bootRun drv validate flash0 es).pc = .gone →
        (bootRun drv validate flash0 es).trace.getLast? =
          some (.wayOut (validate (bootRun drv validate flash0 es).flash))) := by
  obtain ⟨inputs, taken, attends, same⟩ := run_served drv validate flash0 es
  have store := Server.after_fromPackets attends
  have flash : (bootRun drv validate flash0 es).flash =
      (Server.after validate flash0 inputs).flash flash0 := same.flash settled
  refine ⟨?_, fun gone => ?_⟩
  · rw [flash, taken]
    exact store.flash
  · have stands := same.stands
    rw [Session.StandsAt,
      if_pos (show (bootRun drv validate flash0 es).session.pc = .gone from gone)] at stands
    obtain ⟨verdict, stage, last⟩ := stands
    rw [flash, ← store.verdict stage]
    exact last

end Runs

/-- Two runs that have taken the same packets, neither of them in the state of the erase, have the
same flash, and go the same way if both have left the main loop: neither the schedule nor
anything that arrived besides, nor what the flash does during an operation, matters. The erase
takes no packet, so a run that has still to make it is behind one that has made it. -/
theorem same_packets_same_flash (drv drv' : FlashDriver) (validate : Flash → Option Bool)
    (flash0 : Flash) (es es' : List BootEvent)
    (taken : (bootRun drv validate flash0 es).trace.taken =
      (bootRun drv' validate flash0 es').trace.taken)
    (settled : (bootRun drv validate flash0 es).bootloaderState ≠ .eraseApplication)
    (settled' : (bootRun drv' validate flash0 es').bootloaderState ≠ .eraseApplication) :
    (bootRun drv validate flash0 es).flash = (bootRun drv' validate flash0 es').flash ∧
      ((bootRun drv validate flash0 es).pc = .gone → (bootRun drv' validate flash0 es').pc = .gone →
        (bootRun drv validate flash0 es).trace.getLast? =
          (bootRun drv' validate flash0 es').trace.getLast?) := by
  obtain ⟨flash, out⟩ := run_given drv validate flash0 es settled
  obtain ⟨flash', out'⟩ := run_given drv' validate flash0 es' settled'
  have same : (bootRun drv validate flash0 es).flash =
      (bootRun drv' validate flash0 es').flash := by
    rw [flash, taken, ← flash']
  refine ⟨same, fun gone gone' => ?_⟩
  rw [out gone, out' gone', same]

/-- The answers of a handshake in one go, with two ticks behind them. -/
def burstEvents (length : Byte) : List BootEvent :=
  .main :: syncBytes.map .rx ++ List.replicate 6 .main ++
    [packetOf 1 [blPacketFwUpdateReqData0], packetOf 2 [blPacketDeviceIdResData0, 0x42],
      packetOf 5 [blPacketFwLengthResData0, length, 0, 0, 0]].flatMap (·.bytes.map .rx) ++
    [.tick, .tick] ++ List.replicate 80 .main

/-- A handshake with every byte read as it arrives, and one in a burst. -/
theorem same_packets_same_flash_burst :
    handshakeRun.flash = (bootRun stm32Flash validateFlash (fun _ => 0) (burstEvents 0x20)).flash :=
  (same_packets_same_flash stm32Flash stm32Flash validateFlash (fun _ => 0) (handshakeEvents 0x20)
    (burstEvents 0x20) (by decide +kernel) (by decide +kernel) (by decide +kernel)).1

end SecureBootloader
