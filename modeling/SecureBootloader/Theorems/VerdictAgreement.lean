import SecureBootloader.Boot.VerdictInv
import SecureBootloader.Theorems.AnnouncedLength

/-!
# The verdict and the way out agree

A run that leaves the main loop has sent one verdict, as its last packet. Nothing
touches the flash after it, and the application is started exactly when the
validator accepts that flash.
-/

namespace SecureBootloader

/-! ## How much was programmed -/

/-- The bytes an operation programs. -/
def Obs.programmedData : Obs → List Byte
  | .programmed _ data => data
  | _ => []

/-- The bytes programmed so far. -/
def Trace.programmedBytes (t : Trace) : List Byte := t.flatMap Obs.programmedData

theorem flatMap_flashOps (t : Trace) :
    t.flashOps.flatMap Obs.programmedData = t.programmedBytes := by
  induction t with
  | nil => rfl
  | cons obs t ih =>
    have rest : (Trace.flashOps t).flatMap Obs.programmedData = t.flatMap Obs.programmedData := ih
    show List.flatMap Obs.programmedData ((obs :: t).filter Obs.modifiesFlash) =
      obs.programmedData ++ t.flatMap Obs.programmedData
    rw [← rest]
    cases obs <;> rfl

theorem writesFrom_data (address : Nat) (packets : List CommsPacket) :
    (writesFrom address packets).flatMap Obs.programmedData = packets.flatMap chunkOf := by
  induction packets generalizing address with
  | nil => rfl
  | cons packet packets ih =>
    rw [writesFrom, List.flatMap_cons, List.flatMap_cons, ih]
    rfl

/-- `bytes_written` counts the bytes programmed. -/
theorem SessionInv.programmedBytes_length {flash0 : Flash} {v : Session}
    (h : SessionInv flash0 v) : v.trace.programmedBytes.length = v.bytesWritten := by
  rw [← flatMap_flashOps]
  rcases h.cases with ⟨untouched, -⟩ | updating
  · rw [untouched.ops, untouched.count]
    rfl
  · rw [updating.ops, updating.count, List.flatMap_cons, writesFrom_data]
    rfl

/-! ## After the loop -/

/-- The main loop is over; the flash is `flash`. -/
structure Ended (flash : Flash) (s : Boot) : Prop where
  state : s.bootloaderState = .done
  pc : s.pc = .loop ∨ s.pc = .gone
  flash : s.flash = flash

section After

variable {drv : FlashDriver} {validate : Flash → Option Bool} {flash : Flash} {s : Boot}

theorem Ended.of_session {t : Boot} (h : Ended flash s) (same : t.session = s.session) :
    Ended flash t := by
  have state : t.session.bootloaderState = s.session.bootloaderState := by rw [same]
  have pc : t.session.pc = s.session.pc := by rw [same]
  have content : t.session.flash = s.session.flash := by rw [same]
  exact ⟨state.trans h.state, h.pc.imp pc.trans pc.trans, content.trans h.flash⟩

theorem leave_ended (h : Ended flash s) :
    Ended flash (s.leave validate) ∧ (s.leave validate).pc = .gone := by
  unfold Boot.leave
  cases validate s.flash with
  | none => exact ⟨⟨h.state, .inr rfl, h.flash⟩, rfl⟩
  | some accepted =>
    cases accepted with
    | true => exact ⟨⟨h.state, .inr rfl, h.flash⟩, rfl⟩
    | false => exact ⟨⟨h.state, .inr rfl, h.flash⟩, rfl⟩

/-- The next step of the main program goes to the application or resets the core. -/
theorem Ended.main (h : Ended flash s) : Ended flash (bootStep drv validate s .main) ∧
    (bootStep drv validate s .main).pc = .gone := by
  rcases h.pc with loop | gone
  · have out : bootStep drv validate s .main = s.leave validate := by
      rw [bootStep, Boot.mainStep, loop, h.state]
    rw [out]
    exact leave_ended h
  · have out : bootStep drv validate s .main = s := by rw [bootStep, Boot.mainStep, gone]
    rw [out]
    exact ⟨h, gone⟩

theorem Ended.step (h : Ended flash s) (e : BootEvent) :
    Ended flash (bootStep drv validate s e) := by
  rcases bootStep_session drv validate s e with same | ⟨rfl, -⟩
  · exact h.of_session same
  · exact h.main.1

/-- However long the run goes on, nothing touches the flash, and the first step of the
main program is its last. -/
theorem Ended.run (h : Ended flash s) (es : List BootEvent) :
    (Lib.Run.run (bootStep drv validate) s es).flash = flash ∧
      (.main ∈ es → (Lib.Run.run (bootStep drv validate) s es).pc = .gone) := by
  have after (t : Boot) (ended : Ended flash t) (rest : List BootEvent) :
      Ended flash (Lib.Run.run (bootStep drv validate) t rest) :=
    Lib.Run.run_invariant (fun _ e keep => keep.step e) ended rest
  refine ⟨(after s h es).flash, ?_⟩
  intro main
  obtain ⟨front, rest, rfl⟩ := List.append_of_mem main
  rw [Lib.Run.run_append, Lib.Run.run_cons]
  refine (Lib.Run.run_invariant (P := fun t => Ended flash t ∧ t.pc = .gone) ?_
    (after s h front).main rest).2
  rintro t e ⟨keep, off⟩
  refine ⟨keep.step e, ?_⟩
  cases e with
  | main => exact keep.main.2
  | rx byte => rw [bootStep, if_pos off, off]
  | tick => rw [bootStep, if_pos off, off]

end After

/-! ## Every run -/

/-- How a run ended that has left the main loop: the packets sent before the verdict
are no verdicts, nothing is sent after it, and what comes after it is the jump into the
application or the reset, as the validator finds the flash that was left. -/
structure Outcome (validate : Flash → Bool) (s : Boot) (before : Trace) (verdict : CommsPacket)
    (last : Obs) : Prop where
  trace : s.trace = before ++ [.sent verdict, last]
  isVerdict : IsVerdict verdict
  only : ∀ packet ∈ before.sent, ¬IsVerdict packet
  jumped : last = .jumped ↔ validate s.flash = true
  wasReset : last = .wasReset ↔ validate s.flash = false
  success : verdict = updateSuccessful →
    last = .jumped ∧ s.firmwareLength ≤ before.programmedBytes.length
  failure : verdict = nack → before.EndsInWrite → last = .wasReset

section Runs

variable (drv : FlashDriver) (validate : Flash → Bool) (flash0 : Flash)

/-- The run of a bootloader whose validator always ends. -/
abbrev verdictRun (es : List BootEvent) : Boot :=
  bootRun drv (fun flash => some (validate flash)) flash0 es

variable {validate} {drv} {flash0}

theorem Report.outcome {s : Boot} {before : Trace} {verdict : CommsPacket} {last : Obs}
    (h : Report validate s.session before verdict) (inv : SessionInv flash0 s.session)
    (trace : s.trace = before ++ [.sent verdict, last])
    (way : last = .jumped ∧ validate s.flash = true ∨
      last = .wasReset ∧ validate s.flash = false) : Outcome validate s before verdict last := by
  have count : s.trace.programmedBytes.length = s.bytesWritten := inv.programmedBytes_length
  have behind : s.trace.programmedBytes = before.programmedBytes := by
    rw [trace, Trace.programmedBytes, List.flatMap_append, ← Trace.programmedBytes]
    rcases way with ⟨rfl, -⟩ | ⟨rfl, -⟩
    · exact List.append_nil _
    · exact List.append_nil _
  rcases way with ⟨rfl, accepted⟩ | ⟨rfl, refused⟩
  · refine ⟨trace, h.isVerdict, h.only, ⟨fun _ => accepted, fun _ => rfl⟩, ⟨nofun, ?_⟩, ?_, ?_⟩
    · intro refused
      exact absurd (accepted.symm.trans refused) (by decide)
    · intro success
      refine ⟨rfl, ?_⟩
      rw [← behind, count]
      exact (h.success success).2
    · intro failure write
      exact absurd (accepted.symm.trans (h.failure failure write)) (by decide)
  · refine ⟨trace, h.isVerdict, h.only, ⟨nofun, ?_⟩, ⟨fun _ => refused, fun _ => rfl⟩, ?_, ?_⟩
    · intro accepted
      exact absurd (refused.symm.trans accepted) (by decide)
    · intro success
      exact absurd (refused.symm.trans (h.success success).1) (by decide)
    · intro _ _
      rfl

/-- Once a verdict is sent the loop is over. -/
theorem VerdictInv.ended {s : Boot} (h : VerdictInv validate s.session) {packet : CommsPacket}
    (sent : packet ∈ s.trace.sent) (verdict : IsVerdict packet) : Ended s.flash s := by
  cases h with
  | undecided open_ => exact absurd verdict (open_.none packet sent)
  | decided before verdict state pc => exact ⟨state, .inl pc, rfl⟩
  | left before verdict last state pc => exact ⟨state, .inr pc, rfl⟩

variable (validate) (drv) (flash0)

/-- In every run: when the main program has gone to the application or reset the core it
has sent one verdict, last, and went the way the validator finds the flash. The end
state is reached only by sending a verdict. After a verdict the flash stays as it is and
the next step of the main program is the way out. -/
theorem verdict_agreement (es : List BootEvent) :
    ((verdictRun drv validate flash0 es).pc = .gone → ∃ before verdict last,
      Outcome validate (verdictRun drv validate flash0 es) before verdict last) ∧
    ((verdictRun drv validate flash0 es).bootloaderState = .done →
      ∃ packet ∈ (verdictRun drv validate flash0 es).trace.sent, IsVerdict packet) ∧
    ∀ packet ∈ (verdictRun drv validate flash0 es).trace.sent, IsVerdict packet → ∀ es',
      (verdictRun drv validate flash0 (es ++ es')).flash =
        (verdictRun drv validate flash0 es).flash ∧
      (.main ∈ es' → (verdictRun drv validate flash0 (es ++ es')).pc = .gone) := by
  have inv := bootRun_sessionInv drv (fun flash => some (validate flash)) flash0 es
  have verdicts := bootRun_verdictInv drv validate flash0 es
  have among {before after : Trace} {verdict : CommsPacket}
      (trace : (verdictRun drv validate flash0 es).trace = before ++ .sent verdict :: after) :
      verdict ∈ (verdictRun drv validate flash0 es).trace.sent := by
    rw [trace, Trace.sent, List.filterMap_append]
    exact List.mem_append_right _ List.mem_cons_self
  refine ⟨?_, ?_, ?_⟩
  · intro gone
    cases verdicts with
    | undecided open_ => exact absurd gone open_.pc
    | decided before verdict state pc => exact absurd (pc.symm.trans gone) (by decide)
    | left before verdict last state pc trace report way =>
      exact ⟨before, verdict, last, report.outcome inv trace way⟩
  · intro done
    cases verdicts with
    | undecided open_ => exact absurd done open_.state
    | decided before verdict state pc trace report =>
      exact ⟨verdict, among trace, report.isVerdict⟩
    | left before verdict last state pc trace report =>
      exact ⟨verdict, among trace, report.isVerdict⟩
  · intro packet sent verdict es'
    have run : verdictRun drv validate flash0 (es ++ es') =
        Lib.Run.run (bootStep drv fun flash => some (validate flash))
          (verdictRun drv validate flash0 es) es' := Lib.Run.run_append ..
    rw [run]
    exact (verdicts.ended sent verdict).run es'

end Runs

/-! ## A run that gets there -/

/-- One byte is announced, a chunk programmed, and the main program leaves. -/
def successEvents : List BootEvent := overshootEvents ++ [.main]

theorem verdict_agreement_successEvents :
    ∃ before verdict last, Outcome (fun _ => true)
      (verdictRun stm32Flash (fun _ => true) (fun _ => 0) successEvents) before verdict last := by
  have gone : (verdictRun stm32Flash (fun _ => true) (fun _ => 0) successEvents).pc = .gone := by
    decide +kernel
  exact (verdict_agreement stm32Flash (fun _ => true) (fun _ => 0) successEvents).1 gone

end SecureBootloader
