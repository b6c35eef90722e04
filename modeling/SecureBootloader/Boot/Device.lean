import SecureBootloader.Boot.Receiver
import SecureBootloader.Boot.VerdictInv

/-!
# The device over its whole life

The bootloader started any number of times on the flash the last start left behind. A
reset takes the memory and keeps the flash; a power failure may also hit an erase or
program operation and leave the bytes under it in any state.
-/

namespace SecureBootloader

/-- The bootloader since the last start, and the flash it started with. -/
structure Device where
  booted : Flash
  boot : Boot

/-- What can happen to a device. -/
inductive DeviceEvent where
  /-- the bootloader goes on -/
  | boot (e : BootEvent)
  /-- a reset: `scb_reset_core`, the pin, or the power between two steps -/
  | reset
  /-- the power fails in the next step of the main program and comes back -/
  | cut (torn : Flash)

/-- Does the operation erase or program the byte at `a`? -/
def Obs.touches (a : Nat) : Obs → Bool
  | .erased => decide (mainAppStartAddress ≤ a ∧ a < flashBase + flashSize)
  | .programmed address data => decide (address ≤ a ∧ a < address + data.length)
  | _ => false

section Steps

variable (drv : FlashDriver) (validate : Flash → Option Bool)

/-- What the next step of the main program does to the flash. -/
def Boot.nextOps (s : Boot) : Trace :=
  Trace.flashOps ((s.mainStep drv validate).trace.drop s.trace.length)

/-- The flash after a power failure in the next step: what the step touches is anything. -/
def Boot.tornFlash (s : Boot) (torn : Flash) : Flash := fun a =>
  if (s.nextOps drv validate).any (Obs.touches a) then torn a else s.flash a

/-- A device that has just started. -/
def deviceInit (flash : Flash) : Device := ⟨flash, bootInit flash⟩

def deviceStep (d : Device) : DeviceEvent → Device
  | .boot e => { d with boot := bootStep drv validate d.boot e }
  | .reset => deviceInit d.boot.flash
  | .cut torn => deviceInit (d.boot.tornFlash drv validate torn)

/-- The device after the events `es`, new with the flash content `flash0`. -/
def deviceRun (flash0 : Flash) (es : List DeviceEvent) : Device :=
  Lib.Run.run (deviceStep drv validate) (deviceInit flash0) es

end Steps

/-! ## What a step does to the flash -/

section Session

variable {drv : FlashDriver} {validate : Flash → Option Bool} {flash0 : Flash} {v v' : Session}

/-- The application area. -/
def InAppArea (a : Nat) : Prop := mainAppStartAddress ≤ a ∧ a < flashBase + flashSize

instance (a : Nat) : Decidable (InAppArea a) := inferInstanceAs (Decidable (_ ∧ _))

/-- A step extends the trace by operations inside the application area. -/
theorem sessionStep_ops (inv : SessionInv flash0 v) (step : SessionStep drv validate v v') :
    ∃ obs, v'.trace = v.trace ++ obs ∧ ∀ op ∈ Trace.flashOps obs, ∀ a, op.touches a = true →
      InAppArea a := by
  have silent {obs : Trace} (none : obs.flashOps = []) : ∀ op ∈ obs.flashOps, ∀ a,
      op.touches a = true → InAppArea a := by
    rw [none]
    exact fun op member => absurd member List.not_mem_nil
  -- a write is behind the bytes written, and those are in the area
  have write (packet : CommsPacket) (last : Obs) (quiet : last.modifiesFlash = false)
      (pc : v.pc = .dispatch) (state : v.bootloaderState = .receiveFw) :
      ∀ op ∈ Trace.flashOps [.taken v.nextPacket, .accepted packet,
        .programmed v.writeAddress (chunkOf packet), last], ∀ a, op.touches a = true →
      InAppArea a := by
    intro op member a touched
    obtain ⟨member, modifies⟩ := List.mem_filter.mp member
    obtain rfl : op = .programmed v.writeAddress (chunkOf packet) := by
      simp only [List.mem_cons, List.not_mem_nil, or_false] at member
      rcases member with rfl | rfl | rfl | rfl
      · cases modifies
      · cases modifies
      · rfl
      · exact absurd (modifies.symm.trans quiet) (by decide)
    have room := (inv.updating state).2 (by rw [pc]; decide)
    have most : maxFwLength = 0x38000 := rfl
    have start : mainAppStartAddress = 0x08008000 := rfl
    have top : flashBase + flashSize = mainAppStartAddress + 0x78000 := rfl
    have address : v.writeAddress = mainAppStartAddress + v.bytesWritten :=
      Nat.mod_eq_of_lt (by omega)
    have inside := of_decide_eq_true touched
    have size := chunkLength_le packet
    rw [address, chunkOf_length] at inside
    exact ⟨by omega, by omega⟩
  cases step with
  | start | enter | drained | idle | syncIdle | unexpected =>
    exact ⟨[], (List.append_nil _).symm, silent rfl⟩
  | timeout | syncTimeout | syncByte | syncMatch | flushByte | flushed | deviceIdReq |
      fwLengthReq => exact ⟨_, rfl, silent rfl⟩
  | syncByteTimeout => exact ⟨_, List.append_assoc .., silent rfl⟩
  | commsByte byte hpc =>
    refine ⟨_, List.append_assoc .., silent ?_⟩
    rw [Trace.flashOps_append, (commsUpdateByte_quiet v.comms byte).2.1]
    rfl
  | refused length hpc waiting available wrong announced =>
    exact ⟨_, takes_send_trace available _, silent rfl⟩
  | fwUpdateReq hpc state available request =>
    exact ⟨_, takes_send_trace available _, silent rfl⟩
  | deviceIdRes hpc state available shape device => exact ⟨_, takes_trace available, silent rfl⟩
  | fwLengthRes hpc state available shape fits => exact ⟨_, takes_trace available, silent rfl⟩
  | erase hpc state =>
    refine ⟨_, List.append_assoc .., ?_⟩
    intro op member a touched
    obtain rfl : op = .erased := List.mem_singleton.mp member
    exact of_decide_eq_true touched
  | chunk hpc state available ok more =>
    exact ⟨_, takes_writes_append available _ _, write _ _ rfl hpc state⟩
  | lastChunk accepted hpc state available ok complete verdict =>
    exact ⟨_, takes_writes_append available _ _, write _ _ rfl hpc state⟩
  | lastChunkFault hpc state available ok complete fault =>
    exact ⟨_, takes_writes_append available _ _, write _ _ rfl hpc state⟩
  | left obs hpc ended way =>
    rcases way with ⟨rfl, -⟩ | ⟨rfl, -⟩ | ⟨rfl, -⟩ <;> exact ⟨_, rfl, silent rfl⟩

/-- Whatever the next step is, it touches the application area only. -/
theorem nextOps_inside {s : Boot} (inv : SessionInv flash0 s.session) {a : Nat}
    (touched : (s.nextOps drv validate).any (Obs.touches a) = true) : InAppArea a := by
  obtain ⟨op, member, touches⟩ := List.any_eq_true.mp touched
  have behind (obs : Trace) (trace : (s.mainStep drv validate).trace = s.trace ++ obs) :
      s.nextOps drv validate = obs.flashOps := by
    rw [Boot.nextOps, trace, List.drop_left]
  rcases bootStep_session drv validate s .main with same | ⟨-, step⟩
  · have trace : (s.mainStep drv validate).trace = s.trace ++ [] :=
      (congrArg Session.trace same).trans (List.append_nil _).symm
    rw [behind [] trace] at member
    exact absurd member List.not_mem_nil
  · obtain ⟨obs, trace, inside⟩ := sessionStep_ops inv step
    rw [behind obs trace] at member
    exact inside op member a touches

/-- Outside the application area a session leaves the flash as it was. -/
theorem SessionInv.outside (h : SessionInv flash0 v) {a : Nat} (outside : ¬InAppArea a) :
    v.flash a = flash0 a := by
  have updated (h : Updating flash0 v) : v.flash a = flash0 a :=
    (h.content a).trans (if_neg outside)
  by_cases receive : v.bootloaderState = .receiveFw
  · exact updated (h.updating receive).1
  · by_cases done : v.bootloaderState = .done
    · rcases h.ended done with untouched | updating
      · exact congrFun untouched.flash a
      · exact updated updating
    · exact congrFun (h.untouched receive done).flash a

/-- The application was started only on a flash that the validator accepts. -/
def Admitted (validate : Flash → Option Bool) (v : Session) : Prop :=
  .jumped ∈ v.trace → v.pc = .gone ∧ validate v.flash = some true

/-- The entry for the way out. -/
def Obs.wayOut : Option Bool → Obs
  | some true => .jumped
  | some false => .wasReset
  | none => .faulted

/-- The entries that are a way out. -/
def Obs.leaves : Obs → Bool
  | .jumped | .wasReset | .faulted => true
  | _ => false

theorem wayOut_not_mem {obs : Trace} (silent : obs.filter Obs.leaves = [])
    (verdict : Option Bool) : .wayOut verdict ∉ obs := by
  intro member
  have leaves : Obs.leaves (.wayOut verdict) = true := by
    rcases verdict with _ | _ | _ <;> rfl
  exact List.filter_eq_nil_iff.mp silent _ member leaves

/-- The record has a way out once the main program has left, and the one that the validator
asks for. -/
def WaysOut (validate : Flash → Option Bool) (v : Session) : Prop :=
  ∀ verdict, .wayOut verdict ∈ v.trace ↔ v.pc = .gone ∧ validate v.flash = verdict

theorem WaysOut.init : WaysOut validate (bootInit flash0).session := by
  intro verdict
  constructor
  · intro member
    exact absurd member List.not_mem_nil
  · rintro ⟨gone, -⟩
    cases gone

theorem WaysOut.admitted (h : WaysOut validate v) : Admitted validate v := (h (some true)).mp

theorem wayOut_injective : Function.Injective Obs.wayOut := by
  intro verdict verdict' same
  rcases verdict with _ | _ | _ <;> rcases verdict' with _ | _ | _ <;> first | rfl | cases same

theorem WaysOut.step (h : WaysOut validate v) (step : SessionStep drv validate v v') :
    WaysOut validate v' := by
  -- before a step the main program has not left
  have before (verdict : Option Bool) : .wayOut verdict ∉ v.trace := fun member =>
    SessionStep.not_gone ((h verdict).mp member).1 step
  have stays {obs : Trace} (trace : v'.trace = v.trace ++ obs) (pc : v'.pc ≠ .gone)
      (silent : obs.filter Obs.leaves = []) : WaysOut validate v' := by
    intro verdict
    rw [trace, List.mem_append]
    exact iff_of_false (not_or.mpr ⟨before verdict, wayOut_not_mem silent verdict⟩)
      fun gone => pc gone.1
  have leaves (obs : Trace) {verdict : Option Bool} (same : validate v'.flash = verdict)
      (trace : v'.trace = v.trace ++ (obs ++ [.wayOut verdict])) (pc : v'.pc = .gone)
      (silent : obs.filter Obs.leaves = []) : WaysOut validate v' := by
    intro verdict'
    rw [trace, ← List.append_assoc, List.mem_append, List.mem_append, List.mem_singleton,
      wayOut_injective.eq_iff, same, eq_comm,
      or_iff_right (not_or.mpr ⟨before verdict', wayOut_not_mem silent verdict'⟩)]
    exact (and_iff_right pc).symm
  have looping (pc : Pc) (there : v'.pc = pc) (other : pc ≠ .gone) : v'.pc ≠ .gone := there ▸ other
  cases step with
  | start | idle | unexpected =>
    exact stays (List.append_nil _).symm (looping .loop rfl (by decide)) rfl
  | enter => exact stays (List.append_nil _).symm (looping .update rfl (by decide)) rfl
  | drained => exact stays (List.append_nil _).symm (looping .dispatch rfl (by decide)) rfl
  | syncIdle hpc => exact stays (List.append_nil _).symm (looping .loop hpc (by decide)) rfl
  | timeout | flushed | deviceIdReq | fwLengthReq =>
    exact stays rfl (looping .loop rfl (by decide)) rfl
  | syncTimeout hpc | syncByte byte hpc => exact stays rfl (looping .loop hpc (by decide)) rfl
  | syncMatch byte => exact stays rfl (looping .flush rfl (by decide)) rfl
  | flushByte byte hpc => exact stays rfl (looping .flush hpc (by decide)) rfl
  | syncByteTimeout byte hpc =>
    exact stays (List.append_assoc ..) (looping .loop hpc (by decide)) rfl
  | commsByte byte hpc =>
    refine stays (List.append_assoc ..) (looping .update hpc (by decide)) ?_
    rcases commsUpdateByte_trace v.comms byte with silent | ⟨packet, silent⟩ |
      ⟨packet, silent | silent⟩ <;> rw [silent] <;> rfl
  | refused length hpc waiting available wrong announced =>
    exact stays (takes_send_trace available _) (looping .loop rfl (by decide)) rfl
  | fwUpdateReq hpc state available request =>
    exact stays (takes_send_trace available _) (looping .loop rfl (by decide)) rfl
  | deviceIdRes hpc state available shape device =>
    exact stays (takes_trace available) (looping .loop rfl (by decide)) rfl
  | fwLengthRes hpc state available shape fits =>
    exact stays (takes_trace available) (looping .loop rfl (by decide)) rfl
  | erase hpc state => exact stays (List.append_assoc ..) (looping .loop rfl (by decide)) rfl
  | chunk hpc state available ok more =>
    exact stays (takes_writes_append available _ _) (looping .loop rfl (by decide)) rfl
  | lastChunk accepted hpc state available ok complete verdict =>
    exact stays (takes_writes_append available _ _) (looping .loop rfl (by decide)) rfl
  | lastChunkFault hpc state available ok complete fault =>
    exact leaves [.taken v.nextPacket, .accepted v.nextPacket, .programmed
      (v.atPc .loop).takes.writeAddress (chunkOf v.nextPacket)] fault
      (takes_writes_append available _ _) rfl rfl
  | left obs hpc ended way =>
    rcases way with ⟨rfl, verdict⟩ | ⟨rfl, verdict⟩ | ⟨rfl, verdict⟩
    · exact leaves [] verdict rfl rfl rfl
    · exact leaves [] verdict rfl rfl rfl
    · exact leaves [] verdict rfl rfl rfl

end Session

/-! ## The invariant of a device -/

/-- The device runs its bootloader from the last start, and outside the application area
nothing has changed since it was new. -/
structure DeviceInv (drv : FlashDriver) (validate : Flash → Option Bool) (flash0 : Flash)
    (d : Device) : Prop where
  run : ∃ es, d.boot = bootRun drv validate d.booted es
  kept : ∀ a, ¬InAppArea a → d.booted a = flash0 a

section Device

variable {drv : FlashDriver} {validate : Flash → Option Bool} {flash0 : Flash} {d : Device}

theorem DeviceInv.start {flash : Flash} (kept : ∀ a, ¬InAppArea a → flash a = flash0 a) :
    DeviceInv drv validate flash0 (deviceInit flash) := ⟨⟨[], rfl⟩, kept⟩

section Inv

variable (h : DeviceInv drv validate flash0 d)
include h

theorem DeviceInv.sessionInv : SessionInv d.booted d.boot.session := by
  obtain ⟨es, run⟩ := h.run
  rw [run]
  exact bootRun_sessionInv drv validate d.booted es

theorem DeviceInv.waysOut : WaysOut validate d.boot.session := by
  obtain ⟨es, run⟩ := h.run
  rw [run]
  exact bootRun_invariant drv validate d.booted es WaysOut.init fun _ _ h step => h.step step

theorem DeviceInv.admitted : Admitted validate d.boot.session := h.waysOut.admitted

theorem DeviceInv.outside {a : Nat} (outside : ¬InAppArea a) : d.boot.flash a = flash0 a :=
  (h.sessionInv.outside outside).trans (h.kept a outside)

theorem DeviceInv.step (e : DeviceEvent) :
    DeviceInv drv validate flash0 (deviceStep drv validate d e) := by
  cases e with
  | boot e =>
    obtain ⟨es, run⟩ := h.run
    refine ⟨⟨es ++ [e], ?_⟩, h.kept⟩
    show bootStep drv validate d.boot e = bootRun drv validate d.booted (es ++ [e])
    rw [bootRun_concat, ← run]
  | reset => exact .start fun a outside => h.outside outside
  | cut torn =>
    refine .start fun a outside => ?_
    have untouched : ¬(d.boot.nextOps drv validate).any (Obs.touches a) = true :=
      fun touched => outside (nextOps_inside h.sessionInv touched)
    rw [Boot.tornFlash, if_neg untouched]
    exact h.outside outside

end Inv

theorem DeviceInv.run_inv (h : DeviceInv drv validate flash0 d) (es : List DeviceEvent) :
    DeviceInv drv validate flash0 (Lib.Run.run (deviceStep drv validate) d es) :=
  Lib.Run.run_invariant (fun _ e keep => keep.step e) h es

end Device

variable (drv : FlashDriver) (validate : Flash → Option Bool)

theorem deviceRun_inv (flash0 : Flash) (es : List DeviceEvent) :
    DeviceInv drv validate flash0 (deviceRun drv validate flash0 es) :=
  (DeviceInv.start fun _ _ => rfl).run_inv es

end SecureBootloader
