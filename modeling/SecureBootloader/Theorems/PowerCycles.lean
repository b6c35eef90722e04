import SecureBootloader.Boot.Device
import SecureBootloader.Boot.MacWalk
import SecureBootloader.Theorems.FlashContent

/-!
# What a device can become

Whatever happens to a device, in whatever order: bytes from anyone, resets, power failures
in the middle of an erase. The bootloader itself stays as it is, and what is started has
been accepted. Without a complete handshake nothing changes at all, and an update that
stopped early leaves nothing behind that could be started.
-/

namespace SecureBootloader

section Runs

variable (drv : FlashDriver) (validate : Flash → Option Bool) (flash0 : Flash)

theorem deviceRun_concat (es : List DeviceEvent) (e : DeviceEvent) :
    deviceRun drv validate flash0 (es ++ [e]) =
      deviceStep drv validate (deviceRun drv validate flash0 es) e :=
  Lib.Run.run_concat ..

/-- In every state of every life: outside the application area the flash is as it was when
the device was new, and the application has been started only if the validator accepts the
flash as it is. -/
theorem device_safe (es : List DeviceEvent) :
    (∀ a, ¬InAppArea a → (deviceRun drv validate flash0 es).boot.flash a = flash0 a) ∧
      (.jumped ∈ (deviceRun drv validate flash0 es).boot.trace →
        (deviceRun drv validate flash0 es).boot.pc = .gone ∧
          validate (deviceRun drv validate flash0 es).boot.flash = some true) := by
  have inv := deviceRun_inv drv validate flash0 es
  exact ⟨fun _ outside => inv.outside outside, inv.admitted⟩

/-! ## Without a handshake -/

variable {flash0}

/-- Before the handshake is complete the flash is what the bootloader started with. -/
theorem SessionInv.unauthorized {v : Session} (h : SessionInv flash0 v)
    (unauthorized : ∀ length, ¬Authorized length v.trace) : v.flash = flash0 := by
  rcases h.cases with ⟨untouched, -⟩ | updating
  · exact untouched.flash
  · exact absurd updating.authorized (unauthorized _)

/-- Before the handshake is complete the next step neither erases nor programs. -/
theorem nextOps_unauthorized {s : Boot} (inv : SessionInv flash0 s.session)
    (unauthorized : ∀ length, ¬Authorized length s.trace) : s.nextOps drv validate = [] := by
  have behind (obs : Trace) (trace : (s.mainStep drv validate).trace = s.trace ++ obs) :
      s.nextOps drv validate = obs.flashOps := by
    rw [Boot.nextOps, trace, List.drop_left]
  rcases bootStep_session drv validate s .main with same | ⟨-, step⟩
  · exact behind [] ((congrArg Session.trace same).trans (List.append_nil _).symm)
  · obtain ⟨obs, trace, states⟩ := sessionStep_trace step
    rw [behind obs trace]
    by_contra some
    rcases states some with erase | receive
    · have authorized := inv.progress
      simp only [Progress, erase] at authorized
      exact unauthorized _ authorized
    · exact unauthorized _ (inv.updating receive).1.authorized

variable (flash0)

/-- As long as no boot has seen a complete handshake the whole flash is as it was when the
device was new, however often it was reset or lost its power. -/
theorem device_untouched (es : List DeviceEvent)
    (unauthorized : ∀ es', es' <+: es → ∀ length,
      ¬Authorized length (deviceRun drv validate flash0 es').boot.trace) :
    (deviceRun drv validate flash0 es).boot.flash = flash0 := by
  have inv (es' : List DeviceEvent) := deviceRun_inv drv validate flash0 es'
  suffices booted : (deviceRun drv validate flash0 es).booted = flash0 from
    ((inv es).sessionInv.unauthorized (unauthorized es (List.prefix_refl es))).trans booted
  induction es using List.reverseRecOn with
  | nil => rfl
  | append_singleton es e ih =>
    have front : es <+: es ++ [e] := List.prefix_append es [e]
    have before := ih fun es' within => unauthorized es' (within.trans front)
    have now := unauthorized es front
    have flash := ((inv es).sessionInv.unauthorized now).trans before
    rw [deviceRun_concat]
    cases e with
    | boot e => exact before
    | reset => exact flash
    | cut torn =>
      show (deviceRun drv validate flash0 es).boot.tornFlash drv validate torn = flash0
      have none := nextOps_unauthorized drv validate (inv es).sessionInv now
      funext a
      rw [Boot.tornFlash, none]
      exact congrFun flash a

/-- The sync sequence, the update request and the device id. -/
def greetingEvents : List BootEvent := (handshakeEvents 0x20).take 95

/-- The power fails in front of the length; the next boot is reset behind the request. -/
def unfinishedLife : List DeviceEvent :=
  greetingEvents.map .boot ++ [.cut fun _ => 0xa5] ++ (greetingEvents.take 50).map .boot ++
    [.reset, .boot .main]

theorem device_untouched_unfinished :
    (deviceRun stm32Flash validateFlash (fun _ => 0) unfinishedLife).boot.flash = fun _ => 0 := by
  refine device_untouched stm32Flash validateFlash (fun _ => 0) unfinishedLife ?_
  intro es' within length authorized
  have two : Lib.Run.Meets (deviceStep stm32Flash validateFlash)
      (fun d _ => d.boot.trace.taken.length < 3) (deviceInit fun _ => 0)
      (unfinishedLife ++ [.reset]) := by decide +kernel
  obtain ⟨-, few⟩ := two.at_prefix within
  exact absurd authorized.three_taken (Nat.not_le.mpr few)

/-- The first boot waits for the length. -/
example : (deviceRun stm32Flash validateFlash (fun _ => 0)
    (greetingEvents.map .boot)).boot.bootloaderState = .fwLengthRes := by decide +kernel

end Runs

/-! ## An update that stopped early -/

/-- The sentinel of the info block is not complete: its last byte is erased. -/
def Disarmed (flash : Flash) : Prop := flash (fwinfoAddress + 3) = 0xff

/-- As many bytes of an image it takes to have its sentinel. -/
def sentinelEnd : Nat := 0x1B4

theorem validateFlash_disarmed {flash : Flash} (h : Disarmed flash) :
    validateFlash flash = some false := by
  have header : ¬HeaderOk (infoOf flash) := by
    rintro ⟨sentinel, -⟩
    have last : (flash (fwinfoAddress + 3)).toNat = 0xff := congrArg BitVec.toNat h
    have word : le32 (flash fwinfoAddress) (flash (fwinfoAddress + 1))
      (flash (fwinfoAddress + 2)) (flash (fwinfoAddress + 3)) = 0xDEADC0DE := sentinel
    have h0 := (flash fwinfoAddress).isLt
    have h1 := (flash (fwinfoAddress + 1)).isLt
    have h2 := (flash (fwinfoAddress + 2)).isLt
    unfold le32 at word
    omega
  rw [validateFlash, validateFwImage, headerAccepted_eq (flashRead_readsAs flash),
    decide_eq_false header]
  rfl

/-- An erase or the last start left no complete sentinel behind. -/
def Interrupted (d : Device) : Prop := Disarmed d.booted ∨ .erased ∈ d.boot.trace

section Interrupted

variable {drv : FlashDriver} {validate : Flash → Option Bool} {flash0 : Flash} {d : Device}

/-- The image of an interrupted update is not there as long as its sentinel is not. -/
theorem DeviceInv.disarmed (inv : DeviceInv drv validate flash0 d) (h : Interrupted d)
    (short : d.boot.bytesWritten < sentinelEnd) : Disarmed d.boot.flash := by
  rcases inv.sessionInv.cases with ⟨untouched, -⟩ | updating
  · have flash : d.boot.flash = d.booted := untouched.flash
    have none : .erased ∉ d.boot.trace := fun member =>
      absurd untouched.ops (mem_flashOps member rfl)
    rw [Disarmed, flash]
    exact h.resolve_right none
  · have count : d.boot.bytesWritten = d.boot.trace.payload.length := updating.count
    have inside : mainAppStartAddress ≤ fwinfoAddress + 3 ∧
        fwinfoAddress + 3 < flashBase + flashSize := by decide
    have offset : fwinfoAddress + 3 - mainAppStartAddress = 0x1B3 := by decide
    unfold sentinelEnd at short
    refine (updating.content _).trans ?_
    rw [if_pos inside, offset, List.getD_eq_getElem?_getD]
    show (d.boot.trace.payload[0x1B3]?).getD 0xff = 0xff
    rw [List.getElem?_eq_none (by omega)]
    rfl

/-- A step that is no power failure keeps it so. -/
theorem Interrupted.step (h : Interrupted d) (inv : DeviceInv drv validate flash0 d)
    (short : d.boot.bytesWritten < sentinelEnd) {e : DeviceEvent}
    (whole : ∀ torn, e ≠ .cut torn) : Interrupted (deviceStep drv validate d e) := by
  cases e with
  | boot e =>
    refine h.imp_right fun erased => ?_
    show .erased ∈ (bootStep drv validate d.boot e).session.trace
    rcases bootStep_session drv validate d.boot e with same | ⟨-, step⟩
    · rw [same]
      exact erased
    · obtain ⟨obs, trace, -⟩ := sessionStep_trace step
      rw [trace]
      exact List.mem_append_left obs erased
  | reset => exact .inl (inv.disarmed h short)
  | cut torn => exact absurd rfl (whole torn)

end Interrupted

/-- Once a boot has erased the application: as long as from then on no boot, the erasing one
included, programs the sentinel of an image, and no power failure hits a flash operation, the
validator refuses the flash and no boot starts an application, however often the device is
reset. -/
theorem interrupted_not_started (drv : FlashDriver) (flash0 : Flash) (es es' : List DeviceEvent)
    (erased : .erased ∈ (deviceRun drv validateFlash flash0 es).boot.trace)
    (short : ∀ front, front <+: es' →
      (deviceRun drv validateFlash flash0 (es ++ front)).boot.bytesWritten < sentinelEnd)
    (whole : ∀ torn, .cut torn ∉ es') :
    validateFlash (deviceRun drv validateFlash flash0 (es ++ es')).boot.flash = some false ∧
      .jumped ∉ (deviceRun drv validateFlash flash0 (es ++ es')).boot.trace := by
  have inv (es : List DeviceEvent) := deviceRun_inv drv validateFlash flash0 es
  have interrupted : Interrupted (deviceRun drv validateFlash flash0 (es ++ es')) := by
    induction es' using List.reverseRecOn with
    | nil =>
      rw [List.append_nil]
      exact .inr erased
    | append_singleton front e ih =>
      have isFront : front <+: front ++ [e] := List.prefix_append front [e]
      have before := ih (fun front' within => short front' (within.trans isFront))
        fun torn member => whole torn (List.mem_append_left _ member)
      rw [← List.append_assoc, deviceRun_concat]
      refine before.step (inv _) (short front isFront) ?_
      rintro torn rfl
      exact whole torn (List.mem_append_right _ List.mem_cons_self)
  have refused := validateFlash_disarmed
    ((inv (es ++ es')).disarmed interrupted (short es' (List.prefix_refl es')))
  refine ⟨refused, ?_⟩
  intro jumped
  have accepted := ((inv (es ++ es')).admitted jumped).2
  exact absurd (refused.symm.trans accepted) (by decide)

/-- A handshake, and the application is erased. -/
def erasingLife : List DeviceEvent := (handshakeEvents 0x20).map .boot

/-- The device is reset, and the next boot gets through another handshake and an erase. -/
def erasingAgain : List DeviceEvent := .reset :: erasingLife

theorem interrupted_not_started_erasingLife :
    validateFlash (deviceRun stm32Flash validateFlash (fun _ => 0)
        (erasingLife ++ erasingAgain)).boot.flash = some false ∧
      .jumped ∉ (deviceRun stm32Flash validateFlash (fun _ => 0)
        (erasingLife ++ erasingAgain)).boot.trace := by
  refine interrupted_not_started stm32Flash (fun _ => 0) erasingLife erasingAgain
    (by decide +kernel) ?_ (by simp [erasingAgain, erasingLife])
  intro front within
  have none : Lib.Run.Meets (deviceStep stm32Flash validateFlash)
      (fun d _ => d.boot.bytesWritten < sentinelEnd) (deviceInit fun _ => 0)
      (erasingLife ++ erasingAgain ++ [.reset]) := by decide +kernel
  obtain ⟨-, few⟩ := none.at_prefix ((List.prefix_append_right_inj erasingLife).mpr within)
  exact few

end SecureBootloader
