import SecureBootloader.Theorems.FlashGuard

/-!
# The flash content during an update

From the erase on, the application area holds the accepted firmware bytes and
behind them nothing but 0xFF; below it the flash is as it was at boot.
-/

namespace SecureBootloader

/-! ## No byte is programmed twice -/

/-- Does the operation program the byte at `a`? -/
def Obs.programs (a : Nat) : Obs → Bool
  | .programmed address data => decide (address ≤ a ∧ a < address + data.length)
  | _ => false

theorem Obs.modifiesFlash_of_programs {a : Nat} {op : Obs} (h : op.programs a = true) :
    op.modifiesFlash = true := by
  cases op <;> first | rfl | cases h

theorem filter_programs_flashOps (a : Nat) (t : Trace) :
    t.flashOps.filter (Obs.programs a) = t.filter (Obs.programs a) := by
  rw [Trace.flashOps, List.filter_filter]
  refine List.filter_congr ?_
  intro op _
  cases h : op.programs a with
  | false => rfl
  | true => simp [Obs.modifiesFlash_of_programs h]

theorem writesFrom_below {a start : Nat} (below : a < start) (packets : List CommsPacket) :
    (writesFrom start packets).filter (Obs.programs a) = [] := by
  induction packets generalizing start with
  | nil => rfl
  | cons packet packets ih =>
    have outside : (Obs.programmed start (chunkOf packet)).programs a = false :=
      decide_eq_false (by omega)
    rw [writesFrom, List.filter_cons_of_neg (by simp [outside]), ih (by omega)]

/-- The writes of an update are disjoint. -/
theorem writesFrom_once (a start : Nat) (packets : List CommsPacket) :
    ((writesFrom start packets).filter (Obs.programs a)).length ≤ 1 := by
  induction packets generalizing start with
  | nil => exact Nat.zero_le _
  | cons packet packets ih =>
    by_cases covers : (Obs.programmed start (chunkOf packet)).programs a = true
    · have inside := of_decide_eq_true covers
      rw [writesFrom, List.filter_cons_of_pos covers, writesFrom_below inside.2]
      exact Nat.le_refl _
    · rw [writesFrom, List.filter_cons_of_neg covers]
      exact ih _

/-! ## In and after RECEIVE_FW -/

/-- The bootloader is in RECEIVE_FW, or has been. -/
def InUpdate (s : Boot) : Prop := s.bootloaderState = .receiveFw ∨ .erased ∈ s.trace

/-- The application area during an update: the accepted bytes in order, then 0xFF
up to the end of the last sector; and the operations so far, one erase followed
by one write for each accepted packet, back to back. -/
structure UpdateContent (s : Boot) : Prop where
  written : (List.range s.bytesWritten).map (fun i => s.flash (mainAppStartAddress + i)) =
    s.trace.payload
  blank : ∀ a, mainAppStartAddress + s.bytesWritten ≤ a → a < flashBase + flashSize →
    s.flash a = 0xff
  ops : s.trace.flashOps = .erased :: writesFrom mainAppStartAddress s.trace.accepted

/-- What holds of the flash in every state of a run that booted with `flash0`. -/
structure FlashInvariant (flash0 : Flash) (s : Boot) : Prop where
  update : InUpdate s → UpdateContent s
  kept : ∀ a, a < mainAppStartAddress → s.flash a = flash0 a
  once : ∀ a, (s.trace.filter (Obs.programs a)).length ≤ 1
  never : ∀ a, a < mainAppStartAddress → s.trace.filter (Obs.programs a) = []

theorem SessionInv.cases {flash0 : Flash} {v : Session} (h : SessionInv flash0 v) :
    (Untouched flash0 v ∧ v.bootloaderState ≠ .receiveFw) ∨ Updating flash0 v := by
  by_cases receive : v.bootloaderState = .receiveFw
  · exact .inr (h.updating receive).1
  · by_cases done : v.bootloaderState = .done
    · rcases h.ended done with untouched | updating
      · exact .inl ⟨untouched, receive⟩
      · exact .inr updating
    · exact .inl ⟨h.untouched receive done, receive⟩

section Runs

variable (drv : FlashDriver) (validate : Flash → Option Bool) (flash0 : Flash)
  (es : List BootEvent)

theorem inUpdate_updating (h : InUpdate (bootRun drv validate flash0 es)) :
    Updating flash0 (bootRun drv validate flash0 es).session := by
  rcases (bootRun_sessionInv drv validate flash0 es).cases with ⟨untouched, other⟩ | updating
  · rcases h with receive | erased
    · exact absurd receive other
    · exact absurd untouched.ops (mem_flashOps erased rfl)
  · exact updating

theorem Updating.updateContent {flash0 : Flash} {s : Boot} (h : Updating flash0 s.session) :
    UpdateContent s := by
  have count := h.count
  have bound := h.bound
  have most : maxFwLength + 15 ≤ 0x78000 := by decide
  have top : flashBase + flashSize = mainAppStartAddress + 0x78000 := rfl
  have inArea (i : Nat) (hi : i < s.bytesWritten) : mainAppStartAddress ≤ mainAppStartAddress + i ∧
      mainAppStartAddress + i < flashBase + flashSize := by
    have : i < s.session.bytesWritten := hi
    omega
  refine ⟨List.ext_getElem ?_ ?_, ?_, h.ops⟩
  · rw [List.length_map, List.length_range]
    exact count
  · intro i hi hi'
    have below : i < s.bytesWritten := by simpa using hi
    rw [List.getElem_map, List.getElem_range]
    refine (h.content _).trans ?_
    rw [if_pos (inArea i below), Nat.add_sub_cancel_left, List.getD_eq_getElem?_getD]
    exact congrArg (Option.getD · _) (List.getElem?_eq_getElem hi')
  · intro a hlo hhi
    refine (h.content a).trans ?_
    have behind : s.session.trace.payload.length ≤ a - mainAppStartAddress := by
      have : mainAppStartAddress + s.session.bytesWritten ≤ a := hlo
      omega
    rw [if_pos ⟨by omega, hhi⟩, List.getD_eq_getElem?_getD, List.getElem?_eq_none behind]
    rfl

/-- In every state of every run the flash holds exactly what the accepted packets
carried, in order, on an otherwise erased application area, and everything below
that area is as it was at boot. -/
theorem flash_content : FlashInvariant flash0 (bootRun drv validate flash0 es) := by
  have ops : (bootRun drv validate flash0 es).trace.flashOps = [] ∨
      (bootRun drv validate flash0 es).trace.flashOps = .erased :: writesFrom mainAppStartAddress
        (bootRun drv validate flash0 es).trace.accepted := by
    rcases (bootRun_sessionInv drv validate flash0 es).cases with ⟨untouched, -⟩ | updating
    · exact .inl untouched.ops
    · exact .inr updating.ops
  refine ⟨?_, ?_, ?_, ?_⟩
  · intro h
    exact (inUpdate_updating drv validate flash0 es h).updateContent
  · intro a below
    rcases (bootRun_sessionInv drv validate flash0 es).cases with ⟨untouched, -⟩ | updating
    · exact congrFun untouched.flash a
    · exact (updating.content a).trans (if_neg (by omega))
  · intro a
    rw [← filter_programs_flashOps]
    rcases ops with none | some
    · rw [none]
      exact Nat.zero_le _
    · rw [some, List.filter_cons_of_neg (by simp [Obs.programs])]
      exact writesFrom_once _ _ _
  · intro a below
    rw [← filter_programs_flashOps]
    rcases ops with none | some
    · rw [none]
      rfl
    · rw [some, List.filter_cons_of_neg (by simp [Obs.programs])]
      exact writesFrom_below below _

end Runs

end SecureBootloader
