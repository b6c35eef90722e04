import SecureBootloader.Boot.QueueInv
import SecureBootloader.Theorems.FlashGuard

/-!
# Delivery of acknowledged packets

`comms_update` reads all the bytes there are before the main loop takes a single
packet, and stores each packet whether there is room or not. Packets are
delivered in order and without loss exactly as long as no more than seven of
those read have not been taken yet.
-/

namespace SecureBootloader

/-- The breakpoint was not reached, and what was taken is what was stored first. -/
def Delivered (t : Trace) : Prop := .overrun ∉ t ∧ t.taken <+: t.stored

/-- At most seven of the intact packets read so far have not been taken. -/
def FewUnread (t : Trace) : Prop := (packetsOf t.commsBytes).length ≤ t.taken.length + 7

/-! ## Runs -/

section Runs

variable (drv : FlashDriver) (validate : Flash → Option Bool) (flash0 : Flash)
  (es : List BootEvent)

/-- A run with few unread packets at all times does not overrun. -/
theorem no_overrun_run
    (few : ∀ es', es' <+: es → FewUnread (bootRun drv validate flash0 es').trace) :
    .overrun ∉ (bootRun drv validate flash0 es).trace := by
  induction es using List.reverseRecOn with
  | nil => exact List.not_mem_nil
  | append_singleton es e ih =>
    have before := ih fun es' h => few es' (h.trans (List.prefix_append es [e]))
    have after := few (es ++ [e]) (List.prefix_refl _)
    rw [bootRun_concat] at after ⊢
    rcases bootStep_session drv validate (bootRun drv validate flash0 es) e with same | ⟨-, step⟩
    · exact (congrArg (fun v => .overrun ∉ Session.trace v) same).mpr before
    · exact (bootRun_queueInv drv validate flash0 es).no_overrun (receiverStep step) before after

/-- In every run: the breakpoint is never reached and the packets taken are always
the first ones stored, if and only if there are never more than seven packets unread. -/
theorem delivered_iff :
    (∀ es', es' <+: es → Delivered (bootRun drv validate flash0 es').trace) ↔
      ∀ es', es' <+: es → FewUnread (bootRun drv validate flash0 es').trace := by
  constructor
  · intro delivered es' hprefix
    have inv := bootRun_queueInv drv validate flash0 es'
    have fifo := congrArg List.length (inv.fifo (delivered es' hprefix).1)
    have most := queue_length_le inv.ok
    rw [inv.stored, List.length_append] at fifo
    show (packetsOf (bootRun drv validate flash0 es').session.trace.commsBytes).length ≤ _
    rw [fifo]
    exact Nat.add_le_add_left most _
  · intro few es' hprefix
    have inv := bootRun_queueInv drv validate flash0 es'
    have safe := no_overrun_run drv validate flash0 es' fun es'' h => few es'' (h.trans hprefix)
    exact ⟨safe, _, (inv.fifo safe).symm⟩

end Runs

/-! ## A run that overruns the queue -/

/-- Eight packets of zeros arrive while `comms_update` runs. -/
def overrunEvents : List BootEvent :=
  .main :: arrivals syncBytes ++ [.main, .main] ++ arrivals (List.replicate 144 0)

theorem overrun_not_delivered :
    ¬Delivered (bootRun stm32Flash validateFlash (fun _ => 0) overrunEvents).trace := by
  intro delivered
  exact absurd delivered.1 (by decide +kernel)

end SecureBootloader
