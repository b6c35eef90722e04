import SecureBootloader.Boot.MacWalk

/-!
# Which flash contents the validator survives

`validate_fw_image` takes the length of its walk from the flash it is about to
judge, and nothing bounds that length. The walk stays inside the flash exactly
when the header is refused or the length fits the application area.
-/

namespace SecureBootloader

/-! ## The exact condition -/

/-- On this flash the validator ends with a verdict, and however many iterations
it is granted it never loads a byte outside the flash. -/
def ValidatesSafely (flash : Flash) : Prop :=
  (∃ fuel accepted, validateFwImage (flashRead flash) fuel = .ok accepted) ∧
    ∀ fuel address, validateFwImage (flashRead flash) fuel ≠ .error (.badRead address)

/-- A run that ends with a verdict at some fuel faults at no fuel. -/
theorem validatesSafely_of_ok {flash : Flash} {fuel : Nat} {accepted : Bool}
    (h : validateFwImage (flashRead flash) fuel = .ok accepted) : ValidatesSafely flash := by
  refine ⟨⟨fuel, accepted, h⟩, ?_⟩
  intro fuel' address fault
  rcases Nat.le_total fuel fuel' with hle | hle
  · have later := validateFwImage_settles (flashRead flash) hle (by simp [h])
    rw [fault, h] at later
    cases later
  · have later := validateFwImage_settles (flashRead flash) hle (by simp [fault])
    rw [fault, h] at later
    cases later

/-- A refused header is refused before the length is looked at. -/
theorem validateFwImage_of_not_header {flash : Flash} (header : ¬HeaderOk (infoOf flash))
    (fuel : Nat) : validateFwImage (flashRead flash) fuel = .ok false := by
  rw [validateFwImage, headerAccepted_eq (flashRead_readsAs flash), decide_eq_false header]
  rfl

/-- A length beyond the application area makes the validator load the first
byte above the flash. -/
theorem validateFwImage_fault {flash : Flash} (header : HeaderOk (infoOf flash))
    (beyond : appAreaSize < (infoOf flash).length) {fuel : Nat} (enough : endIndex < fuel) :
    validateFwImage (flashRead flash) fuel = .error (.badRead (flashBase + flashSize)) := by
  rw [validateFwImage, headerAccepted_eq (flashRead_readsAs flash), decide_eq_true header]
  show (macImage (flashRead flash) fuel >>= _) = _
  rw [macImage_fault flash beyond enough]
  rfl

/-- The validator is safe on a flash content if and only if it refuses the
header or the stored length fits the application area. -/
theorem validatesSafely_iff (flash : Flash) :
    ValidatesSafely flash ↔
      ¬(HeaderOk (infoOf flash) ∧ appAreaSize < (infoOf flash).length) := by
  constructor
  · intro safe ⟨header, beyond⟩
    exact safe.2 _ _ (validateFwImage_fault header beyond (Nat.lt_succ_self endIndex))
  · intro within
    by_cases header : HeaderOk (infoOf flash)
    · have fits : (infoOf flash).length ≤ appAreaSize :=
        Nat.le_of_not_lt fun beyond => within ⟨header, beyond⟩
      exact validatesSafely_of_ok
        (validateFwImage_eq (flashRead_readsAs flash) fits (Nat.le_refl _))
    · exact validatesSafely_of_ok (validateFwImage_of_not_header header 0)

/-- An info block as `info.c` initializes it, before any signing: sentinel and
device id are right, version and length are `0xFFFFFFFF`. The rest is erased. -/
def unsignedFlash : Flash := fun address =>
  if address < fwinfoAddress then 0xFF
  else [0xDE, 0xC0, 0xAD, 0xDE, 0x42, 0x00, 0x00, 0x00].getD (address - fwinfoAddress) 0xFF

/-- Its length field is `0xFFFFFFFF`, and the walk runs off the flash. -/
theorem unsignedFlash_not_safe : ¬ValidatesSafely unsignedFlash := by
  intro safe
  have header : HeaderOk (infoOf unsignedFlash) := by decide +kernel
  have beyond : appAreaSize < (infoOf unsignedFlash).length := by decide +kernel
  exact safe.2 _ _
    (validateFwImage_fault header beyond (Nat.lt_succ_self endIndex))

end SecureBootloader
