import SecureBootloader.Boot.Validate

/-!
# Erasing and programming the flash

`bl-flash.c` over the flash operations of libopencm3. These are a parameter
that carries what its documentation says of them: erasing sets a whole sector
to 0xFF, programming can only clear bits.
-/

namespace SecureBootloader

/-- Where sector `s` of the 512 KB part starts: four sectors of 16 KB, one of
64 KB, three of 128 KB. -/
def sectorStart (s : Nat) : Nat := flashBase + if s ≤ 4 then 0x4000 * s else 0x20000 * (s - 4)

/-- `flash_erase_sector` and `flash_program`. -/
structure FlashDriver where
  eraseSector : Nat → Flash → Flash
  program : Nat → List Byte → Flash → Flash
  erase_spec : ∀ sector flash a, sector < 8 → eraseSector sector flash a =
    if sectorStart sector ≤ a ∧ a < sectorStart (sector + 1) then 0xFF else flash a
  program_spec : ∀ address data flash a, program address data flash a =
    if address ≤ a ∧ a < address + data.length then flash a &&& data.getD (a - address) 0
    else flash a

/-- The operations as functions of the content. -/
def stm32Flash : FlashDriver where
  eraseSector sector flash a :=
    if sectorStart sector ≤ a ∧ a < sectorStart (sector + 1) then 0xFF else flash a
  program address data flash a :=
    if address ≤ a ∧ a < address + data.length then flash a &&& data.getD (a - address) 0
    else flash a
  erase_spec _ _ _ _ := rfl
  program_spec _ _ _ _ := rfl

/-- `MAIN_APP_SECTOR_START`. -/
def mainAppSectorStart : Nat := 2

/-- `MAIN_APP_SECTOR_END`. -/
def mainAppSectorEnd : Nat := 7

/-- `bl_flash_erase_main_application`. -/
def blFlashEraseMainApplication (drv : FlashDriver) (flash : Flash) : Flash :=
  (List.range' mainAppSectorStart (mainAppSectorEnd + 1 - mainAppSectorStart)).foldl
    (fun flash sector => drv.eraseSector sector flash) flash

/-- `bl_flash_write`. -/
def blFlashWrite (drv : FlashDriver) (address : Nat) (data : List Byte) (flash : Flash) : Flash :=
  drv.program address data flash

/-- The erased sectors are the application area, and nothing else. -/
theorem blFlashEraseMainApplication_spec (drv : FlashDriver) (flash : Flash) (a : Nat) :
    blFlashEraseMainApplication drv flash a =
      if mainAppStartAddress ≤ a ∧ a < flashBase + flashSize then 0xFF else flash a := by
  have sectors : List.range' mainAppSectorStart (mainAppSectorEnd + 1 - mainAppSectorStart) =
    [2, 3, 4, 5, 6, 7] := rfl
  have start2 : sectorStart 2 = mainAppStartAddress := rfl
  have start3 : sectorStart 3 = mainAppStartAddress + 0x4000 := rfl
  have start4 : sectorStart 4 = mainAppStartAddress + 0x8000 := rfl
  have start5 : sectorStart 5 = mainAppStartAddress + 0x18000 := rfl
  have start6 : sectorStart 6 = mainAppStartAddress + 0x38000 := rfl
  have start7 : sectorStart 7 = mainAppStartAddress + 0x58000 := rfl
  have start8 : sectorStart 8 = mainAppStartAddress + 0x78000 := rfl
  have top : flashBase + flashSize = mainAppStartAddress + 0x78000 := rfl
  rw [blFlashEraseMainApplication, sectors]
  simp only [List.foldl_cons, List.foldl_nil, drv.erase_spec _ _ _ (by decide : 2 < 8),
    drv.erase_spec _ _ _ (by decide : 3 < 8), drv.erase_spec _ _ _ (by decide : 4 < 8),
    drv.erase_spec _ _ _ (by decide : 5 < 8), drv.erase_spec _ _ _ (by decide : 6 < 8),
    drv.erase_spec _ _ _ (by decide : 7 < 8), start2, start3, start4, start5, start6, start7,
    start8, top]
  grind

theorem blFlashWrite_spec (drv : FlashDriver) (address : Nat) (data : List Byte) (flash : Flash)
    (a : Nat) :
    blFlashWrite drv address data flash a =
      if address ≤ a ∧ a < address + data.length then flash a &&& data.getD (a - address) 0
      else flash a :=
  drv.program_spec address data flash a

end SecureBootloader
