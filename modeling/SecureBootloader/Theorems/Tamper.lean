import SecureBootloader.Aes.Permutation
import SecureBootloader.Theorems.MacInput

/-!
# Tampering with one MAC block is caught

Since `AES_EncryptBlock` is a permutation under any key schedule, a difference
in one block survives the rest of the chain, and a changed signature alone no
longer matches an unchanged MAC.
-/

namespace SecureBootloader

open Lib

theorem bootCipher_injective : Function.Injective bootCipher :=
  aesEncryptBlock_injective roundKey

/-- Contents that differ in covered bytes, all of them inside one MAC block,
have different MACs. -/
theorem mac_ne_of_one_block {A B : Nat → Byte} {length b o : Nat} (covered : Covered length o)
    (changed : A (mainAppStartAddress + o) ≠ B (mainAppStartAddress + o))
    (inside : ∀ o, Covered length o →
      A (mainAppStartAddress + o) ≠ B (mainAppStartAddress + o) → o / 16 = b) :
    Cbc.mac bootCipher 0 (macBlocks A length) ≠ Cbc.mac bootCipher 0 (macBlocks B length) := by
  obtain ⟨position, byteA⟩ := blockAt_covered (m := A) covered
  have byteB := (blockAt_covered (m := B) covered).2
  rw [macBlocks_eq_map, macBlocks_eq_map]
  refine Cbc.mac_map_ne bootCipher_injective 0 (macPositions_nodup length) position ?_ ?_
  · intro same
    rw [same, byteB] at byteA
    exact changed byteA.symm
  · -- every other block has only bytes that agree
    intro i hi other
    refine blockAt_congr hi ?_
    intro o' covered' hpos
    by_contra differ
    exact other (hpos.symm.trans ((inside o' covered' differ).trans
      (inside o covered changed).symm))

/-! ## What counts as tampering -/

/-- `B` has another signature, and the covered bytes of `A`. -/
def SignatureTampered (A B : Flash) : Prop :=
  (∀ o, Covered (infoOf A).length o →
    A (mainAppStartAddress + o) = B (mainAppStartAddress + o)) ∧
  ∃ o, InSignature o ∧ A (mainAppStartAddress + o) ≠ B (mainAppStartAddress + o)

/-- `B` has the signature of `A`, and differs from it in covered bytes of exactly
one MAC block. -/
def BlockTampered (A B : Flash) : Prop :=
  (∀ o, InSignature o → A (mainAppStartAddress + o) = B (mainAppStartAddress + o)) ∧
  (∃ o, Covered (infoOf A).length o ∧
    A (mainAppStartAddress + o) ≠ B (mainAppStartAddress + o)) ∧
  ∃ b, ∀ o, Covered (infoOf A).length o →
    A (mainAppStartAddress + o) ≠ B (mainAppStartAddress + o) → o / 16 = b

theorem signatureOf_eq_iff (A B : Nat → Byte) :
    signatureOf A = signatureOf B ↔
      ∀ o, InSignature o → A (mainAppStartAddress + o) = B (mainAppStartAddress + o) := by
  rw [signatureOf, signatureOf, AesBlock.ofFn_inj, signatureAddress_eq]
  constructor
  · intro h o ⟨hlo, hhi⟩
    have byteEq := h (o - 0x1C0) (by omega)
    rwa [Nat.add_assoc, show 0x1C0 + (o - 0x1C0) = o by omega] at byteEq
  · intro h i hi
    rw [Nat.add_assoc]
    exact h _ ⟨by omega, by omega⟩

/-- An accepted content stores its own MAC. -/
theorem accepted_iff {flash : Flash} (fits : (infoOf flash).length ≤ appAreaSize) :
    (∃ fuel, validateFwImage (flashRead flash) fuel = .ok true) ↔
      HeaderOk (infoOf flash) ∧ signatureOf flash = imageMac flash := by
  have closed := validateFwImage_eq (flashRead_readsAs flash) fits (Nat.le_refl _)
  constructor
  · rintro ⟨fuel, accepted⟩
    have later := validateFwImage_settles (flashRead flash)
      (Nat.le_max_left fuel (blockCount (infoOf flash).length)) (by simp [accepted])
    rw [accepted, validateFwImage_eq (flashRead_readsAs flash) fits (Nat.le_max_right _ _)]
      at later
    exact of_decide_eq_true (Except.ok.inj later)
  · intro h
    exact ⟨_, closed.trans (congrArg _ (decide_eq_true h))⟩

/-! ## Storing the matching signature -/

/-- The content with its own MAC in the signature slot. -/
def sealed (m : Flash) : Flash := fun address =>
  if signatureAddress ≤ address ∧ address < signatureAddress + 16 then
    (imageMac m).byte (address - signatureAddress)
  else m address

/-- Sealing only touches the signature slot. -/
theorem sealed_covered (m : Flash) {o : Nat} (unsigned : ¬InSignature o) :
    sealed m (mainAppStartAddress + o) = m (mainAppStartAddress + o) := by
  refine if_neg fun inside => unsigned ?_
  rw [signatureAddress_eq] at inside
  exact ⟨by omega, by omega⟩

theorem sealed_sameProtected (m : Flash) : SameProtected (sealed m) m := by
  refine ⟨(infoOf_eq_iff _ _).mpr fun o info => sealed_covered m ?_,
    fun o _ unsigned => sealed_covered m unsigned⟩
  intro signed
  simp only [InInfo, InSignature] at info signed
  omega

/-- Every content with an accepted header and a length that fits is accepted
once it is sealed. -/
theorem sealed_accepted {m : Flash} (header : HeaderOk (infoOf m))
    (fits : (infoOf m).length ≤ appAreaSize) :
    ∃ fuel, validateFwImage (flashRead (sealed m)) fuel = .ok true := by
  have info : infoOf (sealed m) = infoOf m := (sealed_sameProtected m).1
  refine (accepted_iff (info ▸ fits)).mpr ⟨info ▸ header, ?_⟩
  have stored : signatureOf (sealed m) = imageMac m := by
    refine AesBlock.ext_byte ?_
    intro i hi
    rw [signatureOf, AesBlock.byte_ofFn _ hi, sealed, if_pos ⟨by omega, by omega⟩,
      Nat.add_sub_cancel_left]
  rw [stored, imageMac, imageMac, (macBlocks_eq_iff _ _).mpr (sealed_sameProtected m)]

/-! ## The result -/

/-- The validator rejects every content that differs from an accepted one of the
same length only in its signature, or only in one MAC block. -/
theorem tampered_rejected (A B : Flash) (fits : (infoOf A).length ≤ appAreaSize)
    (fuelA : Nat) (accepted : validateFwImage (flashRead A) fuelA = .ok true)
    (same_length : (infoOf B).length = (infoOf A).length)
    (tampered : SignatureTampered A B ∨ BlockTampered A B) :
    ∀ fuel, endIndex ≤ fuel → validateFwImage (flashRead B) fuel = .ok false := by
  intro fuel enough
  have fitsB : (infoOf B).length ≤ appAreaSize := same_length ▸ fits
  obtain ⟨-, storedA⟩ := (accepted_iff fits).mp ⟨fuelA, accepted⟩
  rw [validateFwImage_eq (flashRead_readsAs B) fitsB (Nat.le_trans (blockCount_le fitsB) enough)]
  refine congrArg Except.ok (decide_eq_false ?_)
  rintro ⟨-, storedB⟩
  rcases tampered with ⟨same, o, signed, changed⟩ | ⟨same, ⟨o, covered, changed⟩, b, inside⟩
  · -- equal MAC inputs, hence equal stored signatures
    have blocks : macBlocks A (infoOf A).length = macBlocks B (infoOf B).length := by
      refine (macBlocks_eq_iff A B).mpr ⟨?_, ?_⟩
      · exact (infoOf_eq_iff A B).mpr fun o info => same o (.inl info)
      · intro o below unsigned
        exact same o (.inr ⟨below, unsigned⟩)
    have signatures : signatureOf A = signatureOf B := by
      rw [storedA, storedB, imageMac, imageMac, blocks]
    exact changed ((signatureOf_eq_iff A B).mp signatures o signed)
  · have signatures : signatureOf A = signatureOf B := (signatureOf_eq_iff A B).mpr same
    rw [storedA, storedB, imageMac, imageMac, same_length] at signatures
    exact mac_ne_of_one_block covered changed inside signatures

/-- A sealed image with the lowest bit of one code byte, at offset 0x1D0, flipped. -/
def flippedImage : Flash := fun address =>
  if address = mainAppStartAddress + 0x1D0 then sealed (blankImage 0x1D8) address ^^^ 1
  else sealed (blankImage 0x1D8) address

theorem flippedImage_eq {o : Nat} (elsewhere : o ≠ 0x1D0) :
    flippedImage (mainAppStartAddress + o) =
      sealed (blankImage 0x1D8) (mainAppStartAddress + o) :=
  if_neg fun h => elsewhere (Nat.add_left_cancel h)

theorem flippedImage_tampered : BlockTampered (sealed (blankImage 0x1D8)) flippedImage := by
  refine ⟨fun o signed => (flippedImage_eq ?_).symm, ⟨0x1D0, .inr ⟨?_, by decide⟩, ?_⟩,
    29, fun o _ changed => ?_⟩
  · simp only [InSignature] at signed
    omega
  · rw [(sealed_sameProtected _).1]
    decide +kernel
  · rw [flippedImage, if_pos rfl, sealed_covered _ (by decide)]
    decide +kernel
  · by_contra elsewhere
    exact changed (flippedImage_eq (by omega)).symm

theorem tampered_rejected_flippedImage :
    BlockTampered (sealed (blankImage 0x1D8)) flippedImage ∧
      validateFwImage (flashRead flippedImage) endIndex = .ok false := by
  have info : infoOf (sealed (blankImage 0x1D8)) = infoOf (blankImage 0x1D8) :=
    (sealed_sameProtected _).1
  have flipped : infoOf flippedImage = infoOf (sealed (blankImage 0x1D8)) :=
    (infoOf_eq_iff _ _).mpr fun o inside => flippedImage_eq fun h => by
      rw [h] at inside
      exact absurd inside.2 (by decide)
  obtain ⟨fuel, accepted⟩ := sealed_accepted (m := blankImage 0x1D8) (by decide +kernel)
    (by decide +kernel)
  refine ⟨flippedImage_tampered, ?_⟩
  exact tampered_rejected _ _ (by rw [info]; decide +kernel) fuel accepted
    (by rw [flipped]) (.inr flippedImage_tampered) endIndex (Nat.le_refl _)

end SecureBootloader
