import SecureBootloader.Boot.MacWalk

/-!
# The MAC input encodes the protected image

What `validate_fw_image` chains is a prefix-free encoding of the info block and
of the image bytes outside the signature slot: the info block comes first and
carries the length, so one input is never a proper prefix of another, and equal
inputs come from equal protected bytes.
-/

namespace SecureBootloader

open Lib

/-! ## Blocks by position -/

/-- The positions of the MAC input as 16-byte block indices of the image: the
info block (27) is moved to the front. -/
def macPositions (length : Nat) : List Nat := 27 :: macIndices 0 (blockCount length)

/-- The plaintext block at a position. The info block is taken whole whatever
the length is. -/
def blockAt (m : Nat → Byte) (length i : Nat) : AesBlock :=
  if i = 27 then AesBlock.ofFn fun j => m (fwinfoAddress + j) else macBlock m length (16 * i)

theorem mem_macPositions {length i : Nat} :
    i ∈ macPositions length ↔ i = 27 ∨ (i < blockCount length ∧ i ≠ 27 ∧ i ≠ 28) := by
  simp [macPositions, macIndices]

theorem macPositions_nodup (length : Nat) : (macPositions length).Nodup := by
  refine List.nodup_cons.mpr ⟨?_, ?_⟩
  · simp [macIndices]
  · exact (List.nodup_range' _).filter _

theorem macBlocks_eq_map (m : Nat → Byte) (length : Nat) :
    macBlocks m length = (macPositions length).map (blockAt m length) := by
  rw [macBlocks, macPositions, List.map_cons, blockAt, if_pos rfl]
  refine congrArg _ (List.map_congr_left ?_)
  intro i hi
  have outside : i ≠ 27 := by
    simp only [macIndices, List.mem_filter, decide_eq_true_eq] at hi
    exact hi.2.1
  rw [blockAt, if_neg outside]

/-! ## Protected bytes -/

/-- The signature slot, as image offsets. -/
def InSignature (o : Nat) : Prop := 0x1C0 ≤ o ∧ o < 0x1D0

instance (o : Nat) : Decidable (InSignature o) := inferInstanceAs (Decidable (_ ∧ _))

/-- The info block, as image offsets. -/
def InInfo (o : Nat) : Prop := 0x1B0 ≤ o ∧ o < 0x1C0

/-- The image offsets the MAC covers: the info block, and everything below the
length but the signature slot. -/
def Covered (length o : Nat) : Prop := InInfo o ∨ (o < length ∧ ¬InSignature o)

/-- Two contents with the same info block and the same image bytes below its
length, the signature slot apart. -/
def SameProtected (A B : Nat → Byte) : Prop :=
  infoOf A = infoOf B ∧
    ∀ o, o < (infoOf A).length → ¬InSignature o →
      A (mainAppStartAddress + o) = B (mainAppStartAddress + o)

/-- A covered byte sits in the block at position `o / 16`. -/
theorem blockAt_covered {m : Nat → Byte} {length o : Nat} (h : Covered length o) :
    o / 16 ∈ macPositions length ∧
      (blockAt m length (o / 16)).byte (o % 16) = m (mainAppStartAddress + o) := by
  have inside : o % 16 < 16 := Nat.mod_lt _ (by decide)
  by_cases info : InInfo o
  · have position : o / 16 = 27 := by simp only [InInfo] at info; omega
    have offset : 0x1B0 + o % 16 = o := by omega
    refine ⟨mem_macPositions.mpr (.inl position), ?_⟩
    rw [blockAt, if_pos position, AesBlock.byte_ofFn _ inside, fwinfoAddress_eq, Nat.add_assoc,
      offset]
  · obtain ⟨below, unsigned⟩ := h.resolve_left info
    simp only [InInfo, InSignature] at info unsigned
    have offset : 16 * (o / 16) + o % 16 = o := Nat.div_add_mod o 16
    refine ⟨mem_macPositions.mpr (.inr ⟨?_, by omega, by omega⟩), ?_⟩
    · rw [blockCount]; omega
    · rw [blockAt, if_neg (by omega), macBlock, AesBlock.byte_ofFn _ inside, offset, if_pos below]

/-- Blocks at a position agree as soon as the covered bytes in them do. -/
theorem blockAt_congr {A B : Nat → Byte} {length i : Nat} (hi : i ∈ macPositions length)
    (h : ∀ o, Covered length o → o / 16 = i →
      A (mainAppStartAddress + o) = B (mainAppStartAddress + o)) :
    blockAt A length i = blockAt B length i := by
  by_cases info : i = 27
  · rw [blockAt, blockAt, if_pos info, if_pos info, fwinfoAddress_eq]
    refine AesBlock.ofFn_congr ?_
    intro j hj
    rw [Nat.add_assoc]
    exact h _ (.inl ⟨by omega, by omega⟩) (by omega)
  · rw [blockAt, blockAt, if_neg info, if_neg info, macBlock, macBlock]
    refine AesBlock.ofFn_congr ?_
    intro j hj
    by_cases below : 16 * i + j < length
    · have position := mem_macPositions.mp hi
      rw [if_pos below, if_pos below]
      refine h _ (.inr ⟨below, fun signed => ?_⟩) (by omega)
      simp only [InSignature] at signed
      omega
    · rw [if_neg below, if_neg below]

theorem macBlocks_congr {A B : Nat → Byte} {length : Nat}
    (h : ∀ o, Covered length o → A (mainAppStartAddress + o) = B (mainAppStartAddress + o)) :
    macBlocks A length = macBlocks B length := by
  rw [macBlocks_eq_map, macBlocks_eq_map]
  exact List.map_congr_left fun i hi => blockAt_congr hi fun o covered _ => h o covered

theorem infoOf_eq_iff (A B : Nat → Byte) :
    infoOf A = infoOf B ↔
      ∀ o, InInfo o → A (mainAppStartAddress + o) = B (mainAppStartAddress + o) := by
  rw [infoOf, infoOf, firmwareInfoAt_eq_iff, fwinfoAddress_eq]
  constructor
  · intro h o ⟨hlo, hhi⟩
    have byteEq := h (o - 0x1B0) (by omega)
    rwa [Nat.add_assoc, show 0x1B0 + (o - 0x1B0) = o by omega] at byteEq
  · intro h i hi
    rw [Nat.add_assoc]
    exact h _ ⟨by omega, by omega⟩

/-- Equal MAC inputs are exactly equal protected images. -/
theorem macBlocks_eq_iff (A B : Nat → Byte) :
    macBlocks A (infoOf A).length = macBlocks B (infoOf B).length ↔ SameProtected A B := by
  constructor
  · intro h
    -- the first block gives the info block, hence one length
    have info : infoOf A = infoOf B := by
      refine (firmwareInfoAt_eq_iff A B _).mpr (AesBlock.ofFn_inj.mp ?_)
      exact (List.cons.inj h).1
    refine ⟨info, ?_⟩
    intro o below unsigned
    obtain ⟨position, byteA⟩ := blockAt_covered (m := A) (.inr ⟨below, unsigned⟩)
    have byteB := (blockAt_covered (m := B) (.inr ⟨below, unsigned⟩)).2
    rw [macBlocks_eq_map, macBlocks_eq_map, ← info] at h
    rw [← byteA, ← byteB, List.map_inj_left.mp h _ position]
  · rintro ⟨info, bytes⟩
    rw [← info]
    refine macBlocks_congr ?_
    intro o covered
    rcases covered with inside | ⟨below, unsigned⟩
    · exact (infoOf_eq_iff A B).mp info o inside
    · exact bytes o below unsigned

/-- The info block is the first block and determines the number of blocks. -/
theorem macBlocks_prefixFree :
    Cbc.PrefixFree fun m : Nat → Byte => macBlocks m (infoOf m).length := by
  refine Cbc.prefixFree_of_header (fun m => by simp [macBlocks]) fun A B head => ?_
  have info : infoOf A = infoOf B := by
    refine (firmwareInfoAt_eq_iff A B _).mpr (AesBlock.ofFn_inj.mp ?_)
    exact Option.some.inj head
  rw [macBlocks, macBlocks, info]
  simp

/-! ## The walk of the validator -/

theorem blockCount_le {length : Nat} (fits : length ≤ appAreaSize) :
    blockCount length ≤ endIndex := by
  have area : appAreaSize = 0x78000 := rfl
  have last : endIndex = 0x7800 := rfl
  rw [blockCount]
  omega

/-- For two contents whose lengths fit, both walks end; if the blocks fed for the
one are a prefix of the blocks fed for the other, the contents have the same
protected image, and contents with the same protected image feed the same
blocks. The sentinel and device checks play no part in it. -/
theorem macImage_exact_encoding (A B : Flash) (fitsA : (infoOf A).length ≤ appAreaSize)
    (fitsB : (infoOf B).length ≤ appAreaSize) :
    ∃ sA sB, (∀ fuel, endIndex ≤ fuel → macImage (flashRead A) fuel = .ok sA) ∧
      (∀ fuel, endIndex ≤ fuel → macImage (flashRead B) fuel = .ok sB) ∧
      (sA.fed <+: sB.fed → SameProtected A B) ∧
      (SameProtected A B → sA.fed = sB.fed) := by
  obtain ⟨sA, imageA, fedA, -⟩ := macImage_eq (flashRead_readsAs A) fitsA
  obtain ⟨sB, imageB, fedB, -⟩ := macImage_eq (flashRead_readsAs B) fitsB
  refine ⟨sA, sB, fun fuel enough => imageA fuel (Nat.le_trans (blockCount_le fitsA) enough),
    fun fuel enough => imageB fuel (Nat.le_trans (blockCount_le fitsB) enough), ?_, ?_⟩
  · intro hprefix
    rw [fedA, fedB] at hprefix
    exact (macBlocks_eq_iff A B).mp (macBlocks_prefixFree A B hprefix)
  · intro same
    rw [fedA, fedB]
    exact (macBlocks_eq_iff A B).mpr same

/-- A flash with an accepted header, `length` as given and zeros elsewhere. -/
def blankImage (length : Nat) : Flash := fun address =>
  let i := address - fwinfoAddress
  if address < fwinfoAddress then 0
  else if i < 4 then leByte firmwareInfoSentinel i
  else if i < 8 then leByte deviceId (i - 4)
  else if 12 ≤ i ∧ i < 16 then leByte length (i - 12)
  else 0

theorem blankImage_info (length i : Nat) :
    blankImage length (mainAppStartAddress + (0x1B0 + i)) =
      if i < 4 then leByte firmwareInfoSentinel i
      else if i < 8 then leByte deviceId (i - 4)
      else if 12 ≤ i ∧ i < 16 then leByte length (i - 12)
      else 0 := by
  rw [blankImage, fwinfoAddress_eq, ← Nat.add_assoc, if_neg (by omega), Nat.add_sub_cancel_left]

/-- Two lengths that end inside one block, 0x1D8 and 0x1DC. -/
theorem macImage_exact_encoding_blankImage :
    (HeaderOk (infoOf (blankImage 0x1D8)) ∧ HeaderOk (infoOf (blankImage 0x1DC))) ∧
    ∃ sA sB,
      (∀ fuel, endIndex ≤ fuel → macImage (flashRead (blankImage 0x1D8)) fuel = .ok sA) ∧
      (∀ fuel, endIndex ≤ fuel → macImage (flashRead (blankImage 0x1DC)) fuel = .ok sB) ∧
      (sA.fed <+: sB.fed → SameProtected (blankImage 0x1D8) (blankImage 0x1DC)) ∧
      (SameProtected (blankImage 0x1D8) (blankImage 0x1DC) → sA.fed = sB.fed) :=
  ⟨by decide +kernel, macImage_exact_encoding _ _ (by decide +kernel) (by decide +kernel)⟩

end SecureBootloader
