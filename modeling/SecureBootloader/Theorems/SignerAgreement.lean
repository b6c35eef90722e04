import SecureBootloader.Signer.Main
import SecureBootloader.Theorems.Tamper

/-!
# Where signer and validator agree

The signer lets the cipher tool pad, so an aligned input gets one more block of
`0x10`. The validator pads an unaligned image the same way but stops an aligned
one at its last block. The two chains therefore agree on every image of a length
that is not a multiple of 16, and on no other length for every image.
-/

namespace SecureBootloader

open Lib Signer

/-! ## Byte strings -/

theorem sliceAssign_length {buffer bytes : List Byte} {start stop : Nat} (ordered : start ≤ stop)
    (inside : stop ≤ buffer.length) (fits : bytes.length = stop - start) :
    (sliceAssign buffer start stop bytes).length = buffer.length := by
  simp only [sliceAssign, List.length_append, List.length_take, List.length_drop, fits]
  omega

theorem sliceAssign_getD {buffer bytes : List Byte} {start stop : Nat} (ordered : start ≤ stop)
    (inside : stop ≤ buffer.length) (fits : bytes.length = stop - start) (i : Nat) :
    (sliceAssign buffer start stop bytes).getD i 0 =
      if start ≤ i ∧ i < stop then bytes.getD (i - start) 0 else buffer.getD i 0 := by
  have front : (buffer.take start).length = start := by rw [List.length_take]; omega
  simp only [sliceAssign, List.getD_eq_getElem?_getD, List.append_assoc]
  by_cases before : i < start
  · rw [if_neg (by omega), List.getElem?_append_left (by omega), List.getElem?_take_of_lt before]
  · rw [List.getElem?_append_right (by omega), front]
    by_cases within : i < stop
    · rw [if_pos ⟨by omega, within⟩, List.getElem?_append_left (by omega)]
    · rw [if_neg (by omega), List.getElem?_append_right (by omega), List.getElem?_drop, fits,
        show stop + (i - start - (stop - start)) = i by omega]

theorem packInto_ok (buffer : List Byte) (offset : Nat) (value : Int)
    (room : offset + 4 ≤ buffer.length) (nonneg : 0 ≤ value) (small : value < 2 ^ 32) :
    packInto buffer offset value =
      .ok (sliceAssign buffer offset (offset + 4) ((List.range 4).map (leByte value.toNat))) := by
  rw [packInto, if_neg (by omega), if_neg (by omega)]

/-! ## The patched image -/

/-- What patching does: the two fields are set, every other byte is kept. -/
structure Patched (image : List Byte) (version : Int) (fwImage : List Byte) : Prop where
  length_eq : fwImage.length = image.length
  version_field : ∀ i, i < 4 → fwImage.getD (0x1B8 + i) 0 = leByte version.toNat i
  length_field : ∀ i, i < 4 → fwImage.getD (0x1BC + i) 0 = leByte image.length i
  other : ∀ o, o < 0x1B8 ∨ 0x1C0 ≤ o → fwImage.getD o 0 = image.getD o 0

theorem patchInfo_ok (image : List Byte) (version : Int) (long : 0x1D0 ≤ image.length)
    (short : image.length < 2 ^ 32) (nonneg : 0 ≤ version) (small : version < 2 ^ 32) :
    ∃ fwImage, patchInfo image version = .ok fwImage ∧ Patched image version fwImage := by
  have first := packInto_ok image 0x1B8 version (by omega) nonneg small
  generalize hbytes : (List.range 4).map (leByte version.toNat) = bytes at first
  have fits : bytes.length = 0x1BC - 0x1B8 := by rw [← hbytes]; rfl
  have keep : (sliceAssign image 0x1B8 0x1BC bytes).length = image.length :=
    sliceAssign_length (by omega) (by omega) fits
  have second := packInto_ok (sliceAssign image 0x1B8 0x1BC bytes) 0x1BC (image.length : Int)
    (by omega) (by omega) (by omega)
  have fields : ((List.range 4).map (leByte image.length)).length = 0x1C0 - 0x1BC := rfl
  refine ⟨sliceAssign (sliceAssign image 0x1B8 0x1BC bytes) 0x1BC 0x1C0
    ((List.range 4).map (leByte image.length)), ?_, ?_, ?_, ?_, ?_⟩
  · show (packInto image 0x1B8 version >>= fun fwImage =>
      packInto fwImage 0x1BC fwImage.length) = _
    rw [first]
    show packInto (sliceAssign image 0x1B8 0x1BC bytes) 0x1BC
      (sliceAssign image 0x1B8 0x1BC bytes).length = _
    rw [keep, second, Int.toNat_natCast]
  · rw [sliceAssign_length (by omega) (by omega) fields, keep]
  · intro i hi
    rw [sliceAssign_getD (by omega) (by omega) fields, if_neg (by omega),
      sliceAssign_getD (by omega) (by omega) fits, if_pos ⟨by omega, by omega⟩,
      Nat.add_sub_cancel_left, ← hbytes]
    simp [List.getD_eq_getElem?_getD, hi]
  · intro i hi
    rw [sliceAssign_getD (by omega) (by omega) fields, if_pos ⟨by omega, by omega⟩,
      Nat.add_sub_cancel_left]
    simp [List.getD_eq_getElem?_getD, hi]
  · intro o outside
    rw [sliceAssign_getD (by omega) (by omega) fields, if_neg (by omega),
      sliceAssign_getD (by omega) (by omega) fits, if_neg (by omega)]

/-! ## The signing input as blocks -/

/-- The padding block an aligned input gets. -/
def padBlock : AesBlock := AesBlock.ofFn fun _ => 16

theorem signingImage_length {fwImage : List Byte} (long : 0x1D0 ≤ fwImage.length) :
    (signingImage fwImage).length = fwImage.length - 16 := by
  simp only [signingImage, slice, fwinfoOffset, aesBlockSize, List.length_append,
    List.length_drop, List.length_take]
  omega

/-- The signing input byte by byte: the info block, the vector table, the body
after the signature slot. -/
theorem signingImage_getD {fwImage : List Byte} (long : 0x1D0 ≤ fwImage.length) (q : Nat) :
    (signingImage fwImage).getD q 0 =
      if q < 16 then fwImage.getD (0x1B0 + q) 0
      else if q < 0x1C0 then fwImage.getD (q - 16) 0
      else fwImage.getD (q + 16) 0 := by
  have info : (slice fwImage 0x1B0 0x1C0).length = 16 := by
    rw [slice, List.length_drop, List.length_take]; omega
  have table : (fwImage.take 0x1B0).length = 0x1B0 := by rw [List.length_take]; omega
  show (slice fwImage 0x1B0 0x1C0 ++ fwImage.take 0x1B0 ++ fwImage.drop 0x1D0).getD q 0 = _
  simp only [List.getD_eq_getElem?_getD, List.append_assoc]
  by_cases first : q < 16
  · rw [if_pos first, List.getElem?_append_left (by omega), slice, List.getElem?_drop,
      List.getElem?_take_of_lt (by omega)]
  · rw [if_neg first, List.getElem?_append_right (by omega), info]
    by_cases second : q < 0x1C0
    · rw [if_pos second, List.getElem?_append_left (by omega),
        List.getElem?_take_of_lt (by omega)]
    · rw [if_neg second, List.getElem?_append_right (by omega), table, List.getElem?_drop,
        show 0x1D0 + (q - 16 - 0x1B0) = q + 16 by omega]

theorem padded_length {fwImage : List Byte} (long : 0x1D0 ≤ fwImage.length) :
    (Cbc.pkcs7 aesBlockSize (BitVec.ofNat 8) (signingImage fwImage)).length =
      16 * (fwImage.length / 16) := by
  rw [Cbc.pkcs7_length_eq aesBlockSize _ (by decide), signingImage_length long, aesBlockSize]
  omega

/-- Below the length of the signing input padding changes nothing; the bytes
above it are the number of bytes missing to the next block. -/
theorem padded_getD {fwImage : List Byte} (long : 0x1D0 ≤ fwImage.length) {q : Nat}
    (hq : q < 16 * (fwImage.length / 16)) :
    (Cbc.pkcs7 aesBlockSize (BitVec.ofNat 8) (signingImage fwImage)).getD q 0 =
      if q + 16 < fwImage.length then (signingImage fwImage).getD q 0
      else BitVec.ofNat 8 (16 - fwImage.length % 16) := by
  have input := signingImage_length long
  have missing : aesBlockSize - (signingImage fwImage).length % aesBlockSize =
      16 - fwImage.length % 16 := by
    rw [input, aesBlockSize]; omega
  simp only [Cbc.pkcs7, List.getD_eq_getElem?_getD, missing]
  by_cases inside : q + 16 < fwImage.length
  · rw [if_pos inside, List.getElem?_append_left (by omega)]
  · rw [if_neg inside, List.getElem?_append_right (by omega), List.getElem?_replicate,
      if_pos (by omega), Option.getD_some]

/-- The position in the image of block `k` of the signing input. -/
def signedPosition (k : Nat) : Nat :=
  if k = 0 then 27 else if k ≤ 27 then k - 1 else k + 1

/-- The walk of the validator visits these positions in this order. -/
theorem macPositions_eq {length : Nat} (long : 0x1D0 ≤ length) :
    macPositions length = (List.range (blockCount length - 1)).map signedPosition := by
  obtain ⟨r, hr⟩ : ∃ r, blockCount length = 29 + r :=
    ⟨blockCount length - 29, by rw [blockCount]; omega⟩
  have walk : macIndices 0 (29 + r) = List.range 27 ++ List.range' 29 r := by
    have split : List.range' 0 (29 + r) = List.range' 0 29 ++ List.range' 29 r := by
      rw [List.range'_append_1]
    rw [macIndices, split, List.filter_append]
    refine congrArg₂ _ (by decide) (List.filter_eq_self.mpr fun i hi => ?_)
    have := (List.mem_range'_1.mp hi).1
    simp; omega
  have count : 29 + r - 1 = 28 + r := by omega
  rw [macPositions, hr, walk, count, List.range_add, List.map_append]
  have front : 27 :: List.range 27 = (List.range 28).map signedPosition := by decide
  show (27 :: List.range 27) ++ List.range' 29 r = _
  rw [front, List.range'_eq_map_range, List.map_map]
  refine congrArg _ ?_
  refine List.map_congr_left ?_
  intro i _
  rw [Function.comp_apply, signedPosition, if_neg (by omega), if_neg (by omega)]
  omega

/-- The flash holds `image` from the start of the application area. -/
def HoldsAt (flash : Flash) (image : List Byte) : Prop :=
  ∀ i, i < image.length → flash (mainAppStartAddress + i) = image.getD i 0

section Blocks

variable {fwImage : List Byte} {m : Nat → Byte} (long : 0x1D0 ≤ fwImage.length)
  (holds : ∀ o, o < fwImage.length → ¬InSignature o →
    m (mainAppStartAddress + o) = fwImage.getD o 0)

/-- Block `k` of the padded signing input. -/
def signedBlock (fwImage : List Byte) (k : Nat) : AesBlock :=
  AesBlock.ofFn fun j =>
    (Cbc.pkcs7 aesBlockSize (BitVec.ofNat 8) (signingImage fwImage)).getD (16 * k + j) 0

include long in
theorem signedBlock_trailer (whole : fwImage.length % 16 = 0) :
    signedBlock fwImage (blockCount fwImage.length - 1) = padBlock := by
  refine AesBlock.ofFn_congr ?_
  intro j hj
  rw [padded_getD long (by rw [blockCount]; omega), if_neg (by rw [blockCount]; omega), whole]
  rfl

include long holds in
theorem signedBlock_visited {k : Nat} (hk : k < blockCount fwImage.length - 1) :
    signedBlock fwImage k = blockAt m fwImage.length (signedPosition k) := by
  have bound : k < fwImage.length / 16 := by rw [blockCount] at hk; omega
  by_cases first : k = 0
  · subst first
    rw [blockAt, signedPosition, if_pos rfl, if_pos rfl, fwinfoAddress_eq]
    refine AesBlock.ofFn_congr ?_
    intro j hj
    rw [padded_getD long (by omega), if_pos (by omega), signingImage_getD long, if_pos (by omega),
      Nat.add_assoc, holds _ (by omega) (by simp only [InSignature]; omega), Nat.mul_zero,
      Nat.zero_add]
  · rw [signedPosition, if_neg first]
    by_cases table : k ≤ 27
    · rw [if_pos table, blockAt, if_neg (by omega), macBlock]
      refine AesBlock.ofFn_congr ?_
      intro j hj
      rw [padded_getD long (by omega), if_pos (by omega), signingImage_getD long,
        if_neg (by omega), if_pos (by omega), if_pos (by omega),
        holds _ (by omega) (by simp only [InSignature]; omega),
        show 16 * k + j - 16 = 16 * (k - 1) + j by omega]
    · -- the body, whose last block may be padded
      rw [if_neg table, blockAt, if_neg (by omega), macBlock]
      refine AesBlock.ofFn_congr ?_
      intro j hj
      rw [padded_getD long (by omega), show 16 * (k + 1) + j = 16 * k + j + 16 by omega]
      by_cases inside : 16 * k + j + 16 < fwImage.length
      · rw [if_pos inside, if_pos inside, signingImage_getD long, if_neg (by omega),
          if_neg (by omega), holds _ inside (by simp only [InSignature]; omega)]
      · rw [if_neg inside, if_neg inside]

include long holds in
/-- The blocks the cipher tool enciphers are those the validator absorbs, and for
an aligned image one more. -/
theorem blocksOf_padded :
    blocksOf (Cbc.pkcs7 aesBlockSize (BitVec.ofNat 8) (signingImage fwImage)) =
      macBlocks m fwImage.length ++ if fwImage.length % 16 = 0 then [padBlock] else [] := by
  have blocks : blocksOf (Cbc.pkcs7 aesBlockSize (BitVec.ofNat 8) (signingImage fwImage)) =
      (List.range (fwImage.length / 16)).map (signedBlock fwImage) := by
    rw [blocksOf, padded_length long, Nat.mul_div_cancel_left _ (by decide)]
    rfl
  have shared : (List.range (blockCount fwImage.length - 1)).map (signedBlock fwImage) =
      macBlocks m fwImage.length := by
    rw [macBlocks_eq_map, macPositions_eq long, List.map_map]
    exact List.map_congr_left fun k hk =>
      signedBlock_visited long holds (List.mem_range.mp hk)
  rw [blocks, ← shared]
  by_cases whole : fwImage.length % 16 = 0
  · have count : fwImage.length / 16 = blockCount fwImage.length - 1 + 1 := by
      rw [blockCount]; omega
    rw [if_pos whole, count, List.range_succ, List.map_append, List.map_singleton,
      signedBlock_trailer long whole]
  · have count : fwImage.length / 16 = blockCount fwImage.length - 1 := by
      rw [blockCount]; omega
    rw [if_neg whole, count, List.append_nil]

end Blocks

/-! ## The signature -/

theorem lastBlock_flatMap {blocks : List AesBlock} {b : AesBlock}
    (h : blocks.getLast? = some b) : lastBlock (blocks.flatMap AesBlock.bytes) = b.bytes := by
  obtain ⟨front, rfl⟩ := List.getLast?_eq_some_iff.mp h
  rw [lastBlock, List.flatMap_append, List.flatMap_singleton, List.length_append,
    AesBlock.bytes_length, aesBlockSize, Nat.add_sub_cancel, List.drop_left]

/-- The cipher tool is AES-128-CBC with PKCS#7 padding. -/
def IsAes128Cbc (openssl : Openssl) : Prop :=
  ∀ key iv input, openssl key iv input = aes128Cbc key iv input

/-- The last sixteen bytes of the output are the CBC-MAC of the input blocks. -/
theorem lastBlock_openssl {openssl : Openssl} (tool : IsAes128Cbc openssl) {input : List Byte}
    (nonempty : blocksOf (Cbc.pkcs7 aesBlockSize (BitVec.ofNat 8) input) ≠ []) :
    lastBlock (openssl Signer.key zeroedIv input) =
      (Cbc.mac bootCipher 0 (blocksOf (Cbc.pkcs7 aesBlockSize (BitVec.ofNat 8) input))).bytes := by
  rw [tool]
  exact lastBlock_flatMap (Cbc.encrypt_getLast? bootCipher 0 nonempty)

/-! ## Signing, then validating -/

/-- A firmware binary whose application part has `n` bytes and an info block with
the right sentinel and device id. -/
structure Signable (firmware : List Byte) (n : Nat) : Prop where
  length_eq : firmware.length = bootloaderSize + n
  header : HeaderOk
    (firmwareInfoAt (fun i => (firmware.drop bootloaderSize).getD i 0) fwinfoOffset)

/-- The script produces an image, and the validator accepts every flash that
holds it. -/
def Agrees (openssl : Openssl) (firmware : List Byte) (version : Int) : Prop :=
  ∃ image, signFirmware openssl firmware version = .ok image ∧
    ∀ flash, HoldsAt flash image → ∃ fuel, validateFwImage (flashRead flash) fuel = .ok true

/-- A memory that holds `bytes` from the start of the application area. -/
def memoryOf (bytes : List Byte) : Flash := fun address =>
  bytes.getD (address - mainAppStartAddress) 0

theorem memoryOf_holds (bytes : List Byte) : HoldsAt (memoryOf bytes) bytes := by
  intro i _
  rw [memoryOf, Nat.add_sub_cancel_left]

/-- The chaining value the signer stores, for the chaining value `mac` of the
validator: one more step when the image is aligned. -/
def signerMac (n : Nat) (mac : AesBlock) : AesBlock :=
  if n % 16 = 0 then bootCipher (padBlock + mac) else mac

/-- What the target sees of a patched image with `signature` in its slot. -/
theorem holds_withSignature {image fwImage : List Byte} {version : Int} {signature : AesBlock}
    {flash : Flash} (patched : Patched image version fwImage) (long : 0x1D0 ≤ image.length)
    (header : HeaderOk (firmwareInfoAt (fun i => image.getD i 0) fwinfoOffset))
    (short : image.length < 2 ^ 32)
    (holds : HoldsAt flash (withSignature fwImage signature.bytes)) :
    HeaderOk (infoOf flash) ∧ (infoOf flash).length = image.length ∧
      signatureOf flash = signature ∧
      ∀ o, o < image.length → ¬InSignature o →
        flash (mainAppStartAddress + o) = fwImage.getD o 0 := by
  have size := patched.length_eq
  have inside : fwinfoSignatureOffset + aesBlockSize ≤ fwImage.length := by
    show 0x1D0 ≤ _
    omega
  have slot : signature.bytes.length = 0x1D0 - 0x1C0 := signature.bytes_length
  have total : (withSignature fwImage signature.bytes).length = fwImage.length :=
    sliceAssign_length (by decide) inside slot
  have byteAt (o : Nat) (below : o < image.length) : flash (mainAppStartAddress + o) =
      if InSignature o then signature.bytes.getD (o - 0x1C0) 0 else fwImage.getD o 0 := by
    rw [holds o (by omega)]
    exact sliceAssign_getD (by decide) inside slot o
  have other (o : Nat) (below : o < image.length) (unsigned : ¬InSignature o) :
      flash (mainAppStartAddress + o) = fwImage.getD o 0 := by
    rw [byteAt o below, if_neg unsigned]
  have infoByte (i : Nat) (hi : i < 16) :
      flash (fwinfoAddress + i) = fwImage.getD (0x1B0 + i) 0 := by
    rw [fwinfoAddress_eq, Nat.add_assoc]
    exact other _ (by omega) (by simp only [InSignature]; omega)
  have headerByte (i : Nat) (hi : i < 8) :
      flash (fwinfoAddress + i) = image.getD (0x1B0 + i) 0 := by
    rw [infoByte i (by omega), patched.other _ (by omega)]
  have lengthByte (i : Nat) (hi : i < 4) :
      flash (fwinfoAddress + (12 + i)) = leByte image.length i := by
    rw [infoByte _ (by omega), ← Nat.add_assoc, patched.length_field i hi]
  refine ⟨⟨?_, ?_⟩, ?_, ?_, other⟩
  · rw [← header.1]
    show le32 (flash (fwinfoAddress + 0)) (flash (fwinfoAddress + 1))
      (flash (fwinfoAddress + 2)) (flash (fwinfoAddress + 3)) = _
    rw [headerByte 0 (by decide), headerByte 1 (by decide), headerByte 2 (by decide),
      headerByte 3 (by decide)]
    rfl
  · rw [← header.2]
    show le32 (flash (fwinfoAddress + 4)) (flash (fwinfoAddress + 5))
      (flash (fwinfoAddress + 6)) (flash (fwinfoAddress + 7)) = _
    rw [headerByte 4 (by decide), headerByte 5 (by decide), headerByte 6 (by decide),
      headerByte 7 (by decide)]
    rfl
  · rw [← le32_leByte short, ← lengthByte 0 (by decide), ← lengthByte 1 (by decide),
      ← lengthByte 2 (by decide), ← lengthByte 3 (by decide)]
    rfl
  · refine AesBlock.ext_byte ?_
    intro i hi
    have signed : InSignature (0x1C0 + i) := ⟨by omega, by omega⟩
    rw [signatureOf, AesBlock.byte_ofFn _ hi, signatureAddress_eq, Nat.add_assoc,
      byteAt _ (by omega), if_pos signed, Nat.add_sub_cancel_left, AesBlock.byte]

section Agreement

variable {openssl : Openssl} (tool : IsAes128Cbc openssl) {firmware : List Byte} {n : Nat}
  (signable : Signable firmware n) (long : 0x1D0 ≤ n) (short : n ≤ maxFwLength)
  (version : Int) (nonneg : 0 ≤ version) (small : version < 2 ^ 32)
include tool signable long short nonneg small

/-- The output of the script: the patched image with the signer's MAC in its slot. -/
theorem signFirmware_ok :
    ∃ fwImage, Patched (firmware.drop bootloaderSize) version fwImage ∧ fwImage.length = n ∧
      signFirmware openssl firmware version = .ok (withSignature fwImage
        (signerMac n (Cbc.mac bootCipher 0 (macBlocks (memoryOf fwImage) n))).bytes) := by
  have size : (firmware.drop bootloaderSize).length = n := by
    rw [List.length_drop, signable.length_eq, Nat.add_sub_cancel_left]
  have top : maxFwLength = 0x38000 := rfl
  obtain ⟨fwImage, patch, patched⟩ := patchInfo_ok (firmware.drop bootloaderSize) version
    (by omega) (by omega) nonneg small
  have length : fwImage.length = n := patched.length_eq.trans size
  have blocks := blocksOf_padded (m := memoryOf fwImage) (by omega)
    fun o below _ => memoryOf_holds fwImage o below
  refine ⟨fwImage, patched, length, ?_⟩
  have nonempty : blocksOf (Cbc.pkcs7 aesBlockSize (BitVec.ofNat 8) (signingImage fwImage)) ≠
      [] := by
    rw [blocks]; simp [macBlocks]
  rw [signFirmware, patch]
  show Except.ok (withSignature fwImage
    (lastBlock (openssl Signer.key zeroedIv (signingImage fwImage)))) = _
  rw [lastBlock_openssl tool nonempty, blocks, length, signerMac]
  by_cases whole : n % 16 = 0
  · rw [if_pos whole, if_pos whole, Cbc.mac_concat]
  · rw [if_neg whole, if_neg whole, List.append_nil]

/-- The validator accepts the output exactly when the signer's MAC is its own. -/
theorem agrees_iff :
    ∃ fwImage, Patched (firmware.drop bootloaderSize) version fwImage ∧
      (Agrees openssl firmware version ↔
        signerMac n (Cbc.mac bootCipher 0 (macBlocks (memoryOf fwImage) n)) =
          Cbc.mac bootCipher 0 (macBlocks (memoryOf fwImage) n)) := by
  have area : appAreaSize = 0x78000 := rfl
  have top : maxFwLength = 0x38000 := rfl
  obtain ⟨fwImage, patched, length, output⟩ :=
    signFirmware_ok tool signable long short version nonneg small
  have size : (firmware.drop bootloaderSize).length = n := patched.length_eq.symm.trans length
  refine ⟨fwImage, patched, ?_⟩
  generalize hstored : signerMac n (Cbc.mac bootCipher 0 (macBlocks (memoryOf fwImage) n)) =
    stored at output
  -- what the validator computes on any flash that holds the output
  have verdict (flash : Flash) (holds : HoldsAt flash (withSignature fwImage stored.bytes)) :
      (∃ fuel, validateFwImage (flashRead flash) fuel = .ok true) ↔
        stored = Cbc.mac bootCipher 0 (macBlocks (memoryOf fwImage) n) := by
    obtain ⟨header, hlength, hsignature, bytes⟩ :=
      holds_withSignature patched (by omega) signable.header (by omega) holds
    have blocks : macBlocks flash n = macBlocks (memoryOf fwImage) n := by
      refine macBlocks_congr ?_
      intro o covered
      have below : o < n ∧ ¬InSignature o := by
        simp only [Covered, InInfo, InSignature] at covered ⊢
        omega
      rw [bytes o (by omega) below.2, memoryOf_holds fwImage o (by omega)]
    rw [accepted_iff (by omega), imageMac, hlength, hsignature, size, blocks]
    exact and_iff_right header
  constructor
  · rintro ⟨image, himage, accepted⟩
    rw [output] at himage
    cases himage
    exact (verdict _ (memoryOf_holds _)).mp (accepted _ (memoryOf_holds _))
  · intro same
    exact ⟨_, output, fun flash holds => (verdict flash holds).mpr same⟩

end Agreement

/-! ## An aligned image that is refused -/

/-- The last block the validator visits in an image of `n` bytes, `n` aligned. -/
def lastPosition (n : Nat) : Nat := signedPosition (blockCount n - 2)

/-- A blank image with `x` in its last visited block. -/
def steeredImage (n : Nat) (x : AesBlock) : Flash := fun address =>
  if address / 16 = mainAppStartAddress / 16 + lastPosition n then x.byte (address % 16)
  else blankImage n address

/-- The last visited block is neither info block nor signature, and it is whole. -/
theorem lastPosition_spec {n : Nat} (long : 0x1D0 ≤ n) (whole : n % 16 = 0) :
    lastPosition n ≠ 27 ∧ lastPosition n ≠ 28 ∧ 16 * lastPosition n + 16 ≤ n := by
  have count : blockCount n = n / 16 := by rw [blockCount]; omega
  rw [lastPosition, signedPosition, count, if_neg (by omega)]
  split <;> omega

theorem steeredImage_other {n : Nat} {x : AesBlock} {o : Nat} (other : o / 16 ≠ lastPosition n) :
    steeredImage n x (mainAppStartAddress + o) = blankImage n (mainAppStartAddress + o) := by
  have start : mainAppStartAddress = 16 * 0x800800 := rfl
  exact if_neg (by omega)

theorem steeredImage_last {n : Nat} {x : AesBlock} {j : Nat} (hj : j < 16) :
    steeredImage n x (mainAppStartAddress + (16 * lastPosition n + j)) = x.byte j := by
  have start : mainAppStartAddress = 16 * 0x800800 := rfl
  rw [steeredImage, if_pos (by omega)]
  congr 1
  omega

theorem macBlocks_steeredImage {n : Nat} (long : 0x1D0 ≤ n) (whole : n % 16 = 0) :
    ∃ front, ∀ x, macBlocks (steeredImage n x) n = front ++ [x] := by
  have count : blockCount n - 1 = (blockCount n - 2) + 1 := by rw [blockCount]; omega
  obtain ⟨unmoved, -, inside⟩ := lastPosition_spec long whole
  have positions : macPositions n =
      (List.range (blockCount n - 2)).map signedPosition ++ [lastPosition n] := by
    rw [macPositions_eq long, count, List.range_succ, List.map_append]
    rfl
  have apart := (List.nodup_append.mp (positions ▸ macPositions_nodup n)).2.2
  refine ⟨((List.range (blockCount n - 2)).map signedPosition).map (blockAt (blankImage n) n),
    ?_⟩
  intro x
  rw [macBlocks_eq_map, positions, List.map_append]
  refine congrArg₂ _ (List.map_congr_left ?_) (congrArg (fun b => [b]) ?_)
  · intro i hi
    refine blockAt_congr (positions ▸ List.mem_append_left _ hi) ?_
    intro o _ position
    exact steeredImage_other (position ▸ apart i hi _ (List.mem_singleton_self _))
  · rw [blockAt, if_neg unmoved, macBlock, ← AesBlock.ofFn_byte x]
    refine AesBlock.ofFn_congr ?_
    intro j hj
    rw [if_pos (by omega), steeredImage_last hj, AesBlock.ofFn_byte]

/-- The firmware binary with `m` as its application part. -/
def firmwareOf (m : Flash) (n : Nat) : List Byte :=
  List.replicate bootloaderSize 0 ++ (List.range n).map fun o => m (mainAppStartAddress + o)

theorem firmwareOf_drop (m : Flash) (n : Nat) :
    (firmwareOf m n).drop bootloaderSize =
      (List.range n).map fun o => m (mainAppStartAddress + o) := by
  rw [firmwareOf, List.drop_left' (List.length_replicate ..)]

theorem firmwareOf_getD (m : Flash) {n o : Nat} (below : o < n) :
    ((firmwareOf m n).drop bootloaderSize).getD o 0 = m (mainAppStartAddress + o) := by
  rw [firmwareOf_drop]
  simp [List.getD_eq_getElem?_getD, below]

theorem blankImage_header (n : Nat) : HeaderOk (infoOf (blankImage n)) :=
  ⟨le32_leByte (by decide : firmwareInfoSentinel < 2 ^ 32),
    le32_leByte (by decide : deviceId < 2 ^ 32)⟩

section FirmwareOf

variable {m : Flash} {n : Nat} (blank : ∀ o, InInfo o →
  m (mainAppStartAddress + o) = blankImage n (mainAppStartAddress + o)) (long : 0x1D0 ≤ n)
include blank long

theorem firmwareOf_signable : Signable (firmwareOf m n) n := by
  refine ⟨by simp [firmwareOf], ?_⟩
  have info : firmwareInfoAt (fun i => ((firmwareOf m n).drop bootloaderSize).getD i 0)
      fwinfoOffset = infoOf (blankImage n) := by
    refine firmwareInfoAt_congr ?_
    intro i hi
    have offset : fwinfoOffset = 0x1B0 := rfl
    rw [firmwareOf_getD m (by omega), blank _ ⟨by omega, by omega⟩, offset, fwinfoAddress_eq,
      Nat.add_assoc]
  exact info ▸ blankImage_header n

/-- Patching version 0 into it changes nothing. -/
theorem firmwareOf_patched {fwImage : List Byte}
    (patched : Patched ((firmwareOf m n).drop bootloaderSize) 0 fwImage) :
    macBlocks (memoryOf fwImage) n = macBlocks m n := by
  have size : ((firmwareOf m n).drop bootloaderSize).length = n := by
    rw [firmwareOf_drop]; simp
  refine macBlocks_congr ?_
  intro o covered
  have below : o < n := by
    simp only [Covered, InInfo] at covered
    omega
  rw [memoryOf_holds fwImage o (by rw [patched.length_eq, size]; exact below)]
  by_cases outside : o < 0x1B8 ∨ 0x1C0 ≤ o
  · rw [patched.other o outside, firmwareOf_getD m below]
  · rw [blank o ⟨by omega, by omega⟩]
    by_cases version : o < 0x1BC
    · obtain ⟨i, hi, rfl⟩ : ∃ i, i < 4 ∧ o = 0x1B8 + i := ⟨o - 0x1B8, by omega, by omega⟩
      rw [patched.version_field i hi, show 0x1B8 + i = 0x1B0 + (8 + i) by omega, blankImage_info,
        if_neg (by omega), if_neg (by omega), if_neg (by omega)]
      simp [leByte]
    · obtain ⟨i, hi, rfl⟩ : ∃ i, i < 4 ∧ o = 0x1BC + i := ⟨o - 0x1BC, by omega, by omega⟩
      rw [patched.length_field i hi, size, show 0x1BC + i = 0x1B0 + (12 + i) by omega,
        blankImage_info, if_neg (by omega), if_neg (by omega), if_pos (by omega),
        Nat.add_sub_cancel_left]

end FirmwareOf

/-! ## The result -/

/-- One more step from the zero block does not come back to it. -/
theorem bootCipher_padBlock_ne : bootCipher (padBlock + 0) ≠ 0 := by decide +kernel

theorem signerMac_eq_iff (n : Nat) (mac : AesBlock) :
    signerMac n mac = mac ↔ n % 16 ≠ 0 ∨ bootCipher (padBlock + mac) = mac := by
  rw [signerMac]
  by_cases whole : n % 16 = 0
  · simp [whole]
  · simp [whole]

/-- Of every aligned length there is an image on which the two disagree: its
last block steers the validator's MAC to zero. -/
theorem exists_disagreeing {openssl : Openssl} (tool : IsAes128Cbc openssl) {n : Nat}
    (long : 0x1D0 ≤ n) (short : n ≤ maxFwLength) (whole : n % 16 = 0) :
    ∃ firmware, Signable firmware n ∧ ¬Agrees openssl firmware 0 := by
  obtain ⟨front, blocks⟩ := macBlocks_steeredImage long whole
  obtain ⟨x, steered⟩ := Cbc.exists_last_block (aesEncryptBlock_bijective roundKey).surjective 0
    front 0
  have blank (o : Nat) (info : InInfo o) : steeredImage n x (mainAppStartAddress + o) =
      blankImage n (mainAppStartAddress + o) := by
    have := (lastPosition_spec long whole).1
    simp only [InInfo] at info
    exact steeredImage_other (by omega)
  have signable := firmwareOf_signable blank long
  refine ⟨_, signable, ?_⟩
  intro agrees
  obtain ⟨fwImage, patched, iff⟩ := agrees_iff tool signable long short 0 (by decide)
    (by decide)
  have same := iff.mp agrees
  rw [firmwareOf_patched blank long patched, blocks] at same
  rw [show Cbc.mac bootCipher 0 (front ++ [x]) = 0 from steered, signerMac, if_pos whole] at same
  exact bootCipher_padBlock_ne same

/-- For every length in range: the validator accepts the script's output for
every image and version exactly when the length is not a multiple of 16. For a
single aligned image it accepts only if one more chaining step, with the padding
block, happens to come back to the same value. -/
theorem signer_agrees_iff (openssl : Openssl) (tool : IsAes128Cbc openssl) (n : Nat)
    (long : 0x1D0 ≤ n) (short : n ≤ maxFwLength) :
    ((∀ firmware version, Signable firmware n → 0 ≤ version → version < 2 ^ 32 →
        Agrees openssl firmware version) ↔ n % 16 ≠ 0) ∧
      ∀ firmware version, Signable firmware n → 0 ≤ version → version < 2 ^ 32 →
        ∃ fwImage, Patched (firmware.drop bootloaderSize) version fwImage ∧
          (Agrees openssl firmware version ↔ n % 16 ≠ 0 ∨
            bootCipher (padBlock + Cbc.mac bootCipher 0 (macBlocks (memoryOf fwImage) n)) =
              Cbc.mac bootCipher 0 (macBlocks (memoryOf fwImage) n)) := by
  have single (firmware : List Byte) (version : Int) (signable : Signable firmware n)
      (nonneg : 0 ≤ version) (small : version < 2 ^ 32) :
      ∃ fwImage, Patched (firmware.drop bootloaderSize) version fwImage ∧
        (Agrees openssl firmware version ↔ n % 16 ≠ 0 ∨
          bootCipher (padBlock + Cbc.mac bootCipher 0 (macBlocks (memoryOf fwImage) n)) =
            Cbc.mac bootCipher 0 (macBlocks (memoryOf fwImage) n)) := by
    obtain ⟨fwImage, patched, iff⟩ := agrees_iff tool signable long short version nonneg small
    exact ⟨fwImage, patched, iff.trans (signerMac_eq_iff n _)⟩
  refine ⟨⟨?_, ?_⟩,
    single⟩
  · intro agree whole
    obtain ⟨firmware, signable, disagree⟩ := exists_disagreeing tool long short whole
    exact disagree (agree firmware 0 signable (by decide) (by decide))
  · intro unaligned firmware version signable nonneg small
    obtain ⟨fwImage, -, iff⟩ := single firmware version signable nonneg small
    exact iff.mpr (.inl unaligned)

/-- An unaligned image on which they agree. -/
theorem signer_agrees_iff_0x1D8 :
    Agrees aes128Cbc (firmwareOf (blankImage 0x1D8) 0x1D8) 0 :=
  (signer_agrees_iff aes128Cbc (fun _ _ _ => rfl) 0x1D8 (by decide) (by decide)).1.mpr
    (by decide) _ 0 (firmwareOf_signable (fun _ _ => rfl) (by decide)) (by decide) (by decide)

/-! ## A concrete aligned image -/

/-- The info block of a blank image of 0x1D0 bytes, plus its own ciphertext. -/
def fillBlock : AesBlock :=
  ⟨⟨0x21, 0xCA, 0x5D, 0xA1⟩, ⟨0xA6, 0xF4, 0x7A, 0x29⟩, ⟨0x01, 0x65, 0xF9, 0xEF⟩,
    ⟨0x25, 0x2E, 0x5A, 0xA3⟩⟩

/-- An image of 0x1D0 bytes whose vector table is `fillBlock` over and over: the
chaining value stays what the info block made it. -/
def constantImage : Flash := fun address =>
  if address < fwinfoAddress then fillBlock.byte (address % 16) else blankImage 0x1D0 address

/-- The info block of `constantImage`. -/
def constantInfo : AesBlock :=
  ⟨⟨0xDE, 0xC0, 0xAD, 0xDE⟩, ⟨0x42, 0x00, 0x00, 0x00⟩, ⟨0x00, 0x00, 0x00, 0x00⟩,
    ⟨0xD0, 0x01, 0x00, 0x00⟩⟩

/-- Its ciphertext. -/
def constantMac : AesBlock :=
  ⟨⟨0xFF, 0x0A, 0xF0, 0x7F⟩, ⟨0xE4, 0xF4, 0x7A, 0x29⟩, ⟨0x01, 0x65, 0xF9, 0xEF⟩,
    ⟨0xF5, 0x2F, 0x5A, 0xA3⟩⟩

theorem bootCipher_constantInfo : bootCipher constantInfo = constantMac := by decide +kernel

theorem bootCipher_constantMac_ne : bootCipher (padBlock + constantMac) ≠ constantMac := by
  decide +kernel

theorem macBlocks_constantImage :
    macBlocks constantImage 0x1D0 = constantInfo :: List.replicate 27 fillBlock := by
  have table : (macIndices 0 (blockCount 0x1D0)).map (fun i => macBlock constantImage 0x1D0
      (16 * i)) = List.replicate 27 fillBlock := by
    have fill (i : Nat) (hi : i < 27) : macBlock constantImage 0x1D0 (16 * i) = fillBlock := by
      rw [macBlock, ← AesBlock.ofFn_byte fillBlock]
      refine AesBlock.ofFn_congr ?_
      intro j hj
      have start : mainAppStartAddress = 16 * 0x800800 := rfl
      rw [if_pos (by omega), constantImage, fwinfoAddress_eq, if_pos (by omega)]
      congr 1
      omega
    refine List.eq_replicate_iff.mpr ⟨by decide, fun b hb => ?_⟩
    obtain ⟨i, hi, rfl⟩ := List.mem_map.mp hb
    refine fill i ?_
    simp [macIndices, blockCount] at hi
    omega
  rw [macBlocks, table]
  refine congrArg (· :: _) ?_
  decide +kernel

theorem mac_constantImage :
    Cbc.mac bootCipher 0 (macBlocks constantImage 0x1D0) = constantMac := by
  have fixed : bootCipher (fillBlock + constantMac) = constantMac := by
    rw [show fillBlock + constantMac = constantInfo by decide, bootCipher_constantInfo]
  rw [macBlocks_constantImage, Cbc.mac_cons, add_zero, bootCipher_constantInfo,
    Cbc.mac_replicate fixed]

/-- The script signs it, and the validator refuses the result. -/
theorem constantImage_disagrees :
    Signable (firmwareOf constantImage 0x1D0) 0x1D0 ∧
      ¬Agrees aes128Cbc (firmwareOf constantImage 0x1D0) 0 := by
  have blank (o : Nat) (info : InInfo o) : constantImage (mainAppStartAddress + o) =
      blankImage 0x1D0 (mainAppStartAddress + o) := by
    rw [constantImage, fwinfoAddress_eq, if_neg (by simp only [InInfo] at info; omega)]
  have signable := firmwareOf_signable blank (by decide)
  refine ⟨signable, ?_⟩
  intro agrees
  obtain ⟨fwImage, patched, iff⟩ := agrees_iff (fun _ _ _ => rfl : IsAes128Cbc aes128Cbc)
    signable (by decide) (by decide) 0 (by decide) (by decide)
  have same := iff.mp agrees
  rw [firmwareOf_patched blank (by decide) patched, mac_constantImage, signerMac,
    if_pos (by decide)] at same
  exact bootCipher_constantMac_ne same

end SecureBootloader
