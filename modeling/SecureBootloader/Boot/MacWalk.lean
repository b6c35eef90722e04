import SecureBootloader.Boot.Validate
import SecureBootloader.Lib.Cbc

/-!
# What the validator feeds to the MAC

The walk of `validate_fw_image` in closed form. For a length that fits the
application area the loop ends, the blocks it absorbs are `macBlocks`, and the
two working blocks both hold the CBC-MAC of what was absorbed. The validator is
then a header check and one comparison (`validateFwImage_eq`). For a length that
does not fit, the walk reaches the end of the flash and faults there.
-/

namespace SecureBootloader

open Lib

/-! ## Granting more iterations -/

/-- `later` repeats the outcome of `first`, unless `first` ran out of fuel. -/
def Settles {α : Type} (first later : Except Stop α) : Prop :=
  first ≠ .error .outOfFuel → later = first

theorem Settles.refl {α : Type} (x : Except Stop α) : Settles x x := fun _ => rfl

theorem Settles.bind {α β : Type} {x x' : Except Stop α} {k k' : α → Except Stop β}
    (hx : Settles x x') (hk : ∀ a, Settles (k a) (k' a)) : Settles (x >>= k) (x' >>= k') := by
  intro ended
  have settled : x' = x := by
    refine hx fun h => ended ?_
    rw [h]
    rfl
  cases x with
  | error e => rw [settled]; rfl
  | ok a =>
    rw [settled]
    exact hk a ended

theorem macLoop_settles (rd : Reader) (length : Nat) :
    ∀ (fuel fuel' : Nat) (s : MacState), fuel ≤ fuel' →
      Settles (macLoop rd length fuel s) (macLoop rd length fuel' s) := by
  intro fuel
  induction fuel with
  | zero =>
    intro fuel' s _ ended
    by_cases more : s.offset < length
    · rw [macLoop, if_pos more] at ended
      exact absurd rfl ended
    · cases fuel' <;> simp [macLoop, more]
  | succ fuel ih =>
    intro fuel' s hle
    obtain ⟨fuel', rfl⟩ : ∃ f, fuel' = f + 1 := ⟨fuel' - 1, by omega⟩
    rw [macLoop, macLoop]
    by_cases more : s.offset < length
    · rw [if_pos more, if_pos more]
      exact (Settles.refl _).bind fun s' => ih fuel' s' (Nat.le_of_succ_le_succ hle)
    · rw [if_neg more, if_neg more]
      exact Settles.refl _

theorem macImage_settles (rd : Reader) {fuel fuel' : Nat} (hle : fuel ≤ fuel') :
    Settles (macImage rd fuel) (macImage rd fuel') :=
  (Settles.refl _).bind fun _ => (Settles.refl _).bind fun _ => macLoop_settles rd _ _ _ _ hle

/-- A run of the validator that ended is not changed by more fuel. -/
theorem validateFwImage_settles (rd : Reader) {fuel fuel' : Nat} (hle : fuel ≤ fuel') :
    Settles (validateFwImage rd fuel) (validateFwImage rd fuel') := by
  refine (Settles.refl _).bind ?_
  intro accepted
  cases accepted with
  | false => exact Settles.refl _
  | true => exact (macImage_settles rd hle).bind fun _ => Settles.refl _

/-! ## Loads that succeed -/

/-- Every load in `[lo, hi)` succeeds and gives the content `m`. -/
def ReadsAs (rd : Reader) (m : Nat → Byte) (lo hi : Nat) : Prop :=
  ∀ a, lo ≤ a → a < hi → rd (a % 2 ^ 32) = some (m a)

theorem ReadsAs.mono {rd : Reader} {m : Nat → Byte} {lo hi lo' hi' : Nat}
    (h : ReadsAs rd m lo hi) (hlo : lo ≤ lo') (hhi : hi' ≤ hi) : ReadsAs rd m lo' hi' :=
  fun a ha ha' => h a (Nat.le_trans hlo ha) (Nat.lt_of_lt_of_le ha' hhi)

/-- The flash range is readable. -/
theorem flashRead_readsAs (flash : Flash) :
    ReadsAs (flashRead flash) flash flashBase (flashBase + flashSize) := by
  intro a hlo hhi
  have bound : a < 2 ^ 32 := Nat.lt_of_lt_of_le hhi (by decide)
  rw [Nat.mod_eq_of_lt bound]
  exact if_pos ⟨hlo, hhi⟩

theorem readByte_ok {rd : Reader} {m : Nat → Byte} {a : Nat} (h : ReadsAs rd m a (a + 1)) :
    readByte rd a = .ok (m a) := by
  rw [readByte, h a (by omega) (by omega)]

theorem readBytes_ok {rd : Reader} {m : Nat → Byte} {a n : Nat} (h : ReadsAs rd m a (a + n)) :
    readBytes rd a n = .ok ((List.range n).map fun i => m (a + i)) := by
  induction n generalizing a with
  | zero => rfl
  | succ n ih =>
    have first := readByte_ok (h.mono (Nat.le_refl a) (by omega : a + 1 ≤ a + (n + 1)))
    have rest := ih (h.mono (Nat.le_succ a) (by omega : a + 1 + n ≤ a + (n + 1)))
    rw [readBytes, first, rest, List.range_succ_eq_map]
    simp [bind, Except.bind, pure, Except.pure, Nat.add_assoc, Nat.add_comm 1]

theorem read32_ok {rd : Reader} {m : Nat → Byte} {a : Nat} (h : ReadsAs rd m a (a + 4)) :
    read32 rd a = .ok (le32 (m a) (m (a + 1)) (m (a + 2)) (m (a + 3))) := by
  rw [read32, readByte_ok (h.mono (by omega) (by omega)),
    readByte_ok (h.mono (by omega) (by omega)), readByte_ok (h.mono (by omega) (by omega)),
    readByte_ok (h.mono (by omega) (by omega))]
  rfl

theorem memcpyBlock_ok {rd : Reader} {m : Nat → Byte} {a n : Nat} (state : AesBlock)
    (h : ReadsAs rd m a (a + n)) :
    memcpyBlock rd state a n =
      .ok (AesBlock.ofFn fun i => if i < n then m (a + i) else state.byte i) := by
  rw [memcpyBlock, readBytes_ok h]
  refine congrArg Except.ok (AesBlock.ofFn_congr ?_)
  intro i _
  by_cases inside : i < n
  · simp [inside]
  · simp [inside]

/-! ## One iteration -/

/-- The plaintext block at offset `o` of an image of `length` bytes: the image
bytes below `length`, then the number of missing bytes. -/
def macBlock (m : Nat → Byte) (length o : Nat) : AesBlock :=
  AesBlock.ofFn fun i =>
    if o + i < length then m (mainAppStartAddress + (o + i))
    else BitVec.ofNat 8 (16 - length % 16)

/-- One `memcpy` into the working block followed by one MAC step. -/
def MacState.absorb (s : MacState) (block : AesBlock) : MacState :=
  aesCbcMacStep (s.setState block)

@[simp] theorem MacState.absorb_fed (s : MacState) (block : AesBlock) :
    (s.absorb block).fed = s.fed ++ [block] := rfl

@[simp] theorem MacState.setOffset_fed (s : MacState) (o : Nat) : (s.setOffset o).fed = s.fed :=
  rfl

@[simp] theorem MacState.setOffset_offset (s : MacState) (o : Nat) :
    (s.setOffset o).offset = o := rfl

/-- The locals before the first step. -/
def macStart : MacState where
  offset := 0
  state := AesBlock.zero
  prevCipherBlock := AesBlock.zero
  fed := []

/-- Working block and previous cipher block agree, and hold the CBC-MAC of the
blocks absorbed so far. -/
structure Chained (s : MacState) : Prop where
  agree : s.state = s.prevCipherBlock
  mac : s.prevCipherBlock = Cbc.mac bootCipher 0 s.fed

/-- Absorbing one more block keeps the chain. -/
theorem Chained.step {s : MacState} (h : Chained s) (block : AesBlock) :
    Chained (s.absorb block) := by
  refine ⟨rfl, ?_⟩
  show bootCipher (block.xor s.prevCipherBlock) = Cbc.mac bootCipher 0 (s.fed ++ [block])
  rw [Cbc.mac_concat, ← h.mac, AesBlock.add_def]

theorem Chained.setOffset {s : MacState} (h : Chained s) (o : Nat) : Chained (s.setOffset o) :=
  ⟨h.agree, h.mac⟩

/-- At the info block the walk jumps over it and the signature. -/
theorem macLoopBody_skip (rd : Reader) (length : Nat) {s : MacState} (h : s.offset = 0x1B0) :
    macLoopBody rd length s = .ok (s.setOffset 0x1D0) := by
  have at_info : s.offset = fwinfoAddress - mainAppStartAddress := by
    rw [h, fwinfoAddress_eq, Nat.add_sub_cancel_left]
  rw [macLoopBody, if_pos at_info, h]
  rfl

theorem bytesToPad_eq (length : Nat) : bytesToPad length = (16 - length % 16) % 16 := by
  by_cases h : length % 16 = 0
  · simp [bytesToPad, aesBlockSize, h]
  · rw [bytesToPad, aesBlockSize, if_pos h]
    omega

/-- Everywhere else one iteration absorbs exactly `macBlock`. -/
theorem macAbsorb_eq {rd : Reader} {m : Nat → Byte} {length : Nat} {s : MacState}
    (aligned : 16 ∣ s.offset) (inside : s.offset < length)
    (h : ReadsAs rd m (mainAppStartAddress + s.offset)
      (mainAppStartAddress + min length (s.offset + 16))) :
    macAbsorb rd length s =
      .ok (s.absorb (macBlock m length s.offset)) := by
  have pad := bytesToPad_eq length
  by_cases full : length - s.offset > aesBlockSize
  · -- a block with more to come
    have full' : length - s.offset > 16 := full
    have source := memcpyBlock_ok (n := 16) s.state (h.mono (Nat.le_refl _) (by omega))
    have block : (AesBlock.ofFn fun i => if i < 16 then m (mainAppStartAddress + s.offset + i)
        else s.state.byte i) = macBlock m length s.offset :=
      AesBlock.ofFn_congr fun i hi => by
        rw [if_pos hi, if_pos (by omega), Nat.add_assoc]
    rw [macAbsorb, if_pos full, aesBlockSize, source, block]
    rfl
  · -- the last block: whole when the length is aligned, else padded
    have last : ¬ length - s.offset > 16 := full
    have source := memcpyBlock_ok (n := 16 - bytesToPad length) s.state
      (h.mono (Nat.le_refl _) (by omega))
    have block : memsetBlock (AesBlock.ofFn fun i => if i < 16 - bytesToPad length then
        m (mainAppStartAddress + s.offset + i) else s.state.byte i) (16 - bytesToPad length)
        (bytesToPad length) (bytesToPad length) = macBlock m length s.offset := by
      refine AesBlock.ofFn_congr ?_
      intro i hi
      by_cases data : i < 16 - bytesToPad length
      · rw [if_neg (by omega), AesBlock.byte_ofFn _ hi, if_pos data, if_pos (by omega),
          Nat.add_assoc]
      · rw [if_pos (by omega), if_neg (by omega), pad, Nat.mod_eq_of_lt (by omega)]
    rw [macAbsorb, if_neg full, if_neg (by omega), ← block]
    exact congrArg (· >>= _) source

theorem macLoopBody_block {rd : Reader} {m : Nat → Byte} {length : Nat} {s : MacState}
    (aligned : 16 ∣ s.offset) (not_info : s.offset ≠ 0x1B0) (inside : s.offset < length)
    (small : s.offset + 16 < 2 ^ 32)
    (h : ReadsAs rd m (mainAppStartAddress + s.offset)
      (mainAppStartAddress + min length (s.offset + 16))) :
    macLoopBody rd length s =
      .ok ((s.absorb (macBlock m length s.offset)).setOffset (s.offset + 16)) := by
  have not_at_info : s.offset ≠ fwinfoAddress - mainAppStartAddress := by
    rwa [fwinfoAddress_eq, Nat.add_sub_cancel_left]
  rw [macLoopBody, if_neg not_at_info, macAbsorb_eq aligned inside h]
  have next : (s.offset + aesBlockSize) % 2 ^ 32 = s.offset + 16 := Nat.mod_eq_of_lt small
  show Except.ok ((s.absorb _).setOffset ((s.offset + aesBlockSize) % 2 ^ 32)) = _
  rw [next]

/-! ## The whole walk -/

/-- The block indices the walk visits from index `j` for `k` indices: all but
the info block (27) and the signature (28). -/
def macIndices (j k : Nat) : List Nat :=
  (List.range' j k).filter fun i => i ≠ 27 ∧ i ≠ 28

/-- The number of 16-byte blocks an image of `length` bytes touches. -/
def blockCount (length : Nat) : Nat := (length + 15) / 16

/-- The blocks fed to the MAC for an image of `length` bytes: the info block
first, then every visited block of the image. -/
def macBlocks (m : Nat → Byte) (length : Nat) : List AesBlock :=
  AesBlock.ofFn (fun i => m (fwinfoAddress + i)) ::
    (macIndices 0 (blockCount length)).map fun i => macBlock m length (16 * i)

theorem macIndices_cons {j : Nat} (k : Nat) (h27 : j ≠ 27) (h28 : j ≠ 28) :
    macIndices j (k + 1) = j :: macIndices (j + 1) k := by
  rw [macIndices, List.range'_succ, List.filter_cons_of_pos (by simp [h27, h28])]
  rfl

/-- The hole: two indices disappear, or one if the image ends inside it. -/
theorem macIndices_hole (k : Nat) : macIndices 27 (k + 1) = macIndices 29 (k - 1) := by
  cases k with
  | zero => rfl
  | succ k => simp [macIndices, List.range'_succ]

/-- From index `j`, with `k` indices to go, the loop absorbs the visited blocks
and stops. -/
theorem macLoop_spec {rd : Reader} {m : Nat → Byte} {length : Nat} (fits : length + 16 ≤ 2 ^ 32)
    (h : ReadsAs rd m mainAppStartAddress (mainAppStartAddress + length)) :
    ∀ (k j fuel : Nat) (s : MacState), s.offset = 16 * j → j ≠ 28 →
      j + k = max j (blockCount length) → k ≤ fuel → Chained s →
      ∃ s', macLoop rd length fuel s = .ok s' ∧ Chained s' ∧
        s'.fed = s.fed ++ (macIndices j k).map fun i => macBlock m length (16 * i) := by
  intro k
  induction k using Nat.strongRecOn with
  | ind k ih =>
    intro j fuel s hoff h28 hcount hfuel hs
    by_cases done : length ≤ s.offset
    · -- no index left
      have hk : k = 0 := by simp only [blockCount] at hcount; omega
      subst hk
      refine ⟨s, ?_, hs, by simp [macIndices]⟩
      cases fuel <;> simp [macLoop, Nat.not_lt.mpr done]
    · obtain ⟨k, rfl⟩ : ∃ k', k = k' + 1 :=
        ⟨k - 1, by simp only [blockCount] at hcount; omega⟩
      obtain ⟨fuel, rfl⟩ : ∃ f, fuel = f + 1 := ⟨fuel - 1, by omega⟩
      have inside : s.offset < length := Nat.lt_of_not_le done
      -- at the info block the walk goes two indices ahead, elsewhere one
      by_cases info : j = 27
      · subst info
        obtain ⟨s', hloop, hs', hfed⟩ := ih (k - 1) (by omega) 29 fuel (s.setOffset 0x1D0) rfl
          (by decide) (by simp only [blockCount] at hcount ⊢; omega) (by omega)
          (hs.setOffset _)
        refine ⟨s', ?_, hs', by rw [hfed, macIndices_hole, MacState.setOffset_fed]⟩
        rw [macLoop, if_pos inside, macLoopBody_skip rd length hoff]
        exact hloop
      · have body := macLoopBody_block (m := m) (s := s) ⟨j, hoff⟩ (by omega) inside (by omega)
          (h.mono (by omega) (by omega))
        obtain ⟨s', hloop, hs', hfed⟩ := ih k (by omega) (j + 1) fuel
          ((s.absorb (macBlock m length s.offset)).setOffset (s.offset + 16))
          (by simp only [MacState.setOffset_offset]; omega) (by omega)
          (by simp only [blockCount] at hcount ⊢; omega) (by omega) ((hs.step _).setOffset _)
        refine ⟨s', ?_, hs', ?_⟩
        · rw [macLoop, if_pos inside, body]
          exact hloop
        · rw [hfed, macIndices_cons k info h28, hoff]
          simp

/-! ## A length that leaves the flash -/

theorem memcpyBlock_fault {rd : Reader} {a n : Nat} (state : AesBlock) (positive : 0 < n)
    (h : rd (a % 2 ^ 32) = none) :
    memcpyBlock rd state a n = .error (.badRead (a % 2 ^ 32)) := by
  obtain ⟨n, rfl⟩ : ∃ n', n = n' + 1 := ⟨n - 1, by omega⟩
  rw [memcpyBlock, readBytes, readByte, h]
  rfl

/-- Whatever branch it takes, the iteration first loads the byte at `offset`. -/
theorem macAbsorb_fault {rd : Reader} {length : Nat} {s : MacState}
    (h : rd ((mainAppStartAddress + s.offset) % 2 ^ 32) = none) :
    macAbsorb rd length s = .error (.badRead ((mainAppStartAddress + s.offset) % 2 ^ 32)) := by
  have pad := bytesToPad_eq length
  have fault (n : Nat) (positive : 0 < n) := memcpyBlock_fault s.state positive h
  rw [macAbsorb]
  split
  · exact congrArg (· >>= _) (fault _ (by decide))
  · split
    · exact congrArg (· >>= _) (fault _ (by decide))
    · exact congrArg (· >>= _) (fault (16 - bytesToPad length) (by omega))

/-- The index of the first block above the application area. -/
def endIndex : Nat := appAreaSize / 16

/-- A length beyond the application area walks to the end of the flash and
faults on the first byte above it. -/
theorem macLoop_fault (flash : Flash) {length : Nat} (beyond : appAreaSize < length) :
    ∀ (k j fuel : Nat) (s : MacState), s.offset = 16 * j → j ≠ 28 → j + k = endIndex →
      k < fuel →
      macLoop (flashRead flash) length fuel s = .error (.badRead (flashBase + flashSize)) := by
  have beyond' : 0x78000 < length := beyond
  have hend : endIndex = 0x7800 := rfl
  have harea : mainAppStartAddress = 0x08008000 := rfl
  have htop : flashBase + flashSize = 0x08080000 := rfl
  have hbase : flashBase = 0x08000000 := rfl
  intro k
  induction k using Nat.strongRecOn with
  | ind k ih =>
    intro j fuel s hoff h28 hcount hfuel
    obtain ⟨fuel, rfl⟩ : ∃ f, fuel = f + 1 := ⟨fuel - 1, by omega⟩
    have inside : s.offset < length := by omega
    rw [macLoop, if_pos inside]
    cases k with
    | zero =>
      have outside : flashRead flash ((mainAppStartAddress + s.offset) % 2 ^ 32) = none := by
        rw [Nat.mod_eq_of_lt (by omega)]
        exact if_neg fun h => absurd h.2 (by omega)
      have not_at_info : s.offset ≠ fwinfoAddress - mainAppStartAddress := by
        rw [fwinfoAddress_eq, Nat.add_sub_cancel_left]; omega
      rw [macLoopBody, if_neg not_at_info, macAbsorb_fault outside, Nat.mod_eq_of_lt (by omega)]
      show Except.error (Stop.badRead (mainAppStartAddress + s.offset)) = _
      rw [show mainAppStartAddress + s.offset = flashBase + flashSize by omega]
    | succ k =>
      by_cases info : j = 27
      · subst info
        rw [macLoopBody_skip _ length hoff]
        exact ih (k - 1) (by omega) 29 fuel (s.setOffset 0x1D0) rfl (by decide) (by omega)
          (by omega)
      · rw [macLoopBody_block (m := flash) ⟨j, hoff⟩ (by omega) inside (by omega)
          ((flashRead_readsAs flash).mono (by omega) (by omega))]
        exact ih k (by omega) (j + 1) fuel _ (by simp only [MacState.setOffset_offset]; omega)
          (by omega) (by omega) (by omega)

/-! ## The validator in closed form -/

/-- The checks on the info block. -/
def HeaderOk (info : FirmwareInfo) : Prop :=
  info.sentinel = firmwareInfoSentinel ∧ info.deviceId = deviceId

instance (info : FirmwareInfo) : Decidable (HeaderOk info) :=
  inferInstanceAs (Decidable (_ ∧ _))

/-- `*firmware_info`. -/
def infoOf (m : Nat → Byte) : FirmwareInfo := firmwareInfoAt m fwinfoAddress

/-- The stored signature as a block. -/
def signatureOf (m : Nat → Byte) : AesBlock := AesBlock.ofFn fun i => m (signatureAddress + i)

/-- The CBC-MAC of the image that the info block describes. -/
def imageMac (m : Nat → Byte) : AesBlock :=
  Cbc.mac bootCipher 0 (macBlocks m (infoOf m).length)

section Reads

variable {rd : Reader} {m : Nat → Byte} (h : ReadsAs rd m flashBase (flashBase + flashSize))
include h

theorem headerAccepted_eq : headerAccepted rd = .ok (decide (HeaderOk (infoOf m))) := by
  have sentinel := read32_ok (h.mono (by decide) (by decide) :
    ReadsAs rd m fwinfoAddress (fwinfoAddress + 4))
  have device := read32_ok (h.mono (by decide) (by decide) :
    ReadsAs rd m (fwinfoAddress + 4) (fwinfoAddress + 4 + 4))
  change _ = Except.ok (infoOf m).sentinel at sentinel
  change _ = Except.ok (infoOf m).deviceId at device
  simp only [headerAccepted, sentinel, device, bind, Except.bind, HeaderOk]
  by_cases hs : (infoOf m).sentinel = firmwareInfoSentinel
  · by_cases hd : (infoOf m).deviceId = deviceId
    · simp [hs, hd, pure, Except.pure]
    · simp [hs, hd, pure, Except.pure]
  · simp [hs, pure, Except.pure]

/-- The info block as first plaintext block, zero chaining value. -/
theorem macImage_start {fuel : Nat} {length : Nat} (hlength : (infoOf m).length = length) :
    macImage rd fuel = macLoop rd length fuel
      (macStart.absorb (AesBlock.ofFn fun i => m (fwinfoAddress + i))) := by
  subst hlength
  have words := read32_ok (h.mono (by decide) (by decide) :
    ReadsAs rd m (fwinfoAddress + 12) (fwinfoAddress + 12 + 4))
  have info := memcpyBlock_ok (n := sizeofFirmwareInfo) AesBlock.zero
    (h.mono (by decide) (by decide) :
      ReadsAs rd m fwinfoAddress (fwinfoAddress + sizeofFirmwareInfo))
  change _ = Except.ok (infoOf m).length at words
  have block : (AesBlock.ofFn fun i => if i < sizeofFirmwareInfo then m (fwinfoAddress + i)
      else AesBlock.zero.byte i) = AesBlock.ofFn fun i => m (fwinfoAddress + i) :=
    AesBlock.ofFn_congr fun i hi => if_pos hi
  rw [macImage, words, info, block]
  rfl

/-- The walk on a length that fits: it ends, it absorbs `macBlocks`, and the
working block holds their CBC-MAC. -/
theorem macImage_eq (fits : (infoOf m).length ≤ appAreaSize) :
    ∃ s, (∀ fuel, blockCount (infoOf m).length ≤ fuel → macImage rd fuel = .ok s) ∧
      s.fed = macBlocks m (infoOf m).length ∧ s.state = imageMac m := by
  have area : appAreaSize = 0x78000 := rfl
  have reads : ReadsAs rd m mainAppStartAddress (mainAppStartAddress + (infoOf m).length) :=
    h.mono (by decide) (Nat.add_le_add_left fits mainAppStartAddress)
  have start : Chained (macStart.absorb (AesBlock.ofFn fun i => m (fwinfoAddress + i))) :=
    Chained.step ⟨rfl, rfl⟩ _
  obtain ⟨s, hloop, hs, hfed⟩ := macLoop_spec (by omega) reads (blockCount (infoOf m).length) 0
    _ _ rfl (by decide) (by omega) (Nat.le_refl _) start
  have image := (macImage_start h rfl).trans hloop
  refine ⟨s, ?_, hfed, ?_⟩
  · intro fuel enough
    rw [macImage_settles rd enough (by simp [image]), image]
  · rw [hs.agree, hs.mac, hfed]
    rfl

/-- The validator on a length that fits: the header check and one comparison. -/
theorem validateFwImage_eq {fuel : Nat} (fits : (infoOf m).length ≤ appAreaSize)
    (enough : blockCount (infoOf m).length ≤ fuel) :
    validateFwImage rd fuel =
      .ok (decide (HeaderOk (infoOf m) ∧ signatureOf m = imageMac m)) := by
  obtain ⟨s, himage, -, hstate⟩ := macImage_eq h fits
  have slot := readBytes_ok (h.mono (by decide) (by decide) :
    ReadsAs rd m signatureAddress (signatureAddress + aesBlockSize))
  have stored : (List.range aesBlockSize).map (fun i => m (signatureAddress + i)) =
      (signatureOf m).bytes := (AesBlock.bytes_ofFn _).symm
  by_cases header : HeaderOk (infoOf m)
  · simp [validateFwImage, headerAccepted_eq h, himage fuel enough, slot, stored, hstate, header,
      AesBlock.bytes_inj, bind, Except.bind, pure, Except.pure]
  · simp [validateFwImage, headerAccepted_eq h, header, bind, Except.bind, pure, Except.pure]

end Reads

/-- With enough fuel the walk on a length beyond the application area faults on
the first byte above the flash. -/
theorem macImage_fault (flash : Flash) {fuel : Nat} (beyond : appAreaSize < (infoOf flash).length)
    (enough : endIndex < fuel) :
    macImage (flashRead flash) fuel = .error (.badRead (flashBase + flashSize)) :=
  (macImage_start (flashRead_readsAs flash) rfl).trans
    (macLoop_fault flash beyond endIndex 0 fuel _ rfl (by decide) (Nat.zero_add _) enough)

end SecureBootloader
