import SecureBootloader.Boot.MacWalk

/-!
# How long the MAC walk is

With every load succeeding, the `while` loop of `validate_fw_image` is a counter that
moves by 16, or once by 32, in 32-bit arithmetic. It stays below `2^32`, and so comes to
its end, exactly for the lengths that leave a block of room there.
-/

namespace SecureBootloader

/-- Memory in which every load succeeds. -/
def totalRead (memory : Nat → Byte) : Reader := fun address => some (memory address)

/-- The loop of `validate_fw_image` after some iterations. -/
inductive Iterates (rd : Reader) (length : Nat) (start : MacState) : Nat → MacState → Prop
  | none : Iterates rd length start 0 start
  | next {n : Nat} {s s' : MacState} (h : Iterates rd length start n s)
      (more : s.offset < length) (body : macLoopBody rd length s = .ok s') :
      Iterates rd length start (n + 1) s'

/-- The locals where the loop starts: the info block is absorbed. -/
def loopStart (memory : Nat → Byte) : MacState :=
  macStart.absorb (AesBlock.ofFn fun i => memory (fwinfoAddress + i))

/-- The walk ends within one iteration for each block of the image, and no iteration
wraps the offset. This is the loop alone: `validate_fw_image` gets to it behind a right sentinel
and device id only, and refuses any others before. -/
structure WalkEnds (memory : Nat → Byte) : Prop where
  ends : ∃ s, macImage (totalRead memory) (blockCount (infoOf memory).length) = .ok s
  count : ∀ n s, Iterates (totalRead memory) (infoOf memory).length (loopStart memory) n s →
    n ≤ blockCount (infoOf memory).length
  noWrap : ∀ n s s', Iterates (totalRead memory) (infoOf memory).length (loopStart memory) n s →
    s.offset < (infoOf memory).length →
    macLoopBody (totalRead memory) (infoOf memory).length s = .ok s' → s.offset < s'.offset

section Walk

variable (memory : Nat → Byte)

/-! ## One iteration -/

/-- Every range of addresses is readable. -/
theorem totalRead_readsAs (lo hi : Nat) :
    ReadsAs (totalRead memory) (fun a => memory (a % 2 ^ 32)) lo hi := fun _ _ _ => rfl

theorem macAbsorb_total (length : Nat) (s : MacState) :
    ∃ s', macAbsorb (totalRead memory) length s = .ok s' ∧ s'.offset = s.offset := by
  have copies (state : AesBlock) (a n : Nat) :=
    memcpyBlock_ok (n := n) state (totalRead_readsAs memory a (a + n))
  unfold macAbsorb
  dsimp only
  split
  · rw [copies]
    exact ⟨_, rfl, rfl⟩
  · split
    · rw [copies]
      exact ⟨_, rfl, rfl⟩
    · rw [copies]
      exact ⟨_, rfl, rfl⟩

/-- An iteration always succeeds. -/
theorem macLoopBody_total (length : Nat) (s : MacState) :
    ∃ s', macLoopBody (totalRead memory) length s = .ok s' ∧
      s'.offset = if s.offset = 0x1B0 then 0x1D0 else (s.offset + 16) % 2 ^ 32 := by
  by_cases info : s.offset = 0x1B0
  · exact ⟨_, macLoopBody_skip _ length info, by rw [if_pos info, MacState.setOffset_offset]⟩
  · obtain ⟨s', absorbed, same⟩ := macAbsorb_total memory length s
    have not_at_info : s.offset ≠ fwinfoAddress - mainAppStartAddress := by
      rwa [fwinfoAddress_eq, Nat.add_sub_cancel_left]
    refine ⟨s'.setOffset ((s'.offset + aesBlockSize) % 2 ^ 32), ?_, ?_⟩
    · rw [macLoopBody, if_neg not_at_info, absorbed]
      rfl
    · rw [if_neg info, MacState.setOffset_offset, same]
      rfl

variable {memory} {length : Nat}

/-- With a block of room below `2^32` an iteration moves the offset up by one block or
two. -/
theorem offset_moves (fits : length ≤ 0xFFFFFFF0) {s s' : MacState} (more : s.offset < length)
    (body : macLoopBody (totalRead memory) length s = .ok s') : s.offset + 16 ≤ s'.offset := by
  obtain ⟨out, same, offset⟩ := macLoopBody_total memory length s
  obtain rfl : out = s' := Except.ok.inj (same.symm.trans body)
  rw [offset]
  split
  · omega
  · omega

/-! ## Short images -/

theorem macLoop_ends (fits : length ≤ 0xFFFFFFF0) (fuel : Nat) (s : MacState)
    (enough : length ≤ s.offset + 16 * fuel) :
    ∃ s', macLoop (totalRead memory) length fuel s = .ok s' := by
  induction fuel generalizing s with
  | zero =>
    refine ⟨s, ?_⟩
    rw [macLoop, if_neg (by omega)]
  | succ fuel ih =>
    by_cases more : s.offset < length
    · obtain ⟨s', body, -⟩ := macLoopBody_total memory length s
      have moves := offset_moves fits more body
      obtain ⟨out, loop⟩ := ih s' (by omega)
      refine ⟨out, ?_⟩
      rw [macLoop, if_pos more, body]
      exact loop
    · refine ⟨s, ?_⟩
      rw [macLoop, if_neg more]

theorem Iterates.offset_le (fits : length ≤ 0xFFFFFFF0) {start s : MacState} {n : Nat}
    (h : Iterates (totalRead memory) length start n s) : start.offset + 16 * n ≤ s.offset := by
  induction h with
  | none => omega
  | next h more body ih =>
    have moves := offset_moves fits more body
    omega

theorem Iterates.count_le (fits : length ≤ 0xFFFFFFF0) {start s : MacState} {n : Nat}
    (h : Iterates (totalRead memory) length start n s) : n ≤ blockCount length := by
  unfold blockCount
  cases h with
  | none => exact Nat.zero_le _
  | next h more body =>
    have below := h.offset_le fits
    omega

/-! ## Long images -/

/-- Above that the offset falls back to zero before it reaches the length. -/
theorem macLoop_outOfFuel (long : 0xFFFFFFF0 < length) (fuel : Nat) (s : MacState)
    (aligned : 16 ∣ s.offset) (word : s.offset < 2 ^ 32) :
    macLoop (totalRead memory) length fuel s = .error .outOfFuel := by
  have more : s.offset < length := by omega
  induction fuel generalizing s with
  | zero => rw [macLoop, if_pos more]
  | succ fuel ih =>
    obtain ⟨s', body, offset⟩ := macLoopBody_total memory length s
    have next : 16 ∣ s'.offset ∧ s'.offset < 2 ^ 32 := by
      rw [offset]
      split
      · omega
      · omega
    rw [macLoop, if_pos more, body]
    exact ih s' next.1 next.2 (by omega)

end Walk

/-- The walk is a loop over the length that the info block holds. -/
theorem macImage_total (memory : Nat → Byte) (fuel : Nat) :
    macImage (totalRead memory) fuel =
      macLoop (totalRead memory) (infoOf memory).length fuel (loopStart memory) := by
  have reads : ReadsAs (totalRead memory) memory flashBase (flashBase + flashSize) := by
    intro a _ inside
    have word : a < 2 ^ 32 := Nat.lt_of_lt_of_le inside (by decide)
    rw [totalRead, Nat.mod_eq_of_lt word]
  exact macImage_start reads rfl

/-- A long image is walked for ever: no number of iterations is enough. -/
theorem not_walkEnds {memory : Nat → Byte} (long : 0xFFFFFFF0 < (infoOf memory).length) :
    ¬WalkEnds memory := by
  rintro ⟨⟨s, ended⟩, -, -⟩
  rw [macImage_total, macLoop_outOfFuel long _ _ (Nat.dvd_zero 16) (Nat.two_pow_pos 32)] at ended
  cases ended

/-- The walk ends, without wrapping and within the number of blocks, if and only if the
length leaves a block of room below `2^32`. -/
theorem walkEnds_iff (memory : Nat → Byte) :
    WalkEnds memory ↔ (infoOf memory).length ≤ 0xFFFFFFF0 := by
  constructor
  · intro ends
    by_contra long
    exact not_walkEnds (Nat.lt_of_not_le long) ends
  · intro fits
    refine ⟨?_, ?_, ?_⟩
    · rw [macImage_total]
      refine macLoop_ends fits _ _ ?_
      show (infoOf memory).length ≤ 0 + 16 * blockCount (infoOf memory).length
      unfold blockCount
      omega
    · intro n s run
      exact run.count_le fits
    · intro n s s' _ more body
      have moves := offset_moves fits more body
      omega

/-- Memory with the info block as `info.c` initializes it, before any signing: the length
is `0xFFFFFFFF`. -/
theorem unsigned_walk_endless : ¬WalkEnds fun address =>
    [0xDE, 0xC0, 0xAD, 0xDE, 0x42, 0x00, 0x00, 0x00].getD (address - fwinfoAddress) 0xFF :=
  not_walkEnds (by decide +kernel)

end SecureBootloader
