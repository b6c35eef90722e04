import SecureBootloader.Aes.Permutation

/-!
# Decryption undoes encryption

`AES_DecryptBlock` walks down the round keys in a rotated loop: it starts with a key
addition where a round of `AES_EncryptBlock` ends with one. Cut there, its iteration
`i` undoes iteration `11 - i` of the encryptor, whatever the round keys are.
-/

namespace SecureBootloader

/-! ## One step of a round undone -/

theorem aesAddRoundKey_undone (state roundKey : AesBlock) :
    aesAddRoundKey (aesAddRoundKey state roundKey) roundKey = state := by
  -- every block is its own negative
  exact add_neg_cancel_right state roundKey

/-- An iteration of the decryptor undoes the iteration of the encryptor with the same
round key: the first mixes no columns back where the last mixed none. -/
theorem aesDecryptRound_aesEncryptRound {i j : Nat} (aligned : i + j = 9)
    (roundKey state : AesBlock) :
    aesDecryptRound (i + 1) roundKey (aesEncryptRound (j + 1) roundKey state) = state := by
  have mixes : j + 1 < numRoundKeys128 - 1 ↔ i + 1 ≠ 1 := by
    unfold numRoundKeys128
    omega
  unfold aesDecryptRound aesEncryptRound
  dsimp only
  rw [aesAddRoundKey_undone]
  by_cases first : i + 1 ≠ 1
  · rw [if_pos first, if_pos (mixes.mpr first), aesInvMixColumns_aesMixColumns,
      aesInvShiftRows_aesShiftRows, aesSubBytes_undone]
  · rw [if_neg first, if_neg (mixes.not.mpr first), aesInvShiftRows_aesShiftRows,
      aesSubBytes_undone]

/-! ## The loops -/

/-- A loop whose iteration `i` undoes iteration `n - 1 - i` of another undoes that loop. -/
theorem fold_undone {α : Type*} {n : Nat} {f g : (i : Nat) → i < n → α → α}
    (undo : ∀ i (hi : i < n) (state : α), g i hi (f (n - 1 - i) (by omega) state) = state)
    (state : α) : Nat.fold n g (Nat.fold n f state) = state := by
  induction n with
  | zero => rfl
  | succ n ih =>
    -- the last iteration of `f` meets the first one of `g`
    have first : Nat.fold (n + 1) g (Nat.fold (n + 1) f state) =
        Nat.fold n (fun i hi => g (i + 1) (by omega))
          (g 0 (by omega) (Nat.fold (n + 1) f state)) := by
      rw [Nat.fold_congr (Nat.add_comm n 1) g, Nat.fold_add]
      refine congrArg (Nat.fold n · _) (funext fun i => funext fun hi => ?_)
      congr 1
      exact Nat.add_comm 1 i
    rw [first, Nat.fold_succ]
    have meets := undo 0 (by omega) (Nat.fold n (fun i hi => f i (by omega)) state)
    rw [show g 0 _ (f n _ _) = _ from meets]
    refine ih ?_
    intro i hi next
    have step := undo (i + 1) (by omega) next
    simp only [show n + 1 - 1 - (i + 1) = n - 1 - i by omega] at step
    exact step

theorem aesDecryptBlock_aesEncryptBlock (keySchedule : KeySchedule) (state : AesBlock) :
    aesDecryptBlock (aesEncryptBlock state keySchedule) keySchedule = state := by
  unfold aesDecryptBlock aesEncryptBlock
  rw [fold_undone, aesAddRoundKey_undone]
  intro i hi next
  have aligned : i + (10 - 1 - i) = 9 := by omega
  have index : 10 - 1 - i + 1 = 10 - i := by omega
  have undone := aesDecryptRound_aesEncryptRound aligned keySchedule[10 - i] next
  simp only [index] at undone ⊢
  exact undone

/-- For every array of round keys decryption and encryption are inverse to each other. -/
theorem aes_mutual_inverse (keySchedule : KeySchedule) :
    Function.LeftInverse (aesDecryptBlock · keySchedule) (aesEncryptBlock · keySchedule) ∧
      Function.RightInverse (aesDecryptBlock · keySchedule) (aesEncryptBlock · keySchedule) := by
  have left : Function.LeftInverse (aesDecryptBlock · keySchedule)
      (aesEncryptBlock · keySchedule) := aesDecryptBlock_aesEncryptBlock keySchedule
  refine ⟨left, ?_⟩
  -- a permutation has only one inverse
  exact left.rightInverse_of_surjective (aesEncryptBlock_bijective keySchedule).2

end SecureBootloader
