import SecureBootloader.Aes.Core
import Mathlib.Data.Fintype.Pi
import Mathlib.Data.Fintype.Card

/-!
# Every round key array gives a permutation

`AES_EncryptBlock` is a composition of maps that each have an inverse in
`aes.c`. The only algebra behind it is that `GF_Mult` is additive in both
arguments and commutes with doubling: the coefficients of the two column
matrices then expand into powers of the doubling map and cancel.
-/

namespace SecureBootloader

/-! ## `GF_Mult` is bilinear -/

theorem xor_xor_xor_comm (a b c d : Byte) : a ^^^ b ^^^ (c ^^^ d) = a ^^^ c ^^^ (b ^^^ d) := by
  rw [BitVec.xor_assoc, ← BitVec.xor_assoc b, BitVec.xor_comm b c, BitVec.xor_assoc c,
    ← BitVec.xor_assoc]

/-- `value` if the bit is set, else zero. -/
def selectByte (bit : Bool) (value : Byte) : Byte := if bit then value else 0

theorem selectByte_xor (bit : Bool) (a b : Byte) :
    selectByte bit (a ^^^ b) = selectByte bit a ^^^ selectByte bit b := by
  cases bit <;> simp [selectByte]

theorem selectByte_xor_bit (p q : Bool) (a : Byte) :
    selectByte (p ^^ q) a = selectByte p a ^^^ selectByte q a := by
  cases p <;> cases q <;> simp [selectByte]

/-- The mask `0x80` keeps only the top bit. -/
theorem and_0x80_eq_zero (a : Byte) : a &&& 0x80 = 0 ↔ a.getLsbD 7 = false := by
  revert a; decide +kernel

/-- The mask `1` keeps only the low bit. -/
theorem and_1_eq_zero (a : Byte) : a &&& 1 = 0 ↔ a.getLsbD 0 = false := by
  revert a; decide +kernel

theorem gfDouble_eq (a : Byte) : gfDouble a = (a <<< 1) ^^^ selectByte (a.getLsbD 7) 0x1b := by
  have top := and_0x80_eq_zero a
  cases bit : a.getLsbD 7 <;> simp_all [gfDouble, selectByte]

/-- Doubling is additive. -/
theorem gfDouble_xor (a b : Byte) : gfDouble (a ^^^ b) = gfDouble a ^^^ gfDouble b := by
  rw [gfDouble_eq, gfDouble_eq, gfDouble_eq, xor_xor_xor_comm, BitVec.shiftLeft_xor_distrib,
    BitVec.getLsbD_xor, selectByte_xor_bit]

theorem gfDouble_zero : gfDouble 0 = 0 := by decide

theorem gfDouble_selectByte (bit : Bool) (a : Byte) :
    gfDouble (selectByte bit a) = selectByte bit (gfDouble a) := by
  cases bit
  · exact gfDouble_zero
  · rfl

/-- One iteration, with the test on the low bit of `b` as a selection. -/
theorem gfMultStep_eq (s : GfMultState) :
    gfMultStep s =
      ⟨s.result ^^^ selectByte (s.b.getLsbD 0) s.a, gfDouble s.a, s.b >>> 1⟩ := by
  have low := and_1_eq_zero s.b
  cases bit : s.b.getLsbD 0 <;> simp_all [gfMultStep, selectByte]

/-- A relation between three states that each iteration preserves holds after
the loop. -/
theorem gfMultLoop_rel (R : GfMultState → GfMultState → GfMultState → Prop)
    (hstep : ∀ s t u, R s t u → R (gfMultStep s) (gfMultStep t) (gfMultStep u))
    {s t u : GfMultState} (h : R s t u) (n : Nat) :
    R (gfMultLoop n s) (gfMultLoop n t) (gfMultLoop n u) := by
  induction n with
  | zero => exact h
  | succ n ih => exact hstep _ _ _ ih

/-- `GF_Mult` is additive in its first argument. -/
theorem gfMult_xor_left (a a' b : Byte) :
    gfMult (a ^^^ a') b = gfMult a b ^^^ gfMult a' b := by
  refine (gfMultLoop_rel (fun s t u => t.b = s.b ∧ u.b = s.b ∧ u.a = s.a ^^^ t.a ∧
    u.result = s.result ^^^ t.result) ?_ (s := ⟨0, a, b⟩) (t := ⟨0, a', b⟩)
    (u := ⟨0, a ^^^ a', b⟩) ⟨rfl, rfl, rfl, by simp⟩ 8).2.2.2
  rintro s t u ⟨htb, hub, hua, hur⟩
  simp only [gfMultStep_eq, htb, hub, hua, hur, gfDouble_xor, selectByte_xor, xor_xor_xor_comm,
    and_self]

/-- `GF_Mult` is additive in its second argument. -/
theorem gfMult_xor_right (a b b' : Byte) :
    gfMult a (b ^^^ b') = gfMult a b ^^^ gfMult a b' := by
  refine (gfMultLoop_rel (fun s t u => t.a = s.a ∧ u.a = s.a ∧ u.b = s.b ^^^ t.b ∧
    u.result = s.result ^^^ t.result) ?_ (s := ⟨0, a, b⟩) (t := ⟨0, a, b'⟩)
    (u := ⟨0, a, b ^^^ b'⟩) ⟨rfl, rfl, rfl, by simp⟩ 8).2.2.2
  rintro s t u ⟨hta, hua, hub, hur⟩
  simp only [gfMultStep_eq, hta, hua, hub, hur, BitVec.getLsbD_xor, selectByte_xor_bit,
    BitVec.ushiftRight_xor_distrib, xor_xor_xor_comm, and_self]

/-- Doubling the first factor doubles the product. -/
theorem gfMult_double_left (a b : Byte) : gfMult (gfDouble a) b = gfDouble (gfMult a b) := by
  refine (gfMultLoop_rel (fun s t _ => t.b = s.b ∧ t.a = gfDouble s.a ∧
    t.result = gfDouble s.result) ?_ (s := ⟨0, a, b⟩) (t := ⟨0, gfDouble a, b⟩)
    (u := ⟨0, a, b⟩) ⟨rfl, rfl, gfDouble_zero.symm⟩ 8).2.2
  rintro s t - ⟨hb, ha, hr⟩
  simp only [gfMultStep_eq, hb, ha, hr, gfDouble_xor, gfDouble_selectByte, and_self]

theorem gfMult_one (b : Byte) : gfMult 1 b = b := by
  revert b; decide +kernel

/-! ## The column matrices -/

theorem gfMult_two (b : Byte) : gfMult 0x02 b = gfDouble b := by
  rw [show (0x02 : Byte) = gfDouble 1 by decide, gfMult_double_left, gfMult_one]

theorem gfMult_three (b : Byte) : gfMult 0x03 b = gfDouble b ^^^ b := by
  rw [show (0x03 : Byte) = 0x02 ^^^ 1 by decide, gfMult_xor_left, gfMult_two, gfMult_one]

theorem gfMult_four (b : Byte) : gfMult 0x04 b = gfDouble (gfDouble b) := by
  rw [show (0x04 : Byte) = gfDouble 0x02 by decide, gfMult_double_left, gfMult_two]

theorem gfMult_eight (b : Byte) : gfMult 0x08 b = gfDouble (gfDouble (gfDouble b)) := by
  rw [show (0x08 : Byte) = gfDouble 0x04 by decide, gfMult_double_left, gfMult_four]

theorem gfMult_nine (b : Byte) : gfMult 0x09 b = gfDouble (gfDouble (gfDouble b)) ^^^ b := by
  rw [show (0x09 : Byte) = 0x08 ^^^ 1 by decide, gfMult_xor_left, gfMult_eight, gfMult_one]

theorem gfMult_eleven (b : Byte) :
    gfMult 0x0b b = gfDouble (gfDouble (gfDouble b)) ^^^ (gfDouble b ^^^ b) := by
  rw [show (0x0b : Byte) = 0x08 ^^^ 0x03 by decide, gfMult_xor_left, gfMult_eight,
    gfMult_three]

theorem gfMult_thirteen (b : Byte) :
    gfMult 0x0d b = gfDouble (gfDouble (gfDouble b)) ^^^ (gfDouble (gfDouble b) ^^^ b) := by
  rw [show (0x0d : Byte) = 0x08 ^^^ (0x04 ^^^ 1) by decide, gfMult_xor_left, gfMult_xor_left,
    gfMult_eight, gfMult_four, gfMult_one]

theorem gfMult_fourteen (b : Byte) :
    gfMult 0x0e b =
      gfDouble (gfDouble (gfDouble b)) ^^^ (gfDouble (gfDouble b) ^^^ gfDouble b) := by
  rw [show (0x0e : Byte) = 0x08 ^^^ (0x04 ^^^ 0x02) by decide, gfMult_xor_left,
    gfMult_xor_left, gfMult_eight, gfMult_four, gfMult_two]

theorem xor_xor_cancel_left (a b : Byte) : a ^^^ (a ^^^ b) = b := by
  rw [← BitVec.xor_assoc, BitVec.xor_self, BitVec.zero_xor]

theorem xor_left_comm (a b c : Byte) : a ^^^ (b ^^^ c) = b ^^^ (a ^^^ c) := by
  rw [← BitVec.xor_assoc, BitVec.xor_comm a b, BitVec.xor_assoc]

theorem gfMult_zero (a : Byte) : gfMult a 0#8 = 0#8 := by
  have twice := gfMult_xor_right a 0#8 0#8
  rwa [BitVec.xor_self, BitVec.xor_self] at twice

theorem mixColumn_xor (s t : AesColumn) :
    mixColumn (s.xor t) = (mixColumn s).xor (mixColumn t) := by
  simp only [mixColumn, AesColumn.xor, AesColumn.zipWith, gfMult_xor_right, AesColumn.mk.injEq]
  refine ⟨?_, ?_, ?_, ?_⟩ <;> ac_rfl

theorem invMixColumn_xor (s t : AesColumn) :
    invMixColumn (s.xor t) = (invMixColumn s).xor (invMixColumn t) := by
  simp only [invMixColumn, AesColumn.xor, AesColumn.zipWith, gfMult_xor_right,
    AesColumn.mk.injEq]
  refine ⟨?_, ?_, ?_, ?_⟩ <;> ac_rfl

/-- A column is the sum of its four one-byte columns. -/
theorem column_eq_sum (s : AesColumn) :
    s = ((⟨s.r0, 0#8, 0#8, 0#8⟩ : AesColumn).xor ⟨0#8, s.r1, 0#8, 0#8⟩).xor
      ((⟨0#8, 0#8, s.r2, 0#8⟩ : AesColumn).xor ⟨0#8, 0#8, 0#8, s.r3⟩) := by
  simp [AesColumn.xor, AesColumn.zipWith]

/-- An additive map that fixes the one-byte columns is the identity. -/
theorem additive_eq_self (f : AesColumn → AesColumn)
    (hadd : ∀ s t, f (s.xor t) = (f s).xor (f t))
    (h0 : ∀ b, f ⟨b, 0#8, 0#8, 0#8⟩ = ⟨b, 0#8, 0#8, 0#8⟩)
    (h1 : ∀ b, f ⟨0#8, b, 0#8, 0#8⟩ = ⟨0#8, b, 0#8, 0#8⟩)
    (h2 : ∀ b, f ⟨0#8, 0#8, b, 0#8⟩ = ⟨0#8, 0#8, b, 0#8⟩)
    (h3 : ∀ b, f ⟨0#8, 0#8, 0#8, b⟩ = ⟨0#8, 0#8, 0#8, b⟩)
    (s : AesColumn) : f s = s := by
  conv_lhs => rw [column_eq_sum s]
  rw [hadd, hadd, hadd, h0, h1, h2, h3, ← column_eq_sum]

/-- `AES_InvMixColumns` undoes `AES_MixColumns` on a column. -/
theorem invMixColumn_mixColumn (s : AesColumn) : invMixColumn (mixColumn s) = s := by
  refine additive_eq_self (fun s => invMixColumn (mixColumn s))
    (fun s t => by rw [mixColumn_xor, invMixColumn_xor]) ?_ ?_ ?_ ?_ s <;> intro b <;>
  -- one byte: sorted, every power of the doubling map meets its double
  · simp only [invMixColumn, mixColumn, gfMult_zero, BitVec.zero_xor, BitVec.xor_zero, gfMult_two,
      gfMult_three, gfMult_nine, gfMult_eleven, gfMult_thirteen, gfMult_fourteen, gfDouble_xor,
      AesColumn.mk.injEq]
    generalize gfDouble (gfDouble (gfDouble (gfDouble b))) = b4
    generalize gfDouble (gfDouble (gfDouble b)) = b3
    generalize gfDouble (gfDouble b) = b2
    generalize gfDouble b = b1
    refine ⟨?_, ?_, ?_, ?_⟩ <;>
      simp only [BitVec.xor_assoc, BitVec.xor_comm, xor_left_comm, xor_xor_cancel_left,
        BitVec.xor_self, BitVec.xor_zero]

/-! ## The rounds and the cipher -/

theorem aesInvMixColumns_aesMixColumns (state : AesBlock) :
    aesInvMixColumns (aesMixColumns state) = state := by
  simp [aesInvMixColumns, aesMixColumns, AesBlock.mapColumns, invMixColumn_mixColumn]

theorem aesInvShiftRows_aesShiftRows (state : AesBlock) :
    aesInvShiftRows (aesShiftRows state) = state := rfl

/-- `sbox_decrypt` is a left inverse of `sbox_encrypt`. -/
theorem sboxDecrypt_sboxEncrypt (b : Byte) :
    tableLookup sboxDecrypt (tableLookup sboxEncrypt b) = b := by
  revert b; decide +kernel

theorem aesSubBytes_undone (state : AesBlock) :
    aesSubBytes (aesSubBytes state sboxEncrypt) sboxDecrypt = state := by
  simp [aesSubBytes, AesBlock.mapColumns, AesColumn.map, sboxDecrypt_sboxEncrypt]

theorem aesMixColumns_injective : Function.Injective aesMixColumns :=
  Function.LeftInverse.injective aesInvMixColumns_aesMixColumns

theorem aesShiftRows_injective : Function.Injective aesShiftRows :=
  Function.LeftInverse.injective aesInvShiftRows_aesShiftRows

theorem aesSubBytes_injective : Function.Injective (aesSubBytes · sboxEncrypt) :=
  Function.LeftInverse.injective (g := (aesSubBytes · sboxDecrypt)) aesSubBytes_undone

theorem aesAddRoundKey_injective (roundKey : AesBlock) :
    Function.Injective (aesAddRoundKey · roundKey) := add_left_injective roundKey

theorem aesEncryptRound_injective (i : Nat) (roundKey : AesBlock) :
    Function.Injective (aesEncryptRound i roundKey) := by
  intro s t h
  have beforeKey := aesAddRoundKey_injective roundKey h
  by_cases mixed : i < numRoundKeys128 - 1
  · simp only [mixed, if_true] at beforeKey
    exact aesSubBytes_injective (aesShiftRows_injective (aesMixColumns_injective beforeKey))
  · simp only [mixed, if_false] at beforeKey
    exact aesSubBytes_injective (aesShiftRows_injective beforeKey)

/-- A loop whose iterations are injective is injective. -/
theorem fold_injective {α : Type*} (n : Nat) (f : (i : Nat) → i < n → α → α)
    (hf : ∀ i hi, Function.Injective (f i hi)) : Function.Injective (Nat.fold n f) := by
  induction n with
  | zero => exact Function.injective_id
  | succ n ih =>
    intro s t h
    simp only [Nat.fold_succ] at h
    exact ih _ (fun i hi => hf i (by omega)) (hf n (by omega) h)

/-- Under any eleven round keys two blocks with one ciphertext are equal. -/
theorem aesEncryptBlock_injective (keySchedule : KeySchedule) :
    Function.Injective (aesEncryptBlock · keySchedule) := by
  intro s t h
  exact aesAddRoundKey_injective keySchedule[0]
    (fold_injective 10 _ (fun i _ => aesEncryptRound_injective _ _) h)

instance : Finite AesBlock :=
  Finite.of_injective (fun s (i : Fin 16) => (s.byte i).toFin)
    fun _ _ h => AesBlock.ext_byte fun i hi => BitVec.eq_of_toFin_eq (congrFun h ⟨i, hi⟩)

/-- Under any eleven round keys `AES_EncryptBlock` is a permutation of blocks. -/
theorem aesEncryptBlock_bijective (keySchedule : KeySchedule) :
    Function.Bijective (aesEncryptBlock · keySchedule) :=
  Finite.injective_iff_bijective.mp (aesEncryptBlock_injective keySchedule)

end SecureBootloader
