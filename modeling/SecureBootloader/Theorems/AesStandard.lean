import SecureBootloader.Aes.Permutation
import SecureBootloader.Lib.Aes128

/-!
# `aes.c` is AES-128

Read as field elements, the bytes of `aes.c` go through the transformations of the
standard one by one, and its key schedule is the word recurrence.
-/

namespace SecureBootloader

open Lib.Gf256 Lib.BitPoly

/-! ## `GF_Mult` is the product of the field -/

theorem gfDouble_eq_shiftFold (a : Byte) : gfDouble a = shiftFold 0x1b a := by
  rw [gfDouble_eq, shiftFold, BitVec.msb_eq_getLsbD_last]
  cases a.getLsbD (8 - 1) with
  | false => exact BitVec.xor_zero
  | true => rfl

/-- The state of the loop, as the library has it. -/
def GfMultState.toMulState (s : GfMultState) : MulState 8 := ⟨s.result, s.a, s.b⟩

theorem gfMultStep_toMulState (s : GfMultState) :
    (gfMultStep s).toMulState = mulStep 0x1b s.toMulState := by
  rw [gfMultStep_eq, gfDouble_eq_shiftFold]
  unfold GfMultState.toMulState mulStep
  cases s.b.getLsbD 0 with
  | false => simp [selectByte]
  | true => simp [selectByte]

theorem gfMult_eq (a b : Byte) : gfMult a b = mulByte a b := by
  have loop (n : Nat) : (gfMultLoop n ⟨0, a, b⟩).toMulState =
      Nat.repeat (mulStep 0x1b) n ⟨0, a, b⟩ := by
    induction n with
    | zero => rfl
    | succ n ih =>
      rw [Nat.repeat, ← ih, ← gfMultStep_toMulState]
      exact congrArg GfMultState.toMulState (Nat.fold_succ n _ _)
  exact congrArg MulState.result (loop 8)

theorem ofByte_gfMult (a b : Byte) : ofByte (gfMult a b) = ofByte a * ofByte b := by
  rw [gfMult_eq, ofByte_mul]

theorem ofByte_two : ofByte 0x02 = x := by
  have two : ofWord (0x02 : Byte) = Polynomial.X := by simp [ofWord, Finset.sum_range_succ]
  rw [ofByte_apply, residue, two, AdjoinRoot.mk_X]

theorem ofByte_three : ofByte 0x03 = x + 1 := by
  rw [show (0x03 : Byte) = 0x02 ^^^ 0x01 by decide, ofByte_xor, ofByte_two]
  exact congrArg _ residue_one

/-! ## The transformations -/

/-- The affine map of the S-box undone. -/
def affineUndone (b : Byte) : Byte :=
  b.rotateLeft 1 ^^^ b.rotateLeft 3 ^^^ b.rotateLeft 6 ^^^ 0x05

theorem affineUndone_bits : ∀ (b : Byte) (i : Fin 8), b.getLsbD i.val =
    ((affineUndone b).getLsbD i.val ^^ (affineUndone b).getLsbD (i + 4 : Fin 8).val ^^
      (affineUndone b).getLsbD (i + 5 : Fin 8).val ^^
      (affineUndone b).getLsbD (i + 6 : Fin 8).val ^^
      (affineUndone b).getLsbD (i + 7 : Fin 8).val ^^ (0x63 : Byte).getLsbD i.val) := by
  decide +kernel

/-- Behind the affine map the table holds the inverse of each byte. -/
theorem invByte_eq_affineUndone (b : Byte) :
    invByte b = affineUndone (tableLookup sboxEncrypt b) := by
  have table : ∀ b : Byte, b ≠ 0 → mulByte b (affineUndone (tableLookup sboxEncrypt b)) = 1 := by
    decide +kernel
  by_cases zero : b = 0
  · rw [zero, invByte_zero]
    decide
  · exact invByte_eq (table b zero)

/-- The S-box inverts in the field and applies the affine map. -/
theorem ofByte_sboxEncrypt (b : Byte) :
    ofByte (tableLookup sboxEncrypt b) = Lib.Aes128.subByte (ofByte b) := by
  rw [Lib.Aes128.subByte, ← ofByte_inv, invByte_eq_affineUndone]
  exact (Lib.Aes128.affine_ofByte (affineUndone_bits _)).symm

/-- Row `r` of a column. -/
def AesColumn.row (w : AesColumn) (r : Fin 4) : Byte := ![w.r0, w.r1, w.r2, w.r3] r

/-- Column `c` of a block. -/
def AesBlock.column (s : AesBlock) (c : Fin 4) : AesColumn := ![s.c0, s.c1, s.c2, s.c3] c

/-- A column of field elements. -/
noncomputable def wordOf (w : AesColumn) : Lib.Aes128.Word := fun r => ofByte (w.row r)

/-- A block of field elements. -/
noncomputable def stateOf (s : AesBlock) : Lib.Aes128.State := fun r c => wordOf (s.column c) r

/-- The bytes of a block run down its columns. -/
theorem row_column (s : AesBlock) (r c : Fin 4) :
    (s.column c).row r = s.byte (4 * c.val + r.val) := by
  fin_cases c <;> fin_cases r <;> rfl

theorem wordOf_column (s : AesBlock) (c : Fin 4) :
    wordOf (s.column c) = Lib.Aes128.wordsOf s.byte c := by
  funext r
  rw [wordOf, row_column]
  rfl

theorem row_xor (a b : AesColumn) (r : Fin 4) : (a.xor b).row r = a.row r ^^^ b.row r := by
  fin_cases r <;> rfl

theorem row_map (f : Byte → Byte) (w : AesColumn) (r : Fin 4) : (w.map f).row r = f (w.row r) := by
  fin_cases r <;> rfl

theorem column_mapColumns (f : AesColumn → AesColumn) (s : AesBlock) (c : Fin 4) :
    (s.mapColumns f).column c = f (s.column c) := by
  fin_cases c <;> rfl

theorem wordOf_xor (a b : AesColumn) : wordOf (a.xor b) = wordOf a + wordOf b := by
  funext r
  rw [wordOf, row_xor, ofByte_xor]
  rfl

theorem wordOf_map {f : Byte → Byte} {g : GF256 → GF256} (h : ∀ b, ofByte (f b) = g (ofByte b))
    (w : AesColumn) : wordOf (w.map f) = fun r => g (wordOf w r) := by
  funext r
  rw [wordOf, row_map, h]
  rfl

theorem stateOf_aesAddRoundKey (s k : AesBlock) :
    stateOf (aesAddRoundKey s k) = Lib.Aes128.addRoundKey (stateOf s) (stateOf k) := by
  have columns (c : Fin 4) : (aesAddRoundKey s k).column c = (s.column c).xor (k.column c) := by
    fin_cases c <;> rfl
  funext r c
  rw [stateOf, columns, wordOf_xor]
  rfl

theorem stateOf_aesSubBytes (s : AesBlock) :
    stateOf (aesSubBytes s sboxEncrypt) = Lib.Aes128.subBytes (stateOf s) := by
  funext r c
  rw [stateOf, aesSubBytes, column_mapColumns, wordOf_map ofByte_sboxEncrypt]
  rfl

theorem stateOf_aesShiftRows (s : AesBlock) :
    stateOf (aesShiftRows s) = Lib.Aes128.shiftRows (stateOf s) := by
  have rows (r c : Fin 4) :
      ((aesShiftRows s).column c).row r = (s.column (c + r)).row r := by
    fin_cases r <;> fin_cases c <;> rfl
  funext r c
  rw [stateOf, wordOf, rows]
  rfl

theorem wordOf_mixColumn (w : AesColumn) :
    wordOf (mixColumn w) = Lib.Aes128.mixColumn (wordOf w) := by
  have rows : wordOf (mixColumn w) = ![ofByte (mixColumn w).r0, ofByte (mixColumn w).r1,
      ofByte (mixColumn w).r2, ofByte (mixColumn w).r3] := by
    funext r
    fin_cases r <;> rfl
  rw [Lib.Aes128.mixColumn_eq, rows]
  simp only [mixColumn, ofByte_xor, ofByte_gfMult, ofByte_two, ofByte_three]
  rfl

theorem stateOf_aesMixColumns (s : AesBlock) :
    stateOf (aesMixColumns s) = Lib.Aes128.mixColumns (stateOf s) := by
  funext r c
  rw [stateOf, aesMixColumns, column_mapColumns, wordOf_mixColumn]
  rfl

/-! ## The key schedule -/

theorem wordOf_aesRotWord (w : AesColumn) :
    wordOf (aesRotWord w) = Lib.Aes128.rotWord (wordOf w) := by
  have rows (r : Fin 4) : (aesRotWord w).row r = w.row (r + 1) := by
    fin_cases r <;> rfl
  funext r
  rw [wordOf, rows]
  rfl

theorem wordOf_aesSubWord (w : AesColumn) :
    wordOf (aesSubWord w sboxEncrypt) = Lib.Aes128.subWord (wordOf w) :=
  wordOf_map ofByte_sboxEncrypt w

/-- The table of round constants doubles from entry to entry. -/
theorem wordOf_rcon (i : Fin 10) : wordOf (rcon.get i) = Lib.Aes128.rcon (i + 1) := by
  have doubles : ∀ i : Fin 10, rcon.get i = ⟨Nat.repeat (shiftFold 0x1b) i.val 1, 0, 0, 0⟩ := by
    decide
  have top : ofByte (Nat.repeat (shiftFold 0x1b) i.val 1) = x ^ i.val := by
    rw [ofByte_apply, residue_shiftFold_iterate fieldPoly_eq, residue_one, mul_one]
  rw [doubles, Lib.Aes128.rcon, Nat.add_sub_cancel, ← top]
  funext r
  fin_cases r
  · rfl
  · exact ofByte_zero
  · exact ofByte_zero
  · exact ofByte_zero

/-- The columns of a round key are four words of the expanded key. -/
def IsRoundKey (key : Fin 4 → Lib.Aes128.Word) (i : Nat) (k : AesBlock) : Prop :=
  ∀ c : Fin 4, wordOf (k.column c) = Lib.Aes128.keyWord key (4 * i + c.val)

theorem IsRoundKey.stateOf_eq {key : Fin 4 → Lib.Aes128.Word} {i : Nat} {k : AesBlock}
    (h : IsRoundKey key i k) : stateOf k = Lib.Aes128.roundKey key i := by
  funext r c
  rw [stateOf, h c]
  rfl

theorem keyWord_first (key : Fin 4 → Lib.Aes128.Word) (i : Nat) :
    Lib.Aes128.keyWord key (4 * (i + 1)) = Lib.Aes128.keyWord key (4 * i) +
      (Lib.Aes128.subWord (Lib.Aes128.rotWord (Lib.Aes128.keyWord key (4 * i + 3))) +
        Lib.Aes128.rcon (i + 1)) := by
  rw [Lib.Aes128.keyWord, dif_neg (by omega), if_pos (by omega),
    show 4 * (i + 1) - 4 = 4 * i by omega, show 4 * (i + 1) - 1 = 4 * i + 3 by omega,
    show 4 * (i + 1) / 4 = i + 1 by omega]

theorem keyWord_next (key : Fin 4 → Lib.Aes128.Word) (i : Nat) {c : Nat} (inside : c < 3) :
    Lib.Aes128.keyWord key (4 * (i + 1) + (c + 1)) =
      Lib.Aes128.keyWord key (4 * i + (c + 1)) + Lib.Aes128.keyWord key (4 * (i + 1) + c) := by
  rw [Lib.Aes128.keyWord, dif_neg (by omega), if_neg (by omega),
    show 4 * (i + 1) + (c + 1) - 4 = 4 * i + (c + 1) by omega,
    show 4 * (i + 1) + (c + 1) - 1 = 4 * (i + 1) + c by omega]

/-- One iteration of the key schedule. -/
theorem IsRoundKey.next {key : Fin 4 → Lib.Aes128.Word} {i : Fin 10} {current : AesBlock}
    (h : IsRoundKey key i current) :
    IsRoundKey key (i + 1) (nextRoundKey i current current.c3) := by
  have c0 : wordOf current.c0 = Lib.Aes128.keyWord key (4 * i) := h 0
  have c1 : wordOf current.c1 = Lib.Aes128.keyWord key (4 * i + 1) := h 1
  have c2 : wordOf current.c2 = Lib.Aes128.keyWord key (4 * i + 2) := h 2
  have c3 : wordOf current.c3 = Lib.Aes128.keyWord key (4 * i + 3) := h 3
  have constant : wordOf rcon[i] = Lib.Aes128.rcon (i + 1) := wordOf_rcon i
  have n0 : wordOf (nextRoundKey i current current.c3).c0 =
      Lib.Aes128.keyWord key (4 * (i + 1)) := by
    rw [keyWord_first, ← c0, ← c3, nextRoundKey]
    simp only [gfWordAdd, wordOf_xor, wordOf_aesSubWord, wordOf_aesRotWord, constant]
    exact add_comm _ _
  have n1 : wordOf (nextRoundKey i current current.c3).c1 =
      Lib.Aes128.keyWord key (4 * (i + 1) + 1) := by
    rw [keyWord_next key i (c := 0) (by decide), ← c1, Nat.add_zero, ← n0, add_comm]
    exact wordOf_xor _ _
  have n2 : wordOf (nextRoundKey i current current.c3).c2 =
      Lib.Aes128.keyWord key (4 * (i + 1) + 2) := by
    rw [keyWord_next key i (c := 1) (by decide), ← c2, ← n1, add_comm]
    exact wordOf_xor _ _
  have n3 : wordOf (nextRoundKey i current current.c3).c3 =
      Lib.Aes128.keyWord key (4 * (i + 1) + 3) := by
    rw [keyWord_next key i (c := 2) (by decide), ← c3, ← n2, add_comm]
    exact wordOf_xor _ _
  intro c
  fin_cases c
  · exact n0
  · exact n1
  · exact n2
  · exact n3

/-- The round keys up to `n` are written, and the last column of the last one copied. -/
structure KeysWritten (key : Fin 4 → Lib.Aes128.Word) (n : Nat)
    (s : KeySchedule × AesColumn) : Prop where
  keys : ∀ j : Fin 11, j.val ≤ n → IsRoundKey key j (s.1.get j)
  copied : ∀ j : Fin 11, j.val = n → s.2 = (s.1.get j).c3

theorem KeysWritten.first {key : AesBlock} {keys : KeySchedule} (written : keys.get 0 = key) :
    KeysWritten (Lib.Aes128.wordsOf key.byte) 0 (keys, key.c3) := by
  refine ⟨?_, ?_⟩
  · intro j hj c
    obtain rfl : j = 0 := Fin.ext (Nat.le_zero.mp hj)
    have word : Lib.Aes128.keyWord (Lib.Aes128.wordsOf key.byte) (4 * (0 : Fin 11).val + c.val) =
        Lib.Aes128.wordsOf key.byte c := by
      rw [Lib.Aes128.keyWord, dif_pos (by simp)]
      exact congrArg _ (Fin.ext (by simp))
    rw [word, ← wordOf_column, written]
  · intro j hj
    obtain rfl : j = 0 := Fin.ext hj
    rw [written]

theorem KeysWritten.next {key : Fin 4 → Lib.Aes128.Word} {i : Fin 10}
    {s : KeySchedule × AesColumn} (h : KeysWritten key i s) {next : AesBlock} {keys : KeySchedule}
    (made : next = nextRoundKey i (s.1.get i.castSucc) s.2)
    (written : ∀ j : Fin 11, keys.get j = if i.val + 1 = j.val then next else s.1.get j) :
    KeysWritten key (i + 1) (keys, next.c3) := by
  have isNext : IsRoundKey key (i + 1) next := by
    rw [made, h.copied i.castSucc rfl]
    exact (h.keys i.castSucc (Nat.le_refl i.val)).next
  refine ⟨?_, ?_⟩
  · intro j hj
    show IsRoundKey key j (keys.get j)
    rw [written]
    by_cases new : i.val + 1 = j.val
    · rw [if_pos new, ← new]
      exact isNext
    · rw [if_neg new]
      exact h.keys j (by omega)
  · intro j hj
    show next.c3 = (keys.get j).c3
    rw [written, if_pos hj.symm]

/-- The key schedule of the standard. -/
theorem stateOf_keySchedule (key : AesBlock) (keysOut : KeySchedule) (j : Fin 11) :
    stateOf ((aesKeySchedule128 key keysOut).get j) =
      Lib.Aes128.roundKey (Lib.Aes128.wordsOf key.byte) j := by
  have loop (n : Nat) (hn : n ≤ 10) : KeysWritten (Lib.Aes128.wordsOf key.byte) n
      (Nat.fold n (fun i hi (s : KeySchedule × AesColumn) =>
        let next := nextRoundKey ⟨i, by omega⟩ s.1[i] s.2
        (s.1.set (i + 1) next, next.c3)) (keysOut.set 0 key, key.c3)) := by
    induction n with
    | zero => exact .first (Vector.getElem_set_self _)
    | succ n ih =>
      rw [Nat.fold_succ]
      exact (ih (by omega)).next (i := ⟨n, by omega⟩) rfl fun j =>
        Vector.getElem_set (by omega) j.isLt
  exact ((loop 10 (Nat.le_refl 10)).keys j (by omega)).stateOf_eq

/-! ## The cipher -/

section Cipher

variable (key : AesBlock) (keysOut : KeySchedule) (state : AesBlock)

theorem stateOf_aesEncryptRound {i : Nat} (inside : i + 1 < numRoundKeys128 - 1)
    (roundKey : AesBlock) :
    stateOf (aesEncryptRound (i + 1) roundKey state) =
      Lib.Aes128.round (stateOf state) (stateOf roundKey) := by
  rw [aesEncryptRound, if_pos inside, stateOf_aesAddRoundKey, stateOf_aesMixColumns,
    stateOf_aesShiftRows, stateOf_aesSubBytes]
  rfl

/-- The loop of `AES_EncryptBlock` up to its last iteration. -/
theorem stateOf_rounds (n : Nat) (hn : n ≤ 9) :
    stateOf (Nat.fold n (fun i _ state =>
        aesEncryptRound (i + 1) (aesKeySchedule128 key keysOut)[i + 1] state)
      (aesAddRoundKey state (aesKeySchedule128 key keysOut)[0])) =
      Lib.Aes128.rounds (Lib.Aes128.wordsOf key.byte) (stateOf state) n := by
  induction n with
  | zero =>
    rw [Nat.fold_zero, stateOf_aesAddRoundKey]
    exact congrArg _ (stateOf_keySchedule key keysOut 0)
  | succ n ih =>
    rw [Nat.fold_succ, stateOf_aesEncryptRound _ (Nat.succ_lt_succ hn), ih (by omega)]
    exact congrArg _ (stateOf_keySchedule key keysOut ⟨n + 1, by omega⟩)

theorem stateOf_aesEncryptBlock :
    stateOf (aesEncryptBlock state (aesKeySchedule128 key keysOut)) =
      Lib.Aes128.cipher (Lib.Aes128.wordsOf key.byte) (stateOf state) := by
  have last (s roundKey : AesBlock) : aesEncryptRound (9 + 1) roundKey s =
      aesAddRoundKey (aesShiftRows (aesSubBytes s sboxEncrypt)) roundKey := rfl
  rw [aesEncryptBlock, Nat.fold_succ, last, stateOf_aesAddRoundKey, stateOf_aesShiftRows,
    stateOf_aesSubBytes, stateOf_rounds key keysOut state 9 (Nat.le_refl 9)]
  exact congrArg _ (stateOf_keySchedule key keysOut 10)

/-- For every key and every block `AES_EncryptBlock` with the round keys of
`AES_KeySchedule128` gives the ciphertext of AES-128, whatever was in the array of
round keys before. -/
theorem aes_is_aes128 (i : Fin 16) :
    (aesEncryptBlock state (aesKeySchedule128 key keysOut)).byte i =
      Lib.Aes128.encrypt key.byte state.byte i := by
  have plain : stateOf state = fun r c => Lib.Aes128.wordsOf state.byte c r := by
    funext r c
    rw [stateOf, wordOf_column]
  have out : ofByte ((aesEncryptBlock state (aesKeySchedule128 key keysOut)).byte i) =
      stateOf (aesEncryptBlock state (aesKeySchedule128 key keysOut))
        ⟨i.val % 4, Nat.mod_lt _ (by decide)⟩ ⟨i.val / 4, by omega⟩ := by
    rw [stateOf, wordOf, row_column, Nat.div_add_mod]
  rw [Lib.Aes128.encrypt, ← plain, ← stateOf_aesEncryptBlock key keysOut, ← out,
    Equiv.symm_apply_apply]

end Cipher

end SecureBootloader
