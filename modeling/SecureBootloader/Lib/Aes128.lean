import SecureBootloader.Lib.Gf256
import Mathlib.Data.Fin.VecNotation
import Mathlib.Tactic.FinCases

/-!
# AES-128

The cipher by its algebra: bytes are elements of the field of 256 elements, the S-box
is inversion followed by an affine map over GF(2), the columns are multiplied by a
fixed polynomial modulo `Y^4 + 1`, and the round keys come from a recurrence on words.
-/

namespace Lib.Aes128

open Polynomial Gf256

/-- Four field elements, top row first. -/
abbrev Word := Fin 4 → GF256

/-- The state, by row and column. -/
abbrev State := Fin 4 → Fin 4 → GF256

/-! ## The transformations -/

/-- The constant of the affine map, low coefficient first. -/
def affineConstant : Fin 8 → ZMod 2 := ![1, 1, 0, 0, 0, 1, 1, 0]

/-- The affine map on the eight coefficients of an element. -/
noncomputable def affine (a : GF256) : GF256 :=
  ∑ i : Fin 8, AdjoinRoot.of fieldPoly
    (coefficient a i + coefficient a (i + 4 : Fin 8) + coefficient a (i + 5 : Fin 8) +
      coefficient a (i + 6 : Fin 8) + coefficient a (i + 7 : Fin 8) + affineConstant i) *
    x ^ i.val

/-- The S-box. -/
noncomputable def subByte (a : GF256) : GF256 := affine a⁻¹

/-- SubBytes. -/
noncomputable def subBytes (s : State) : State := fun r c => subByte (s r c)

/-- ShiftRows: row `r` moves left by `r` places. -/
def shiftRows (s : State) : State := fun r c => s r (c + r)

/-- A column as a polynomial. -/
noncomputable def columnPoly (w : Word) : GF256[X] := ∑ r : Fin 4, C (w r) * X ^ r.val

/-- `{03} Y^3 + {01} Y^2 + {01} Y + {02}`. -/
noncomputable def mixPoly : GF256[X] := C (x + 1) * X ^ 3 + X ^ 2 + X + C x

/-- The product of a column with the fixed polynomial modulo `Y^4 + 1`. -/
noncomputable def mixColumn (w : Word) : Word := fun r =>
  ((mixPoly * columnPoly w) %ₘ (X ^ 4 + 1)).coeff r

/-- MixColumns. -/
noncomputable def mixColumns (s : State) : State := fun r c => mixColumn (fun r' => s r' c) r

/-- AddRoundKey. -/
noncomputable def addRoundKey (s k : State) : State := fun r c => s r c + k r c

/-! ## The key expansion -/

/-- RotWord. -/
def rotWord (w : Word) : Word := fun r => w (r + 1)

/-- SubWord. -/
noncomputable def subWord (w : Word) : Word := fun r => subByte (w r)

/-- The round constant `i`. -/
noncomputable def rcon (i : Nat) : Word := ![x ^ (i - 1), 0, 0, 0]

/-- Word `i` of the expanded key. -/
noncomputable def keyWord (key : Fin 4 → Word) (i : Nat) : Word :=
  if first : i < 4 then key ⟨i, first⟩
  else if i % 4 = 0 then
    keyWord key (i - 4) + (subWord (rotWord (keyWord key (i - 1))) + rcon (i / 4))
  else keyWord key (i - 4) + keyWord key (i - 1)
termination_by i

/-- The key of round `i`: its columns are four words of the expanded key. -/
noncomputable def roundKey (key : Fin 4 → Word) (i : Nat) : State :=
  fun r c => keyWord key (4 * i + c.val) r

/-! ## The cipher -/

/-- A round. -/
noncomputable def round (s k : State) : State :=
  addRoundKey (mixColumns (shiftRows (subBytes s))) k

/-- The state after the first `n` full rounds. -/
noncomputable def rounds (key : Fin 4 → Word) (s : State) : Nat → State
  | 0 => addRoundKey s (roundKey key 0)
  | n + 1 => round (rounds key s n) (roundKey key (n + 1))

/-- Nine rounds, and a last one that does not mix the columns. -/
noncomputable def cipher (key : Fin 4 → Word) (s : State) : State :=
  addRoundKey (shiftRows (subBytes (rounds key s 9))) (roundKey key 10)

/-- Sixteen bytes as words: the bytes run down the columns. -/
noncomputable def wordsOf (bytes : Nat → BitVec 8) : Fin 4 → Word :=
  fun c r => ofByte (bytes (4 * c + r))

/-- The ciphertext of a block, byte by byte. -/
noncomputable def encrypt (key block : Nat → BitVec 8) (i : Fin 16) : BitVec 8 :=
  ofByte.symm (cipher (wordsOf key) (fun r c => wordsOf block c r)
    ⟨i.val % 4, Nat.mod_lt _ (by decide)⟩ ⟨i.val / 4, by omega⟩)

/-! ## The transformations on bytes -/

section Bytes

/-- The affine map on a byte, bit by bit. -/
theorem affine_ofByte {b out : BitVec 8}
    (bits : ∀ i : Fin 8, out.getLsbD i.val = (b.getLsbD i.val ^^ b.getLsbD (i + 4 : Fin 8).val ^^
      b.getLsbD (i + 5 : Fin 8).val ^^ b.getLsbD (i + 6 : Fin 8).val ^^
      b.getLsbD (i + 7 : Fin 8).val ^^ (0x63 : BitVec 8).getLsbD i.val)) :
    affine (ofByte b) = ofByte out := by
  have constant (i : Fin 8) : affineConstant i = BitPoly.bit ((0x63 : BitVec 8).getLsbD i.val) := by
    revert i
    decide
  have sum : ofByte out = ∑ i : Fin 8, AdjoinRoot.of fieldPoly (BitPoly.bit (out.getLsbD i.val)) *
      x ^ i.val := by
    rw [ofByte_apply, BitPoly.residue, BitPoly.ofWord, map_sum, Finset.sum_range]
    simp only [map_mul, map_pow, AdjoinRoot.mk_C, AdjoinRoot.mk_X]
  rw [sum, affine]
  refine Finset.sum_congr rfl ?_
  intro i _
  simp only [coefficient_ofByte, bits, BitPoly.bit_xor, constant]

/-- A polynomial of degree at most three is its own remainder modulo `Y^4 + 1`. -/
theorem modByMonic_cubic {p q rest : GF256[X]} {a b c d : GF256}
    (cubic : rest = C d * X ^ 3 + C c * X ^ 2 + C b * X + C a)
    (product : rest + (X ^ 4 + 1) * q = p) (r : Fin 4) :
    (p %ₘ (X ^ 4 + 1)).coeff r = ![a, b, c, d] r := by
  have degree : (X ^ 4 + 1 : GF256[X]).degree = 4 := degree_X_pow_add_C (by decide) 1
  have monic : (X ^ 4 + 1 : GF256[X]).Monic := monic_X_pow_add_C 1 (by decide)
  have small : rest.degree < (X ^ 4 + 1 : GF256[X]).degree := by
    rw [degree, cubic]
    exact degree_cubic_le.trans_lt (by decide)
  rw [(div_modByMonic_unique q rest monic ⟨product, small⟩).2, cubic]
  fin_cases r <;> simp [coeff_X, coeff_C, coeff_X_pow]

/-- The fixed polynomial has the coefficients `x`, `1`, `1`, `x + 1`, and `Y^4` folds
back to `1`. -/
theorem mixColumn_eq (w : Word) : mixColumn w =
    ![x * w 0 + (x + 1) * w 1 + w 2 + w 3, w 0 + x * w 1 + (x + 1) * w 2 + w 3,
      w 0 + w 1 + x * w 2 + (x + 1) * w 3, (x + 1) * w 0 + w 1 + w 2 + x * w 3] := by
  have two : (2 : GF256[X]) = 0 := CharTwo.two_eq_zero
  funext r
  refine modByMonic_cubic (q := C ((x + 1) * w 1 + w 2 + w 3) +
    C ((x + 1) * w 2 + w 3) * X + C ((x + 1) * w 3) * X ^ 2) rfl ?_ r
  simp only [mixPoly, columnPoly, Fin.sum_univ_four, map_add, map_mul, Fin.coe_ofNat_eq_mod]
  linear_combination ((C x + C 1) * C (w 1) + C (w 2) + C (w 3) +
    ((C x + C 1) * C (w 2) + C (w 3)) * X + (C x + C 1) * C (w 3) * X ^ 2) * two

end Bytes

end Lib.Aes128
