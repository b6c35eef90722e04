import SecureBootloader.Lib.BitPoly
import Mathlib.Algebra.CharP.Algebra
import Mathlib.Algebra.Field.ZMod
import Mathlib.RingTheory.Ideal.Quotient.Basic
import Mathlib.RingTheory.PrincipalIdealDomain

/-!
# The field of 256 elements

GF(2)[x] modulo `x^8 + x^4 + x^3 + x + 1`. Every class is the class of one byte, and
every nonzero byte has an inverse under shift-and-add multiplication, so the quotient
is a field and the polynomial irreducible.
-/

namespace Lib.Gf256

open Polynomial BitPoly

/-- `x^8 + x^4 + x^3 + x + 1`. -/
noncomputable def fieldPoly : Poly := X ^ 8 + X ^ 4 + X ^ 3 + X + 1

theorem fieldPoly_eq : fieldPoly = modulus (0x1b : BitVec 8) := by
  have low : ofWord (0x1b : BitVec 8) = X ^ 4 + X ^ 3 + X + 1 := by
    simp [ofWord, Finset.sum_range_succ]
    ring
  rw [modulus, low, fieldPoly]
  ring

/-! ## Inverses of bytes -/

/-- The product of two bytes. -/
def mulByte (a b : BitVec 8) : BitVec 8 := mul 0x1b a b

/-- The 254th power of a byte. -/
def invByte (b : BitVec 8) : BitVec 8 :=
  let b2 := mulByte b b
  let b4 := mulByte b2 b2
  let b8 := mulByte b4 b4
  let b16 := mulByte b8 b8
  let b32 := mulByte b16 b16
  let b64 := mulByte b32 b32
  let b128 := mulByte b64 b64
  mulByte b2 (mulByte b4 (mulByte b8 (mulByte b16 (mulByte b32 (mulByte b64 b128)))))

theorem mulByte_invByte (b : BitVec 8) : b = 0 ∨ mulByte b (invByte b) = 1 := by
  revert b
  decide +kernel

theorem invByte_zero : invByte 0 = 0 := by decide +kernel

/-! ## The field -/

theorem residue_one : residue fieldPoly (1 : BitVec 8) = 1 := by
  have one : ofWord (1 : BitVec 8) = 1 := by simp [ofWord, Finset.sum_range_succ]
  rw [residue, one, map_one]

theorem residue_invByte {b : BitVec 8} (nonzero : b ≠ 0) :
    residue fieldPoly b * residue fieldPoly (invByte b) = 1 := by
  have product : mulByte b (invByte b) = 1 := (mulByte_invByte b).resolve_left nonzero
  rw [← residue_mul fieldPoly_eq, ← mulByte, product, residue_one]

theorem isField : IsField (AdjoinRoot fieldPoly) := by
  refine ⟨⟨0, 1, ?_⟩, mul_comm, ?_⟩
  · intro same
    rw [← residue_zero (w := 8), ← residue_one] at same
    exact absurd (residue_injective fieldPoly_eq same) (by decide)
  · intro a nonzero
    obtain ⟨b, rfl⟩ := residue_surjective fieldPoly_eq a
    refine ⟨residue fieldPoly (invByte b), residue_invByte ?_⟩
    rintro rfl
    exact nonzero (residue_zero fieldPoly)

theorem irreducible_fieldPoly : Irreducible fieldPoly := by
  have nonzero : fieldPoly ≠ 0 := by
    rw [fieldPoly_eq]
    exact (modulus_monic _).ne_zero
  have maximal : (Ideal.span {fieldPoly}).IsMaximal :=
    Ideal.Quotient.maximal_of_isField _ isField
  exact ((Ideal.span_singleton_prime nonzero).mp maximal.isPrime).irreducible

instance : Fact (Irreducible fieldPoly) := ⟨irreducible_fieldPoly⟩

/-- The field of 256 elements. -/
abbrev GF256 := AdjoinRoot fieldPoly

/-- `x`. -/
noncomputable abbrev x : GF256 := AdjoinRoot.root fieldPoly

/-- The bits of a byte are the coefficients of a field element. -/
noncomputable def ofByte : BitVec 8 ≃ GF256 :=
  Equiv.ofBijective (residue fieldPoly)
    ⟨residue_injective fieldPoly_eq, residue_surjective fieldPoly_eq⟩

theorem ofByte_apply (b : BitVec 8) : ofByte b = residue fieldPoly b := rfl

theorem ofByte_xor (a b : BitVec 8) : ofByte (a ^^^ b) = ofByte a + ofByte b := residue_xor _ a b

@[simp] theorem ofByte_zero : ofByte 0 = 0 := residue_zero fieldPoly

theorem ofByte_mul (a b : BitVec 8) : ofByte (mulByte a b) = ofByte a * ofByte b :=
  residue_mul fieldPoly_eq a b

theorem ofByte_inv (b : BitVec 8) : ofByte (invByte b) = (ofByte b)⁻¹ := by
  by_cases zero : b = 0
  · rw [zero, invByte_zero, ofByte_zero, inv_zero]
  · exact eq_inv_of_mul_eq_one_right (residue_invByte zero)

/-- A byte has one inverse. -/
theorem invByte_eq {b c : BitVec 8} (product : mulByte b c = 1) : invByte b = c := by
  refine ofByte.injective ?_
  rw [ofByte_inv]
  refine inv_eq_of_mul_eq_one_right ?_
  rw [← ofByte_mul, product]
  exact residue_one

/-- The coefficient of `x ^ i` in a field element. -/
noncomputable def coefficient (a : GF256) (i : Nat) : ZMod 2 :=
  (AdjoinRoot.modByMonicHom (g := fieldPoly) (fieldPoly_eq ▸ modulus_monic _) a).coeff i

theorem coefficient_ofByte (b : BitVec 8) (i : Nat) :
    coefficient (ofByte b) i = bit (b.getLsbD i) := by
  have own : ofWord b = ofWord b %ₘ fieldPoly := (residue_eq_mk_iff fieldPoly_eq).mp rfl
  rw [coefficient, ofByte_apply, residue, AdjoinRoot.modByMonicHom_mk, ← own, coeff_ofWord]

instance : CharP GF256 2 := charP_of_injective_algebraMap
  (algebraMap (ZMod 2) GF256).injective 2

end Lib.Gf256
