import Mathlib.RingTheory.AdjoinRoot
import Mathlib.Algebra.CharP.Two
import Mathlib.Algebra.Field.ZMod
import Mathlib.Data.List.GetD

/-!
# Words and messages as polynomials over GF(2)

The bits of a word are the coefficients of a polynomial of degree below its width,
and a message is the polynomial with its first bit in front. A shift to the left
that folds the lost bit back in is multiplication by `X` modulo a fixed polynomial;
this is the step of a CRC register and of shift-and-add field multiplication.
-/

namespace Lib.BitPoly

open Polynomial

/-- Polynomials over GF(2). -/
abbrev Poly := (ZMod 2)[X]

/-- The coefficient a bit stands for. -/
def bit (b : Bool) : ZMod 2 := if b then 1 else 0

@[simp] theorem bit_false : bit false = 0 := rfl

@[simp] theorem bit_true : bit true = 1 := rfl

theorem bit_xor (a b : Bool) : bit (a ^^ b) = bit a + bit b := by
  cases a <;> cases b <;> decide

theorem bit_injective : Function.Injective bit := by
  intro a b h
  cases a <;> cases b <;> first | rfl | exact absurd h (by decide)

theorem bit_surjective : Function.Surjective bit := by
  intro a
  fin_cases a
  · exact ⟨false, rfl⟩
  · exact ⟨true, rfl⟩

/-! ## Words -/

section Words

variable {w : Nat}

/-- The polynomial whose coefficients are the bits of the word, low bit first. -/
noncomputable def ofWord (b : BitVec w) : Poly :=
  ∑ i ∈ Finset.range w, C (bit (b.getLsbD i)) * X ^ i

@[simp] theorem coeff_ofWord (b : BitVec w) (i : Nat) :
    (ofWord b).coeff i = bit (b.getLsbD i) := by
  simp only [ofWord, finsetSum_coeff, coeff_C_mul_X_pow]
  rw [Finset.sum_ite_eq]
  by_cases inside : i < w
  · rw [if_pos (Finset.mem_range.mpr inside)]
  · rw [if_neg (by simpa using inside), BitVec.getLsbD_of_ge _ _ (Nat.le_of_not_lt inside)]
    rfl

theorem ofWord_injective : Function.Injective (ofWord : BitVec w → Poly) := by
  intro a b h
  refine BitVec.eq_of_getLsbD_eq ?_
  intro i _
  have coeff := congrArg (fun p : Poly => p.coeff i) h
  simp only [coeff_ofWord] at coeff
  exact bit_injective coeff

theorem ofWord_xor (a b : BitVec w) : ofWord (a ^^^ b) = ofWord a + ofWord b := by
  ext i
  rw [coeff_add, coeff_ofWord, coeff_ofWord, coeff_ofWord, BitVec.getLsbD_xor, bit_xor]

@[simp] theorem ofWord_zero : ofWord (0 : BitVec w) = 0 := by
  ext i
  simp

theorem degree_ofWord_lt (b : BitVec w) : (ofWord b).degree < w := by
  refine (degree_lt_iff_coeff_zero _ _).mpr ?_
  intro i outside
  rw [coeff_ofWord, BitVec.getLsbD_of_ge _ _ outside]
  rfl

/-- A polynomial of degree below the width is a word. -/
theorem exists_ofWord {p : Poly} (small : p.degree < w) : ∃ b : BitVec w, ofWord b = p := by
  choose value same using fun i => bit_surjective (p.coeff i)
  refine ⟨(BitVec.ofBoolListLE ((List.range w).map value)).setWidth w, ?_⟩
  ext i
  rw [coeff_ofWord, BitVec.getLsbD_setWidth, BitVec.getLsbD_ofBoolListLE]
  by_cases inside : i < w
  · rw [decide_eq_true inside, Bool.true_and, List.getD_eq_getElem _ _ (by simpa using inside),
      List.getElem_map, List.getElem_range, same]
  · rw [decide_eq_false inside, (degree_lt_iff_coeff_zero _ _).mp small i (Nat.le_of_not_lt inside)]
    rfl

end Words

/-! ## Messages -/

/-- The polynomial of a message, its first bit at the highest power. -/
noncomputable def ofBits (bits : List Bool) : Poly :=
  bits.foldl (fun p b => p * X + C (bit b)) 0

@[simp] theorem ofBits_nil : ofBits [] = 0 := rfl

theorem ofBits_concat (bits : List Bool) (b : Bool) :
    ofBits (bits ++ [b]) = ofBits bits * X + C (bit b) := by
  rw [ofBits, List.foldl_append]
  rfl

theorem ofBits_append (bits bits' : List Bool) :
    ofBits (bits ++ bits') = ofBits bits * X ^ bits'.length + ofBits bits' := by
  induction bits' using List.reverseRecOn with
  | nil => simp
  | append_singleton bits' b ih =>
    rw [← List.append_assoc, ofBits_concat, ih, ofBits_concat, List.length_append,
      List.length_singleton, pow_succ]
    ring

/-- The coefficients are the bits, the last one at `X ^ 0`. -/
theorem coeff_ofBits (bits : List Bool) (i : Nat) :
    (ofBits bits).coeff i = bit (bits.reverse.getD i false) := by
  induction bits using List.reverseRecOn generalizing i with
  | nil => simp
  | append_singleton bits b ih =>
    rw [ofBits_concat, List.reverse_append, List.reverse_singleton, List.singleton_append]
    cases i with
    | zero => simp
    | succ i =>
      rw [coeff_add, coeff_mul_X, ih, coeff_C_succ, add_zero, List.getD_cons_succ]

theorem degree_ofBits_lt (bits : List Bool) : (ofBits bits).degree < bits.length := by
  refine (degree_lt_iff_coeff_zero _ _).mpr ?_
  intro i outside
  rw [coeff_ofBits, List.getD_eq_default _ _ (by simpa using outside)]
  rfl

theorem ofBits_eq_zero {bits : List Bool} : ofBits bits = 0 ↔ true ∉ bits := by
  constructor
  · intro zero member
    obtain ⟨i, inside, same⟩ := List.getElem_of_mem (List.mem_reverse.mpr member)
    have coeff := coeff_ofBits bits i
    rw [zero, coeff_zero, List.getD_eq_getElem _ _ inside, same] at coeff
    exact absurd coeff (by decide)
  · intro none
    ext i
    rw [coeff_ofBits, coeff_zero]
    have bitFalse : bits.reverse.getD i false = false := by
      rw [List.getD_eq_getElem?_getD]
      cases found : bits.reverse[i]? with
      | none => rfl
      | some b =>
        cases b with
        | false => rfl
        | true => exact absurd (List.mem_reverse.mp (List.mem_of_getElem? found)) none
    rw [bitFalse]
    rfl

/-- At one a message is the parity of the number of its set bits. -/
theorem eval_one_ofBits (bits : List Bool) :
    (ofBits bits).eval 1 = (bits.count true : ZMod 2) := by
  induction bits using List.reverseRecOn with
  | nil => simp
  | append_singleton bits b ih =>
    rw [ofBits_concat, eval_add, eval_mul, eval_X, mul_one, eval_C, ih, List.count_append]
    cases b <;> simp

/-- The bits of a word, high bit first. -/
def wordBits {w : Nat} (b : BitVec w) : List Bool := List.ofFn fun i : Fin w => b.getMsbD i

@[simp] theorem wordBits_length {w : Nat} (b : BitVec w) : (wordBits b).length = w :=
  List.length_ofFn

/-- A word is the message of its bits. -/
theorem ofBits_wordBits {w : Nat} (b : BitVec w) : ofBits (wordBits b) = ofWord b := by
  ext i
  rw [coeff_ofBits, coeff_ofWord, List.getD_eq_getElem?_getD]
  by_cases inside : i < w
  · rw [List.getElem?_reverse (by simpa using inside), wordBits_length, wordBits,
      List.getElem?_ofFn, dif_pos (by omega)]
    show bit (b.getMsbD (w - 1 - i)) = _
    rw [BitVec.getMsbD_eq_getLsbD, show w - 1 - (w - 1 - i) = i by omega,
      decide_eq_true (by omega), Bool.true_and]
  · rw [List.getElem?_eq_none (by simpa using inside),
      BitVec.getLsbD_of_ge _ _ (Nat.le_of_not_lt inside)]
    rfl

/-! ## Folding back what is shifted out -/

section Fold

variable {w : Nat} (low : BitVec w)

/-- The polynomial of degree `w` with `low` below its leading term. -/
noncomputable def modulus : Poly := X ^ w + ofWord low

theorem modulus_monic : (modulus low).Monic := monic_X_pow_add (degree_ofWord_lt low)

theorem degree_modulus : (modulus low).degree = w := by
  rw [modulus, add_comm, degree_add_eq_right_of_degree_lt]
  · exact degree_X_pow w
  · rw [degree_X_pow]
    exact degree_ofWord_lt low

/-- A shift to the left; the bit that is lost folds `low` back in. -/
def shiftFold (c : BitVec w) : BitVec w := if c.msb then (c <<< 1) ^^^ low else c <<< 1

theorem X_mul_ofWord (c : BitVec w) :
    X * ofWord c = ofWord (c <<< 1) + C (bit c.msb) * X ^ w := by
  ext i
  rw [coeff_add, coeff_ofWord, coeff_C_mul_X_pow, BitVec.getLsbD_shiftLeft]
  cases i with
  | zero =>
    rw [mul_coeff_zero, coeff_X_zero, zero_mul]
    by_cases empty : w = 0
    · subst empty
      simp [BitVec.msb]
    · simp [Ne.symm empty]
  | succ i =>
    rw [coeff_X_mul, coeff_ofWord]
    by_cases inside : i + 1 < w
    · simp [inside, Nat.ne_of_lt inside]
    · by_cases top : i + 1 = w
      · subst top
        simp [BitVec.msb_eq_getLsbD_last]
      · simp [inside, top, BitVec.getLsbD_of_ge c i (by omega)]

/-- A shift is a multiplication by `X`, up to a multiple of the modulus. -/
theorem ofWord_shiftFold (c : BitVec w) :
    ofWord (shiftFold low c) = X * ofWord c + C (bit c.msb) * modulus low := by
  rw [X_mul_ofWord, modulus, shiftFold]
  cases c.msb with
  | false => simp
  | true =>
    rw [if_pos rfl, ofWord_xor, bit_true, C_1, one_mul, one_mul, add_assoc, ← add_assoc (X ^ w),
      CharTwo.add_self_eq_zero, zero_add]

end Fold

/-! ## Residues -/

section Residue

variable {w : Nat}

/-- The class of a word modulo `g`. -/
noncomputable def residue (g : Poly) (c : BitVec w) : AdjoinRoot g := AdjoinRoot.mk g (ofWord c)

theorem residue_xor (g : Poly) (a b : BitVec w) :
    residue g (a ^^^ b) = residue g a + residue g b := by
  rw [residue, ofWord_xor, map_add]
  rfl

@[simp] theorem residue_zero (g : Poly) : residue g (0 : BitVec w) = 0 := by
  rw [residue, ofWord_zero, map_zero]

variable {low : BitVec w} {g : Poly} (h : g = modulus low)
include h

theorem residue_shiftFold (c : BitVec w) :
    residue g (shiftFold low c) = AdjoinRoot.root g * residue g c := by
  rw [residue, ofWord_shiftFold, ← h, map_add, map_mul, map_mul, AdjoinRoot.mk_X,
    AdjoinRoot.mk_self, mul_zero, add_zero, residue]

theorem residue_shiftFold_iterate (n : Nat) (c : BitVec w) :
    residue g (Nat.repeat (shiftFold low) n c) = AdjoinRoot.root g ^ n * residue g c := by
  induction n with
  | zero => rw [pow_zero, one_mul]; rfl
  | succ n ih => rw [Nat.repeat, residue_shiftFold h, ih, pow_succ', mul_assoc]

/-- A word is the remainder of every polynomial in its class. -/
theorem residue_eq_mk_iff {c : BitVec w} {p : Poly} :
    residue g c = AdjoinRoot.mk g p ↔ ofWord c = p %ₘ g := by
  have monic : g.Monic := h ▸ modulus_monic low
  have small : (ofWord c).degree < g.degree := by
    rw [h, degree_modulus]
    exact degree_ofWord_lt c
  have own : ofWord c %ₘ g = ofWord c := (modByMonic_eq_self_iff monic).mpr small
  rw [residue, AdjoinRoot.mk_eq_mk, ← modByMonic_eq_zero_iff_dvd monic, sub_modByMonic, own,
    sub_eq_zero]

theorem residue_injective : Function.Injective (residue g : BitVec w → AdjoinRoot g) := by
  intro a b same
  have remainder : ofWord a = ofWord b %ₘ g := (residue_eq_mk_iff h).mp same
  have own : ofWord b = ofWord b %ₘ g := (residue_eq_mk_iff h).mp rfl
  exact ofWord_injective (remainder.trans own.symm)

theorem residue_surjective : Function.Surjective (residue g : BitVec w → AdjoinRoot g) := by
  intro a
  obtain ⟨p, rfl⟩ := AdjoinRoot.mk_surjective a
  have small : (p %ₘ g).degree < w := by
    rw [← degree_modulus low, ← h]
    exact degree_modByMonic_lt p (h ▸ modulus_monic low)
  obtain ⟨c, same⟩ := exists_ofWord small
  exact ⟨c, (residue_eq_mk_iff h).mpr same⟩

end Residue

/-! ## Shift-and-add multiplication -/

section Mul

variable {w : Nat} (low : BitVec w)

/-- The sum so far, the shifted first factor, and the bits of the second one to come. -/
structure MulState (w : Nat) where
  result : BitVec w
  a : BitVec w
  b : BitVec w

/-- One bit of the second factor. -/
def mulStep (s : MulState w) : MulState w where
  result := if s.b.getLsbD 0 then s.result ^^^ s.a else s.result
  a := shiftFold low s.a
  b := s.b >>> 1

/-- The product of two words. -/
def mul (a b : BitVec w) : BitVec w := (Nat.repeat (mulStep low) w ⟨0, a, b⟩).result

theorem ofWord_halve (b : BitVec w) :
    ofWord b = C (bit (b.getLsbD 0)) + X * ofWord (b >>> 1) := by
  ext i
  cases i with
  | zero => rw [coeff_add, coeff_C_zero, mul_coeff_zero, coeff_X_zero, zero_mul, add_zero,
      coeff_ofWord]
  | succ i => rw [coeff_add, coeff_C_succ, zero_add, coeff_X_mul, coeff_ofWord, coeff_ofWord,
      BitVec.getLsbD_ushiftRight, Nat.add_comm 1 i]

variable {low} {g : Poly} (h : g = modulus low)
include h

/-- A step leaves the sum so far plus the product to come as it is. -/
theorem residue_mulStep (s : MulState w) :
    residue g (mulStep low s).result + residue g (mulStep low s).a * residue g (mulStep low s).b =
      residue g s.result + residue g s.a * residue g s.b := by
  have halves : residue g s.b =
      AdjoinRoot.of g (bit (s.b.getLsbD 0)) + AdjoinRoot.root g * residue g (s.b >>> 1) := by
    rw [residue, ofWord_halve, map_add, map_mul, AdjoinRoot.mk_C, AdjoinRoot.mk_X, residue]
  show residue g (if s.b.getLsbD 0 then _ else _) +
    residue g (shiftFold low s.a) * residue g (s.b >>> 1) = _
  rw [halves, residue_shiftFold h]
  cases s.b.getLsbD 0 with
  | false =>
    rw [if_neg (by decide), bit_false, map_zero]
    ring
  | true =>
    rw [if_pos rfl, residue_xor, bit_true, map_one]
    ring

theorem residue_mul (a b : BitVec w) : residue g (mul low a b) = residue g a * residue g b := by
  have steps (n : Nat) :
      (Nat.repeat (mulStep low) n ⟨0, a, b⟩).b = b >>> n ∧
      residue g (Nat.repeat (mulStep low) n ⟨0, a, b⟩).result +
        residue g (Nat.repeat (mulStep low) n ⟨0, a, b⟩).a *
          residue g (Nat.repeat (mulStep low) n ⟨0, a, b⟩).b = residue g a * residue g b := by
    induction n with
    | zero =>
      refine ⟨(BitVec.ushiftRight_zero b).symm, ?_⟩
      show residue g (0 : BitVec w) + residue g a * residue g b = _
      rw [residue_zero, zero_add]
    | succ n ih =>
      rw [Nat.repeat]
      refine ⟨?_, (residue_mulStep h _).trans ih.2⟩
      show (Nat.repeat (mulStep low) n ⟨0, a, b⟩).b >>> 1 = _
      rw [ih.1, ← BitVec.shiftRight_add]
  -- after `w` steps no bit is left
  obtain ⟨out, product⟩ := steps w
  have none : b >>> w = 0 := BitVec.ushiftRight_eq_zero (Nat.le_refl w)
  rw [out, none, residue_zero, mul_zero, add_zero] at product
  exact product

end Mul

end Lib.BitPoly
