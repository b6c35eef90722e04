import Mathlib.Algebra.Group.Nat.Defs
import Mathlib.Tactic.Common

/-!
# AES blocks

`aes.h` stores a block as four columns of four bytes, and the rest of the
bootloader copies blocks with `memcpy`, so the same sixteen bytes are also read
as a flat array in column-major order. Both views are given here, with the
XOR group that `aes_cbc_mac_step` works in.
-/

namespace SecureBootloader

/-- `uint8_t`. -/
abbrev Byte := BitVec 8

/-- `AES_BLOCK_SIZE`. -/
def aesBlockSize : Nat := 16

/-- `AES_Column_t`: one column, top row first. -/
@[ext] structure AesColumn where
  r0 : Byte
  r1 : Byte
  r2 : Byte
  r3 : Byte
  deriving DecidableEq, Repr

/-- `AES_Block_t`: four columns. -/
@[ext] structure AesBlock where
  c0 : AesColumn
  c1 : AesColumn
  c2 : AesColumn
  c3 : AesColumn
  deriving DecidableEq, Repr

/-- Apply a byte function to every row of a column. -/
def AesColumn.map (f : Byte → Byte) (w : AesColumn) : AesColumn :=
  ⟨f w.r0, f w.r1, f w.r2, f w.r3⟩

/-- Byte-wise combination of two columns. -/
def AesColumn.zipWith (f : Byte → Byte → Byte) (a b : AesColumn) : AesColumn :=
  ⟨f a.r0 b.r0, f a.r1 b.r1, f a.r2 b.r2, f a.r3 b.r3⟩

/-- Apply a column function to every column of a block. -/
def AesBlock.mapColumns (f : AesColumn → AesColumn) (s : AesBlock) : AesBlock :=
  ⟨f s.c0, f s.c1, f s.c2, f s.c3⟩

/-- Byte-wise XOR of two columns. -/
def AesColumn.xor (a b : AesColumn) : AesColumn := a.zipWith (· ^^^ ·) b

/-- Byte-wise XOR of two blocks. -/
def AesBlock.xor (a b : AesBlock) : AesBlock :=
  ⟨a.c0.xor b.c0, a.c1.xor b.c1, a.c2.xor b.c2, a.c3.xor b.c3⟩

/-! ## The flat view used by `memcpy` and `memset` -/

/-- The block whose flat bytes are `f 0, …, f 15`. -/
def AesBlock.ofFn (f : Nat → Byte) : AesBlock :=
  ⟨⟨f 0, f 1, f 2, f 3⟩, ⟨f 4, f 5, f 6, f 7⟩, ⟨f 8, f 9, f 10, f 11⟩,
    ⟨f 12, f 13, f 14, f 15⟩⟩

/-- The sixteen bytes in memory order. -/
def AesBlock.bytes (s : AesBlock) : List Byte :=
  [s.c0.r0, s.c0.r1, s.c0.r2, s.c0.r3, s.c1.r0, s.c1.r1, s.c1.r2, s.c1.r3,
    s.c2.r0, s.c2.r1, s.c2.r2, s.c2.r3, s.c3.r0, s.c3.r1, s.c3.r2, s.c3.r3]

/-- Byte `i` of the flat view. -/
def AesBlock.byte (s : AesBlock) (i : Nat) : Byte := s.bytes.getD i 0

@[simp] theorem AesBlock.bytes_length (s : AesBlock) : s.bytes.length = 16 := rfl

/-- A flat index below sixteen names one of the sixteen bytes. -/
theorem lt_sixteen_cases {P : Nat → Prop} (h : ∀ i ∈ List.range 16, P i) :
    ∀ i, i < 16 → P i := fun i hi => h i (List.mem_range.mpr hi)

@[simp] theorem AesBlock.byte_ofFn (f : Nat → Byte) {i : Nat} (hi : i < 16) :
    (AesBlock.ofFn f).byte i = f i := by
  revert i
  apply lt_sixteen_cases
  simp [AesBlock.byte, AesBlock.bytes, AesBlock.ofFn, List.range, List.range.loop]

@[simp] theorem AesBlock.ofFn_byte (s : AesBlock) : AesBlock.ofFn s.byte = s := rfl

/-- Blocks are equal when their sixteen flat bytes are. -/
theorem AesBlock.ext_byte {s t : AesBlock} (h : ∀ i, i < 16 → s.byte i = t.byte i) :
    s = t := by
  rw [← ofFn_byte s, ← ofFn_byte t]
  simp only [AesBlock.ofFn, AesBlock.mk.injEq, AesColumn.mk.injEq]
  refine ⟨⟨h 0 ?_, h 1 ?_, h 2 ?_, h 3 ?_⟩, ⟨h 4 ?_, h 5 ?_, h 6 ?_, h 7 ?_⟩,
    ⟨h 8 ?_, h 9 ?_, h 10 ?_, h 11 ?_⟩, ⟨h 12 ?_, h 13 ?_, h 14 ?_, h 15 ?_⟩⟩ <;> decide

/-- `ofFn` only looks at indices below sixteen. -/
theorem AesBlock.bytes_ofFn (f : Nat → Byte) :
    (AesBlock.ofFn f).bytes = (List.range 16).map f := rfl

theorem AesBlock.bytes_inj {s t : AesBlock} : s.bytes = t.bytes ↔ s = t := by
  constructor
  · intro h
    refine AesBlock.ext_byte ?_
    intro i _
    rw [AesBlock.byte, AesBlock.byte, h]
  · intro h
    rw [h]

theorem AesBlock.ofFn_congr {f g : Nat → Byte} (h : ∀ i, i < 16 → f i = g i) :
    AesBlock.ofFn f = AesBlock.ofFn g :=
  AesBlock.ext_byte fun i hi => by rw [byte_ofFn f hi, byte_ofFn g hi, h i hi]

theorem AesBlock.ofFn_inj {f g : Nat → Byte} :
    AesBlock.ofFn f = AesBlock.ofFn g ↔ ∀ i, i < 16 → f i = g i := by
  refine ⟨?_, AesBlock.ofFn_congr⟩
  intro h i hi
  rw [← byte_ofFn f hi, h, byte_ofFn g hi]

/-! ## The XOR group -/

theorem AesColumn.xor_assoc (a b c : AesColumn) : (a.xor b).xor c = a.xor (b.xor c) := by
  simp [AesColumn.xor, AesColumn.zipWith, BitVec.xor_assoc]

theorem AesColumn.xor_comm (a b : AesColumn) : a.xor b = b.xor a := by
  simp [AesColumn.xor, AesColumn.zipWith, BitVec.xor_comm]

@[simp] theorem AesColumn.xor_self (a : AesColumn) : a.xor a = ⟨0#8, 0#8, 0#8, 0#8⟩ := by
  simp [AesColumn.xor, AesColumn.zipWith]

@[simp] theorem AesColumn.xor_zero (a : AesColumn) : a.xor ⟨0#8, 0#8, 0#8, 0#8⟩ = a := by
  simp [AesColumn.xor, AesColumn.zipWith]

/-- The all-zero block, the initial value of `state` and `prev_cipher_block`. -/
def AesBlock.zero : AesBlock := AesBlock.ofFn fun _ => 0

instance : Add AesBlock := ⟨AesBlock.xor⟩

instance : Zero AesBlock := ⟨AesBlock.zero⟩

instance : Neg AesBlock := ⟨id⟩

theorem AesBlock.add_def (a b : AesBlock) : a + b = a.xor b := rfl

theorem AesBlock.zero_def : (0 : AesBlock) = AesBlock.zero := rfl

/-- Blocks form a group under XOR, in which every element is its own inverse. -/
instance : AddCommGroup AesBlock where
  add_assoc a b c := by
    simp [AesBlock.add_def, AesBlock.xor, AesColumn.xor_assoc]
  add_comm a b := by
    simp [AesBlock.add_def, AesBlock.xor, AesColumn.xor_comm]
  zero_add a := by
    simp [AesBlock.add_def, AesBlock.zero_def, AesBlock.xor, AesBlock.zero, AesBlock.ofFn,
      AesColumn.xor, AesColumn.zipWith]
  add_zero a := by
    simp [AesBlock.add_def, AesBlock.zero_def, AesBlock.xor, AesBlock.zero, AesBlock.ofFn]
  neg_add_cancel a := by
    show a.xor a = AesBlock.zero
    simp [AesBlock.xor, AesBlock.zero, AesBlock.ofFn]
  nsmul := nsmulRec
  zsmul := zsmulRec

end SecureBootloader
