import SecureBootloader.Shared.RingBuffer
import SecureBootloader.Lib.Circular
import Mathlib.Algebra.Group.Nat.Defs

/-!
# The byte queue as a list

A ring buffer of `2 ^ k` slots holds a list of bytes: a write that succeeds appends
to it, a read takes its head.
-/

namespace SecureBootloader

open Lib

/-- The bytes held, oldest first. A byte counts until its read has stored the index. -/
def RingBuffer.held (rb : RingBuffer) : List Byte :=
  Circular.contents (fun i => rb.buffer.getD i 0) rb.buffer.length rb.readIndex rb.writeIndex

/-- A queue of `2 ^ k` slots. -/
structure RingSize (k : Nat) (rb : RingBuffer) : Prop where
  size : rb.buffer.length = 2 ^ k
  mask : rb.mask = 2 ^ k - 1
  read : rb.readIndex < 2 ^ k
  write : rb.writeIndex < 2 ^ k

section Ring

variable {k : Nat} (hk : k ≤ 31) {rb : RingBuffer} (ok : RingSize k rb)
include hk ok

omit ok in
/-- The mask is the remainder by the size. -/
theorem and_mask {i : Nat} (inside : i < 2 ^ k) :
    ((i + 1) % 2 ^ 32) &&& (2 ^ k - 1) = (i + 1) % 2 ^ k := by
  have most : 2 ^ k ≤ 2 ^ 31 := Nat.pow_le_pow_right (by decide) hk
  rw [Nat.and_two_pow_sub_one_eq_mod, Nat.mod_eq_of_lt (a := i + 1) (by omega)]

omit hk in
theorem held_eq (slot : Nat → Byte) (same : ∀ i, rb.buffer.getD i 0 = slot i) :
    rb.held = Circular.contents slot (2 ^ k) rb.readIndex rb.writeIndex := by
  rw [RingBuffer.held, ok.size]
  exact congrArg (Circular.contents · _ _ _) (funext same)

omit hk in
theorem held_length_lt : rb.held.length < 2 ^ k := by
  rw [held_eq ok _ fun _ => rfl, Circular.contents_length]
  exact Circular.count_lt ok.read ok.write

omit hk in
theorem held_eq_nil : rb.held = [] ↔ rb.readIndex = rb.writeIndex := by
  rw [held_eq ok _ fun _ => rfl]
  exact Circular.contents_eq_nil ok.read _

/-- A write that succeeds. -/
theorem ringBufferWrite_true {byte : Byte} (success : (ringBufferWrite rb byte).1 = true) :
    RingSize k (ringBufferWrite rb byte).2 ∧
      (ringBufferWrite rb byte).2.held = rb.held ++ [byte] ∧
      (ringBufferWrite rb byte).2.readIndex = rb.readIndex ∧
      ∀ i < rb.held.length,
        (ringBufferWrite rb byte).2.buffer.getD ((rb.readIndex + i) % 2 ^ k) 0 =
          rb.buffer.getD ((rb.readIndex + i) % 2 ^ k) 0 := by
  have next := and_mask hk ok.write
  by_cases full : (rb.writeIndex + 1) % 2 ^ k = rb.readIndex
  · rw [ringBufferWrite, ok.mask, next, if_pos full] at success
    cases success
  · have out : (ringBufferWrite rb byte).2 = { rb with
        buffer := rb.buffer.set rb.writeIndex byte
        writeIndex := (rb.writeIndex + 1) % 2 ^ k } := by
      rw [ringBufferWrite, ok.mask, next, if_neg full, ← ok.mask]
    have inside : rb.writeIndex < rb.buffer.length := ok.size ▸ ok.write
    have written : (rb.buffer.set rb.writeIndex byte).getD rb.writeIndex 0 = byte := by
      rw [List.getD_eq_getElem?_getD, List.getElem?_set_self inside]
      rfl
    have others (i : Nat) (ne : i ≠ rb.writeIndex) :
        (rb.buffer.set rb.writeIndex byte).getD i 0 = rb.buffer.getD i 0 := by
      rw [List.getD_eq_getElem?_getD, List.getElem?_set_ne (Ne.symm ne),
        ← List.getD_eq_getElem?_getD]
    have held : (ringBufferWrite rb byte).2.held = rb.held ++ [byte] := by
      rw [out, RingBuffer.held, List.length_set, RingBuffer.held, ok.size]
      exact Circular.contents_push ok.read ok.write full written others
    have size : RingSize k (ringBufferWrite rb byte).2 := by
      rw [out]
      exact ⟨(List.length_set ..).trans ok.size, ok.mask, ok.read,
        Nat.mod_lt _ (Nat.two_pow_pos k)⟩
    refine ⟨size, held, by rw [out], ?_⟩
    intro i hi
    rw [held_eq ok _ fun _ => rfl, Circular.contents_length] at hi
    rw [out]
    exact others _ (Circular.used_ne_write ok.read ok.write hi)

/-- A write that fails. -/
theorem ringBufferWrite_false {byte : Byte} (failure : (ringBufferWrite rb byte).1 = false) :
    (ringBufferWrite rb byte).2 = rb ∧ rb.held.length = 2 ^ k - 1 := by
  have next := and_mask hk ok.write
  by_cases full : (rb.writeIndex + 1) % 2 ^ k = rb.readIndex
  · refine ⟨?_, ?_⟩
    · rw [ringBufferWrite, ok.mask, next, if_pos full]
    · rw [held_eq ok _ fun _ => rfl, Circular.contents_length]
      exact (Circular.full_iff ok.read ok.write).mp full
  · rw [ringBufferWrite, ok.mask, next, if_neg full] at failure
    cases failure

/-- The store of the read index drops the oldest byte. -/
theorem readIndex_moves (nonempty : rb.readIndex ≠ rb.writeIndex) :
    RingSize k { rb with readIndex := ((rb.readIndex + 1) % 2 ^ 32) &&& rb.mask } ∧
      rb.held = rb.buffer.getD rb.readIndex 0 ::
        ({ rb with readIndex := ((rb.readIndex + 1) % 2 ^ 32) &&& rb.mask } : RingBuffer).held := by
  have next : ((rb.readIndex + 1) % 2 ^ 32) &&& rb.mask = (rb.readIndex + 1) % 2 ^ k := by
    rw [ok.mask, and_mask hk ok.read]
  rw [next]
  refine ⟨⟨ok.size, ok.mask, Nat.mod_lt _ (Nat.two_pow_pos k), ok.write⟩, ?_⟩
  rw [RingBuffer.held, RingBuffer.held, ok.size]
  exact Circular.contents_pop ok.read ok.write _ nonempty

/-- A write with room for the byte. -/
theorem ringBufferWrite_room {byte : Byte} (room : rb.held.length < 2 ^ k - 1) :
    RingSize k (ringBufferWrite rb byte).2 ∧
      (ringBufferWrite rb byte).2.held = rb.held ++ [byte] := by
  have success : (ringBufferWrite rb byte).1 = true := by
    by_contra failure
    have full := (ringBufferWrite_false hk ok (Bool.eq_false_iff.mpr failure)).2
    omega
  obtain ⟨size, held, -⟩ := ringBufferWrite_true hk ok success
  exact ⟨size, held⟩

/-- A read takes the oldest byte, if there is one. -/
theorem ringBufferRead_held :
    (rb.held = [] ∧ ringBufferRead rb = (none, rb)) ∨
      ∃ byte, (ringBufferRead rb).1 = some byte ∧ RingSize k (ringBufferRead rb).2 ∧
        rb.held = byte :: (ringBufferRead rb).2.held := by
  by_cases empty : rb.readIndex = rb.writeIndex
  · exact .inl ⟨(held_eq_nil ok).mpr empty, by rw [ringBufferRead, if_pos empty]⟩
  · obtain ⟨size, held⟩ := readIndex_moves hk ok empty
    refine .inr ⟨rb.buffer.getD rb.readIndex 0, ?_, ?_, ?_⟩
    · rw [ringBufferRead, if_neg empty]
    · rw [ringBufferRead, if_neg empty]
      exact size
    · rw [ringBufferRead, if_neg empty]
      exact held

end Ring

end SecureBootloader
