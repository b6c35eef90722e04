import Mathlib.Logic.Function.Basic
import Mathlib.Data.List.Basic
import Mathlib.Tactic.SplitIfs

/-!
# Circular buffers

A buffer of `n` slots with a read and a write index below `n`: its contents are
the slots from the read index up to the write index, around the end. Equal
indices mean empty, so at most `n - 1` entries fit.
-/

namespace Lib.Circular

variable {α : Type*}

/-- The number of entries. -/
def count (n r w : Nat) : Nat := if r ≤ w then w - r else w + n - r

/-- The entries, oldest first. -/
def contents (slot : Nat → α) (n r w : Nat) : List α :=
  (List.range (count n r w)).map fun i => slot ((r + i) % n)

@[simp] theorem contents_length (slot : Nat → α) (n r w : Nat) :
    (contents slot n r w).length = count n r w := by
  simp [contents]

/-- An index goes around the end at most once. -/
theorem wrap {n i : Nat} (h : i < 2 * n) : i % n = if i < n then i else i - n := by
  by_cases inside : i < n
  · rw [if_pos inside, Nat.mod_eq_of_lt inside]
  · rw [if_neg inside, Nat.mod_eq_sub_mod (by omega), Nat.mod_eq_of_lt (by omega)]

section Indices

variable {n r w : Nat} (hr : r < n) (hw : w < n)
include hr hw

theorem count_lt : count n r w < n := by
  unfold count
  split <;> omega

omit hw in
theorem count_eq_zero : count n r w = 0 ↔ r = w := by
  unfold count
  split <;> omega

/-- The next write index meets the read index exactly when no more fits. -/
theorem full_iff : (w + 1) % n = r ↔ count n r w = n - 1 := by
  rw [wrap (by omega), count]
  split <;> split <;> omega

theorem count_push (room : (w + 1) % n ≠ r) : count n r ((w + 1) % n) = count n r w + 1 := by
  rw [wrap (by omega)] at room ⊢
  unfold count
  split_ifs at room ⊢ <;> omega

theorem count_pop (h : r ≠ w) : count n r w = count n ((r + 1) % n) w + 1 := by
  rw [wrap (by omega)]
  unfold count
  split <;> split <;> split <;> omega

omit hw in
theorem contents_eq_nil (slot : Nat → α) : contents slot n r w = [] ↔ r = w := by
  rw [← List.length_eq_zero_iff, contents_length, count_eq_zero hr]

/-- The entries end at the write index. -/
theorem add_count : (r + count n r w) % n = w := by
  have most := count_lt hr hw
  rw [wrap (by omega)]
  unfold count
  split <;> split <;> omega

/-- The slot at the write index is not in use. -/
theorem used_ne_write {i : Nat} (used : i < count n r w) : (r + i) % n ≠ w := by
  have most := count_lt hr hw
  have last := add_count hr hw
  -- two entries less than `n` apart are in different slots
  rw [← last, wrap (by omega), wrap (by omega)]
  split <;> split <;> omega

/-- Writing a slot that is not in use and moving on appends. -/
theorem contents_push {slot slot' : Nat → α} {a : α} (room : (w + 1) % n ≠ r)
    (written : slot' w = a) (others : ∀ i, i ≠ w → slot' i = slot i) :
    contents slot' n r ((w + 1) % n) = contents slot n r w ++ [a] := by
  rw [contents, count_push hr hw room, List.range_succ, List.map_append]
  congr 1
  · exact List.map_congr_left fun i hi =>
      others _ (used_ne_write hr hw (List.mem_range.mp hi))
  · rw [List.map_singleton, add_count hr hw, written]

/-- Moving the read index on drops the oldest entry. -/
theorem contents_pop (slot : Nat → α) (h : r ≠ w) :
    contents slot n r w = slot r :: contents slot n ((r + 1) % n) w := by
  rw [contents, count_pop hr hw h, List.range_succ_eq_map, List.map_cons, Nat.add_zero,
    Nat.mod_eq_of_lt hr, contents, List.map_map]
  congr 1
  refine List.map_congr_left ?_
  intro i hi
  show slot ((r + (i + 1)) % n) = _
  rw [Nat.mod_add_mod, Nat.add_right_comm, Nat.add_assoc]

end Indices

end Lib.Circular
