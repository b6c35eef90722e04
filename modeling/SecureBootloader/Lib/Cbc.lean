import Mathlib.Algebra.Group.Basic
import Mathlib.Logic.Function.Basic
import Mathlib.Tactic.Common

/-!
# Cipher block chaining

CBC over any group of blocks: each block is added to the previous ciphertext
before it is enciphered, and the last ciphertext is the CBC-MAC. The chaining
is independent of the cipher; what the results below need of it is that it is
injective (a difference survives the rest of the chain) or surjective (the last
block steers the final value anywhere).
-/

namespace Lib.Cbc

variable {B : Type*}

/-! ## Chaining -/

section Chain

variable [AddGroup B]

/-- The ciphertext blocks of CBC encryption from the initial value `iv`. -/
def encrypt (E : B → B) : B → List B → List B
  | _, [] => []
  | iv, block :: rest => E (block + iv) :: encrypt E (E (block + iv)) rest

/-- The chaining value after all blocks. -/
def mac (E : B → B) (iv : B) (blocks : List B) : B :=
  blocks.foldl (fun previous block => E (block + previous)) iv

@[simp] theorem mac_nil (E : B → B) (iv : B) : mac E iv [] = iv := rfl

@[simp] theorem mac_cons (E : B → B) (iv block : B) (rest : List B) :
    mac E iv (block :: rest) = mac E (E (block + iv)) rest := rfl

theorem mac_append (E : B → B) (iv : B) (front back : List B) :
    mac E iv (front ++ back) = mac E (mac E iv front) back :=
  List.foldl_append

theorem mac_concat (E : B → B) (iv : B) (front : List B) (last : B) :
    mac E iv (front ++ [last]) = E (last + mac E iv front) := by
  rw [mac_append]; rfl

/-- A block that reproduces the chaining value does so any number of times. -/
theorem mac_replicate {E : B → B} {iv block : B} (fixed : E (block + iv) = iv) (k : Nat) :
    mac E iv (List.replicate k block) = iv := by
  induction k with
  | zero => rfl
  | succ k ih => rw [List.replicate_succ, mac_cons, fixed, ih]

/-- The last ciphertext block is the CBC-MAC. -/
theorem encrypt_getLast? (E : B → B) (iv : B) {blocks : List B} (nonempty : blocks ≠ []) :
    (encrypt E iv blocks).getLast? = some (mac E iv blocks) := by
  induction blocks generalizing iv with
  | nil => exact absurd rfl nonempty
  | cons block rest ih =>
    cases rest with
    | nil => rfl
    | cons next more =>
      rw [encrypt, mac_cons, ← ih (E (block + iv)) (by simp)]
      simp [encrypt]

/-- Two different chaining values stay different through the same blocks. -/
theorem mac_injective {E : B → B} (hE : Function.Injective E) (blocks : List B) :
    Function.Injective (mac E · blocks) := by
  induction blocks with
  | nil => exact Function.injective_id
  | cons block rest ih =>
    intro iv iv' h
    exact add_left_cancel (hE (ih h))

/-- Changing exactly one block changes the CBC-MAC. -/
theorem mac_ne_of_changed_block {E : B → B} (hE : Function.Injective E) (iv : B)
    (front back : List B) {block block' : B} (changed : block ≠ block') :
    mac E iv (front ++ block :: back) ≠ mac E iv (front ++ block' :: back) := by
  intro h
  rw [mac_append, mac_append, mac_cons, mac_cons] at h
  exact changed (add_right_cancel (hE (mac_injective hE back h)))

/-- Two messages given block by block over one list of positions, different at
exactly one of them, have different CBC-MACs. -/
theorem mac_map_ne {ι : Type*} {E : B → B} (hE : Function.Injective E) (iv : B)
    {positions : List ι} (nodup : positions.Nodup) {left right : ι → B} {p : ι}
    (hp : p ∈ positions) (changed : left p ≠ right p)
    (same : ∀ i ∈ positions, i ≠ p → left i = right i) :
    mac E iv (positions.map left) ≠ mac E iv (positions.map right) := by
  obtain ⟨front, back, rfl⟩ := List.append_of_mem hp
  obtain ⟨-, hback, apart⟩ := List.nodup_append.mp nodup
  have same_front : front.map left = front.map right :=
    List.map_congr_left fun i hi => same i (by simp [hi]) fun h =>
      apart i hi p (by simp) h
  have same_back : back.map left = back.map right :=
    List.map_congr_left fun i hi => same i (by simp [hi]) fun h =>
      (List.nodup_cons.mp hback).1 (h ▸ hi)
  rw [List.map_append, List.map_append, List.map_cons, List.map_cons, same_front, same_back]
  exact mac_ne_of_changed_block hE iv _ _ changed

/-- A surjective cipher lets one last block steer the CBC-MAC to any value. -/
theorem exists_last_block {E : B → B} (hE : Function.Surjective E) (iv : B) (front : List B)
    (target : B) : ∃ last, mac E iv (front ++ [last]) = target := by
  obtain ⟨input, hinput⟩ := hE target
  refine ⟨input - mac E iv front, ?_⟩
  rw [mac_concat, sub_add_cancel, hinput]

/-- A homomorphism that takes one cipher to the other takes one CBC-MAC to the other. -/
theorem mac_map {B' : Type*} [AddGroup B'] {f : B → B'} {E : B → B} {E' : B' → B'}
    (add : ∀ a b, f (a + b) = f a + f b) (cipher : ∀ b, f (E b) = E' (f b)) (iv : B)
    (blocks : List B) : f (mac E iv blocks) = mac E' (f iv) (blocks.map f) := by
  induction blocks generalizing iv with
  | nil => rfl
  | cons block rest ih => rw [mac_cons, ih, cipher, add, List.map_cons, mac_cons]

end Chain

/-! ## Prefix-free encodings -/

/-- No value encodes to a proper prefix of another value's encoding. -/
def PrefixFree {α : Type*} (encode : α → List B) : Prop :=
  ∀ a b, encode a <+: encode b → encode a = encode b

/-- An encoding whose first block determines its length is prefix-free. -/
theorem prefixFree_of_header {α : Type*} {encode : α → List B}
    (nonempty : ∀ a, encode a ≠ [])
    (header : ∀ a b, (encode a).head? = (encode b).head? →
      (encode a).length = (encode b).length) :
    PrefixFree encode := by
  intro a b hprefix
  refine hprefix.eq_of_length (header a b ?_)
  obtain ⟨rest, hrest⟩ := hprefix
  cases ha : encode a with
  | nil => exact absurd ha (nonempty a)
  | cons first more => simp [← hrest, ha]

/-! ## PKCS#7 padding -/

section Pkcs7

variable {α : Type*} (size : Nat) (encode : Nat → α)

/-- Append `p` copies of the encoding of `p`, where `p` between 1 and `size`
fills the last block; a full block when the input is block aligned. -/
def pkcs7 (input : List α) : List α :=
  let missing := size - input.length % size
  input ++ List.replicate missing (encode missing)

theorem pkcs7_length (input : List α) :
    (pkcs7 size encode input).length = input.length + (size - input.length % size) := by
  simp [pkcs7]

/-- Padded input is a whole number of blocks, one more than fits in the input. -/
theorem pkcs7_length_eq (positive : 0 < size) (input : List α) :
    (pkcs7 size encode input).length = size * (input.length / size + 1) := by
  rw [pkcs7_length, Nat.mul_add, Nat.mul_one]
  have split := Nat.div_add_mod input.length size
  have rest := Nat.mod_lt input.length positive
  omega

end Pkcs7

end Lib.Cbc
