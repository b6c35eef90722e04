import SecureBootloader.Lib.BitPoly
import SecureBootloader.Updater.Receive

/-!
# The CRC is a polynomial remainder

Both CRCs are the remainder of the message, shifted by the eight bits of the CRC,
modulo `x^8 + x^2 + x + 1`. A damaged frame passes the check exactly when that
polynomial divides the damage.
-/

namespace SecureBootloader

open Polynomial Lib.BitPoly

/-! ## Bytes as polynomials -/

/-- The bits of some bytes, each from its most significant bit on. -/
def bitsOf (bytes : List Byte) : List Bool := bytes.flatMap wordBits

/-- The polynomial of some bytes, the first bit at the highest power. -/
noncomputable def polyOf (bytes : List Byte) : Poly := ofBits (bitsOf bytes)

/-- `x^8 + x^2 + x + 1`. -/
noncomputable def crcPoly : Poly := X ^ 8 + X ^ 2 + X + 1

theorem bitsOf_length (bytes : List Byte) : (bitsOf bytes).length = 8 * bytes.length := by
  induction bytes with
  | nil => rfl
  | cons byte bytes ih =>
    rw [bitsOf, List.flatMap_cons, ← bitsOf, List.length_append, ih, wordBits_length,
      List.length_cons]
    omega

@[simp] theorem polyOf_nil : polyOf [] = 0 := rfl

theorem polyOf_append (bytes bytes' : List Byte) :
    polyOf (bytes ++ bytes') = polyOf bytes * X ^ (8 * bytes'.length) + polyOf bytes' := by
  rw [polyOf, bitsOf, List.flatMap_append, ← bitsOf, ← bitsOf, ofBits_append, bitsOf_length]
  rfl

theorem polyOf_singleton (byte : Byte) : polyOf [byte] = ofWord byte := by
  rw [polyOf, bitsOf, List.flatMap_singleton, ofBits_wordBits]

/-- Damage adds up. -/
theorem polyOf_zipWith_xor {bytes bytes' : List Byte} (same : bytes.length = bytes'.length) :
    polyOf (bytes.zipWith (· ^^^ ·) bytes') = polyOf bytes + polyOf bytes' := by
  induction bytes generalizing bytes' with
  | nil =>
    cases bytes' with
    | nil => simp
    | cons byte' bytes' => cases same
  | cons byte bytes ih =>
    cases bytes' with
    | nil => cases same
    | cons byte' bytes' =>
      have rest : bytes.length = bytes'.length := Nat.succ.inj same
      have length : (bytes.zipWith (· ^^^ ·) bytes').length = bytes'.length := by
        rw [List.length_zipWith, rest, Nat.min_self]
      rw [List.zipWith_cons_cons, ← List.singleton_append, polyOf_append, ih rest, length,
        polyOf_singleton, ofWord_xor, ← List.singleton_append (x := byte), polyOf_append,
        polyOf_singleton, ← List.singleton_append (x := byte'), polyOf_append, polyOf_singleton,
        rest]
      ring

/-- The byte `0x07` of the shift register stands for the polynomial. -/
theorem crcPoly_eq : crcPoly = modulus (0x07 : Byte) := by
  have low : ofWord (0x07 : Byte) = X ^ 2 + X + 1 := by
    simp [ofWord, Finset.sum_range_succ]
    ring
  rw [modulus, low, crcPoly]
  ring

/-! ## The register -/

theorem crc8Shift_eq (crc : Byte) : crc8Shift crc = shiftFold 0x07 crc := by
  have top : crc &&& 0x80 ≠ 0 ↔ crc.msb = true := by
    revert crc
    decide +kernel
  unfold crc8Shift shiftFold
  by_cases set : crc.msb = true
  · rw [if_pos set, if_pos (top.mpr set)]
  · rw [if_neg set, if_neg (top.not.mpr set)]

/-- A byte is absorbed: the message so far moves up by eight bits, the byte comes behind. -/
theorem residue_crc8Step (crc byte : Byte) :
    residue crcPoly (crc8Step crc byte) =
      AdjoinRoot.root crcPoly ^ 8 * (residue crcPoly crc + residue crcPoly byte) := by
  have shift : crc8Shift = shiftFold 0x07 := funext crc8Shift_eq
  rw [crc8Step, shift, residue_shiftFold_iterate crcPoly_eq, residue_xor]

theorem residue_crc8Compute (data : List Byte) :
    residue crcPoly (crc8Compute data) = AdjoinRoot.mk crcPoly (polyOf data * X ^ 8) := by
  induction data using List.reverseRecOn with
  | nil =>
    rw [polyOf_nil, zero_mul, map_zero]
    exact residue_zero crcPoly
  | append_singleton data byte ih =>
    rw [crc8Compute, List.foldl_append, ← crc8Compute, List.foldl_cons, List.foldl_nil,
      residue_crc8Step, ih, polyOf_append, polyOf_singleton, List.length_singleton, residue,
      ← AdjoinRoot.mk_X, ← map_pow, ← map_add, ← map_mul]
    refine congrArg _ ?_
    ring

/-- The CRC of the bootloader. -/
theorem ofWord_crc8Compute (data : List Byte) :
    ofWord (crc8Compute data) = (polyOf data * X ^ 8) %ₘ crcPoly :=
  (residue_eq_mk_iff crcPoly_eq).mp (residue_crc8Compute data)

/-! ## The check -/

/-- A packet passes the check when the polynomial divides its 18 bytes. -/
theorem crc_ok_iff (packet : CommsPacket) :
    commsCalculateCrc packet = packet.crc ↔ crcPoly ∣ polyOf packet.bytes := by
  have split : AdjoinRoot.mk crcPoly (polyOf packet.bytes) =
      residue crcPoly (commsCalculateCrc packet ^^^ packet.crc) := by
    rw [CommsPacket.bytes, polyOf_append, polyOf_singleton, List.length_singleton, map_add,
      residue_xor, commsCalculateCrc, residue_crc8Compute]
    rfl
  rw [← AdjoinRoot.mk_eq_zero, split, ← residue_zero, (residue_injective crcPoly_eq).eq_iff]
  constructor
  · intro same
    rw [same]
    exact BitVec.xor_self
  · intro zero
    exact BitVec.xor_eq_zero_iff.mp zero

/-- The packet with the bits of `error` flipped. -/
def CommsPacket.damagedBy (packet error : CommsPacket) : CommsPacket where
  length := packet.length ^^^ error.length
  data := packet.data.zipWith (· ^^^ ·) error.data
  crc := packet.crc ^^^ error.crc

theorem damagedBy_bytes (packet error : CommsPacket) :
    (packet.damagedBy error).bytes = packet.bytes.zipWith (· ^^^ ·) error.bytes := by
  have data : (packet.data.zipWith (· ^^^ ·) error.data).toList =
      packet.data.toList.zipWith (· ^^^ ·) error.data.toList := Vector.toList_zipWith
  show (packet.length ^^^ error.length) :: (packet.data.zipWith _ error.data).toList ++
    [packet.crc ^^^ error.crc] = _
  rw [data]
  unfold CommsPacket.bytes
  rw [List.zipWith_append (by simp)]
  rfl

/-- Which damage goes unnoticed. -/
theorem damaged_ok_iff {packet : CommsPacket} (valid : commsCalculateCrc packet = packet.crc)
    (error : CommsPacket) :
    commsCalculateCrc (packet.damagedBy error) = (packet.damagedBy error).crc ↔
      crcPoly ∣ polyOf error.bytes := by
  rw [crc_ok_iff, damagedBy_bytes, polyOf_zipWith_xor (by simp)]
  exact dvd_add_right ((crc_ok_iff packet).mp valid)

/-! ## Bursts and odd damage -/

/-- All flipped bits are within eight in a row, and there is one. -/
def Burst (error : CommsPacket) : Prop :=
  ∃ front burst back, bitsOf error.bytes = front ++ burst ++ back ∧ burst.length ≤ 8 ∧
    true ∈ burst ∧ true ∉ front ∧ true ∉ back

/-- The number of flipped bits is odd. -/
def OddDamage (error : CommsPacket) : Prop := Odd ((bitsOf error.bytes).count true)

theorem not_dvd_of_burst {error : CommsPacket} (h : Burst error) :
    ¬crcPoly ∣ polyOf error.bytes := by
  obtain ⟨front, burst, back, bits, short, set, front0, back0⟩ := h
  have poly : polyOf error.bytes = ofBits burst * X ^ back.length := by
    rw [polyOf, bits, ofBits_append, ofBits_append, ofBits_eq_zero.mpr front0,
      ofBits_eq_zero.mpr back0, zero_mul, zero_add, add_zero]
  -- the polynomial has a constant term, so it has no factor in common with `X`
  have coprime : IsCoprime crcPoly (X ^ back.length) := by
    refine IsCoprime.pow_right ⟨1, -(X ^ 7 + X + 1), ?_⟩
    rw [crcPoly]
    ring
  rw [poly]
  intro divides
  have small : (ofBits burst).degree < crcPoly.degree := by
    rw [crcPoly_eq, degree_modulus]
    exact (degree_ofBits_lt burst).trans_le (Nat.cast_le.mpr short)
  have monic : crcPoly.Monic := crcPoly_eq ▸ modulus_monic _
  exact monic.not_dvd_of_degree_lt (fun zero => ofBits_eq_zero.mp zero set) small
    (coprime.dvd_of_dvd_mul_right divides)

theorem not_dvd_of_odd {error : CommsPacket} (h : OddDamage error) :
    ¬crcPoly ∣ polyOf error.bytes := by
  rintro ⟨quotient, product⟩
  -- both factors of the product are looked at in `1`, where the polynomial vanishes
  have root : crcPoly.eval 1 = 0 := by
    simp [crcPoly]
    decide
  have parity := eval_one_ofBits (bitsOf error.bytes)
  rw [← polyOf, product, eval_mul, root, zero_mul] at parity
  exact absurd ((ZMod.natCast_eq_zero_iff_even).mp parity.symm) (Nat.not_even_iff_odd.mpr h)

/-! ## The two receivers -/

/-- A frame that both receivers, between two frames, only answer with a RETX. -/
structure Refused (packet : CommsPacket) : Prop where
  boot : ∀ c : Comms, c.currentState = .length → c.dataByteCount = 0 →
    (commsUpdateBytes c packet.bytes).2 = [.sent retxPacket] ∧
      (commsUpdateBytes c packet.bytes).1.queue = c.queue
  host : ∀ h : Updater.HostLink, h.rxBuffer = [] →
    Updater.onData h packet.bytes = ({ h with lastPacket := Updater.retx }, [.sent Updater.retx])

theorem refused_of_corrupt {packet : CommsPacket} (corrupt : frameKind packet = .corrupt) :
    Refused packet := by
  refine ⟨?_, ?_⟩
  · intro c state count
    have boundary := Partial.between state count
    refine ⟨?_, boundary.frame_control (by rw [corrupt]; decide)⟩
    obtain ⟨-, c', -, -, same, out⟩ := boundary.frame packet
    rw [out, commsHandlePacket_eq, same, corrupt]
    rfl
  · intro h empty
    rw [Updater.onData_frame empty, Updater.handlePacket_eq, corrupt, Updater.retx_eq]
    rfl

theorem frameKind_corrupt {packet : CommsPacket}
    (wrong : ¬commsCalculateCrc packet = packet.crc) : frameKind packet = .corrupt := if_neg wrong

/-- Both CRCs are the remainder of the message times `x^8`. The check of either receiver
accepts a damaged frame if and only if the polynomial divides the damage. So both refuse
every burst within eight bits and every odd number of flipped bits. -/
theorem crc_is_remainder :
    (∀ data : List Byte, ofWord (crc8Compute data) = (polyOf data * X ^ 8) %ₘ crcPoly ∧
      Updater.crc8 data < 256 ∧
      ofWord (BitVec.ofNat 8 (Updater.crc8 data)) = (polyOf data * X ^ 8) %ₘ crcPoly) ∧
    ∀ packet error : CommsPacket, commsCalculateCrc packet = packet.crc →
      (commsCalculateCrc (packet.damagedBy error) = (packet.damagedBy error).crc ↔
        crcPoly ∣ polyOf error.bytes) ∧
      ((packet.damagedBy error).crc.toNat = Updater.computeCrc (packet.damagedBy error) ↔
        crcPoly ∣ polyOf error.bytes) ∧
      (Burst error ∨ OddDamage error → Refused (packet.damagedBy error)) := by
  refine ⟨?_, ?_⟩
  · intro data
    refine ⟨ofWord_crc8Compute data, ?_, ?_⟩
    · rw [Updater.crc8_eq]
      exact (crc8Compute data).isLt
    · rw [Updater.crc8_eq, BitVec.ofNat_toNat, BitVec.setWidth_eq, ofWord_crc8Compute]
  · intro packet error valid
    refine ⟨damaged_ok_iff valid error, ?_, ?_⟩
    · rw [Updater.computeCrc_eq, BitVec.toNat_inj, eq_comm]
      exact damaged_ok_iff valid error
    · intro damage
      refine refused_of_corrupt (frameKind_corrupt ?_)
      rw [damaged_ok_iff valid error]
      rcases damage with burst | odd
      · exact not_dvd_of_burst burst
      · exact not_dvd_of_odd odd

/-- One flipped bit in an ACK. -/
theorem crc_is_remainder_ackPacket :
    Refused (ackPacket.damagedBy { CommsPacket.zero with length := 1 }) := by
  have valid : commsCalculateCrc ackPacket = ackPacket.crc := by decide +kernel
  have odd : OddDamage { CommsPacket.zero with length := 1 } := by
    unfold OddDamage
    decide +kernel
  exact (crc_is_remainder.2 ackPacket _ valid).2.2 (.inr odd)

end SecureBootloader
