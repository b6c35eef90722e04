import SecureBootloader.Boot.Session
import Mathlib.Tactic.IntervalCases

/-!
# The handshake

What the checks of the states before RECEIVE_FW say about the packets, and what
a trace looks like once the sync sequence and the three answers of the host have
been seen.
-/

namespace SecureBootloader

/-! ## The packets of the handshake -/

/-- Padding from index `k` on makes a packet canonical. -/
theorem canonical_of_padding {packet : CommsPacket} {k : Nat} (hk : k ≤ 16)
    (hlength : packet.length.toNat = k)
    (padding : (packet.data.toList.drop k).all (· == 0xff) = true) :
    Canonical packet (packet.data.toList.take k) := by
  have size : (packet.data.toList.take k).length = k := by simp [hk]
  refine ⟨by rw [size, hlength], ?_⟩
  have fill : packet.data.toList.drop k = List.replicate (16 - k) 0xff := by
    refine List.eq_replicate_iff.mpr ⟨by simp, fun b hb => ?_⟩
    exact beq_iff_eq.mp (List.all_eq_true.mp padding b hb)
  rw [size, ← fill, List.take_append_drop]

/-- A packet that passes a length check, a check of its first byte and one of its padding. -/
theorem canonical_of_checks {packet : CommsPacket} {length first : Byte} {k : Nat} (hk : k ≤ 16)
    (size : length.toNat = k)
    (h : (if packet.length ≠ length then false
      else if packet.dataAt 0 ≠ first then false
      else (packet.data.toList.drop k).all (· == 0xff)) = true) :
    packet.dataAt 0 = first ∧ Canonical packet (packet.data.toList.take k) := by
  split at h
  · cases h
  · next hlength =>
    split at h
    · cases h
    · next hfirst =>
      have length_eq : packet.length.toNat = k := by rw [not_not.mp hlength, size]
      exact ⟨not_not.mp hfirst, canonical_of_padding hk length_eq h⟩

theorem commsIsSingleBytePacket_canonical {packet : CommsPacket} {byte : Byte}
    (h : commsIsSingleBytePacket packet byte = true) : Canonical packet [byte] := by
  obtain ⟨first, shape⟩ := canonical_of_checks (k := 1) (by decide) rfl h
  have payload : packet.data.toList.take 1 = [byte] := by
    refine List.ext_getElem (by simp) fun i hi hi' => ?_
    obtain rfl : i = 0 := by simpa using hi'
    rw [List.getElem_take, CommsPacket.getElem_data]
    exact first
  rwa [payload] at shape

/-- `is_device_id_packet` with the right id. -/
theorem isDeviceIdPacket_canonical {packet : CommsPacket} (h : isDeviceIdPacket packet = true)
    (device : (packet.dataAt 1).toNat = deviceId) :
    Canonical packet [blPacketDeviceIdResData0, 0x42] := by
  obtain ⟨first, shape⟩ := canonical_of_checks (k := 2) (by decide) rfl h
  have second : packet.dataAt 1 = 0x42 := BitVec.eq_of_toNat_eq device
  have payload : packet.data.toList.take 2 = [blPacketDeviceIdResData0, 0x42] := by
    refine List.ext_getElem (by simp) fun i hi hi' => ?_
    have hi2 : i < 2 := by simpa using hi'
    rw [List.getElem_take, CommsPacket.getElem_data]
    interval_cases i
    · exact first
    · exact second
  rwa [payload] at shape

theorem isFwLengthPacket_canonical {packet : CommsPacket} (h : isFwLengthPacket packet = true) :
    Canonical packet [blPacketFwLengthResData0, packet.dataAt 1, packet.dataAt 2,
      packet.dataAt 3, packet.dataAt 4] := by
  obtain ⟨first, shape⟩ := canonical_of_checks (k := 5) (by decide) rfl h
  have payload : packet.data.toList.take 5 = [blPacketFwLengthResData0, packet.dataAt 1,
      packet.dataAt 2, packet.dataAt 3, packet.dataAt 4] := by
    refine List.ext_getElem (by simp) fun i hi hi' => ?_
    have hi5 : i < 5 := by simpa using hi'
    rw [List.getElem_take, CommsPacket.getElem_data]
    interval_cases i
    · exact first
    all_goals rfl
  rwa [payload] at shape

/-- The shifts and ORs of FW_LENGTH_RES read a little-endian word. -/
theorem announcedLength_eq (packet : CommsPacket) :
    announcedLength packet =
      le32 (packet.dataAt 1) (packet.dataAt 2) (packet.dataAt 3) (packet.dataAt 4) := by
  have h1 := (packet.dataAt 1).isLt
  have h2 := (packet.dataAt 2).isLt
  have h3 := (packet.dataAt 3).isLt
  unfold announcedLength le32
  generalize (packet.dataAt 1).toNat = b1 at *
  generalize (packet.dataAt 2).toNat = b2 at *
  generalize (packet.dataAt 3).toNat = b3 at *
  generalize (packet.dataAt 4).toNat = b4 at *
  have join1 : b1 ||| b2 <<< 8 = b2 <<< 8 + b1 := by
    rw [Nat.or_comm, Nat.shiftLeft_add_eq_or_of_lt h1]
  have low2 : b2 <<< 8 + b1 < 2 ^ 16 := by rw [Nat.shiftLeft_eq]; omega
  have join2 : (b2 <<< 8 + b1) ||| b3 <<< 16 = b3 <<< 16 + (b2 <<< 8 + b1) := by
    rw [Nat.or_comm, Nat.shiftLeft_add_eq_or_of_lt low2]
  have low3 : b3 <<< 16 + (b2 <<< 8 + b1) < 2 ^ 24 := by simp only [Nat.shiftLeft_eq]; omega
  have join3 : (b3 <<< 16 + (b2 <<< 8 + b1)) ||| b4 <<< 24 =
      b4 <<< 24 + (b3 <<< 16 + (b2 <<< 8 + b1)) := by
    rw [Nat.or_comm, Nat.shiftLeft_add_eq_or_of_lt low3]
  rw [join1, join2, join3]
  simp only [Nat.shiftLeft_eq]
  omega

/-- The host's answer to nothing: a firmware update request. -/
def IsFwUpdateReq (packet : CommsPacket) : Prop := Canonical packet [blPacketFwUpdateReqData0]

/-- A device id response with the id of this bootloader. -/
def IsDeviceIdRes (packet : CommsPacket) : Prop :=
  Canonical packet [blPacketDeviceIdResData0, 0x42]

/-- A firmware length response that announces `length`. -/
def IsFwLengthRes (packet : CommsPacket) (length : Nat) : Prop :=
  ∃ b1 b2 b3 b4, Canonical packet [blPacketFwLengthResData0, b1, b2, b3, b4] ∧
    length = le32 b1 b2 b3 b4

theorem isFwLengthRes_of_check {packet : CommsPacket} (h : isFwLengthPacket packet = true) :
    IsFwLengthRes packet (announcedLength packet) :=
  ⟨_, _, _, _, isFwLengthPacket_canonical h, announcedLength_eq packet⟩

/-! ## The sync sequence -/

/-- The bytes of the sync sequence. -/
def syncBytes : List Byte := [0xc4, 0x55, 0x7e, 0x10]

/-- `sync_seq` after reading `bytes` from a cleared window. -/
def windowOf (bytes : List Byte) : SyncSeq :=
  bytes.foldl (fun seq byte => ⟨seq.s1, seq.s2, seq.s3, byte⟩) ⟨0, 0, 0, 0⟩

theorem windowOf_concat (bytes : List Byte) (byte : Byte) :
    windowOf (bytes ++ [byte]) =
      ⟨(windowOf bytes).s1, (windowOf bytes).s2, (windowOf bytes).s3, byte⟩ := by
  rw [windowOf, List.foldl_append]
  rfl

/-- The window shows the sequence only after its four bytes came in a row. -/
theorem windowOf_eq_syncSequence {bytes : List Byte} (h : windowOf bytes = syncSequence) :
    ∃ front, bytes = front ++ syncBytes := by
  rcases List.eq_nil_or_concat bytes with rfl | ⟨l3, b3, rfl⟩
  · exact absurd h (by decide)
  rcases List.eq_nil_or_concat l3 with rfl | ⟨l2, b2, rfl⟩
  · simp [windowOf, syncSequence] at h
  rcases List.eq_nil_or_concat l2 with rfl | ⟨l1, b1, rfl⟩
  · simp [windowOf, syncSequence] at h
  rcases List.eq_nil_or_concat l1 with rfl | ⟨l0, b0, rfl⟩
  · simp [windowOf, syncSequence] at h
  simp only [List.concat_eq_append, windowOf_concat, syncSequence, SyncSeq.mk.injEq] at h
  obtain ⟨rfl, rfl, rfl, rfl⟩ := h
  exact ⟨l0, by simp [syncBytes]⟩

/-- The run began with bytes read in the SYNC state, the last four of them the
sync sequence. -/
def Synced (t : Trace) : Prop :=
  ∃ front rest, t = (front ++ syncBytes).map Obs.syncByte ++ rest

theorem Synced.append {t : Trace} (h : Synced t) (more : Trace) : Synced (t ++ more) := by
  obtain ⟨front, rest, rfl⟩ := h
  exact ⟨front, rest ++ more, by rw [List.append_assoc]⟩

theorem taken_map_syncByte (bytes : List Byte) :
    Trace.taken (bytes.map Obs.syncByte) = [] := by
  induction bytes with
  | nil => rfl
  | cons b bytes ih => exact ih

/-! ## Firmware allowed -/

/-- The sync sequence was read in the SYNC state, and the packets taken since
then start with the three answers of a host that may update: the request, the
device id, and a length that fits. -/
def Authorized (length : Nat) (t : Trace) : Prop :=
  ∃ front rest request device announced more,
    t = (front ++ syncBytes).map Obs.syncByte ++ rest ∧
    Trace.taken rest = request :: device :: announced :: more ∧
    IsFwUpdateReq request ∧ IsDeviceIdRes device ∧ IsFwLengthRes announced length ∧
    length ≤ maxFwLength

theorem Authorized.append {length : Nat} {t : Trace} (h : Authorized length t) (more : Trace) :
    Authorized length (t ++ more) := by
  obtain ⟨front, rest, request, device, announced, packets, rfl, htaken, checks⟩ := h
  refine ⟨front, rest ++ more, request, device, announced, packets ++ more.taken, ?_, ?_, checks⟩
  · rw [List.append_assoc]
  · rw [Trace.taken_append, htaken]; rfl

theorem Authorized.length_le {length : Nat} {t : Trace} (h : Authorized length t) :
    length ≤ maxFwLength := by
  obtain ⟨front, rest, request, device, announced, more, -, -, -, -, -, fits⟩ := h
  exact fits

/-- That takes three packets. -/
theorem Authorized.three_taken {length : Nat} {t : Trace} (h : Authorized length t) :
    3 ≤ t.taken.length := by
  obtain ⟨front, rest, request, device, announced, more, rfl, taken, -⟩ := h
  rw [Trace.taken_append, List.length_append, taken, List.length_cons, List.length_cons,
    List.length_cons]
  omega

end SecureBootloader
