import SecureBootloader.Shared.RingQueue
import SecureBootloader.Shared.UartRead
import SecureBootloader.Lib.Run

/-!
# The byte queue is a bounded FIFO

For every size that is a power of two: whatever the receive interrupt writes between the
loads and stores of the main program, the bytes come out as they went in, a byte is refused
only when the queue is full, and every call of the main program returns. Only the interrupt
moves the write index and only the main program moves the read index, so what the main
program has loaded stays true.
-/

namespace SecureBootloader

open Lib

/-! ## The main program -/

/-- The first `count` places of the caller's array hold the next bytes of the stream,
the others what they held before. -/
structure Filled (written : List Byte) (first count : Nat) (before after : Nat → Byte) : Prop where
  bytes : ∀ i, i < count → written[first + i]? = some (after i)
  rest : ∀ i, count ≤ i → after i = before i

/-- A read is under way. `byte_read` bytes of it are returned, and `stored` of them, or one
more, are in the caller's array. -/
structure Reading (s : RxSystem) (caller : Caller) (stored : Nat) : Prop where
  more : caller.slot < caller.length
  place : s.first + caller.slot = s.returned.length
  filled : Filled s.written s.first stored s.before s.data

theorem Reading.atPc {s : RxSystem} {caller : Caller} {stored : Nat} (h : Reading s caller stored)
    (pc : RxPc) : Reading (s.atPc pc) caller stored := ⟨h.more, h.place, h.filled⟩

/-- What the main program has in its locals is what the queue holds. -/
def PcOk (s : RxSystem) : Prop :=
  match s.pc with
  | .idle | .isEmptyReadIndex => True
  | .isEmptyWriteIndex readIndex => readIndex = s.rb.readIndex
  | .loadReadIndex caller => Reading s caller caller.slot
  | .loadWriteIndex caller localReadIndex =>
    Reading s caller caller.slot ∧ localReadIndex = s.rb.readIndex
  | .loadByte caller localReadIndex =>
    Reading s caller caller.slot ∧ localReadIndex = s.rb.readIndex ∧ s.rb.held ≠ []
  | .storeByte caller localReadIndex byte =>
    Reading s caller caller.slot ∧ localReadIndex = s.rb.readIndex ∧ s.rb.held.head? = some byte
  | .storeReadIndex caller localReadIndex =>
    Reading s caller (caller.slot + 1) ∧ localReadIndex = s.rb.readIndex ∧
      s.rb.held.head? = some (s.data caller.slot)

/-- A call that is over returned what it should. -/
def ReturnOk (written returned : List Byte) : RxReturn → Prop
  | .isEmpty _ => True
  | .read length count first before after =>
    count ≤ length ∧ first + count ≤ returned.length ∧ Filled written first count before after

/-- The bytes a call returned. -/
def RxReturn.bytes : RxReturn → List Byte
  | .isEmpty _ => []
  | .read _ count _ _ after => (List.range count).map after

/-- The bytes that the call under way has taken out of the queue so far. -/
def RxSystem.taken (s : RxSystem) : List Byte :=
  match s.pc with
  | .loadReadIndex caller | .loadWriteIndex caller _ | .loadByte caller _ | .storeByte caller _ _
  | .storeReadIndex caller _ => (List.range caller.slot).map s.data
  | .idle | .isEmptyReadIndex | .isEmptyWriteIndex _ => []

/-- The bytes written and returned, wherever the main program stands. -/
structure StreamInv (k : Nat) (s : RxSystem) : Prop where
  size : RingSize k s.rb
  fifo : s.written = s.returned ++ s.rb.held
  returns : ∀ r ∈ s.returns, ReturnOk s.written s.returned r

/-- The invariant. -/
structure RxInv (k : Nat) (s : RxSystem) : Prop extends StreamInv k s where
  pc : PcOk s
  calls : s.returned = s.returns.flatMap RxReturn.bytes ++ s.taken

/-! ### What stays when bytes are written -/

theorem Filled.append {written : List Byte} {first count : Nat} {before after : Nat → Byte}
    (h : Filled written first count before after) (bytes : List Byte) :
    Filled (written ++ bytes) first count before after := by
  refine ⟨?_, h.rest⟩
  intro i hi
  have inside := List.getElem?_eq_some_iff.mp (h.bytes i hi)
  rw [List.getElem?_append_left inside.1]
  exact h.bytes i hi

theorem ReturnOk.append {written returned : List Byte} {r : RxReturn}
    (h : ReturnOk written returned r) (bytes bytes' : List Byte) :
    ReturnOk (written ++ bytes) (returned ++ bytes') r := by
  cases r with
  | isEmpty => trivial
  | read length count first before after =>
    obtain ⟨most, place, filled⟩ := h
    refine ⟨most, ?_, filled.append bytes⟩
    rw [List.length_append]
    exact Nat.le_add_right_of_le place

theorem rxStep_isr (s : RxSystem) (byte : Byte) : rxStep s (.isr byte) =
    { s with
      rb := (ringBufferWrite s.rb byte).2
      written := if (ringBufferWrite s.rb byte).1 then s.written ++ [byte] else s.written } := rfl

section Steps

variable {k : Nat} (hk : k ≤ 31) {s : RxSystem}
include hk

theorem RxInv.isr (h : RxInv k s) (byte : Byte) : RxInv k (rxStep s (.isr byte)) := by
  cases success : (ringBufferWrite s.rb byte).1 with
  | false =>
    have same : rxStep s (.isr byte) = s := by
      rw [rxStep_isr, success, (ringBufferWrite_false hk h.size success).1]
      rfl
    rw [same]
    exact h
  | true =>
    obtain ⟨size, held, read, -⟩ := ringBufferWrite_true hk h.size success
    have out : rxStep s (.isr byte) = { s with
        rb := (ringBufferWrite s.rb byte).2, written := s.written ++ [byte] } := by
      rw [rxStep_isr, success]
      rfl
    have reading {caller : Caller} {stored : Nat} (r : Reading s caller stored) :
        Reading (rxStep s (.isr byte)) caller stored := by
      rw [out]
      exact ⟨r.more, r.place, r.filled.append [byte]⟩
    have head {b : Byte} (first : s.rb.held.head? = some b) :
        (rxStep s (.isr byte)).rb.held.head? = some b := by
      rw [out, held, List.head?_append, first]
      rfl
    have index {i : Nat} (same : i = s.rb.readIndex) :
        i = (rxStep s (.isr byte)).rb.readIndex := by
      rw [out]
      exact same.trans read.symm
    refine ⟨⟨?_, ?_, ?_⟩, ?_, ?_⟩
    · rw [out]
      exact size
    · rw [out, held, h.fifo, List.append_assoc]
    · rw [out]
      intro r hr
      have ok := (h.returns r hr).append [byte] []
      rwa [List.append_nil] at ok
    · have pc := h.pc
      have same : (rxStep s (.isr byte)).pc = s.pc := by rw [out]
      unfold PcOk at pc ⊢
      rw [same]
      cases here : s.pc with
      | idle => trivial
      | isEmptyReadIndex => trivial
      | isEmptyWriteIndex readIndex =>
        rw [here] at pc
        exact index pc
      | loadReadIndex caller =>
        rw [here] at pc
        exact reading pc
      | loadWriteIndex caller localReadIndex =>
        rw [here] at pc
        exact ⟨reading pc.1, index pc.2⟩
      | loadByte caller localReadIndex =>
        rw [here] at pc
        refine ⟨reading pc.1, index pc.2.1, ?_⟩
        rw [out, held]
        exact List.append_ne_nil_of_right_ne_nil _ (List.cons_ne_nil _ _)
      | storeByte caller localReadIndex b =>
        rw [here] at pc
        exact ⟨reading pc.1, index pc.2.1, head pc.2.2⟩
      | storeReadIndex caller localReadIndex =>
        rw [here] at pc
        refine ⟨reading pc.1, index pc.2.1, ?_⟩
        have data : (rxStep s (.isr byte)).data = s.data := by rw [out]
        rw [data]
        exact head pc.2.2
    · rw [out]
      exact h.calls

/-! ### What the main program does -/

omit hk in
/-- A read that is over. -/
theorem StreamInv.returnsRead (h : StreamInv k s) {length count : Nat} (most : count ≤ length)
    (place : s.first + count ≤ s.returned.length)
    (filled : Filled s.written s.first count s.before s.data)
    (calls : s.returned = s.returns.flatMap RxReturn.bytes ++ (List.range count).map s.data) :
    RxInv k (s.returnsRead length count) := by
  refine ⟨⟨h.size, h.fifo, ?_⟩, trivial, ?_⟩
  · intro r hr
    rcases List.mem_append.mp hr with old | new
    · exact h.returns r old
    · rw [List.mem_singleton.mp new]
      exact ⟨most, place, filled⟩
  · show s.returned = (s.returns ++ [_]).flatMap RxReturn.bytes ++ []
    rw [List.flatMap_append, List.flatMap_singleton, List.append_nil, calls]
    rfl

omit hk in
theorem RxInv.atPc (h : RxInv k s) {pc : RxPc} (ok : PcOk (s.atPc pc))
    (taken : (s.atPc pc).taken = s.taken) : RxInv k (s.atPc pc) :=
  ⟨⟨h.size, h.fifo, h.returns⟩, ok,
    h.calls.trans (congrArg (s.returns.flatMap RxReturn.bytes ++ ·) taken.symm)⟩

omit hk in
/-- A read starts with nothing stored. -/
theorem startsRead_reading (s : RxSystem) (data : Nat → Byte) {caller : Caller}
    (first : caller.slot = 0) (more : 0 < caller.length) :
    Reading (s.startsRead data) caller caller.slot := by
  rw [first]
  refine ⟨by rw [first]; exact more, by rw [first]; rfl, ?_, fun _ _ => rfl⟩
  intro i hi
  exact absurd hi (Nat.not_lt_zero i)

omit hk in
/-- Between two calls every byte that was returned was returned by a call that is over. -/
theorem RxInv.idle (h : RxInv k s) (idle : s.pc = .idle) :
    s.returned = s.returns.flatMap RxReturn.bytes ++ [] := by
  have calls := h.calls
  rwa [RxSystem.taken, idle] at calls

omit hk in
theorem RxInv.callRead (h : RxInv k s) (data : Nat → Byte) :
    RxInv k (rxStep s (.callRead data)) := by
  have reading : Reading (s.startsRead data) .main 0 := startsRead_reading s data rfl (by decide)
  rw [rxStep]
  split
  · next idle => exact ⟨⟨h.size, h.fifo, h.returns⟩, reading.atPc _, h.idle idle⟩
  · exact h

omit hk in
theorem RxInv.callUartRead (h : RxInv k s) (data : Nat → Byte) (length : Nat) :
    RxInv k (rxStep s (.callUartRead data length)) := by
  have start : StreamInv k (s.startsRead data) := ⟨h.size, h.fifo, h.returns⟩
  rw [rxStep]
  split
  · next idle =>
    split
    · exact start.returnsRead (Nat.le_refl 0) (Nat.le_refl _)
        ⟨fun i hi => absurd hi (Nat.not_lt_zero i), fun _ _ => rfl⟩ (h.idle idle)
    · next some =>
      have reading : Reading (s.startsRead data) (.uartRead length 0) 0 :=
        startsRead_reading s data rfl (Nat.pos_of_ne_zero some)
      exact ⟨⟨h.size, h.fifo, h.returns⟩, reading.atPc _, h.idle idle⟩
  · exact h

omit hk in
/-- The byte at the front of the queue is stored in the caller's array. -/
theorem RxInv.storesByte (h : RxInv k s) {caller : Caller} {byte : Byte}
    (reading : Reading s caller caller.slot) (head : s.rb.held.head? = some byte) :
    Filled s.written s.first (caller.slot + 1) s.before
      (Function.update s.data caller.slot byte) := by
  have stream : s.written[s.first + caller.slot]? = some byte := by
    rw [h.fifo, reading.place, List.getElem?_append_right (Nat.le_refl _), Nat.sub_self,
      ← List.head?_eq_getElem?, head]
  refine ⟨?_, ?_⟩
  · intro i hi
    by_cases last : i = caller.slot
    · rw [last, Function.update_self, stream]
    · rw [Function.update_of_ne last]
      exact reading.filled.bytes i (by omega)
  · intro i hi
    rw [Function.update_of_ne (by omega)]
    exact reading.filled.rest i (by omega)

/-- The state when the read index is stored: the byte leaves the queue and is returned. -/
def RxSystem.returnsByte (s : RxSystem) (byte : Byte) : RxSystem :=
  { s with
    rb := { s.rb with readIndex := ((s.rb.readIndex + 1) % 2 ^ 32) &&& s.rb.mask }
    returned := s.returned ++ [byte] }

theorem StreamInv.returnsByte (h : StreamInv k s) {byte : Byte}
    (head : s.rb.held.head? = some byte) : StreamInv k (s.returnsByte byte) := by
  have nonempty : s.rb.readIndex ≠ s.rb.writeIndex := by
    intro same
    rw [(held_eq_nil h.size).mpr same] at head
    cases head
  obtain ⟨size, held⟩ := readIndex_moves hk h.size nonempty
  rw [held, List.head?_cons] at head
  have stored : s.rb.buffer.getD s.rb.readIndex 0 = byte := Option.some.inj head
  refine ⟨size, ?_, ?_⟩
  · show s.written = s.returned ++ [byte] ++ _
    rw [h.fifo, held, stored, List.append_assoc]
    rfl
  · intro r hr
    have ok := (h.returns r hr).append [] [byte]
    rwa [List.append_nil] at ok

theorem RxInv.main (h : RxInv k s) : RxInv k (rxStep s .main) := by
  have pc := h.pc
  have calls := h.calls
  unfold PcOk at pc
  rw [RxSystem.taken] at calls
  rw [rxStep, RxSystem.mainStep]
  cases here : s.pc with
  | idle => exact h
  | isEmptyReadIndex => exact h.atPc rfl (by rw [RxSystem.taken, RxSystem.taken, here]; rfl)
  | isEmptyWriteIndex readIndex =>
    rw [here] at calls
    refine ⟨⟨h.size, h.fifo, ?_⟩, trivial, ?_⟩
    · intro r hr
      rcases List.mem_append.mp hr with old | new
      · exact h.returns r old
      · rw [List.mem_singleton.mp new]
        trivial
    · show s.returned = (s.returns ++ [_]).flatMap RxReturn.bytes ++ []
      rw [List.flatMap_append, List.flatMap_singleton]
      exact calls.trans (congrArg (· ++ []) (List.append_nil _).symm)
  | loadReadIndex caller =>
    rw [here] at pc
    exact h.atPc ⟨Reading.atPc pc _, rfl⟩ (by rw [RxSystem.taken, RxSystem.taken, here]; rfl)
  | loadWriteIndex caller localReadIndex =>
    rw [here] at pc calls
    obtain ⟨reading, rfl⟩ := pc
    dsimp only
    split
    · exact h.returnsRead (Nat.le_of_lt reading.more) (Nat.le_of_eq reading.place)
        reading.filled calls
    · next nonempty =>
      refine h.atPc ⟨reading.atPc _, rfl, ?_⟩ (by rw [RxSystem.taken, RxSystem.taken, here]; rfl)
      exact fun empty => nonempty ((held_eq_nil h.size).mp empty)
  | loadByte caller localReadIndex =>
    rw [here] at pc
    obtain ⟨reading, rfl, some⟩ := pc
    refine h.atPc ⟨reading.atPc _, rfl, ?_⟩ (by rw [RxSystem.taken, RxSystem.taken, here]; rfl)
    have nonempty : s.rb.readIndex ≠ s.rb.writeIndex :=
      fun same => some ((held_eq_nil h.size).mpr same)
    show s.rb.held.head? = _
    rw [(readIndex_moves hk h.size nonempty).2]
    rfl
  | storeByte caller localReadIndex byte =>
    rw [here] at pc calls
    obtain ⟨reading, rfl, head⟩ := pc
    refine ⟨⟨h.size, h.fifo, h.returns⟩,
      ⟨⟨reading.more, reading.place, h.storesByte reading head⟩, rfl, ?_⟩, ?_⟩
    · show s.rb.held.head? = some (Function.update s.data caller.slot byte caller.slot)
      rw [Function.update_self, head]
    · -- the byte is stored behind those that are returned
      show s.returned = s.returns.flatMap RxReturn.bytes ++
        (List.range caller.slot).map (Function.update s.data caller.slot byte)
      have same : (List.range caller.slot).map (Function.update s.data caller.slot byte) =
          (List.range caller.slot).map s.data := by
        refine List.map_congr_left fun i inside => Function.update_of_ne ?_ _ _
        exact Nat.ne_of_lt (List.mem_range.mp inside)
      rw [same]
      exact calls
  | storeReadIndex caller localReadIndex =>
    rw [here] at pc calls
    obtain ⟨reading, rfl, head⟩ := pc
    have after := h.returnsByte hk head
    have place : s.first + (caller.slot + 1) = (s.returned ++ [s.data caller.slot]).length := by
      rw [List.length_append, ← reading.place, List.length_singleton, Nat.add_assoc]
    have calls' : s.returned ++ [s.data caller.slot] = s.returns.flatMap RxReturn.bytes ++
        (List.range (caller.slot + 1)).map s.data := by
      rw [List.range_succ, List.map_append, ← List.append_assoc, calls]
      rfl
    cases caller with
    | main => exact after.returnsRead (Nat.le_refl 1) (Nat.le_of_eq place) reading.filled calls'
    | uartRead length byteRead =>
      have more : byteRead < length := reading.more
      show RxInv k (if byteRead + 1 < length then _ else _)
      split
      · next again =>
        exact ⟨⟨after.size, after.fifo, after.returns⟩, ⟨again, place, reading.filled⟩, calls'⟩
      · next last =>
        obtain rfl : length = byteRead + 1 := by omega
        exact after.returnsRead (Nat.le_refl _) (Nat.le_of_eq place) reading.filled calls'

theorem RxInv.step (h : RxInv k s) (e : RxEvent) : RxInv k (rxStep s e) := by
  cases e with
  | isr byte => exact h.isr hk byte
  | callIsEmpty =>
    rw [rxStep]
    split
    · next idle => exact h.atPc trivial (by rw [RxSystem.taken, RxSystem.taken, idle]; rfl)
    · exact h
  | callRead data => exact h.callRead data
  | callUartRead data length => exact h.callUartRead data length
  | main => exact h.main hk

/-- What a call says about the queue at the moment of its last load of an index. -/
def SawQueue (held : List Byte) : RxReturn → Prop
  | .isEmpty empty => empty = true ↔ held = []
  | .read length count _ _ _ => count < length → held = []

omit hk in
/-- An event ends one call at most. -/
theorem step_returns (h : RxInv k s) (e : RxEvent) : (rxStep s e).returns = s.returns ∨
    ∃ r, (rxStep s e).returns = s.returns ++ [r] ∧ SawQueue s.rb.held r := by
  have pc := h.pc
  unfold PcOk at pc
  cases e with
  | isr byte => exact .inl rfl
  | callIsEmpty =>
    refine .inl ?_
    rw [rxStep]
    split <;> rfl
  | callRead data =>
    refine .inl ?_
    rw [rxStep]
    split <;> rfl
  | callUartRead data length =>
    rw [rxStep]
    split
    · split
      · exact .inr ⟨_, rfl, fun short => absurd short (Nat.lt_irrefl 0)⟩
      · exact .inl rfl
    · exact .inl rfl
  | main =>
    rw [rxStep, RxSystem.mainStep]
    cases here : s.pc with
    | isEmptyWriteIndex readIndex =>
      rw [here] at pc
      refine .inr ⟨_, rfl, ?_⟩
      show (readIndex == s.rb.writeIndex) = true ↔ _
      rw [held_eq_nil h.size, beq_iff_eq, show readIndex = s.rb.readIndex from pc]
    | loadWriteIndex caller localReadIndex =>
      rw [here] at pc
      dsimp only
      split
      · next empty =>
        refine .inr ⟨_, rfl, fun _ => ?_⟩
        exact (held_eq_nil h.size).mpr (pc.2.symm.trans empty)
      · exact .inl rfl
    | storeReadIndex caller localReadIndex =>
      cases caller with
      | main => exact .inr ⟨_, rfl, fun short => absurd short (Nat.lt_irrefl 1)⟩
      | uartRead length byteRead =>
        dsimp only [RxSystem.afterByte]
        split
        · exact .inl rfl
        · exact .inr ⟨_, rfl, fun short => absurd short (Nat.lt_irrefl length)⟩
    | idle | isEmptyReadIndex | loadReadIndex | loadByte | storeByte => exact .inl rfl

end Steps

/-! ## Every call returns -/

/-- The main program makes a step. -/
def RxEvent.isMain : RxEvent → Bool
  | .main => true
  | .isr _ | .callIsEmpty | .callRead _ | .callUartRead _ _ => false

/-- How many loads and stores a call makes at most. -/
def RxEvent.steps : RxEvent → Nat
  | .callIsEmpty => 2
  | .callRead _ => 5
  | .callUartRead _ length => 5 * length
  | .isr _ | .main => 0

/-- What a call may return that begins when `first` bytes have been returned. -/
def RxEvent.Answer (first : Nat) : RxEvent → RxReturn → Prop
  | .callIsEmpty, r => ∃ empty, r = .isEmpty empty
  | .callRead data, r => ∃ count after, r = .read 1 count first data after
  | .callUartRead data length, r => ∃ count after, r = .read length count first data after
  | .isr _, _ | .main, _ => False

/-- How many loads and stores are left of a call. -/
def RxPc.left : RxPc → Nat
  | .idle => 0
  | .isEmptyReadIndex => 2
  | .isEmptyWriteIndex _ => 1
  | .loadReadIndex caller => 5 * (caller.length - caller.slot)
  | .loadWriteIndex caller _ => 5 * (caller.length - caller.slot) - 1
  | .loadByte caller _ => 5 * (caller.length - caller.slot) - 2
  | .storeByte caller _ _ => 5 * (caller.length - caller.slot) - 3
  | .storeReadIndex caller _ => 5 * (caller.length - caller.slot) - 4

/-- What the call under way may return. -/
def RxSystem.Answer (s : RxSystem) (r : RxReturn) : Prop :=
  match s.pc with
  | .idle => False
  | .isEmptyReadIndex | .isEmptyWriteIndex _ => ∃ empty, r = .isEmpty empty
  | .loadReadIndex caller | .loadWriteIndex caller _ | .loadByte caller _ | .storeByte caller _ _
  | .storeReadIndex caller _ => ∃ count after, r = .read caller.length count s.first s.before after

/-- `t` is behind `s` in the same call. -/
structure SameCall (s t : RxSystem) : Prop where
  pending : t.pc ≠ .idle
  returns : t.returns = s.returns
  answer : ∀ r, t.Answer r ↔ s.Answer r

/-- The call under way in `s` is over in `t`. -/
def CallEnds (s t : RxSystem) : Prop := ∃ r, t.returns = s.returns ++ [r] ∧ s.Answer r

section Ends

variable {k : Nat} {s t : RxSystem}

theorem SameCall.trans (first : SameCall s t) {u : RxSystem} (h : SameCall t u) : SameCall s u :=
  ⟨h.pending, h.returns.trans first.returns, fun r => (h.answer r).trans (first.answer r)⟩

theorem SameCall.ends (first : SameCall s t) {u : RxSystem} (h : CallEnds t u) : CallEnds s u := by
  obtain ⟨r, returns, answer⟩ := h
  exact ⟨r, by rw [returns, first.returns], (first.answer r).mp answer⟩

/-- A call has something left to do until it returns. -/
theorem RxInv.left_pos (h : RxInv k s) (pending : s.pc ≠ .idle) : 0 < s.pc.left := by
  have pc := h.pc
  unfold PcOk at pc
  cases here : s.pc with
  | idle => exact absurd here pending
  | isEmptyReadIndex => exact Nat.two_pos
  | isEmptyWriteIndex => exact Nat.one_pos
  | loadReadIndex caller =>
    rw [here] at pc
    have more := pc.more
    show 0 < 5 * (caller.length - caller.slot)
    omega
  | loadWriteIndex caller | loadByte caller | storeByte caller | storeReadIndex caller =>
    rw [here] at pc
    have more := pc.1.more
    simp only [RxPc.left]
    omega

/-- What comes in between leaves a call where it is. -/
theorem rxStep_rests (s : RxSystem) (pending : s.pc ≠ .idle) (e : RxEvent)
    (other : e.isMain = false) : SameCall s (rxStep s e) ∧ (rxStep s e).pc = s.pc := by
  have same : SameCall s s := ⟨pending, rfl, fun _ => Iff.rfl⟩
  cases e with
  | isr byte =>
    rw [rxStep_isr]
    exact ⟨⟨pending, rfl, fun _ => Iff.rfl⟩, rfl⟩
  | callIsEmpty =>
    rw [rxStep, if_neg pending]
    exact ⟨same, rfl⟩
  | callRead data =>
    rw [rxStep, if_neg pending]
    exact ⟨same, rfl⟩
  | callUartRead data length =>
    rw [rxStep, if_neg pending]
    exact ⟨same, rfl⟩
  | main => exact Bool.noConfusion other

/-- A step of the main program brings the return nearer, or is the last one of its call. -/
theorem RxInv.main_works (h : RxInv k s) (pending : s.pc ≠ .idle) :
    CallEnds s (rxStep s .main) ∨
      SameCall s (rxStep s .main) ∧ (rxStep s .main).pc.left < s.pc.left := by
  have pc := h.pc
  unfold PcOk at pc
  rw [rxStep, RxSystem.mainStep]
  have goesOn {next : RxPc} (busy : next ≠ .idle)
      (answer : ∀ r, (s.atPc next).Answer r ↔ s.Answer r) : SameCall s (s.atPc next) :=
    ⟨busy, rfl, answer⟩
  cases here : s.pc with
  | idle => exact absurd here pending
  | isEmptyReadIndex =>
    refine .inr ⟨goesOn RxPc.noConfusion fun r => ?_, Nat.one_lt_two⟩
    rw [RxSystem.Answer, RxSystem.Answer, here]
    exact Iff.rfl
  | isEmptyWriteIndex readIndex =>
    refine .inl ⟨_, rfl, ?_⟩
    rw [RxSystem.Answer, here]
    exact ⟨_, rfl⟩
  | loadReadIndex caller =>
    rw [here] at pc
    have more := pc.more
    refine .inr ⟨goesOn RxPc.noConfusion fun r => ?_, ?_⟩
    · rw [RxSystem.Answer, RxSystem.Answer, here]
      exact Iff.rfl
    · simp only [RxPc.left, RxSystem.atPc]
      omega
  | loadWriteIndex caller localReadIndex =>
    rw [here] at pc
    have more := pc.1.more
    dsimp only
    split
    · refine .inl ⟨_, rfl, ?_⟩
      rw [RxSystem.Answer, here]
      exact ⟨_, _, rfl⟩
    · refine .inr ⟨goesOn RxPc.noConfusion fun r => ?_, ?_⟩
      · rw [RxSystem.Answer, RxSystem.Answer, here]
        exact Iff.rfl
      · simp only [RxPc.left, RxSystem.atPc]
        omega
  | loadByte caller localReadIndex =>
    rw [here] at pc
    have more := pc.1.more
    refine .inr ⟨goesOn RxPc.noConfusion fun r => ?_, ?_⟩
    · rw [RxSystem.Answer, RxSystem.Answer, here]
      exact Iff.rfl
    · simp only [RxPc.left, RxSystem.atPc]
      omega
  | storeByte caller localReadIndex byte =>
    rw [here] at pc
    have more := pc.1.more
    refine .inr ⟨⟨RxPc.noConfusion, rfl, fun r => ?_⟩, ?_⟩
    · rw [RxSystem.Answer, RxSystem.Answer, here]
    · simp only [RxPc.left]
      omega
  | storeReadIndex caller localReadIndex =>
    rw [here] at pc
    have more := pc.1.more
    cases caller with
    | main =>
      refine .inl ⟨_, rfl, ?_⟩
      rw [RxSystem.Answer, here]
      exact ⟨_, _, rfl⟩
    | uartRead length byteRead =>
      dsimp only [RxSystem.afterByte]
      split
      · next again =>
        refine .inr ⟨⟨RxPc.noConfusion, rfl, fun r => ?_⟩, ?_⟩
        · rw [RxSystem.Answer, RxSystem.Answer, here]
          exact Iff.rfl
        · simp only [RxPc.left, RxSystem.atPc, Caller.length, Caller.slot]
          omega
      · refine .inl ⟨_, rfl, ?_⟩
        rw [RxSystem.Answer, here]
        exact ⟨_, _, rfl⟩

/-- A call returns after as many steps of the main program as are left of it. -/
theorem RxInv.ends (hk : k ≤ 31) (h : RxInv k s) (pending : s.pc ≠ .idle) {es : List RxEvent}
    (enough : s.pc.left ≤ es.countP RxEvent.isMain) :
    ∃ front, front <+: es ∧ CallEnds s (Run.run rxStep s front) := by
  refine Run.run_reaches (I := fun t => RxInv k t ∧ SameCall s t) (fun t => t.pc.left)
    RxEvent.isMain ?_ ?_ ?_ ⟨h, pending, rfl, fun _ => Iff.rfl⟩ enough
  · rintro t e ⟨inv, same⟩ main
    cases e with
    | main =>
      exact (inv.main_works same.pending).imp same.ends fun goes =>
        ⟨⟨inv.main hk, same.trans goes.1⟩, goes.2⟩
    | isr | callIsEmpty | callRead | callUartRead => exact Bool.noConfusion main
  · rintro t e ⟨inv, same⟩ other
    obtain ⟨still, pc⟩ := rxStep_rests t same.pending e other
    exact .inr ⟨⟨inv.step hk e, same.trans still⟩, Nat.le_of_eq (congrArg RxPc.left pc)⟩
  · rintro t ⟨inv, same⟩
    exact inv.left_pos same.pending

/-- From the call on. -/
theorem RxInv.call_ends (hk : k ≤ 31) (h : RxInv k s) (idle : s.pc = .idle) {call : RxEvent}
    (isCall : ∃ r, call.Answer s.returned.length r) {es : List RxEvent}
    (enough : call.steps ≤ es.countP RxEvent.isMain) :
    ∃ front r, front <+: es ∧
      (Run.run rxStep s (call :: front)).returns = s.returns ++ [r] ∧
        call.Answer s.returned.length r := by
  have inv := h.step hk call
  have begins (busy : (rxStep s call).pc ≠ .idle) (returns : (rxStep s call).returns = s.returns)
      (left : (rxStep s call).pc.left = call.steps)
      (answer : ∀ r, (rxStep s call).Answer r → call.Answer s.returned.length r) :
      ∃ front r, front <+: es ∧ (Run.run rxStep s (call :: front)).returns = s.returns ++ [r] ∧
        call.Answer s.returned.length r := by
    obtain ⟨front, isFront, r, ends, answered⟩ := inv.ends hk busy (left ▸ enough)
    exact ⟨front, r, isFront, returns ▸ ends, answer r answered⟩
  cases call with
  | callIsEmpty =>
    have step : rxStep s .callIsEmpty = s.atPc .isEmptyReadIndex := if_pos idle
    rw [step] at begins
    exact begins RxPc.noConfusion rfl rfl fun r answer => answer
  | callRead data =>
    have step : rxStep s (.callRead data) = (s.startsRead data).atPc (.loadReadIndex .main) :=
      if_pos idle
    rw [step] at begins
    exact begins RxPc.noConfusion rfl rfl fun r answer => answer
  | callUartRead data length =>
    by_cases none : length = 0
    · subst none
      have step : rxStep s (.callUartRead data 0) = (s.startsRead data).returnsRead 0 0 := by
        rw [rxStep, if_pos idle, if_pos rfl]
      refine ⟨[], .read 0 0 s.returned.length data data, List.nil_prefix, ?_, ⟨0, data, rfl⟩⟩
      rw [Run.run_cons, step]
      rfl
    · have step : rxStep s (.callUartRead data length) =
          (s.startsRead data).atPc (.loadReadIndex (.uartRead length 0)) := by
        rw [rxStep, if_pos idle, if_neg none]
      rw [step] at begins
      exact begins RxPc.noConfusion rfl rfl fun r answer => answer
  | isr byte | main =>
    obtain ⟨r, never⟩ := isCall
    exact never.elim

end Ends

/-! ## A call that nothing interrupts -/

section Alone

variable {s : RxSystem} (idle : s.pc = .idle)
include idle

theorem isEmpty_alone : Run.run rxStep s [.callIsEmpty, .main, .main] =
    { s with pc := .idle, returns := s.returns ++ [.isEmpty (ringBufferIsEmpty s.rb)] } := by
  have call : rxStep s .callIsEmpty = s.atPc .isEmptyReadIndex := if_pos idle
  rw [Run.run_cons, call]
  rfl

theorem read_alone (data : Nat → Byte) :
    (Run.run rxStep s (.callRead data :: List.replicate 5 .main)).rb = (ringBufferRead s.rb).2 ∧
      (Run.run rxStep s (.callRead data :: List.replicate 5 .main)).returned =
        s.returned ++ (ringBufferRead s.rb).1.toList := by
  have call : rxStep s (.callRead data) = (s.startsRead data).atPc (.loadReadIndex .main) :=
    if_pos idle
  rw [Run.run_cons, call]
  by_cases empty : s.rb.readIndex = s.rb.writeIndex
  · -- it returns with its second load
    have looked : Run.run rxStep ((s.startsRead data).atPc (.loadReadIndex .main))
        (List.replicate 2 .main) = (s.startsRead data).returnsRead 1 0 := if_pos empty
    rw [show List.replicate 5 RxEvent.main = List.replicate 2 .main ++ List.replicate 3 .main from
      rfl, Run.run_append, looked, ringBufferRead, if_pos empty]
    exact ⟨rfl, (List.append_nil _).symm⟩
  · have looked : Run.run rxStep ((s.startsRead data).atPc (.loadReadIndex .main))
        (List.replicate 2 .main) = (s.startsRead data).atPc (.loadByte .main s.rb.readIndex) :=
      if_neg empty
    rw [show List.replicate 5 RxEvent.main = List.replicate 2 .main ++ List.replicate 3 .main from
      rfl, Run.run_append, looked, ringBufferRead, if_neg empty]
    refine ⟨rfl, ?_⟩
    show s.returned ++ [Function.update data 0 (s.rb.buffer.getD s.rb.readIndex 0) 0] = _
    rw [Function.update_self]
    rfl

end Alone

/-! ## Every run -/

/-- The state after the events `es`, starting from `ring_buffer_setup`. -/
def rxRun (buffer : List Byte) (size : Nat) (es : List RxEvent) : RxSystem :=
  Run.run rxStep (rxInit buffer size) es

theorem RxInv.init {k : Nat} {buffer : List Byte} (size : buffer.length = 2 ^ k) :
    RxInv k (rxInit buffer (2 ^ k)) := by
  have ring : RingSize k (ringBufferSetup buffer (2 ^ k)) :=
    ⟨size, rfl, Nat.two_pow_pos k, Nat.two_pow_pos k⟩
  refine ⟨⟨ring, ?_, nofun⟩, trivial, rfl⟩
  show [] = [] ++ (ringBufferSetup buffer (2 ^ k)).held
  rw [(held_eq_nil ring).mpr rfl]
  rfl

/-- A queue of `size` slots as the program sees it. -/
structure BoundedFifo (size : Nat) (s : RxSystem) : Prop where
  /-- the bytes returned are the bytes written, in order, up to those still held -/
  fifo : s.written = s.returned ++ s.rb.held
  bound : s.rb.held.length ≤ size - 1
  indices : s.rb.readIndex < size ∧ s.rb.writeIndex < size
  /-- each read returned the bytes that were next, and touched no other place -/
  reads : ∀ length count first before after,
    .read length count first before after ∈ s.returns →
      count ≤ length ∧ first + count ≤ s.returned.length ∧
        (∀ i, i < count → s.written[first + i]? = some (after i)) ∧
        ∀ i, count ≤ i → after i = before i
  /-- a write that succeeds appends its byte, and leaves the slots in use alone -/
  accepts : ∀ byte, (ringBufferWrite s.rb byte).1 = true →
    (rxStep s (.isr byte)).rb.held = s.rb.held ++ [byte] ∧
      (rxStep s (.isr byte)).written = s.written ++ [byte] ∧
      ∀ i < s.rb.held.length,
        (rxStep s (.isr byte)).rb.buffer.getD ((s.rb.readIndex + i) % size) 0 =
          s.rb.buffer.getD ((s.rb.readIndex + i) % size) 0
  /-- a write fails only on a full queue, and then changes nothing -/
  refuses : ∀ byte, (ringBufferWrite s.rb byte).1 = false →
    s.rb.held.length = size - 1 ∧ rxStep s (.isr byte) = s
  /-- a short read, and `ring_buffer_is_empty`, saw the queue as it was -/
  saw : ∀ e r, (rxStep s e).returns = s.returns ++ [r] → SawQueue s.rb.held r
  /-- the bytes of the calls that are over, then those of the call under way, are all there are -/
  calls : s.returned = s.returns.flatMap RxReturn.bytes ++ s.taken
  /-- a call returns once the main program has made its steps, whatever comes in between -/
  ends : s.pc = .idle → ∀ call, (∃ r, RxEvent.Answer s.returned.length call r) → ∀ es,
    call.steps ≤ es.countP RxEvent.isMain →
      ∃ front r, front <+: es ∧
        (Run.run rxStep s (call :: front)).returns = s.returns ++ [r] ∧
          call.Answer s.returned.length r
  /-- and so does the call under way, with the steps that are left of it -/
  pending : s.pc ≠ .idle → ∀ es, s.pc.left ≤ es.countP RxEvent.isMain →
    ∃ front, front <+: es ∧ CallEnds s (Run.run rxStep s front)
  /-- a call that nothing interrupts does what its function does -/
  alone : s.pc = .idle →
    (Run.run rxStep s [.callIsEmpty, .main, .main]).returns =
        s.returns ++ [.isEmpty (ringBufferIsEmpty s.rb)] ∧
      ∀ data, (Run.run rxStep s (.callRead data :: List.replicate 5 .main)).rb =
          (ringBufferRead s.rb).2 ∧
        (Run.run rxStep s (.callRead data :: List.replicate 5 .main)).returned =
          s.returned ++ (ringBufferRead s.rb).1.toList

/-- In every run, for every size that is a power of two. -/
theorem ring_is_fifo {k : Nat} (hk : k ≤ 31) {buffer : List Byte} (size : buffer.length = 2 ^ k)
    (es : List RxEvent) : BoundedFifo (2 ^ k) (rxRun buffer (2 ^ k) es) := by
  have inv : RxInv k (rxRun buffer (2 ^ k) es) :=
    Run.run_invariant (fun _ e h => h.step hk e) (RxInv.init size) es
  generalize rxRun buffer (2 ^ k) es = s at inv
  refine ⟨inv.fifo, Nat.le_sub_one_of_lt (held_length_lt inv.size),
    ⟨inv.size.read, inv.size.write⟩, ?_, ?_, ?_, ?_, inv.calls,
    fun idle _ isCall _ enough => inv.call_ends hk idle isCall enough,
    fun pending _ enough => inv.ends hk pending enough,
    fun idle => ⟨congrArg RxSystem.returns (isEmpty_alone idle), read_alone idle⟩⟩
  · intro length count first before after member
    obtain ⟨most, place, filled⟩ := inv.returns _ member
    exact ⟨most, place, filled.bytes, filled.rest⟩
  · intro byte success
    obtain ⟨-, held, -, others⟩ := ringBufferWrite_true hk inv.size success
    refine ⟨held, ?_, others⟩
    rw [rxStep_isr, success]
    rfl
  · intro byte failure
    obtain ⟨same, full⟩ := ringBufferWrite_false hk inv.size failure
    refine ⟨full, ?_⟩
    rw [rxStep_isr, failure, same]
    rfl
  · intro e r returned
    rcases step_returns inv e with same | ⟨r', last, saw⟩
    · rw [same] at returned
      have nothing := List.append_cancel_left (returned.symm.trans (List.append_nil _).symm)
      exact absurd nothing (List.cons_ne_nil _ _)
    · rw [last] at returned
      rwa [← List.singleton_inj.mp (List.append_cancel_left returned)]

/-- The queue of `uart.c`: a byte arrives while another one is read. -/
theorem ring_is_fifo_preempted : BoundedFifo (2 ^ 7) (rxRun (List.replicate 128 0) (2 ^ 7)
    [.isr 1, .callRead fun _ => 0, .main, .main, .isr 2, .main, .main, .main]) :=
  ring_is_fifo (by decide) List.length_replicate _

end SecureBootloader
