import SecureBootloader.Shared.RingBuffer
import Mathlib.Logic.Function.Basic

/-!
# Reading the byte queue under interrupts

The reading functions of `ring-buffer.c` and `uart.c` as single loads and stores of
the queue. `usart2_isr` may run between any two of them, and `ring_buffer_write` in it
is never interrupted by the main program.
-/

namespace SecureBootloader

/-! ## Where the main program stands -/

/-- Who called `ring_buffer_read`. -/
inductive Caller where
  /-- the main program, with `data` as `byte` -/
  | main
  /-- `uart_read`, with `&data[byte_read]` -/
  | uartRead (length byteRead : Nat)
  deriving DecidableEq, Repr

/-- The place in `data` that the byte goes to. -/
def Caller.slot : Caller → Nat
  | .main => 0
  | .uartRead _ byteRead => byteRead

/-- How many bytes are wanted. -/
def Caller.length : Caller → Nat
  | .main => 1
  | .uartRead length _ => length

/-- The next load or store, with the locals read so far. -/
inductive RxPc where
  | idle
  | isEmptyReadIndex
  | isEmptyWriteIndex (readIndex : Nat)
  | loadReadIndex (caller : Caller)
  | loadWriteIndex (caller : Caller) (localReadIndex : Nat)
  | loadByte (caller : Caller) (localReadIndex : Nat)
  | storeByte (caller : Caller) (localReadIndex : Nat) (byte : Byte)
  | storeReadIndex (caller : Caller) (localReadIndex : Nat)
  deriving DecidableEq, Repr

/-- What a call returned. A read of up to `length` bytes returned `count`, found `before`
in the caller's array and left `after` there; `first` bytes were returned before it. -/
inductive RxReturn where
  | isEmpty (empty : Bool)
  | read (length count first : Nat) (before after : Nat → Byte)

/-- The queue, the main program and the caller's array. `written`, `returned`, `first`,
`before` and `returns` are history: the bytes written and returned so far, how many were
returned and what the array held when the call began, and the calls that are over. -/
structure RxSystem where
  rb : RingBuffer
  pc : RxPc
  data : Nat → Byte
  written : List Byte
  returned : List Byte
  first : Nat
  before : Nat → Byte
  returns : List RxReturn

/-- After `ring_buffer_setup`. -/
def rxInit (buffer : List Byte) (size : Nat) : RxSystem where
  rb := ringBufferSetup buffer size
  pc := .idle
  data := fun _ => 0
  written := []
  returned := []
  first := 0
  before := fun _ => 0
  returns := []

namespace RxSystem

def atPc (s : RxSystem) (pc : RxPc) : RxSystem := { s with pc := pc }

/-- A read of up to `length` bytes returns `count`. -/
def returnsRead (s : RxSystem) (length count : Nat) : RxSystem :=
  { s with pc := .idle, returns := s.returns ++ [.read length count s.first s.before s.data] }

/-- A read is called with the array `data`. -/
def startsRead (s : RxSystem) (data : Nat → Byte) : RxSystem :=
  { s with data := data, before := data, first := s.returned.length }

/-- `ring_buffer_read` returns true. -/
def afterByte (s : RxSystem) : Caller → RxSystem
  | .main => s.returnsRead 1 1
  | .uartRead length byteRead =>
    -- `byte_read++`
    if byteRead + 1 < length then s.atPc (.loadReadIndex (.uartRead length (byteRead + 1)))
    else s.returnsRead length length

/-- The next load or store of the main program. -/
def mainStep (s : RxSystem) : RxSystem :=
  match s.pc with
  | .idle => s
  | .isEmptyReadIndex => s.atPc (.isEmptyWriteIndex s.rb.readIndex)
  | .isEmptyWriteIndex readIndex =>
    { s with pc := .idle, returns := s.returns ++ [.isEmpty (readIndex == s.rb.writeIndex)] }
  | .loadReadIndex caller => s.atPc (.loadWriteIndex caller s.rb.readIndex)
  | .loadWriteIndex caller localReadIndex =>
    -- `ring_buffer_read` returns false
    if localReadIndex = s.rb.writeIndex then s.returnsRead caller.length caller.slot
    else s.atPc (.loadByte caller localReadIndex)
  | .loadByte caller localReadIndex =>
    s.atPc (.storeByte caller localReadIndex (s.rb.buffer.getD localReadIndex 0))
  | .storeByte caller localReadIndex byte =>
    { s with
      data := Function.update s.data caller.slot byte
      pc := .storeReadIndex caller localReadIndex }
  | .storeReadIndex caller localReadIndex =>
    ({ s with
      rb := { s.rb with readIndex := ((localReadIndex + 1) % 2 ^ 32) &&& s.rb.mask }
      returned := s.returned ++ [s.data caller.slot] }).afterByte caller

end RxSystem

/-- What can happen. -/
inductive RxEvent where
  /-- `ring_buffer_write` in `usart2_isr` -/
  | isr (byte : Byte)
  /-- the main program calls `ring_buffer_is_empty` -/
  | callIsEmpty
  /-- the main program calls `ring_buffer_read` -/
  | callRead (data : Nat → Byte)
  /-- the main program calls `uart_read` -/
  | callUartRead (data : Nat → Byte) (length : Nat)
  /-- the main program does its next load or store -/
  | main

/-- One event. A call is possible between two calls only. -/
def rxStep (s : RxSystem) : RxEvent → RxSystem
  | .isr byte =>
    let (ok, rb) := ringBufferWrite s.rb byte
    { s with rb := rb, written := if ok then s.written ++ [byte] else s.written }
  | .callIsEmpty => if s.pc = .idle then s.atPc .isEmptyReadIndex else s
  | .callRead data => if s.pc = .idle then (s.startsRead data).atPc (.loadReadIndex .main) else s
  | .callUartRead data length =>
    if s.pc = .idle then
      if length = 0 then (s.startsRead data).returnsRead 0 0
      else (s.startsRead data).atPc (.loadReadIndex (.uartRead length 0))
    else s
  | .main => s.mainStep

end SecureBootloader
