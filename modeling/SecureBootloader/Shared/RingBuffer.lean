import SecureBootloader.Aes.Block

/-!
# `ring_buffer_t`

The byte queue between the receive interrupt and the main program. The indices
are `uint32_t`; `mask` is the size minus one.
-/

namespace SecureBootloader

/-- `ring_buffer_t`. -/
structure RingBuffer where
  buffer : List Byte
  mask : Nat
  readIndex : Nat
  writeIndex : Nat
  deriving DecidableEq, Repr

/-- `ring_buffer_setup`. -/
def ringBufferSetup (buffer : List Byte) (size : Nat) : RingBuffer where
  buffer := buffer
  mask := size - 1
  readIndex := 0
  writeIndex := 0

/-- `ring_buffer_is_empty`. -/
def ringBufferIsEmpty (rb : RingBuffer) : Bool := rb.readIndex == rb.writeIndex

/-- `ring_buffer_write`: the result and the buffer after it. -/
def ringBufferWrite (rb : RingBuffer) (byte : Byte) : Bool × RingBuffer :=
  let nextWriteIndex := ((rb.writeIndex + 1) % 2 ^ 32) &&& rb.mask
  if nextWriteIndex = rb.readIndex then (false, rb)
  else (true, { rb with
    buffer := rb.buffer.set rb.writeIndex byte
    writeIndex := nextWriteIndex })

/-- `ring_buffer_read`: the byte, if there is one, and the buffer after it. -/
def ringBufferRead (rb : RingBuffer) : Option Byte × RingBuffer :=
  if rb.readIndex = rb.writeIndex then (none, rb)
  else (some (rb.buffer.getD rb.readIndex 0),
    { rb with readIndex := ((rb.readIndex + 1) % 2 ^ 32) &&& rb.mask })

end SecureBootloader
