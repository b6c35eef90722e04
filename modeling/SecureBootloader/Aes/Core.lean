import SecureBootloader.Aes.Block

/-!
# The block cipher of `aes.c`

A translation of the hand-written AES-128. C arrays that a function updates in
place become the value it returns; the order of the in-place updates is kept.
-/

namespace SecureBootloader

/-- `NUM_ROUND_KEYS_128`. -/
def numRoundKeys128 : Nat := 11

/-! ## Field arithmetic -/

/-- The doubling step inside `GF_Mult`: shift `a` left and reduce by `0x1b` if
the top bit fell out. -/
def gfDouble (a : Byte) : Byte :=
  let shiftEscapesField := a &&& 0x80
  let a := a <<< 1
  if shiftEscapesField ≠ 0 then a ^^^ 0x1b else a

/-- `GF_Mult` keeps a running result, `a` times the current power of two, and
the bits of `b` not looked at yet. -/
structure GfMultState where
  result : Byte
  a : Byte
  b : Byte

/-- One iteration of the loop of `GF_Mult`. -/
def gfMultStep (s : GfMultState) : GfMultState where
  result := if s.b &&& 1 ≠ 0 then s.result ^^^ s.a else s.result
  a := gfDouble s.a
  b := s.b >>> 1

/-- The first `n` iterations of the loop of `GF_Mult`. -/
def gfMultLoop (n : Nat) (s : GfMultState) : GfMultState :=
  Nat.fold n (fun _ _ s => gfMultStep s) s

/-- `GF_Mult`. -/
def gfMult (a b : Byte) : Byte := (gfMultLoop 8 ⟨0, a, b⟩).result

/-- `GF_WordAdd`. -/
def gfWordAdd (a b : AesColumn) : AesColumn := a.xor b

/-! ## Tables -/

set_option maxRecDepth 4000 in
/-- `sbox_encrypt`. -/
def sboxEncrypt : Vector Byte 256 := #v[
  0x63, 0x7c, 0x77, 0x7b, 0xf2, 0x6b, 0x6f, 0xc5, 0x30, 0x01, 0x67, 0x2b, 0xfe, 0xd7, 0xab, 0x76,
  0xca, 0x82, 0xc9, 0x7d, 0xfa, 0x59, 0x47, 0xf0, 0xad, 0xd4, 0xa2, 0xaf, 0x9c, 0xa4, 0x72, 0xc0,
  0xb7, 0xfd, 0x93, 0x26, 0x36, 0x3f, 0xf7, 0xcc, 0x34, 0xa5, 0xe5, 0xf1, 0x71, 0xd8, 0x31, 0x15,
  0x04, 0xc7, 0x23, 0xc3, 0x18, 0x96, 0x05, 0x9a, 0x07, 0x12, 0x80, 0xe2, 0xeb, 0x27, 0xb2, 0x75,
  0x09, 0x83, 0x2c, 0x1a, 0x1b, 0x6e, 0x5a, 0xa0, 0x52, 0x3b, 0xd6, 0xb3, 0x29, 0xe3, 0x2f, 0x84,
  0x53, 0xd1, 0x00, 0xed, 0x20, 0xfc, 0xb1, 0x5b, 0x6a, 0xcb, 0xbe, 0x39, 0x4a, 0x4c, 0x58, 0xcf,
  0xd0, 0xef, 0xaa, 0xfb, 0x43, 0x4d, 0x33, 0x85, 0x45, 0xf9, 0x02, 0x7f, 0x50, 0x3c, 0x9f, 0xa8,
  0x51, 0xa3, 0x40, 0x8f, 0x92, 0x9d, 0x38, 0xf5, 0xbc, 0xb6, 0xda, 0x21, 0x10, 0xff, 0xf3, 0xd2,
  0xcd, 0x0c, 0x13, 0xec, 0x5f, 0x97, 0x44, 0x17, 0xc4, 0xa7, 0x7e, 0x3d, 0x64, 0x5d, 0x19, 0x73,
  0x60, 0x81, 0x4f, 0xdc, 0x22, 0x2a, 0x90, 0x88, 0x46, 0xee, 0xb8, 0x14, 0xde, 0x5e, 0x0b, 0xdb,
  0xe0, 0x32, 0x3a, 0x0a, 0x49, 0x06, 0x24, 0x5c, 0xc2, 0xd3, 0xac, 0x62, 0x91, 0x95, 0xe4, 0x79,
  0xe7, 0xc8, 0x37, 0x6d, 0x8d, 0xd5, 0x4e, 0xa9, 0x6c, 0x56, 0xf4, 0xea, 0x65, 0x7a, 0xae, 0x08,
  0xba, 0x78, 0x25, 0x2e, 0x1c, 0xa6, 0xb4, 0xc6, 0xe8, 0xdd, 0x74, 0x1f, 0x4b, 0xbd, 0x8b, 0x8a,
  0x70, 0x3e, 0xb5, 0x66, 0x48, 0x03, 0xf6, 0x0e, 0x61, 0x35, 0x57, 0xb9, 0x86, 0xc1, 0x1d, 0x9e,
  0xe1, 0xf8, 0x98, 0x11, 0x69, 0xd9, 0x8e, 0x94, 0x9b, 0x1e, 0x87, 0xe9, 0xce, 0x55, 0x28, 0xdf,
  0x8c, 0xa1, 0x89, 0x0d, 0xbf, 0xe6, 0x42, 0x68, 0x41, 0x99, 0x2d, 0x0f, 0xb0, 0x54, 0xbb, 0x16]

set_option maxRecDepth 4000 in
/-- `sbox_decrypt`. -/
def sboxDecrypt : Vector Byte 256 := #v[
  0x52, 0x09, 0x6a, 0xd5, 0x30, 0x36, 0xa5, 0x38, 0xbf, 0x40, 0xa3, 0x9e, 0x81, 0xf3, 0xd7, 0xfb,
  0x7c, 0xe3, 0x39, 0x82, 0x9b, 0x2f, 0xff, 0x87, 0x34, 0x8e, 0x43, 0x44, 0xc4, 0xde, 0xe9, 0xcb,
  0x54, 0x7b, 0x94, 0x32, 0xa6, 0xc2, 0x23, 0x3d, 0xee, 0x4c, 0x95, 0x0b, 0x42, 0xfa, 0xc3, 0x4e,
  0x08, 0x2e, 0xa1, 0x66, 0x28, 0xd9, 0x24, 0xb2, 0x76, 0x5b, 0xa2, 0x49, 0x6d, 0x8b, 0xd1, 0x25,
  0x72, 0xf8, 0xf6, 0x64, 0x86, 0x68, 0x98, 0x16, 0xd4, 0xa4, 0x5c, 0xcc, 0x5d, 0x65, 0xb6, 0x92,
  0x6c, 0x70, 0x48, 0x50, 0xfd, 0xed, 0xb9, 0xda, 0x5e, 0x15, 0x46, 0x57, 0xa7, 0x8d, 0x9d, 0x84,
  0x90, 0xd8, 0xab, 0x00, 0x8c, 0xbc, 0xd3, 0x0a, 0xf7, 0xe4, 0x58, 0x05, 0xb8, 0xb3, 0x45, 0x06,
  0xd0, 0x2c, 0x1e, 0x8f, 0xca, 0x3f, 0x0f, 0x02, 0xc1, 0xaf, 0xbd, 0x03, 0x01, 0x13, 0x8a, 0x6b,
  0x3a, 0x91, 0x11, 0x41, 0x4f, 0x67, 0xdc, 0xea, 0x97, 0xf2, 0xcf, 0xce, 0xf0, 0xb4, 0xe6, 0x73,
  0x96, 0xac, 0x74, 0x22, 0xe7, 0xad, 0x35, 0x85, 0xe2, 0xf9, 0x37, 0xe8, 0x1c, 0x75, 0xdf, 0x6e,
  0x47, 0xf1, 0x1a, 0x71, 0x1d, 0x29, 0xc5, 0x89, 0x6f, 0xb7, 0x62, 0x0e, 0xaa, 0x18, 0xbe, 0x1b,
  0xfc, 0x56, 0x3e, 0x4b, 0xc6, 0xd2, 0x79, 0x20, 0x9a, 0xdb, 0xc0, 0xfe, 0x78, 0xcd, 0x5a, 0xf4,
  0x1f, 0xdd, 0xa8, 0x33, 0x88, 0x07, 0xc7, 0x31, 0xb1, 0x12, 0x10, 0x59, 0x27, 0x80, 0xec, 0x5f,
  0x60, 0x51, 0x7f, 0xa9, 0x19, 0xb5, 0x4a, 0x0d, 0x2d, 0xe5, 0x7a, 0x9f, 0x93, 0xc9, 0x9c, 0xef,
  0xa0, 0xe0, 0x3b, 0x4d, 0xae, 0x2a, 0xf5, 0xb0, 0xc8, 0xeb, 0xbb, 0x3c, 0x83, 0x53, 0x99, 0x61,
  0x17, 0x2b, 0x04, 0x7e, 0xba, 0x77, 0xd6, 0x26, 0xe1, 0x69, 0x14, 0x63, 0x55, 0x21, 0x0c, 0x7d]

/-- `Rcon`. -/
def rcon : Vector AesColumn 10 := #v[
  ⟨0x01, 0, 0, 0⟩, ⟨0x02, 0, 0, 0⟩, ⟨0x04, 0, 0, 0⟩, ⟨0x08, 0, 0, 0⟩, ⟨0x10, 0, 0, 0⟩,
  ⟨0x20, 0, 0, 0⟩, ⟨0x40, 0, 0, 0⟩, ⟨0x80, 0, 0, 0⟩, ⟨0x1b, 0, 0, 0⟩, ⟨0x36, 0, 0, 0⟩]

/-- `table[index]` for a byte index. -/
def tableLookup (table : Vector Byte 256) (index : Byte) : Byte :=
  table.get index.toFin

/-! ## The round functions -/

/-- `AES_RotWord`. -/
def aesRotWord (word : AesColumn) : AesColumn := ⟨word.r1, word.r2, word.r3, word.r0⟩

/-- `AES_SubWord`. -/
def aesSubWord (word : AesColumn) (table : Vector Byte 256) : AesColumn :=
  word.map (tableLookup table)

/-- `AES_SubBytes`. -/
def aesSubBytes (state : AesBlock) (table : Vector Byte 256) : AesBlock :=
  state.mapColumns (·.map (tableLookup table))

/-- `AES_ShiftRows`, cell by cell with its temporaries. -/
def aesShiftRows (state : AesBlock) : AesBlock :=
  -- row 1
  let temp0 := state.c0.r1
  let state := { state with c0 := { state.c0 with r1 := state.c1.r1 } }
  let state := { state with c1 := { state.c1 with r1 := state.c2.r1 } }
  let state := { state with c2 := { state.c2 with r1 := state.c3.r1 } }
  let state := { state with c3 := { state.c3 with r1 := temp0 } }
  -- row 2
  let temp0 := state.c0.r2
  let temp1 := state.c1.r2
  let state := { state with c0 := { state.c0 with r2 := state.c2.r2 } }
  let state := { state with c1 := { state.c1 with r2 := state.c3.r2 } }
  let state := { state with c2 := { state.c2 with r2 := temp0 } }
  let state := { state with c3 := { state.c3 with r2 := temp1 } }
  -- row 3
  let temp0 := state.c3.r3
  let state := { state with c3 := { state.c3 with r3 := state.c2.r3 } }
  let state := { state with c2 := { state.c2 with r3 := state.c1.r3 } }
  let state := { state with c1 := { state.c1 with r3 := state.c0.r3 } }
  { state with c0 := { state.c0 with r3 := temp0 } }

/-- `AES_InvShiftRows`, cell by cell with its temporaries. -/
def aesInvShiftRows (state : AesBlock) : AesBlock :=
  -- row 1
  let temp0 := state.c3.r1
  let state := { state with c3 := { state.c3 with r1 := state.c2.r1 } }
  let state := { state with c2 := { state.c2 with r1 := state.c1.r1 } }
  let state := { state with c1 := { state.c1 with r1 := state.c0.r1 } }
  let state := { state with c0 := { state.c0 with r1 := temp0 } }
  -- row 2
  let temp0 := state.c0.r2
  let temp1 := state.c1.r2
  let state := { state with c0 := { state.c0 with r2 := state.c2.r2 } }
  let state := { state with c1 := { state.c1 with r2 := state.c3.r2 } }
  let state := { state with c2 := { state.c2 with r2 := temp0 } }
  let state := { state with c3 := { state.c3 with r2 := temp1 } }
  -- row 3
  let temp0 := state.c0.r3
  let state := { state with c0 := { state.c0 with r3 := state.c1.r3 } }
  let state := { state with c1 := { state.c1 with r3 := state.c2.r3 } }
  let state := { state with c2 := { state.c2 with r3 := state.c3.r3 } }
  { state with c3 := { state.c3 with r3 := temp0 } }

/-- One column of `AES_MixColumns`. -/
def mixColumn (s : AesColumn) : AesColumn where
  r0 := gfMult 0x02 s.r0 ^^^ gfMult 0x03 s.r1 ^^^ s.r2 ^^^ s.r3
  r1 := s.r0 ^^^ gfMult 0x02 s.r1 ^^^ gfMult 0x03 s.r2 ^^^ s.r3
  r2 := s.r0 ^^^ s.r1 ^^^ gfMult 0x02 s.r2 ^^^ gfMult 0x03 s.r3
  r3 := gfMult 0x03 s.r0 ^^^ s.r1 ^^^ s.r2 ^^^ gfMult 0x02 s.r3

/-- `AES_MixColumns`. -/
def aesMixColumns (state : AesBlock) : AesBlock := state.mapColumns mixColumn

/-- One column of `AES_InvMixColumns`. -/
def invMixColumn (s : AesColumn) : AesColumn where
  r0 := gfMult 0x0e s.r0 ^^^ gfMult 0x0b s.r1 ^^^ gfMult 0x0d s.r2 ^^^ gfMult 0x09 s.r3
  r1 := gfMult 0x09 s.r0 ^^^ gfMult 0x0e s.r1 ^^^ gfMult 0x0b s.r2 ^^^ gfMult 0x0d s.r3
  r2 := gfMult 0x0d s.r0 ^^^ gfMult 0x09 s.r1 ^^^ gfMult 0x0e s.r2 ^^^ gfMult 0x0b s.r3
  r3 := gfMult 0x0b s.r0 ^^^ gfMult 0x0d s.r1 ^^^ gfMult 0x09 s.r2 ^^^ gfMult 0x0e s.r3

/-- `AES_InvMixColumns`. -/
def aesInvMixColumns (state : AesBlock) : AesBlock := state.mapColumns invMixColumn

/-- `AES_AddRoundKey`. -/
def aesAddRoundKey (state roundKey : AesBlock) : AesBlock := state.xor roundKey

/-! ## Key schedule -/

/-- The eleven round keys. -/
abbrev KeySchedule := Vector AesBlock 11

/-- One iteration of `AES_KeySchedule128`: the next round key from the current
one and its last column `col3`. -/
def nextRoundKey (i : Fin 10) (current : AesBlock) (col3 : AesColumn) : AesBlock :=
  let col3 := aesRotWord col3
  let col3 := aesSubWord col3 sboxEncrypt
  let col3 := gfWordAdd col3 rcon[i]
  let n0 := gfWordAdd col3 current.c0
  let n1 := gfWordAdd n0 current.c1
  let n2 := gfWordAdd n1 current.c2
  let n3 := gfWordAdd n2 current.c3
  ⟨n0, n1, n2, n3⟩

/-- `AES_KeySchedule128`. `keysOut` is the caller's array; the loop carries it
together with the copy of the last column of the current round key. -/
def aesKeySchedule128 (key : AesBlock) (keysOut : KeySchedule) : KeySchedule :=
  let keysOut := keysOut.set 0 key
  let col3 := key.c3
  (Nat.fold 10 (fun i hi (s : KeySchedule × AesColumn) =>
    let next := nextRoundKey ⟨i, hi⟩ s.1[i] s.2
    (s.1.set (i + 1) next, next.c3)) (keysOut, col3)).1

/-! ## Encryption and decryption -/

/-- The loop body of `AES_EncryptBlock` for loop index `i`. -/
def aesEncryptRound (i : Nat) (roundKey state : AesBlock) : AesBlock :=
  let state := aesSubBytes state sboxEncrypt
  let state := aesShiftRows state
  let state := if i < numRoundKeys128 - 1 then aesMixColumns state else state
  aesAddRoundKey state roundKey

/-- `AES_EncryptBlock`. The loop index of the source runs from 1 to 10, here
`i + 1`; `roundKey` points at `keySchedule[i + 1]` in that iteration. -/
def aesEncryptBlock (state : AesBlock) (keySchedule : KeySchedule) : AesBlock :=
  Nat.fold 10 (fun i _ state => aesEncryptRound (i + 1) keySchedule[i + 1] state)
    (aesAddRoundKey state keySchedule[0])

/-- The loop body of `AES_DecryptBlock` for loop index `i`. -/
def aesDecryptRound (i : Nat) (roundKey state : AesBlock) : AesBlock :=
  let state := aesAddRoundKey state roundKey
  let state := if i ≠ 1 then aesInvMixColumns state else state
  let state := aesInvShiftRows state
  aesSubBytes state sboxDecrypt

/-- `AES_DecryptBlock`. In iteration `i + 1` of the source `roundKey` points at
`keySchedule[10 - i]`, and at `keySchedule[0]` after the loop. -/
def aesDecryptBlock (state : AesBlock) (keySchedule : KeySchedule) : AesBlock :=
  aesAddRoundKey
    (Nat.fold 10 (fun i _ state => aesDecryptRound (i + 1) keySchedule[10 - i] state) state)
    keySchedule[0]

end SecureBootloader
