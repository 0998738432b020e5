import Btide.Lib.CString

/-!
This module contains the streaming SHA-256 of `src/crypt/sha256.c`.
-/

open Bytes CLib

namespace Btide

structure Sha256ComputeData where
  dataSize : UInt64
  hcomps : List UInt32
  lastChunk : Bytes
  chunkSize : UInt8
  deriving DecidableEq, Repr

namespace Sha256

def rotateR (val bits : UInt32) : UInt32 :=
  val >>> bits ||| val <<< (32 - bits)

def k : List UInt32 := [
  0x428a2f98, 0x71374491, 0xb5c0fbcf, 0xe9b5dba5, 0x3956c25b, 0x59f111f1, 0x923f82a4, 0xab1c5ed5,
  0xd807aa98, 0x12835b01, 0x243185be, 0x550c7dc3, 0x72be5d74, 0x80deb1fe, 0x9bdc06a7, 0xc19bf174,
  0xe49b69c1, 0xefbe4786, 0x0fc19dc6, 0x240ca1cc, 0x2de92c6f, 0x4a7484aa, 0x5cb0a9dc, 0x76f988da,
  0x983e5152, 0xa831c66d, 0xb00327c8, 0xbf597fc7, 0xc6e00bf3, 0xd5a79147, 0x06ca6351, 0x14292967,
  0x27b70a85, 0x2e1b2138, 0x4d2c6dfc, 0x53380d13, 0x650a7354, 0x766a0abb, 0x81c2c92e, 0x92722c85,
  0xa2bfe8a1, 0xa81a664b, 0xc24b8b70, 0xc76c51a3, 0xd192e819, 0xd6990624, 0xf40e3585, 0x106aa070,
  0x19a4c116, 0x1e376c08, 0x2748774c, 0x34b0bcb5, 0x391c0cb3, 0x4ed8aa4a, 0x5b9cca4f, 0x682e6ff3,
  0x748f82ee, 0x78a5636f, 0x84c87814, 0x8cc70208, 0x90befffa, 0xa4506ceb, 0xbef9a3f7, 0xc67178f2]

/--
The big endian words of a block, the first loop of `sha256_calculate_chunk`.
-/
def words : Bytes → List UInt32
  | a :: b :: c :: d :: chunk =>
    (a.toUInt32 <<< 24 ||| b.toUInt32 <<< 16 ||| c.toUInt32 <<< 8 ||| d.toUInt32) :: words chunk
  | _ => []

def extend (w : List UInt32) (i : Nat) : List UInt32 :=
  let w15 := w.getD (i - 15) 0
  let w2 := w.getD (i - 2) 0
  let s0 := rotateR w15 7 ^^^ rotateR w15 18 ^^^ (w15 >>> 3)
  let s1 := rotateR w2 17 ^^^ rotateR w2 19 ^^^ (w2 >>> 10)
  w ++ [w.getD (i - 16) 0 + s0 + w.getD (i - 7) 0 + s1]

def round (w tv : List UInt32) (i : Nat) : List UInt32 :=
  match tv with
  | [tv0, tv1, tv2, tv3, tv4, tv5, tv6, tv7] =>
    let S1 := rotateR tv4 6 ^^^ rotateR tv4 11 ^^^ rotateR tv4 25
    let ch := (tv4 &&& tv5) ^^^ (~~~tv4 &&& tv6)
    let temp1 := tv7 + S1 + ch + k.getD i 0 + w.getD i 0
    let S0 := rotateR tv0 2 ^^^ rotateR tv0 13 ^^^ rotateR tv0 22
    let maj := (tv0 &&& tv1) ^^^ (tv0 &&& tv2) ^^^ (tv1 &&& tv2)
    let temp2 := S0 + maj
    let tv7 := tv6
    let tv6 := tv5
    let tv5 := tv4
    let tv4 := tv3 + temp1
    let tv3 := tv2
    let tv2 := tv1
    let tv1 := tv0
    let tv0 := temp1 + temp2
    [tv0, tv1, tv2, tv3, tv4, tv5, tv6, tv7]
  | tv => tv

end Sha256

open Sha256

def sha256CalculateChunk (data : Sha256ComputeData) (chunk : Bytes) : Sha256ComputeData :=
  let w := (List.range' 16 48).foldl extend (words (chunk.take 64))
  let tv := (List.range 64).foldl (round w) data.hcomps
  { data with hcomps := List.zipWith (· + ·) data.hcomps tv }

def sha256ComputeDataInit (data : Sha256ComputeData) : Sha256ComputeData :=
  { data with
    hcomps := [
      0x6a09e667, 0xbb67ae85, 0x3c6ef372, 0xa54ff53a, 0x510e527f, 0x9b05688c, 0x1f83d9ab, 0x5be0cd19]
    dataSize := 0
    chunkSize := 0 }

namespace Sha256

def blocks (data : Sha256ComputeData) (ptr : Bytes) (size : Nat) : Sha256ComputeData × Bytes × Nat :=
  if 64 ≤ size then
    blocks (sha256CalculateChunk data ptr) (ptr.drop 64) (size - 64)
  else
    (data, ptr, size)
termination_by size

/--
The completion of a pending block at the start of `sha256_update`.
-/
def fillPending (data : Sha256ComputeData) (ptr : Bytes) (size : UInt32)
    : Except Fault (Sha256ComputeData × Bytes × UInt32) :=
  if 64 ≤ size + data.chunkSize.toUInt32 then
    if data.chunkSize ≤ 64 then
      let room := 64 - data.chunkSize.toNat
      let tmpChunk := data.lastChunk.take data.chunkSize.toNat ++ ptr.take room
      let data := { data with chunkSize := 0 }
      .ok (sha256CalculateChunk data tmpChunk, ptr.drop room, size - UInt32.ofNat room)
    else
      .error .outOfBounds
  else
    .ok (data, ptr, size)

end Sha256

def sha256Update (data : Sha256ComputeData) (bytes : Bytes) (size : UInt32)
    : Except Fault Sha256ComputeData := do
  let data := { data with dataSize := data.dataSize + size.toUInt64 }
  let (data, ptr, size) ← fillPending data bytes size
  let (data, ptr, size) := blocks data ptr size.toNat
  if data.chunkSize.toNat + size ≤ 64 then
    return { data with
      lastChunk := splice data.lastChunk data.chunkSize.toNat (ptr.take size)
      chunkSize := data.chunkSize + UInt8.ofNat size }
  else
    throw .outOfBounds

namespace Sha256

def lengthBytes (size : UInt64) : Bytes :=
  (toLE 8 size.toNat).reverse

/--
The part of `sha256_finalize` after the padding of the pending bytes.
-/
def finish (data : Sha256ComputeData) : Sha256ComputeData :=
  let data :=
    if 56 < data.chunkSize then
      { sha256CalculateChunk data data.lastChunk with lastChunk := List.replicate 64 0 }
    else
      data
  let data := { data with lastChunk := splice data.lastChunk 56 (lengthBytes (data.dataSize * 8)) }
  sha256CalculateChunk data data.lastChunk

end Sha256

def sha256Finalize (data : Sha256ComputeData) : Except Fault Sha256ComputeData := do
  if 64 ≤ data.chunkSize then
    throw .outOfBounds
  let lastChunk := splice data.lastChunk data.chunkSize.toNat [0x80]
  let chunkSize := data.chunkSize + 1
  let lastChunk :=
    splice lastChunk chunkSize.toNat (List.replicate (64 - chunkSize.toNat) 0)
  return finish { data with lastChunk, chunkSize }

def sha256Output (data : Sha256ComputeData) : Bytes :=
  data.hcomps.flatMap fun (h : UInt32) =>
    [(h >>> 24).toUInt8, (h >>> 16).toUInt8, (h >>> 8).toUInt8, h.toUInt8]

namespace Sha256

def lut : Bytes := ascii "0123456789abcdef"

def binToHex (data : Bytes) : Bytes :=
  data.flatMap fun (c : UInt8) => [lut.getD (c >>> 4).toNat 0, lut.getD (c &&& 15).toNat 0]

end Sha256

def sha256OutputHex (data : Sha256ComputeData) : Bytes :=
  binToHex (sha256Output data)

namespace Sha256

/--
The calls every user of the hash makes on its buffer: the hex digest and the buffer afterwards.
-/
def hashWith (data : Sha256ComputeData) (msg : Bytes) : Except Fault (Bytes × Sha256ComputeData) := do
  let data := sha256ComputeDataInit data
  let data ← sha256Update data msg (UInt32.ofNat msg.length)
  let data ← sha256Finalize data
  return (sha256OutputHex data, data)

def zeroBuff : Sha256ComputeData where
  dataSize := 0
  hcomps := List.replicate 8 0
  lastChunk := List.replicate 64 0
  chunkSize := 0

def digest (msg : Bytes) : Bytes :=
  match hashWith zeroBuff msg with
  | .ok (hex, _) => hex
  | .error _ => []

end Sha256

end Btide
