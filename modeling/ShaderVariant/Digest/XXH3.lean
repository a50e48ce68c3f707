import ShaderVariant.Text.Utf8

/-!
# XXH3, 128 bits

The 128-bit XXH3 hash of a byte sequence, with seed zero and the default secret. Short inputs (up to 16, 128 and
240 bytes) are mixed directly; longer ones run through eight 64-bit lanes, a stripe of 64 bytes at a time.

* `XXH3.hash128` : the hash; `XXH3.Hash128.toHex` : its 32 hexadecimal digits, high half first.
-/

namespace ShaderVariant.XXH3

structure Hash128 where
  low : UInt64
  high : UInt64
  deriving DecidableEq, Repr, Inhabited

def hexDigit (n : Nat) : Char := "0123456789abcdef".toList.getD n '0'

def hex64 (x : UInt64) : Text := (List.range 16).reverse.map fun i => hexDigit ((x.toNat >>> (4 * i)) % 16)

/-- The value in hexadecimal, high half first. -/
def Hash128.toHex (h : Hash128) : String := String.ofList (hex64 h.high ++ hex64 h.low)

def secret : ByteArray := ⟨#[
  0xb8, 0xfe, 0x6c, 0x39, 0x23, 0xa4, 0x4b, 0xbe, 0x7c, 0x01, 0x81, 0x2c, 0xf7, 0x21, 0xad, 0x1c,
  0xde, 0xd4, 0x6d, 0xe9, 0x83, 0x90, 0x97, 0xdb, 0x72, 0x40, 0xa4, 0xa4, 0xb7, 0xb3, 0x67, 0x1f,
  0xcb, 0x79, 0xe6, 0x4e, 0xcc, 0xc0, 0xe5, 0x78, 0x82, 0x5a, 0xd0, 0x7d, 0xcc, 0xff, 0x72, 0x21,
  0xb8, 0x08, 0x46, 0x74, 0xf7, 0x43, 0x24, 0x8e, 0xe0, 0x35, 0x90, 0xe6, 0x81, 0x3a, 0x26, 0x4c,
  0x3c, 0x28, 0x52, 0xbb, 0x91, 0xc3, 0x00, 0xcb, 0x88, 0xd0, 0x65, 0x8b, 0x1b, 0x53, 0x2e, 0xa3,
  0x71, 0x64, 0x48, 0x97, 0xa2, 0x0d, 0xf9, 0x4e, 0x38, 0x19, 0xef, 0x46, 0xa9, 0xde, 0xac, 0xd8,
  0xa8, 0xfa, 0x76, 0x3f, 0xe3, 0x9c, 0x34, 0x3f, 0xf9, 0xdc, 0xbb, 0xc7, 0xc7, 0x0b, 0x4f, 0x1d,
  0x8a, 0x51, 0xe0, 0x4b, 0xcd, 0xb4, 0x59, 0x31, 0xc8, 0x9f, 0x7e, 0xc9, 0xd9, 0x78, 0x73, 0x64,
  0xea, 0xc5, 0xac, 0x83, 0x34, 0xd3, 0xeb, 0xc3, 0xc5, 0x81, 0xa0, 0xff, 0xfa, 0x13, 0x63, 0xeb,
  0x17, 0x0d, 0xdd, 0x51, 0xb7, 0xf0, 0xda, 0x49, 0xd3, 0x16, 0x55, 0x26, 0x29, 0xd4, 0x68, 0x9e,
  0x2b, 0x16, 0xbe, 0x58, 0x7d, 0x47, 0xa1, 0xfc, 0x8f, 0xf8, 0xb8, 0xd1, 0x7a, 0xd0, 0x31, 0xce,
  0x45, 0xcb, 0x3a, 0x8f, 0x95, 0x16, 0x04, 0x28, 0xaf, 0xd7, 0xfb, 0xca, 0xbb, 0x4b, 0x40, 0x7e]⟩

/-! ## Words -/

def prime32A : UInt64 := 0x9E3779B1
def prime32B : UInt64 := 0x85EBCA77
def prime32C : UInt64 := 0xC2B2AE3D
def prime64A : UInt64 := 0x9E3779B185EBCA87
def prime64B : UInt64 := 0xC2B2AE3D27D4EB4F
def prime64C : UInt64 := 0x165667B19E3779F9
def prime64D : UInt64 := 0x85EBCA77C2B2AE63
def prime64E : UInt64 := 0x27D4EB2F165667C5
def mixerA : UInt64 := 0x165667919E3779F9
def mixerB : UInt64 := 0x9FB21C651E98DF25

/-- The byte at `i`, zero past the end. -/
def byteAt (b : ByteArray) (i : Nat) : UInt64 := if h : i < b.size then b[i].toUInt64 else 0

/-- Four bytes from `i` on, least significant first. -/
def read32 (b : ByteArray) (i : Nat) : UInt64 :=
  byteAt b i ||| byteAt b (i + 1) <<< 8 ||| byteAt b (i + 2) <<< 16 ||| byteAt b (i + 3) <<< 24

def read64 (b : ByteArray) (i : Nat) : UInt64 := read32 b i ||| read32 b (i + 4) <<< 32

def low32 (x : UInt64) : UInt64 := x &&& 0xFFFFFFFF

def swap32 (x : UInt64) : UInt64 :=
  (x &&& 0xFF) <<< 24 ||| (x >>> 8 &&& 0xFF) <<< 16 ||| (x >>> 16 &&& 0xFF) <<< 8 ||| (x >>> 24 &&& 0xFF)

def swap64 (x : UInt64) : UInt64 := swap32 (low32 x) <<< 32 ||| swap32 (x >>> 32)

def rotate32 (x : UInt64) (n : UInt64) : UInt64 := low32 (x <<< n ||| x >>> (32 - n))

/-- The full product of two words. -/
def multiply (a b : UInt64) : Hash128 :=
  let p := a.toNat * b.toNat
  ⟨UInt64.ofNat p, UInt64.ofNat (p >>> 64)⟩

/-- The two halves of a product, combined. -/
def fold (a b : UInt64) : UInt64 :=
  let p := multiply a b
  p.low ^^^ p.high

/-- The final mixing of the longer inputs. -/
def avalanche (h : UInt64) : UInt64 :=
  let h := (h ^^^ h >>> 37) * mixerA
  h ^^^ h >>> 32

/-- The final mixing of the shortest inputs. -/
def strongAvalanche (h : UInt64) : UInt64 :=
  let h := (h ^^^ h >>> 33) * prime64B
  let h := (h ^^^ h >>> 29) * prime64C
  h ^^^ h >>> 32

/-! ## Up to 16 bytes -/

def hashEmpty : Hash128 :=
  ⟨strongAvalanche (read64 secret 64 ^^^ read64 secret 72), strongAvalanche (read64 secret 80 ^^^ read64 secret 88)⟩

def hash1to3 (b : ByteArray) : Hash128 :=
  let n := b.size
  let low := byteAt b 0 <<< 16 ||| byteAt b (n / 2) <<< 24 ||| byteAt b (n - 1) ||| UInt64.ofNat n <<< 8
  let high := rotate32 (swap32 low) 13
  ⟨strongAvalanche (low ^^^ (read32 secret 0 ^^^ read32 secret 4)),
    strongAvalanche (high ^^^ (read32 secret 8 ^^^ read32 secret 12))⟩

def hash4to8 (b : ByteArray) : Hash128 :=
  let n := b.size
  let keyed := (read32 b 0 + read32 b (n - 4) <<< 32) ^^^ (read64 secret 16 ^^^ read64 secret 24)
  let p := multiply keyed (prime64A + UInt64.ofNat n <<< 2)
  let high := p.high + p.low <<< 1
  let low := p.low ^^^ high >>> 3
  let low := (low ^^^ low >>> 35) * mixerB
  ⟨low ^^^ low >>> 28, avalanche high⟩

def hash9to16 (b : ByteArray) : Hash128 :=
  let n := b.size
  let first := read64 b 0
  let last := read64 b (n - 8)
  let p := multiply (first ^^^ last ^^^ (read64 secret 32 ^^^ read64 secret 40)) prime64A
  let low := p.low + UInt64.ofNat (n - 1) <<< 54
  let last := last ^^^ (read64 secret 48 ^^^ read64 secret 56)
  let high := p.high + last + low32 last * (prime32B - 1)
  let low := low ^^^ swap64 high
  let q := multiply low prime64B
  ⟨avalanche q.low, avalanche (q.high + high * prime64B)⟩

/-! ## Up to 240 bytes -/

/-- Sixteen bytes from `i` on, mixed with the secret from `s` on. -/
def mix16 (b : ByteArray) (i s : Nat) : UInt64 :=
  fold (read64 b i ^^^ read64 secret s) (read64 b (i + 8) ^^^ read64 secret (s + 8))

/-- Two blocks of sixteen bytes, at `i` and `j`, taken into the running value. -/
def mix32 (b : ByteArray) (acc : Hash128) (i j s : Nat) : Hash128 :=
  ⟨(acc.low + mix16 b i s) ^^^ (read64 b j + read64 b (j + 8)),
    (acc.high + mix16 b j (s + 16)) ^^^ (read64 b i + read64 b (i + 8))⟩

/-- The end of the middle lengths. -/
def finishMiddle (n : Nat) (acc : Hash128) : Hash128 :=
  ⟨avalanche (acc.low + acc.high),
    0 - avalanche (acc.low * prime64A + acc.high * prime64D + UInt64.ofNat n * prime64B)⟩

/-- The value that the running value starts from. -/
def startMiddle (n : Nat) : Hash128 := ⟨UInt64.ofNat n * prime64A, 0⟩

/-- The hash of 17 to 128 bytes: pairs of blocks from the outside in. -/
def hash17to128 (b : ByteArray) : Hash128 :=
  let n := b.size
  let pairs := (List.range ((n - 1) / 32 + 1)).reverse
  finishMiddle n (pairs.foldl (fun acc i => mix32 b acc (16 * i) (n - 16 * (i + 1)) (32 * i)) (startMiddle n))

def hash129to240 (b : ByteArray) : Hash128 :=
  let n := b.size
  let acc := (List.range 4).foldl (fun acc i => mix32 b acc (32 * i) (32 * i + 16) (32 * i)) (startMiddle n)
  let acc : Hash128 := ⟨avalanche acc.low, avalanche acc.high⟩
  let acc := (List.range (n / 32 - 4)).foldl
    (fun acc i => mix32 b acc (32 * (i + 4)) (32 * (i + 4) + 16) (3 + 32 * i)) acc
  finishMiddle n (mix32 b acc (n - 16) (n - 32) 103)

/-! ## Long inputs -/

/-- The eight lanes, before the first stripe. -/
def startLanes : List UInt64 :=
  [prime32C, prime64A, prime64B, prime64C, prime64D, prime32B, prime64E, prime32A]

/-- Two neighbouring lanes after 16 bytes of a stripe: each takes the product of its own halves and the other's
input. -/
def accumulatePair (b : ByteArray) (i s : Nat) (x y : UInt64) : List UInt64 :=
  let v := read64 b i
  let w := read64 b (i + 8)
  let k := v ^^^ read64 secret s
  let l := w ^^^ read64 secret (s + 8)
  [x + w + low32 k * (k >>> 32), y + v + low32 l * (l >>> 32)]

/-- The lanes after the stripe at `i`, with the secret from `s` on. -/
def accumulate (b : ByteArray) : Nat → Nat → List UInt64 → List UInt64
  | i, s, x :: y :: lanes => accumulatePair b i s x y ++ accumulate b (i + 16) (s + 16) lanes
  | _, _, lanes => lanes

/-- The lanes at the end of a block. -/
def scramble : Nat → List UInt64 → List UInt64
  | _, [] => []
  | s, x :: lanes => (x ^^^ x >>> 47 ^^^ read64 secret s) * prime32A :: scramble (s + 8) lanes

def mergeLanes : Nat → UInt64 → List UInt64 → UInt64
  | s, acc, x :: y :: lanes =>
    mergeLanes (s + 16) (acc + fold (x ^^^ read64 secret s) (y ^^^ read64 secret (s + 8))) lanes
  | _, acc, _ => avalanche acc

def accumulateStripes (b : ByteArray) (i count : Nat) (lanes : List UInt64) : List UInt64 :=
  (List.range count).foldl (fun lanes k => accumulate b (i + 64 * k) (8 * k) lanes) lanes

/-- The hash of more than 240 bytes: blocks of 16 stripes, the stripes left over, and the last 64 bytes. -/
def hashLong (b : ByteArray) : Hash128 :=
  let n := b.size
  let blocks := (n - 1) / 1024
  let lanes := (List.range blocks).foldl
    (fun lanes k => scramble 128 (accumulateStripes b (1024 * k) 16 lanes)) startLanes
  let lanes := accumulateStripes b (1024 * blocks) ((n - 1 - 1024 * blocks) / 64) lanes
  let lanes := accumulate b (n - 64) 121 lanes
  ⟨mergeLanes 11 (UInt64.ofNat n * prime64A) lanes, mergeLanes 117 (~~~(UInt64.ofNat n * prime64B)) lanes⟩

def hash128 (bytes : Bytes) : Hash128 :=
  let b : ByteArray := ⟨bytes.toArray⟩
  let n := b.size
  if n = 0 then hashEmpty
  else if n ≤ 3 then hash1to3 b
  else if n ≤ 8 then hash4to8 b
  else if n ≤ 16 then hash9to16 b
  else if n ≤ 128 then hash17to128 b
  else if n ≤ 240 then hash129to240 b
  else hashLong b

end ShaderVariant.XXH3
