/-! SHA-256 of a sequence of bytes, as 64 hexadecimal digits. -/
namespace DeclOrder.Digest

def roundConstants : List UInt32 := [
  0x428a2f98, 0x71374491, 0xb5c0fbcf, 0xe9b5dba5, 0x3956c25b, 0x59f111f1, 0x923f82a4, 0xab1c5ed5,
  0xd807aa98, 0x12835b01, 0x243185be, 0x550c7dc3, 0x72be5d74, 0x80deb1fe, 0x9bdc06a7, 0xc19bf174,
  0xe49b69c1, 0xefbe4786, 0x0fc19dc6, 0x240ca1cc, 0x2de92c6f, 0x4a7484aa, 0x5cb0a9dc, 0x76f988da,
  0x983e5152, 0xa831c66d, 0xb00327c8, 0xbf597fc7, 0xc6e00bf3, 0xd5a79147, 0x06ca6351, 0x14292967,
  0x27b70a85, 0x2e1b2138, 0x4d2c6dfc, 0x53380d13, 0x650a7354, 0x766a0abb, 0x81c2c92e, 0x92722c85,
  0xa2bfe8a1, 0xa81a664b, 0xc24b8b70, 0xc76c51a3, 0xd192e819, 0xd6990624, 0xf40e3585, 0x106aa070,
  0x19a4c116, 0x1e376c08, 0x2748774c, 0x34b0bcb5, 0x391c0cb3, 0x4ed8aa4a, 0x5b9cca4f, 0x682e6ff3,
  0x748f82ee, 0x78a5636f, 0x84c87814, 0x8cc70208, 0x90befffa, 0xa4506ceb, 0xbef9a3f7, 0xc67178f2]

structure Chain where
  a : UInt32
  b : UInt32
  c : UInt32
  d : UInt32
  e : UInt32
  f : UInt32
  g : UInt32
  h : UInt32

namespace Chain

def start : Chain :=
  ⟨0x6a09e667, 0xbb67ae85, 0x3c6ef372, 0xa54ff53a, 0x510e527f, 0x9b05688c, 0x1f83d9ab, 0x5be0cd19⟩

def add (x y : Chain) : Chain :=
  ⟨x.a + y.a, x.b + y.b, x.c + y.c, x.d + y.d, x.e + y.e, x.f + y.f, x.g + y.g, x.h + y.h⟩

def words (x : Chain) : List UInt32 := [x.a, x.b, x.c, x.d, x.e, x.f, x.g, x.h]

end Chain

def rotate (x : UInt32) (n : UInt32) : UInt32 := (x >>> n) ||| (x <<< (32 - n))

def round (x : Chain) (step : UInt32 × UInt32) : Chain :=
  let s1 := rotate x.e 6 ^^^ rotate x.e 11 ^^^ rotate x.e 25
  let pick := (x.e &&& x.f) ^^^ ((~~~ x.e) &&& x.g)
  let t1 := x.h + s1 + pick + step.1 + step.2
  let s0 := rotate x.a 2 ^^^ rotate x.a 13 ^^^ rotate x.a 22
  let majority := (x.a &&& x.b) ^^^ (x.a &&& x.c) ^^^ (x.b &&& x.c)
  ⟨t1 + s0 + majority, x.a, x.b, x.c, x.d + t1, x.e, x.f, x.g⟩

/-- The next word of a schedule whose words are given, the latest first. -/
def nextWord (latest : List UInt32) : UInt32 :=
  let at_ (n : Nat) := latest.getD n 0
  let s0 (w : UInt32) := rotate w 7 ^^^ rotate w 18 ^^^ (w >>> 3)
  let s1 (w : UInt32) := rotate w 17 ^^^ rotate w 19 ^^^ (w >>> 10)
  s1 (at_ 1) + at_ 6 + s0 (at_ 14) + at_ 15

def schedule (block : List UInt32) : List UInt32 :=
  ((List.range 48).foldl (fun latest _ => nextWord latest :: latest) block.reverse).reverse

def compress (x : Chain) (block : List UInt32) : Chain :=
  x.add ((roundConstants.zip (schedule block)).foldl round x)

def bigEndian : List UInt8 → UInt32
  | bytes => bytes.foldl (fun w b => (w <<< 8) ||| b.toUInt32) 0

def chunks {α : Type} (n : Nat) : Nat → List α → List (List α)
  | 0, _ => []
  | count + 1, items => items.take n :: chunks n count (items.drop n)

def lengthBytes (bits : Nat) : List UInt8 :=
  (List.range 8).map (fun i => UInt8.ofNat (bits >>> (8 * (7 - i))))

/-- The message with a one bit, zero bits and its length behind it, a multiple of 64 bytes long. -/
def padded (bytes : List UInt8) : List UInt8 :=
  bytes ++ [0x80] ++ List.replicate ((119 - bytes.length % 64) % 64) 0 ++ lengthBytes (8 * bytes.length)

def hexByte (b : UInt8) : List Char := [Nat.digitChar (b.toNat / 16), Nat.digitChar (b.toNat % 16)]

def wordBytes (w : UInt32) : List UInt8 :=
  [(w >>> 24).toUInt8, (w >>> 16).toUInt8, (w >>> 8).toUInt8, w.toUInt8]

def sha256 (bytes : List UInt8) : String :=
  let message := padded bytes
  let blocks := chunks 64 (message.length / 64) message
  let final := blocks.foldl (fun x block => compress x ((chunks 4 16 block).map bigEndian)) .start
  String.ofList ((final.words.flatMap wordBytes).flatMap hexByte)

end DeclOrder.Digest
