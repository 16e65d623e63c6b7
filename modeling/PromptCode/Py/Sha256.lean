import PromptCode.Py.Json

/-!
# SHA-256

`hashlib.sha256(data).hexdigest()`, and the keyed hash made from it.  The
development uses two facts about them: a digest is 64 lower-case hexadecimal digits,
and it is a function of the bytes.
-/

namespace PromptCode.Py

namespace Sha256

/-- The fractional parts of the cube roots of the first 64 primes. -/
def roundConstants : List UInt32 :=
  [0x428a2f98, 0x71374491, 0xb5c0fbcf, 0xe9b5dba5, 0x3956c25b, 0x59f111f1,
    0x923f82a4, 0xab1c5ed5, 0xd807aa98, 0x12835b01, 0x243185be, 0x550c7dc3,
    0x72be5d74, 0x80deb1fe, 0x9bdc06a7, 0xc19bf174, 0xe49b69c1, 0xefbe4786,
    0x0fc19dc6, 0x240ca1cc, 0x2de92c6f, 0x4a7484aa, 0x5cb0a9dc, 0x76f988da,
    0x983e5152, 0xa831c66d, 0xb00327c8, 0xbf597fc7, 0xc6e00bf3, 0xd5a79147,
    0x06ca6351, 0x14292967, 0x27b70a85, 0x2e1b2138, 0x4d2c6dfc, 0x53380d13,
    0x650a7354, 0x766a0abb, 0x81c2c92e, 0x92722c85, 0xa2bfe8a1, 0xa81a664b,
    0xc24b8b70, 0xc76c51a3, 0xd192e819, 0xd6990624, 0xf40e3585, 0x106aa070,
    0x19a4c116, 0x1e376c08, 0x2748774c, 0x34b0bcb5, 0x391c0cb3, 0x4ed8aa4a,
    0x5b9cca4f, 0x682e6ff3, 0x748f82ee, 0x78a5636f, 0x84c87814, 0x8cc70208,
    0x90befffa, 0xa4506ceb, 0xbef9a3f7, 0xc67178f2]

structure State where
  a : UInt32
  b : UInt32
  c : UInt32
  d : UInt32
  e : UInt32
  f : UInt32
  g : UInt32
  h : UInt32

def initial : State where
  a := 0x6a09e667
  b := 0xbb67ae85
  c := 0x3c6ef372
  d := 0xa54ff53a
  e := 0x510e527f
  f := 0x9b05688c
  g := 0x1f83d9ab
  h := 0x5be0cd19

def rotr (x : UInt32) (n : UInt32) : UInt32 := (x >>> n) ||| (x <<< (32 - n))

/-- The message with its padding: a one bit, zeros and the length in bits. -/
def pad (data : Bytes) : Bytes :=
  data ++ 0x80 :: (List.replicate ((119 - data.length % 64) % 64) 0 ++
    (List.range 8).map fun i =>
      UInt8.ofNat (data.length * 8 / 256 ^ (7 - i)))

def words : Bytes → List UInt32
  | a :: b :: c :: d :: rest =>
      ((a.toUInt32 <<< 24) ||| (b.toUInt32 <<< 16) ||| (c.toUInt32 <<< 8) |||
        d.toUInt32) :: words rest
  | _ => []

/-- The next word of the message schedule, from the last sixteen, newest
first. -/
def scheduleWord (w : List UInt32) : UInt32 :=
  let w15 := w.getD 14 0
  let w2 := w.getD 1 0
  let s0 := rotr w15 7 ^^^ rotr w15 18 ^^^ (w15 >>> 3)
  let s1 := rotr w2 17 ^^^ rotr w2 19 ^^^ (w2 >>> 10)
  w.getD 15 0 + s0 + w.getD 6 0 + s1

/-- The message schedule, newest word first. -/
def extend : ℕ → List UInt32 → List UInt32
  | 0, w => w
  | n + 1, w => extend n (scheduleWord w :: w)

def round (s : State) (kw : UInt32 × UInt32) : State :=
  let s1 := rotr s.e 6 ^^^ rotr s.e 11 ^^^ rotr s.e 25
  let ch := (s.e &&& s.f) ^^^ (~~~s.e &&& s.g)
  let t1 := s.h + s1 + ch + kw.1 + kw.2
  let s0 := rotr s.a 2 ^^^ rotr s.a 13 ^^^ rotr s.a 22
  let maj := (s.a &&& s.b) ^^^ (s.a &&& s.c) ^^^ (s.b &&& s.c)
  { a := t1 + (s0 + maj), b := s.a, c := s.b, d := s.c
    e := s.d + t1, f := s.e, g := s.f, h := s.g }

def compress (s : State) (block : List UInt32) : State :=
  let t := (roundConstants.zip (extend 48 block.reverse).reverse).foldl round s
  { a := s.a + t.a, b := s.b + t.b, c := s.c + t.c, d := s.d + t.d
    e := s.e + t.e, f := s.f + t.f, g := s.g + t.g, h := s.h + t.h }

def blocks (w : List UInt32) : List (List UInt32) :=
  (List.range (w.length / 16)).map fun i => (w.drop (16 * i)).take 16

def run (data : Bytes) : State := (blocks (words (pad data))).foldl compress initial

/-- The eight hexadecimal digits of a word. -/
def hexWord (w : UInt32) : Str :=
  (List.range 8).map fun i => hexDigit (w.toNat / 16 ^ (7 - i))

/-- The four bytes of a word. -/
def wordBytes (w : UInt32) : Bytes :=
  (List.range 4).map fun i => UInt8.ofNat (w.toNat / 256 ^ (3 - i))

end Sha256

/-- `hashlib.sha256(data).hexdigest()`. -/
def sha256Hex (data : Bytes) : Str :=
  let s := Sha256.run data
  [s.a, s.b, s.c, s.d, s.e, s.f, s.g, s.h].flatMap Sha256.hexWord

/-- `hashlib.sha256(data).digest()`. -/
def sha256Digest (data : Bytes) : Bytes :=
  let s := Sha256.run data
  [s.a, s.b, s.c, s.d, s.e, s.f, s.g, s.h].flatMap Sha256.wordBytes

/-- A key of one block. -/
def hmacKeyBlock (key : Bytes) : Bytes :=
  let k := if 64 < key.length then sha256Digest key else key
  k ++ List.replicate (64 - k.length) 0

/-- `hmac.new(key, msg, hashlib.sha256).hexdigest()`. -/
def hmacSha256Hex (key msg : Bytes) : Str :=
  let block := hmacKeyBlock key
  sha256Hex (block.map (· ^^^ 0x5c) ++ sha256Digest (block.map (· ^^^ 0x36) ++ msg))

theorem sha256Hex_length (data : Bytes) : (sha256Hex data).length = 64 := by
  simp [sha256Hex, Sha256.hexWord]

theorem isHexDigit_of_mem_sha256Hex {data : Bytes} {c : CodePoint}
    (hc : c ∈ sha256Hex data) : isHexDigit c = true := by
  simp only [sha256Hex, List.mem_flatMap, Sha256.hexWord, List.mem_map] at hc
  obtain ⟨w, -, i, -, rfl⟩ := hc
  exact isHexDigit_hexDigit _

theorem isAscii_sha256Hex (data : Bytes) : IsAscii (sha256Hex data) := by
  intro c hc
  have hdigits : IsAscii (lit "0123456789abcdef") := isAscii_of_all (by decide)
  exact hdigits c (of_decide_eq_true (isHexDigit_of_mem_sha256Hex hc))

example : sha256Hex [97, 98, 99] =
    lit "ba7816bf8f01cfea414140de5dae2223b00361a396177a9cb410ff61f20015ad" := by
  decide +kernel

example : hmacSha256Hex (asciiBytes (lit "Jefe"))
      (asciiBytes (lit "what do ya want for nothing?")) =
    lit "5bdcc146bf60754e6a042426089575c75a003f089d2739839dec58b964ec3843" := by
  decide +kernel

end PromptCode.Py
