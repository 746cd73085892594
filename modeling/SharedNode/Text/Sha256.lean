import SharedNode.Text.Bytes

/-!
# SHA-256

The hash function, over numbers below `2 ^ 32`, with the lower-case hexadecimal text that Go's
`hex.EncodeToString` and Node's `digest("hex")` give of it. Proofs only use that the text has 64
hexadecimal digits (`sha256_length`, `sha256_all`); it is defined so that runs can be evaluated.
-/

namespace SharedNode.Text

namespace Sha256

def add (x y : Nat) : Nat := (x + y) % 0x100000000

/-- Rotation of a word to the right. -/
def rotr (n x : Nat) : Nat := (x >>> n) ||| ((x <<< (32 - n)) % 0x100000000)

def ch (x y z : Nat) : Nat := (x &&& y) ^^^ ((0xffffffff - x) &&& z)

def maj (x y z : Nat) : Nat := (x &&& y) ^^^ (x &&& z) ^^^ (y &&& z)

structure State where
  a : Nat
  b : Nat
  c : Nat
  d : Nat
  e : Nat
  f : Nat
  g : Nat
  h : Nat
  deriving DecidableEq

def initial : State :=
  ⟨0x6a09e667, 0xbb67ae85, 0x3c6ef372, 0xa54ff53a, 0x510e527f, 0x9b05688c, 0x1f83d9ab, 0x5be0cd19⟩

def constants : List Nat :=
  [0x428a2f98, 0x71374491, 0xb5c0fbcf, 0xe9b5dba5, 0x3956c25b, 0x59f111f1, 0x923f82a4, 0xab1c5ed5,
   0xd807aa98, 0x12835b01, 0x243185be, 0x550c7dc3, 0x72be5d74, 0x80deb1fe, 0x9bdc06a7, 0xc19bf174,
   0xe49b69c1, 0xefbe4786, 0x0fc19dc6, 0x240ca1cc, 0x2de92c6f, 0x4a7484aa, 0x5cb0a9dc, 0x76f988da,
   0x983e5152, 0xa831c66d, 0xb00327c8, 0xbf597fc7, 0xc6e00bf3, 0xd5a79147, 0x06ca6351, 0x14292967,
   0x27b70a85, 0x2e1b2138, 0x4d2c6dfc, 0x53380d13, 0x650a7354, 0x766a0abb, 0x81c2c92e, 0x92722c85,
   0xa2bfe8a1, 0xa81a664b, 0xc24b8b70, 0xc76c51a3, 0xd192e819, 0xd6990624, 0xf40e3585, 0x106aa070,
   0x19a4c116, 0x1e376c08, 0x2748774c, 0x34b0bcb5, 0x391c0cb3, 0x4ed8aa4a, 0x5b9cca4f, 0x682e6ff3,
   0x748f82ee, 0x78a5636f, 0x84c87814, 0x8cc70208, 0x90befffa, 0xa4506ceb, 0xbef9a3f7, 0xc67178f2]

/-- One round, with its constant and its word of the message schedule. -/
def round (s : State) (k w : Nat) : State :=
  let s1 := rotr 6 s.e ^^^ rotr 11 s.e ^^^ rotr 25 s.e
  let s0 := rotr 2 s.a ^^^ rotr 13 s.a ^^^ rotr 22 s.a
  let t1 := add (add (add (add s.h s1) (ch s.e s.f s.g)) k) w
  let t2 := add s0 (maj s.a s.b s.c)
  ⟨add t1 t2, s.a, s.b, s.c, add s.d t1, s.e, s.f, s.g⟩

/-- The word of the message schedule after the sixteen `ws`. -/
def nextWord (ws : List Nat) : Nat :=
  let x := ws.getD 1 0
  let y := ws.getD 14 0
  let s0 := rotr 7 x ^^^ rotr 18 x ^^^ (x >>> 3)
  let s1 := rotr 17 y ^^^ rotr 19 y ^^^ (y >>> 10)
  add (add (add s1 (ws.getD 9 0)) s0) (ws.getD 0 0)

/-- The rounds with the constants `ks`; `ws` are the next sixteen words of the schedule. -/
def rounds : List Nat → List Nat → State → State
  | [], _, s => s
  | k :: ks, ws, s => rounds ks (ws.tail ++ [nextWord ws]) (round s k (ws.headD 0))

def block (s : State) (ws : List Nat) : State :=
  let r := rounds constants ws s
  ⟨add s.a r.a, add s.b r.b, add s.c r.c, add s.d r.d, add s.e r.e, add s.f r.f, add s.g r.g,
    add s.h r.h⟩

/-- The first `n` blocks. -/
def blocks : Nat → List Nat → State → State
  | 0, _, s => s
  | n + 1, ws, s => blocks n (ws.drop 16) (block s (ws.take 16))

def words : Bytes → List Nat
  | a :: b :: c :: d :: rest =>
    (a.toNat * 0x1000000 + b.toNat * 0x10000 + c.toNat * 0x100 + d.toNat) :: words rest
  | _ => []

/-- The message with its padding and its length in bits. -/
def pad (m : Bytes) : Bytes :=
  let bits : Nat := 8 * m.length
  let zeros : Bytes := List.replicate ((119 - m.length % 64) % 64) 0
  let size : Bytes := [56, 48, 40, 32, 24, 16, 8, 0].map fun s => UInt8.ofNat (bits >>> s)
  m ++ [0x80] ++ zeros ++ size

def digest (m : Bytes) : State := blocks ((pad m).length / 64) (words (pad m)) initial

def hexWord (w : Nat) : Bytes := [28, 24, 20, 16, 12, 8, 4, 0].map fun s =>
    hexDigit ((w >>> s) % 16)

end Sha256

open Sha256 in
/-- The hexadecimal text of the SHA-256 of a message. -/
def sha256 (m : Bytes) : Bytes :=
  let s := digest m
  [s.a, s.b, s.c, s.d, s.e, s.f, s.g, s.h].flatMap hexWord

/-- A hexadecimal digit of either case. -/
def isHex (b : UInt8) : Bool :=
  (0x30 ≤ b && b ≤ 0x39) || (0x61 ≤ b && b ≤ 0x66) || (0x41 ≤ b && b ≤ 0x46)

def validSHA256 (s : Bytes) : Bool := s.length = 64 && s.all isHex

@[simp] theorem sha256_length (m : Bytes) : (sha256 m).length = 64 := by
  simp [sha256, Sha256.hexWord]

theorem sha256_all {p : UInt8 → Bool} (h : ∀ k < 16, p (hexDigit k)) (m : Bytes) :
    (sha256 m).all p = true := by
  have hdigit : ∀ n, p (hexDigit (n % 16)) = true := fun n => h _ (Nat.mod_lt n (by decide))
  simp [sha256, Sha256.hexWord, hdigit]

theorem validSHA256_sha256 (m : Bytes) : validSHA256 (sha256 m) = true := by
  rw [validSHA256, sha256_length, sha256_all (by decide)]
  rfl

open Sha256 in
/-- HMAC with SHA-256, for a key of at most 64 bytes. -/
def hmacSha256 (key message : Bytes) : Bytes :=
  let padded := key ++ List.replicate (64 - key.length) 0
  let hash (m : Bytes) : Bytes :=
    let s := digest m
    [s.a, s.b, s.c, s.d, s.e, s.f, s.g, s.h].flatMap fun w =>
      [24, 16, 8, 0].map fun n => UInt8.ofNat (w >>> n)
  hash (padded.map (· ^^^ 0x5c) ++ hash (padded.map (· ^^^ 0x36) ++ message))

example : sha256 (lit "abc") =
    lit "ba7816bf8f01cfea414140de5dae2223b00361a396177a9cb410ff61f20015ad" := by
  decide +kernel

end SharedNode.Text
