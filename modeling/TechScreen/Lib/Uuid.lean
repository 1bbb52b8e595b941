import Mathlib.Data.Nat.Notation

/-!
# Name-Based UUIDs

UUIDs, and the version 5 derivation of a UUID from a namespace and a name: the
SHA-1 digest of the namespace's sixteen bytes followed by the UTF-8 bytes of
the name, cut to 128 bits, with the version and variant fields overwritten.

Everything here computes, so an identifier that a program derives can be
evaluated inside a proof. No theorem depends on how the digest comes out.

## Main definitions

* `Uuid`: A 128-bit identifier.
* `Sha1.sha1`: The SHA-1 digest of a byte string.
* `uuid5`: The version 5 UUID of a name in a namespace.
-/

namespace Lib

structure Uuid where
  bits : BitVec 128
  deriving DecidableEq

/-- The canonical text: 32 hexadecimal digits in groups of 8, 4, 4, 4 and 12. -/
def Uuid.text (u : Uuid) : String :=
  let digits := (Nat.toDigits 16 u.bits.toNat).leftpad 32 '0'
  let group (start size : Nat) : String := String.ofList ((digits.drop start).take size)
  group 0 8 ++ "-" ++ group 8 4 ++ "-" ++ group 12 4 ++ "-" ++ group 16 4 ++ "-" ++ group 20 12

namespace Sha1

/-- The 32-bit word whose bytes are given most significant first. -/
def wordOfBytes : List (BitVec 8) → BitVec 32
  | [] => 0
  | b :: bs => b.setWidth 32 <<< (8 * bs.length) ||| wordOfBytes bs

/-- The last `k` bytes of a number, most significant first. -/
def bytesOfNat (n : Nat) : Nat → List (BitVec 8)
  | 0 => []
  | k + 1 => BitVec.ofNat 8 (n / 256 ^ k) :: bytesOfNat n k

/-- Pad to a multiple of 64 bytes: a one bit, zeros, and the bit length. -/
def pad (msg : List (BitVec 8)) : List (BitVec 8) :=
  msg ++ 0x80#8 :: List.replicate ((119 - msg.length % 64) % 64) 0#8
    ++ bytesOfNat (8 * msg.length) 8

/-- The big-endian words of a byte string. -/
def words : List (BitVec 8) → List (BitVec 32)
  | a :: b :: c :: d :: rest => wordOfBytes [a, b, c, d] :: words rest
  | _ => []

/-- The blocks of sixteen words, `fuel` of them at most. -/
def blocks : Nat → List (BitVec 32) → List (List (BitVec 32))
  | 0, _ => []
  | fuel + 1, ws => if ws = [] then [] else ws.take 16 :: blocks fuel (ws.drop 16)

/-- One more word of the message schedule, which is kept latest first. -/
def extend (ws : List (BitVec 32)) : List (BitVec 32) :=
  (ws.getD 2 0 ^^^ ws.getD 7 0 ^^^ ws.getD 13 0 ^^^ ws.getD 15 0).rotateLeft 1 :: ws

/-- The eighty words of a block's message schedule. -/
def schedule (block : List (BitVec 32)) : List (BitVec 32) :=
  (Nat.repeat extend 64 block.reverse).reverse

structure Digest where
  a : BitVec 32
  b : BitVec 32
  c : BitVec 32
  d : BitVec 32
  e : BitVec 32

/-- The digest before any block. -/
def initial : Digest := ⟨0x67452301, 0xEFCDAB89, 0x98BADCFE, 0x10325476, 0xC3D2E1F0⟩

/-- The bitwise function of round `t` and its constant. -/
def mix (t : Nat) (b c d : BitVec 32) : BitVec 32 × BitVec 32 :=
  if t < 20 then (b &&& c ||| ~~~b &&& d, 0x5A827999)
  else if t < 40 then (b ^^^ c ^^^ d, 0x6ED9EBA1)
  else if t < 60 then (b &&& c ||| b &&& d ||| c &&& d, 0x8F1BBCDC)
  else (b ^^^ c ^^^ d, 0xCA62C1D6)

/-- The rounds from `t` on, one for each word of the schedule. -/
def rounds : Nat → List (BitVec 32) → Digest → Digest
  | _, [], h => h
  | t, w :: ws, h =>
      let fk := mix t h.b h.c h.d
      rounds (t + 1) ws
        ⟨h.a.rotateLeft 5 + fk.1 + h.e + fk.2 + w, h.a, h.b.rotateLeft 30, h.c, h.d⟩

/-- Absorb one block. -/
def compress (h : Digest) (block : List (BitVec 32)) : Digest :=
  let r := rounds 0 (schedule block) h
  ⟨h.a + r.a, h.b + r.b, h.c + r.c, h.d + r.d, h.e + r.e⟩

/-- The SHA-1 digest of a byte string. -/
def sha1 (msg : List (BitVec 8)) : Digest :=
  let ws := words (pad msg)
  (blocks ws.length ws).foldl compress initial

end Sha1

/-- The version 5 UUID of a name in a namespace. -/
def uuid5 (namespaceId : Uuid) (name : String) : Uuid :=
  let h := Sha1.sha1 (Sha1.bytesOfNat namespaceId.bits.toNat 16
    ++ name.toUTF8.toList.map UInt8.toBitVec)
  -- The version nibble becomes 5 and the variant bits become 10.
  ⟨(h.a ++ h.b ++ h.c ++ h.d) &&& 0xFFFFFFFFFFFF0FFF3FFFFFFFFFFFFFFF
    ||| 0x00000000000050008000000000000000⟩

/-- The name `python.org` in the DNS namespace. -/
example : uuid5 ⟨0x6ba7b8109dad11d180b400c04fd430c8⟩ "python.org"
    = ⟨0x886313e13b8a53729b900c9aee199e5d⟩ := by
  decide +kernel

end Lib
