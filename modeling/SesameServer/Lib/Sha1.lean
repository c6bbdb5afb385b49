import SesameServer.Lib.Sha256

/- SHA-1 (FIPS 180-4) and its HMAC (RFC 2104), over the words, the padding and the block of
   `Lib/Sha256`. -/
namespace Sha1
open Sha256 (Word)

structure State where
  a : Word
  b : Word
  c : Word
  d : Word
  e : Word

def initial : State := ⟨0x67452301, 0xefcdab89, 0x98badcfe, 0x10325476, 0xc3d2e1f0⟩

def parity (x y z : Word) : Word := x ^^^ y ^^^ z

/-- The function and the constant of each twenty rounds. -/
def quarters : List ((Word → Word → Word → Word) × Word) :=
  [(Sha256.ch, 0x5a827999), (parity, 0x6ed9eba1), (Sha256.maj, 0x8f1bbcdc), (parity, 0xca62c1d6)]

def rotl (x : Word) (n : Nat) : Word := Sha256.rotr x (32 - n)

def round (f : Word → Word → Word → Word) (k : Word) (s : State) (window : List Word) :
    State × List Word :=
  let w := window.getD 0 0
  let next := rotl (window.getD 13 0 ^^^ window.getD 8 0 ^^^ window.getD 2 0 ^^^ w) 1
  (⟨rotl s.a 5 + f s.b s.c s.d + s.e + k + w, s.a, rotl s.b 30, s.c, s.d⟩, window.drop 1 ++ [next])

def compress (s : State) (block : List Word) : State :=
  let rounds := quarters.flatMap (List.replicate 20)
  let t := (rounds.foldl (fun r q => round q.1 q.2 r.1 r.2) (s, block)).1
  ⟨s.a + t.a, s.b + t.b, s.c + t.c, s.d + t.d, s.e + t.e⟩

def absorb : Nat → State → List Word → State
  | 0, s, _ => s
  | blocks + 1, s, message => absorb blocks (compress s (message.take 16)) (message.drop 16)

/-- `sha1.Sum`. -/
def sum (message : Bytes) : Bytes :=
  let padded := Sha256.pad message
  let s := absorb (padded.length / 64) initial (Sha256.words padded)
  [s.a, s.b, s.c, s.d, s.e].flatMap Sha256.wordBytes

/-- `hmac.New(sha1.New, key)`, written to and summed. -/
def hmac (key message : Bytes) : Bytes :=
  let key := if 64 < key.length then sum key else key
  let block := key ++ List.replicate (64 - key.length) 0
  sum (block.map (· ^^^ 0x5c) ++ sum (block.map (· ^^^ 0x36) ++ message))

/-- The second vector of RFC 2202. -/
example : hmac (utf8 "Jefe") (utf8 "what do ya want for nothing?") =
    [0xef, 0xfc, 0xdf, 0x6a, 0xe5, 0xeb, 0x2f, 0xa2, 0xd2, 0x74, 0x16, 0xd5, 0xf1, 0x84, 0xdf,
      0x9c, 0x25, 0x9a, 0x7c, 0x79] := by
  decide +kernel

end Sha1
