import Mathlib.Data.List.Lex

namespace AqEngine.Lib

/-- A 128 bit identifier as its sixteen bytes, most significant first. -/
structure Uuid where
  bytes : List UInt8
  length_bytes : bytes.length = 16
  deriving DecidableEq

namespace Uuid

instance : LinearOrder Uuid :=
  .lift' (fun id => id.bytes.map UInt8.toNat) fun a b h => by
    have hbytes := List.map_injective_iff.2 (fun _ _ => UInt8.toNat_inj.1) h
    cases a
    cases b
    cases hbytes
    rfl

instance : Inhabited Uuid := ⟨⟨List.replicate 16 0, rfl⟩⟩

def fromSlice (b : List UInt8) : Option Uuid :=
  if h : b.length = 16 then some ⟨b, h⟩ else none

def hexDigit (n : Nat) : Char :=
  if n < 10 then Char.ofNat ('0'.toNat + n) else Char.ofNat ('a'.toNat + (n - 10))

def hexByte (b : UInt8) : List Char := [hexDigit (b.toNat / 16), hexDigit (b.toNat % 16)]

/-- The lower case hyphenated text, groups of 4, 2, 2, 2 and 6 bytes. -/
def toString (u : Uuid) : String :=
  String.ofList <|
    (u.bytes.take 4).flatMap hexByte ++ '-' ::
    ((u.bytes.drop 4).take 2).flatMap hexByte ++ '-' ::
    ((u.bytes.drop 6).take 2).flatMap hexByte ++ '-' ::
    ((u.bytes.drop 8).take 2).flatMap hexByte ++ '-' ::
    (u.bytes.drop 10).flatMap hexByte

def hexValue (c : Char) : Option Nat :=
  if '0' ≤ c ∧ c ≤ '9' then some (c.toNat - '0'.toNat)
  else if 'a' ≤ c ∧ c ≤ 'f' then some (c.toNat - 'a'.toNat + 10)
  else if 'A' ≤ c ∧ c ≤ 'F' then some (c.toNat - 'A'.toNat + 10)
  else none

def parseBytes : List Char → Option (List UInt8)
  | [] => some []
  | [_] => none
  | c :: d :: cs => do
      let hi ← hexValue c
      let lo ← hexValue d
      let rest ← parseBytes cs
      some (UInt8.ofNat (hi * 16 + lo) :: rest)

def parseSimple (cs : List Char) : Option Uuid := parseBytes cs >>= fromSlice

def parseHyphenated (cs : List Char) : Option Uuid :=
  if [8, 13, 18, 23].all (fun i => cs[i]? == some '-') then
    parseSimple (cs.take 8 ++ (cs.drop 9).take 4 ++ (cs.drop 14).take 4 ++
      (cs.drop 19).take 4 ++ cs.drop 24)
  else none

/-- Accepted texts are the 32 digits alone, or the hyphenated form plain,
in braces or after the uniform resource name header. -/
def parseStr (s : String) : Option Uuid :=
  let cs := s.toList
  if cs.length = 32 then parseSimple cs
  else if cs.length = 36 then parseHyphenated cs
  else if cs.length = 38 ∧ cs.head? = some '\x7b' ∧ cs.getLast? = some '\x7d' then
    parseHyphenated ((cs.drop 1).take 36)
  else if cs.length = 45 ∧ cs.take 9 = "urn:uuid:".toList then parseHyphenated (cs.drop 9)
  else none

end Uuid

end AqEngine.Lib
