/-!
# UTF-8

`scan` reads octets one at a time and answers each well-formed sequence with its character and each
longest start of one that breaks off with `none`. Reading strictly refuses every `none`, reading
leniently puts the replacement character in its place.
-/

namespace PlanArchive

abbrev Bytes := List UInt8

namespace Text.Utf8

def encode (cs : List Char) : Bytes := cs.flatMap String.utf8EncodeChar

/-- A sequence under way: how many octets it still needs, the bits so far, and the range of the
next octet. -/
structure Pending where
  need : Nat
  bits : Nat
  low : UInt8
  high : UInt8

inductive Lead
  | char (c : Char)
  | more (pending : Pending)
  | bad

/-- What an octet can begin. Overlong forms, surrogates and numbers above the last code point are
cut off by the range of the second octet. -/
def lead (b : UInt8) : Lead :=
  if b < 0x80 then .char (Char.ofNat b.toNat)
  else if b < 0xC2 then .bad
  else if b < 0xE0 then .more ⟨1, b.toNat - 0xC0, 0x80, 0xBF⟩
  else if b < 0xF0 then
    .more ⟨2, b.toNat - 0xE0, if b = 0xE0 then 0xA0 else 0x80, if b = 0xED then 0x9F else 0xBF⟩
  else if b < 0xF5 then
    .more ⟨3, b.toNat - 0xF0, if b = 0xF0 then 0x90 else 0x80, if b = 0xF4 then 0x8F else 0xBF⟩
  else .bad

def scan : Option Pending → Bytes → List (Option Char)
  | none, [] => []
  | some _, [] => [none]
  | none, b :: rest =>
    match lead b with
    | .char c => some c :: scan none rest
    | .more p => scan (some p) rest
    | .bad => none :: scan none rest
  | some p, b :: rest =>
    if p.low ≤ b ∧ b ≤ p.high then
      let bits := p.bits * 64 + b.toNat % 64
      if p.need ≤ 1 then some (Char.ofNat bits) :: scan none rest
      else scan (some ⟨p.need - 1, bits, 0x80, 0xBF⟩) rest
    else
      none :: match lead b with
        | .char c => some c :: scan none rest
        | .more q => scan (some q) rest
        | .bad => none :: scan none rest

def decode? (bytes : Bytes) : Option (List Char) := (scan none bytes).mapM id

def decodeLossy (bytes : Bytes) : List Char :=
  (scan none bytes).map (·.getD (Char.ofNat 0xFFFD))

theorem encode_append (a b : List Char) : encode (a ++ b) = encode a ++ encode b :=
  List.flatMap_append

end Text.Utf8

/-- The octets of a text in UTF-8. -/
def utf8 (s : String) : Bytes := Text.Utf8.encode s.toList

end PlanArchive
