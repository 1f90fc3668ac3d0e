import PlanArchive.Charset.Codec
import PlanArchive.Charset.SingleByte

/-!
# Charsets

How the characters of a file become octets and back. Text is written in UTF-8, in a charset of one
octet or in one of the East Asian charsets; UTF-16 and the replacement charset are only read. The
East Asian charsets come with a codec from outside. In a charset of one octet a character without an
octet of its own is written as a numeric reference.
-/

namespace PlanArchive

inductive Charset
  | utf8 | utf16le | utf16be | replacement
  | single (charset : SingleByte)
  | eastAsian (charset : EastAsian) (codec : Codec)

def SingleByte.name : SingleByte → String
  | .ibm866 => "IBM866"
  | .latin2 => "ISO-8859-2"
  | .latin3 => "ISO-8859-3"
  | .latin4 => "ISO-8859-4"
  | .cyrillic => "ISO-8859-5"
  | .arabic => "ISO-8859-6"
  | .greek => "ISO-8859-7"
  | .hebrew => "ISO-8859-8"
  | .hebrewLogical => "ISO-8859-8-I"
  | .latin6 => "ISO-8859-10"
  | .latin7 => "ISO-8859-13"
  | .latin8 => "ISO-8859-14"
  | .latin9 => "ISO-8859-15"
  | .latin10 => "ISO-8859-16"
  | .koi8r => "KOI8-R"
  | .koi8u => "KOI8-U"
  | .macintosh => "macintosh"
  | .windows874 => "windows-874"
  | .windows1250 => "windows-1250"
  | .windows1251 => "windows-1251"
  | .windows1252 => "windows-1252"
  | .windows1253 => "windows-1253"
  | .windows1254 => "windows-1254"
  | .windows1255 => "windows-1255"
  | .windows1256 => "windows-1256"
  | .windows1257 => "windows-1257"
  | .windows1258 => "windows-1258"
  | .macCyrillic => "x-mac-cyrillic"
  | .userDefined => "x-user-defined"

namespace Charset

def name : Charset → String
  | .utf8 => "UTF-8"
  | .utf16le => "UTF-16LE"
  | .utf16be => "UTF-16BE"
  | .replacement => "replacement"
  | .single charset => charset.name
  | .eastAsian charset _ => charset.name

def isWritable : Charset → Bool
  | .utf16le | .utf16be | .replacement => false
  | _ => true

/-- What is asked of the codec of an East Asian charset. The others keep ASCII anyway. -/
def KeepsAscii : Charset → Prop
  | .eastAsian _ codec => codec.KeepsAscii
  | _ => True

/-- The octets of a text, in UTF-8 where the charset is only read. -/
def octetsOf : Charset → List Char → Bytes
  | .single charset, text =>
    text.flatMap fun c => (charset.encodeChar c).elim (numericReference c) ([·])
  | .eastAsian _ codec, text => codec.encode text
  | _, text => Text.Utf8.encode text

/-- Nothing where the charset is only read. -/
def encode? (charset : Charset) (text : List Char) : Option Bytes :=
  if charset.isWritable then some (charset.octetsOf text) else none

def units (bigEndian : Bool) : Bytes → Option (List Nat)
  | [] => some []
  | [_] => none
  | a :: b :: rest =>
    let unit := if bigEndian then a.toNat * 256 + b.toNat else b.toNat * 256 + a.toNat
    (units bigEndian rest).map (unit :: ·)

/-- Joins each high surrogate with the low one that must follow it. -/
def joinUnits : List Nat → Option (List Char)
  | [] => some []
  | u :: rest =>
    if u < 0xD800 ∨ 0xDFFF < u then (joinUnits rest).map (Char.ofNat u :: ·)
    else match rest with
      | v :: rest =>
        if u ≤ 0xDBFF ∧ 0xDC00 ≤ v ∧ v ≤ 0xDFFF then
          (joinUnits rest).map (Char.ofNat (0x10000 + (u - 0xD800) * 1024 + (v - 0xDC00)) :: ·)
        else none
      | [] => none

/-- The byte order mark of a charset that has one. -/
def mark : Charset → Bytes
  | .utf8 => [0xEF, 0xBB, 0xBF]
  | .utf16le => [0xFF, 0xFE]
  | .utf16be => [0xFE, 0xFF]
  | _ => []

def dropMark (charset : Charset) (bytes : Bytes) : Bytes :=
  if charset.mark.isPrefixOf bytes then bytes.drop charset.mark.length else bytes

/-- The text of octets that are well formed throughout. A byte order mark at the start is
dropped. -/
def decode? (charset : Charset) (bytes : Bytes) : Option (List Char) :=
  let body := charset.dropMark bytes
  match charset with
  | .utf8 => Text.Utf8.decode? body
  | .utf16le => (units false body).bind joinUnits
  | .utf16be => (units true body).bind joinUnits
  | .replacement => if body.isEmpty then some [] else none
  | .single charset => body.mapM charset.decodeByte
  | .eastAsian _ codec => codec.decode? body

end Charset

end PlanArchive
