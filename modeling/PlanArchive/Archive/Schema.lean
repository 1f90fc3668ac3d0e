import PlanArchive.Digest.Sha1
import PlanArchive.Text.Case

/-!
# The state of the definitions

The version that definitions declare and the checksum of their content. Line ends are not part of
the checksum. Neither has to be as expected, but a mismatch is noted.
-/

namespace PlanArchive

structure Schema where
  declared : String
  checksum : String

inductive Schema.Warning
  | version (expected found : String)
  | checksum (expected found : String)
  deriving DecidableEq

namespace Schema

def isLineEnd (b : UInt8) : Bool := b == 0x0A || b == 0x0D

def checksumOf (content : Bytes) : String := Digest.Sha1.hex (content.filter (!isLineEnd ·))

open Text in
/-- What differs from the expected version and, if there is one, the expected checksum. -/
def verify (schema : Schema) (version : String) (checksum : Option String) : List Warning :=
  (if sameIgnoringCase version schema.declared then [] else [.version version schema.declared]) ++
    match checksum with
    | some expected =>
      if sameIgnoringCase expected schema.checksum then []
      else [.checksum expected schema.checksum]
    | none => []

end Schema

end PlanArchive
