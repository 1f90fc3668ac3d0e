import PlanArchive.Text.Utf8

/-!
# Numeric references

How a character is written in a charset that has no octets for it.
-/

namespace PlanArchive.Charset

/-- The number of a character between `&#` and a semicolon. -/
def numericReference (c : Char) : Bytes :=
  Text.Utf8.encode ("&#".toList ++ (Nat.toDigits 10 c.toNat ++ [';']))

end PlanArchive.Charset
