import PlanArchive.Charset.Basic
import PlanArchive.Proofs.Markup.Spelling
import PlanArchive.Proofs.Text.Utf8

/-!
# Charsets of one octet read back

A character that such a charset has is read from its octet (`decodeByte_encodeChar`). A whole text
is read from its octets in the spelling of the charset, where the characters that the charset lacks
have become references (`decode?_octetsOf`).
-/

namespace PlanArchive.SingleByte

open Markup

variable (charset : SingleByte)

theorem length_upper : charset.upper.length = 128 := by cases charset <;> rfl

theorem encodeChar_ascii {c : Char} (h : c.toNat < 0x80) :
    charset.encodeChar c = some (UInt8.ofNat c.toNat) := if_pos h

theorem decodeByte_ascii {c : Char} (h : c.toNat < 0x80) :
    charset.decodeByte (UInt8.ofNat c.toNat) = some c := by
  have hoctet : (UInt8.ofNat c.toNat).toNat = c.toNat := Text.Utf8.toNat_octet (by omega)
  have hlow : UInt8.ofNat c.toNat < 0x80 := by
    rw [UInt8.lt_iff_toNat_lt, hoctet]
    exact h
  rw [decodeByte, if_pos hlow, hoctet, Char.ofNat_toNat]

/-- The octet of a character stands for it. -/
theorem decodeByte_encodeChar {c : Char} {b : UInt8} (h : charset.encodeChar c = some b) :
    charset.decodeByte b = some c := by
  unfold encodeChar at h
  split at h
  · rename_i hlow
    obtain rfl := Option.some.inj h
    exact charset.decodeByte_ascii hlow
  · rename_i hhigh
    obtain ⟨i, hindex, rfl⟩ := Option.map_eq_some_iff.mp h
    obtain ⟨hi, hentry, -⟩ := List.idxOf?_eq_some_iff.mp hindex
    have hlength := charset.length_upper
    have hoctet : (UInt8.ofNat (0x80 + i)).toNat = 0x80 + i := Text.Utf8.toNat_octet (by omega)
    have hnot : ¬UInt8.ofNat (0x80 + i) < 0x80 := by
      rw [UInt8.lt_iff_toNat_lt, hoctet]
      exact Nat.not_lt.mpr (Nat.le_add_right ..)
    have hget : charset.upper[0x80 + i - 0x80]? = some c.toNat := by
      rw [Nat.add_sub_cancel_left, List.getElem?_eq_getElem hi, hentry]
    rw [decodeByte, if_neg hnot, hoctet, hget]
    split
    · rename_i hzero
      have := Option.some.inj hzero
      omega
    · rename_i n _ hn
      rw [← Option.some.inj hn, Char.ofNat_toNat]
    · rename_i hnone
      cases hnone

/-- The characters of the charset are spelled as themselves. -/
def spelling : Spelling where
  own c := (charset.encodeChar c).isSome
  ascii c h := by rw [charset.encodeChar_ascii h, Option.isSome_some]

theorem mapM_decodeByte_ascii {cs : List Char} (h : ∀ c ∈ cs, c.toNat < 0x80) :
    (Text.Utf8.encode cs).mapM charset.decodeByte = some cs := by
  induction cs with
  | nil => rfl
  | cons c cs ih =>
    obtain ⟨hc, hcs⟩ := List.forall_mem_cons.mp h
    have hone : String.utf8EncodeChar c = [UInt8.ofNat c.toNat] := by
      rw [← Text.Utf8.encodeChar_one hc, Char.ofNat_toNat]
    have hencode : Text.Utf8.encode (c :: cs) = UInt8.ofNat c.toNat :: Text.Utf8.encode cs := by
      rw [Text.Utf8.encode, List.flatMap_cons, hone]
      rfl
    rw [hencode, List.mapM_cons, charset.decodeByte_ascii hc, ih hcs]
    rfl

theorem mapM_decodeByte_octetsOf (text : List Char) :
    ((Charset.single charset).octetsOf text).mapM charset.decodeByte =
      some (charset.spelling.text text) := by
  induction text with
  | nil => rfl
  | cons c text ih =>
    have hone : ((charset.encodeChar c).elim (Charset.numericReference c) ([·])).mapM
        charset.decodeByte = some (charset.spelling.char c) := by
      cases hc : charset.encodeChar c with
      | some b =>
        have hown : charset.spelling.own c = true := by simp [spelling, hc]
        rw [charset.spelling.char_own hown, Option.elim_some, List.mapM_cons,
          charset.decodeByte_encodeChar hc]
        rfl
      | none =>
        have hown : ¬charset.spelling.own c = true := by simp [spelling, hc]
        rw [Spelling.char, if_neg hown]
        exact charset.mapM_decodeByte_ascii fun _ => Spelling.toNat_lt_of_mem_reference
    rw [Charset.octetsOf, List.flatMap_cons, List.mapM_append, hone, Spelling.text_cons]
    rw [Charset.octetsOf] at ih
    rw [ih]
    rfl

/-- A text is read from its octets as it is spelled in the charset. -/
theorem decode?_octetsOf (text : List Char) :
    (Charset.single charset).decode? ((Charset.single charset).octetsOf text) =
      some (charset.spelling.text text) :=
  charset.mapM_decodeByte_octetsOf text

end PlanArchive.SingleByte
