import PlanArchive.Charset.NumericReference

/-!
# East Asian charsets

Their characters take several octets, and which octets is a matter of large tables that are no part
of this library: a codec from outside brings them along. Writing never fails, since a character
without octets is written as a reference or replaced. Octets are read as a text or refused as a
whole.
-/

namespace PlanArchive

inductive EastAsian
  | gbk | gb18030 | big5 | eucJp | iso2022Jp | shiftJis | eucKr
  deriving DecidableEq

def EastAsian.name : EastAsian → String
  | .gbk => "GBK"
  | .gb18030 => "gb18030"
  | .big5 => "Big5"
  | .eucJp => "EUC-JP"
  | .iso2022Jp => "ISO-2022-JP"
  | .shiftJis => "Shift_JIS"
  | .eucKr => "EUC-KR"

structure Codec where
  encode : List Char → Bytes
  decode? : Bytes → Option (List Char)

namespace Codec

/-- ASCII but for the controls that shift or start an escape sequence. -/
def isPlain (c : Char) : Bool :=
  c.toNat < 0x80 && c.toNat != 0x0E && c.toNat != 0x0F && c.toNat != 0x1B

theorem ascii_of_isPlain {c : Char} (h : isPlain c) : c.toNat < 0x80 := by
  simp only [isPlain, Bool.and_eq_true, decide_eq_true_eq] at h
  exact h.1.1.1

/-- A text starts in ASCII: a plain character there is an octet of its own, and what stands behind
it is written as if it stood alone. -/
structure KeepsAscii (codec : Codec) : Prop where
  nil : codec.encode [] = []
  cons : ∀ c rest, isPlain c → codec.encode (c :: rest) = UInt8.ofNat c.toNat :: codec.encode rest

theorem KeepsAscii.append {codec : Codec} (hkeeps : codec.KeepsAscii) {front : List Char}
    (h : ∀ c ∈ front, isPlain c) (back : List Char) :
    codec.encode (front ++ back) = codec.encode front ++ codec.encode back := by
  induction front with
  | nil => rw [hkeeps.nil, List.nil_append, List.nil_append]
  | cons c front ih =>
    obtain ⟨hc, hfront⟩ := List.forall_mem_cons.mp h
    rw [List.cons_append, hkeeps.cons c _ hc, hkeeps.cons c _ hc, ih hfront, List.cons_append]

/-- Knows no tables: ASCII alone has octets. -/
def ascii : Codec where
  encode text :=
    text.flatMap fun c =>
      if c.toNat < 0x80 then [UInt8.ofNat c.toNat] else Charset.numericReference c
  decode? bytes := bytes.mapM fun b => if b < 0x80 then some (Char.ofNat b.toNat) else none

theorem ascii_keepsAscii : ascii.KeepsAscii where
  nil := rfl
  cons c rest h := by
    simp [ascii, ascii_of_isPlain h]

end Codec

end PlanArchive
