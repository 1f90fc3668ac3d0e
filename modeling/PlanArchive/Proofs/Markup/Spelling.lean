import Mathlib.Data.Bool.AllAny
import Mathlib.Tactic.IntervalCases
import PlanArchive.Proofs.Markup.Escape
import PlanArchive.Proofs.Markup.Name

/-!
# Characters spelled by number

Not every charset has all characters. One that it lacks is spelled as a reference to its number,
wherever it stands. The reader of references reads escaped text back whatever is spelled so
(`unescape_spelled`). Names hold no ampersand, so their spelling can be told apart
(`Spelling.name_injective`).
-/

namespace PlanArchive.Markup

/-! ## Decimal numbers -/

/-- A digit is taken in as long as the number stays small. -/
theorem readDigits_digitChar {n d : Nat} (hd : d < 10) (h : n * 10 + d < 0x100000000)
    (rest : List Char) :
    readDigits 10 n (d.digitChar :: rest) = readDigits 10 (n * 10 + d) rest := by
  interval_cases d <;> exact if_pos h

theorem readDigits_toDigits {n : Nat} (h : n < 0x100000000) (rest : List Char) :
    readDigits 10 0 (Nat.toDigits 10 n ++ rest) = readDigits 10 n rest := by
  induction n using Nat.strongRecOn generalizing rest with
  | ind n ih =>
    by_cases hn : n < 10
    · rw [Nat.toDigits_of_lt_base hn, List.singleton_append,
        readDigits_digitChar hn (by omega), Nat.zero_mul, Nat.zero_add]
    · have hlast : n % 10 < 10 := Nat.mod_lt _ (by omega)
      have hback : n / 10 * 10 + n % 10 = n := by omega
      rw [Nat.toDigits_of_base_le (by omega) (by omega), List.append_assoc, List.singleton_append,
        ih (n / 10) (by omega) (by omega), readDigits_digitChar hlast (by omega), hback]

/-- The digits of a character's number stand for it. -/
theorem numbered_toDigits {c : Char} (h : c.toNat ≠ 0) :
    numbered (Nat.toDigits 10 c.toNat) = .ok c := by
  have hdigit : ∀ d ∈ Nat.toDigits 10 c.toNat, d.isDigit = true := fun d hd =>
    Nat.isDigit_of_mem_toDigits (by decide) (by decide) hd
  have hvalid : c.toNat < 0xD800 ∨ 0xDFFF < c.toNat ∧ c.toNat < 0x110000 := c.valid
  have hread : readDigits 10 0 (Nat.toDigits 10 c.toNat ++ []) = .ok c.toNat :=
    readDigits_toDigits (by omega) []
  have hback : Char.ofNat c.toNat = c := Char.ofNat_toNat c
  rw [List.append_nil] at hread
  generalize hdigits : Nat.toDigits 10 c.toNat = digits at *
  cases digits with
  | nil => exact absurd hdigits Nat.toDigits_ne_nil
  | cons d digits =>
    have hd := hdigit d (List.mem_cons_self ..)
    have hsign : ¬(d = '+' ∨ d = '-') := by rintro (rfl | rfl) <;> cases hd
    have hnumber : readNumber 10 (d :: digits) = .ok c.toNat := by
      rw [readNumber, if_neg hsign, hread]
    have hhex : d ≠ 'x' := by
      rintro rfl
      cases hd
    unfold numbered
    split
    · rename_i heq
      exact absurd (List.cons.inj heq).1 hhex
    · rw [hnumber]
      show (if c.toNat = 0 then _ else _) = _
      rw [if_neg h, if_pos hvalid, hback]

/-! ## Spellings -/

/-- Which characters are spelled as themselves; ASCII always is. -/
structure Spelling where
  own : Char → Bool
  ascii : ∀ c : Char, c.toNat < 0x80 → own c = true

/-- A character by its number. -/
def reference (c : Char) : List Char := '&' :: '#' :: (Nat.toDigits 10 c.toNat ++ [';'])

namespace Spelling

/-- Everything as itself. -/
def plain : Spelling := ⟨fun _ => true, fun _ _ => rfl⟩

variable (s : Spelling)

def char (c : Char) : List Char := if s.own c then [c] else reference c

def text (cs : List Char) : List Char := cs.flatMap s.char

def name (n : String) : String := String.ofList (s.text n.toList)

/-- Attributes with their keys as they are spelled. -/
def keyed (attributes : List (String × String)) : List (String × String) :=
  attributes.map fun (key, value) => (s.name key, value)

theorem text_nil : s.text [] = [] := rfl

theorem text_cons (c : Char) (cs : List Char) : s.text (c :: cs) = s.char c ++ s.text cs :=
  List.flatMap_cons

theorem text_append (a b : List Char) : s.text (a ++ b) = s.text a ++ s.text b :=
  List.flatMap_append

theorem char_own {c : Char} (h : s.own c = true) : s.char c = [c] := if_pos h

theorem char_ascii {c : Char} (h : c.toNat < 0x80) : s.char c = [c] := s.char_own (s.ascii c h)

theorem text_own {cs : List Char} (h : ∀ c ∈ cs, s.own c = true) : s.text cs = cs := by
  induction cs with
  | nil => rfl
  | cons c cs ih =>
    rw [text_cons, s.char_own (h c (List.mem_cons_self ..)),
      ih fun d hd => h d (List.mem_cons_of_mem _ hd), List.singleton_append]

theorem text_ascii {cs : List Char} (h : ∀ c ∈ cs, c.toNat < 0x80) : s.text cs = cs :=
  s.text_own fun c hc => s.ascii c (h c hc)

theorem text_ascii_cons {c : Char} (h : c.toNat < 0x80) (cs : List Char) :
    s.text (c :: cs) = c :: s.text cs := by
  rw [text_cons, s.char_ascii h, List.singleton_append]

@[simp] theorem text_plain (cs : List Char) : plain.text cs = cs :=
  plain.text_own fun _ _ => rfl

@[simp] theorem name_plain (n : String) : plain.name n = n := by
  rw [name, text_plain, String.ofList_toList]

theorem toList_name (n : String) : (s.name n).toList = s.text n.toList := String.toList_ofList

/-! ### Signs -/

theorem mem_reference {c d : Char} (h : d ∈ reference c) :
    d ∈ ['&', '#', ';'] ∨ d.isDigit = true := by
  have hdigit : d ∈ Nat.toDigits 10 c.toNat → d.isDigit = true := fun hd =>
    Nat.isDigit_of_mem_toDigits (by decide) (by decide) hd
  simp only [reference, List.mem_cons, List.mem_append, List.not_mem_nil, or_false] at h ⊢
  rcases h with h | h | h | h
  · exact .inl (.inl h)
  · exact .inl (.inr (.inl h))
  · exact .inr (hdigit h)
  · exact .inl (.inr (.inr h))

theorem toNat_lt_of_mem_reference {c d : Char} (h : d ∈ reference c) : d.toNat < 0x80 := by
  rcases mem_reference h with hmark | hdigit
  · have hall : ∀ d ∈ ['&', '#', ';'], d.toNat < 0x80 := List.all_iff_forall_prop.mp (by decide)
    exact hall d hmark
  · exact Nat.lt_of_le_of_lt (Char.isDigit_iff_toNat.mp hdigit).2 (by decide)

theorem not_mem_reference {d : Char} (h : d ∈ signs) (c : Char) : d ∉ reference c := by
  intro hd
  have hall : ∀ d ∈ signs, d ∉ ['&', '#', ';'] ∧ d.isDigit = false :=
    List.all_iff_forall_prop.mp (by decide)
  obtain ⟨hmark, hdigit⟩ := hall d h
  rcases mem_reference hd with hd | hd
  · exact hmark hd
  · rw [hdigit] at hd
    cases hd

theorem not_mem_text {d : Char} (h : d ∈ signs) {cs : List Char} (hcs : d ∉ cs) :
    d ∉ s.text cs := by
  intro hd
  obtain ⟨c, hc, hd⟩ := List.mem_flatMap.mp hd
  unfold char at hd
  split at hd
  · exact hcs (List.mem_singleton.mp hd ▸ hc)
  · exact not_mem_reference h c hd

theorem not_sign_spelled {n : String} (h : isName n = true) {d : Char} (hd : d ∈ s.text n.toList) :
    d ∉ signs := fun hsign =>
  s.not_mem_text hsign (fun hmem => not_sign_of_mem h hmem hsign) hd

theorem char_ne_nil (c : Char) : s.char c ≠ [] := by
  unfold char reference
  split <;> exact List.cons_ne_nil _ _

theorem text_eq_nil_iff {cs : List Char} : s.text cs = [] ↔ cs = [] := by
  cases cs with
  | nil => simp [text]
  | cons c cs => simp [text_cons, s.char_ne_nil c]

theorem exists_cons_spelled {n : String} (h : isName n = true) :
    ∃ c rest, s.text n.toList = c :: rest := by
  obtain ⟨c, rest, hn⟩ := exists_cons_of_isName h
  rw [hn, text_cons]
  cases hc : s.char c with
  | nil => exact absurd hc (s.char_ne_nil c)
  | cons d more => exact ⟨d, more ++ s.text rest, rfl⟩

/-- Spelling keeps the lines. -/
theorem count_text (cs : List Char) : (s.text cs).count '\n' = cs.count '\n' := by
  induction cs with
  | nil => rfl
  | cons c cs ih =>
    rw [text_cons, List.count_append, ih, ← List.singleton_append, List.count_append]
    congr 1
    unfold char
    split
    · rfl
    · rename_i hown
      have hc : c ≠ '\n' := by
        rintro rfl
        exact hown (s.ascii _ (by decide))
      rw [List.count_eq_zero_of_not_mem (not_mem_reference (by decide) c),
        List.count_eq_zero_of_not_mem fun hmem => hc (List.mem_singleton.mp hmem).symm]

/-! ### Reading back -/

/-- A character that is no ampersand is read back from its spelling. -/
theorem unescapeFrom_char {c : Char} (hc : c ≠ '&') {rest out : List Char} {total : Nat}
    (hrest : ∀ pos, unescapeFrom total pos none rest = .ok out) (pos : Nat) :
    unescapeFrom total pos none (s.char c ++ rest) = .ok (c :: out) := by
  unfold char
  split
  · rw [List.singleton_append, unescapeFrom, if_neg hc, hrest]
    rfl
  · rename_i hown
    have hzero : c.toNat ≠ 0 := fun h => hown (s.ascii c (by omega))
    have hplain : ∀ d ∈ '#' :: Nat.toDigits 10 c.toNat, d ≠ ';' ∧ d ≠ '&' := by
      refine List.forall_mem_cons.mpr ⟨by decide, fun d hd => ?_⟩
      have hdigit : d.isDigit = true := Nat.isDigit_of_mem_toDigits (by decide) (by decide) hd
      constructor <;> rintro rfl <;> cases hdigit
    obtain ⟨stop, hstop⟩ := unescapeFrom_name total pos hplain (pos + 1) [] rest
    have hread : ∀ start stop, referred start stop ('#' :: Nat.toDigits 10 c.toNat) = .ok c := by
      intro start stop
      rw [referred, numbered_toDigits hzero]
    have hshape : reference c ++ rest =
        '&' :: (('#' :: Nat.toDigits 10 c.toNat) ++ ';' :: rest) := by
      simp [reference]
    rw [hshape, unescapeFrom, if_pos rfl, hstop, List.reverse_nil, List.nil_append, hread, hrest]
    rfl

theorem unescapeFrom_spelled (total : Nat) (cs : List Char) (pos : Nat) :
    unescapeFrom total pos none (s.text (escape cs)) = .ok cs := by
  induction cs generalizing pos with
  | nil => rfl
  | cons c cs ih =>
    have hcons : escape (c :: cs) = escapeChar c ++ escape cs := rfl
    rw [hcons, text_append]
    rcases escapeChar_cases c with ⟨hc, he⟩ | ⟨name, hmem, he, hnamed⟩
    · have hne : c ≠ '&' := fun h => hc (by simp [escaped, h])
      have hone : s.text [c] = s.char c := List.append_nil _
      rw [he, hone]
      exact s.unescapeFrom_char hne (fun pos => ih pos) pos
    · have hascii : s.text (escapeChar c) = escapeChar c := by
        refine s.text_ascii ?_
        have hall : ∀ name ∈ entityNames, ('&' :: name ++ [';']).all (·.toNat < 0x80) := by decide
        rw [he]
        exact List.all_iff_forall_prop.mp (hall name hmem)
      have hplain : ∀ d ∈ name, d ≠ ';' ∧ d ≠ '&' := fun d hd =>
        have h := plain_of_mem_entityNames name hmem d hd
        ⟨h.2, fun e => h.1 (by simp [escaped, e])⟩
      obtain ⟨stop, hstop⟩ := unescapeFrom_name total pos hplain (pos + 1) [] (s.text (escape cs))
      rw [hascii, he, List.cons_append, List.cons_append, List.append_assoc,
        List.singleton_append, unescapeFrom, if_pos rfl, hstop, List.reverse_nil, List.nil_append,
        referred_of_named hmem hnamed, ih]
      rfl

/-- Escaped text is read back whatever is spelled by number. -/
theorem unescape_spelled (cs : List Char) : unescape (s.text (escape cs)) = .ok cs :=
  s.unescapeFrom_spelled _ cs 0

theorem unescape_text {cs : List Char} (h : '&' ∉ cs) : unescape (s.text cs) = .ok cs := by
  unfold unescape
  generalize octets (s.text cs) = total
  have hall : ∀ pos, unescapeFrom total pos none (s.text cs) = .ok cs := by
    induction cs with
    | nil => exact fun _ => rfl
    | cons c cs ih =>
      simp only [List.mem_cons, not_or] at h
      rw [text_cons]
      exact s.unescapeFrom_char (Ne.symm h.1) (ih h.2)
  exact hall 0

theorem not_mem_name {n : String} (h : isName n = true) : '&' ∉ n.toList := fun hmem => by
  have hgoes := goesOn_of_mem h hmem
  have hnot : goesOn '&' = false := by decide +kernel
  rw [hnot] at hgoes
  cases hgoes

/-- Different names are spelled differently. -/
theorem name_injective {m n : String} (hm : isName m = true) (hn : isName n = true)
    (h : s.text m.toList = s.text n.toList) : m = n := by
  have hback := s.unescape_text (not_mem_name hm)
  rw [h, s.unescape_text (not_mem_name hn)] at hback
  exact (String.toList_inj.mp (Except.ok.inj hback)).symm

theorem length_le_text (cs : List Char) : cs.length ≤ (s.text cs).length := by
  induction cs with
  | nil => exact Nat.le_refl 0
  | cons c cs ih =>
    have hone : 1 ≤ (s.char c).length := List.length_pos_iff.mpr (s.char_ne_nil c)
    rw [text_cons, List.length_append, List.length_cons]
    omega

theorem text_eq_self_iff {cs : List Char} : s.text cs = cs ↔ ∀ c ∈ cs, s.own c = true := by
  refine ⟨fun h => ?_, s.text_own⟩
  induction cs with
  | nil => exact List.forall_mem_nil _
  | cons c cs ih =>
    rw [text_cons] at h
    cases hown : s.own c with
    | true =>
      rw [s.char_own hown] at h
      exact List.forall_mem_cons.mpr ⟨hown, ih (List.cons.inj h).2⟩
    | false =>
      -- a reference is longer than one character
      have hshort := congrArg List.length h
      have hrest := s.length_le_text cs
      have hlong : 1 < (s.char c).length := by simp [char, hown, reference]
      rw [List.length_append, List.length_cons] at hshort
      omega

/-- A name is spelled as itself just when all its characters are. -/
theorem name_eq_self_iff {n : String} : s.name n = n ↔ ∀ c ∈ n.toList, s.own c = true := by
  rw [← String.toList_inj, toList_name, text_eq_self_iff]

end Spelling

end PlanArchive.Markup
