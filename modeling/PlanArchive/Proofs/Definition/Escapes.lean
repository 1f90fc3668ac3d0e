import PlanArchive.Definition.Line
import PlanArchive.Proofs.Text.Utf8
import Mathlib.Data.Nat.Digits.Defs

/-!
# Numbered escapes

A backslash and `u` take the next four characters with them, or as many as there are. Which of
these stand for a character, and for which one, is `Denotes`: four hexadecimal digits that name a
scalar value do, and so do fewer digits at the end of the text and digits behind a plus sign.
-/

namespace PlanArchive.Definition

open Text

/-! ## Numbers -/

/-- Hexadecimal digits, at least one, and the number they write. -/
def Numeral (digits : List Char) (n : Nat) : Prop :=
  digits ≠ [] ∧ ∃ values : List Nat, digits.map Hex.value? = values.map some ∧
    n = Nat.ofDigits 16 values.reverse

theorem Numeral.isSome_of_mem {digits : List Char} {n : Nat} (h : Numeral digits n) {c : Char}
    (hc : c ∈ digits) : (Hex.value? c).isSome := by
  obtain ⟨-, values, hvalues, -⟩ := h
  have hmem : Hex.value? c ∈ values.map some := hvalues ▸ List.mem_map_of_mem hc
  obtain ⟨v, -, hv⟩ := List.mem_map.mp hmem
  rw [← hv]
  rfl

theorem not_numeral_plus (rest : List Char) (n : Nat) : ¬Numeral ('+' :: rest) n :=
  fun h => absurd (h.isSome_of_mem List.mem_cons_self) (by decide)

/-- One more digit of a number. -/
def readDigit (n : Option Nat) (c : Char) : Option Nat := do return (← n) * 16 + (← Hex.value? c)

theorem foldl_readDigit_none (digits : List Char) : digits.foldl readDigit none = none := by
  induction digits with
  | nil => rfl
  | cons c digits ih => exact ih

theorem readDigit_some {m v : Nat} {c : Char} (h : Hex.value? c = some v) :
    readDigit (some m) c = some (m * 16 + v) := by
  simp only [readDigit, h]
  rfl

/-- The first of some digits counts more than all that follow. -/
theorem ofDigits_reverse_cons (v : Nat) (values : List Nat) (m : Nat) :
    Nat.ofDigits 16 (v :: values).reverse + 16 ^ (v :: values).length * m =
      Nat.ofDigits 16 values.reverse + 16 ^ values.length * (m * 16 + v) := by
  rw [List.reverse_cons, Nat.ofDigits_append, Nat.ofDigits_singleton, List.length_reverse,
    List.length_cons, Nat.pow_succ, Nat.mul_add, Nat.mul_comm m, Nat.mul_assoc]
  omega

/-- Digits read behind a number that is `m` so far. -/
theorem foldl_readDigit (digits : List Char) (m n : Nat) :
    digits.foldl readDigit (some m) = some n ↔
      ∃ values : List Nat, digits.map Hex.value? = values.map some ∧
        n = Nat.ofDigits 16 values.reverse + 16 ^ values.length * m := by
  induction digits generalizing m with
  | nil =>
    constructor
    · intro h
      exact ⟨[], rfl, by simpa using (Option.some.inj h).symm⟩
    · rintro ⟨values, hvalues, rfl⟩
      obtain rfl : values = [] := List.map_eq_nil_iff.mp hvalues.symm
      simp
  | cons c digits ih =>
    rw [List.foldl_cons]
    cases hv : Hex.value? c with
    | none =>
      have hstep : readDigit (some m) c = none := by
        simp only [readDigit, hv]
        rfl
      rw [hstep, foldl_readDigit_none]
      constructor
      · intro h
        cases h
      · rintro ⟨values, hvalues, -⟩
        cases values <;> simp [hv] at hvalues
    | some v =>
      rw [readDigit_some hv, ih]
      constructor
      · rintro ⟨values, hvalues, rfl⟩
        exact ⟨v :: values, by simp [hv, hvalues], (ofDigits_reverse_cons v values m).symm⟩
      · rintro ⟨values, hvalues, rfl⟩
        cases values with
        | nil => simp at hvalues
        | cons w values =>
          simp only [List.map_cons, List.cons.injEq, hv, Option.some.injEq] at hvalues
          obtain ⟨rfl, hrest⟩ := hvalues
          exact ⟨values, hrest, ofDigits_reverse_cons v values m⟩

theorem foldl_digits_eq_some_iff {digits : List Char} (h : digits ≠ []) (n : Nat) :
    digits.foldl readDigit (some 0) = some n ↔ Numeral digits n := by
  rw [foldl_readDigit]
  simp only [Nat.mul_zero, Nat.add_zero, Numeral, ne_eq, h, not_false_eq_true, true_and]

/-- A plus sign may stand before a number. -/
theorem codePoint?_eq_some_iff (digits : List Char) (n : Nat) :
    codePoint? digits = some n ↔
      Numeral digits n ∨ ∃ rest, digits = '+' :: rest ∧ Numeral rest n := by
  have hbody (body : List Char) :
      (if body.isEmpty then none else body.foldl readDigit (some 0)) = some n ↔ Numeral body n := by
    cases body with
    | nil => simp [Numeral]
    | cons c body =>
      rw [if_neg (by simp)]
      exact foldl_digits_eq_some_iff (by simp) n
  by_cases hplus : ∃ rest, digits = '+' :: rest
  · obtain ⟨rest, rfl⟩ := hplus
    have hread : codePoint? ('+' :: rest) =
        if rest.isEmpty then none else rest.foldl readDigit (some 0) := rfl
    rw [hread, hbody]
    simp only [not_numeral_plus, List.cons.injEq, true_and, exists_eq_left', false_or]
  · have hread : codePoint? digits =
        if digits.isEmpty then none else digits.foldl readDigit (some 0) := by
      unfold codePoint?
      split
      · exact absurd ⟨_, rfl⟩ hplus
      · rfl
    rw [hread, hbody]
    constructor
    · exact Or.inl
    · rintro (h | ⟨rest, hrest, -⟩)
      · exact h
      · exact absurd ⟨rest, hrest⟩ hplus

theorem scalar?_eq_some_iff (n : Nat) (c : Char) : scalar? n = some c ↔ c.toNat = n := by
  unfold scalar?
  constructor
  · intro h
    split at h
    · next hn =>
      rw [← Option.some.inj h]
      exact Utf8.val_ofNat hn
    · cases h
  · rintro rfl
    have hvalid : c.toNat < 0xD800 ∨ (0xDFFF < c.toNat ∧ c.toNat < 0x110000) := c.valid
    rw [if_pos hvalid, Char.ofNat_toNat]

/-! ## What the characters of an escape denote -/

/-- Four hexadecimal digits that name the scalar value of `c`. -/
def Complete (digits : List Char) (c : Char) : Prop := digits.length = 4 ∧ Numeral digits c.toNat

/-- Digits that name the scalar value of `c`, but are too few or have a plus sign before them. -/
def Lax (digits : List Char) (c : Char) : Prop :=
  (digits.length ≠ 4 ∧ Numeral digits c.toNat) ∨
    ∃ rest, digits = '+' :: rest ∧ Numeral rest c.toNat

def Denotes (digits : List Char) (c : Char) : Prop := Complete digits c ∨ Lax digits c

theorem denotes_iff (digits : List Char) (c : Char) :
    Denotes digits c ↔ (codePoint? digits).bind scalar? = some c := by
  simp only [Option.bind_eq_some_iff, scalar?_eq_some_iff, codePoint?_eq_some_iff,
    exists_eq_right', Denotes, Complete, Lax]
  tauto

theorem Denotes.ne_nil {digits : List Char} {c : Char} (h : Denotes digits c) : digits ≠ [] := by
  rintro rfl
  rw [denotes_iff] at h
  cases h

theorem not_complete_of_lax {digits : List Char} {c d : Char} (hlax : Lax digits c) :
    ¬Complete digits d := by
  rintro ⟨hlength, hnumeral⟩
  rcases hlax with ⟨hshort, -⟩ | ⟨rest, rfl, -⟩
  · exact hshort hlength
  · exact not_numeral_plus rest _ hnumeral

theorem numbered_of_denotes {digits : List Char} {c : Char} (h : Denotes digits c) :
    numbered digits = [c] := by
  rw [denotes_iff] at h
  simp only [numbered, h]

theorem numbered_of_not_denotes {digits : List Char} (h : ¬∃ c, Denotes digits c) :
    numbered digits = 'u' :: digits := by
  have hnone : (codePoint? digits).bind scalar? = none := by
    rw [Option.eq_none_iff_forall_ne_some]
    exact fun c hc => h ⟨c, (denotes_iff digits c).mpr hc⟩
  simp only [numbered, hnone]

/-- An escape is kept as it stands just when its characters denote none. -/
theorem numbered_eq_kept_iff (digits : List Char) :
    numbered digits = 'u' :: digits ↔ ¬∃ c, Denotes digits c := by
  constructor
  · rintro h ⟨c, hc⟩
    rw [numbered_of_denotes hc] at h
    exact hc.ne_nil (List.cons.inj h).2.symm
  · exact numbered_of_not_denotes

/-! ## Where an escape begins -/

/-- Texts that end in no escape under way. -/
inductive Whole : List Char → Prop
  | nil : Whole []
  | plain {c : Char} {cs : List Char} : c ≠ '\\' → Whole cs → Whole (c :: cs)
  | escape {c : Char} {cs : List Char} : c ≠ 'u' → Whole cs → Whole ('\\' :: c :: cs)
  | number (p q r s : Char) {cs : List Char} :
      Whole cs → Whole ('\\' :: 'u' :: p :: q :: r :: s :: cs)

theorem unescape_escape {c : Char} (h : c ≠ 'u') (rest : List Char) :
    unescape ('\\' :: c :: rest) = escaped c :: unescape rest := by
  rw [unescape] <;> simp_all

theorem unescape_number (rest : List Char) :
    unescape ('\\' :: 'u' :: rest) = numbered (rest.take 4) ++ unescape (rest.drop 4) := by
  match rest with
  | p :: q :: r :: s :: rest => rfl
  | [] | [_] | [_, _] | [_, _, _] => exact (List.append_nil _).symm

theorem Whole.unescape_append {before : List Char} (h : Whole before) (rest : List Char) :
    unescape (before ++ rest) = unescape before ++ unescape rest := by
  induction h with
  | nil => rfl
  | plain hc _ ih =>
    rw [List.cons_append, unescape_cons hc, unescape_cons hc, ih]
    rfl
  | escape hc _ ih =>
    rw [List.cons_append, List.cons_append, unescape_escape hc, unescape_escape hc, ih]
    rfl
  | number p q r s _ ih =>
    simp only [List.cons_append, unescape_number, List.take_succ_cons, List.take_zero,
      List.drop_succ_cons, List.drop_zero, ih, List.append_assoc]

theorem whole_plain_iff {c : Char} (hc : c ≠ '\\') (cs : List Char) :
    Whole (c :: cs) ↔ Whole cs := by
  constructor
  · intro h
    cases h with
    | plain _ h => exact h
    | escape _ _ => exact absurd rfl hc
    | number _ _ _ _ _ => exact absurd rfl hc
  · exact Whole.plain hc

theorem whole_escape_iff {c : Char} (hc : c ≠ 'u') (cs : List Char) :
    Whole ('\\' :: c :: cs) ↔ Whole cs := by
  constructor
  · intro h
    cases h with
    | plain h _ => exact absurd rfl h
    | escape _ h => exact h
    | number _ _ _ _ _ => exact absurd rfl hc
  · exact Whole.escape hc

theorem whole_number_iff (p q r s : Char) (cs : List Char) :
    Whole ('\\' :: 'u' :: p :: q :: r :: s :: cs) ↔ Whole cs := by
  constructor
  · intro h
    cases h with
    | plain h _ => exact absurd rfl h
    | escape h _ => exact absurd rfl h
    | number _ _ _ _ h => exact h
  · exact Whole.number p q r s

theorem Whole.append_iff {front : List Char} (h : Whole front) (rest : List Char) :
    Whole (front ++ rest) ↔ Whole rest := by
  induction h with
  | nil => rfl
  | plain hc _ ih => rw [List.cons_append, whole_plain_iff hc, ih]
  | escape hc _ ih => rw [List.cons_append, List.cons_append, whole_escape_iff hc, ih]
  | number p q r s _ ih =>
    simp only [List.cons_append]
    rw [whole_number_iff, ih]

/-- The last character is the backslash of an escape. -/
def Opened (before : List Char) : Prop := ∃ front, Whole front ∧ before = front ++ ['\\']

/-- The text ends among the four characters that belong to a `\u`. -/
def Taking (before : List Char) : Prop :=
  ∃ front taken, Whole front ∧ taken.length < 4 ∧ before = front ++ '\\' :: 'u' :: taken

/-- A place in a text stands behind whole escapes, or in one. -/
theorem whole_or (before : List Char) : Whole before ∨ Opened before ∨ Taking before := by
  -- what is known of a text holds behind whole escapes too
  have hafter {front more : List Char} (hfront : Whole front)
      (h : Whole more ∨ Opened more ∨ Taking more) :
      Whole (front ++ more) ∨ Opened (front ++ more) ∨ Taking (front ++ more) := by
    rcases h with h | ⟨middle, hmiddle, rfl⟩ | ⟨middle, taken, hmiddle, htaken, rfl⟩
    · exact Or.inl ((hfront.append_iff more).mpr h)
    · refine Or.inr (Or.inl ⟨front ++ middle, (hfront.append_iff middle).mpr hmiddle, ?_⟩)
      rw [List.append_assoc]
    · refine Or.inr (Or.inr ⟨front ++ middle, taken, (hfront.append_iff middle).mpr hmiddle,
        htaken, ?_⟩)
      rw [List.append_assoc]
  induction before using unescape.induct with
  | case1 => exact Or.inl Whole.nil
  | case2 p q r s rest ih => exact hafter (Whole.number p q r s Whole.nil) ih
  | case3 short hshort =>
    refine Or.inr (Or.inr ⟨[], short, Whole.nil, ?_, rfl⟩)
    match short, hshort with
    | p :: q :: r :: s :: rest, hshort => exact absurd rfl (hshort p q r s rest)
    | [], _ | [_], _ | [_, _], _ | [_, _, _], _ => simp
  | case4 c rest _ hc ih =>
    exact hafter (Whole.escape (fun e => hc e) Whole.nil) ih
  | case5 => exact Or.inr (Or.inl ⟨[], Whole.nil, rfl⟩)
  | case6 c rest _ _ _ _ ih =>
    have hc : c ≠ '\\' := by
      rintro rfl
      cases rest with
      | nil => simp_all
      | cons d rest => simp_all
    exact hafter (Whole.plain hc Whole.nil) ih

theorem not_whole_iff (before : List Char) : ¬Whole before ↔ Opened before ∨ Taking before := by
  constructor
  · exact (whole_or before).resolve_left
  · rintro (⟨front, hfront, rfl⟩ | ⟨front, taken, hfront, htaken, rfl⟩) h
    · cases (hfront.append_iff _).mp h with
      | plain hc _ => exact hc rfl
    · cases (hfront.append_iff _).mp h with
      | plain hc _ => exact hc rfl
      | escape hu _ => exact hu rfl
      | number p q r s h =>
        simp only [List.length_cons] at htaken
        omega

theorem Whole.unescape_number_append {before : List Char} (h : Whole before) (rest : List Char) :
    unescape (before ++ '\\' :: 'u' :: rest) =
      unescape before ++ (numbered (rest.take 4) ++ unescape (rest.drop 4)) := by
  rw [h.unescape_append, unescape_number]

theorem Whole.unescape_denotes {before rest : List Char} {c : Char} (h : Whole before)
    (hc : Denotes (rest.take 4) c) :
    unescape (before ++ '\\' :: 'u' :: rest) = unescape before ++ c :: unescape (rest.drop 4) := by
  rw [h.unescape_number_append, numbered_of_denotes hc]
  rfl

/-- The `\u` is kept just when the characters it takes denote none. -/
theorem Whole.unescape_kept_iff {before : List Char} (h : Whole before) (rest : List Char) :
    unescape (before ++ '\\' :: 'u' :: rest) =
        unescape before ++ 'u' :: (rest.take 4 ++ unescape (rest.drop 4)) ↔
      ∀ c, ¬Denotes (rest.take 4) c := by
  rw [h.unescape_number_append, List.append_cancel_left_eq, ← List.cons_append,
    List.append_cancel_right_eq, numbered_eq_kept_iff, not_exists]

/-- A `\u` behind `before` gives the character of four digits, and stays where there are none. -/
def ReadsComplete (before rest : List Char) : Prop :=
  (∀ c, Complete (rest.take 4) c →
    unescape (before ++ '\\' :: 'u' :: rest) = unescape before ++ c :: unescape (rest.drop 4)) ∧
  ((∀ c, ¬Complete (rest.take 4) c) →
    unescape (before ++ '\\' :: 'u' :: rest) =
      unescape before ++ 'u' :: (rest.take 4 ++ unescape (rest.drop 4)))

theorem Whole.readsComplete_iff {before : List Char} (h : Whole before) (rest : List Char) :
    ReadsComplete before rest ↔ ∀ c, ¬Lax (rest.take 4) c := by
  constructor
  · rintro ⟨-, hkept⟩ c hlax
    have hnone : ∀ d, ¬Complete (rest.take 4) d := fun d => not_complete_of_lax hlax
    exact (h.unescape_kept_iff rest).mp (hkept hnone) c (Or.inr hlax)
  · intro hlax
    refine ⟨fun c hc => h.unescape_denotes (Or.inl hc), fun hnone => ?_⟩
    exact (h.unescape_kept_iff rest).mpr fun c hc => hc.elim (hnone c) (hlax c)

/-- Every `\u` of a text: it is escaped or among the characters of an earlier one, or it is read
as a number of four digits unless what follows is a shorter number or has a plus sign. -/
theorem unescape_numbers (before rest : List Char) :
    (¬Whole before ↔ Opened before ∨ Taking before) ∧
      (Whole before →
        (ReadsComplete before rest ↔ ∀ c, ¬Lax (rest.take 4) c) ∧
        ∀ c, Lax (rest.take 4) c →
          unescape (before ++ '\\' :: 'u' :: rest) =
            unescape before ++ c :: unescape (rest.drop 4)) := by
  refine ⟨not_whole_iff before, fun h => ⟨h.readsComplete_iff rest, fun c hc => ?_⟩⟩
  exact h.unescape_denotes (Or.inr hc)

/-- An escaped letter and an escaped backslash. -/
def escapedFront : List Char := "\\u00e9\\\\".toList

theorem whole_escapedFront : Whole escapedFront :=
  .number '0' '0' 'e' '9' (.escape (by decide) .nil)

/-- Behind complete escapes four digits are read in full, and two at the end as well. -/
theorem unescape_numbers_escapedFront :
    unescape (escapedFront ++ "\\u0042!".toList) = unescape escapedFront ++ "B!".toList ∧
      unescape (escapedFront ++ "\\u41".toList) = unescape escapedFront ++ "A".toList := by
  have hcomplete : Complete ("0042!".toList.take 4) 'B' :=
    ⟨rfl, by decide, [0, 0, 4, 2], rfl, rfl⟩
  have hshort : Lax ("41".toList.take 4) 'A' := Or.inl ⟨by decide, by decide, [4, 1], rfl, rfl⟩
  obtain ⟨-, hfull⟩ := unescape_numbers escapedFront "0042!".toList
  obtain ⟨-, hcut⟩ := unescape_numbers escapedFront "41".toList
  have hreads := (hfull whole_escapedFront).1.mpr fun c hlax => not_complete_of_lax hlax hcomplete
  exact ⟨hreads.1 'B' hcomplete, (hcut whole_escapedFront).2 'A' hshort⟩

/-- The second backslash is one of the four characters of the first `\u`. -/
example : unescape "\\u\\u0041".toList = "u\\u0041".toList := by decide

/-- Two digits at the end of a value and three behind a plus sign are read as numbers. -/
theorem lax_numbers_read :
    (¬ReadsComplete [] "41".toList ∧ readLine "x=\\u41".toList = ("x", "A")) ∧
      ¬ReadsComplete [] "+041".toList ∧ readLine "x=\\u+041".toList = ("x", "A") := by
  have hshort : Lax ("41".toList.take 4) 'A' := Or.inl ⟨by decide, by decide, [4, 1], rfl, rfl⟩
  have hplus : Lax ("+041".toList.take 4) 'A' :=
    Or.inr ⟨"041".toList, rfl, by decide, [0, 4, 1], rfl, rfl⟩
  refine ⟨⟨fun h => ?_, by decide⟩, fun h => ?_, by decide⟩
  · exact (Whole.nil.readsComplete_iff _).mp h 'A' hshort
  · exact (Whole.nil.readsComplete_iff _).mp h 'A' hplus

end PlanArchive.Definition
