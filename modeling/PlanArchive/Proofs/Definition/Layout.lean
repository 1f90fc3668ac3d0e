import Mathlib.Data.Bool.AllAny
import Mathlib.Data.List.TakeWhile
import PlanArchive.Definition.Source
import PlanArchive.Proofs.Definition.Line
import PlanArchive.Proofs.Keyed

/-!
# Ways to write definitions

A list of pairs with different keys can be written as a definition text in many ways: characters
may be escaped, a key and its value may be parted by a sign or by blanks, lines may be continued,
and remarks may stand between the pairs. Every pair can be written, and each of these texts defines
just its pairs (`ofText_of_laidOut`).
-/

namespace PlanArchive.Definition

open Text

/-! ## Layouts -/

/-- The ways to write a character of a key or of a value. -/
inductive Spells : Char → List Char → Prop
  | itself {c : Char} (hmark : c ∉ ['\\', '=', ':', '#', '!']) (hblank : isBlank c = false) :
      Spells c [c]
  | escaped {c : Char} (h : c ∉ ['t', 'n', 'r', 'f', 'u', '\n', '\r']) : Spells c ['\\', c]
  | tab : Spells '\t' ['\\', 't']
  | lineFeed : Spells '\n' ['\\', 'n']
  | carriageReturn : Spells '\r' ['\\', 'r']
  | formFeed : Spells '\x0c' ['\\', 'f']
  /-- By its number in four hexadecimal digits of either case. -/
  | number {c p q r s : Char} {i j k l : Nat} (hp : Hex.value? p = some i)
      (hq : Hex.value? q = some j) (hr : Hex.value? r = some k) (hs : Hex.value? s = some l)
      (h : c.toNat = ((i * 16 + j) * 16 + k) * 16 + l) : Spells c ['\\', 'u', p, q, r, s]

/-- A gap of any length, also none. -/
def Gap (cs : List Char) : Prop := ∀ c ∈ cs, isGap c = true

/-- Places at which a logical line goes on in the next physical one. -/
inductive Breaks : List Char → Prop
  | none : Breaks []
  | more {lineEnd gap rest : List Char} (hend : lineEnd ∈ lineEnds) (hgap : Gap gap)
      (hrest : Breaks rest) : Breaks ('\\' :: (lineEnd ++ (gap ++ rest)))

/-- The ways to write a key or a value; between two of its characters the line may break. -/
inductive Written : List Char → List Char → Prop
  | nil : Written [] []
  | last {c : Char} {raw : List Char} (h : Spells c raw) : Written [c] raw
  | cons {c d : Char} {cs raw breaks more : List Char} (h : Spells c raw) (hbreaks : Breaks breaks)
      (hmore : Written (d :: cs) more) : Written (c :: d :: cs) (raw ++ (breaks ++ more))

/-- What parts a key from its value. Blanks alone are enough behind a key that is not empty. -/
inductive Parts (key : List Char) : List Char → Prop
  | sign {before behind : List Char} {c : Char} (hbefore : Gap before) (hc : c = '=' ∨ c = ':')
      (hbehind : Gap behind) : Parts key (before ++ c :: behind)
  | blanks {gap : List Char} (hkey : key ≠ []) (hne : gap ≠ []) (hgap : Gap gap) : Parts key gap

/-- Texts that lay out pairs. Blank lines and remarks, whatever they end in, stand anywhere between
them. -/
inductive LaidOut : List (String × String) → List Char → Prop
  | done : LaidOut [] []
  | blank {pairs : List (String × String)} {line text : List Char} (hline : '\n' ∉ line)
      (hblank : ∀ c ∈ line, isBlank c = true) (h : LaidOut pairs text) :
      LaidOut pairs (line ++ '\n' :: text)
  | remark {pairs : List (String × String)} {gap body text : List Char} {c : Char}
      (hgap : Gap gap) (hc : c = '#' ∨ c = '!') (hbody : '\n' ∉ body) (h : LaidOut pairs text) :
      LaidOut pairs (gap ++ c :: (body ++ '\n' :: text))
  | pair {pairs : List (String × String)} {key value : String}
      {gap rawKey parting rawValue lineEnd text : List Char} (hgap : Gap gap)
      (hkey : Written key.toList rawKey) (hparts : Parts key.toList parting)
      (hvalue : Written value.toList rawValue) (hend : lineEnd ∈ lineEnds)
      (h : LaidOut pairs text) :
      LaidOut ((key, value) :: pairs)
        (gap ++ (rawKey ++ (parting ++ (rawValue ++ (lineEnd ++ text)))))

/-! ## Characters -/

theorem gap_char {c : Char} (h : isGap c = true) :
    isBlank c = true ∧ c ≠ '\n' ∧ c ≠ '\r' ∧ c ≠ '\\' ∧ endsKey c = true := by
  simp only [isGap, Bool.or_eq_true, beq_iff_eq] at h
  rcases h with (rfl | rfl) | rfl <;> decide

theorem Gap.inline {cs : List Char} (h : Gap cs) : Inline cs := fun c hc =>
  ⟨(gap_char (h c hc)).2.1, (gap_char (h c hc)).2.2.1⟩

theorem Gap.blank {cs : List Char} (h : Gap cs) : ∀ c ∈ cs, isBlank c = true := fun c hc =>
  (gap_char (h c hc)).1

theorem not_digit_mark {c : Char} {n : Nat} (h : Hex.value? c = some n) :
    c ≠ '\\' ∧ c ≠ '+' ∧ c ≠ '\n' ∧ c ≠ '\r' ∧ n < 16 := by
  have hnot : ∀ d ∈ ['\\', '+', '\n', '\r'], c ≠ d := by
    rintro d hd rfl
    simp only [List.mem_cons, List.not_mem_nil, or_false] at hd
    rcases hd with rfl | rfl | rfl | rfl <;> cases h
  refine ⟨hnot _ (by simp), hnot _ (by simp), hnot _ (by simp), hnot _ (by simp), ?_⟩
  simp only [Hex.value?] at h
  split at h
  · obtain rfl := Option.some.inj h
    omega
  split at h
  · obtain rfl := Option.some.inj h
    omega
  split at h
  · obtain rfl := Option.some.inj h
    omega
  · cases h

/-- A written character starts a line as it stands, and ends no key. -/
theorem Spells.head {c : Char} {raw : List Char} (h : Spells c raw) :
    ∃ first rest, raw = first :: rest ∧ isBlank first = false ∧ first ≠ '#' ∧ first ≠ '!' ∧
      first ≠ '=' ∧ first ≠ ':' := by
  cases h with
  | itself hmark hblank =>
    simp only [List.mem_cons, List.not_mem_nil, or_false, not_or] at hmark
    exact ⟨_, _, rfl, hblank, hmark.2.2.2.1, hmark.2.2.2.2, hmark.2.1, hmark.2.2.1⟩
  | _ => exact ⟨'\\', _, rfl, by decide⟩

theorem Spells.inline {c : Char} {raw : List Char} (h : Spells c raw) : Inline raw := by
  have hback : '\\' ≠ '\n' ∧ '\\' ≠ '\r' := by decide
  cases h with
  | itself hmark hblank =>
    refine List.forall_mem_singleton.mpr ⟨?_, ?_⟩ <;> rintro rfl <;> cases hblank
  | escaped h =>
    simp only [List.mem_cons, List.not_mem_nil, or_false, not_or] at h
    exact List.forall_mem_cons.mpr
      ⟨hback, List.forall_mem_singleton.mpr ⟨h.2.2.2.2.2.1, h.2.2.2.2.2.2⟩⟩
  | number hp hq hr hs h =>
    have hdigit : ∀ {d n}, Hex.value? d = some n → d ≠ '\n' ∧ d ≠ '\r' := fun h =>
      ⟨(not_digit_mark h).2.2.1, (not_digit_mark h).2.2.2.1⟩
    simp only [Inline, List.forall_mem_cons]
    exact ⟨hback, by decide, hdigit hp, hdigit hq, hdigit hr, hdigit hs, List.forall_mem_nil _⟩
  | _ => exact List.forall_mem_cons.mpr ⟨hback, List.forall_mem_singleton.mpr (by decide)⟩

/-- A written character is whole: no backslash of it is left open. -/
theorem Spells.continues_append {c : Char} {raw line : List Char} (h : Spells c raw)
    (hline : continues line = false) : continues (line ++ raw) = false := by
  cases h with
  | itself hmark hblank => exact continues_plain _ (by rintro rfl; simp at hmark)
  | @number _ p q r s _ _ _ _ hp hq hr hs h =>
    have hlast : line ++ ['\\', 'u', p, q, r, s] = (line ++ ['\\', 'u', p, q, r]) ++ [s] := by simp
    rw [hlast]
    exact continues_plain _ (not_digit_mark hs).1
  | _ => exact continues_escape hline _

/-! ## From physical lines to logical ones -/

/-- The ways to write a key or a value without breaks. -/
inductive Flat : List Char → List Char → Prop
  | nil : Flat [] []
  | cons {c : Char} {cs raw more : List Char} (h : Spells c raw) (hmore : Flat cs more) :
      Flat (c :: cs) (raw ++ more)

theorem resume_breaks {breaks : List Char} (h : Breaks breaks) {soFar : List Char}
    (hline : continues soFar = false) {c : Char} (hc : isBlank c = false) (text : List Char) :
    resume soFar (breaks ++ c :: text) = resume soFar (c :: text) := by
  induction h with
  | none => rfl
  | @more lineEnd gap rest hend hgap hrest ih =>
    have hback : Inline ['\\'] := List.forall_mem_singleton.mpr (by decide)
    have hopen : continues (soFar ++ ['\\']) = true := by
      rw [continues_concat, hline]
      rfl
    obtain ⟨d, more, hd, hmore⟩ : ∃ d more, isBlank d = false ∧ rest ++ c :: text = d :: more := by
      cases hrest with
      | none => exact ⟨c, text, hc, rfl⟩
      | more _ _ _ => exact ⟨'\\', _, by decide, rfl⟩
    have hsplit : ('\\' :: (lineEnd ++ (gap ++ rest))) ++ c :: text =
        ['\\'] ++ (lineEnd ++ (gap ++ (rest ++ c :: text))) := by simp
    rw [hsplit, resume_append hback, resume_lineEnd hend, if_pos hopen, List.dropLast_concat, hmore,
      joinLines_pending hd hgap.blank hgap.inline, ← hmore, ih]

/-- The breaks of what is written make no difference to the logical line. -/
theorem Written.exists_flat {cs raw : List Char} (h : Written cs raw) :
    ∃ flat, Flat cs flat ∧ ∀ soFar text, continues soFar = false →
      continues (soFar ++ flat) = false ∧
        resume soFar (raw ++ text) = resume (soFar ++ flat) text := by
  induction h with
  | nil =>
    refine ⟨[], .nil, fun soFar text hline => ?_⟩
    rw [List.append_nil]
    exact ⟨hline, rfl⟩
  | @last c raw h =>
    refine ⟨raw ++ [], .cons h .nil, fun soFar text hline => ?_⟩
    rw [List.append_nil]
    exact ⟨h.continues_append hline, resume_append h.inline soFar text⟩
  | @cons c d cs raw breaks more h hbreaks hmore ih =>
    obtain ⟨flat, hflat, hresume⟩ := ih
    refine ⟨raw ++ flat, .cons h hflat, fun soFar text hline => ?_⟩
    have hraw : continues (soFar ++ raw) = false := h.continues_append hline
    obtain ⟨hcontinues, hnext⟩ := hresume (soFar ++ raw) text hraw
    obtain ⟨first, rest, hfirst, hblank⟩ : ∃ first rest, more = first :: rest ∧
        isBlank first = false := by
      cases hmore with
      | last h =>
        obtain ⟨first, rest, hraw, hblank, -⟩ := h.head
        exact ⟨first, rest, hraw, hblank⟩
      | cons h _ _ =>
        obtain ⟨first, rest, rfl, hblank, -⟩ := h.head
        exact ⟨first, _, rfl, hblank⟩
    have hbroken := resume_breaks hbreaks hraw hblank (rest ++ text)
    rw [← List.cons_append, ← hfirst] at hbroken
    rw [← List.append_assoc]
    refine ⟨hcontinues, ?_⟩
    rw [List.append_assoc, List.append_assoc, resume_append h.inline, hbroken, hnext]

/-! ## From logical lines to pairs -/

theorem endsKey_char {c : Char} (hmark : c ≠ '=' ∧ c ≠ ':') (hblank : isBlank c = false) :
    endsKey c = false := by
  have hgap : isGap c = false := by
    cases h : isGap c with
    | false => rfl
    | true => exact absurd (gap_char h).1 (by simp [hblank])
  simp [endsKey, hmark, hgap]

theorem endsKey_digit {c : Char} {n : Nat} (h : Hex.value? c = some n) : endsKey c = false := by
  have hnot : ∀ d ∈ ['=', ':', ' ', '\t', '\x0c'], c ≠ d := by
    rintro d hd rfl
    simp only [List.mem_cons, List.not_mem_nil, or_false] at hd
    rcases hd with rfl | rfl | rfl | rfl | rfl <;> cases h
  simp only [List.forall_mem_cons] at hnot
  simp [endsKey, isGap, hnot]

theorem cutKey_plain {c : Char} (hback : c ≠ '\\') (hends : endsKey c = false)
    (rest : List Char) : cutKey (c :: rest) = (c :: (cutKey rest).1, (cutKey rest).2) := by
  rw [cutKey, hends]
  · rfl
  · simp [hback]

/-- A written character stands in the key as it is. -/
theorem Spells.cutKey_append {c : Char} {raw : List Char} (h : Spells c raw) (rest : List Char) :
    cutKey (raw ++ rest) = (raw ++ (cutKey rest).1, (cutKey rest).2) := by
  cases h with
  | itself hmark hblank =>
    simp only [List.mem_cons, List.not_mem_nil, or_false, not_or] at hmark
    exact cutKey_plain hmark.1 (endsKey_char ⟨hmark.2.1, hmark.2.2.1⟩ hblank) rest
  | number hp hq hr hs h =>
    have hdigit : ∀ {d n}, Hex.value? d = some n → ∀ rest,
        cutKey (d :: rest) = (d :: (cutKey rest).1, (cutKey rest).2) := fun h =>
      cutKey_plain (not_digit_mark h).1 (endsKey_digit h)
    simp only [List.cons_append, List.nil_append]
    rw [cutKey, hdigit hp, hdigit hq, hdigit hr, hdigit hs]
  | _ => rfl

theorem Flat.cutKey_append {key raw : List Char} (h : Flat key raw) {rest : List Char}
    (hrest : cutKey rest = ([], rest)) : cutKey (raw ++ rest) = (raw, rest) := by
  induction h with
  | nil => exact hrest
  | cons h _ ih => rw [List.append_assoc, h.cutKey_append, ih]

theorem cutKey_parting {key parting : List Char} (h : Parts key parting) (rest : List Char) :
    cutKey (parting ++ rest) = ([], parting ++ rest) := by
  have hends : ∀ {c : Char}, endsKey c = true → ∀ more, cutKey (c :: more) = ([], c :: more) := by
    intro c hc more
    rw [cutKey, hc]
    · rfl
    · intro _ _ hback
      rw [hback] at hc
      cases hc
  cases h with
  | @sign before behind c hbefore hc hbehind =>
    cases before with
    | nil => exact hends (by rcases hc with rfl | rfl <;> rfl) _
    | cons d before => exact hends (gap_char (hbefore d (List.mem_cons_self ..))).2.2.2.2 _
  | blanks hkey hne hgap =>
    cases parting with
    | nil => exact absurd rfl hne
    | cons d gap => exact hends (gap_char (hgap d (List.mem_cons_self ..))).2.2.2.2 _

/-- What parts a key from its value does not belong to the value. -/
theorem dropGap_parting {key parting value raw : List Char} (h : Parts key parting)
    (hvalue : Flat value raw) : dropGap (parting ++ raw) = raw := by
  have hgap : ∀ {gap : List Char}, Gap gap → ∀ rest,
      (gap ++ rest).dropWhile isGap = rest.dropWhile isGap := fun hgap rest =>
    List.dropWhile_append_of_pos hgap
  have hkept : ∀ {c : Char}, isBlank c = false → ∀ rest,
      (c :: rest).dropWhile isGap = c :: rest := by
    intro c hc rest
    refine List.dropWhile_cons_of_neg fun h => ?_
    rw [(gap_char h).1] at hc
    cases hc
  have hraw : raw.dropWhile isGap = raw := by
    cases hvalue with
    | nil => rfl
    | cons h _ =>
      obtain ⟨c, rest, rfl, hblank, -⟩ := h.head
      exact hkept hblank _
  cases h with
  | @sign before behind c hbefore hc hbehind =>
    have hblank : isBlank c = false := by rcases hc with rfl | rfl <;> rfl
    rw [List.append_assoc, List.cons_append, dropGap, hgap hbefore, hkept hblank]
    simp only [if_pos hc]
    rw [hgap hbehind, hraw]
  | blanks hkey hne hblanks =>
    rw [dropGap, hgap hblanks, hraw]
    cases hvalue with
    | nil => rfl
    | cons h _ =>
      obtain ⟨c, rest, rfl, -, -, -, hequals, hcolon⟩ := h.head
      exact if_neg (by simp [hequals, hcolon])

theorem numbered_digits {c p q r s : Char} {i j k l : Nat} (hp : Hex.value? p = some i)
    (hq : Hex.value? q = some j) (hr : Hex.value? r = some k) (hs : Hex.value? s = some l)
    (h : c.toNat = ((i * 16 + j) * 16 + k) * 16 + l) : numbered [p, q, r, s] = [c] := by
  have hsign : p ≠ '+' := (not_digit_mark hp).2.1
  have hcode : codePoint? [p, q, r, s] = some c.toNat := by
    unfold codePoint?
    split
    · rename_i digits heq
      exact absurd (List.cons.inj heq).1 hsign
    · simp [hp, hq, hr, hs, h]
  have hvalid : c.toNat < 0xD800 ∨ 0xDFFF < c.toNat ∧ c.toNat < 0x110000 := c.valid
  have hscalar : scalar? c.toNat = some c := by
    rw [scalar?, if_pos hvalid, Char.ofNat_toNat]
  rw [numbered, hcode, Option.bind_some, hscalar]

/-- A written character is read as itself. -/
theorem Spells.unescape_append {c : Char} {raw : List Char} (h : Spells c raw)
    (rest : List Char) : unescape (raw ++ rest) = c :: unescape rest := by
  cases h with
  | itself hmark _ =>
    refine unescape_cons ?_ rest
    rintro rfl
    simp at hmark
  | escaped h =>
    simp only [List.mem_cons, List.not_mem_nil, or_false, not_or] at h
    have hescaped : Definition.escaped c = c := by simp [Definition.escaped, h]
    simp only [List.cons_append, List.nil_append]
    rw [unescape, hescaped]
    · simp [h]
    · simp [h]
  | number hp hq hr hs h =>
    simp only [List.cons_append, List.nil_append]
    rw [unescape, numbered_digits hp hq hr hs h]
    rfl
  | _ => rfl

theorem Flat.unescape {cs raw : List Char} (h : Flat cs raw) : unescape raw = cs := by
  induction h with
  | nil => rfl
  | cons h _ ih => rw [h.unescape_append, ih]

theorem readLine_flat {key value : String} {rawKey parting rawValue : List Char}
    (hkey : Flat key.toList rawKey) (hparts : Parts key.toList parting)
    (hvalue : Flat value.toList rawValue) :
    readLine (rawKey ++ (parting ++ rawValue)) = (key, value) := by
  have hcut : cutKey (rawKey ++ (parting ++ rawValue)) = (rawKey, parting ++ rawValue) :=
    hkey.cutKey_append (cutKey_parting hparts rawValue)
  simp only [readLine, splitLine, hcut, dropGap_parting hparts hvalue, hkey.unescape,
    hvalue.unescape, String.ofList_toList]

/-! ## Texts -/

theorem Parts.inline {key parting : List Char} (h : Parts key parting) :
    Inline parting ∧ ∀ c ∈ parting, c ≠ '\\' := by
  have hgap : ∀ {gap : List Char}, Gap gap → Inline gap ∧ ∀ c ∈ gap, c ≠ '\\' := fun h =>
    ⟨h.inline, fun c hc => (gap_char (h c hc)).2.2.2.1⟩
  cases h with
  | sign hbefore hc hbehind =>
    obtain ⟨hinline, hback⟩ := hgap hbefore
    obtain ⟨hinline', hback'⟩ := hgap hbehind
    refine ⟨hinline.append (List.forall_mem_cons.mpr ⟨?_, hinline'⟩),
      List.forall_mem_append.mpr ⟨hback, List.forall_mem_cons.mpr ⟨?_, hback'⟩⟩⟩
    · rcases hc with rfl | rfl <;> decide
    · rcases hc with rfl | rfl <;> decide
  | blanks _ _ hblanks => exact hgap hblanks

/-- A pair starts a logical line. If its key is empty, the line starts at the sign behind it. -/
theorem joinLines_key {key gap rawKey parting : List Char} (hgap : Gap gap)
    (hkey : Written key rawKey) (hparts : Parts key parting) (text : List Char) :
    ∃ parting', Parts key parting' ∧
      joinLines none (lines (gap ++ (rawKey ++ (parting ++ text)))) =
        resume [] (rawKey ++ (parting' ++ text)) := by
  have hstart : ∀ {c raw more}, Spells c raw →
      joinLines none (lines (gap ++ (raw ++ more))) = resume [] (raw ++ more) := by
    intro c raw more h
    obtain ⟨first, rest, rfl, hblank, hhash, hbang, -⟩ := h.head
    exact joinLines_start hblank hgap.blank hgap.inline ⟨hhash, hbang⟩ _
  cases hkey with
  | nil =>
    cases hparts with
    | @sign before behind c hbefore hc hbehind =>
      have hfront : Gap (gap ++ before) := List.forall_mem_append.mpr ⟨hgap, hbefore⟩
      have hblank : isBlank c = false := by rcases hc with rfl | rfl <;> rfl
      have hremark : c ≠ '#' ∧ c ≠ '!' := by rcases hc with rfl | rfl <;> decide
      refine ⟨[] ++ c :: behind, .sign (List.forall_mem_nil _) hc hbehind, ?_⟩
      have h := joinLines_start hblank hfront.blank hfront.inline hremark (behind ++ text)
      simpa using h
    | blanks hkey => exact absurd rfl hkey
  | last h => exact ⟨parting, hparts, hstart h⟩
  | cons h _ _ =>
    refine ⟨parting, hparts, ?_⟩
    rw [List.append_assoc]
    exact hstart h

/-- The line of a pair is read as this pair, and reading goes on behind it. -/
theorem joinLines_pair {key value : String} {gap rawKey parting rawValue lineEnd : List Char}
    (hgap : Gap gap) (hkey : Written key.toList rawKey) (hparts : Parts key.toList parting)
    (hvalue : Written value.toList rawValue) (hend : lineEnd ∈ lineEnds) (text : List Char) :
    ∃ line, readLine line = (key, value) ∧
      joinLines none
          (lines (gap ++ (rawKey ++ (parting ++ (rawValue ++ (lineEnd ++ text)))))) =
        line :: joinLines none (lines text) := by
  obtain ⟨parting, hparts, hstart⟩ :=
    joinLines_key hgap hkey hparts (rawValue ++ (lineEnd ++ text))
  obtain ⟨flatKey, hflatKey, hreadKey⟩ := hkey.exists_flat
  obtain ⟨flatValue, hflatValue, hreadValue⟩ := hvalue.exists_flat
  obtain ⟨hinline, hback⟩ := hparts.inline
  obtain ⟨hkeyWhole, hbehindKey⟩ :=
    hreadKey [] (parting ++ (rawValue ++ (lineEnd ++ text))) continues_nil
  obtain ⟨hwhole, hbehindValue⟩ := hreadValue ([] ++ flatKey ++ parting) (lineEnd ++ text)
    (continues_append_plain hkeyWhole hback)
  refine ⟨flatKey ++ (parting ++ flatValue), readLine_flat hflatKey hparts hflatValue, ?_⟩
  rw [hstart, hbehindKey, resume_append hinline, hbehindValue, resume_lineEnd hend, hwhole,
    List.nil_append, List.append_assoc]
  rfl

theorem logicalLines_of_laidOut {pairs : List (String × String)} {text : List Char}
    (h : LaidOut pairs text) : (logicalLines text).map readLine = pairs := by
  unfold logicalLines
  induction h with
  | done => rfl
  | @blank pairs line text hline hblank _ ih =>
    have hnothing : trimStart line = [] := List.dropWhile_eq_nil_iff.mpr hblank
    rw [joinLines_remark hline (by rw [hnothing]; rfl), ih]
  | @remark pairs gap body text c hgap hc hbody _ ih =>
    have hsplit : gap ++ c :: (body ++ '\n' :: text) = (gap ++ c :: body) ++ '\n' :: text := by
      simp
    have hblank : isBlank c = false := by rcases hc with rfl | rfl <;> rfl
    have hline : '\n' ∉ gap ++ c :: body := by
      simp only [List.mem_append, List.mem_cons, not_or]
      exact ⟨fun h => (hgap.inline _ h).1 rfl, by rcases hc with rfl | rfl <;> decide, hbody⟩
    rw [hsplit, joinLines_remark hline ?_, ih]
    rw [trimStart_append hgap.blank hblank]
    rcases hc with rfl | rfl <;> rfl
  | pair hgap hkey hparts hvalue hend _ ih =>
    obtain ⟨line, hline, hjoin⟩ := joinLines_pair hgap hkey hparts hvalue hend _
    rw [hjoin, List.map_cons, hline, ih]

/-! ## Every pair can be written -/

/-- One way to write a character. -/
def spell (c : Char) : List Char :=
  if c = '\t' then ['\\', 't']
  else if c = '\n' then ['\\', 'n']
  else if c = '\r' then ['\\', 'r']
  else if c ∈ ['t', 'n', 'r', 'f', 'u'] then [c]
  else ['\\', c]

theorem spells_spell (c : Char) : Spells c (spell c) := by
  unfold spell
  split
  · rename_i h
    exact h ▸ .tab
  split
  · rename_i h
    exact h ▸ .lineFeed
  split
  · rename_i h
    exact h ▸ .carriageReturn
  split
  · rename_i h
    have hall : ∀ d ∈ ['t', 'n', 'r', 'f', 'u'],
        d ∉ ['\\', '=', ':', '#', '!'] ∧ isBlank d = false :=
      List.all_iff_forall_prop.mp (by decide)
    exact .itself (hall c h).1 (hall c h).2
  · rename_i _ hfeed hreturn hletter
    refine .escaped ?_
    simp only [List.mem_cons, List.not_mem_nil, or_false, not_or] at hletter ⊢
    exact ⟨hletter.1, hletter.2.1, hletter.2.2.1, hletter.2.2.2.1, hletter.2.2.2.2, hfeed, hreturn⟩

theorem written_spell (cs : List Char) : Written cs (cs.flatMap spell) := by
  induction cs with
  | nil => exact .nil
  | cons c cs ih =>
    cases cs with
    | nil => exact .last (by simpa using spells_spell c)
    | cons d cs =>
      have h : Written (c :: d :: cs) (spell c ++ ([] ++ (d :: cs).flatMap spell)) :=
        .cons (spells_spell c) .none ih
      exact h

theorem exists_laidOut (pairs : List (String × String)) : ∃ text, LaidOut pairs text := by
  induction pairs with
  | nil => exact ⟨[], .done⟩
  | cons pair pairs ih =>
    obtain ⟨text, htext⟩ := ih
    have hparts : Parts pair.1.toList ([] ++ '=' :: []) :=
      .sign (List.forall_mem_nil _) (.inl rfl) (List.forall_mem_nil _)
    have hend : ['\n'] ∈ lineEnds := by decide
    exact ⟨_, .pair (List.forall_mem_nil _) (written_spell _) hparts (written_spell _) hend htext⟩

/-- Pairs with different keys can be written, and a text that lays them out defines just them, in
their order. -/
theorem ofText_of_laidOut {pairs : List (String × String)} (hkeys : (Keyed.keys pairs).Nodup) :
    (∃ text, LaidOut pairs text) ∧
      ∀ text, LaidOut pairs text → (Source.ofText text).pairs = pairs := by
  refine ⟨exists_laidOut pairs, fun text h => ?_⟩
  rw [Source.ofText, logicalLines_of_laidOut h]
  exact Keyed.ofPairs_of_nodup hkeys

/-- A remark that ends in a backslash, a blank line, a key and a value over two lines each, and a
pair without a key. -/
theorem ofText_of_mixed_layout :
    (Source.ofText "# a \\\n  \na\\=\\\r\n \\u0062 : x\\\n\\ y\r\n=z\n".toList).pairs =
      [("a=b", "x y"), ("", "z")] := by
  have hnone : Gap [] := List.forall_mem_nil _
  have hspace : Gap [' '] := List.forall_mem_singleton.mpr rfl
  have hfeed : ['\n'] ∈ lineEnds := by decide
  have hreturn : ['\r', '\n'] ∈ lineEnds := by decide
  have hkey : Written "a=b".toList "a\\=\\\r\n \\u0062".toList :=
    .cons (.itself (by decide) rfl) .none
      (.cons (.escaped (by decide)) (.more hreturn hspace .none)
        (.last (.number rfl rfl rfl rfl rfl)))
  have hvalue : Written "x y".toList "x\\\n\\ y".toList :=
    .cons (.itself (by decide) rfl) (.more hfeed hnone .none)
      (.cons (.escaped (by decide)) .none (.last (.itself (by decide) rfl)))
  have hsign : Parts "a=b".toList " : ".toList := .sign hspace (.inr rfl) hspace
  have hempty : Written "".toList [] := .nil
  have hequals : Parts "".toList ['='] := .sign hnone (.inl rfl) hnone
  have hsecond : Written "z".toList ['z'] := .last (.itself (by decide) rfl)
  have hpairs : LaidOut [("a=b", "x y"), ("", "z")] _ :=
    .pair hnone hkey hsign hvalue hreturn (.pair hnone hempty hequals hsecond hfeed .done)
  have hline : '\n' ∉ "  ".toList := by decide
  have hblank : LaidOut [("a=b", "x y"), ("", "z")] _ :=
    .blank hline (List.all_eq_true.mp rfl) hpairs
  have hbody : '\n' ∉ " a \\".toList := by decide
  have hremark : LaidOut [("a=b", "x y"), ("", "z")] _ := .remark hnone (.inl rfl) hbody hblank
  exact (ofText_of_laidOut (by decide)).2 _ hremark

end PlanArchive.Definition
