import PlanArchive.Markup.Reference

/-!
# Escaped text

Each character is escaped to itself or to a reference to its name (`escapeChar_cases`), which is
gathered up to its semicolon. Escaped text holds none of the characters that would end it
(`not_mem_escape`).
-/

namespace PlanArchive.Markup

/-- The characters that have a name. -/
def escaped : List Char := ['<', '>', '&', '\x27', '\x22']

/-- The names of the characters that have one. -/
def entityNames : List (List Char) :=
  ["lt".toList, "gt".toList, "amp".toList, "apos".toList, "quot".toList]

/-- A character is written as itself, or as a reference to a name that stands for it. -/
theorem escapeChar_cases (c : Char) :
    (c ∉ escaped ∧ escapeChar c = [c]) ∨
      ∃ name ∈ entityNames, escapeChar c = '&' :: name ++ [';'] ∧
        named (String.ofList name) = some c := by
  by_cases h1 : c = '<'
  · subst h1
    exact .inr ⟨['l', 't'], by decide⟩
  by_cases h2 : c = '>'
  · subst h2
    exact .inr ⟨['g', 't'], by decide⟩
  by_cases h3 : c = '&'
  · subst h3
    exact .inr ⟨['a', 'm', 'p'], by decide⟩
  by_cases h4 : c = '\x27'
  · subst h4
    exact .inr ⟨['a', 'p', 'o', 's'], by decide⟩
  by_cases h5 : c = '\x22'
  · subst h5
    exact .inr ⟨['q', 'u', 'o', 't'], by decide⟩
  · exact .inl (by simp [escaped, escapeChar, h1, h2, h3, h4, h5])

theorem plain_of_mem_entityNames :
    ∀ name ∈ entityNames, ∀ c ∈ name, c ∉ escaped ∧ c ≠ ';' := by
  simp [entityNames, escaped]

/-- The name of a reference is gathered up to its semicolon. -/
theorem unescapeFrom_name (total start : Nat) {name : List Char}
    (h : ∀ c ∈ name, c ≠ ';' ∧ c ≠ '&') (pos : Nat) (soFar rest : List Char) :
    ∃ stop, unescapeFrom total pos (some (start, soFar)) (name ++ ';' :: rest) =
      (do
        let d ← referred (start + 1) stop (soFar.reverse ++ name)
        return d :: (← unescapeFrom total (stop + 1) none rest)) := by
  induction name generalizing pos soFar with
  | nil => exact ⟨pos, by simp [unescapeFrom]⟩
  | cons c name ih =>
    obtain ⟨hsemi, hamp⟩ := h c (List.mem_cons_self ..)
    obtain ⟨stop, hstop⟩ := ih (fun d hd => h d (List.mem_cons_of_mem _ hd))
      (pos + c.utf8Size) (c :: soFar)
    refine ⟨stop, ?_⟩
    rw [List.cons_append, unescapeFrom, if_neg hsemi, if_neg hamp, hstop]
    simp

theorem referred_of_named {name : List Char} {c : Char} (hmem : name ∈ entityNames)
    (hc : named (String.ofList name) = some c) (start stop : Nat) :
    referred start stop name = .ok c := by
  simp only [entityNames, List.mem_cons, List.not_mem_nil, or_false] at hmem
  rcases hmem with rfl | rfl | rfl | rfl | rfl <;> simp_all [referred]

theorem escape_eq_nil_iff {cs : List Char} : escape cs = [] ↔ cs = [] := by
  cases cs with
  | nil => simp [escape]
  | cons c cs =>
    have step : escape (c :: cs) = escapeChar c ++ escape cs := rfl
    rcases escapeChar_cases c with ⟨_, he⟩ | ⟨name, _, he, _⟩ <;> simp [step, he]

theorem not_mem_escapeChar {c d : Char} (hc : c ∈ escaped) (hamp : c ≠ '&') :
    c ∉ escapeChar d := by
  rcases escapeChar_cases d with ⟨hd, he⟩ | ⟨name, hmem, he, _⟩
  · rw [he, List.mem_singleton]
    intro h
    exact hd (h ▸ hc)
  · have hsemi : c ≠ ';' := fun h => by
      rw [h] at hc
      exact absurd hc (by decide)
    simp only [he, List.cons_append, List.mem_cons, List.mem_append, List.not_mem_nil, or_false,
      not_or]
    exact ⟨hamp, fun h => (plain_of_mem_entityNames name hmem c h).1 hc, hsemi⟩

/-- Of the characters that have a name only the ampersand is left. -/
theorem not_mem_escape {c : Char} (hc : c ∈ escaped) (hamp : c ≠ '&') (cs : List Char) :
    c ∉ escape cs := by
  simp only [escape, List.mem_flatMap, not_exists, not_and]
  intro _ _
  exact not_mem_escapeChar hc hamp

end PlanArchive.Markup
