import PlanArchive.Markup.Reader
import PlanArchive.Proofs.Markup.Cut

/-!
# Names and attributes of a tag read back

The content of a start tag that was written from names, all of them different, is read back as the
element with that name and these attributes (`openTag_printHead`): the names as they are spelled,
the values as they were.
-/

namespace PlanArchive.Markup

/-- A key is gathered up to its equals sign. -/
theorem readAttributes_key {seen : List (List Char × Nat)} {start : Nat} {key : List Char}
    (hkey : ∀ c ∈ key, c ∉ signs) (pos : Nat) (soFar rest : List Char)
    (hseen : seen.lookup (key.reverse ++ soFar) = none) :
    readAttributes seen pos (.key start soFar) (key ++ '=' :: rest) =
      readAttributes seen (pos + octets key + 1) (.afterEquals start (key.reverse ++ soFar))
        rest := by
  induction key generalizing pos soFar with
  | nil =>
    simp only [List.reverse_nil, List.nil_append] at hseen
    rw [List.nil_append, readAttributes, if_pos rfl, hseen]
    rfl
  | cons c key ih =>
    have hc : c ∉ signs := hkey c (List.mem_cons_self ..)
    have hequals : c ≠ '=' := fun h => hc (by simp [signs, h])
    have hrest : ∀ d ∈ key, d ∉ signs := fun d hd => hkey d (List.mem_cons_of_mem _ hd)
    rw [List.cons_append, readAttributes, if_neg hequals, isSpace_eq_false_of_not_sign hc,
      if_neg Bool.false_ne_true, ih hrest _ _ (by simpa using hseen)]
    simp [octets, Nat.add_assoc]

/-- A value is gathered up to its closing quote. -/
theorem readAttributes_value {seen : List (List Char × Nat)} {start : Nat} {key : List Char}
    {value : List Char} (hvalue : '\x22' ∉ value) (pos : Nat) (soFar rest : List Char) :
    readAttributes seen pos (.value start key '\x22' soFar) (value ++ '\x22' :: rest) =
      .pair key.reverse (soFar.reverse ++ value) ::
        readAttributes ((key, start) :: seen) (pos + octets value + 1) .between rest := by
  induction value generalizing pos soFar with
  | nil =>
    rw [List.nil_append, readAttributes, if_pos rfl, List.append_nil]
    rfl
  | cons c value ih =>
    simp only [List.mem_cons, not_or] at hvalue
    rw [List.cons_append, readAttributes, if_neg (Ne.symm hvalue.1), ih hvalue.2]
    simp [octets, Nat.add_assoc]

section

variable (s : Spelling)

/-- An attribute as the reader of attributes finds it. -/
def rawAttribute (pair : String × String) : RawAttribute :=
  .pair (s.text pair.1.toList) (s.text (escape pair.2.toList))

theorem readAttributes_attribute {seen : List (List Char × Nat)} {key value : String}
    (hkey : isName key = true) (hseen : seen.lookup (s.text key.toList).reverse = none)
    (pos : Nat) (rest : List Char) :
    readAttributes seen pos .between (s.text (printAttribute (key, value)) ++ rest) =
      rawAttribute s (key, value) ::
        readAttributes (((s.text key.toList).reverse, pos + 1) :: seen)
          (pos + octets (s.text (printAttribute (key, value)))) .between rest := by
  obtain ⟨c, ks, hks⟩ := s.exists_cons_spelled hkey
  have hsigns : ∀ d ∈ c :: ks, d ∉ signs := fun d hd => s.not_sign_spelled hkey (hks ▸ hd)
  have hspace : isSpace c = false :=
    isSpace_eq_false_of_not_sign (hsigns c (List.mem_cons_self ..))
  have hprint : s.text (printAttribute (key, value)) =
      ' ' :: c :: (ks ++ '=' :: '\x22' :: (s.text (escape value.toList) ++ ['\x22'])) := by
    rw [s.text_printAttribute, hks]
    rfl
  have hone : ∀ d ∈ [' ', '=', '\x22'], d.utf8Size = 1 := by
    simp only [List.forall_mem_cons]
    exact ⟨rfl, rfl, rfl, List.forall_mem_nil _⟩
  rw [hks, List.reverse_cons] at hseen ⊢
  rw [hprint]
  simp only [List.cons_append, List.append_assoc, List.nil_append]
  rw [readAttributes, if_pos (by decide), hone ' ' (by simp), readAttributes, hspace,
    if_neg Bool.false_ne_true,
    readAttributes_key (fun d hd => hsigns d (List.mem_cons_of_mem _ hd)) _ _ _ hseen,
    readAttributes, if_neg (by decide), if_pos (.inl rfl), hone '\x22' (by simp),
    readAttributes_value (s.quote_not_mem _)]
  simp [rawAttribute, hks, octets, octets_append, hone, Nat.add_assoc, Nat.add_comm,
    Nat.add_left_comm]

theorem readAttributes_attributes {attributes : List (String × String)}
    (hnames : ∀ pair ∈ attributes, isName pair.1 = true) (hnodup : (Keyed.keys attributes).Nodup)
    (seen : List (List Char × Nat))
    (hseen : ∀ pair ∈ attributes, seen.lookup (s.text pair.1.toList).reverse = none) (pos : Nat) :
    readAttributes seen pos .between
        (attributes.flatMap fun pair => s.text (printAttribute pair)) =
      attributes.map (rawAttribute s) := by
  induction attributes generalizing seen pos with
  | nil => simp [readAttributes]
  | cons pair rest ih =>
    obtain ⟨key, value⟩ := pair
    simp only [Keyed.keys, List.map_cons, List.nodup_cons] at hnodup
    rw [List.flatMap_cons, List.map_cons, readAttributes_attribute s
      (hnames _ (List.mem_cons_self ..)) (hseen _ (List.mem_cons_self ..))]
    congr 1
    refine ih (fun p hp => hnames p (List.mem_cons_of_mem _ hp)) hnodup.2 _ ?_ _
    intro p hp
    -- the new key differs from every key still to come, and so do their spellings
    have hne : (s.text p.1.toList).reverse ≠ (s.text key.toList).reverse := by
      intro e
      have hk : p.1 = key := s.name_injective (hnames p (List.mem_cons_of_mem _ hp))
        (hnames _ (List.mem_cons_self ..)) (List.reverse_inj.mp e)
      exact hnodup.1 (hk ▸ List.mem_map_of_mem hp)
    rw [List.lookup_cons, beq_false_of_ne hne]
    exact hseen p (List.mem_cons_of_mem _ hp)

theorem takeWhile_name {name : String} (h : isName name = true) {rest : List Char}
    (hrest : ∀ c ∈ rest.head?, isSpace c = true) :
    (s.text name.toList ++ rest).takeWhile (!isSpace ·) = s.text name.toList ∧
      (s.text name.toList ++ rest).dropWhile (!isSpace ·) = rest := by
  have hall : ∀ c ∈ s.text name.toList, (!isSpace c) = true := fun c hc => by
    simp [isSpace_eq_false_of_not_sign (s.not_sign_spelled h hc)]
  rw [List.takeWhile_append_of_pos hall, List.dropWhile_append_of_pos hall]
  cases rest with
  | nil => simp
  | cons c rest => simp [hrest c (by simp)]

theorem splitTag_printHead {name : String} {attributes : List (String × String)}
    (hname : isName name = true) (hnames : ∀ pair ∈ attributes, isName pair.1 = true)
    (hnodup : (Keyed.keys attributes).Nodup) :
    splitTag (s.text (printHead name attributes)) =
      (s.text name.toList, attributes.map (rawAttribute s)) := by
  have hhead : ∀ c ∈ (attributes.flatMap fun pair => s.text (printAttribute pair)).head?,
      isSpace c = true := by
    cases attributes with
    | nil => simp
    | cons pair rest => simp [s.text_printAttribute, isSpace]
  obtain ⟨htake, hdrop⟩ := takeWhile_name s hname hhead
  rw [splitTag, s.text_printHead]
  simp only [htake, hdrop]
  rw [readAttributes_attributes s hnames hnodup [] (by simp)]

theorem readPairs_rawAttributes (name : String) (attributes : List (String × String)) :
    readPairs name (attributes.map (rawAttribute s)) = .ok (s.keyed attributes) := by
  induction attributes with
  | nil => rfl
  | cons pair rest ih =>
    rw [List.map_cons, rawAttribute, readPairs, s.unescape_spelled]
    simp only [ih, String.ofList_toList]
    rfl

theorem openTag_printHead {name : String} {attributes : List (String × String)}
    (hname : isName name = true) (hnames : ∀ pair ∈ attributes, isName pair.1 = true)
    (hnodup : (Keyed.keys attributes).Nodup) (line : Nat) :
    openTag line (s.text (printHead name attributes)) =
      .ok { name := s.name name, attributes := s.keyed attributes, line } := by
  rw [openTag, splitTag_printHead s hname hnames hnodup]
  simp only [readPairs_rawAttributes]
  rfl

end

end PlanArchive.Markup
