/-!
# Texts in pieces

`splitAtChar sep` cuts a text at every `sep`. There is one piece more than there are separators,
and none of the pieces holds one.
-/

namespace PlanArchive.Text

def splitAtChar (sep : Char) : List Char → List (List Char)
  | [] => [[]]
  | c :: rest =>
    if c = sep then [] :: splitAtChar sep rest
    else match splitAtChar sep rest with
      | piece :: pieces => (c :: piece) :: pieces
      | [] => [[c]]

theorem splitAtChar_ne_nil (sep : Char) (cs : List Char) : splitAtChar sep cs ≠ [] := by
  cases cs with
  | nil => simp [splitAtChar]
  | cons c rest =>
    rw [splitAtChar]
    split
    · simp
    · split <;> simp

theorem not_mem_of_mem_splitAtChar {sep : Char} {cs piece : List Char}
    (h : piece ∈ splitAtChar sep cs) : sep ∉ piece := by
  induction cs generalizing piece with
  | nil => simp_all [splitAtChar]
  | cons c rest ih =>
    rw [splitAtChar] at h
    split at h
    · rcases List.mem_cons.1 h with rfl | h
      · simp
      · exact ih h
    · rename_i hc
      split at h
      · rename_i first pieces he
        rcases List.mem_cons.1 h with rfl | h
        · have : sep ∉ first := ih (by simp [he])
          simp [this, Ne.symm hc]
        · exact ih (by simp [he, h])
      · rename_i he
        exact absurd he (splitAtChar_ne_nil sep rest)

end PlanArchive.Text
