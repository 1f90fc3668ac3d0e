/-!
# Lists of keyed values

A keyed list holds its values in the order in which their keys first came. `put` keeps one slot per
key: a key that is there already keeps its place and takes the new value.
-/

namespace PlanArchive.Keyed

variable {α : Type}

def find? (key : String) : List (String × α) → Option α
  | [] => none
  | (k, v) :: rest => if k = key then some v else find? key rest

def put (key : String) (value : α) : List (String × α) → List (String × α)
  | [] => [(key, value)]
  | (k, v) :: rest => if k = key then (k, value) :: rest else (k, v) :: put key value rest

def has (key : String) (entries : List (String × α)) : Bool := (find? key entries).isSome

def keys (entries : List (String × α)) : List String := entries.map Prod.fst

/-- All pairs put one after another into an empty list. -/
def ofPairs (pairs : List (String × α)) : List (String × α) :=
  pairs.foldl (fun entries (k, v) => put k v entries) []

theorem find?_put (key k : String) (value : α) (entries : List (String × α)) :
    find? k (put key value entries) = if key = k then some value else find? k entries := by
  induction entries with
  | nil => simp [put, find?]
  | cons e rest ih =>
    obtain ⟨k', v⟩ := e
    by_cases h : k' = key
    · subst h
      by_cases h' : k' = k <;> simp [put, find?, h']
    · by_cases h' : k' = k
      · subst h'
        have hk : key ≠ k' := fun e => h e.symm
        simp [put, find?, h, hk]
      · simp [put, find?, h, h', ih]

theorem find?_eq_none_iff {key : String} {entries : List (String × α)} :
    find? key entries = none ↔ key ∉ keys entries := by
  induction entries with
  | nil => simp [find?, keys]
  | cons e rest ih =>
    obtain ⟨k, v⟩ := e
    by_cases h : k = key
    · simp [find?, keys, h]
    · have hk : key ≠ k := fun e => h e.symm
      simp only [find?, h, ↓reduceIte, ih, keys, List.map_cons, List.mem_cons, hk, false_or]

theorem keys_put (key : String) (value : α) (entries : List (String × α)) :
    keys (put key value entries) =
      if key ∈ keys entries then keys entries else keys entries ++ [key] := by
  induction entries with
  | nil => simp [put, keys]
  | cons e rest ih =>
    obtain ⟨k, v⟩ := e
    by_cases h : k = key
    · simp [put, keys, h]
    · have hk : key ≠ k := fun e => h e.symm
      have step : keys (put key value ((k, v) :: rest)) = k :: keys (put key value rest) := by
        simp [put, keys, h]
      rw [step, ih]
      by_cases hm : key ∈ keys rest <;> simp_all [keys]

end PlanArchive.Keyed
