import Mathlib.Data.List.Basic
import Mathlib.Data.List.Induction
import PlanArchive.Keyed

/-!
# Laws of keyed lists

What is looked up is there, and putting pairs of new keys appends them in order. Of the pairs of
one key the last one gives the value, and the first one the place (`ofPairs_eq_settled`). Pairs that
are there already change nothing (`putAll_of_subset`).
-/

namespace PlanArchive.Keyed

variable {α : Type} {key : String} {value : α} {entries : List (String × α)}

theorem mem_keys_of_mem (h : (key, value) ∈ entries) : key ∈ keys entries :=
  List.mem_map.mpr ⟨_, h, rfl⟩

theorem mem_of_find? (h : find? key entries = some value) : (key, value) ∈ entries := by
  induction entries with
  | nil => cases h
  | cons e rest ih =>
    obtain ⟨k, v⟩ := e
    unfold find? at h
    split at h
    · rename_i hk
      obtain rfl := hk
      obtain rfl := Option.some.inj h
      exact List.mem_cons_self ..
    · exact List.mem_cons_of_mem _ (ih h)

theorem find?_of_mem (hnodup : (keys entries).Nodup) (h : (key, value) ∈ entries) :
    find? key entries = some value := by
  induction entries with
  | nil => cases h
  | cons e rest ih =>
    obtain ⟨k, v⟩ := e
    obtain ⟨hk, hrest⟩ := List.nodup_cons.mp hnodup
    rcases List.mem_cons.mp h with heq | hmem
    · obtain ⟨rfl, rfl⟩ := Prod.mk.inj heq
      exact if_pos rfl
    · have hne : k ≠ key := by
        rintro rfl
        exact hk (mem_keys_of_mem hmem)
      rw [find?, if_neg hne]
      exact ih hrest hmem

theorem isSome_find?_iff : (find? key entries).isSome ↔ key ∈ keys entries := by
  rw [← Option.ne_none_iff_isSome, Ne, find?_eq_none_iff, not_not]

theorem mem_put {pair : String × α} (h : pair ∈ put key value entries) :
    pair = (key, value) ∨ pair ∈ entries := by
  induction entries with
  | nil => exact Or.inl (List.mem_singleton.mp h)
  | cons e rest ih =>
    obtain ⟨k, v⟩ := e
    unfold put at h
    split at h
    · rename_i hk
      obtain rfl := hk
      rcases List.mem_cons.mp h with heq | hmem
      · exact Or.inl heq
      · exact Or.inr (List.mem_cons_of_mem _ hmem)
    · rcases List.mem_cons.mp h with heq | hmem
      · exact Or.inr (heq ▸ List.mem_cons_self ..)
      · exact (ih hmem).imp_right (List.mem_cons_of_mem _)

theorem nodup_put (h : (keys entries).Nodup) (key : String) (value : α) :
    (keys (put key value entries)).Nodup := by
  rw [keys_put]
  split
  · exact h
  · rename_i hkey
    refine List.nodup_append.mpr ⟨h, by simp, fun a ha b hb e => ?_⟩
    obtain rfl := List.mem_singleton.mp hb
    exact hkey (e ▸ ha)

/-- A value that is put either gets a new place or takes the one of an earlier value. -/
theorem length_put (key : String) (value : α) (entries : List (String × α)) :
    (put key value entries).length + (find? key entries).toList.length = entries.length + 1 := by
  induction entries with
  | nil => rfl
  | cons e rest ih =>
    obtain ⟨k, v⟩ := e
    by_cases h : k = key
    · simp [put, find?, h]
    · simp only [put, find?, if_neg h, List.length_cons]
      omega

theorem put_of_not_mem (h : key ∉ keys entries) (value : α) :
    put key value entries = entries ++ [(key, value)] := by
  induction entries with
  | nil => rfl
  | cons e rest ih =>
    obtain ⟨k, v⟩ := e
    have hne : k ≠ key := fun e => h (e ▸ List.mem_cons_self ..)
    rw [put, if_neg hne, ih (fun hmem => h (List.mem_cons_of_mem _ hmem))]
    rfl

/-- Looking up in what some keys have. -/
theorem find?_filterMap (g : String → Option α) (ks : List String) :
    find? key (ks.filterMap fun k => (g k).map fun v => (k, v)) =
      if key ∈ ks then g key else none := by
  induction ks with
  | nil => rfl
  | cons k ks ih =>
    by_cases hk : k = key
    · subst hk
      cases hg : g k with
      | none => simp [hg, ih]
      | some v => simp [hg, find?]
    · have hk' : key ≠ k := fun e => hk e.symm
      cases hg : g k with
      | none => simp [hg, ih, hk']
      | some v => simp [hg, ih, hk', find?, hk]

/-- Pairs put one after another. -/
def putAll (entries pairs : List (String × α)) : List (String × α) :=
  pairs.foldl (fun entries (k, v) => put k v entries) entries

theorem putAll_of_nodup {pairs : List (String × α)} (h : (keys (entries ++ pairs)).Nodup) :
    putAll entries pairs = entries ++ pairs := by
  induction pairs generalizing entries with
  | nil => exact (List.append_nil _).symm
  | cons pair pairs ih =>
    have hnew : pair.1 ∉ keys entries := fun hmem => by
      rw [keys, List.map_append] at h
      exact (List.nodup_append.mp h).2.2 _ hmem _ (List.mem_cons_self ..) rfl
    have hstep : entries ++ pair :: pairs = entries ++ [(pair.1, pair.2)] ++ pairs := by simp
    rw [hstep] at h ⊢
    rw [← put_of_not_mem hnew pair.2] at h ⊢
    exact ih h

theorem ofPairs_of_nodup {pairs : List (String × α)} (h : (keys pairs).Nodup) :
    ofPairs pairs = pairs :=
  (putAll_of_nodup h : putAll [] pairs = [] ++ pairs)

theorem nodup_putAll (h : (keys entries).Nodup) (pairs : List (String × α)) :
    (keys (putAll entries pairs)).Nodup := by
  induction pairs generalizing entries with
  | nil => exact h
  | cons pair pairs ih => exact ih (nodup_put h pair.1 pair.2)

theorem nodup_ofPairs (pairs : List (String × α)) : (keys (ofPairs pairs)).Nodup :=
  have hnil : (keys ([] : List (String × α))).Nodup := List.nodup_nil
  nodup_putAll hnil pairs

theorem mem_putAll {pair : String × α} {pairs : List (String × α)}
    (h : pair ∈ putAll entries pairs) : pair ∈ pairs ∨ pair ∈ entries := by
  induction pairs generalizing entries with
  | nil => exact Or.inr h
  | cons first pairs ih =>
    have hstep : pair ∈ putAll (put first.1 first.2 entries) pairs := h
    rcases ih hstep with hmem | hmem
    · exact Or.inl (List.mem_cons_of_mem _ hmem)
    · rcases mem_put hmem with rfl | hmem
      · exact Or.inl (List.mem_cons_self ..)
      · exact Or.inr hmem

theorem find?_putAll_of_not_mem {pairs : List (String × α)} (h : key ∉ keys pairs) :
    find? key (putAll entries pairs) = find? key entries := by
  induction pairs generalizing entries with
  | nil => rfl
  | cons pair pairs ih =>
    have hne : pair.1 ≠ key := fun heq => h (heq ▸ List.mem_cons_self ..)
    have hstep : find? key (putAll (put pair.1 pair.2 entries) pairs) =
        find? key (put pair.1 pair.2 entries) := ih fun hmem => h (List.mem_cons_of_mem _ hmem)
    rw [find?_put, if_neg hne] at hstep
    exact hstep

theorem mem_ofPairs {pair : String × α} {pairs : List (String × α)} (h : pair ∈ ofPairs pairs) :
    pair ∈ pairs :=
  (mem_putAll (h : pair ∈ putAll [] pairs)).resolve_right List.not_mem_nil

/-! ## Repeated keys -/

/-- The last item of a kind. -/
def last? {β : Type} (kind : β → Bool) (items : List β) : Option β := (items.filter kind).getLast?

theorem last?_concat {β : Type} (kind : β → Bool) (items : List β) (item : β) :
    last? kind (items ++ [item]) = if kind item then some item else last? kind items := by
  unfold last?
  rw [List.filter_append]
  cases h : kind item <;> simp [h]

theorem mem_of_last? {β : Type} {kind : β → Bool} {items : List β} {item : β}
    (h : last? kind items = some item) : item ∈ items ∧ kind item = true :=
  List.mem_filter.mp (List.mem_of_getLast? h)

theorem isSome_last?_iff {β : Type} {kind : β → Bool} {items : List β} :
    (last? kind items).isSome ↔ ∃ item ∈ items, kind item = true := by
  rw [last?, ← Option.ne_none_iff_isSome, Ne, List.getLast?_eq_none_iff, List.filter_eq_nil_iff]
  simp

def lastValue? (key : String) (pairs : List (String × α)) : Option α :=
  ((pairs.filter (·.1 == key)).getLast?).map Prod.snd

theorem lastValue?_concat (key : String) (pairs : List (String × α)) (pair : String × α) :
    lastValue? key (pairs ++ [pair]) =
      if pair.1 = key then some pair.2 else lastValue? key pairs := by
  by_cases h : pair.1 = key <;> simp [lastValue?, h]

/-- Each key once, in the order in which the keys first came, with the value of its last pair. -/
def settled (pairs : List (String × α)) : List (String × α) :=
  (keys pairs).eraseDups.filterMap fun key => (lastValue? key pairs).map fun value => (key, value)

theorem ofPairs_concat (pairs : List (String × α)) (pair : String × α) :
    ofPairs (pairs ++ [pair]) = put pair.1 pair.2 (ofPairs pairs) := by
  rw [ofPairs, List.foldl_append]
  rfl

theorem find?_putAll (key : String) (entries pairs : List (String × α)) :
    find? key (putAll entries pairs) = (lastValue? key pairs).or (find? key entries) := by
  induction pairs using List.reverseRecOn with
  | nil => rfl
  | append_singleton pairs pair ih =>
    have hconcat : putAll entries (pairs ++ [pair]) = put pair.1 pair.2 (putAll entries pairs) := by
      rw [putAll, List.foldl_append]
      rfl
    rw [hconcat, find?_put, ih, lastValue?_concat]
    split <;> simp

theorem find?_ofPairs (key : String) (pairs : List (String × α)) :
    find? key (ofPairs pairs) = lastValue? key pairs :=
  (find?_putAll key [] pairs).trans (Option.or_none)

theorem mem_of_lastValue? {pairs : List (String × α)} (h : lastValue? key pairs = some value) :
    (key, value) ∈ pairs := by
  obtain ⟨⟨k, v⟩, hlast, rfl⟩ := Option.map_eq_some_iff.mp h
  obtain ⟨hmem, hkey⟩ := mem_of_last? hlast
  obtain rfl : k = key := beq_iff_eq.mp hkey
  exact hmem

/-- Values changed under each key. -/
theorem lastValue?_map {β : Type} (f : String → α → β) (key : String)
    (pairs : List (String × α)) :
    lastValue? key (pairs.map fun pair => (pair.1, f pair.1 pair.2)) =
      (lastValue? key pairs).map (f key) := by
  induction pairs using List.reverseRecOn with
  | nil => rfl
  | append_singleton pairs pair ih =>
    rw [List.map_append, List.map_singleton, lastValue?_concat, lastValue?_concat, ih]
    split
    · rename_i h
      rw [h]
      rfl
    · rfl

theorem keys_ofPairs (pairs : List (String × α)) :
    keys (ofPairs pairs) = (keys pairs).eraseDups := by
  induction pairs using List.reverseRecOn with
  | nil => rfl
  | append_singleton pairs pair ih =>
    have hkeys : keys (pairs ++ [pair]) = keys pairs ++ [pair.1] := List.map_append
    rw [ofPairs_concat, keys_put, ih, hkeys, List.eraseDups_append]
    by_cases h : pair.1 ∈ keys pairs
    · simp [h, List.removeAll]
    · have hone : [pair.1].eraseDups = [pair.1] := rfl
      simp [h, List.removeAll, hone]

/-- A list with different keys is known by its keys and what is found under them. -/
theorem filterMap_keys (h : (keys entries).Nodup) :
    ((keys entries).filterMap fun key => (find? key entries).map fun value => (key, value)) =
      entries := by
  rw [keys, List.filterMap_map]
  calc
    entries.filterMap _ = entries.filterMap some := by
      apply List.filterMap_congr
      intro entry hentry
      rw [Function.comp_apply, find?_of_mem h hentry, Option.map_some]
    _ = entries := List.filterMap_some

theorem ofPairs_eq_settled (pairs : List (String × α)) : ofPairs pairs = settled pairs := by
  rw [settled, ← keys_ofPairs]
  simp only [← find?_ofPairs]
  exact (filterMap_keys (nodup_ofPairs pairs)).symm

theorem mem_settled {pairs : List (String × α)} :
    (key, value) ∈ settled pairs ↔ lastValue? key pairs = some value := by
  rw [← ofPairs_eq_settled, ← find?_ofPairs]
  exact ⟨find?_of_mem (nodup_ofPairs pairs), mem_of_find?⟩

theorem lastValue?_settled (key : String) (pairs : List (String × α)) :
    lastValue? key (settled pairs) = lastValue? key pairs := by
  rw [← ofPairs_eq_settled, ← find?_ofPairs, ofPairs_of_nodup (nodup_ofPairs pairs), find?_ofPairs]

/-- The pair is the last one of its key. -/
def IsLast (pair : String × α) (pairs : List (String × α)) : Prop :=
  ∃ before after, pairs = before ++ pair :: after ∧ pair.1 ∉ keys after

theorem lastValue?_eq_some_iff {pairs : List (String × α)} :
    lastValue? key pairs = some value ↔ IsLast (key, value) pairs := by
  rw [lastValue?, List.getLast?_filter, Option.map_eq_some_iff]
  constructor
  · rintro ⟨⟨k, v⟩, hfind, rfl⟩
    -- the pairs are searched from the end, so what the search passes over comes after
    obtain ⟨hkey, passed, rest, hsplit, hpassed⟩ := List.find?_eq_some_iff_append.mp hfind
    obtain rfl : k = key := beq_iff_eq.mp hkey
    refine ⟨rest.reverse, passed.reverse, ?_, fun hmem => ?_⟩
    · rw [← List.reverse_reverse pairs, hsplit]
      simp
    · obtain ⟨pair, hpair, hsame⟩ := List.mem_map.mp hmem
      have hother := hpassed pair (List.mem_reverse.mp hpair)
      simp [hsame] at hother
  · rintro ⟨before, after, rfl, hlast⟩
    refine ⟨(key, value), List.find?_eq_some_iff_append.mpr ⟨beq_self_eq_true key, after.reverse,
      before.reverse, by simp, fun pair hpair => ?_⟩, rfl⟩
    have hne : pair.1 ≠ key := by
      rintro rfl
      exact hlast (mem_keys_of_mem (List.mem_reverse.mp hpair))
    simp [hne]

/-! ## The order of the keys -/

theorem mem_keys_ofPairs {pairs : List (String × α)} :
    key ∈ keys (ofPairs pairs) ↔ key ∈ keys pairs := by
  rw [keys_ofPairs, List.mem_eraseDups]

/-- The first pair of the one key comes before the first pair of the other. -/
def CameBefore (pairs : List (String × α)) (key later : String) : Prop :=
  (keys pairs).idxOf key < (keys pairs).idxOf later

theorem idxOf_keys_append {pairs : List (String × α)} (h : key ∈ keys pairs)
    (more : List (String × α)) : (keys (pairs ++ more)).idxOf key = (keys pairs).idxOf key := by
  rw [keys, List.map_append]
  exact List.idxOf_append_of_mem h

theorem cameBefore_concat {pairs : List (String × α)} {pair : String × α} (hkey : key ∈ keys pairs)
    (hnew : pair.1 ∉ keys pairs) : CameBefore (pairs ++ [pair]) key pair.1 := by
  have hlast : (keys (pairs ++ [pair])).idxOf pair.1 = (keys pairs).length := by
    rw [keys, List.map_append]
    exact (List.idxOf_append_of_notMem hnew).trans (by simp [keys])
  rw [CameBefore, idxOf_keys_append hkey, hlast]
  exact List.idxOf_lt_length_iff.mpr hkey

/-- A key that is there keeps its place, and a new one comes after all others. -/
theorem pairwise_cameBefore_put {pairs : List (String × α)}
    (hkeys : ∀ key, key ∈ keys entries ↔ key ∈ keys pairs)
    (h : (keys entries).Pairwise (CameBefore pairs)) (pair : String × α) :
    (keys (put pair.1 pair.2 entries)).Pairwise (CameBefore (pairs ++ [pair])) := by
  have hkept : (keys entries).Pairwise (CameBefore (pairs ++ [pair])) := by
    refine h.imp_of_mem fun hkey hlater hbefore => ?_
    rw [CameBefore, idxOf_keys_append ((hkeys _).mp hkey), idxOf_keys_append ((hkeys _).mp hlater)]
    exact hbefore
  rw [keys_put]
  split
  · exact hkept
  · rename_i hnew
    have hlast : ∀ key ∈ keys entries, CameBefore (pairs ++ [pair]) key pair.1 := fun key hkey =>
      cameBefore_concat ((hkeys key).mp hkey) fun hmem => hnew ((hkeys _).mpr hmem)
    refine List.pairwise_append.mpr ⟨hkept, List.pairwise_singleton .., fun key hkey => ?_⟩
    exact List.forall_mem_singleton.mpr (hlast key hkey)

theorem pairwise_cameBefore_ofPairs (pairs : List (String × α)) :
    (keys (ofPairs pairs)).Pairwise (CameBefore pairs) := by
  induction pairs using List.reverseRecOn with
  | nil => exact .nil
  | append_singleton pairs pair ih =>
    rw [ofPairs_concat]
    exact pairwise_cameBefore_put (fun _ => mem_keys_ofPairs) ih pair

/-! ## Pairs that are there already -/

theorem put_of_mem (hnodup : (keys entries).Nodup) (h : (key, value) ∈ entries) :
    put key value entries = entries := by
  induction entries with
  | nil => cases h
  | cons e rest ih =>
    obtain ⟨k, v⟩ := e
    obtain ⟨hk, hrest⟩ := List.nodup_cons.mp hnodup
    rcases List.mem_cons.mp h with heq | hmem
    · obtain ⟨rfl, rfl⟩ := Prod.mk.inj heq
      exact if_pos rfl
    · have hne : k ≠ key := by
        rintro rfl
        exact hk (mem_keys_of_mem hmem)
      rw [put, if_neg hne, ih hrest hmem]

theorem putAll_of_subset (hnodup : (keys entries).Nodup) {pairs : List (String × α)}
    (h : pairs ⊆ entries) : putAll entries pairs = entries := by
  induction pairs with
  | nil => rfl
  | cons pair pairs ih =>
    obtain ⟨hpair, hpairs⟩ := List.cons_subset.mp h
    have hstep : putAll (put pair.1 pair.2 entries) pairs = entries := by
      rw [put_of_mem hnodup hpair]
      exact ih hpairs
    exact hstep

theorem ofPairs_append_of_subset {pairs more : List (String × α)} (h : more ⊆ ofPairs pairs) :
    ofPairs (pairs ++ more) = ofPairs pairs := by
  rw [ofPairs, List.foldl_append]
  exact putAll_of_subset (nodup_ofPairs pairs) h

end PlanArchive.Keyed
