import Mathlib.Data.List.Induction
import Mathlib.Data.List.Nodup
import Mathlib.Data.List.Perm.Basic
import Mathlib.Data.List.Sort
import PlanArchive.Proofs.Naming.Unreadable

/-!
# What a sequence of entries leaves

Each entry writes its tags one by one, and then the first of them as the tag of its type. What the
table holds is what was written last, each write that found something is on the list of collisions,
and every write either fills a new slot or is on that list (`tallies_ofEntries`). With nothing on
the list no two writes are to one slot, so the order of the entries does not matter
(`paired_of_no_collisions`).
-/

namespace PlanArchive.Naming

/-! ## Writes -/

/-- What an entry can set: the type that a tag stands for, or the tag that a type is written as. -/
inductive Slot
  | typeOf (tag : String)
  | tagFor (typeId : String)
  deriving DecidableEq

def Slot.isTypeOf : Slot → Bool
  | .typeOf _ => true
  | .tagFor _ => false

structure Write where
  slot : Slot
  value : String

/-- The collision of a write that finds a value in its slot. -/
def Write.collision (w : Write) (previous : String) : Collision :=
  match w.slot with
  | .typeOf tag => .tagTaken tag w.value previous
  | .tagFor typeId => .typeRenamed typeId w.value previous

def Collision.isTagTaken : Collision → Bool
  | .tagTaken .. => true
  | .typeRenamed .. => false

theorem Write.isTagTaken_collision (w : Write) (previous : String) :
    (w.collision previous).isTagTaken = w.slot.isTypeOf := by
  unfold collision
  cases w.slot <;> rfl

/-- The last write to a slot. -/
def lastWrite? (slot : Slot) (writes : List Write) : Option Write :=
  Keyed.last? (·.slot == slot) writes

theorem lastWrite?_eq_none_iff {slot : Slot} {writes : List Write} :
    lastWrite? slot writes = none ↔ slot ∉ writes.map Write.slot := by
  simp [lastWrite?, Keyed.last?]

/-- The collisions of the writes whose slot was written before, each with what was written there
last. -/
def overwritten (writes : List Write) : List Collision :=
  writes.zipIdx.filterMap fun (w, i) =>
    (lastWrite? w.slot (writes.take i)).map fun earlier => w.collision earlier.value

theorem overwritten_concat (writes : List Write) (w : Write) :
    overwritten (writes ++ [w]) = overwritten writes ++
      ((lastWrite? w.slot writes).map fun earlier => w.collision earlier.value).toList := by
  have hfront : writes.zipIdx.filterMap (fun (w', i) =>
      (lastWrite? w'.slot ((writes ++ [w]).take i)).map fun earlier =>
        w'.collision earlier.value) = overwritten writes := by
    apply List.filterMap_congr
    rintro ⟨w', i⟩ hmem
    have hi : i ≤ writes.length := (List.mem_zipIdx' hmem).1.le
    simp only [List.take_append_of_le_length hi]
  unfold overwritten at hfront ⊢
  rw [List.zipIdx_append, List.filterMap_append, hfront]
  cases hlast : lastWrite? w.slot writes <;> simp [hlast]

/-- Nothing is overwritten just when no two writes are to one slot. -/
theorem overwritten_eq_nil_iff {writes : List Write} :
    overwritten writes = [] ↔ (writes.map Write.slot).Nodup := by
  induction writes using List.reverseRecOn with
  | nil => simp [overwritten]
  | append_singleton writes w ih =>
    have hlast : ((lastWrite? w.slot writes).map fun earlier =>
        w.collision earlier.value).toList = [] ↔ w.slot ∉ writes.map Write.slot := by
      rw [← lastWrite?_eq_none_iff]
      cases lastWrite? w.slot writes <;> simp
    rw [overwritten_concat, List.append_eq_nil_iff, ih, hlast, List.map_append, List.map_singleton,
      ← List.concat_eq_append, List.nodup_concat, and_comm]

/-- Where no two writes are to one slot, each is the last to its own. -/
theorem lastWrite?_of_mem {writes : List Write} (h : (writes.map Write.slot).Nodup) {w : Write}
    (hw : w ∈ writes) : lastWrite? w.slot writes = some w := by
  cases hlast : lastWrite? w.slot writes with
  | none => exact absurd (List.mem_map_of_mem hw) (lastWrite?_eq_none_iff.mp hlast)
  | some last =>
    obtain ⟨hmem, hslot⟩ := Keyed.mem_of_last? hlast
    rw [List.inj_on_of_nodup_map h hmem hw (beq_iff_eq.mp hslot)]

namespace TagTable

/-! ## The table behind some writes -/

def holds (table : TagTable) : Slot → Option String
  | .typeOf tag => table.lookupType tag
  | .tagFor typeId => table.lookupTag typeId

def write (table : TagTable) (w : Write) : TagTable :=
  match w.slot with
  | .typeOf tag => addTag w.value table tag
  | .tagFor typeId => setPrimary typeId w.value table

def written (writes : List Write) : TagTable := writes.foldl write {}

/-- How many slots of one kind are filled. -/
def filled (table : TagTable) (typesOfTags : Bool) : Nat :=
  if typesOfTags then table.size else table.typeIds.length

theorem holds_write (table : TagTable) (w : Write) (slot : Slot) :
    (table.write w).holds slot = if w.slot = slot then some w.value else table.holds slot := by
  obtain ⟨place, value⟩ := w
  cases place with
  | typeOf tag =>
    cases slot with
    | typeOf other => simp [write, holds, lookupType_addTag]
    | tagFor typeId => rfl
  | tagFor typeId =>
    cases slot with
    | typeOf tag => rfl
    | tagFor other =>
      have hput := Keyed.find?_put typeId other value table.primaries
      simp only [Slot.tagFor.injEq]
      exact hput

theorem collisions_write (table : TagTable) (w : Write) :
    (table.write w).collisions =
      table.collisions ++ ((table.holds w.slot).map w.collision).toList := by
  obtain ⟨slot, value⟩ := w
  cases slot <;> rfl

/-- A write fills a new slot or finds a value. -/
theorem filled_write (table : TagTable) (w : Write) (kind : Bool) :
    (table.write w).filled kind +
        (if w.slot.isTypeOf = kind then (table.holds w.slot).toList.length else 0) =
      table.filled kind + if w.slot.isTypeOf = kind then 1 else 0 := by
  obtain ⟨slot, value⟩ := w
  cases slot with
  | typeOf tag =>
    cases kind with
    | true => exact Keyed.length_put tag value table.types
    | false => rfl
  | tagFor typeId =>
    cases kind with
    | true => rfl
    | false =>
      have hlength := Keyed.length_put typeId value table.primaries
      simpa [filled, typeIds, Keyed.keys, write, setPrimary, holds, lookupTag, Slot.isTypeOf]
        using hlength

theorem written_concat (writes : List Write) (w : Write) :
    written (writes ++ [w]) = (written writes).write w :=
  List.foldl_concat ..

theorem holds_written (writes : List Write) (slot : Slot) :
    (written writes).holds slot = (lastWrite? slot writes).map Write.value := by
  induction writes using List.reverseRecOn with
  | nil => cases slot <;> rfl
  | append_singleton writes w ih =>
    rw [written_concat, holds_write, ih, lastWrite?, lastWrite?, Keyed.last?_concat]
    by_cases h : w.slot = slot <;> simp [h]

theorem collisions_written (writes : List Write) :
    (written writes).collisions = overwritten writes := by
  induction writes using List.reverseRecOn with
  | nil => rfl
  | append_singleton writes w ih =>
    rw [written_concat, collisions_write, ih, overwritten_concat, holds_written, Option.map_map]
    rfl

theorem filled_written (writes : List Write) (kind : Bool) :
    (written writes).filled kind +
        (written writes).collisions.countP (·.isTagTaken == kind) =
      writes.countP (·.slot.isTypeOf == kind) := by
  induction writes using List.reverseRecOn with
  | nil => cases kind <;> rfl
  | append_singleton writes w ih =>
    have hstep := filled_write (written writes) w kind
    have hcount : ((((written writes).holds w.slot).map w.collision).toList).countP
        (·.isTagTaken == kind) = if w.slot.isTypeOf = kind then
          ((written writes).holds w.slot).toList.length else 0 := by
      cases (written writes).holds w.slot with
      | none => simp
      | some previous => simp [w.isTagTaken_collision, List.countP_cons]
    rw [written_concat, collisions_write, List.countP_append, List.countP_append, hcount, ← ih]
    simp only [List.countP_cons, List.countP_nil, beq_iff_eq]
    omega

theorem nodup_typeIds_written (writes : List Write) : (written writes).typeIds.Nodup := by
  induction writes using List.reverseRecOn with
  | nil => exact List.nodup_nil
  | append_singleton writes w ih =>
    obtain ⟨slot, value⟩ := w
    rw [written_concat]
    cases slot with
    | typeOf tag => exact ih
    | tagFor typeId => exact Keyed.nodup_put ih typeId value

/-! ## Entries as writes -/

/-- Each tag of the list is given to the type, and then the type is given the first of them. -/
def writesOf (entry : String × String) : List Write :=
  (tagsOf entry.1).map (fun tag => ⟨.typeOf tag, entry.2⟩) ++
    ((tagsOf entry.1).head?.map fun primary => ⟨.tagFor entry.2, primary⟩).toList

theorem register_eq (table : TagTable) (entry : String × String) :
    table.register entry.1 entry.2 = (writesOf entry).foldl write table := by
  obtain ⟨list, typeId⟩ := entry
  unfold register writesOf
  cases tagsOf list with
  | nil => rfl
  | cons primary others =>
    rw [List.foldl_append, List.foldl_map]
    rfl

theorem ofEntries_eq (entries : List (String × String)) :
    ofEntries entries = written (entries.flatMap writesOf) := by
  have hstep : (fun table entry => register entry.1 entry.2 table) =
      fun table entry => (writesOf entry).foldl write table := by
    funext table entry
    exact table.register_eq entry
  rw [written, List.foldl_flatMap, ← hstep]
  rfl

theorem mem_writesOf {entry : String × String} {w : Write} :
    w ∈ writesOf entry ↔ (∃ tag ∈ tagsOf entry.1, w = ⟨.typeOf tag, entry.2⟩) ∨
      ∃ primary, (tagsOf entry.1).head? = some primary ∧ w = ⟨.tagFor entry.2, primary⟩ := by
  simp [writesOf, eq_comm]

theorem countP_typeOf (entries : List (String × String)) :
    (entries.flatMap writesOf).countP (·.slot.isTypeOf) =
      (entries.flatMap fun entry => tagsOf entry.1).length := by
  induction entries with
  | nil => rfl
  | cons entry entries ih =>
    have hentry : (writesOf entry).countP (·.slot.isTypeOf) = (tagsOf entry.1).length := by
      unfold writesOf
      rw [List.countP_append, List.countP_map]
      cases (tagsOf entry.1).head? <;> simp [Function.comp_def, Slot.isTypeOf]
    rw [List.flatMap_cons, List.countP_append, hentry, ih, List.flatMap_cons, List.length_append]

theorem countP_tagFor (entries : List (String × String)) :
    (entries.flatMap writesOf).countP (!·.slot.isTypeOf) =
      entries.countP fun entry => !(tagsOf entry.1).isEmpty := by
  induction entries with
  | nil => rfl
  | cons entry entries ih =>
    have hentry : (writesOf entry).countP (!·.slot.isTypeOf) =
        if (tagsOf entry.1).isEmpty then 0 else 1 := by
      unfold writesOf
      rw [List.countP_append, List.countP_map]
      cases tagsOf entry.1 <;> simp [Function.comp_def, Slot.isTypeOf]
    rw [List.flatMap_cons, List.countP_append, hentry, ih, List.countP_cons, Nat.add_comm]
    cases (tagsOf entry.1).isEmpty <;> rfl

theorem ofEntries_concat (entries : List (String × String)) (entry : String × String) :
    ofEntries (entries ++ [entry]) = (ofEntries entries).register entry.1 entry.2 :=
  List.foldl_concat ..

/-! ## The accounts of a table -/

theorem lookupType_ofEntries (entries : List (String × String)) (tag : String) :
    (ofEntries entries).lookupType tag =
      (Keyed.last? (fun entry => (tagsOf entry.1).contains tag) entries).map Prod.snd := by
  induction entries using List.reverseRecOn with
  | nil => rfl
  | append_singleton entries entry ih =>
    rw [ofEntries_concat, lookupType_register, Keyed.last?_concat, ih]
    by_cases h : tag ∈ tagsOf entry.1 <;> simp [h]

theorem lookupTag_ofEntries (entries : List (String × String)) (typeId : String) :
    (ofEntries entries).lookupTag typeId =
      (Keyed.last? (fun entry => entry.2 == typeId && !(tagsOf entry.1).isEmpty) entries).bind
        fun entry => (tagsOf entry.1).head? := by
  induction entries using List.reverseRecOn with
  | nil => rfl
  | append_singleton entries entry ih =>
    rw [ofEntries_concat, lookupTag_register, Keyed.last?_concat, ih]
    by_cases htype : entry.2 = typeId
    · cases htags : tagsOf entry.1 <;> simp [htype, htags]
    · simp [htype]

/-- The types of a table are those of its entries with a tag. -/
theorem mem_typeIds_ofEntries (entries : List (String × String)) (typeId : String) :
    typeId ∈ (ofEntries entries).typeIds ↔
      ∃ entry ∈ entries, entry.2 = typeId ∧ tagsOf entry.1 ≠ [] := by
  rw [mem_typeIds]
  induction entries using List.reverseRecOn with
  | nil => simp [ofEntries, lookupTag, Keyed.find?]
  | append_singleton entries entry ih =>
    rw [ofEntries_concat, lookupTag_register]
    simp only [List.mem_append, List.mem_singleton, or_and_right, exists_or, exists_eq_left, ← ih]
    by_cases htype : entry.2 = typeId
    · cases htags : tagsOf entry.1 <;> simp [htype]
    · simp [htype]

/-- What a table holds and which collisions it lists, in terms of the entries it was made from. -/
structure Tallies (table : TagTable) (entries : List (String × String)) : Prop where
  /-- A tag stands for the type of the last entry that has it. -/
  type_eq : ∀ tag, table.lookupType tag =
    (Keyed.last? (fun entry => (tagsOf entry.1).contains tag) entries).map Prod.snd
  /-- A type is written as the first tag of its last entry that has any. -/
  tag_eq : ∀ typeId, table.lookupTag typeId =
    (Keyed.last? (fun entry => entry.2 == typeId && !(tagsOf entry.1).isEmpty) entries).bind
      fun entry => (tagsOf entry.1).head?
  type_has_tag : ∀ tag typeId, table.lookupType tag = some typeId →
    (table.lookupTag typeId).isSome
  tag_has_type : ∀ typeId tag, table.lookupTag typeId = some tag →
    (table.lookupType tag).isSome
  /-- Each tag of each entry is a new one or takes over another. -/
  tags_counted : table.size + table.collisions.countP Collision.isTagTaken =
    (entries.flatMap fun entry => tagsOf entry.1).length
  /-- Each entry with tags is for a new type or renames one. -/
  types_counted : table.typeIds.length + table.collisions.countP (!·.isTagTaken) =
    entries.countP fun entry => !(tagsOf entry.1).isEmpty
  collisions_eq : table.collisions = overwritten (entries.flatMap writesOf)

theorem tag_has_type_ofEntries {entries : List (String × String)} {typeId tag : String}
    (h : (ofEntries entries).lookupTag typeId = some tag) :
    ((ofEntries entries).lookupType tag).isSome := by
  rw [lookupTag_ofEntries] at h
  obtain ⟨entry, hentry, hhead⟩ := Option.bind_eq_some_iff.mp h
  obtain ⟨hmem, -⟩ := Keyed.mem_of_last? hentry
  have htag : tag ∈ tagsOf entry.1 := List.mem_of_head? hhead
  rw [lookupType_ofEntries, Option.isSome_map, Keyed.isSome_last?_iff]
  exact ⟨entry, hmem, List.contains_iff_mem.mpr htag⟩

/-- Whatever the entries, the table accounts for each of them. -/
theorem tallies_ofEntries (entries : List (String × String)) :
    (ofEntries entries).Tallies entries where
  type_eq := lookupType_ofEntries entries
  tag_eq := lookupTag_ofEntries entries
  type_has_tag := closed_ofEntries entries
  tag_has_type _ _ := tag_has_type_ofEntries
  tags_counted := by
    have hfilled := filled_written (entries.flatMap writesOf) true
    simp only [← ofEntries_eq, beq_true, countP_typeOf] at hfilled
    exact hfilled
  types_counted := by
    have hfilled := filled_written (entries.flatMap writesOf) false
    simp only [← ofEntries_eq, beq_false, countP_tagFor] at hfilled
    exact hfilled
  collisions_eq := by
    rw [ofEntries_eq, collisions_written]

/-! ## Entries without collisions -/

section

variable {entries entries' : List (String × String)}

theorem collisions_eq_nil_iff :
    (ofEntries entries).collisions = [] ↔ ((entries.flatMap writesOf).map Write.slot).Nodup := by
  rw [ofEntries_eq, collisions_written, overwritten_eq_nil_iff]

/-- Every write stays. -/
theorem holds_of_mem (hnone : (ofEntries entries).collisions = []) {w : Write}
    (hw : w ∈ entries.flatMap writesOf) : (ofEntries entries).holds w.slot = some w.value := by
  rw [ofEntries_eq, holds_written, lastWrite?_of_mem (collisions_eq_nil_iff.mp hnone) hw,
    Option.map_some]

theorem exists_write_of_holds {slot : Slot} {value : String}
    (h : (ofEntries entries).holds slot = some value) :
    ∃ w ∈ entries.flatMap writesOf, w.slot = slot ∧ w.value = value := by
  rw [ofEntries_eq, holds_written] at h
  obtain ⟨w, hlast, hvalue⟩ := Option.map_eq_some_iff.mp h
  obtain ⟨hmem, hslot⟩ := Keyed.mem_of_last? hlast
  exact ⟨w, hmem, beq_iff_eq.mp hslot, hvalue⟩

theorem collisions_perm (h : entries.Perm entries') (hnone : (ofEntries entries).collisions = []) :
    (ofEntries entries').collisions = [] :=
  collisions_eq_nil_iff.mpr
    (((h.flatMap_right writesOf).map Write.slot).nodup_iff.mp (collisions_eq_nil_iff.mp hnone))

theorem holds_perm (h : entries.Perm entries') (hnone : (ofEntries entries).collisions = [])
    (slot : Slot) : (ofEntries entries').holds slot = (ofEntries entries).holds slot := by
  have hkept : ∀ {first second : List (String × String)} {value : String}, first.Perm second →
      (ofEntries second).collisions = [] → (ofEntries first).holds slot = some value →
        (ofEntries second).holds slot = some value := by
    intro first second value hperm hnone hvalue
    obtain ⟨w, hw, rfl, rfl⟩ := exists_write_of_holds hvalue
    exact holds_of_mem hnone ((hperm.flatMap_right writesOf).mem_iff.mp hw)
  refine Option.ext fun value => ?_
  exact ⟨hkept h.symm hnone, hkept h (collisions_perm h hnone)⟩

/-- The types with a tag that are neither known nor renamed, however it is told which types were
renamed. -/
def unread (table : TagTable) (renamed : String → Bool) (known : KnownTypes) : List String :=
  (table.typeIds.filter fun typeId => !renamed typeId && !known.contains typeId).mergeSort (· ≤ ·)

theorem unreadable_eq_unread (resolver : Resolver) :
    resolver.unreadable = resolver.tags.unread resolver.renames.isRenamed resolver.known :=
  rfl

theorem unread_perm {table other : TagTable} (h : table.typeIds.Perm other.typeIds)
    (renamed : String → Bool) (known : KnownTypes) :
    other.unread renamed known = table.unread renamed known := by
  have hperm := (h.filter fun typeId => !renamed typeId && !known.contains typeId).symm
  refine List.Perm.eq_of_pairwise' (List.pairwise_mergeSort' (· ≤ ·) _)
    (List.pairwise_mergeSort' (· ≤ ·) _) ?_
  exact ((List.mergeSort_perm _ _).trans hperm).trans (List.mergeSort_perm _ _).symm

theorem nodup_typeIds_ofEntries (entries : List (String × String)) :
    (ofEntries entries).typeIds.Nodup := by
  rw [ofEntries_eq]
  exact nodup_typeIds_written _

theorem typeIds_perm (h : entries.Perm entries') (hnone : (ofEntries entries).collisions = []) :
    (ofEntries entries).typeIds.Perm (ofEntries entries').typeIds := by
  refine (List.perm_ext_iff_of_nodup (nodup_typeIds_ofEntries _)
    (nodup_typeIds_ofEntries _)).mpr fun typeId => ?_
  have htag : (ofEntries entries').lookupTag typeId = (ofEntries entries).lookupTag typeId :=
    holds_perm h hnone (.tagFor typeId)
  rw [mem_typeIds, mem_typeIds, htag]

/-- The tables are looked up alike and have the same unreadable types. -/
structure Alike (table other : TagTable) : Prop where
  type_eq : ∀ tag, other.lookupType tag = table.lookupType tag
  tag_eq : ∀ typeId, other.lookupTag typeId = table.lookupTag typeId
  unread_eq : ∀ renamed known, other.unread renamed known = table.unread renamed known
  unreadable_eq : ∀ renames known,
    (Resolver.mk other renames known).unreadable = (Resolver.mk table renames known).unreadable

theorem alike_perm (h : entries.Perm entries') (hnone : (ofEntries entries).collisions = []) :
    (ofEntries entries).Alike (ofEntries entries') where
  type_eq tag := holds_perm h hnone (.typeOf tag)
  tag_eq typeId := holds_perm h hnone (.tagFor typeId)
  unread_eq := unread_perm (typeIds_perm h hnone)
  unreadable_eq renames known := by
    rw [unreadable_eq_unread, unreadable_eq_unread]
    exact unread_perm (typeIds_perm h hnone) renames.isRenamed known

end

/-- With no collisions tags and types are paired as the entries say, and in any order the entries
say the same. -/
theorem paired_of_no_collisions {entries : List (String × String)}
    (hnone : (ofEntries entries).collisions = []) :
    (∀ typeId ∈ (ofEntries entries).typeIds,
      (ofEntries entries).typeOf ((ofEntries entries).tagFor typeId) = typeId) ∧
    (∀ entry ∈ entries,
      (∀ tag ∈ tagsOf entry.1, (ofEntries entries).lookupType tag = some entry.2) ∧
      ∀ primary, (tagsOf entry.1).head? = some primary →
        (ofEntries entries).lookupTag entry.2 = some primary) ∧
    ∀ entries', entries.Perm entries' →
      (ofEntries entries').collisions = [] ∧ (ofEntries entries).Alike (ofEntries entries') := by
  have hentry : ∀ entry ∈ entries,
      (∀ tag ∈ tagsOf entry.1, (ofEntries entries).lookupType tag = some entry.2) ∧
      ∀ primary, (tagsOf entry.1).head? = some primary →
        (ofEntries entries).lookupTag entry.2 = some primary := by
    intro entry hentry
    have hwrites : ∀ w ∈ writesOf entry, (ofEntries entries).holds w.slot = some w.value :=
      fun w hw => holds_of_mem hnone (List.mem_flatMap.mpr ⟨entry, hentry, hw⟩)
    refine ⟨fun tag htag => ?_, fun primary hprimary => ?_⟩
    · exact hwrites ⟨.typeOf tag, entry.2⟩ (mem_writesOf.mpr (.inl ⟨tag, htag, rfl⟩))
    · exact hwrites ⟨.tagFor entry.2, primary⟩ (mem_writesOf.mpr (.inr ⟨primary, hprimary, rfl⟩))
  refine ⟨fun typeId htypeId => ?_, hentry, fun entries' hperm =>
    ⟨collisions_perm hperm hnone, alike_perm hperm hnone⟩⟩
  obtain ⟨primary, hprimary⟩ := Option.isSome_iff_exists.mp (mem_typeIds.mp htypeId)
  have hholds : (ofEntries entries).holds (.tagFor typeId) = some primary := hprimary
  -- the tag of a type was written by an entry for this type
  obtain ⟨w, hw, hslot, rfl⟩ := exists_write_of_holds hholds
  obtain ⟨entry, hmem, hwrite⟩ := List.mem_flatMap.mp hw
  rcases mem_writesOf.mp hwrite with ⟨tag, -, rfl⟩ | ⟨first, hfirst, rfl⟩
  · cases hslot
  · obtain rfl := Slot.tagFor.inj hslot
    have htype := (hentry entry hmem).1 first (List.mem_of_head? hfirst)
    rw [tagFor, hprimary, Option.getD_some, typeOf, htype, Option.getD_some]

/-- Entries for two types, with blanks around the tags. -/
def separateEntries : List (String × String) :=
  [(" Plan , Script,", "app.Plan"), (",", "app.None"), ("Sample", "app.Sample")]

theorem paired_of_separateEntries :
    (ofEntries separateEntries).collisions = [] ∧
      ("Script" ∈ tagsOf " Plan , Script," ∧
        (ofEntries separateEntries).lookupType "Script" = some "app.Plan") ∧
      separateEntries.Perm separateEntries.reverse ∧
        (ofEntries separateEntries).Alike (ofEntries separateEntries.reverse) := by
  have hnone : (ofEntries separateEntries).collisions = [] := by decide +kernel
  have hperm : separateEntries.Perm separateEntries.reverse := (List.reverse_perm _).symm
  have hscript : "Script" ∈ tagsOf " Plan , Script," := by decide +kernel
  obtain ⟨-, hentries, horder⟩ := paired_of_no_collisions hnone
  exact ⟨hnone, ⟨hscript, (hentries _ (List.mem_cons_self ..)).1 _ hscript⟩, hperm,
    (horder _ hperm).2⟩

end TagTable

end PlanArchive.Naming
