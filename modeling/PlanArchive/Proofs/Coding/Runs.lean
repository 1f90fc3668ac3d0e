import PlanArchive.Proofs.Coding.Slots

/-!
# Runs that succeed

`Runs m s v t` says that `m` returns `v` from the ledger `s` and leaves `t`. Where decoding an
element succeeds, so does decoding each of its slots, in order (`runs_decode`).
-/

namespace PlanArchive.Coding

open Markup Naming

variable {α β : Type}

/-- From `start`, `m` returns `a` and leaves `finish`. -/
def Runs (m : Decoding α) (start : Ledger) (a : α) (finish : Ledger) : Prop :=
  m.run.run start = (.ok a, finish)

theorem runs_pure {a b : α} {s t : Ledger} : Runs (pure a) s b t ↔ b = a ∧ t = s := by
  constructor
  · rintro ⟨⟩
    exact ⟨rfl, rfl⟩
  · rintro ⟨rfl, rfl⟩
    rfl

theorem runs_bind {m : Decoding α} {f : α → Decoding β} {b : β} {s t : Ledger} :
    Runs (m >>= f) s b t ↔ ∃ a u, Runs m s a u ∧ Runs (f a) u b t := by
  unfold Runs
  rw [run_bind]
  constructor
  · intro h
    cases hm : m.run.run s with
    | mk result u =>
      rw [hm] at h
      cases result with
      | ok a => exact ⟨a, u, rfl, h⟩
      | error failure => cases h
  · rintro ⟨a, u, hm, hf⟩
    rw [hm]
    exact hf

/-- From `start`, `m` fails and leaves `finish`. -/
def Fails (m : Decoding α) (start : Ledger) (failure : Failure) (finish : Ledger) : Prop :=
  m.run.run start = (.error failure, finish)

theorem Fails.bind {m : Decoding α} {s t : Ledger} {failure : Failure} (h : Fails m s failure t)
    (f : α → Decoding β) : Fails (m >>= f) s failure t := by
  unfold Fails at *
  rw [run_bind, h]

theorem Runs.fails_bind {m : Decoding α} {f : α → Decoding β} {a : α} {s u t : Ledger}
    {failure : Failure} (h : Runs m s a u) (hf : Fails (f a) u failure t) :
    Fails (m >>= f) s failure t := by
  unfold Runs Fails at *
  rw [run_bind, h]
  exact hf

theorem runs_or_fails (m : Decoding α) (s : Ledger) :
    (∃ a t, Runs m s a t) ∨ ∃ failure t, Fails m s failure t := by
  unfold Runs Fails
  cases m.run.run s with
  | mk result t =>
    cases result with
    | ok a => exact .inl ⟨a, t, rfl⟩
    | error failure => exact .inr ⟨failure, t, rfl⟩

theorem not_runs_refuse {what : Malformation} {place : Place} {a : α} {s t : Ledger} :
    ¬Runs (Decoder.refuse what place : Decoding α) s a t := by
  rintro ⟨⟩

theorem Runs.unique {m : Decoding α} {s t t' : Ledger} {a a' : α} (h : Runs m s a t)
    (h' : Runs m s a' t') : a' = a ∧ t' = t := by
  have heq : (Except.ok a', t') = ((.ok a : Except Failure α), t) := h'.symm.trans h
  exact ⟨Except.ok.inj (Prod.mk.inj heq).1, (Prod.mk.inj heq).2⟩

namespace Decoder

/-! ## Elements that a coder reads -/

/-- The tag names a known type, and the value is left to the coder of the type. -/
structure Opens (decoder : Decoder) (tag : String) (e : Element) (binding : Binding) (c : Coder) :
    Prop where
  present : e.attribute? referenceKey = none
  named : tag ≠ nullTag
  known : decoder.resolver.binding? tag = some binding
  coded : binding.needsCoder = true → (decoder.roster.dedicated? binding.typeId).isSome = true
  coder : decoder.roster.coderFor binding.typeId = c

/-- The ledger after a value was marked. -/
def marking (decoder : Decoder) (id : Option String) (value : Value) (ledger : Ledger) : Ledger :=
  match decoder.mode, id with
  | .document, some id => { ledger with marked := Keyed.put id value ledger.marked }
  | _, _ => ledger

/-- The ledger after what a slot holds was decoded. -/
def handingOver (decoder : Decoder) (part : Part) (value : Value) (ledger : Ledger) : Ledger :=
  match part, decoder.delivers with
  | .record, true => { ledger with delivered := ledger.delivered ++ [value] }
  | _, _ => ledger

section

variable {decoder : Decoder} {path : List String} {s t : Ledger} {v : Value}

theorem Opens.unique {tag : String} {e : Element} {binding binding' : Binding} {c c' : Coder}
    (h : decoder.Opens tag e binding c) (h' : decoder.Opens tag e binding' c') :
    binding' = binding ∧ c' = c := by
  obtain rfl : binding' = binding := Option.some.inj (h'.known.symm.trans h.known)
  exact ⟨rfl, h'.coder.symm.trans h.coder⟩

theorem Opens.readTyped_eq {tag : String} {e : Element} {binding : Binding} {c : Coder}
    (h : decoder.Opens tag e binding c) :
    decoder.readTyped path (some tag) e = (do
      let values ← decoder.decodeSlots path [] (decoder.slots c e.children)
      decoder.build path c binding.typeId e values) := by
  have hcoded : (binding.needsCoder &&
      (decoder.roster.dedicated? binding.typeId).isNone) = false := by
    cases hneeds : binding.needsCoder with
    | false => rfl
    | true => simp [h.coded hneeds]
  simp only [readTyped_of_binding h.named h.known, readAs, hcoded, h.coder, readWith_eq,
    Bool.false_eq_true, if_false]

/-- An element fails where one of its slots does. -/
theorem Opens.fails {tag : String} {e : Element} {binding : Binding} {c : Coder}
    {failure : Failure} (h : decoder.Opens tag e binding c)
    (hslots : Fails (decoder.decodeSlots path [] (decoder.slots c e.children)) s failure t) :
    Fails (decoder.decode path (some tag) e) s failure t := by
  rw [Decoder.decode_eq, h.present]
  simp only [h.readTyped_eq]
  exact (hslots.bind _).bind _

theorem runs_mark {id : Option String} :
    Runs (decoder.mark id v) s () t ↔ t = decoder.marking id v s := by
  have hrun : (decoder.mark id v).run.run s = (.ok (), decoder.marking id v s) := by
    unfold mark marking
    cases decoder.mode with
    | log => rfl
    | document => cases id <;> rfl
  rw [Runs, hrun]
  constructor
  · rintro ⟨⟩
    rfl
  · rintro rfl
    rfl

theorem runs_resolve {place : Place} {id : String} : Runs (decoder.resolve place id) s v t ↔
    decoder.mode = .document ∧ Keyed.find? id s.marked = some v ∧ t = s := by
  cases hmode : decoder.mode with
  | log =>
    rw [resolve, hmode]
    exact iff_of_false not_runs_refuse (by simp)
  | document =>
    rw [Runs, run_resolve hmode]
    cases Keyed.find? id s.marked with
    | none => exact iff_of_false (by rintro ⟨⟩) (by simp)
    | some value =>
      constructor
      · rintro ⟨⟩
        exact ⟨rfl, rfl, rfl⟩
      · rintro ⟨-, hvalue, rfl⟩
        rw [Option.some.inj hvalue]

theorem runs_build {c : Coder} {typeId : String} {e : Element} {taken : List (Part × Value)} :
    Runs (decoder.build path c typeId e taken) s v t ↔
      decoder.valueOf? c typeId e taken = some v ∧ t = s := by
  unfold build
  cases decoder.valueOf? c typeId e taken with
  | none => exact iff_of_false not_runs_refuse (by simp)
  | some value =>
    rw [runs_pure, Option.some.injEq]
    exact and_congr_left fun _ => eq_comm

theorem runs_deliver {kept : List Value} : Runs (decoder.deliver v) s kept t ↔
    kept = (if decoder.delivers then [] else [v]) ∧
      t = decoder.handingOver .record v s := by
  unfold deliver handingOver
  cases decoder.delivers with
  | true =>
    constructor
    · rintro ⟨⟩
      exact ⟨rfl, rfl⟩
    · rintro ⟨rfl, rfl⟩
      rfl
  | false => exact runs_pure

theorem runs_decodeSlot {part : Part} {child : Element} :
    Runs (decoder.decodeSlot path part child) s v t ↔
      ∃ u, Runs (decoder.decode (child.name :: path) (part.typeOf child) child) s v u ∧
        t = decoder.handingOver part v u := by
  cases part with
  | record =>
    simp only [decodeSlot, runs_bind, runs_deliver, runs_pure]
    constructor
    · rintro ⟨w, u, hdecode, kept, _, ⟨rfl, rfl⟩, rfl, rfl⟩
      exact ⟨u, hdecode, rfl⟩
    · rintro ⟨u, hdecode, rfl⟩
      exact ⟨v, u, hdecode, _, _, ⟨rfl, rfl⟩, rfl, rfl⟩
  | _ =>
    simp only [decodeSlot, handingOver]
    constructor
    · intro h
      exact ⟨t, h, rfl⟩
    · rintro ⟨u, h, rfl⟩
      exact h

theorem runs_decodeSlots_nil {taken values : List (Part × Value)} :
    Runs (decoder.decodeSlots path taken []) s values t ↔ values = [] ∧ t = s :=
  runs_pure

theorem runs_decodeSlots_cons {taken values : List (Part × Value)} {part : Part}
    {child : Element} {rest : List (Part × Element)} :
    Runs (decoder.decodeSlots path taken ((part, child) :: rest)) s values t ↔
      misplaced taken part = false ∧ ∃ value u more,
        Runs (decoder.decodeSlot path part child) s value u ∧ unfit taken part value = false ∧
        Runs (decoder.decodeSlots path (taken ++ [(part, value)]) rest) u more t ∧
        values = (part, value) :: more := by
  rw [decodeSlots]
  cases hplace : misplaced taken part with
  | true => simp [not_runs_refuse]
  | false =>
    simp only [Bool.false_eq_true, if_false, runs_bind, true_and]
    apply exists_congr
    intro value
    apply exists_congr
    intro u
    cases hunfit : unfit taken part value with
    | true => simp [not_runs_refuse]
    | false =>
      simp only [Bool.false_eq_true, if_false, runs_bind, runs_pure, true_and]
      constructor
      · rintro ⟨hvalue, more, _, hmore, rfl, rfl⟩
        exact ⟨more, hvalue, hmore, rfl⟩
      · rintro ⟨more, hvalue, hmore, rfl⟩
        exact ⟨hvalue, more, t, hmore, rfl, rfl⟩

theorem runs_decodeSlots_append {taken values : List (Part × Value)}
    {front back : List (Part × Element)} :
    Runs (decoder.decodeSlots path taken (front ++ back)) s values t ↔
      ∃ before u after, Runs (decoder.decodeSlots path taken front) s before u ∧
        Runs (decoder.decodeSlots path (taken ++ before) back) u after t ∧
        values = before ++ after := by
  rw [decodeSlots_append]
  simp only [runs_bind, runs_pure]
  constructor
  · rintro ⟨before, u, hfront, after, _, hback, rfl, rfl⟩
    exact ⟨before, u, after, hfront, hback, rfl⟩
  · rintro ⟨before, u, after, hfront, hback, rfl⟩
    exact ⟨before, u, hfront, after, t, hback, rfl, rfl⟩

/-- The slots before one, the one, and the slots after it. -/
theorem runs_decodeSlots_around {taken values : List (Part × Value)} {part : Part}
    {child : Element} {before after : List (Part × Element)} :
    Runs (decoder.decodeSlots path taken (before ++ (part, child) :: after)) s values t ↔
      ∃ front reached value u back,
        Runs (decoder.decodeSlots path taken before) s front reached ∧
        misplaced (taken ++ front) part = false ∧
        Runs (decoder.decodeSlot path part child) reached value u ∧
        unfit (taken ++ front) part value = false ∧
        Runs (decoder.decodeSlots path (taken ++ front ++ [(part, value)]) after) u back t ∧
        values = front ++ (part, value) :: back := by
  simp only [runs_decodeSlots_append, runs_decodeSlots_cons]
  constructor
  · rintro ⟨front, reached, _, hfront, ⟨hplace, value, u, back, hvalue, hfit, hback, rfl⟩, rfl⟩
    exact ⟨front, reached, value, u, back, hfront, hplace, hvalue, hfit, hback, rfl⟩
  · rintro ⟨front, reached, value, u, back, hfront, hplace, hvalue, hfit, hback, rfl⟩
    exact ⟨front, reached, _, hfront, ⟨hplace, value, u, back, hvalue, hfit, hback, rfl⟩, rfl⟩

/-- What is read as a value of a known type is read by a coder. -/
theorem exists_opens {tag : String} {e : Element} {binding : Binding}
    (hpresent : e.attribute? referenceKey = none) (htag : tag ≠ nullTag)
    (hbinding : decoder.resolver.binding? tag = some binding)
    (h : Runs (decoder.readAs path binding e) s v t) :
    ∃ c values, decoder.Opens tag e binding c ∧
      Runs (decoder.decodeSlots path [] (decoder.slots c e.children)) s values t ∧
      decoder.valueOf? c binding.typeId e values = some v := by
  rw [readAs] at h
  split at h
  · exact absurd h not_runs_refuse
  · rename_i hcoded
    rw [readWith_eq] at h
    obtain ⟨values, u, hvalues, hbuild⟩ := runs_bind.mp h
    obtain ⟨hvalue, rfl⟩ := runs_build.mp hbuild
    have hcoder : binding.needsCoder = true →
        (decoder.roster.dedicated? binding.typeId).isSome = true := by
      simpa [Option.isSome_iff_ne_none] using hcoded
    exact ⟨_, values, ⟨hpresent, htag, hbinding, hcoder, rfl⟩, hvalues, hvalue⟩

theorem runs_readTyped {type : Option String} {e : Element}
    (hpresent : e.attribute? referenceKey = none) :
    Runs (decoder.readTyped path type e) s v t ↔
      type = none ∧ e.children = [] ∧ v = .text e.content ∧ t = s ∨
      type = some nullTag ∧ v = .null ∧ t = s ∨
      ∃ tag binding c values, type = some tag ∧ decoder.Opens tag e binding c ∧
        Runs (decoder.decodeSlots path [] (decoder.slots c e.children)) s values t ∧
        decoder.valueOf? c binding.typeId e values = some v := by
  constructor
  · intro h
    cases type with
    | none =>
      rw [readTyped] at h
      split at h
      · rename_i hempty
        obtain ⟨rfl, rfl⟩ := runs_pure.mp h
        exact .inl ⟨rfl, List.isEmpty_iff.mp hempty, rfl, rfl⟩
      · exact absurd h not_runs_refuse
    | some tag =>
      by_cases htag : tag = nullTag
      · rw [readTyped, if_pos htag] at h
        obtain ⟨rfl, rfl⟩ := runs_pure.mp h
        exact .inr (.inl ⟨congrArg some htag, rfl, rfl⟩)
      · cases hbinding : decoder.resolver.binding? tag with
        | none =>
          simp only [readTyped, if_neg htag, hbinding] at h
          cases h
        | some binding =>
          rw [readTyped_of_binding htag hbinding] at h
          obtain ⟨c, values, hopens, hvalues, hvalue⟩ := exists_opens hpresent htag hbinding h
          exact .inr (.inr ⟨tag, binding, c, values, rfl, hopens, hvalues, hvalue⟩)
  · rintro (⟨rfl, hempty, rfl, rfl⟩ | ⟨rfl, rfl, rfl⟩ |
      ⟨tag, binding, c, values, rfl, hopens, hvalues, hvalue⟩)
    · rw [readTyped, hempty]
      exact runs_pure.mpr ⟨rfl, rfl⟩
    · rw [readTyped, if_pos rfl]
      exact runs_pure.mpr ⟨rfl, rfl⟩
    · rw [hopens.readTyped_eq]
      exact runs_bind.mpr ⟨values, t, hvalues, runs_build.mpr ⟨hvalue, rfl⟩⟩

/-- Where decoding an element succeeds, it stands for an earlier value, holds a text, is null, or
is read by a coder. -/
theorem runs_decode {type : Option String} {e : Element} :
    Runs (decoder.decode path type e) s v t ↔
      (∃ id, e.attribute? referenceKey = some id ∧ decoder.mode = .document ∧
        Keyed.find? id s.marked = some v ∧ t = s) ∨
      e.attribute? referenceKey = none ∧ ∃ u, t = decoder.marking (e.attribute? idKey) v u ∧
        (type = none ∧ e.children = [] ∧ v = .text e.content ∧ u = s ∨
          type = some nullTag ∧ v = .null ∧ u = s ∨
          ∃ tag binding c values, type = some tag ∧ decoder.Opens tag e binding c ∧
            Runs (decoder.decodeSlots path [] (decoder.slots c e.children)) s values u ∧
            decoder.valueOf? c binding.typeId e values = some v) := by
  rw [Decoder.decode_eq]
  cases hpresent : e.attribute? referenceKey with
  | some id => simp [runs_resolve]
  | none =>
    simp only [runs_bind, runs_pure, ← runs_readTyped hpresent, ← runs_mark]
    constructor
    · rintro ⟨value, u, hread, _, _, hmark, rfl, rfl⟩
      exact .inr ⟨trivial, u, hmark, hread⟩
    · rintro (⟨_, ⟨⟩, _⟩ | ⟨-, u, hmark, hread⟩)
      exact ⟨v, u, hread, (), t, hmark, rfl, rfl⟩

/-- An element that a coder reads runs its slots, and its value is put together from them. -/
theorem Opens.runs_decode {tag : String} {e : Element} {binding : Binding} {c : Coder}
    (h : decoder.Opens tag e binding c) :
    Runs (decoder.decode path (some tag) e) s v t ↔
      ∃ values u, Runs (decoder.decodeSlots path [] (decoder.slots c e.children)) s values u ∧
        decoder.valueOf? c binding.typeId e values = some v ∧
        t = decoder.marking (e.attribute? idKey) v u := by
  rw [Decoder.runs_decode]
  constructor
  · rintro (⟨id, hid, -⟩ | ⟨-, u, rfl, ⟨⟨⟩, -⟩ | ⟨htag, -⟩ |
      ⟨tag', binding', c', values, htag, hopens, hvalues, hvalue⟩⟩)
    · rw [h.present] at hid
      cases hid
    · exact absurd (Option.some.inj htag) h.named
    · obtain rfl := Option.some.inj htag
      obtain ⟨rfl, rfl⟩ := h.unique hopens
      exact ⟨values, u, hvalues, hvalue, rfl⟩
  · rintro ⟨values, u, hvalues, hvalue, rfl⟩
    exact .inr ⟨h.present, u, rfl, .inr (.inr ⟨tag, binding, c, values, rfl, h, hvalues, hvalue⟩)⟩

end

end Decoder

end PlanArchive.Coding
