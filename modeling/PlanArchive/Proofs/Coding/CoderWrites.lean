import PlanArchive.Proofs.Coding.Scripts
import PlanArchive.Proofs.Value.Occurs

/-!
# Coders as converters, writing

Among coders only, what the scripts of converters come to is what the encoder returns
(`encodes_iff`). The steps of a script change an element one by one, and `Makes` says that a step
changes it as the encoder does.
-/

namespace PlanArchive.Coding

open Markup Naming

/-! ## The converters of a roster -/

namespace Converters

theorem dedicated_ofRoster (roster : Roster) (typeId : String) :
    (ofRoster roster).dedicated? typeId = (roster.dedicated? typeId).map Coder.converter := by
  unfold dedicated? Roster.dedicated? ofRoster
  rw [← List.map_reverse, List.find?_map]
  rfl

theorem converterFor_ofRoster (roster : Roster) (typeId : String) :
    (ofRoster roster).converterFor typeId = (roster.coderFor typeId).converter := by
  rw [converterFor, dedicated_ofRoster, Roster.coderFor]
  cases roster.dedicated? typeId <;> rfl

end Converters

/-! ## Steps -/

section

variable {converters : Converters} {context : WriteContext}

/-- The step makes of an element what the result says, or fails with it. -/
def TakesTo (converters : Converters) (context : WriteContext) (filling : Filling Unit)
    (e : Element) (result : Except WriteFault Element) : Prop :=
  ∃ written left, converters.Writes context (filling.run.run e) written
      ((result.map fun _ => ()).mapError .unwritable, left) ∧
    ∀ e', result = .ok e' → left = e'

/-- The step changes every element as `change` does. -/
def Makes (converters : Converters) (context : WriteContext) (filling : Filling Unit)
    (change : Element → Except WriteFault Element) : Prop :=
  ∀ e, TakesTo converters context filling e (change e)

theorem makes_pure : Makes converters context (pure ()) .ok := by
  intro e
  exact ⟨[], e, .done _, fun _ h => Except.ok.inj h⟩

theorem makes_refuse (fault : WriteFault) :
    Makes converters context (Filling.refuse fault) fun _ => .error fault := by
  intro e
  exact ⟨[], e, .done _, by rintro _ ⟨⟩⟩

theorem makes_modify (f : Element → Element) :
    Makes converters context (modify f) fun e => .ok (f e) := by
  intro e
  exact ⟨[], f e, .done _, fun _ h => Except.ok.inj h⟩

section

variable {α β : Type} {first : Filling α} {next : α → Filling β} {e left : Element}
  {written after : List Written}

/-- A step that succeeds hands on to the next one. -/
theorem writes_bind {a : α} {r : Except Failure β × Element}
    (h : converters.Writes context (first.run.run e) written (.ok a, left))
    (hnext : converters.Writes context ((next a).run.run left) after r) :
    converters.Writes context ((first >>= next).run.run e) (written ++ after) r :=
  h.bind hnext

theorem writes_bind_error {failure : Failure}
    (h : converters.Writes context (first.run.run e) written (.error failure, left)) :
    converters.Writes context ((first >>= next).run.run e) written (.error failure, left) := by
  rw [← List.append_nil written]
  exact h.bind (.done _)

end

theorem Makes.bind {first second : Filling Unit}
    {change change' : Element → Except WriteFault Element}
    (h : Makes converters context first change) (h' : Makes converters context second change') :
    Makes converters context (do first; second) fun e => change e >>= change' := by
  intro e
  beta_reduce
  obtain ⟨written, left, hfirst, hleft⟩ := h e
  cases hchange : change e with
  | error fault =>
    rw [hchange] at hfirst
    exact ⟨written, left, writes_bind_error hfirst, by rintro _ ⟨⟩⟩
  | ok e' =>
    rw [hchange] at hfirst
    obtain rfl := hleft e' hchange
    obtain ⟨after, left', hsecond, hleft'⟩ := h' left
    exact ⟨written ++ after, left', writes_bind hfirst hsecond, hleft'⟩

theorem Makes.congr {filling : Filling Unit} {change change' : Element → Except WriteFault Element}
    (h : Makes converters context filling change) (heq : ∀ e, change e = change' e) :
    Makes converters context filling change' :=
  funext heq ▸ h

/-! ## Attributes -/

theorem makes_setChecked (key value : String) :
    Makes converters context (Filling.setChecked key value) (Encoder.setChecked key value) := by
  intro e
  have hstep : ∀ result, TakesTo converters context (Filling.replaceBy result) e result := by
    rintro (fault | e')
    · exact ⟨[], e, .done _, by rintro _ ⟨⟩⟩
    · exact ⟨[], e', .done _, fun _ h => Except.ok.inj h⟩
  exact hstep (Encoder.setChecked key value e)

theorem makes_setAll (pairs : List (String × String)) :
    Makes converters context (Filling.setAll pairs) (Encoder.setAll pairs) := by
  induction pairs with
  | nil => exact makes_pure
  | cons pair pairs ih => exact (makes_setChecked pair.1 pair.2).bind ih

theorem makes_event (event : Option Event) :
    Makes converters context (Filling.event event) (Encoder.setEvent · event) := by
  cases event with
  | none => exact makes_pure
  | some event =>
    exact (makes_modify _).bind ((makes_modify _).bind (makes_setAll event.sampleVariables))

/-! ## Children -/

def addChildren (e : Element) (children : List Element) : Element :=
  { e with children := e.children ++ children }

/-- The step adds children to an element, one by one, unless one of them fails. -/
def Adds (converters : Converters) (context : WriteContext) (filling : Filling Unit)
    (children : Except WriteFault (List Element)) : Prop :=
  Makes converters context filling fun e => children.map (addChildren e)

theorem adds_nil : Adds converters context (pure ()) (.ok []) := by
  refine makes_pure.congr fun e => ?_
  cases e
  simp [addChildren, Except.map]

theorem Adds.append {first second : Filling Unit} {children more : Except WriteFault (List Element)}
    (h : Adds converters context first children) (h' : Adds converters context second more) :
    Adds converters context (do first; second) (do return (← children) ++ (← more)) := by
  refine (Makes.bind h h').congr fun e => ?_
  cases children with
  | error fault => rfl
  | ok children =>
    cases more with
    | error fault => rfl
    | ok more => simp [addChildren, Except.map, bind, Except.bind, pure, Except.pure]

/-- An element that is asked for, or filled on its own, becomes a child. -/
theorem adds_child {asked : Filling Element} (child : Except WriteFault Element)
    (h : ∀ e, ∃ written,
      converters.Writes context (asked.run.run e) written (child.mapError .unwritable, e)) :
    Adds converters context (do Filling.push (← asked)) (child.map ([·])) := by
  intro e
  obtain ⟨written, hasked⟩ := h e
  cases child with
  | error fault => exact ⟨written, e, writes_bind_error hasked, by rintro _ ⟨⟩⟩
  | ok child =>
    refine ⟨written ++ [], addChildren e [child], writes_bind hasked (.done _), ?_⟩
    rintro _ ⟨⟩
    rfl

theorem Adds.cons {first rest : Filling Unit} {child : Except WriteFault Element}
    {children : Except WriteFault (List Element)}
    (h : Adds converters context first (child.map ([·])))
    (h' : Adds converters context rest children) :
    Adds converters context (do first; rest) (do return (← child) :: (← children)) := by
  have heq : (do return (← child.map ([·])) ++ (← children)) =
      (do return (← child) :: (← children)) := by
    cases child <;> rfl
  exact heq ▸ h.append h'

theorem adds_refuse (fault : WriteFault) :
    Adds converters context (Filling.refuse fault) (.error fault) :=
  makes_refuse fault

/-- The request is answered as the encoder does it. -/
def IsAnswered (converters : Converters) (context : WriteContext) (request : WriteRequest)
    (reply : request.Reply) : Prop :=
  ∃ written, converters.Writes context (converters.answer context request) written reply

theorem adds_value {v : Value} {child : Except WriteFault Element}
    (h : IsAnswered converters context (.value v) (child.mapError .unwritable)) :
    Adds converters context (Filling.addValue v) (child.map ([·])) := by
  obtain ⟨written, hanswer⟩ := h
  exact adds_child child fun e => ⟨_, .ask hanswer (.done _)⟩

theorem adds_field {name : String} {v : Value} {child : Except WriteFault Element}
    (h : IsAnswered converters context (.field name v) (child.mapError .unwritable)) :
    Adds converters context (Filling.addField name v) (child.map ([·])) := by
  obtain ⟨written, hanswer⟩ := h
  exact adds_child child fun e => ⟨_, .ask hanswer (.done _)⟩

theorem adds_inside (tag : String) {filling : Filling Unit}
    {children : Except WriteFault (List Element)} (h : Adds converters context filling children) :
    Adds converters context (Filling.addInside { name := tag } filling)
      (children.map fun children => [{ name := tag, children }]) := by
  obtain ⟨written, left, hfilling, hleft⟩ := h { name := tag }
  cases children with
  | error fault =>
    exact adds_child (.error fault) fun e => ⟨_, hfilling.bind (.done _)⟩
  | ok children =>
    obtain rfl := hleft _ rfl
    exact adds_child (.ok { name := tag, children }) fun e =>
      ⟨_, hfilling.bind (.done _)⟩

/-! ## Values -/

theorem TakesTo.filled {start : Except WriteFault Element} {filling : Filling Unit}
    {fill : Element → Except WriteFault Element}
    (h : ∀ e, start = .ok e → TakesTo converters context filling e (fill e)) :
    ∃ written, converters.Writes context (Converters.filled start filling) written
      (Except.mapError Failure.unwritable (start >>= fill)) := by
  cases start with
  | error fault => exact ⟨[], .done _⟩
  | ok e =>
    obtain ⟨written, left, hfilling, hleft⟩ := h e rfl
    refine ⟨written ++ [], hfilling.bind ?_⟩
    change converters.Writes context (.done _) [] (Except.mapError Failure.unwritable (fill e))
    cases hfill : fill e with
    | error fault => exact .done _
    | ok e' =>
      rw [hleft e' hfill]
      exact .done _

end

namespace Encoder

variable (encoder : Encoder) (mode : Mode)

/-- The coders of an encoder, as converters. -/
def converters : Converters := .ofRoster encoder.roster

def context : WriteContext := ⟨encoder.resolver, mode, encoder.event⟩

/-- The converters fill an element that has no children as the encoder does. -/
def FillsAlike (v : Value) : Prop :=
  ∀ e, e.children = [] → TakesTo encoder.converters (encoder.context mode)
    (encoder.converters.fill (encoder.context mode) v) e (encoder.fill e v)

variable {encoder mode}

theorem FillsAlike.isAnswered {v : Value} (h : encoder.FillsAlike mode v) :
    IsAnswered encoder.converters (encoder.context mode) (.value v)
      ((encoder.encode v).mapError .unwritable) := by
  refine TakesTo.filled fun e hstart => h e ?_
  obtain ⟨-, rfl⟩ := startValue_eq_ok.mp hstart
  rfl

/-- The element of a field. -/
theorem FillsAlike.isAnsweredField {v : Value} (h : encoder.FillsAlike mode v) (name : String) :
    IsAnswered encoder.converters (encoder.context mode) (.field name v)
      ((encoder.encodeField (name, v)).mapError .unwritable) := by
  refine TakesTo.filled fun e hstart => ?_
  have hempty : e.children = [] := by
    obtain ⟨-, -, rfl⟩ := startField_eq_ok.mp hstart
    rfl
  have hfill := h e hempty
  cases v with
  | text s =>
    rw [fillField]
    exact makes_modify _ e
  | null =>
    rw [fill] at hfill
    rw [fillField]
    exact hfill
  | object =>
    rw [fillField]
    exact hfill
  | plan =>
    rw [fillField]
    exact hfill

/-! ## Lists of values -/

theorem adds_entries {values : List Value} (h : ∀ v ∈ values, encoder.FillsAlike mode v) :
    Adds encoder.converters (encoder.context mode) (Filling.entries values)
      (encoder.encodeAll values) := by
  induction values with
  | nil =>
    rw [encodeAll]
    exact adds_nil
  | cons v values ih =>
    obtain ⟨hv, hvalues⟩ := List.forall_mem_cons.mp h
    have hsplit : encoder.encodeAll (v :: values) =
        (do return (← encoder.encode v) :: (← encoder.encodeAll values)) := by
      rw [encodeAll, encode]
      simp only [bind_assoc]
    rw [hsplit]
    exact (adds_value hv.isAnswered).cons (ih hvalues)

theorem adds_fields (typeId : String) {fields : List (String × Value)}
    (h : ∀ field ∈ fields, encoder.FillsAlike mode field.2) :
    Adds encoder.converters (encoder.context mode) (Filling.fields typeId fields)
      (encoder.encodeFields typeId fields) := by
  induction fields with
  | nil =>
    rw [encodeFields]
    exact adds_nil
  | cons field fields ih =>
    obtain ⟨name, v⟩ := field
    obtain ⟨hv, hfields⟩ := List.forall_mem_cons.mp h
    have hrest := ih hfields
    rw [Filling.fields]
    by_cases hname : name = entriesTag
    · rw [if_pos hname, encodeFields, if_pos hname]
      exact adds_refuse _
    · have hsplit : encoder.encodeFields typeId ((name, v) :: fields) =
          (do return (← encoder.encodeField (name, v)) ::
            (← encoder.encodeFields typeId fields)) := by
        rw [encodeFields, if_neg hname, encodeField]
        simp only [bind_assoc]
      rw [if_neg hname, hsplit]
      exact (adds_field (hv.isAnsweredField name)).cons hrest

theorem adds_structured {fields : List (String × Value)}
    (h : ∀ field ∈ fields, encoder.FillsAlike mode field.2) :
    Adds encoder.converters (encoder.context mode) (Filling.structured fields)
      (encoder.encodeStructured fields) := by
  induction fields with
  | nil =>
    rw [encodeStructured]
    exact adds_nil
  | cons field fields ih =>
    obtain ⟨name, v⟩ := field
    obtain ⟨hv, hfields⟩ := List.forall_mem_cons.mp h
    have hrest := ih hfields
    have hfield := (adds_field (hv.isAnsweredField name)).cons hrest
    rw [encodeField] at hfield
    simp only [bind_assoc] at hfield
    rw [encodeStructured.eq_def]
    cases v with
    | text s => exact hrest
    | _ => exact hfield

/-- The element of a branch and the plan below it, one behind the other. -/
theorem adds_branches (tag : String) {branches : List Branch}
    (h : ∀ b ∈ branches, encoder.FillsAlike mode b.element ∧
      Adds encoder.converters (encoder.context mode) (Filling.branches tag b.children)
        (encoder.encodePlan tag b.children)) :
    Adds encoder.converters (encoder.context mode) (Filling.branches tag branches)
      (encoder.encodePlan tag branches) := by
  induction branches with
  | nil =>
    rw [encodePlan, Filling.branches]
    exact adds_nil
  | cons b branches ih =>
    obtain ⟨element, children⟩ := b
    obtain ⟨⟨helement, hchildren⟩, hbranches⟩ := List.forall_mem_cons.mp h
    have hrest := ih hbranches
    simp only [Branch.children, Branch.element] at hchildren helement
    rw [encodePlan, Filling.branches]
    cases hplan : element.isPlan with
    | true => exact adds_refuse _
    | false =>
      have hbelow := (adds_inside tag hchildren).append hrest
      refine (congrArg (Adds encoder.converters (encoder.context mode) _) ?_).mp
        ((adds_value helement.isAnswered).cons hbelow)
      rw [encode, bind_assoc, if_neg (by simp)]
      refine congrArg _ (funext fun e => congrArg _ (funext fun e => ?_))
      cases encoder.encodePlan tag children with
      | error fault => rfl
      | ok below => cases encoder.encodePlan tag branches <;> rfl

/-- The child that holds the entries of an object. -/
theorem adds_collection {entries : List Value}
    (h : ∀ entry ∈ entries, encoder.FillsAlike mode entry) :
    Adds encoder.converters (encoder.context mode) (Filling.collection entries)
      ((encoder.encodeAll entries).map collection) := by
  cases entries with
  | nil =>
    rw [encodeAll]
    exact adds_nil
  | cons v entries =>
    have hnonempty : (encoder.encodeAll (v :: entries)).map collection =
        (encoder.encodeAll (v :: entries)).map fun members =>
          [{ name := entriesTag, children := members }] := by
      cases hall : encoder.encodeAll (v :: entries) with
      | error fault => rfl
      | ok members =>
        obtain ⟨_, _, -, -, rfl⟩ := List.forall₂_cons_left_iff.mp (encodeAll_eq_ok.mp hall)
        rfl
    exact hnonempty ▸ adds_inside entriesTag (adds_entries h)

/-! ## Values -/

/-- The coder of the type fills the element. -/
theorem fill_converters (mode : Mode) (v : Value) {typeId : String} {coder : Coder}
    (h : v.typeId? = some typeId) (hcoder : encoder.roster.coderFor typeId = coder) :
    encoder.converters.fill (encoder.context mode) v = coder.write (encoder.context mode) v := by
  have hconverter : encoder.converters.converterFor typeId = coder.converter :=
    (Converters.converterFor_ofRoster encoder.roster typeId).trans (congrArg _ hcoder)
  rw [Converters.fill_eq_write _ v h, hconverter]
  rfl

/-- Steps fill an element that has no children as the encoder does. -/
theorem fillsAlike_of_makes {v : Value} {filling : Filling Unit}
    {change : Element → Except WriteFault Element}
    (hfill : encoder.converters.fill (encoder.context mode) v = filling)
    (h : Makes encoder.converters (encoder.context mode) filling change)
    (heq : ∀ e, e.children = [] → change e = encoder.fill e v) : encoder.FillsAlike mode v := by
  intro e he
  rw [hfill, ← heq e he]
  exact h e

theorem addChildren_of_empty {e : Element} (he : e.children = []) :
    addChildren e = withChildren e := by
  funext children
  rw [addChildren, he, List.nil_append, withChildren]

theorem fillsAlike_envelope {typeId : String} {fields : List (String × Value)}
    {entries : List Value} (hcoder : encoder.roster.coderFor typeId = .envelope)
    (hentries : ∀ entry ∈ entries, encoder.FillsAlike mode entry) :
    encoder.FillsAlike mode (.object typeId fields entries) := by
  have hfill := fill_converters mode (.object typeId fields entries) rfl hcoder
  rw [Coder.write] at hfill
  cases hsingle : isSinglePlan entries with
  | true =>
    rw [hsingle, if_pos rfl] at hfill
    refine fillsAlike_of_makes hfill
      ((makes_modify (envelopeHead fields)).bind (adds_entries hentries)) fun e he => ?_
    have hempty := (outfitted_envelopeHead fields e).children.trans he
    rw [fill, hcoder]
    simp only [hsingle, if_pos, ← addChildren_of_empty hempty]
    rfl
  | false =>
    rw [hsingle, if_neg Bool.false_ne_true] at hfill
    refine fillsAlike_of_makes hfill
      ((makes_modify (envelopeHead fields)).bind (makes_refuse .envelopeEntries))
      fun e he => ?_
    rw [fill, hcoder]
    simp only [hsingle, if_neg Bool.false_ne_true]
    rfl

theorem fillsAlike_wrapper {typeId : String} {fields : List (String × Value)}
    {entries : List Value} (hcoder : encoder.roster.coderFor typeId = .wrapper)
    (hentries : ∀ entry ∈ entries, encoder.FillsAlike mode entry) :
    encoder.FillsAlike mode (.object typeId fields entries) := by
  refine fillsAlike_of_makes (fill_converters mode _ rfl hcoder)
    ((makes_modify (wrapperHead fields)).bind (adds_entries hentries)) fun e he => ?_
  have hempty := (outfitted_wrapperHead fields e).children.trans he
  rw [fill, hcoder, ← addChildren_of_empty hempty]
  rfl

theorem fillsAlike_sample {typeId : String} {fields : List (String × Value)}
    {entries : List Value} (hcoder : encoder.roster.coderFor typeId = .sample)
    (hfields : ∀ field ∈ fields, encoder.FillsAlike mode field.2)
    (hentries : ∀ entry ∈ entries, encoder.FillsAlike mode entry) :
    encoder.FillsAlike mode (.object typeId fields entries) := by
  refine fillsAlike_of_makes (fill_converters mode _ rfl hcoder)
    ((makes_setAll (textFields fields)).bind ((makes_event encoder.event).bind
      ((adds_structured hfields).append (adds_entries hentries)))) fun e he => ?_
  have hhead : encoder.sampleHead fields e =
      setAll (textFields fields) e >>= (setEvent · encoder.event) := rfl
  rw [fill, hcoder, ← bind_assoc, ← hhead]
  cases h : encoder.sampleHead fields e with
  | error fault => rfl
  | ok head =>
    have hempty := (outfitted_sampleHead h).children.trans he
    cases encoder.encodeStructured fields with
    | error fault => rfl
    | ok parts =>
      cases encoder.encodeAll entries with
      | error fault => rfl
      | ok members =>
        have hchildren := congrFun (addChildren_of_empty hempty) (parts ++ members)
        exact congrArg Except.ok hchildren

theorem fillsAlike_plain {typeId : String} {fields : List (String × Value)}
    {entries : List Value} (hcoder : encoder.roster.coderFor typeId = .object)
    (hfields : ∀ field ∈ fields, encoder.FillsAlike mode field.2)
    (hentries : ∀ entry ∈ entries, encoder.FillsAlike mode entry) :
    encoder.FillsAlike mode (.object typeId fields entries) := by
  refine fillsAlike_of_makes (fill_converters mode _ rfl hcoder)
    ((adds_fields typeId hfields).append (adds_collection hentries)) fun e he => ?_
  rw [fill, hcoder, addChildren_of_empty he]
  cases encoder.encodeFields typeId fields with
  | error fault => rfl
  | ok parts => cases encoder.encodeAll entries <;> rfl

theorem fillsAlike_refused {v : Value} {typeId : String} {coder : Coder} {fault : WriteFault}
    (htype : v.typeId? = some typeId) (hcoder : encoder.roster.coderFor typeId = coder)
    (hwrite : coder.write (encoder.context mode) v = Filling.refuse fault)
    (hfill : ∀ e, encoder.fill e v = .error fault) : encoder.FillsAlike mode v :=
  fillsAlike_of_makes ((fill_converters mode v htype hcoder).trans hwrite) (makes_refuse fault)
    fun e _ => (hfill e).symm

theorem fillsAlike_object {typeId : String} {fields : List (String × Value)} {entries : List Value}
    (hfields : ∀ field ∈ fields, encoder.FillsAlike mode field.2)
    (hentries : ∀ entry ∈ entries, encoder.FillsAlike mode entry) :
    encoder.FillsAlike mode (.object typeId fields entries) := by
  cases hcoder : encoder.roster.coderFor typeId with
  | text =>
    refine fillsAlike_refused rfl hcoder rfl fun e => ?_
    simp only [fill, hcoder, Value.typeId?]
  | plan =>
    refine fillsAlike_refused rfl hcoder rfl fun e => ?_
    simp only [fill, hcoder, Value.typeId?]
  | envelope => exact fillsAlike_envelope hcoder hentries
  | wrapper => exact fillsAlike_wrapper hcoder hentries
  | sample => exact fillsAlike_sample hcoder hfields hentries
  | object => exact fillsAlike_plain hcoder hfields hentries

theorem fillsAlike_text (s : String) : encoder.FillsAlike mode (.text s) := by
  cases hcoder : encoder.roster.coderFor textType with
  | text =>
    refine fillsAlike_of_makes (fill_converters mode _ rfl hcoder)
      (makes_modify fun e => { e with text := some s }) fun e he => ?_
    rw [fill, hcoder]
  | _ =>
    refine fillsAlike_refused rfl hcoder rfl fun e => ?_
    simp only [fill, hcoder, Value.typeId?]

theorem fillsAlike_plan {branches : List Branch}
    (h : ∀ tag, Adds encoder.converters (encoder.context mode) (Filling.branches tag branches)
      (encoder.encodePlan tag branches)) : encoder.FillsAlike mode (.plan branches) := by
  cases hcoder : encoder.roster.coderFor treeType with
  | plan =>
    have hfill := fill_converters mode (.plan branches) rfl hcoder
    rw [Coder.write] at hfill
    cases htag : encoder.tagFor treeType with
    | error fault =>
      have hcontext : (encoder.context mode).encoder.tagFor treeType = .error fault := htag
      rw [hcontext] at hfill
      refine fillsAlike_of_makes hfill (makes_refuse fault) fun e he => ?_
      rw [fill, hcoder, htag]
      rfl
    | ok tag =>
      have hcontext : (encoder.context mode).encoder.tagFor treeType = .ok tag := htag
      rw [hcontext] at hfill
      refine fillsAlike_of_makes hfill (h tag) fun e he => ?_
      rw [fill, hcoder, htag, addChildren_of_empty he]
      rfl
  | _ =>
    refine fillsAlike_refused rfl hcoder rfl fun e => ?_
    simp only [fill, hcoder, Value.typeId?]

variable (encoder mode) in
/-- By induction on the value; the plan below an element goes by the tag of the plan around it. -/
theorem fillsAlike (v : Value) : encoder.FillsAlike mode v ∧
    ∀ branches, v = .plan branches → ∀ tag, Adds encoder.converters (encoder.context mode)
      (Filling.branches tag branches) (encoder.encodePlan tag branches) := by
  induction v using Value.induct with
  | null =>
    refine ⟨fun e _ => ?_, by rintro _ ⟨⟩⟩
    rw [fill]
    exact makes_pure e
  | text s => exact ⟨fillsAlike_text s, by rintro _ ⟨⟩⟩
  | object typeId fields entries hfields hentries =>
    exact ⟨fillsAlike_object (fun field hfield => (hfields field hfield).1)
      fun entry hentry => (hentries entry hentry).1, by rintro _ ⟨⟩⟩
  | plan branches hbranches =>
    have hadds : ∀ tag, Adds encoder.converters (encoder.context mode)
        (Filling.branches tag branches) (encoder.encodePlan tag branches) :=
      fun tag => adds_branches tag fun b hb =>
        ⟨(hbranches b hb).1.1, (hbranches b hb).2.2 b.children rfl tag⟩
    refine ⟨fillsAlike_plan hadds, ?_⟩
    rintro _ ⟨⟩
    exact hadds

variable (encoder mode) in
/-- Coders encode a value by their scripts as the encoder does, and in no other way. -/
theorem encodes_iff (v : Value) {result : Except Failure Element} :
    (∃ written, encoder.converters.Encodes (encoder.context mode) v written result) ↔
      result = (encoder.encode v).mapError .unwritable := by
  obtain ⟨written, hanswer⟩ := (fillsAlike encoder mode v).1.isAnswered
  have hencodes := Converters.writes_request.mpr ⟨written, hanswer, rfl⟩
  constructor
  · rintro ⟨_, h⟩
    exact (Converters.writes_unique h hencodes).2
  · rintro rfl
    exact ⟨_, hencodes⟩

end Encoder

end PlanArchive.Coding
