import PlanArchive.Proofs.Coding.Scripts

/-!
# Converters that ask by name

Coders ask for values by their tags or as fields, never for bare content (`asksByName`). Where all
converters do so, whatever is written on the way is written under a name (`isNamed_of_writes`).
-/

namespace PlanArchive.Coding

open Markup Naming

variable {α β : Type}

def WriteRequest.IsNamed : WriteRequest → Prop
  | .value _ | .field .. => True
  | .content .. => False

namespace Filling

/-- Asks for values by their tags or as fields, never for bare content. -/
def AsksByName (filling : Filling α) : Prop :=
  ∀ e, (filling.run.run e).Always WriteRequest.IsNamed fun _ => True

/-- Asks by name, and gives an element more children at most. -/
def AddsByName (filling : Filling α) : Prop :=
  ∀ e, (filling.run.run e).Always WriteRequest.IsNamed fun (_, left) =>
    left.name = e.name ∧ left.attributes = e.attributes

theorem AddsByName.asksByName {filling : Filling α} (h : filling.AddsByName) : filling.AsksByName :=
  fun e => (h e).mono fun _ _ => trivial

theorem addsByName_pure (a : α) : (pure a : Filling α).AddsByName := fun _ => ⟨rfl, rfl⟩

theorem addsByName_refuse (fault : WriteFault) : (refuse fault : Filling α).AddsByName :=
  fun _ => ⟨rfl, rfl⟩

theorem addsByName_push (child : Element) : (push child).AddsByName := fun _ => ⟨rfl, rfl⟩

theorem addsByName_value (v : Value) : (value v).AddsByName :=
  fun _ => ⟨trivial, fun _ => ⟨rfl, rfl⟩⟩

theorem addsByName_field (name : String) (v : Value) : (field name v).AddsByName :=
  fun _ => ⟨trivial, fun _ => ⟨rfl, rfl⟩⟩

theorem asksByName_modify (f : Element → Element) : (modify f : Filling Unit).AsksByName :=
  fun _ => trivial

theorem AsksByName.bind {filling : Filling α} {next : α → Filling β} (h : filling.AsksByName)
    (hnext : ∀ a, (next a).AsksByName) : (filling >>= next).AsksByName := by
  intro e
  refine (h e).bind ?_
  rintro ⟨result, left⟩ -
  cases result with
  | error failure => trivial
  | ok a => exact hnext a left

theorem AddsByName.bind {filling : Filling α} {next : α → Filling β} (h : filling.AddsByName)
    (hnext : ∀ a, (next a).AddsByName) : (filling >>= next).AddsByName := by
  intro e
  refine (h e).bind ?_
  rintro ⟨result, left⟩ ⟨hname, hattributes⟩
  cases result with
  | error failure => exact ⟨hname, hattributes⟩
  | ok a =>
    refine (hnext a left).mono ?_
    rintro ⟨_, last⟩ ⟨hname', hattributes'⟩
    exact ⟨hname'.trans hname, hattributes'.trans hattributes⟩

theorem addsByName_inside (e : Element) {filling : Filling Unit} (h : filling.AsksByName) :
    (inside e filling).AddsByName :=
  fun _ => (h e).bind fun _ _ => ⟨rfl, rfl⟩

theorem addsByName_addInside (e : Element) {filling : Filling Unit} (h : filling.AsksByName) :
    (addInside e filling).AddsByName :=
  (addsByName_inside e h).bind addsByName_push

theorem addsByName_forM {items : List α} {act : α → Filling Unit} (h : ∀ a, (act a).AddsByName) :
    (items.forM act).AddsByName := by
  induction items with
  | nil => exact addsByName_pure ()
  | cons a items ih => exact (h a).bind fun _ => ih

/-! ## Coders -/

theorem addsByName_entries (values : List Value) : (entries values).AddsByName :=
  addsByName_forM fun v => (addsByName_value v).bind addsByName_push

theorem addsByName_fields (typeId : String) (pairs : List (String × Value)) :
    (fields typeId pairs).AddsByName := by
  induction pairs with
  | nil => exact addsByName_pure ()
  | cons pair pairs ih =>
    rw [fields]
    split
    · exact addsByName_refuse _
    · exact ((addsByName_field pair.1 pair.2).bind addsByName_push).bind fun _ => ih

theorem addsByName_collection (values : List Value) : (collection values).AddsByName := by
  unfold collection
  split
  · exact addsByName_pure ()
  · exact addsByName_addInside _ (addsByName_entries values).asksByName

theorem addsByName_structured (pairs : List (String × Value)) : (structured pairs).AddsByName :=
  addsByName_forM fun pair => (addsByName_field pair.1 pair.2).bind addsByName_push

theorem asksByName_setAll (pairs : List (String × String)) : (setAll pairs).AsksByName := by
  induction pairs with
  | nil => exact (addsByName_pure ()).asksByName
  | cons pair pairs ih =>
    have hreplace : ∀ result, (replaceBy result).AsksByName := by
      rintro (fault | e) <;> exact fun _ => trivial
    have hchecked : (setChecked pair.1 pair.2).AsksByName := fun e => hreplace _ e
    exact hchecked.bind fun _ => ih

theorem asksByName_event (event : Option Event) : (Filling.event event).AsksByName := by
  cases event with
  | none => exact (addsByName_pure ()).asksByName
  | some event =>
    exact (asksByName_modify _).bind fun _ => (asksByName_modify _).bind fun _ =>
      asksByName_setAll event.sampleVariables

theorem addsByName_branches (tag : String) (branches : List Branch) :
    (Filling.branches tag branches).AddsByName := by
  fun_induction Filling.branches tag branches with
  | case1 => exact addsByName_pure ()
  | case2 => exact addsByName_refuse _
  | case3 element children rest _ ihchildren ihrest =>
    have helement := (addsByName_value element).bind addsByName_push
    exact helement.bind fun _ =>
      (addsByName_addInside { name := tag } ihchildren.asksByName).bind fun _ => ihrest

end Filling

/-- Whatever it writes, the converter asks by name. -/
def Converter.AsksByName (converter : Converter) : Prop :=
  ∀ context v, (converter.write context v).AsksByName

theorem Coder.addsByName_object (context : WriteContext) (v : Value) :
    (Coder.object.write context v).AddsByName := by
  cases v with
  | object typeId fields entries =>
    exact (Filling.addsByName_fields typeId fields).bind fun _ =>
      Filling.addsByName_collection entries
  | _ => exact Filling.addsByName_refuse _

theorem Coder.asksByName (coder : Coder) : coder.converter.AsksByName := by
  intro context v
  have hrefuse : ∀ fault, (Filling.refuse fault : Filling Unit).AsksByName := fun fault =>
    (Filling.addsByName_refuse fault).asksByName
  have hentries : ∀ values, (Filling.entries values).AsksByName := fun values =>
    (Filling.addsByName_entries values).asksByName
  cases coder with
  | text =>
    cases v with
    | text s => exact Filling.asksByName_modify _
    | _ => exact hrefuse _
  | plan =>
    cases v with
    | plan branches =>
      change (Coder.write context (.plan branches) .plan).AsksByName
      rw [Coder.write]
      cases context.encoder.tagFor treeType with
      | ok tag => exact (Filling.addsByName_branches tag branches).asksByName
      | error fault => exact hrefuse fault
    | _ => exact hrefuse _
  | envelope =>
    cases v with
    | object typeId fields entries =>
      refine (Filling.asksByName_modify (Encoder.envelopeHead fields)).bind fun _ => ?_
      split
      · exact hentries entries
      · exact hrefuse _
    | _ => exact hrefuse _
  | wrapper =>
    cases v with
    | object typeId fields entries =>
      exact (Filling.asksByName_modify (Encoder.wrapperHead fields)).bind fun _ => hentries entries
    | _ => exact hrefuse _
  | sample =>
    cases v with
    | object typeId fields entries =>
      exact (Filling.asksByName_setAll _).bind fun _ => (Filling.asksByName_event _).bind fun _ =>
        (Filling.addsByName_structured fields).asksByName.bind fun _ => hentries entries
    | _ => exact hrefuse _
  | object => exact (Coder.addsByName_object context v).asksByName

namespace Converters

variable {converters : Converters} {context : WriteContext}

def AskByName (converters : Converters) : Prop :=
  ∀ converter ∈ converters.converters, converter.AsksByName

theorem asksByName_converterFor (h : converters.AskByName) (typeId : String) :
    (converters.converterFor typeId).AsksByName := by
  unfold converterFor dedicated?
  cases hfind : converters.converters.reverse.find? (·.claims typeId) with
  | none => exact Coder.object.asksByName
  | some converter => exact h converter (List.mem_reverse.mp (List.mem_of_find?_eq_some hfind))

theorem asksByName_fill (h : converters.AskByName) (v : Value) :
    (converters.fill context v).AsksByName := by
  unfold fill
  cases v.typeId? with
  | none => exact (Filling.addsByName_pure ()).asksByName
  | some typeId => exact asksByName_converterFor h typeId context v

theorem always_filled {filling : Filling Unit} (h : filling.AsksByName)
    (start : Except WriteFault Element) :
    (filled start filling).Always WriteRequest.IsNamed fun _ => True := by
  cases start with
  | error fault => trivial
  | ok e => exact (h e).bind fun _ _ => trivial

/-- A filled element starts as it was started. -/
theorem always_filled_of_adds {filling : Filling Unit} (h : filling.AddsByName) (start : Element) :
    (filled (.ok start) filling).Always WriteRequest.IsNamed fun result =>
      ∀ e, result = .ok e → e.name = start.name ∧ e.attributes = start.attributes := by
  refine (h start).bind ?_
  rintro ⟨result, left⟩ hleft e he
  cases result with
  | error failure => cases he
  | ok => exact Except.ok.inj he ▸ hleft

theorem always_answer (h : converters.AskByName) (request : WriteRequest) :
    (converters.answer context request).Always WriteRequest.IsNamed fun _ => True := by
  cases request with
  | value v => exact always_filled (asksByName_fill h v) _
  | field name v =>
    refine always_filled ?_ _
    cases v with
    | text s => exact Filling.asksByName_modify _
    | null => exact (Filling.addsByName_pure ()).asksByName
    | object typeId fields entries => exact asksByName_fill h (.object typeId fields entries)
    | plan branches => exact asksByName_fill h (.plan branches)
  | content v e => exact asksByName_fill h v e

/-- Where every converter asks by name, a script that does so writes all it writes under names. -/
theorem isNamed_of_writes (h : converters.AskByName) {Q : α → Prop} {script : WriteScript α}
    {written : List Written} {a : α} (hwrites : converters.Writes context script written a)
    (halways : script.Always WriteRequest.IsNamed Q) : ∀ w ∈ written, w.1.IsNamed := by
  induction hwrites with
  | done a => exact List.forall_mem_nil _
  | ask _ _ ihanswer ihnext =>
    obtain ⟨hnamed, hnext⟩ := halways
    have hinner := ihanswer (always_answer h _)
    have hafter := ihnext (hnext _)
    exact List.forall_mem_append.mpr ⟨hinner, List.forall_mem_cons.mpr ⟨hnamed, hafter⟩⟩

theorem askByName_ofRoster (roster : Roster) : (ofRoster roster).AskByName := by
  intro converter hmem
  obtain ⟨coder, -, rfl⟩ := List.mem_map.mp hmem
  exact coder.asksByName

end Converters

end PlanArchive.Coding
