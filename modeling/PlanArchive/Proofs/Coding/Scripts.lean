import PlanArchive.Coding.Conversion
import PlanArchive.Proofs.Coding.Writing

/-!
# What scripts come to

A script comes to one result at most (`writes_unique`), and two scripts in a row come to what the
second makes of the first. What holds whatever the replies holds of what a script comes to. Whatever
is written by a tag or a class, by whichever converter, has a usable tag (`isName_of_written`).
-/

namespace PlanArchive.Coding

open Markup Naming

variable {converters : Converters} {context : WriteContext} {α β : Type}

namespace Script

variable {Request : Type} {Reply : Request → Type} {allowed : Request → Prop}

/-- Whatever the replies, only what is allowed is asked for, and the result is one of `Q`. -/
def Always (allowed : Request → Prop) (Q : α → Prop) : Script Request Reply α → Prop
  | .done a => Q a
  | .ask request next => allowed request ∧ ∀ reply, (next reply).Always allowed Q

theorem Always.bind {P : α → Prop} {Q : β → Prop} {script : Script Request Reply α}
    {more : α → Script Request Reply β} (h : script.Always allowed P)
    (hmore : ∀ a, P a → (more a).Always allowed Q) : (script >>= more).Always allowed Q := by
  induction script with
  | done a => exact hmore a h
  | ask request next ih => exact ⟨h.1, fun reply => ih reply (h.2 reply)⟩

theorem Always.mono {P Q : α → Prop} {script : Script Request Reply α}
    (h : script.Always allowed P) (hPQ : ∀ a, P a → Q a) : script.Always allowed Q := by
  induction script with
  | done a => exact hPQ a h
  | ask request next ih => exact ⟨h.1, fun reply => ih reply (h.2 reply)⟩

end Script

namespace Converters

theorem Writes.bind {script : WriteScript α} {more : α → WriteScript β} {a : α} {b : β}
    {written after : List Written} (h : converters.Writes context script written a)
    (hmore : converters.Writes context (more a) after b) :
    converters.Writes context (script >>= more) (written ++ after) b := by
  induction h with
  | done a => exact hmore
  | ask hanswer _ _ ih =>
    rw [List.append_assoc, List.cons_append]
    exact .ask hanswer (ih hmore)

theorem writes_unique {script : WriteScript α} {written written' : List Written} {a a' : α}
    (h : converters.Writes context script written a)
    (h' : converters.Writes context script written' a') : written = written' ∧ a = a' := by
  induction h generalizing written' with
  | done a =>
    cases h'
    exact ⟨rfl, rfl⟩
  | ask _ _ ihanswer ihnext =>
    cases h' with
    | ask hanswer' hnext' =>
      obtain ⟨rfl, rfl⟩ := ihanswer hanswer'
      obtain ⟨rfl, rfl⟩ := ihnext hnext'
      exact ⟨rfl, rfl⟩

theorem Writes.of_always {allowed : WriteRequest → Prop} {Q : α → Prop} {script : WriteScript α}
    {written : List Written} {a : α} (h : converters.Writes context script written a)
    (halways : script.Always allowed Q) : Q a := by
  induction h with
  | done a => exact halways
  | ask _ _ _ ih => exact ih (halways.2 _)

/-- The converter of its type fills the element of a value. -/
theorem fill_eq_write (context : WriteContext) (v : Value) {typeId : String}
    (h : v.typeId? = some typeId) :
    converters.fill context v = (converters.converterFor typeId).write context v := by
  rw [fill, h]

theorem converterFor_of_dedicated {typeId : String} {converter : Converter}
    (h : converters.dedicated? typeId = some converter) :
    converters.converterFor typeId = converter := by
  rw [converterFor, h]
  rfl

theorem converterFor_of_unclaimed {typeId : String} (h : converters.dedicated? typeId = none) :
    converters.converterFor typeId = Coder.object.converter := by
  rw [converterFor, h]
  rfl

/-- What is asked for is answered by a script of its own. -/
theorem writes_request {request : WriteRequest} {written : List Written} {reply : request.Reply} :
    converters.Writes context (Script.request request) written reply ↔
      ∃ inner, converters.Writes context (converters.answer context request) inner reply ∧
        written = inner ++ [⟨request, reply⟩] := by
  constructor
  · intro h
    cases h with
    | ask hanswer hnext =>
      cases hnext
      exact ⟨_, hanswer, rfl⟩
  · rintro ⟨inner, hanswer, rfl⟩
    exact .ask hanswer (.done reply)

/-- An element is filled only if it could be started. -/
theorem exists_start_of_filled {start : Except WriteFault Element} {filling : Filling Unit}
    {written : List Written} {e : Element}
    (h : converters.Writes context (filled start filling) written (.ok e)) :
    ∃ e', start = .ok e' := by
  cases start with
  | error fault => cases h
  | ok e' => exact ⟨e', rfl⟩

end Converters

/-- The value was written under a name, its tag or a class. -/
inductive Written.Names : Written → Value → Prop
  | value {v : Value} {e : Element} : Names ⟨.value v, .ok e⟩ v
  | field {name : String} {v : Value} {e : Element} : Names ⟨.field name v, .ok e⟩ v

/-- The content of the value was written into an element that a converter had made. -/
inductive Written.Fills : Written → Value → Prop
  | content {v : Value} {e e' : Element} : Fills ⟨.content v e, (.ok (), e')⟩ v

namespace Converters

theorem isName_of_answer {request : WriteRequest} {reply : request.Reply} {inner : List Written}
    (h : converters.Writes context (converters.answer context request) inner reply)
    {typeId : String} {fields : List (String × Value)} {entries : List Value}
    (hnames : Written.Names ⟨request, reply⟩ (.object typeId fields entries)) :
    isName (context.resolver.tagFor typeId) = true := by
  cases hnames with
  | value =>
    obtain ⟨e, hstart⟩ := exists_start_of_filled h
    exact (Encoder.startValue_eq_ok.mp hstart).1
  | field =>
    obtain ⟨e, hstart⟩ := exists_start_of_filled h
    exact (Encoder.startField_eq_ok.mp hstart).2.1 rfl

/-- Whichever converter asked for an object by its tag or as a field, the object has a tag that can
be used. -/
theorem isName_of_written {script : WriteScript α} {written : List Written} {a : α}
    (h : converters.Writes context script written a) {w : Written} (hw : w ∈ written)
    {typeId : String} {fields : List (String × Value)} {entries : List Value}
    (hnames : w.Names (.object typeId fields entries)) :
    isName (context.resolver.tagFor typeId) = true := by
  induction h with
  | done a => cases hw
  | ask hanswer _ ihanswer ihnext =>
    rcases List.mem_append.mp hw with hinner | hafter
    · exact ihanswer hinner
    · rcases List.mem_cons.mp hafter with rfl | hafter
      · exact isName_of_answer hanswer hnames
      · exact ihnext hafter

end Converters

end PlanArchive.Coding
