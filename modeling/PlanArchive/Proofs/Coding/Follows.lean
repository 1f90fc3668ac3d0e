import Mathlib.Data.List.Forall2
import PlanArchive.Proofs.Coding.Reading
import PlanArchive.Proofs.Markup.Occurs

/-!
# Elements decoded elsewhere

In a log nothing that was read before matters: an element that stands elsewhere, on other lines and
below other tags, hands over the same records and gives the same value, or fails alike
(`tracks`).
-/

namespace PlanArchive.Markup

/-- The second element is the first with other line numbers; `L` relates the old ones to the new
ones. -/
inductive Element.Relined (L : Nat → Nat → Prop) : Element → Element → Prop
  | mk {name : String} {attributes : List (String × String)} {text : Option String}
      {children children' : List Element} {line line' : Nat} (hline : L line line')
      (hchildren : List.Forall₂ (Relined L) children children') :
      Relined L ⟨name, attributes, text, children, line⟩ ⟨name, attributes, text, children', line'⟩

end PlanArchive.Markup

namespace PlanArchive.Coding

open Markup Naming

variable {α β : Type}

/-! ## Two runs -/

/-- From any ledger, `m` ends with `result` and hands over `out`, and that is all it does. -/
def Hands (m : Decoding α) (result : Except Failure α) (out : List Value) : Prop :=
  ∀ ledger : Ledger,
    m.run.run ledger = (result, { ledger with delivered := ledger.delivered ++ out })

/-- The same result, or failures that `E` relates. -/
inductive Agree (E : Failure → Failure → Prop) : Except Failure α → Except Failure α → Prop
  | ok (a : α) : Agree E (.ok a) (.ok a)
  | error {failure failure' : Failure} (h : E failure failure') :
      Agree E (.error failure) (.error failure')

/-- Two programs that hand over the same and agree on the result, whatever was gathered before. -/
def Follows (E : Failure → Failure → Prop) (m m' : Decoding α) : Prop :=
  ∃ result result' out, Hands m result out ∧ Hands m' result' out ∧ Agree E result result'

theorem hands_pure (a : α) : Hands (pure a) (.ok a) [] := fun ledger => by
  rw [List.append_nil]
  rfl

theorem hands_throw (failure : Failure) : Hands (throw failure : Decoding α) (.error failure) [] :=
  fun ledger => by
    rw [List.append_nil]
    rfl

theorem Hands.bind {m : Decoding α} {f : α → Decoding β} {a : α} {result : Except Failure β}
    {out out' : List Value} (hm : Hands m (.ok a) out) (hf : Hands (f a) result out') :
    Hands (m >>= f) result (out ++ out') := fun ledger => by
  rw [run_bind, hm ledger]
  simp only
  rw [hf, List.append_assoc]

theorem Hands.bind_error {m : Decoding α} {failure : Failure} {out : List Value}
    (hm : Hands m (.error failure) out) (f : α → Decoding β) :
    Hands (m >>= f) (.error failure) out := fun ledger => by
  rw [run_bind, hm ledger]

section

variable {E : Failure → Failure → Prop}

theorem follows_pure (a : α) : Follows E (pure a : Decoding α) (pure a) :=
  ⟨.ok a, .ok a, [], hands_pure a, hands_pure a, .ok a⟩

theorem follows_throw {failure failure' : Failure} (h : E failure failure') :
    Follows E (throw failure : Decoding α) (throw failure') :=
  ⟨_, _, [], hands_throw failure, hands_throw failure', .error h⟩

theorem follows_bind {m m' : Decoding α} {f f' : α → Decoding β} (hm : Follows E m m')
    (hf : ∀ a, Follows E (f a) (f' a)) : Follows E (m >>= f) (m' >>= f') := by
  obtain ⟨result, result', out, hrun, hrun', hagree⟩ := hm
  cases hagree with
  | ok a =>
    obtain ⟨next, next', more, hnext, hnext', hagree⟩ := hf a
    exact ⟨next, next', out ++ more, hrun.bind hnext, hrun'.bind hnext', hagree⟩
  | error hfailure =>
    exact ⟨_, _, out, hrun.bind_error f, hrun'.bind_error f', .error hfailure⟩

end

namespace Decoder

theorem mark_in_log {decoder : Decoder} (hmode : decoder.mode = .log) (id : Option String)
    (value : Value) : decoder.mark id value = pure () := by
  simp only [mark, hmode]

theorem resolve_in_log {decoder : Decoder} (hmode : decoder.mode = .log) (place : Place)
    (id : String) : decoder.resolve place id = refuse .referenceInLog place := by
  simp only [resolve, hmode]

theorem hands_deliver {decoder : Decoder} (hdelivers : decoder.delivers = true) (record : Value) :
    Hands (decoder.deliver record) (.ok []) [record] := by
  intro ledger
  simp only [deliver, hdelivers]
  rfl

/-! ## Places -/

/-- How places differ between two runs, and failures with them. -/
structure Move where
  path : List String → List String → Prop
  line : Nat → Nat → Prop
  failure : Failure → Failure → Prop
  cons : ∀ {before after : List String} (tag : String),
    path before after → path (tag :: before) (tag :: after)
  malformed : ∀ {before after : List String} {l l' : Nat} (what : Malformation),
    path before after → line l l' →
      failure (.malformed what (placeOf before l)) (.malformed what (placeOf after l'))
  unknownType : ∀ {before after : List String} {l l' : Nat} (tag : String),
    path before after → line l l' →
      failure (.unknownType tag (placeOf before l)) (.unknownType tag (placeOf after l'))

variable {decoder : Decoder} {move : Move}

/-- Wherever the element is moved to, decoding it there follows decoding it here. -/
def Tracks (decoder : Decoder) (move : Move) (e : Element) : Prop :=
  ∀ {e' : Element}, e.Relined move.line e' → ∀ {path path' : List String} (type : Option String),
    move.path path path' →
      Follows move.failure (decoder.decode path type e) (decoder.decode path' type e')

section

variable {path path' : List String} (hpath : move.path path path')

include hpath

theorem Tracks.tagged {e e' : Element} (htracks : decoder.Tracks move e)
    (h : e.Relined move.line e') :
    Follows move.failure (decoder.decodeTagged path e) (decoder.decodeTagged path' e') := by
  obtain ⟨hline, hchildren⟩ := h
  exact htracks (.mk hline hchildren) _ (move.cons _ hpath)

theorem Tracks.field {e e' : Element} (htracks : decoder.Tracks move e)
    (h : e.Relined move.line e') :
    Follows move.failure (decoder.decodeField path e) (decoder.decodeField path' e') := by
  obtain ⟨hline, hchildren⟩ := h
  exact htracks (.mk hline hchildren) _ (move.cons _ hpath)

variable {children : List Element}

theorem follows_decodeAll (hall : ∀ child ∈ children, decoder.Tracks move child)
    {children' : List Element} (h : List.Forall₂ (Element.Relined move.line) children children') :
    Follows move.failure (decoder.decodeAll path children) (decoder.decodeAll path' children') := by
  induction h with
  | nil => exact follows_pure []
  | cons hchild _ ih =>
    obtain ⟨htracks, hrest⟩ := List.forall_mem_cons.mp hall
    have htagged := htracks.tagged hpath hchild
    obtain ⟨-, -⟩ := hchild
    unfold decodeAll
    refine follows_bind htagged fun value => ?_
    exact follows_bind (ih hrest) fun more => follows_pure _

theorem follows_decodeParts
    (hall : ∀ child ∈ children, decoder.Tracks move child ∧
      ∀ entry ∈ child.children, decoder.Tracks move entry)
    {children' : List Element} (h : List.Forall₂ (Element.Relined move.line) children children')
    (fields : List (String × Value)) :
    Follows move.failure (decoder.decodeParts path fields children)
      (decoder.decodeParts path' fields children') := by
  induction h generalizing fields with
  | nil => exact follows_pure _
  | cons hchild _ ih =>
    obtain ⟨⟨htracks, hentries⟩, hrest⟩ := List.forall_mem_cons.mp hall
    have hfield := htracks.field hpath hchild
    obtain ⟨hline, hgrandchildren⟩ := hchild
    rw [decodeParts, decodeParts]
    split
    · refine follows_bind (follows_decodeAll hpath hentries hgrandchildren) fun entries => ?_
      exact follows_bind (ih hrest fields) fun parts => follows_pure _
    · refine follows_bind hfield fun value => ?_
      exact ih hrest _

theorem follows_decodeSample (hall : ∀ child ∈ children, decoder.Tracks move child)
    {children' : List Element} (h : List.Forall₂ (Element.Relined move.line) children children')
    (fields : List (String × Value)) :
    Follows move.failure (decoder.decodeSample path fields children)
      (decoder.decodeSample path' fields children') := by
  induction h generalizing fields with
  | nil => exact follows_pure _
  | cons hchild _ ih =>
    obtain ⟨htracks, hrest⟩ := List.forall_mem_cons.mp hall
    have htagged := htracks.tagged hpath hchild
    have hfield := htracks.field hpath hchild
    obtain ⟨-, -⟩ := hchild
    rw [decodeSample, decodeSample]
    split
    · refine follows_bind htagged fun entry => ?_
      exact follows_bind (ih hrest fields) fun parts => follows_pure _
    · refine follows_bind hfield fun value => ?_
      exact ih hrest _

theorem follows_decodePlan (hall : ∀ child ∈ children, decoder.Tracks move child)
    {children' : List Element} (h : List.Forall₂ (Element.Relined move.line) children children')
    (pending : Option Value) :
    Follows move.failure (decoder.decodePlan path pending children)
      (decoder.decodePlan path' pending children') := by
  induction h generalizing pending with
  | nil => exact follows_pure _
  | cons hchild _ ih =>
    obtain ⟨htracks, hrest⟩ := List.forall_mem_cons.mp hall
    have htagged := htracks.tagged hpath hchild
    obtain ⟨hline, -⟩ := hchild
    rw [decodePlan.eq_def, decodePlan.eq_def decoder path']
    simp only
    split
    · cases pending with
      | none => exact follows_throw (move.malformed _ hpath hline)
      | some element =>
        refine follows_bind htagged fun below => ?_
        exact follows_bind (ih hrest none) fun plan => follows_pure _
    · refine follows_bind htagged fun element => ?_
      exact follows_bind (ih hrest (some element)) fun plan => follows_pure _

theorem follows_decodeEnvelope (hall : ∀ child ∈ children, decoder.Tracks move child)
    {children' : List Element} (h : List.Forall₂ (Element.Relined move.line) children children')
    (found : Option Plan) :
    Follows move.failure (decoder.decodeEnvelope path found children)
      (decoder.decodeEnvelope path' found children') := by
  induction h generalizing found with
  | nil => exact follows_pure _
  | cons hchild _ ih =>
    obtain ⟨htracks, hrest⟩ := List.forall_mem_cons.mp hall
    have htagged := htracks.tagged hpath hchild
    obtain ⟨hline, -⟩ := hchild
    unfold decodeEnvelope
    refine follows_bind htagged fun value => ?_
    split
    · exact ih hrest _
    · exact follows_throw (move.malformed _ hpath hline)

theorem follows_decodeRecords (hmode : decoder.ReadsIn .log)
    (hall : ∀ child ∈ children, decoder.Tracks move child)
    {children' : List Element} (h : List.Forall₂ (Element.Relined move.line) children children') :
    Follows move.failure (decoder.decodeRecords path children)
      (decoder.decodeRecords path' children') := by
  induction h with
  | nil => exact follows_pure _
  | cons hchild _ ih =>
    obtain ⟨htracks, hrest⟩ := List.forall_mem_cons.mp hall
    have htagged := htracks.tagged hpath hchild
    obtain ⟨-, -⟩ := hchild
    unfold decodeRecords
    refine follows_bind htagged fun record => ?_
    have hdeliver : Follows move.failure (decoder.deliver record) (decoder.deliver record) :=
      ⟨_, _, _, hands_deliver hmode.delivers record, hands_deliver hmode.delivers record, .ok []⟩
    refine follows_bind hdeliver fun kept => ?_
    exact follows_bind (ih hrest) fun more => follows_pure _

end

theorem follows_readWith (hmode : decoder.ReadsIn .log) {e e' : Element}
    (hall : ∀ child ∈ e.children, decoder.Tracks move child ∧
      ∀ entry ∈ child.children, decoder.Tracks move entry)
    (h : e.Relined move.line e') {path path' : List String} (hpath : move.path path path')
    (coder : Coder) (typeId : String) :
    Follows move.failure (decoder.readWith path coder typeId e)
      (decoder.readWith path' coder typeId e') := by
  obtain ⟨name, attributes, text, children, line⟩ := e
  have hchildren : ∀ child ∈ children, decoder.Tracks move child := fun child hchild =>
    (hall child hchild).1
  obtain ⟨hline, hrelined⟩ := h
  cases coder with
  | text =>
    cases hrelined with
    | nil => exact follows_pure _
    | cons => exact follows_throw (move.malformed _ hpath hline)
  | plan =>
    exact follows_bind (follows_decodePlan hpath hchildren hrelined none) fun plan =>
      follows_pure _
  | envelope =>
    refine follows_bind (follows_decodeEnvelope hpath hchildren hrelined none) fun found => ?_
    cases found with
    | none => exact follows_throw (move.malformed _ hpath hline)
    | some plan => exact follows_pure _
  | wrapper =>
    exact follows_bind (follows_decodeRecords hpath hmode hchildren hrelined) fun records =>
      follows_pure _
  | sample =>
    exact follows_bind (follows_decodeSample hpath hchildren hrelined _) fun parts =>
      follows_pure _
  | object =>
    have hparts := follows_bind (follows_decodeParts hpath hall hrelined []) fun parts =>
      follows_pure (E := move.failure) (Value.object typeId parts.1 parts.2)
    unfold readWith
    cases hrelined with
    | nil =>
      by_cases hblank : Text.allBlank (text.getD "").toList = true
      · simp only [Element.content, hblank, Bool.not_true, Bool.and_false, Bool.false_eq_true,
          if_false]
        exact hparts
      · simp only [Element.content, hblank, List.isEmpty_nil, Bool.not_false, Bool.and_true,
          if_true]
        exact follows_throw (move.malformed _ hpath hline)
    | cons => exact hparts

theorem follows_readTyped (hmode : decoder.ReadsIn .log) {e e' : Element}
    (hall : ∀ child ∈ e.children, decoder.Tracks move child ∧
      ∀ entry ∈ child.children, decoder.Tracks move entry)
    (h : e.Relined move.line e') {path path' : List String} (hpath : move.path path path')
    (type : Option String) :
    Follows move.failure (decoder.readTyped path type e) (decoder.readTyped path' type e') := by
  have hread : ∀ coder typeId, Follows move.failure (decoder.readWith path coder typeId e)
      (decoder.readWith path' coder typeId e') := follows_readWith hmode hall h hpath
  obtain ⟨hline, hrelined⟩ := h
  unfold readTyped
  cases type with
  | none =>
    cases hrelined with
    | nil => exact follows_pure _
    | cons => exact follows_throw (move.malformed _ hpath hline)
  | some tag =>
    simp only
    split
    · exact follows_pure _
    split
    · exact follows_throw (move.unknownType tag hpath hline)
    · unfold readAs
      split
      · exact follows_throw (move.malformed _ hpath hline)
      · exact hread _ _

/-- In a log, an element may be decoded anywhere. -/
theorem tracks (hmode : decoder.ReadsIn .log) (e : Element) : decoder.Tracks move e := by
  induction e using Element.induct with
  | step e ih =>
    intro e' h path path' type hpath
    have hread := follows_readTyped hmode ih h hpath type
    obtain ⟨hline, hrelined⟩ := h
    rw [decode_eq, decode_eq]
    simp only [Element.attribute?, resolve_in_log hmode.mode_eq, mark_in_log hmode.mode_eq]
    split
    · exact follows_throw (move.malformed _ hpath hline)
    · exact follows_bind hread fun value => follows_bind (follows_pure _) fun _ => follows_pure _

end Decoder

end PlanArchive.Coding
