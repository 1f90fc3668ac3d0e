import PlanArchive.Proofs.Archive.Document
import PlanArchive.Proofs.Coding.Sharing

/-!
# Shared values in documents

A value that a document holds twice may be written once: where it stands again, a reference to the
first place means the same (`decodeRoot_modifyAt_refer`).
-/

namespace PlanArchive.Coding

open Markup

/-- Decoding the root comes to the element at the position, and decodes it to the value. -/
def Decoder.ReadAt (decoder : Decoder) (root : Element) (p : List Nat) (v : Value) : Prop :=
  ∃ x finish, decoder.Reaches ⟨[root.name], some root.name, root, {}⟩ p x ∧
    decoder.Yields x v finish

end PlanArchive.Coding

namespace PlanArchive.Archive

open Coding Markup Naming

/-- An element without ids may refer to an earlier one that is decoded to the same value and has an
id of its own: the root is decoded to the same value. -/
theorem decodeRoot_modifyAt_refer (archive : Archive) {root e f : Element} {p q : List Nat}
    {id : String} {v w : Value} (he : root.at? p = some e) (hf : root.at? q = some f)
    (hpq : Element.Before p q) (hid : e.attribute? idKey = some id)
    (hpresent : e.attribute? referenceKey = none)
    (honly : root.OnlyAt (fun x => x.attribute? idKey = some id) p)
    (hfree : ∀ x : Element, x.Occurs f → x.attribute? idKey = none)
    (hp : (archive.decoder .document).ReadAt root p w)
    (hq : (archive.decoder .document).ReadAt root q w)
    (h : ((archive.decoder .document).decodeRoot root).1 = .ok v) :
    ((archive.decoder .document).decodeRoot (root.modifyAt (·.refer id) q)).1 = .ok v := by
  obtain ⟨y, u, hy, hyw⟩ := hp
  obtain ⟨z, u', hz, hzw⟩ := hq
  obtain rfl : y.element = e := Option.some.inj (hy.at?.symm.trans he)
  obtain rfl : z.element = f := Option.some.inj (hz.at?.symm.trans hf)
  have hnone : ∀ key, ¬z.element.Carries key := by
    rintro key ⟨x, hx, hkey⟩
    rw [hfree x hx] at hkey
    cases hkey
  have hroot : Runs ((archive.decoder .document).decode [root.name] (some root.name) root) {} v
      _ := Prod.ext h rfl
  have hyields := Decoder.yields_refer (archive.decoder_readsIn .document) hy hz hpq hpresent hid
    honly hnone hyw hzw hroot
  have hname := Element.name_modifyAt (f := (·.refer id)) (fun _ => rfl) root q
  rw [Decoder.decodeRoot, hname]
  exact congrArg Prod.fst hyields

def firstText : Element := ⟨"a", [("id", "1")], some "x", [], 1⟩

def secondText : Element := ⟨"string", [], some "x", [], 1⟩

def secondTextHolder : Element := ⟨"collection", [], none, [secondText], 1⟩

/-- The text of a field is an entry as well. -/
def repeating : Element := ⟨"TestPlan", [], none, [firstText, secondTextHolder], 1⟩

theorem opens_repeating :
    (small.decoder .document).Opens "TestPlan" repeating ⟨"TestPlan", false⟩ .object :=
  ⟨rfl, by decide, rfl, by rintro ⟨⟩, rfl⟩

theorem readAt_firstText : (small.decoder .document).ReadAt repeating [0] (.text "x") := by
  have hchildren : repeating.children = [] ++ firstText :: [secondTextHolder] := rfl
  have hslot : (small.decoder .document).Enters .object repeating.children [0] (.field "a")
      firstText [] [(.entry, secondText)] :=
    .child hchildren (.itself (by decide) (by decide))
  have hbefore : Runs ((small.decoder .document).decodeSlots ["TestPlan"] [] []) {} [] {} := rfl
  have hreach := Decoder.Reaches.of_slot (x := ⟨["TestPlan"], some "TestPlan", repeating, {}⟩)
    rfl opens_repeating hslot hbefore
  exact ⟨_, ⟨[("1", .text "x")], []⟩, hreach, rfl⟩

theorem readAt_secondText : (small.decoder .document).ReadAt repeating [1, 0] (.text "x") := by
  have hchildren : repeating.children = [firstText] ++ secondTextHolder :: [] := rfl
  have hentries : secondTextHolder.children = [] ++ secondText :: [] := rfl
  have hslot : (small.decoder .document).Enters .object repeating.children [1, 0] .entry
      secondText [(.field "a", firstText)] [] :=
    .child hchildren (.entry rfl (by decide) hentries)
  have hbefore : Runs ((small.decoder .document).decodeSlots ["TestPlan"] []
      [(.field "a", firstText)]) {} [(.field "a", .text "x")] ⟨[("1", .text "x")], []⟩ := rfl
  have hreach := Decoder.Reaches.of_slot (x := ⟨["TestPlan"], some "TestPlan", repeating, {}⟩)
    rfl opens_repeating hslot hbefore
  exact ⟨_, ⟨[("1", .text "x")], []⟩, hreach, rfl⟩

/-- Only the first of the two texts has the id. -/
theorem onlyAt_firstText :
    repeating.OnlyAt (fun x => x.attribute? idKey = some "1") [0] := by
  intro q x hx hid
  match q with
  | [] =>
    cases hx
    cases hid
  | [0] => rfl
  | 0 :: _ :: _ => cases hx
  | [1] =>
    cases hx
    cases hid
  | [1, 0] =>
    cases hx
    cases hid
  | 1 :: 0 :: _ :: _ => cases hx
  | 1 :: (_ + 1) :: _ => cases hx
  | (_ + 2) :: _ => cases hx

theorem decodeRoot_modifyAt_refer_small :
    repeating.at? [0] = some firstText ∧ repeating.at? [1, 0] = some secondText ∧
    Element.Before [0] [1, 0] ∧ firstText.attribute? idKey = some "1" ∧
    firstText.attribute? referenceKey = none ∧
    repeating.OnlyAt (fun x => x.attribute? idKey = some "1") [0] ∧
    (∀ x : Element, x.Occurs secondText → x.attribute? idKey = none) ∧
    (small.decoder .document).ReadAt repeating [0] (.text "x") ∧
    (small.decoder .document).ReadAt repeating [1, 0] (.text "x") ∧
    ((small.decoder .document).decodeRoot repeating).1 =
      .ok (.object "TestPlan" [("a", .text "x")] [.text "x"]) ∧
    ((small.decoder .document).decodeRoot (repeating.modifyAt (·.refer "1") [1, 0])).1 =
      .ok (.object "TestPlan" [("a", .text "x")] [.text "x"]) := by
  have hbefore : Element.Before [0] [1, 0] := .first (by decide)
  have hfree : ∀ x : Element, x.Occurs secondText → x.attribute? idKey = none := by
    intro x hx
    cases hx with
    | here => rfl
    | child hmem => cases hmem
  exact ⟨rfl, rfl, hbefore, rfl, rfl, onlyAt_firstText, hfree, readAt_firstText,
    readAt_secondText, rfl, decodeRoot_modifyAt_refer small rfl rfl hbefore rfl rfl
      onlyAt_firstText hfree readAt_firstText readAt_secondText rfl⟩

end PlanArchive.Archive
