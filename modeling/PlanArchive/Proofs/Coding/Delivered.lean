import PlanArchive.Proofs.Coding.Visits

/-!
# What a log hands over

In a log, what is handed over while an element is decoded is what the records of the wrappers that
decoding comes to are read as, also where decoding fails in the end (`mem_delivered_iff`).
-/

namespace PlanArchive.Coding

open Markup Naming

variable {α β : Type}

/-! ## Ledgers -/

/-- The ledger that `m` leaves, whether it fails or not. -/
def ledgerAfter (m : Decoding α) (s : Ledger) : Ledger := (m.run.run s).2

theorem Runs.ledgerAfter_eq {m : Decoding α} {a : α} {s t : Ledger} (h : Runs m s a t) :
    ledgerAfter m s = t :=
  congrArg Prod.snd h

theorem Fails.ledgerAfter_eq {m : Decoding α} {failure : Failure} {s t : Ledger}
    (h : Fails m s failure t) : ledgerAfter m s = t :=
  congrArg Prod.snd h

theorem ledgerAfter_pure (a : α) (s : Ledger) : ledgerAfter (pure a) s = s := rfl

theorem ledgerAfter_refuse (what : Malformation) (place : Place) (s : Ledger) :
    ledgerAfter (Decoder.refuse what place : Decoding α) s = s := rfl

theorem Runs.ledgerAfter_bind {m : Decoding α} {f : α → Decoding β} {a : α} {s t : Ledger}
    (h : Runs m s a t) : ledgerAfter (m >>= f) s = ledgerAfter (f a) t := by
  unfold ledgerAfter
  rw [run_bind, h]

/-- Steps that leave the ledger alone change nothing about what is left. -/
theorem ledgerAfter_bind {m : Decoding α} {f : α → Decoding β}
    (h : ∀ a s, ledgerAfter (f a) s = s) (s : Ledger) :
    ledgerAfter (m >>= f) s = ledgerAfter m s := by
  rcases runs_or_fails m s with ⟨a, t, hm⟩ | ⟨failure, t, hm⟩
  · rw [hm.ledgerAfter_bind, hm.ledgerAfter_eq, h]
  · rw [hm.ledgerAfter_eq, (hm.bind f).ledgerAfter_eq]

namespace Decoder

section

variable {decoder : Decoder} {path : List String} {a : Arrival} {x : Visit} {s : Ledger}

/-! ## Records -/

/-- Decoding comes to a record of a wrapper, which is read as the value. -/
def Delivers (decoder : Decoder) (x : Visit) (v : Value) : Prop :=
  ∃ y a finish, decoder.Visits x y ∧ decoder.Meets y a ∧ a.part = .record ∧
    decoder.Yields (a.visit y.path) v finish

/-- A slot adds a value to the records: its element delivers it, or is read as it and handed
over. -/
def Adds (decoder : Decoder) (path : List String) (a : Arrival) (v : Value) : Prop :=
  decoder.Delivers (a.visit path) v ∨
    a.part = .record ∧ ∃ finish, decoder.Yields (a.visit path) v finish

/-- What an element delivers is added by its slots. -/
theorem delivers_iff {v : Value} :
    decoder.Delivers x v ↔ ∃ a, decoder.Meets x a ∧ misplaced a.taken a.part = false ∧
      decoder.Adds x.path a v := by
  constructor
  · rintro ⟨y, a, finish, hvisits, hmeets, hrecord, hyields⟩
    cases hvisits with
    | here =>
      have hplace : misplaced a.taken a.part = false := misplaced_of_ne (by simp [hrecord])
      exact ⟨a, hmeets, hplace, .inr ⟨hrecord, finish, hyields⟩⟩
    | into hmeets' hplace hvisits =>
      exact ⟨_, hmeets', hplace, .inl ⟨y, a, finish, hvisits, hmeets, hrecord, hyields⟩⟩
  · rintro ⟨a, hmeets, hplace, ⟨y, b, finish, hvisits, hmeets', hrecord, hyields⟩ |
      ⟨hrecord, finish, hyields⟩⟩
    · exact ⟨y, b, finish, .into hmeets hplace hvisits, hmeets', hrecord, hyields⟩
    · exact ⟨x, a, finish, .here, hmeets, hrecord, hyields⟩

section

variable (hmode : decoder.ReadsIn .log) {v : Value}

include hmode

theorem mem_delivered_slot
    (hchild : v ∈ (ledgerAfter (decoder.decode (a.child.name :: path) (a.part.typeOf a.child)
        a.child) a.ledger).delivered ↔
      v ∈ a.ledger.delivered ∨ decoder.Delivers (a.visit path) v) :
    v ∈ (ledgerAfter (decoder.decodeSlot path a.part a.child) a.ledger).delivered ↔
      v ∈ a.ledger.delivered ∨ decoder.Adds path a v := by
  -- only a record that is read to its end is handed over itself
  rcases runs_or_fails (decoder.decode (a.child.name :: path) (a.part.typeOf a.child) a.child)
    a.ledger with ⟨value, u, hruns⟩ | ⟨failure, u, hfails⟩
  · have hslot : Runs (decoder.decodeSlot path a.part a.child) a.ledger value
        (decoder.handingOver a.part value u) := runs_decodeSlot.mpr ⟨u, hruns, rfl⟩
    have hyields : (∃ finish, decoder.Yields (a.visit path) v finish) ↔ v = value := by
      constructor
      · rintro ⟨finish, h⟩
        exact (hruns.unique h).1
      · rintro rfl
        exact ⟨u, hruns⟩
    rw [hruns.ledgerAfter_eq] at hchild
    rw [hslot.ledgerAfter_eq, Adds, hyields, ← or_assoc, ← hchild]
    unfold handingOver
    cases a.part <;> simp [hmode.delivers]
  · have hnone : ¬∃ finish, decoder.Yields (a.visit path) v finish := by
      rintro ⟨finish, h⟩
      cases hfails.symm.trans h
    rw [hfails.ledgerAfter_eq] at hchild
    rw [(fails_decodeSlot.mpr hfails).ledgerAfter_eq, hchild]
    simp only [Adds, hnone, and_false, or_false]

theorem mem_delivered_slots {taken : List (Part × Value)} {slots : List (Part × Element)}
    (h : ∀ slot ∈ slots, ∀ path type s,
      v ∈ (ledgerAfter (decoder.decode path type slot.2) s).delivered ↔
        v ∈ s.delivered ∨ decoder.Delivers ⟨path, type, slot.2, s⟩ v) :
    v ∈ (ledgerAfter (decoder.decodeSlots path taken slots) s).delivered ↔
      v ∈ s.delivered ∨ ∃ a, decoder.Comes path a taken slots s ∧
        misplaced a.taken a.part = false ∧ decoder.Adds path a v := by
  induction slots generalizing taken s with
  | nil =>
    have hnone : ¬∃ a, decoder.Comes path a taken [] s := by rintro ⟨a, ⟨⟩⟩
    simp only [not_exists] at hnone
    simp only [decodeSlots, ledgerAfter_pure, hnone, false_and, exists_false, or_false]
  | cons slot rest ih =>
    obtain ⟨part, child⟩ := slot
    obtain ⟨hchild, hrest⟩ := List.forall_mem_cons.mp h
    have hslot := @mem_delivered_slot decoder path ⟨part, child, taken, s⟩ hmode v (hchild _ _ _)
    simp only at hslot
    simp only [comes_cons, or_and_right, exists_or, exists_eq_left, decodeSlots]
    cases hplace : misplaced taken part with
    | true =>
      simp only [if_true, Bool.true_eq_false, false_and, exists_false, or_false,
        ledgerAfter_refuse]
    | false =>
      simp only [true_and, Bool.false_eq_true, if_false]
      rcases runs_or_fails (decoder.decodeSlot path part child) s with
        ⟨value, u, hruns⟩ | ⟨failure, u, hfails⟩
      · have hlater : ∀ a, (∃ value t, Runs (decoder.decodeSlot path part child) s value t ∧
            unfit taken part value = false ∧
            decoder.Comes path a (taken ++ [(part, value)]) rest t) ↔
              unfit taken part value = false ∧
                decoder.Comes path a (taken ++ [(part, value)]) rest u := by
          intro a
          constructor
          · rintro ⟨value', t, h, hfit, hcomes⟩
            obtain ⟨rfl, rfl⟩ := hruns.unique h
            exact ⟨hfit, hcomes⟩
          · rintro ⟨hfit, hcomes⟩
            exact ⟨value, u, hruns, hfit, hcomes⟩
        rw [hruns.ledgerAfter_eq] at hslot
        simp only [hruns.ledgerAfter_bind, hlater, ← or_assoc, ← hslot]
        cases hfit : unfit taken part value with
        | true => simp [ledgerAfter_refuse]
        | false =>
          simp only [Bool.false_eq_true, if_false, true_and]
          rw [ledgerAfter_bind fun _ _ => rfl]
          exact ih hrest
      · have hlater : ∀ value t, ¬Runs (decoder.decodeSlot path part child) s value t := by
          intro value t h
          cases hfails.symm.trans h
        rw [hfails.ledgerAfter_eq] at hslot
        simp only [(hfails.bind _).ledgerAfter_eq, hlater, false_and, exists_false, or_false]
        exact hslot

/-- In a log nothing but the slots of an element changes the ledger. -/
theorem ledgerAfter_decode (x : Visit) :
    (∃ tag binding c, x.type = some tag ∧ decoder.Opens tag x.element binding c ∧
      ledgerAfter (decoder.decode x.path x.type x.element) x.ledger =
        ledgerAfter (decoder.decodeSlots x.path [] (decoder.slots c x.element.children))
          x.ledger) ∨
    (∀ tag binding c, x.type = some tag → ¬decoder.Opens tag x.element binding c) ∧
      ledgerAfter (decoder.decode x.path x.type x.element) x.ledger = x.ledger := by
  by_cases hopens : ∃ tag binding c, x.type = some tag ∧ decoder.Opens tag x.element binding c
  · obtain ⟨tag, binding, c, htype, hopens⟩ := hopens
    refine .inl ⟨tag, binding, c, htype, hopens, ?_⟩
    have hbuild : ∀ values u, ledgerAfter (decoder.build x.path c binding.typeId x.element values) u
        = u := by
      intro values u
      unfold build
      cases decoder.valueOf? c binding.typeId x.element values <;> rfl
    simp only [decode_eq, hopens.present, htype, mark_in_log hmode.mode_eq, hopens.readTyped_eq]
    rw [ledgerAfter_bind fun _ _ => rfl, ledgerAfter_bind hbuild]
  · simp only [not_exists, not_and] at hopens
    refine .inr ⟨hopens, ?_⟩
    rw [decode_eq]
    cases hpresent : x.element.attribute? referenceKey with
    | some id => simp only [resolve_in_log hmode.mode_eq, ledgerAfter_refuse]
    | none =>
      simp only [mark_in_log hmode.mode_eq]
      rw [ledgerAfter_bind fun _ _ => rfl]
      rcases readTyped_of_not_opens hpresent hopens with ⟨v, hread⟩ | ⟨failure, -, hread⟩
      · rw [hread, ledgerAfter_pure]
      · rw [hread]
        rfl

/-- In a log, what is handed over while an element is decoded is what it delivers, also where it
fails. -/
theorem mem_delivered_iff :
    v ∈ (ledgerAfter (decoder.decode x.path x.type x.element) x.ledger).delivered ↔
      v ∈ x.ledger.delivered ∨ decoder.Delivers x v := by
  obtain ⟨path, type, e, s⟩ := x
  induction e using Element.induct generalizing path type s with
  | step e ih =>
    rw [delivers_iff]
    rcases ledgerAfter_decode hmode ⟨path, type, e, s⟩ with
      ⟨tag, binding, c, htype, hopens, hledger⟩ | ⟨hnone, hledger⟩
    · have hmeets : ∀ a, decoder.Meets ⟨path, type, e, s⟩ a ↔
          decoder.Comes path a [] (decoder.slots c e.children) s := by
        intro a
        constructor
        · rintro ⟨tag', binding', c', htype', hopens', hcomes⟩
          obtain rfl := Option.some.inj (htype'.symm.trans htype)
          obtain ⟨rfl, rfl⟩ := hopens.unique hopens'
          exact hcomes
        · exact fun hcomes => ⟨tag, binding, c, htype, hopens, hcomes⟩
      simp only [hledger, hmeets]
      refine mem_delivered_slots hmode ?_
      intro slot hslot path type s
      rcases mem_of_mem_slots hslot with hchild | ⟨collection, hcollection, hentry⟩
      · exact (ih slot.2 hchild).1 path type s
      · exact (ih collection hcollection).2 slot.2 hentry path type s
    · have hmeets : ∀ a, ¬decoder.Meets ⟨path, type, e, s⟩ a := by
        rintro a ⟨tag, binding, c, htype, hopens, -⟩
        exact hnone tag binding c htype hopens
      simp only [hmeets, false_and, exists_false, or_false, hledger]

end

end

end Decoder

end PlanArchive.Coding
