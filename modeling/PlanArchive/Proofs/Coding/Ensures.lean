import PlanArchive.Coding.Decode
import PlanArchive.Proofs.Keyed

/-!
# What decoding ensures

`Ensures I m Q` says that `m` keeps the invariant `I` of the ledger, also where it fails, and that
every result satisfies `Q`. The rules follow the steps that decoding is made of.
-/

namespace PlanArchive.Coding

variable {α β : Type}

/-- From some ledger, `m` returns `a`. -/
def Gives (m : Decoding α) (a : α) : Prop := ∃ start finish, m.run.run start = (.ok a, finish)

def Ensures (I : Ledger → Prop) (m : Decoding α) (Q : α → Prop) : Prop :=
  ∀ ledger, I ledger →
    I (m.run.run ledger).2 ∧ ∀ a, (m.run.run ledger).1 = .ok a → Q a

/-- Any ledger will do. -/
def anyLedger : Ledger → Prop := fun _ => True

section

variable {I : Ledger → Prop} {P Q : α → Prop} {R : β → Prop} {m : Decoding α}

theorem ensures_pure {a : α} (h : Q a) : Ensures I (pure a : Decoding α) Q :=
  fun _ hI => ⟨hI, fun _ he => Except.ok.inj he ▸ h⟩

theorem ensures_throw {failure : Failure} : Ensures I (throw failure : Decoding α) Q :=
  fun _ hI => ⟨hI, by rintro _ ⟨⟩⟩

theorem ensures_refuse {what : Malformation} {place : Place} :
    Ensures I (Decoder.refuse what place : Decoding α) Q :=
  ensures_throw

theorem run_bind (m : Decoding α) (f : α → Decoding β) (ledger : Ledger) :
    (m >>= f).run.run ledger =
      match m.run.run ledger with
      | (.ok a, ledger) => (f a).run.run ledger
      | (.error failure, ledger) => (.error failure, ledger) := by
  simp only [ExceptT.run_bind, StateT.run_bind]
  cases m.run.run ledger with
  | mk result ledger' =>
    cases result <;> simp only <;> rfl

theorem ensures_bind {f : α → Decoding β} (hm : Ensures I m P)
    (hf : ∀ a, P a → Ensures I (f a) R) : Ensures I (m >>= f) R := by
  intro ledger hI
  obtain ⟨hI', hP⟩ := hm ledger hI
  rw [run_bind]
  cases hrun : m.run.run ledger with
  | mk result ledger' =>
    rw [hrun] at hI' hP
    cases result with
    | ok a => exact hf a (hP a rfl) ledger' hI'
    | error failure => exact ⟨hI', by rintro _ ⟨⟩⟩

theorem ensures_mono (h : Ensures I m P) (hPQ : ∀ a, P a → Q a) : Ensures I m Q := by
  intro ledger hI
  obtain ⟨hI', hP⟩ := h ledger hI
  exact ⟨hI', fun a ha => hPQ a (hP a ha)⟩

/-- A result may be taken for one that was given. -/
theorem ensures_gives (h : Ensures I m fun a => Gives m a → Q a) : Ensures I m Q := by
  intro ledger hI
  obtain ⟨hI', hQ⟩ := h ledger hI
  refine ⟨hI', ?_⟩
  intro a ha
  exact hQ a ha ⟨ledger, (m.run.run ledger).2, Prod.ext ha rfl⟩

theorem ensures_of_gives (h : ∀ a, Gives m a → Q a) : Ensures anyLedger m Q :=
  fun ledger _ => ⟨trivial, fun _ ha => h _ ⟨ledger, (m.run.run ledger).2, Prod.ext ha rfl⟩⟩

theorem Ensures.of_gives (h : Ensures anyLedger m Q) {a : α} (ha : Gives m a) : Q a := by
  obtain ⟨start, finish, hrun⟩ := ha
  exact (h start trivial).2 a (congrArg Prod.fst hrun)

theorem gives_pure {a b : α} (h : Gives (pure a : Decoding α) b) : b = a :=
  (ensures_pure (Q := fun b => b = a) rfl).of_gives h

theorem not_gives_throw {failure : Failure} {a : α} :
    ¬Gives (throw failure : Decoding α) a :=
  (ensures_throw (Q := fun _ => False)).of_gives

theorem not_gives_refuse {what : Malformation} {place : Place} {a : α} :
    ¬Gives (Decoder.refuse what place : Decoding α) a :=
  not_gives_throw

/-- What two steps give, the second gives for something that the first gives. -/
theorem gives_bind {f : α → Decoding β} {b : β} (h : Gives (m >>= f) b) :
    ∃ a, Gives m a ∧ Gives (f a) b :=
  (ensures_bind (R := fun b => ∃ a, Gives m a ∧ Gives (f a) b) (ensures_of_gives fun _ ha => ha)
    fun a ha => ensures_of_gives fun _ hb => ⟨a, ha, hb⟩).of_gives h

end

section

variable {I : Ledger → Prop} {decoder : Decoder}

theorem ensures_mark {id : Option String} {value : Value}
    (h : ∀ ledger key, I ledger →
      I { ledger with marked := Keyed.put key value ledger.marked }) :
    Ensures I (decoder.mark id value) fun _ => True := by
  obtain ⟨resolver, roster, mode⟩ := decoder
  cases mode with
  | log => exact ensures_pure trivial
  | document =>
    cases id with
    | none => exact ensures_pure trivial
    | some id => exact fun ledger hI => ⟨h ledger id hI, fun _ _ => trivial⟩

theorem run_resolve (hmode : decoder.mode = .document) (place : Place) (id : String)
    (ledger : Ledger) :
    (decoder.resolve place id).run.run ledger =
      match Keyed.find? id ledger.marked with
      | some value => (.ok value, ledger)
      | none => (.error (.malformed (.unknownReference id) place), ledger) := by
  obtain ⟨resolver, roster, mode⟩ := decoder
  obtain rfl : mode = .document := hmode
  have hget : (get : Decoding Ledger).run.run ledger = (.ok ledger, ledger) := rfl
  rw [Decoder.resolve, run_bind, hget]
  simp only
  cases Keyed.find? id ledger.marked <;> rfl

theorem ensures_resolve {place : Place} {id : String} {Q : Value → Prop}
    (h : ∀ ledger key value, I ledger → (key, value) ∈ ledger.marked → Q value) :
    Ensures I (decoder.resolve place id) Q := by
  cases hmode : decoder.mode with
  | log =>
    obtain ⟨resolver, roster, mode⟩ := decoder
    obtain rfl : mode = .log := hmode
    exact ensures_refuse
  | document =>
    intro ledger hI
    rw [run_resolve hmode]
    cases hmarked : Keyed.find? id ledger.marked with
    | none => exact ⟨hI, by rintro _ ⟨⟩⟩
    | some value =>
      exact ⟨hI, fun _ he => Except.ok.inj he ▸ h ledger id value hI (Keyed.mem_of_find? hmarked)⟩

end

end PlanArchive.Coding
