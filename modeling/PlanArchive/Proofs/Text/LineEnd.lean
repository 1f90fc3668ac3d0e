import PlanArchive.Proofs.Text.Utf8

/-!
# Other line ends

Octets in which each line feed is replaced by other ASCII characters are read, leniently too, as
the text in which the same is done. A line feed may stand in the middle of a broken sequence: it
ends the sequence, as each other ASCII character does.
-/

namespace PlanArchive.Text

section

variable {α : Type} [DecidableEq α]

/-- The list with `new` in each place of `old`. -/
def replaceEach (old : α) (new xs : List α) : List α :=
  xs.flatMap fun x => if x = old then new else [x]

theorem replaceEach_cons (old : α) (new : List α) (x : α) (xs : List α) :
    replaceEach old new (x :: xs) = (if x = old then new else [x]) ++ replaceEach old new xs :=
  List.flatMap_cons

theorem replaceEach_append (old : α) (new xs ys : List α) :
    replaceEach old new (xs ++ ys) = replaceEach old new xs ++ replaceEach old new ys :=
  List.flatMap_append

theorem replaceEach_of_not_mem {old : α} {xs : List α} (h : old ∉ xs) (new : List α) :
    replaceEach old new xs = xs := by
  induction xs with
  | nil => rfl
  | cons x xs ih =>
    simp only [List.mem_cons, not_or] at h
    rw [replaceEach_cons, if_neg (Ne.symm h.1), ih h.2]
    rfl

end

namespace Utf8

/-- Whatever ends this sequence, it is no character below 0x80. -/
structure Pending.Long (p : Pending) : Prop where
  low : 0x80 ≤ p.low.toNat
  high : p.high.toNat ≤ 0xBF
  next : 2 ≤ p.bits * 64 + (p.low.toNat - 0x80)
  last : p.need ≤ 1 → 2 ≤ p.bits

/-- No sequence under way, or a long one. -/
def Ready : Option Pending → Prop
  | none => True
  | some p => p.Long

theorem ready_none : Ready none := trivial

/-- An ASCII character other than the null character. -/
def Ascii (c : Char) : Prop := 0 < c.toNat ∧ c.toNat < 0x80

instance : DecidablePred Ascii := fun _ => inferInstanceAs (Decidable (_ ∧ _))

/-- An octet is an ASCII character, starts a long sequence, or starts nothing. -/
theorem lead_kind (b : UInt8) :
    lead b = .char (Char.ofNat b.toNat) ∨ (∃ p, lead b = .more p ∧ p.Long) ∨ lead b = .bad := by
  rcases lead_cases b with ⟨n, hn, rfl⟩ | ⟨n, hn2, hn, rfl⟩ | ⟨n, hn, rfl⟩ | ⟨n, hn, rfl⟩ | hbad
  · have hoctet : (UInt8.ofNat n).toNat = n := toNat_octet (by omega)
    exact .inl (by rw [lead_one hn, hoctet])
  · refine .inr (.inl ⟨_, lead_two hn2 hn, by simp, by simp, ?_, fun _ => hn2⟩)
    simp only
    omega
  · refine .inr (.inl ⟨_, lead_three hn, ?_, ?_, ?_, fun h => by simp at h⟩)
    · dsimp only
      split <;> simp
    · dsimp only
      split <;> simp
    · dsimp only
      split <;> simp
      omega
  · refine .inr (.inl ⟨_, lead_four hn, ?_, ?_, ?_, fun h => by simp at h⟩)
    · dsimp only
      split <;> simp
    · dsimp only
      split <;> simp
    · dsimp only
      split <;> simp
      omega
  · exact .inr (.inr hbad)

theorem toNat_ofNat_ascii {n : Nat} (h : Ascii (Char.ofNat n)) : (Char.ofNat n).toNat = n := by
  by_cases hvalid : n.isValidChar
  · exact val_ofNat hvalid
  · have hzero : Char.ofNat n = Char.ofNat 0 := by
      rw [Char.ofNat, dif_neg hvalid]
      rfl
    rw [hzero] at h
    exact absurd h.1 (by decide)

/-- What one octet gives, whatever follows it. An ASCII character comes from its own octet. -/
theorem scan_lead (b : UInt8) :
    ∃ front next, Ready next ∧ (∀ rest, scan none (b :: rest) = front ++ scan next rest) ∧
      ∀ c, Ascii c → some c ∈ front → b.toNat = c.toNat := by
  rcases lead_kind b with hlead | ⟨p, hlead, hlong⟩ | hlead
  · refine ⟨[some (Char.ofNat b.toNat)], none, trivial, fun rest => by rw [scan, hlead]; rfl,
      fun c hc hmem => ?_⟩
    obtain rfl := Option.some.inj (List.mem_singleton.mp hmem)
    exact (toNat_ofNat_ascii hc).symm
  · exact ⟨[], some p, hlong, fun rest => by rw [scan, hlead]; rfl, by simp⟩
  · exact ⟨[none], none, trivial, fun rest => by rw [scan, hlead]; rfl, by simp⟩

theorem scan_break {p : Pending} {b : UInt8} (h : ¬ (p.low ≤ b ∧ b ≤ p.high)) (rest : Bytes) :
    scan (some p) (b :: rest) = none :: scan none (b :: rest) :=
  if_neg h

theorem scan_step {state : Option Pending} (h : Ready state) (b : UInt8) :
    ∃ front next, Ready next ∧ (∀ rest, scan state (b :: rest) = front ++ scan next rest) ∧
      ∀ c, Ascii c → some c ∈ front → b.toNat = c.toNat := by
  cases state with
  | none => exact scan_lead b
  | some p =>
    by_cases hin : p.low ≤ b ∧ b ≤ p.high
    · have hlow : p.low.toNat ≤ b.toNat := UInt8.le_iff_toNat_le.mp hin.1
      have hhigh : b.toNat ≤ p.high.toNat := UInt8.le_iff_toNat_le.mp hin.2
      have hfirst := h.low
      have hlast := h.high
      have hnext := h.next
      by_cases hneed : p.need ≤ 1
      · have hbits := h.last hneed
        refine ⟨[some (Char.ofNat (p.bits * 64 + b.toNat % 64))], none, trivial, fun rest => ?_,
          fun c hc hmem => ?_⟩
        · rw [scan, if_pos hin]
          simp only [if_pos hneed]
          rfl
        · obtain rfl := Option.some.inj (List.mem_singleton.mp hmem)
          have hsmall := hc.2
          rw [toNat_ofNat_ascii hc] at hsmall
          omega
      · refine ⟨[], some ⟨p.need - 1, p.bits * 64 + b.toNat % 64, 0x80, 0xBF⟩,
          ⟨by simp, by simp, ?_, ?_⟩, fun rest => ?_, by simp⟩
        · simp only
          omega
        · intro _
          simp only
          omega
        · rw [scan, if_pos hin]
          simp only [if_neg hneed]
          rfl
    · obtain ⟨front, next, hready, hscan, hascii⟩ := scan_lead b
      refine ⟨none :: front, next, hready, fun rest => ?_, fun c hc hmem => ?_⟩
      · rw [scan_break hin, hscan]
        rfl
      · exact hascii c hc ((List.mem_cons.mp hmem).resolve_left (Option.some_ne_none c))

/-- An ASCII character ends whatever is under way. -/
theorem scan_ascii {state : Option Pending} (h : Ready state) {b : UInt8} (hb : b.toNat < 0x80)
    (rest : Bytes) :
    scan state (b :: rest) = (state.map fun _ => none).toList ++ scan none (b :: rest) := by
  cases state with
  | none => rfl
  | some p =>
    have hlow := h.low
    refine scan_break (fun hin => ?_) rest
    have hle := UInt8.le_iff_toNat_le.mp hin.1
    omega

theorem scan_encode_append (cs : List Char) (rest : Bytes) :
    scan none (encode cs ++ rest) = cs.map some ++ scan none rest := by
  induction cs with
  | nil => rfl
  | cons c cs ih =>
    have hcons : encode (c :: cs) ++ rest = String.utf8EncodeChar c ++ (encode cs ++ rest) := by
      rw [← List.append_assoc]
      rfl
    rw [hcons, scan_encodeChar, ih]
    rfl

theorem encode_ascii {c : Char} (h : Ascii c) (cs : List Char) :
    encode (c :: cs) = UInt8.ofNat c.toNat :: encode cs := by
  have hc : String.utf8EncodeChar c = [UInt8.ofNat c.toNat] := by
    rw [← encodeChar_one h.2, Char.ofNat_toNat]
  rw [encode, List.flatMap_cons, hc]
  rfl

section

variable {first : Char} (hfirst : Ascii first)

include hfirst

theorem scan_replaceEach (more : List Char) {state : Option Pending} (h : Ready state)
    (content : Bytes) :
    scan state (replaceEach 0x0A (encode (first :: more)) content) =
      replaceEach (some '\n') ((first :: more).map some) (scan state content) := by
  have hoctet : (UInt8.ofNat first.toNat).toNat < 0x80 := by
    rw [toNat_octet (by have := hfirst.2; omega)]
    exact hfirst.2
  induction content generalizing state with
  | nil => cases state <;> rfl
  | cons b content ih =>
    rw [replaceEach_cons]
    by_cases hb : b = 0x0A
    · subst hb
      have hfeed : scan none (0x0A :: content) = some '\n' :: scan none content := rfl
      have hbroken : replaceEach (some '\n') ((first :: more).map some)
          (state.map fun _ => none).toList = (state.map fun _ => none).toList := by
        cases state <;> rfl
      have hnew := scan_encode_append (first :: more)
        (replaceEach 0x0A (encode (first :: more)) content)
      rw [encode_ascii hfirst, List.cons_append] at hnew
      rw [if_pos rfl, encode_ascii hfirst, List.cons_append, scan_ascii h hoctet, hnew,
        ← encode_ascii hfirst, ih ready_none, scan_ascii h (by decide), hfeed,
        replaceEach_append, hbroken, replaceEach_cons, if_pos rfl]
    · obtain ⟨front, next, hready, hscan, hascii⟩ := scan_step h b
      have hfront : some '\n' ∉ front := fun hmem =>
        hb (UInt8.toNat_inj.mp (hascii '\n' (by decide) hmem))
      rw [if_neg hb, List.singleton_append, hscan, ih hready, hscan, replaceEach_append,
        replaceEach_of_not_mem hfront]

theorem decodeLossy_replaceEach (more : List Char) (content : Bytes) :
    decodeLossy (replaceEach 0x0A (encode (first :: more)) content) =
      replaceEach '\n' (first :: more) (decodeLossy content) := by
  unfold decodeLossy
  rw [scan_replaceEach hfirst more ready_none]
  generalize scan none content = found
  induction found with
  | nil => rfl
  | cons o found ih =>
    have hcons : (o :: found).map (·.getD (Char.ofNat 0xFFFD)) =
        o.getD (Char.ofNat 0xFFFD) :: found.map (·.getD (Char.ofNat 0xFFFD)) := rfl
    rw [replaceEach_cons, List.map_append, ih, hcons, replaceEach_cons]
    cases o with
    | none => rfl
    | some c =>
      by_cases hc : c = '\n'
      · have hmore : (more.map some).map (·.getD (Char.ofNat 0xFFFD)) = more := by
          rw [List.map_map]
          exact List.map_id more
        have hc' : (some c).getD (Char.ofNat 0xFFFD) = '\n' := hc
        rw [if_pos (congrArg some hc), if_pos hc', List.map_cons, List.map_cons, hmore]
        rfl
      · simp [hc]

end

theorem not_mem_scan {c : Char} (hc : Ascii c) {state : Option Pending} (h : Ready state)
    {content : Bytes} (hnot : UInt8.ofNat c.toNat ∉ content) : some c ∉ scan state content := by
  induction content generalizing state with
  | nil => cases state <;> simp [scan]
  | cons b content ih =>
    simp only [List.mem_cons, not_or] at hnot
    obtain ⟨front, next, hready, hscan, hascii⟩ := scan_step h b
    rw [hscan, List.mem_append, not_or]
    refine ⟨fun hmem => hnot.1 ?_, ih hready hnot.2⟩
    rw [← hascii c hc hmem, UInt8.ofNat_toNat]

/-- An ASCII character whose octet does not occur is not read. -/
theorem not_mem_decodeLossy {c : Char} (hc : Ascii c) {content : Bytes}
    (h : UInt8.ofNat c.toNat ∉ content) : c ∉ decodeLossy content := by
  intro hmem
  obtain ⟨o, ho, hread⟩ := List.mem_map.mp hmem
  cases o with
  | none =>
    have hsmall := hc.2
    rw [← hread] at hsmall
    exact absurd hsmall (by decide)
  | some d =>
    obtain rfl : d = c := hread
    exact not_mem_scan hc ready_none h ho

end Utf8

end PlanArchive.Text
