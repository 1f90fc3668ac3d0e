import PlanArchive.Text.Utf8

/-!
# UTF-8 there and back

Reading strictly gives back every text that was written (`decode?_encode`), and the octets that
are read as a text are its own (`decode?_eq_some_iff`). The reader is followed through one
character: its first octet, then each octet that continues it.
-/

namespace PlanArchive.Text.Utf8

theorem toNat_octet {n : Nat} (h : n < 256) : (UInt8.ofNat n).toNat = n :=
  UInt8.toNat_ofNat_of_lt' h

theorem octet_lt {n : Nat} (h : n < 256) (b : UInt8) : UInt8.ofNat n < b ↔ n < b.toNat :=
  UInt8.ofNat_lt_iff h

/-- An octet that continues a sequence adds six bits to it. -/
theorem scan_tail {p : Pending} {n : Nat} (hn : n < 64) (hlow : p.low.toNat ≤ n + 0x80)
    (hhigh : n + 0x80 ≤ p.high.toNat) (rest : Bytes) :
    scan (some p) (UInt8.ofNat (n + 0x80) :: rest) =
      if p.need ≤ 1 then some (Char.ofNat (p.bits * 64 + n)) :: scan none rest
      else scan (some ⟨p.need - 1, p.bits * 64 + n, 0x80, 0xBF⟩) rest := by
  have hb : (UInt8.ofNat (n + 0x80)).toNat = n + 0x80 := toNat_octet (by omega)
  have hin : p.low ≤ UInt8.ofNat (n + 0x80) ∧ UInt8.ofNat (n + 0x80) ≤ p.high := by
    rw [UInt8.le_iff_toNat_le, UInt8.le_iff_toNat_le, hb]
    exact ⟨hlow, hhigh⟩
  have hbits : (n + 0x80) % 64 = n := by omega
  rw [scan, if_pos hin]
  simp only [hb, hbits]

theorem lead_one {n : Nat} (h : n < 0x80) : lead (UInt8.ofNat n) = .char (Char.ofNat n) := by
  have hb : (UInt8.ofNat n).toNat = n := toNat_octet (by omega)
  rw [lead, if_pos ((octet_lt (by omega) _).2 h), hb]

theorem lead_two {n : Nat} (h2 : 2 ≤ n) (h : n < 0x20) :
    lead (UInt8.ofNat (n + 0xC0)) = .more ⟨1, n, 0x80, 0xBF⟩ := by
  have hb : (UInt8.ofNat (n + 0xC0)).toNat = n + 0xC0 := toNat_octet (by omega)
  have e1 : ¬ n + 0xC0 < (0x80 : UInt8).toNat := by simp
  have e2 : ¬ n + 0xC0 < (0xC2 : UInt8).toNat := by simp; omega
  have e3 : n + 0xC0 < (0xE0 : UInt8).toNat := by simp; omega
  simp only [lead, octet_lt (show n + 0xC0 < 256 by omega), hb, if_neg e1, if_neg e2, if_pos e3,
    Nat.add_sub_cancel]

theorem lead_three {n : Nat} (h : n < 0x10) :
    lead (UInt8.ofNat (n + 0xE0)) =
      .more ⟨2, n, if n = 0 then 0xA0 else 0x80, if n = 0xD then 0x9F else 0xBF⟩ := by
  have hb : (UInt8.ofNat (n + 0xE0)).toNat = n + 0xE0 := toNat_octet (by omega)
  have e1 : ¬ n + 0xE0 < (0x80 : UInt8).toNat := by simp
  have e2 : ¬ n + 0xE0 < (0xC2 : UInt8).toNat := by simp
  have e3 : ¬ n + 0xE0 < (0xE0 : UInt8).toNat := by simp
  have e4 : n + 0xE0 < (0xF0 : UInt8).toNat := by simp; omega
  have e5 : UInt8.ofNat (n + 0xE0) = 0xE0 ↔ n = 0 := by
    rw [← UInt8.toNat_inj, hb]; simp
  have e6 : UInt8.ofNat (n + 0xE0) = 0xED ↔ n = 0xD := by
    rw [← UInt8.toNat_inj, hb]; simp
  simp only [lead, octet_lt (show n + 0xE0 < 256 by omega), hb, if_neg e1, if_neg e2, if_neg e3,
    if_pos e4, e5, e6, Nat.add_sub_cancel]

theorem lead_four {n : Nat} (h : n < 5) :
    lead (UInt8.ofNat (n + 0xF0)) =
      .more ⟨3, n, if n = 0 then 0x90 else 0x80, if n = 4 then 0x8F else 0xBF⟩ := by
  have hb : (UInt8.ofNat (n + 0xF0)).toNat = n + 0xF0 := toNat_octet (by omega)
  have e1 : ¬ n + 0xF0 < (0x80 : UInt8).toNat := by simp
  have e2 : ¬ n + 0xF0 < (0xC2 : UInt8).toNat := by simp
  have e3 : ¬ n + 0xF0 < (0xE0 : UInt8).toNat := by simp
  have e4 : ¬ n + 0xF0 < (0xF0 : UInt8).toNat := by simp
  have e5 : n + 0xF0 < (0xF5 : UInt8).toNat := by simp; omega
  have e6 : UInt8.ofNat (n + 0xF0) = 0xF0 ↔ n = 0 := by
    rw [← UInt8.toNat_inj, hb]; simp
  have e7 : UInt8.ofNat (n + 0xF0) = 0xF4 ↔ n = 4 := by
    rw [← UInt8.toNat_inj, hb]; simp
  simp only [lead, octet_lt (show n + 0xF0 < 256 by omega), hb, if_neg e1, if_neg e2, if_neg e3,
    if_neg e4, if_pos e5, e6, e7, Nat.add_sub_cancel]

theorem scan_encodeChar (c : Char) (rest : Bytes) :
    scan none (String.utf8EncodeChar c ++ rest) = some c :: scan none rest := by
  have hc : Char.ofNat c.val.toNat = c := Char.ofNat_toNat c
  have hv : c.val.toNat < 0xD800 ∨ 0xDFFF < c.val.toNat ∧ c.val.toNat < 0x110000 := c.valid
  generalize hn : c.val.toNat = n at hc hv
  simp only [String.utf8EncodeChar, hn]
  by_cases h1 : n ≤ 0x7F
  · rw [if_pos h1, List.cons_append, scan, lead_one (by omega), hc]
    rfl
  rw [if_neg h1]
  by_cases h2 : n ≤ 0x7FF
  · have hsum : n / 64 % 0x20 * 64 + n % 0x40 = n := by omega
    rw [if_pos h2, List.cons_append, scan, lead_two (by omega) (by omega)]
    simp only [List.cons_append, List.nil_append]
    rw [scan_tail (by omega) (by simp) (by simp; omega), if_pos (by simp), hsum, hc]
  rw [if_neg h2]
  by_cases h3 : n ≤ 0xFFFF
  · have hsum : (n / 4096 % 0x10 * 64 + n / 64 % 0x40) * 64 + n % 0x40 = n := by omega
    have hlow : (if n / 4096 % 0x10 = 0 then (0xA0 : UInt8) else 0x80).toNat ≤
        n / 64 % 0x40 + 0x80 := by
      split
      · simp
        omega
      · simp
    have hhigh : n / 64 % 0x40 + 0x80 ≤
        (if n / 4096 % 0x10 = 0xD then (0x9F : UInt8) else 0xBF).toNat := by
      split <;> simp <;> omega
    rw [if_pos h3, List.cons_append, scan, lead_three (by omega)]
    simp only [List.cons_append, List.nil_append]
    rw [scan_tail (by omega) hlow hhigh, if_neg (by simp)]
    rw [scan_tail (by omega) (by simp) (by simp; omega), if_pos (by simp), hsum, hc]
  · have hsum : ((n / 262144 % 0x08 * 64 + n / 4096 % 0x40) * 64 + n / 64 % 0x40) * 64 +
        n % 0x40 = n := by omega
    have hlow : (if n / 262144 % 0x08 = 0 then (0x90 : UInt8) else 0x80).toNat ≤
        n / 4096 % 0x40 + 0x80 := by
      split
      · simp
        omega
      · simp
    have hhigh : n / 4096 % 0x40 + 0x80 ≤
        (if n / 262144 % 0x08 = 4 then (0x8F : UInt8) else 0xBF).toNat := by
      split <;> simp <;> omega
    rw [if_neg h3, List.cons_append, scan, lead_four (by omega)]
    simp only [List.cons_append, List.nil_append]
    rw [scan_tail (by omega) hlow hhigh, if_neg (by simp)]
    rw [scan_tail (by omega) (by simp) (by simp; omega), if_neg (by simp)]
    rw [scan_tail (by omega) (by simp) (by simp; omega), if_pos (by simp), hsum, hc]

theorem scan_encode (cs : List Char) : scan none (encode cs) = cs.map some := by
  induction cs with
  | nil => rfl
  | cons c rest ih =>
    have step : encode (c :: rest) = String.utf8EncodeChar c ++ encode rest := rfl
    rw [step, scan_encodeChar, ih, List.map_cons]

theorem decode?_encode (cs : List Char) : decode? (encode cs) = some cs := by
  rw [decode?, scan_encode]
  induction cs with
  | nil => rfl
  | cons c rest ih => simp [ih]

theorem decodeLossy_encode (cs : List Char) : decodeLossy (encode cs) = cs := by
  rw [decodeLossy, scan_encode, List.map_map]
  exact List.map_id cs

/-- Only the byte order mark itself is written with its octets. -/
theorem mark_prefix_encode {c : Char} {rest : List Char}
    (h : [0xEF, 0xBB, 0xBF] <+: encode (c :: rest)) : c = Char.ofNat 0xFEFF := by
  obtain ⟨tail, ht⟩ := h
  have hscan : scan none (encode (c :: rest)) = some (Char.ofNat 0xFEFF) :: scan none tail := by
    rw [← ht]
    rfl
  rw [scan_encode, List.map_cons] at hscan
  exact Option.some.inj (List.cons.inj hscan).1

/-! ## Back from what was read -/

/-- A sequence under way goes on with an octet in its range. -/
theorem exists_tail_of_scan {p : Pending} {bytes : Bytes} {cs : List Char}
    (hlow : 0x80 ≤ p.low.toNat) (hhigh : p.high.toNat ≤ 0xBF)
    (h : scan (some p) bytes = cs.map some) :
    ∃ n rest, bytes = UInt8.ofNat (n + 0x80) :: rest ∧ n < 64 ∧ p.low.toNat ≤ n + 0x80 ∧
      n + 0x80 ≤ p.high.toNat := by
  have hsome : none ∉ scan (some p) bytes := by simp [h]
  cases bytes with
  | nil => simp [scan] at hsome
  | cons b rest =>
    by_cases hb : p.low ≤ b ∧ b ≤ p.high
    · rw [UInt8.le_iff_toNat_le, UInt8.le_iff_toNat_le] at hb
      have hoctet : UInt8.ofNat (b.toNat - 0x80 + 0x80) = b := by
        rw [Nat.sub_add_cancel (by omega), UInt8.ofNat_toNat]
      exact ⟨b.toNat - 0x80, rest, by rw [hoctet], by omega, by omega, by omega⟩
    · simp [scan, if_neg hb] at hsome

/-- The character that a complete sequence stands for, and what is read behind it. -/
theorem of_scan_cons {c : Char} {rest : Bytes} {cs : List Char}
    (h : some c :: scan none rest = cs.map some) :
    ∃ more, cs = c :: more ∧ scan none rest = more.map some := by
  cases cs with
  | nil => cases h
  | cons d more =>
    obtain ⟨hc, hrest⟩ := List.cons.inj h
    exact ⟨more, by rw [Option.some.inj hc], hrest⟩

theorem val_ofNat {n : Nat} (h : n < 0xD800 ∨ 0xDFFF < n ∧ n < 0x110000) :
    (Char.ofNat n).val.toNat = n := by
  have hvalid : n.isValidChar := h
  rw [Char.ofNat, dif_pos hvalid]
  rfl

/-- What an octet begins, by its number. -/
theorem lead_cases (b : UInt8) :
    (∃ n < 0x80, b = UInt8.ofNat n) ∨ (∃ n, 2 ≤ n ∧ n < 0x20 ∧ b = UInt8.ofNat (n + 0xC0)) ∨
      (∃ n < 0x10, b = UInt8.ofNat (n + 0xE0)) ∨ (∃ n < 5, b = UInt8.ofNat (n + 0xF0)) ∨
      lead b = .bad := by
  have hback : ∀ k ≤ b.toNat, b = UInt8.ofNat (b.toNat - k + k) := fun k hk => by
    rw [Nat.sub_add_cancel hk, UInt8.ofNat_toNat]
  have hlt : b.toNat < 256 := b.toNat_lt
  by_cases h1 : b.toNat < 0x80
  · exact .inl ⟨b.toNat, h1, (UInt8.ofNat_toNat).symm⟩
  by_cases h2 : b.toNat < 0xC2
  · have e1 : ¬b < 0x80 := by rwa [UInt8.lt_iff_toNat_lt]
    have e2 : b < 0xC2 := by rwa [UInt8.lt_iff_toNat_lt]
    exact .inr (.inr (.inr (.inr (by rw [lead, if_neg e1, if_pos e2]))))
  by_cases h3 : b.toNat < 0xE0
  · exact .inr (.inl ⟨b.toNat - 0xC0, by omega, by omega, hback _ (by omega)⟩)
  by_cases h4 : b.toNat < 0xF0
  · exact .inr (.inr (.inl ⟨b.toNat - 0xE0, by omega, hback _ (by omega)⟩))
  by_cases h5 : b.toNat < 0xF5
  · exact .inr (.inr (.inr (.inl ⟨b.toNat - 0xF0, by omega, hback _ (by omega)⟩)))
  · have hnot : ∀ k : UInt8, k.toNat ≤ 0xF5 → ¬b < k := fun k hk => by
      rw [UInt8.lt_iff_toNat_lt]
      omega
    refine .inr (.inr (.inr (.inr ?_)))
    rw [lead, if_neg (hnot _ (by decide)), if_neg (hnot _ (by decide)),
      if_neg (hnot _ (by decide)), if_neg (hnot _ (by decide)), if_neg (hnot _ (by decide))]

theorem encodeChar_one {n : Nat} (h : n < 0x80) :
    String.utf8EncodeChar (Char.ofNat n) = [UInt8.ofNat n] := by
  rw [String.utf8EncodeChar, val_ofNat (by omega)]
  simp only [if_pos (show n ≤ 0x7F by omega)]

theorem encodeChar_two {n a : Nat} (hn2 : 2 ≤ n) (hn : n < 0x20) (ha : a < 64) :
    String.utf8EncodeChar (Char.ofNat (n * 64 + a)) =
      [UInt8.ofNat (n + 0xC0), UInt8.ofNat (a + 0x80)] := by
  rw [String.utf8EncodeChar, val_ofNat (by omega)]
  generalize hv : n * 64 + a = v
  have h1 : v / 64 % 0x20 = n := by omega
  have h2 : v % 0x40 = a := by omega
  simp only [if_neg (show ¬v ≤ 0x7F by omega), if_pos (show v ≤ 0x7FF by omega), h1, h2]

theorem encodeChar_three {n a d : Nat} (hn : n < 0x10) (ha : a < 64) (hmin : n = 0 → 0x20 ≤ a)
    (hmax : n = 0xD → a < 0x20) (hd : d < 64) :
    String.utf8EncodeChar (Char.ofNat ((n * 64 + a) * 64 + d)) =
      [UInt8.ofNat (n + 0xE0), UInt8.ofNat (a + 0x80), UInt8.ofNat (d + 0x80)] := by
  rw [String.utf8EncodeChar, val_ofNat (by omega)]
  generalize hv : (n * 64 + a) * 64 + d = v
  have h1 : v / 4096 % 0x10 = n := by omega
  have h2 : v / 64 % 0x40 = a := by omega
  have h3 : v % 0x40 = d := by omega
  simp only [if_neg (show ¬v ≤ 0x7F by omega), if_neg (show ¬v ≤ 0x7FF by omega),
    if_pos (show v ≤ 0xFFFF by omega), h1, h2, h3]

theorem encodeChar_four {n a d f : Nat} (hn : n < 5) (ha : a < 64) (hmin : n = 0 → 0x10 ≤ a)
    (hmax : n = 4 → a < 0x10) (hd : d < 64) (hf : f < 64) :
    String.utf8EncodeChar (Char.ofNat (((n * 64 + a) * 64 + d) * 64 + f)) =
      [UInt8.ofNat (n + 0xF0), UInt8.ofNat (a + 0x80), UInt8.ofNat (d + 0x80),
        UInt8.ofNat (f + 0x80)] := by
  rw [String.utf8EncodeChar, val_ofNat (by omega)]
  generalize hv : ((n * 64 + a) * 64 + d) * 64 + f = v
  have h1 : v / 262144 % 0x08 = n := by omega
  have h2 : v / 4096 % 0x40 = a := by omega
  have h3 : v / 64 % 0x40 = d := by omega
  have h4 : v % 0x40 = f := by omega
  simp only [if_neg (show ¬v ≤ 0x7F by omega), if_neg (show ¬v ≤ 0x7FF by omega),
    if_neg (show ¬v ≤ 0xFFFF by omega), h1, h2, h3, h4]

/-- Octets that are read as characters start with the octets of the first of them. -/
theorem exists_char_of_scan {b : UInt8} {bytes : Bytes} {cs : List Char}
    (h : scan none (b :: bytes) = cs.map some) :
    ∃ c more rest, cs = c :: more ∧ b :: bytes = String.utf8EncodeChar c ++ rest ∧
      scan none rest = more.map some := by
  rcases lead_cases b with ⟨n, hn, rfl⟩ | ⟨n, hn2, hn, rfl⟩ | ⟨n, hn, rfl⟩ | ⟨n, hn, rfl⟩ | hbad
  · rw [scan, lead_one hn] at h
    obtain ⟨more, hcs, hrest⟩ := of_scan_cons h
    exact ⟨_, more, bytes, hcs, by rw [encodeChar_one hn]; rfl, hrest⟩
  · rw [scan, lead_two hn2 hn] at h
    obtain ⟨a, rest, rfl, ha, -, -⟩ := exists_tail_of_scan (by simp) (by simp) h
    simp only at h
    rw [scan_tail ha (by simp) (by simp; omega), if_pos (by simp)] at h
    obtain ⟨more, hcs, hrest⟩ := of_scan_cons h
    exact ⟨_, more, rest, hcs, by rw [encodeChar_two hn2 hn ha]; rfl, hrest⟩
  · rw [scan, lead_three hn] at h
    have hlow : 0x80 ≤ (if n = 0 then (0xA0 : UInt8) else 0x80).toNat := by split <;> simp
    have hhigh : (if n = 0xD then (0x9F : UInt8) else 0xBF).toNat ≤ 0xBF := by split <;> simp
    obtain ⟨a, rest, rfl, ha, hamin, hamax⟩ := exists_tail_of_scan hlow hhigh h
    have hmin : n = 0 → 0x20 ≤ a := by
      rintro rfl
      simp at hamin
      omega
    have hmax : n = 0xD → a < 0x20 := by
      rintro rfl
      simp at hamax
      omega
    simp only at h
    rw [scan_tail ha hamin hamax, if_neg (by simp)] at h
    obtain ⟨d, rest, rfl, hd, -, -⟩ := exists_tail_of_scan (by simp) (by simp) h
    rw [scan_tail hd (by simp) (by simp; omega), if_pos (by simp)] at h
    obtain ⟨more, hcs, hrest⟩ := of_scan_cons h
    exact ⟨_, more, rest, hcs, by rw [encodeChar_three hn ha hmin hmax hd]; rfl, hrest⟩
  · rw [scan, lead_four hn] at h
    have hlow : 0x80 ≤ (if n = 0 then (0x90 : UInt8) else 0x80).toNat := by split <;> simp
    have hhigh : (if n = 4 then (0x8F : UInt8) else 0xBF).toNat ≤ 0xBF := by split <;> simp
    obtain ⟨a, rest, rfl, ha, hamin, hamax⟩ := exists_tail_of_scan hlow hhigh h
    have hmin : n = 0 → 0x10 ≤ a := by
      rintro rfl
      simp at hamin
      omega
    have hmax : n = 4 → a < 0x10 := by
      rintro rfl
      simp at hamax
      omega
    simp only at h
    rw [scan_tail ha hamin hamax, if_neg (by simp)] at h
    obtain ⟨d, rest, rfl, hd, -, -⟩ := exists_tail_of_scan (by simp) (by simp) h
    rw [scan_tail hd (by simp) (by simp; omega), if_neg (by simp)] at h
    obtain ⟨f, rest, rfl, hf, -, -⟩ := exists_tail_of_scan (by simp) (by simp) h
    rw [scan_tail hf (by simp) (by simp; omega), if_pos (by simp)] at h
    obtain ⟨more, hcs, hrest⟩ := of_scan_cons h
    exact ⟨_, more, rest, hcs, by rw [encodeChar_four hn ha hmin hmax hd hf]; rfl, hrest⟩
  · rw [scan, hbad] at h
    cases cs <;> cases h

theorem encode_of_scan {bytes : Bytes} {cs : List Char} (h : scan none bytes = cs.map some) :
    encode cs = bytes := by
  induction cs generalizing bytes with
  | nil =>
    cases bytes with
    | nil => rfl
    | cons b bytes =>
      obtain ⟨c, more, rest, hcs, -, -⟩ := exists_char_of_scan h
      cases hcs
  | cons c cs ih =>
    cases bytes with
    | nil => cases h
    | cons b bytes =>
      obtain ⟨d, more, rest, hcs, hbytes, hrest⟩ := exists_char_of_scan h
      obtain ⟨rfl, rfl⟩ := List.cons.inj hcs
      have step : encode (c :: cs) = String.utf8EncodeChar c ++ encode cs := rfl
      rw [step, ih hrest, hbytes]

/-- Octets are read as a text exactly if they are the octets of the text. -/
theorem decode?_eq_some_iff {bytes : Bytes} {cs : List Char} :
    decode? bytes = some cs ↔ encode cs = bytes := by
  constructor
  · intro h
    have hscan : ∀ {found : List (Option Char)} {cs : List Char},
        found.mapM id = some cs → found = cs.map some := by
      intro found
      induction found with
      | nil =>
        intro cs h
        obtain rfl : [] = cs := by simpa using h
        rfl
      | cons c? found ih =>
        intro cs h
        cases c? with
        | none => simp at h
        | some c =>
          cases hfound : found.mapM id with
          | none => simp [hfound] at h
          | some more =>
            obtain rfl : c :: more = cs := by simpa [hfound] using h
            rw [ih hfound, List.map_cons]
    exact encode_of_scan (hscan h)
  · rintro rfl
    exact decode?_encode cs

/-- An ASCII octet of a character is the character itself. -/
theorem toNat_of_mem_encodeChar {c : Char} {b : UInt8} (hb : b.toNat < 0x80)
    (h : b ∈ String.utf8EncodeChar c) : c.toNat = b.toNat := by
  have hoctet : ∀ {k : Nat}, k < 256 → b = UInt8.ofNat k → b.toNat = k := fun hk heq =>
    (congrArg UInt8.toNat heq).trans (toNat_octet hk)
  -- the octets of a longer form are all above
  have hlong : ∀ {k : Nat}, k < 256 → 0x80 ≤ k → b ≠ UInt8.ofNat k := fun hk hle heq => by
    rw [hoctet hk heq] at hb
    omega
  rw [Char.toNat]
  generalize hv : c.val.toNat = v
  simp only [String.utf8EncodeChar, hv] at h
  split at h
  · exact (hoctet (by omega) (List.mem_singleton.mp h)).symm
  split at h
  · simp only [List.mem_cons, List.not_mem_nil, or_false] at h
    rcases h with h | h <;> exact absurd h (hlong (by omega) (by omega))
  split at h
  · simp only [List.mem_cons, List.not_mem_nil, or_false] at h
    rcases h with h | h | h <;> exact absurd h (hlong (by omega) (by omega))
  · simp only [List.mem_cons, List.not_mem_nil, or_false] at h
    rcases h with h | h | h | h <;> exact absurd h (hlong (by omega) (by omega))

theorem not_mem_encodeChar {c d : Char} (hd : d.toNat < 0x80) (h : c ≠ d) :
    UInt8.ofNat d.toNat ∉ String.utf8EncodeChar c := by
  have hoctet : (UInt8.ofNat d.toNat).toNat = d.toNat := toNat_octet (by omega)
  intro hmem
  have hc := toNat_of_mem_encodeChar (by rwa [hoctet]) hmem
  rw [hoctet] at hc
  exact h (Char.toNat_inj.mp hc)

/-- The octet of an ASCII character that does not occur is not written. -/
theorem not_mem_encode {d : Char} (hd : d.toNat < 0x80) {cs : List Char} (h : d ∉ cs) :
    UInt8.ofNat d.toNat ∉ encode cs := by
  intro hmem
  obtain ⟨c, hc, hoctet⟩ := List.mem_flatMap.mp hmem
  have hne : c ≠ d := fun heq => h (heq ▸ hc)
  exact not_mem_encodeChar hd hne hoctet

/-- A line feed is the one octet of a line feed, and no octet of another character. -/
theorem count_encode (cs : List Char) : (encode cs).count 0x0A = cs.count '\n' := by
  have hchar : ∀ c : Char, (String.utf8EncodeChar c).count 0x0A = [c].count '\n' := by
    intro c
    by_cases hc : c = '\n'
    · subst hc
      decide
    · have hfeed : 0x0A ∉ String.utf8EncodeChar c := not_mem_encodeChar (d := '\n') (by decide) hc
      rw [List.count_eq_zero_of_not_mem hfeed,
        List.count_eq_zero_of_not_mem (by simpa using Ne.symm hc)]
  induction cs with
  | nil => rfl
  | cons c cs ih =>
    have step : encode (c :: cs) = String.utf8EncodeChar c ++ encode cs := rfl
    rw [step, List.count_append, ih, hchar, ← List.count_append, List.singleton_append]

end PlanArchive.Text.Utf8
