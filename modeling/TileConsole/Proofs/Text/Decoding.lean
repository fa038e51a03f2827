import TileConsole.Text.Basic

namespace TileConsole

theorem toNat_ofNat_of_isValidChar {n : Nat} (h : n.isValidChar) : (Char.ofNat n).toNat = n := by
  have hchar : Char.ofNat n = Char.ofNatAux n h := dif_pos h
  rw [hchar]
  rfl

namespace Symbol

-- What the first symbol of a byte string is does not depend on the bytes behind
-- the string, if the symbol is a character or those bytes begin anew.
theorem first_append {a : UInt8} {rest tail : List UInt8}
    (h : (∃ c, (first a rest).1 = char c) ∨ ∀ b ∈ tail.head?, ¬continues b) :
    first a (rest ++ tail) = ((first a rest).1, (first a rest).2 ++ tail) := by
  by_cases ha : a < 0x80
  · simp [first, ha]
  rcases tail with _ | ⟨t, tail⟩
  · simp
  rcases rest with _ | ⟨b, _ | ⟨c, _ | ⟨d, rest⟩⟩⟩
  · have ht : ¬continues t := by simpa [first, ha] using h
    have hpair : isPair a t = false := by simp [isPair, ht]
    rcases tail with _ | ⟨u, _ | ⟨v, tail⟩⟩
    · simp [first, ha, hpair]
    · simp [first, ha, hpair, isTriple, ht]
    · simp [first, ha, hpair, isTriple, isQuadruple, ht]
  · by_cases hpair : isPair a b
    · simp [first, ha, hpair]
    · have ht : ¬continues t := by simpa [first, ha, hpair] using h
      have htriple : isTriple a b t = false := by simp [isTriple, ht]
      rcases tail with _ | ⟨u, tail⟩
      · simp [first, ha, hpair, htriple]
      · simp [first, ha, hpair, htriple, isQuadruple, ht]
  · by_cases hpair : isPair a b
    · simp [first, ha, hpair]
    by_cases htriple : isTriple a b c
    · simp [first, ha, hpair, htriple]
    · have ht : ¬continues t := by simpa [first, ha, hpair, htriple] using h
      simp [first, ha, hpair, htriple, isQuadruple, ht]
  · simp only [first, List.cons_append]
    repeat' split
    all_goals rfl

section Sequences

variable {a b c d : UInt8}

theorem continues_iff : continues a ↔ 0x80 ≤ a.toNat ∧ a.toNat ≤ 0xBF := by
  simp only [continues, Bool.and_eq_true, decide_eq_true_eq, UInt8.le_iff_toNat_le,
    UInt8.reduceToNat]

theorem isPair_iff :
    isPair a b ↔
      (0xC2 ≤ a.toNat ∧ a.toNat ≤ 0xDF) ∧ 0x80 ≤ b.toNat ∧ b.toNat ≤ 0xBF := by
  simp only [isPair, Bool.and_eq_true, decide_eq_true_eq, continues_iff, UInt8.le_iff_toNat_le,
    UInt8.reduceToNat]

theorem isTriple_iff :
    isTriple a b c ↔
      (0xE0 ≤ a.toNat ∧ a.toNat ≤ 0xEF) ∧ (0x80 ≤ b.toNat ∧ b.toNat ≤ 0xBF) ∧
        (0x80 ≤ c.toNat ∧ c.toNat ≤ 0xBF) ∧ (a.toNat = 0xE0 → 0xA0 ≤ b.toNat) ∧
        (a.toNat = 0xED → b.toNat ≤ 0x9F) := by
  simp only [isTriple, Bool.and_eq_true, Bool.or_eq_true, bne_iff_ne, decide_eq_true_eq,
    continues_iff, UInt8.le_iff_toNat_le, ne_eq, ← UInt8.toNat_inj, UInt8.reduceToNat]
  omega

theorem isQuadruple_iff :
    isQuadruple a b c d ↔
      (0xF0 ≤ a.toNat ∧ a.toNat ≤ 0xF4) ∧ (0x80 ≤ b.toNat ∧ b.toNat ≤ 0xBF) ∧
        (0x80 ≤ c.toNat ∧ c.toNat ≤ 0xBF) ∧ (0x80 ≤ d.toNat ∧ d.toNat ≤ 0xBF) ∧
        (a.toNat = 0xF0 → 0x90 ≤ b.toNat) ∧ (a.toNat = 0xF4 → b.toNat ≤ 0x8F) := by
  simp only [isQuadruple, Bool.and_eq_true, Bool.or_eq_true, bne_iff_ne, decide_eq_true_eq,
    continues_iff, UInt8.le_iff_toNat_le, ne_eq, ← UInt8.toNat_inj, UInt8.reduceToNat]
  omega

theorem le_lead (h : 0xC0 ≤ a.toNat) : 0xC0 ≤ a :=
  UInt8.le_iff_toNat_le.mpr h

theorem of_isPair (h : isPair a b) :
    0xC0 ≤ a ∧ (∀ x ∈ [b], continues x) ∧ 0x80 ≤ a.toNat % 32 * 64 + payload b := by
  rw [isPair_iff] at h
  refine ⟨le_lead (by omega), ?_, by unfold payload; omega⟩
  simpa [continues_iff] using h.2

theorem of_isTriple (h : isTriple a b c) :
    0xC0 ≤ a ∧ (∀ x ∈ [b, c], continues x) ∧
      0x80 ≤ (a.toNat % 16 * 64 + payload b) * 64 + payload c := by
  rw [isTriple_iff] at h
  refine ⟨le_lead (by omega), ?_, by unfold payload; omega⟩
  simpa [continues_iff] using ⟨h.2.1, h.2.2.1⟩

theorem of_isQuadruple (h : isQuadruple a b c d) :
    0xC0 ≤ a ∧ (∀ x ∈ [b, c, d], continues x) ∧
      0x80 ≤ ((a.toNat % 8 * 64 + payload b) * 64 + payload c) * 64 + payload d := by
  rw [isQuadruple_iff] at h
  refine ⟨le_lead (by omega), ?_, by unfold payload; omega⟩
  simpa [continues_iff] using ⟨h.2.1, h.2.2.1, h.2.2.2.1⟩

end Sequences

-- One byte is a symbol, or a lead byte and the bytes that continue it are a
-- character past ASCII.
theorem first_cases (a : UInt8) (rest : List UInt8) :
    (a < 0x80 ∧ first a rest = (char (Char.ofNat a.toNat), rest)) ∨
    (¬a < 0x80 ∧ first a rest = (stray a, rest)) ∨
    ∃ n taken tail, 0xC0 ≤ a ∧ 0x80 ≤ n ∧ rest = taken ++ tail ∧ (∀ b ∈ taken, continues b) ∧
      first a rest = (char (Char.ofNat n), tail) := by
  by_cases ha : a < 0x80
  · exact .inl ⟨ha, by simp [first, ha]⟩
  right
  rcases rest with _ | ⟨b, rest⟩
  · exact .inl ⟨ha, by simp [first, ha]⟩
  by_cases hpair : isPair a b
  · obtain ⟨hlead, hbytes, hn⟩ := of_isPair hpair
    exact .inr ⟨_, [b], rest, hlead, hn, rfl, hbytes, by simp [first, ha, hpair]⟩
  rcases rest with _ | ⟨c, rest⟩
  · exact .inl ⟨ha, by simp [first, ha, hpair]⟩
  by_cases htriple : isTriple a b c
  · obtain ⟨hlead, hbytes, hn⟩ := of_isTriple htriple
    exact .inr ⟨_, [b, c], rest, hlead, hn, rfl, hbytes, by simp [first, ha, hpair, htriple]⟩
  rcases rest with _ | ⟨d, rest⟩
  · exact .inl ⟨ha, by simp [first, ha, hpair, htriple]⟩
  by_cases hquadruple : isQuadruple a b c d
  · obtain ⟨hlead, hbytes, hn⟩ := of_isQuadruple hquadruple
    exact .inr ⟨_, [b, c, d], rest, hlead, hn, rfl, hbytes,
      by simp [first, ha, hpair, htriple, hquadruple]⟩
  · exact .inl ⟨ha, by simp [first, ha, hpair, htriple, hquadruple]⟩

theorem not_continues_of_first {a : UInt8} {rest : List UInt8} {c : Char}
    (h : (first a rest).1 = char c) : ¬continues a := by
  rw [continues, Bool.and_eq_true, decide_eq_true_eq, decide_eq_true_eq]
  rintro ⟨hlow, hhigh⟩
  rcases first_cases a rest with ⟨ha, -⟩ | ⟨-, hstray⟩ | ⟨_, _, _, hlead, -⟩
  · exact absurd ha (UInt8.not_lt.mpr hlow)
  · simp [hstray] at h
  · exact absurd (UInt8.le_trans hlead hhigh) (by decide)

theorem exists_taken (a : UInt8) (rest : List UInt8) :
    ∃ taken, rest = taken ++ (first a rest).2 ∧ ∀ b ∈ taken, continues b := by
  rcases first_cases a rest with ⟨-, heq⟩ | ⟨-, heq⟩ | ⟨_, taken, tail, -, -, hrest, htaken, heq⟩
  · exact ⟨[], by simp [heq], by simp⟩
  · exact ⟨[], by simp [heq], by simp⟩
  · exact ⟨taken, by rw [heq, hrest], htaken⟩

theorem eq_of_ofNat_eq_newline {n : Nat} (h : char (Char.ofNat n) = Text.newline) : n = 0x0A := by
  have hpoint : (Char.ofNat n).toNat = 0x0A := congrArg Char.toNat (char.inj h)
  by_cases hvalid : n.isValidChar
  · rwa [toNat_ofNat_of_isValidChar hvalid] at hpoint
  · have hchar : Char.ofNat n = '\x00' := dif_neg hvalid
    rw [hchar] at hpoint
    exact absurd hpoint (by decide)

theorem first_eq_newline_iff (a : UInt8) (rest : List UInt8) :
    (first a rest).1 = Text.newline ↔ a = 0x0A := by
  constructor
  · intro h
    rcases first_cases a rest with ⟨-, heq⟩ | ⟨-, heq⟩ | ⟨n, _, _, -, hn, -, -, heq⟩
    · rw [heq] at h
      exact UInt8.toNat_inj.mp (eq_of_ofNat_eq_newline h)
    · rw [heq] at h
      cases h
    · rw [heq] at h
      have hsmall := eq_of_ofNat_eq_newline h
      omega
  · rintro rfl
    rfl

end Symbol

namespace Text

theorem pushBytes_append (others found : Array Symbol) (bytes : List UInt8) :
    pushBytes (others ++ found) bytes = others ++ pushBytes found bytes := by
  induction found, bytes using pushBytes.induct with
  | case1 found => rw [pushBytes, pushBytes]
  | case2 found a rest ih => rw [pushBytes, pushBytes, ← ih, Array.push_append]

@[simp]
theorem ofBytes_nil : ofBytes [] = [] := by
  simp [ofBytes, pushBytes]

theorem ofBytes_cons (a : UInt8) (rest : List UInt8) :
    ofBytes (a :: rest) = (Symbol.first a rest).1 :: ofBytes (Symbol.first a rest).2 := by
  have hpushed := pushBytes_append #[(Symbol.first a rest).1] #[] (Symbol.first a rest).2
  rw [Array.append_empty] at hpushed
  rw [ofBytes, pushBytes, List.push_toArray, List.nil_append, hpushed, Array.toList_append]
  rfl

theorem ofBytes_ne_nil {bytes : List UInt8} (h : bytes ≠ []) : ofBytes bytes ≠ [] := by
  obtain ⟨a, rest, rfl⟩ := List.exists_cons_of_ne_nil h
  rw [ofBytes_cons]
  exact List.cons_ne_nil _ _

-- Bytes are decoded symbol by symbol.
theorem ofBytes_induction {motive : List UInt8 → Prop} (nil : motive [])
    (cons : ∀ a rest, motive (Symbol.first a rest).2 → motive (a :: rest)) (bytes : List UInt8) :
    motive bytes := by
  induction #[], bytes using pushBytes.induct with
  | case1 found => exact nil
  | case2 found a rest ih => exact cons a rest ih

section Append

variable {front back : List UInt8}

theorem ofBytes_append
    (h : (∀ s ∈ ofBytes front, ∃ c, s = .char c) ∨
      ∀ s ∈ (ofBytes back).head?, ∃ c, s = .char c) :
    ofBytes (front ++ back) = ofBytes front ++ ofBytes back := by
  induction front using ofBytes_induction with
  | nil => simp
  | cons a rest ih =>
    have hfirst : (∃ c, (Symbol.first a rest).1 = .char c) ∨
        ∀ b ∈ back.head?, ¬Symbol.continues b := by
      refine h.imp (fun hfront => hfront _ (by simp [ofBytes_cons])) fun hback => ?_
      cases back with
      | nil => simp
      | cons b tail =>
        obtain ⟨c, hc⟩ := hback _ (by rw [ofBytes_cons]; rfl)
        simpa using Symbol.not_continues_of_first hc
    have hrest := ih (h.imp_left fun hfront s hs => hfront s (by simp [ofBytes_cons, hs]))
    rw [List.cons_append, ofBytes_cons, Symbol.first_append hfirst, ofBytes_cons, hrest,
      List.cons_append]

theorem ofBytes_append_newline (front back : List UInt8) :
    ofBytes (front ++ 0x0A :: back) = ofBytes front ++ newline :: ofBytes back := by
  have hnewline : ofBytes (0x0A :: back) = newline :: ofBytes back := ofBytes_cons 0x0A back
  rw [ofBytes_append (.inr (by simp [hnewline, newline])), hnewline]

end Append

theorem count_newline_ofBytes (bytes : List UInt8) :
    (ofBytes bytes).count newline = bytes.count 0x0A := by
  induction bytes using ofBytes_induction with
  | nil => simp
  | cons a rest ih =>
    obtain ⟨taken, hrest, htaken⟩ := Symbol.exists_taken a rest
    have hnone : taken.count 0x0A = 0 := by
      rw [List.count_eq_zero]
      exact fun hmem => absurd (htaken _ hmem) (by decide)
    have hcount : rest.count 0x0A = (Symbol.first a rest).2.count 0x0A :=
      calc rest.count 0x0A
        _ = (taken ++ (Symbol.first a rest).2).count 0x0A := congrArg _ hrest
        _ = (Symbol.first a rest).2.count 0x0A := by rw [List.count_append, hnone, Nat.zero_add]
    rw [ofBytes_cons, List.count_cons, List.count_cons, ih, hcount]
    simp only [beq_iff_eq, Symbol.first_eq_newline_iff]

end Text

end TileConsole
