import TileConsole.Proofs.Text
import TileConsole.Proofs.Text.Decoding

namespace TileConsole

theorem isValidChar_toNat (c : Char) : c.toNat.isValidChar :=
  c.valid

theorem toNat_ofNat_of_lt {n : Nat} (h : n < 256) : (UInt8.ofNat n).toNat = n := by
  rw [UInt8.toNat_ofNat']
  exact Nat.mod_eq_of_lt h

theorem ofNat_eq_of_toNat_eq {n : Nat} {a : UInt8} (h : n = a.toNat) : UInt8.ofNat n = a := by
  rw [h, UInt8.ofNat_toNat]

namespace Symbol

theorem bytes_char (c : Char) :
    (char c).bytes =
      if c.toNat ≤ 0x7F then [UInt8.ofNat c.toNat]
      else if c.toNat ≤ 0x7FF then
        [UInt8.ofNat (c.toNat / 64 % 32 + 0xC0), UInt8.ofNat (c.toNat % 64 + 0x80)]
      else if c.toNat ≤ 0xFFFF then
        [UInt8.ofNat (c.toNat / 4096 % 16 + 0xE0), UInt8.ofNat (c.toNat / 64 % 64 + 0x80),
          UInt8.ofNat (c.toNat % 64 + 0x80)]
      else
        [UInt8.ofNat (c.toNat / 262144 % 8 + 0xF0), UInt8.ofNat (c.toNat / 4096 % 64 + 0x80),
          UInt8.ofNat (c.toNat / 64 % 64 + 0x80), UInt8.ofNat (c.toNat % 64 + 0x80)] :=
  rfl

section Sequences

variable {a b c d : UInt8}

theorem not_lt_of_lead (h : 0xC0 ≤ a) : ¬a < 0x80 :=
  UInt8.not_lt.mpr (UInt8.le_trans (by decide) h)

theorem not_isPair_of_lead (h : 0xE0 ≤ a.toNat) : ¬isPair a b := by
  rw [isPair_iff]
  omega

theorem not_isTriple_of_lead (h : 0xF0 ≤ a.toNat) : ¬isTriple a b c := by
  rw [isTriple_iff]
  omega

theorem first_of_isPair (h : isPair a b) (rest : List UInt8) :
    first a (b :: rest) = (char (Char.ofNat (a.toNat % 32 * 64 + payload b)), rest) := by
  simp [first, not_lt_of_lead (of_isPair h).1, h]

theorem first_of_isTriple (h : isTriple a b c) (rest : List UInt8) :
    first a (b :: c :: rest) =
      (char (Char.ofNat ((a.toNat % 16 * 64 + payload b) * 64 + payload c)), rest) := by
  have hlead : 0xE0 ≤ a.toNat := (isTriple_iff.mp h).1.1
  simp [first, not_lt_of_lead (of_isTriple h).1, not_isPair_of_lead hlead, h]

theorem first_of_isQuadruple (h : isQuadruple a b c d) (rest : List UInt8) :
    first a (b :: c :: d :: rest) =
      (char (Char.ofNat (((a.toNat % 8 * 64 + payload b) * 64 + payload c) * 64 + payload d)),
        rest) := by
  have hlead : 0xF0 ≤ a.toNat := (isQuadruple_iff.mp h).1.1
  simp [first, not_lt_of_lead (of_isQuadruple h).1, not_isTriple_of_lead hlead,
    not_isPair_of_lead (Nat.le_trans (by decide) hlead), h]

theorem bytes_of_isPair (h : isPair a b) :
    (char (Char.ofNat (a.toNat % 32 * 64 + payload b))).bytes = [a, b] := by
  rw [isPair_iff] at h
  unfold payload
  have hpoint := @toNat_ofNat_of_isValidChar (a.toNat % 32 * 64 + b.toNat % 64) (.inl (by omega))
  rw [bytes_char, hpoint, if_neg (by omega), if_pos (by omega),
    @ofNat_eq_of_toNat_eq _ a (by omega), @ofNat_eq_of_toNat_eq _ b (by omega)]

theorem bytes_of_isTriple (h : isTriple a b c) :
    (char (Char.ofNat ((a.toNat % 16 * 64 + payload b) * 64 + payload c))).bytes = [a, b, c] := by
  rw [isTriple_iff] at h
  unfold payload
  have hpoint := @toNat_ofNat_of_isValidChar
    ((a.toNat % 16 * 64 + b.toNat % 64) * 64 + c.toNat % 64) (by unfold Nat.isValidChar; omega)
  rw [bytes_char, hpoint, if_neg (by omega), if_neg (by omega), if_pos (by omega),
    @ofNat_eq_of_toNat_eq _ a (by omega), @ofNat_eq_of_toNat_eq _ b (by omega),
    @ofNat_eq_of_toNat_eq _ c (by omega)]

theorem bytes_of_isQuadruple (h : isQuadruple a b c d) :
    (char (Char.ofNat
      (((a.toNat % 8 * 64 + payload b) * 64 + payload c) * 64 + payload d))).bytes =
        [a, b, c, d] := by
  rw [isQuadruple_iff] at h
  unfold payload
  have hpoint := @toNat_ofNat_of_isValidChar
    (((a.toNat % 8 * 64 + b.toNat % 64) * 64 + c.toNat % 64) * 64 + d.toNat % 64)
    (by unfold Nat.isValidChar; omega)
  rw [bytes_char, hpoint, if_neg (by omega), if_neg (by omega), if_neg (by omega),
    @ofNat_eq_of_toNat_eq _ a (by omega), @ofNat_eq_of_toNat_eq _ b (by omega),
    @ofNat_eq_of_toNat_eq _ c (by omega), @ofNat_eq_of_toNat_eq _ d (by omega)]

end Sequences

-- Decoding loses nothing.
theorem bytes_first (a : UInt8) (rest : List UInt8) :
    (first a rest).1.bytes ++ (first a rest).2 = a :: rest := by
  by_cases ha : a < 0x80
  · have hsmall : a.toNat < 0x80 := UInt8.lt_iff_toNat_lt.mp ha
    have hpoint := @toNat_ofNat_of_isValidChar a.toNat (.inl (by omega))
    simp only [first, if_pos ha]
    rw [bytes_char, hpoint, if_pos (by omega), UInt8.ofNat_toNat]
    rfl
  rcases rest with _ | ⟨b, rest⟩
  · simp [first, ha, bytes]
  by_cases hpair : isPair a b
  · rw [first_of_isPair hpair, bytes_of_isPair hpair]
    rfl
  rcases rest with _ | ⟨c, rest⟩
  · simp [first, ha, hpair, bytes]
  by_cases htriple : isTriple a b c
  · rw [first_of_isTriple htriple, bytes_of_isTriple htriple]
    rfl
  rcases rest with _ | ⟨d, rest⟩
  · simp [first, ha, hpair, htriple, bytes]
  by_cases hquadruple : isQuadruple a b c d
  · rw [first_of_isQuadruple hquadruple, bytes_of_isQuadruple hquadruple]
    rfl
  · simp [first, ha, hpair, htriple, hquadruple, bytes]

-- A byte that starts no character starts none either when bytes behind it are
-- taken away.
theorem first_of_append_stray {b : UInt8} {front back rest : List UInt8}
    (h : first b (front ++ back) = (stray b, rest)) : first b front = (stray b, front) := by
  have hnone : ¬∃ c, (first b front).1 = char c := by
    rintro ⟨c, hc⟩
    rw [first_append (.inl ⟨c, hc⟩), hc] at h
    cases h
  rcases first_cases b front with ⟨-, heq⟩ | ⟨-, heq⟩ | ⟨n, taken, tail, -, -, -, -, heq⟩
  · exact absurd ⟨_, congrArg Prod.fst heq⟩ hnone
  · exact heq
  · exact absurd ⟨_, congrArg Prod.fst heq⟩ hnone

section Characters

variable {c : Char}

theorem first_bytes_one (h : c.toNat ≤ 0x7F) (rest : List UInt8) :
    first (UInt8.ofNat c.toNat) rest = (char c, rest) := by
  have hpoint := @toNat_ofNat_of_lt c.toNat (by omega)
  have hbyte : UInt8.ofNat c.toNat < 0x80 := by
    rw [UInt8.lt_iff_toNat_lt, hpoint]
    exact Nat.lt_succ_of_le h
  unfold first
  rw [if_pos hbyte, hpoint, Char.ofNat_toNat]

theorem first_bytes_two (hlow : 0x7F < c.toNat) (hhigh : c.toNat ≤ 0x7FF) (rest : List UInt8) :
    first (UInt8.ofNat (c.toNat / 64 % 32 + 0xC0)) (UInt8.ofNat (c.toNat % 64 + 0x80) :: rest) =
      (char c, rest) := by
  have ha := @toNat_ofNat_of_lt (c.toNat / 64 % 32 + 0xC0) (by omega)
  have hb := @toNat_ofNat_of_lt (c.toNat % 64 + 0x80) (by omega)
  generalize UInt8.ofNat (c.toNat / 64 % 32 + 0xC0) = a at ha ⊢
  generalize UInt8.ofNat (c.toNat % 64 + 0x80) = b at hb ⊢
  have hpair : isPair a b := isPair_iff.mpr (by omega)
  have hpoint : a.toNat % 32 * 64 + payload b = c.toNat := by
    unfold payload
    omega
  rw [first_of_isPair hpair, hpoint, Char.ofNat_toNat]

theorem first_bytes_three (hlow : 0x7FF < c.toNat) (hhigh : c.toNat ≤ 0xFFFF)
    (rest : List UInt8) :
    first (UInt8.ofNat (c.toNat / 4096 % 16 + 0xE0))
        (UInt8.ofNat (c.toNat / 64 % 64 + 0x80) :: UInt8.ofNat (c.toNat % 64 + 0x80) :: rest) =
      (char c, rest) := by
  have hvalid : c.toNat < 0xD800 ∨ 0xDFFF < c.toNat ∧ c.toNat < 0x110000 := isValidChar_toNat c
  have ha := @toNat_ofNat_of_lt (c.toNat / 4096 % 16 + 0xE0) (by omega)
  have hb := @toNat_ofNat_of_lt (c.toNat / 64 % 64 + 0x80) (by omega)
  have hd := @toNat_ofNat_of_lt (c.toNat % 64 + 0x80) (by omega)
  generalize UInt8.ofNat (c.toNat / 4096 % 16 + 0xE0) = a at ha ⊢
  generalize UInt8.ofNat (c.toNat / 64 % 64 + 0x80) = b at hb ⊢
  generalize UInt8.ofNat (c.toNat % 64 + 0x80) = d at hd ⊢
  have htriple : isTriple a b d := isTriple_iff.mpr (by omega)
  have hpoint : (a.toNat % 16 * 64 + payload b) * 64 + payload d = c.toNat := by
    unfold payload
    omega
  rw [first_of_isTriple htriple, hpoint, Char.ofNat_toNat]

theorem first_bytes_four (hlow : 0xFFFF < c.toNat) (rest : List UInt8) :
    first (UInt8.ofNat (c.toNat / 262144 % 8 + 0xF0))
        (UInt8.ofNat (c.toNat / 4096 % 64 + 0x80) :: UInt8.ofNat (c.toNat / 64 % 64 + 0x80) ::
          UInt8.ofNat (c.toNat % 64 + 0x80) :: rest) = (char c, rest) := by
  have hvalid : c.toNat < 0xD800 ∨ 0xDFFF < c.toNat ∧ c.toNat < 0x110000 := isValidChar_toNat c
  have ha := @toNat_ofNat_of_lt (c.toNat / 262144 % 8 + 0xF0) (by omega)
  have hb := @toNat_ofNat_of_lt (c.toNat / 4096 % 64 + 0x80) (by omega)
  have hd := @toNat_ofNat_of_lt (c.toNat / 64 % 64 + 0x80) (by omega)
  have he := @toNat_ofNat_of_lt (c.toNat % 64 + 0x80) (by omega)
  generalize UInt8.ofNat (c.toNat / 262144 % 8 + 0xF0) = a at ha ⊢
  generalize UInt8.ofNat (c.toNat / 4096 % 64 + 0x80) = b at hb ⊢
  generalize UInt8.ofNat (c.toNat / 64 % 64 + 0x80) = d at hd ⊢
  generalize UInt8.ofNat (c.toNat % 64 + 0x80) = e at he ⊢
  have hquadruple : isQuadruple a b d e := isQuadruple_iff.mpr (by omega)
  have hpoint : ((a.toNat % 8 * 64 + payload b) * 64 + payload d) * 64 + payload e = c.toNat := by
    unfold payload
    omega
  rw [first_of_isQuadruple hquadruple, hpoint, Char.ofNat_toNat]

-- The bytes of a character are decoded to it, whatever follows.
theorem first_bytes (c : Char) (rest : List UInt8) :
    ∃ a tail, (char c).bytes = a :: tail ∧ first a (tail ++ rest) = (char c, rest) := by
  rw [bytes_char]
  by_cases hone : c.toNat ≤ 0x7F
  · rw [if_pos hone]
    exact ⟨_, _, rfl, first_bytes_one hone rest⟩
  by_cases htwo : c.toNat ≤ 0x7FF
  · rw [if_neg hone, if_pos htwo]
    exact ⟨_, _, rfl, first_bytes_two (Nat.lt_of_not_le hone) htwo rest⟩
  by_cases hthree : c.toNat ≤ 0xFFFF
  · rw [if_neg hone, if_neg htwo, if_pos hthree]
    exact ⟨_, _, rfl, first_bytes_three (Nat.lt_of_not_le htwo) hthree rest⟩
  · rw [if_neg hone, if_neg htwo, if_neg hthree]
    exact ⟨_, _, rfl, first_bytes_four (Nat.lt_of_not_le hthree) rest⟩

end Characters

end Symbol

namespace Text

-- A text that its bytes are decoded to. Stray bytes side by side may make up a
-- character, so not every text is one.
def IsDecoded (text : Text) : Prop :=
  ofBytes text.toBytes = text

theorem toBytes_cons (s : Symbol) (rest : Text) : toBytes (s :: rest) = s.bytes ++ toBytes rest :=
  List.flatMap_cons

theorem toBytes_append (front back : Text) :
    toBytes (front ++ back) = toBytes front ++ toBytes back :=
  List.flatMap_append

theorem toBytes_ofBytes (bytes : List UInt8) : toBytes (ofBytes bytes) = bytes := by
  induction bytes using ofBytes_induction with
  | nil => rw [ofBytes_nil]; rfl
  | cons a rest ih => rw [ofBytes_cons, toBytes_cons, ih, Symbol.bytes_first]

theorem isDecoded_ofBytes (bytes : List UInt8) : IsDecoded (ofBytes bytes) := by
  rw [IsDecoded, toBytes_ofBytes]

theorem isDecoded_cons {s : Symbol} {rest : Text} (hrest : IsDecoded rest)
    (hfirst : ∃ a tail, s.bytes = a :: tail ∧
      Symbol.first a (tail ++ toBytes rest) = (s, toBytes rest)) : IsDecoded (s :: rest) := by
  obtain ⟨a, tail, hbytes, hfirst⟩ := hfirst
  rw [IsDecoded, toBytes_cons, hbytes, List.cons_append, ofBytes_cons, hfirst, hrest]

theorem isDecoded_cons_char {c : Char} {rest : Text} (h : IsDecoded rest) :
    IsDecoded (.char c :: rest) :=
  isDecoded_cons h (Symbol.first_bytes c (toBytes rest))

theorem isDecoded_of_chars {text : Text} (h : ∀ s ∈ text, ∃ c, s = .char c) : IsDecoded text := by
  induction text with
  | nil => exact ofBytes_nil
  | cons s rest ih =>
    obtain ⟨⟨c, rfl⟩, hrest⟩ := List.forall_mem_cons.mp h
    exact isDecoded_cons_char (ih hrest)

theorem ofBytes_toBytes {text : Text} (h : ∀ s ∈ text, s.isAscii) :
    ofBytes text.toBytes = text := by
  apply isDecoded_of_chars
  intro s hs
  cases s with
  | char c => exact ⟨c, rfl⟩
  | stray b => cases h _ hs

namespace IsDecoded

-- A symbol that is decoded first leaves the bytes of the others.
theorem first_eq {s : Symbol} {rest : Text} (h : IsDecoded (s :: rest)) :
    ∃ a tail, s.bytes = a :: tail ∧ Symbol.first a (tail ++ toBytes rest) = (s, toBytes rest) := by
  cases s with
  | char c => exact Symbol.first_bytes c (toBytes rest)
  | stray b =>
    refine ⟨b, [], rfl, ?_⟩
    have hdecoded : ofBytes (b :: toBytes rest) = .stray b :: rest := h
    rw [ofBytes_cons] at hdecoded
    have hkept := Symbol.bytes_first b (toBytes rest)
    have hsymbol : (Symbol.first b (toBytes rest)).1 = .stray b := (List.cons.inj hdecoded).1
    rw [hsymbol] at hkept
    exact Prod.ext hsymbol (List.cons.inj hkept).2

theorem tail {s : Symbol} {rest : Text} (h : IsDecoded (s :: rest)) : IsDecoded rest := by
  obtain ⟨a, tail, hbytes, hfirst⟩ := h.first_eq
  rw [IsDecoded, toBytes_cons, hbytes, List.cons_append, ofBytes_cons, hfirst] at h
  exact (List.cons.inj h).2

theorem of_append_right {front back : Text} (h : IsDecoded (front ++ back)) : IsDecoded back := by
  induction front with
  | nil => exact h
  | cons s front ih => exact ih h.tail

theorem of_append_left {front back : Text} (h : IsDecoded (front ++ back)) : IsDecoded front := by
  induction front with
  | nil => exact ofBytes_nil
  | cons s front ih =>
    apply isDecoded_cons (ih h.tail)
    cases s with
    | char c => exact Symbol.first_bytes c (toBytes front)
    | stray b =>
      rw [List.cons_append] at h
      obtain ⟨a, tail, ⟨⟩, hfirst⟩ := h.first_eq
      rw [List.nil_append, toBytes_append] at hfirst
      exact ⟨b, [], rfl, Symbol.first_of_append_stray hfirst⟩

theorem of_isInfix {part text : Text} (h : IsDecoded text) (hpart : part <:+: text) :
    IsDecoded part := by
  obtain ⟨front, back, rfl⟩ := hpart
  exact h.of_append_left.of_append_right

-- Texts are decoded on their own when a character lies between them.
theorem append_char {front back : Text} {c : Char} (hfront : IsDecoded front)
    (hback : IsDecoded back) : IsDecoded (front ++ .char c :: back) := by
  have hchar : ofBytes (toBytes (.char c :: back)) = .char c :: back := isDecoded_cons_char hback
  have hsplit : ofBytes (toBytes front ++ toBytes (.char c :: back)) = _ :=
    ofBytes_append (.inr (by simp [hchar]))
  rw [IsDecoded, toBytes_append, hsplit, hfront, hchar]

end IsDecoded

end Text

end TileConsole
