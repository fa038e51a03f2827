import TileConsole.Numeral

namespace TileConsole.Numeral

-- A run of ASCII digits that is not empty.
def IsDigits (digits : List Char) : Prop :=
  digits ≠ [] ∧ ∀ c ∈ digits, c.isDigit

-- The texts that spell a number: decimal digits after an optional sign. Zeros
-- in front are allowed.
inductive Spells : Text → Int → Prop
  | bare (digits : List Char) (h : IsDigits digits) :
    Spells (digits.map .char) (Nat.ofDigitChars 10 digits 0 : Nat)
  | plus (digits : List Char) (h : IsDigits digits) :
    Spells (.char '+' :: digits.map .char) (Nat.ofDigitChars 10 digits 0 : Nat)
  | minus (digits : List Char) (h : IsDigits digits) :
    Spells (.char '-' :: digits.map .char) (-(Nat.ofDigitChars 10 digits 0 : Nat))

-- A word that spells one of the 64-bit integers.
def Literal (word : Text) (n : Int) : Prop :=
  Spells word n ∧ fitsInt64 n

theorem digit?_eq_some_iff (s : Symbol) (c : Char) :
    digit? s = some c ↔ s = .char c ∧ c.isDigit := by
  cases s with
  | char d =>
    by_cases hd : d.isDigit
    · simp only [digit?, hd, ite_true, Option.some.injEq, Symbol.char.injEq]
      exact ⟨fun h => ⟨h, h ▸ hd⟩, fun h => h.1⟩
    · simp only [digit?, hd, Bool.false_eq_true, ite_false, Symbol.char.injEq]
      constructor
      · intro h
        cases h
      · rintro ⟨rfl, h⟩
        exact absurd h hd
  | stray b => simp [digit?]

theorem mapM_digit?_eq_some_iff (text : Text) (digits : List Char) :
    text.mapM digit? = some digits ↔ text = digits.map .char ∧ ∀ c ∈ digits, c.isDigit := by
  induction text generalizing digits with
  | nil => cases digits <;> simp
  | cons s rest ih =>
    simp only [List.mapM_cons, Option.pure_def, Option.bind_eq_bind, Option.bind_eq_some_iff,
      Option.some.injEq, digit?_eq_some_iff, ih]
    constructor
    · rintro ⟨c, ⟨rfl, hc⟩, tail, ⟨rfl, htail⟩, rfl⟩
      exact ⟨rfl, List.forall_mem_cons.mpr ⟨hc, htail⟩⟩
    · rintro ⟨htext, hdigits⟩
      cases digits with
      | nil => simp at htext
      | cons c tail =>
        obtain ⟨rfl, rfl⟩ := List.cons.inj htext
        obtain ⟨hc, htail⟩ := List.forall_mem_cons.mp hdigits
        exact ⟨c, ⟨rfl, hc⟩, tail, ⟨rfl, htail⟩, rfl⟩

theorem digits?_eq_some_iff (text : Text) (digits : List Char) :
    digits? text = some digits ↔ text = digits.map .char ∧ IsDigits digits := by
  by_cases h : text = []
  · subst h
    simp only [digits?, ite_true, IsDigits]
    constructor
    · intro hnone
      cases hnone
    · rintro ⟨hnil, hne, -⟩
      exact absurd (List.map_eq_nil_iff.mp hnil.symm) hne
  · simp only [digits?, h, ite_false, mapM_digit?_eq_some_iff, IsDigits]
    constructor
    · rintro ⟨rfl, hall⟩
      exact ⟨rfl, fun hnil => h (by simp [hnil]), hall⟩
    · rintro ⟨htext, -, hall⟩
      exact ⟨htext, hall⟩

theorem signed?_eq_some_iff (sign : Int) (text : Text) (n : Int) :
    signed? sign text = some n ↔ (∃ digits, text = digits.map .char ∧ IsDigits digits ∧
      n = sign * (Nat.ofDigitChars 10 digits 0 : Nat)) ∧ fitsInt64 n := by
  constructor
  · intro h
    cases hd : digits? text with
    | none => simp [signed?, hd] at h
    | some digits =>
      obtain ⟨htext, hdigits⟩ := (digits?_eq_some_iff text digits).mp hd
      simp only [signed?, hd, Option.ite_none_right_eq_some, Option.some.injEq] at h
      obtain ⟨hfits, rfl⟩ := h
      exact ⟨⟨digits, htext, hdigits, rfl⟩, hfits⟩
  · rintro ⟨⟨digits, htext, hdigits, rfl⟩, hfits⟩
    simp [signed?, (digits?_eq_some_iff text digits).mpr ⟨htext, hdigits⟩, hfits]

-- A sign is no digit, so a text that starts with one is not read as bare digits.
theorem cons_ne_map_digits {c : Char} (hc : ¬c.isDigit) (rest : Text) {digits : List Char}
    (h : IsDigits digits) : .char c :: rest ≠ digits.map Symbol.char := by
  intro same
  cases digits with
  | nil => exact h.1 rfl
  | cons d tail =>
    obtain ⟨hd, -⟩ := List.cons.inj same
    exact hc (Symbol.char.inj hd ▸ h.2 d (by simp))

theorem parse?_eq_some_iff (text : Text) (n : Int) : parse? text = some n ↔ Literal text n := by
  unfold Literal
  constructor
  · intro h
    unfold parse? at h
    split at h
    all_goals
      obtain ⟨⟨digits, rfl, hdigits, rfl⟩, hfits⟩ := (signed?_eq_some_iff _ _ _).mp h
      refine ⟨?_, hfits⟩
    · rw [Int.neg_one_mul]
      exact .minus digits hdigits
    · rw [Int.one_mul]
      exact .plus digits hdigits
    · rw [Int.one_mul]
      exact .bare digits hdigits
  · rintro ⟨hspells, hfits⟩
    cases hspells with
    | bare digits hdigits =>
      rw [parse?]
      · exact (signed?_eq_some_iff 1 _ _).mpr ⟨⟨digits, rfl, hdigits, by simp⟩, hfits⟩
      · exact fun rest same => cons_ne_map_digits (by decide) rest hdigits same.symm
      · exact fun rest same => cons_ne_map_digits (by decide) rest hdigits same.symm
    | plus digits hdigits =>
      exact (signed?_eq_some_iff 1 _ _).mpr ⟨⟨digits, rfl, hdigits, by simp⟩, hfits⟩
    | minus digits hdigits =>
      exact (signed?_eq_some_iff (-1) _ _).mpr ⟨⟨digits, rfl, hdigits, by simp⟩, hfits⟩

theorem parse?_eq_none_iff (text : Text) : parse? text = none ↔ ¬∃ n, Literal text n := by
  simp only [Option.eq_none_iff_forall_ne_some, ne_eq, parse?_eq_some_iff, not_exists]

theorem fitsInt64_natCast {n : Nat} (h : n ≤ 0x7FFFFFFFFFFFFFFF) : fitsInt64 n := by
  simp only [fitsInt64, Bool.and_eq_true, decide_eq_true_eq]
  omega

theorem wrapInt64_natCast {n : Nat} (h : n ≤ 0x7FFFFFFFFFFFFFFF) : wrapInt64 n = n :=
  wrapInt64_eq_self (fitsInt64_natCast h)

theorem wrapInt64_natCast_cases {n : Nat} (h : n < 0x10000000000000000) :
    wrapInt64 n = n ∨ wrapInt64 n < 0 := by
  by_cases hsmall : n ≤ 0x7FFFFFFFFFFFFFFF
  · exact .inl (wrapInt64_natCast hsmall)
  · have hwrap : wrapInt64 n = n - (0x10000000000000000 : Nat) := by
      rw [wrapInt64, ← Int.sub_bmod_right, Int.bmod_eq_of_le (by omega) (by omega)]
    exact .inr (by omega)

theorem literal_decimal {n : Nat} (h : fitsInt64 n) : Literal (decimal n) n := by
  have hdigits : IsDigits (Nat.toDigits 10 n) :=
    ⟨Nat.toDigits_ne_nil, fun c hc => Nat.isDigit_of_mem_toDigits (by decide) (by decide) hc⟩
  have hspells := Spells.bare _ hdigits
  rw [Nat.ofDigitChars_toDigits (by decide) (by decide)] at hspells
  exact ⟨hspells, h⟩

theorem decimal_injective : Function.Injective decimal := by
  intro n m same
  have hdigits : Nat.toDigits 10 n = Nat.toDigits 10 m :=
    (List.map_inj_right fun _ _ => Symbol.char.inj).mp same
  rw [← @Nat.ofDigitChars_ten_toDigits n, hdigits, Nat.ofDigitChars_ten_toDigits]

end TileConsole.Numeral
