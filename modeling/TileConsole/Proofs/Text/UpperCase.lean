import TileConsole.Proofs.Text.Utf8
import TileConsole.Text.UpperCase

namespace TileConsole

-- A set of numbers as the bits of one number. Two sets are compared in one step.
def mask (points : List Nat) : Nat :=
  points.foldr (fun n set => 1 <<< n ||| set) 0

theorem testBit_mask {n : Nat} {points : List Nat} (h : n ∈ points) : (mask points).testBit n := by
  induction points with
  | nil => cases h
  | cons m rest ih =>
    rw [mask, List.foldr_cons, Nat.testBit_or, Bool.or_eq_true]
    rcases List.mem_cons.mp h with rfl | hrest
    · left
      simp [Nat.testBit_shiftLeft]
    · exact .inr (ih hrest)

theorem notMem_of_mask {points others : List Nat} (h : mask points &&& mask others = 0) {n : Nat}
    (hn : n ∈ points) : n ∉ others := by
  intro hother
  have hbit : (mask points &&& mask others).testBit n := by
    rw [Nat.testBit_and, testBit_mask hn, testBit_mask hother]
    rfl
  rw [h, Nat.zero_testBit] at hbit
  cases hbit

namespace UpperRun

-- The code points of a run, counted from a given one on.
def spaced (run : UpperRun) (first : Nat) : List Nat :=
  (List.range ((run.stop - run.start) / run.step + 1)).map (first + run.step * ·)

theorem start_le {run : UpperRun} {n : Nat} (h : run.contains n) : run.start ≤ n := by
  simp only [contains, Bool.and_eq_true, decide_eq_true_eq] at h
  exact h.1.1

theorem le_stop {run : UpperRun} {n : Nat} (h : run.contains n) : n ≤ run.stop := by
  simp only [contains, Bool.and_eq_true, decide_eq_true_eq] at h
  exact h.1.2

theorem mem_spaced {run : UpperRun} {n : Nat} (h : run.contains n) (first : Nat) :
    first + (n - run.start) ∈ run.spaced first := by
  have hlast : (n - run.start) / run.step ≤ (run.stop - run.start) / run.step :=
    Nat.div_le_div_right (Nat.sub_le_sub_right (le_stop h) run.start)
  simp only [contains, Bool.and_eq_true, beq_iff_eq] at h
  have hsteps : run.step * ((n - run.start) / run.step) = n - run.start :=
    Nat.mul_div_cancel' (Nat.dvd_of_mod_eq_zero h.2)
  exact List.mem_map.mpr ⟨_, List.mem_range.mpr (Nat.lt_succ_of_le hlast), by rw [hsteps]⟩

end UpperRun

-- The code points that have an upper case form.
def lowerPoints : List Nat :=
  (List.range 26).map (0x61 + ·) ++ upperRuns.flatMap fun run => run.spaced run.start

-- The upper case forms past ASCII.
def upperPoints : List Nat :=
  upperRuns.flatMap fun run => run.spaced run.target

-- The code points that a source line is divided at: white space, the comma and
-- the semicolon.
def delimiters : List Nat :=
  List.range' 0x09 5 ++ List.range' 0x2000 11 ++
    [0x20, 0x2C, 0x3B, 0x85, 0xA0, 0x1680, 0x2028, 0x2029, 0x202F, 0x205F, 0x3000]

theorem upperPoints_apart : mask upperPoints &&& mask (lowerPoints ++ delimiters) = 0 := by
  decide +kernel

theorem isValidChar_of_upperRuns : ∀ run ∈ upperRuns,
    run.target + (run.stop - run.start) < 0xD800 ∨
      0xDFFF < run.target ∧ run.target + (run.stop - run.start) < 0x110000 := by
  decide +kernel

theorem mem_delimiters {n : Nat} (h : isBlankPoint n) : n ∈ delimiters := by
  simp only [isBlankPoint, Bool.or_eq_true, Bool.and_eq_true, decide_eq_true_eq, beq_iff_eq] at h
  simp only [delimiters, List.mem_append, List.mem_range'_1, List.mem_cons, List.not_mem_nil,
    or_false]
  omega

-- A code point that upper case leaves alone and that divides nothing.
structure IsUpper (n : Nat) : Prop where
  upper : upperPoint n = n
  valid : n.isValidChar
  delimits : n ∉ delimiters

theorem upperPoint_of_notMem {n : Nat} (h : n ∉ lowerPoints) : upperPoint n = n := by
  obtain ⟨hletter, hruns⟩ := not_or.mp (mt List.mem_append.mpr h)
  rw [upperPoint]
  by_cases hascii : n < 0x80
  · have hother : ¬(0x61 ≤ n ∧ n ≤ 0x7A) := by
      rintro ⟨hlow, hhigh⟩
      exact hletter (List.mem_map.mpr ⟨n - 0x61, List.mem_range.mpr (by omega), by omega⟩)
    rw [if_pos hascii, if_neg hother]
  · have hnone : upperRuns.find? (·.contains n) = none := by
      rw [List.find?_eq_none]
      intro run hrun hcontains
      have hmem := UpperRun.mem_spaced hcontains run.start
      rw [Nat.add_sub_of_le (UpperRun.start_le hcontains)] at hmem
      exact hruns (List.mem_flatMap.mpr ⟨run, hrun, hmem⟩)
    rw [if_neg hascii, hnone]

theorem isUpper_of_letter {n : Nat} (hlow : 0x41 ≤ n) (hhigh : n ≤ 0x5A) : IsUpper n where
  upper := by rw [upperPoint, if_pos (by omega), if_neg (by omega)]
  valid := .inl (by omega)
  delimits := by
    simp only [delimiters, List.mem_append, List.mem_range'_1, List.mem_cons, List.not_mem_nil,
      or_false]
    omega

theorem isUpper_of_contains {run : UpperRun} (hrun : run ∈ upperRuns) {n : Nat}
    (h : run.contains n) : IsUpper (run.target + (n - run.start)) := by
  have hmem : run.target + (n - run.start) ∈ upperPoints :=
    List.mem_flatMap.mpr ⟨run, hrun, UpperRun.mem_spaced h run.target⟩
  obtain ⟨hlower, hdelimits⟩ :=
    not_or.mp (mt List.mem_append.mpr (notMem_of_mask upperPoints_apart hmem))
  refine ⟨upperPoint_of_notMem hlower, ?_, hdelimits⟩
  have hrange := isValidChar_of_upperRuns run hrun
  have hstop := UpperRun.le_stop h
  unfold Nat.isValidChar
  omega

-- A code point has no upper case form, or it is one.
theorem upperPoint_cases (n : Nat) : upperPoint n = n ∨ IsUpper (upperPoint n) := by
  rw [upperPoint]
  by_cases hascii : n < 0x80
  · rw [if_pos hascii]
    by_cases hletter : 0x61 ≤ n ∧ n ≤ 0x7A
    · rw [if_pos hletter]
      exact .inr (isUpper_of_letter (by omega) (by omega))
    · rw [if_neg hletter]
      exact .inl rfl
  · rw [if_neg hascii]
    cases hfound : upperRuns.find? (·.contains n) with
    | none => exact .inl rfl
    | some run =>
      have hcontains : run.contains n := by simpa using List.find?_some hfound
      exact .inr (isUpper_of_contains (List.mem_of_find?_eq_some hfound) hcontains)

theorem isUpper_replacementChar : IsUpper replacementChar.toNat :=
  ⟨by decide +kernel, by decide, by decide +kernel⟩

namespace Symbol

-- A symbol in upper case is the same or a character that has no other upper case.
theorem upper_cases (s : Symbol) : s.upper = s ∨ ∃ c, s.upper = .char c ∧ IsUpper c.toNat := by
  cases s with
  | stray b => exact .inr ⟨replacementChar, rfl, isUpper_replacementChar⟩
  | char c =>
    rcases upperPoint_cases c.toNat with hsame | hupper
    · left
      rw [upper, hsame, Char.ofNat_toNat]
    · refine .inr ⟨_, rfl, ?_⟩
      rwa [toNat_ofNat_of_isValidChar hupper.valid]

theorem upper_upper (s : Symbol) : s.upper.upper = s.upper := by
  rcases s.upper_cases with hsame | ⟨c, hc, hupper⟩
  · rw [hsame, hsame]
  · rw [hc, upper, hupper.upper, Char.ofNat_toNat]

theorem exists_char_upper (s : Symbol) : ∃ c, s.upper = .char c := by
  cases s with
  | stray b => exact ⟨replacementChar, rfl⟩
  | char c => exact ⟨_, rfl⟩

end Symbol

namespace Text

theorem upper_upper (text : Text) : text.upper.upper = text.upper := by
  rw [upper, upper, List.map_map]
  exact List.map_congr_left fun s _ => s.upper_upper

-- Upper case has no stray bytes, so it survives being written as bytes.
theorem isDecoded_upper (text : Text) : text.upper.IsDecoded := by
  apply isDecoded_of_chars
  intro s hs
  obtain ⟨t, -, rfl⟩ := List.mem_map.mp hs
  exact t.exists_char_upper

end Text

end TileConsole
