import TileConsole.Proofs.Text
import TileConsole.Source.Line

namespace TileConsole.Line

-- The words that a line is divided into.
structure IsWord (word : Text) : Prop where
  ne_nil : word ≠ []
  separates : ∀ s ∈ word, ¬separates s
  comment : ∀ s ∈ word, s ≠ commentMark

-- The plain way to write operands.
def spelledOperands (operands : List Text) : Text :=
  (", " : Text).intercalate operands

-- The plain way to write an instruction.
def spelled (mnemonic : Text) (operands : List Text) : Text :=
  if operands = [] then mnemonic else mnemonic ++ " " ++ spelledOperands operands

theorem comma_eq : (", " : Text) = [.char ',', .char ' '] := rfl

theorem space_eq : (" " : Text) = [.char ' '] := rfl

theorem spelledOperands_cons_cons (word next : Text) (rest : List Text) :
    spelledOperands (word :: next :: rest) =
      word ++ .char ',' :: .char ' ' :: spelledOperands (next :: rest) := by
  simp [spelledOperands, List.intercalate_cons_cons, comma_eq]

theorem spelled_of_ne_nil {operands : List Text} (h : operands ≠ []) (mnemonic : Text) :
    spelled mnemonic operands = mnemonic ++ .char ' ' :: spelledOperands operands := by
  simp [spelled, h, space_eq]

section Symbols

variable {p : Symbol → Prop}

theorem forall_mem_spelledOperands {operands : List Text} (hspace : p (.char ' '))
    (hcomma : p (.char ',')) (h : ∀ word ∈ operands, ∀ s ∈ word, p s) :
    ∀ s ∈ spelledOperands operands, p s := by
  induction operands with
  | nil => simp [spelledOperands]
  | cons word rest ih =>
    obtain ⟨hword, hrest⟩ := List.forall_mem_cons.mp h
    cases rest with
    | nil => simpa [spelledOperands] using hword
    | cons next rest =>
      rw [spelledOperands_cons_cons, List.forall_mem_append]
      exact ⟨hword, List.forall_mem_cons.mpr ⟨hcomma, List.forall_mem_cons.mpr ⟨hspace, ih hrest⟩⟩⟩

theorem forall_mem_spelled {mnemonic : Text} {operands : List Text} (hspace : p (.char ' '))
    (hcomma : p (.char ',')) (hmnemonic : ∀ s ∈ mnemonic, p s)
    (h : ∀ word ∈ operands, ∀ s ∈ word, p s) : ∀ s ∈ spelled mnemonic operands, p s := by
  by_cases hnone : operands = []
  · simpa [spelled, hnone] using hmnemonic
  · rw [spelled_of_ne_nil hnone, List.forall_mem_append]
    exact ⟨hmnemonic, List.forall_mem_cons.mpr ⟨hspace, forall_mem_spelledOperands hspace hcomma h⟩⟩

end Symbols

theorem words_spelledOperands {operands : List Text} (h : ∀ word ∈ operands, IsWord word) :
    Text.words separates (spelledOperands operands) = operands := by
  induction operands with
  | nil => rfl
  | cons word rest ih =>
    obtain ⟨hword, hrest⟩ := List.forall_mem_cons.mp h
    cases rest with
    | nil =>
      rw [spelledOperands, List.intercalate_singleton,
        Text.words_of_forall hword.ne_nil hword.separates]
    | cons next rest =>
      rw [spelledOperands_cons_cons, Text.words_append hword.ne_nil hword.separates rfl,
        Text.words_cons_of_separates rfl, ih hrest]

-- What is spelled out ends in a word.
theorem spelledOperands_eq_append {operands : List Text} (hne : operands ≠ []) :
    ∃ front word, spelledOperands operands = front ++ word ∧ word ∈ operands := by
  induction operands with
  | nil => exact absurd rfl hne
  | cons word rest ih =>
    cases rest with
    | nil => exact ⟨[], word, by simp [spelledOperands], by simp⟩
    | cons next rest =>
      obtain ⟨front, last, heq, hlast⟩ := ih (by simp)
      refine ⟨word ++ .char ',' :: .char ' ' :: front, last, ?_, List.mem_cons_of_mem _ hlast⟩
      rw [spelledOperands_cons_cons, heq]
      simp

section Reading

variable {mnemonic : Text} {operands : List Text}

theorem spelled_eq_append (hmnemonic : IsWord mnemonic) (h : ∀ word ∈ operands, IsWord word) :
    ∃ front word, spelled mnemonic operands = front ++ word ∧ IsWord word := by
  by_cases hnone : operands = []
  · exact ⟨[], mnemonic, by simp [spelled, hnone], hmnemonic⟩
  · obtain ⟨front, word, heq, hword⟩ := spelledOperands_eq_append hnone
    refine ⟨mnemonic ++ .char ' ' :: front, word, ?_, h word hword⟩
    rw [spelled_of_ne_nil hnone, heq]
    simp

theorem head?_spelled (hne : mnemonic ≠ []) (operands : List Text) :
    (spelled mnemonic operands).head? = mnemonic.head? := by
  by_cases hnone : operands = []
  · rw [spelled, if_pos hnone]
  · rw [spelled_of_ne_nil hnone, List.head?_append, List.head?_eq_some_head hne, Option.some_or]

theorem IsWord.not_isBlank {word : Text} (h : IsWord word) : ∀ s ∈ word, ¬s.isBlank := by
  intro s hs hblank
  exact h.separates s hs (by simp [Line.separates, hblank])

-- Nothing is cut off from a line that is spelled out.
theorem content_spelled (hmnemonic : IsWord mnemonic) (h : ∀ word ∈ operands, IsWord word) :
    content (spelled mnemonic operands) = spelled mnemonic operands := by
  have hcomment : ∀ s ∈ spelled mnemonic operands, s ≠ commentMark :=
    forall_mem_spelled (by decide) (by decide) hmnemonic.comment fun word hword =>
      (h word hword).comment
  have hwhole : (spelled mnemonic operands).takeWhile (· != commentMark) =
      spelled mnemonic operands := by
    rw [List.takeWhile_eq_self_iff]
    simpa using hcomment
  rw [content, hwhole]
  apply Text.trim_eq_self
  · rw [head?_spelled hmnemonic.ne_nil]
    exact fun s hs => hmnemonic.not_isBlank s (List.mem_of_mem_head? hs)
  · obtain ⟨front, word, heq, hword⟩ := spelled_eq_append hmnemonic h
    rw [heq, List.getLast?_append, List.getLast?_eq_some_getLast hword.ne_nil, Option.some_or]
    rintro s ⟨⟩
    exact hword.not_isBlank _ (List.getLast_mem hword.ne_nil)

theorem words_spelled (hmnemonic : IsWord mnemonic) (h : ∀ word ∈ operands, IsWord word) :
    Text.words separates (spelled mnemonic operands) = mnemonic :: operands := by
  by_cases hnone : operands = []
  · rw [spelled, if_pos hnone, hnone, Text.words_of_forall hmnemonic.ne_nil hmnemonic.separates]
  · rw [spelled_of_ne_nil hnone, Text.words_append hmnemonic.ne_nil hmnemonic.separates rfl,
      words_spelledOperands h]

-- A line that is spelled out is read as it was meant.
theorem read_spelled (hmnemonic : IsWord mnemonic) (hmark : mnemonic.head? ≠ some labelMark)
    (h : ∀ word ∈ operands, IsWord word) (number : Int) :
    read (spelled mnemonic operands) number =
      .line ⟨number, spelled mnemonic operands, .instruction mnemonic.upper operands⟩ := by
  have hwords := words_spelled hmnemonic h
  have hhead := head?_spelled hmnemonic.ne_nil operands
  rw [read, content_spelled hmnemonic h]
  cases hspelled : spelled mnemonic operands with
  | nil => simp [hspelled, Text.words] at hwords
  | cons s rest =>
    have hs : s ≠ labelMark := by
      rintro rfl
      rw [← hhead, hspelled] at hmark
      exact hmark rfl
    rw [hspelled] at hwords
    simp only [hs, ite_false, hwords]

end Reading

end TileConsole.Line
