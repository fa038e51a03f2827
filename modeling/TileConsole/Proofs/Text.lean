import Mathlib.Data.List.TakeWhile
import TileConsole.Text.Blank

namespace TileConsole

namespace Symbol

-- The characters that are one byte each.
def isAscii : Symbol → Bool
  | .char c => c.toNat < 0x80
  | .stray _ => false

end Symbol

namespace Text

section Lines

variable {line : Text}

theorem lines_append_newline (h : newline ∉ line) (rest : Text) :
    lines (line ++ newline :: rest) = line :: lines rest := by
  induction line with
  | nil => simp [lines, linesStep]
  | cons s line ih =>
    obtain ⟨hs, hline⟩ := not_or.mp (mt List.mem_cons.mpr h)
    have htail := ih hline
    rw [lines] at htail ⊢
    rw [List.cons_append, List.foldr_cons, htail, linesStep, if_neg (Ne.symm hs)]

theorem lines_of_not_mem (hne : line ≠ []) (h : newline ∉ line) : lines line = [line] := by
  induction line with
  | nil => exact absurd rfl hne
  | cons s line ih =>
    obtain ⟨hs, hline⟩ := not_or.mp (mt List.mem_cons.mpr h)
    cases line with
    | nil => simp [lines, linesStep, Ne.symm hs]
    | cons t line =>
      have htail := ih (by simp) hline
      rw [lines] at htail ⊢
      rw [List.foldr_cons, htail, linesStep, if_neg (Ne.symm hs)]

end Lines

-- Lines that are joined by line feeds are read one by one.
theorem lines_intercalate {texts : List Text} (hne : ∀ text ∈ texts, text ≠ [])
    (h : ∀ text ∈ texts, newline ∉ text) : lines ([newline].intercalate texts) = texts := by
  induction texts with
  | nil => rfl
  | cons text rest ih =>
    obtain ⟨htext, hrest⟩ := List.forall_mem_cons.mp h
    obtain ⟨hfirst, hothers⟩ := List.forall_mem_cons.mp hne
    cases rest with
    | nil => rw [List.intercalate_singleton, lines_of_not_mem hfirst htext]
    | cons next rest =>
      rw [List.intercalate_cons_cons, List.append_assoc, List.singleton_append,
        lines_append_newline htext, ih hothers hrest]

section Words

variable {separates : Symbol → Bool} {word : Text}

theorem foldr_wordsStep (hne : word ≠ []) (h : ∀ s ∈ word, ¬separates s) (found : List Text) :
    word.foldr (wordsStep separates) (false, found) = (true, word :: found) := by
  induction word with
  | nil => exact absurd rfl hne
  | cons s word ih =>
    obtain ⟨hs, hword⟩ := List.forall_mem_cons.mp h
    cases word with
    | nil => simp [wordsStep, hs]
    | cons t word =>
      rw [List.foldr_cons, ih (by simp) hword]
      simp [wordsStep, hs]

theorem words_cons_of_separates {s : Symbol} (h : separates s) (text : Text) :
    words separates (s :: text) = words separates text := by
  simp [words, wordsStep, h]

theorem words_of_forall (hne : word ≠ []) (h : ∀ s ∈ word, ¬separates s) :
    words separates word = [word] := by
  rw [words, foldr_wordsStep hne h]

-- A separator ends a word.
theorem words_append (hne : word ≠ []) (h : ∀ s ∈ word, ¬separates s) {t : Symbol}
    (ht : separates t) (rest : Text) :
    words separates (word ++ t :: rest) = word :: words separates rest := by
  have hrest : (t :: rest).foldr (wordsStep separates) (false, []) =
      (false, words separates rest) := by
    simp [words, wordsStep, ht]
  rw [words, List.foldr_append, hrest, foldr_wordsStep hne h]

end Words

theorem trim_eq_self {text : Text} (hfirst : ∀ s ∈ text.head?, ¬s.isBlank)
    (hlast : ∀ s ∈ text.getLast?, ¬s.isBlank) : trim text = text := by
  have hkeep : ∀ other : Text, (∀ s ∈ other.head?, ¬s.isBlank) →
      other.dropWhile Symbol.isBlank = other := by
    intro other hother
    cases other with
    | nil => rfl
    | cons s rest => simp [hother s rfl]
  rw [trim, trimStart, hkeep text hfirst, trimEnd, hkeep text.reverse (by simpa using hlast),
    List.reverse_reverse]

theorem stripLast_eq_self {s : Symbol} {text : Text} (h : s ∉ text) : stripLast s text = text := by
  rw [stripLast]
  cases hreverse : text.reverse with
  | nil => simpa [stripFirst] using hreverse.symm
  | cons t rest =>
    have ht : t ≠ s := by
      rintro rfl
      exact h (List.mem_reverse.mp (by simp [hreverse]))
    rw [stripFirst, if_neg ht, ← hreverse, List.reverse_reverse]

end Text

end TileConsole
