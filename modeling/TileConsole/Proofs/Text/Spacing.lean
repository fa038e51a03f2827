import TileConsole.Proofs.Text

namespace TileConsole.Text

section Trim

variable {blank : Text}

theorem trim_append_left (h : ∀ s ∈ blank, s.isBlank) (text : Text) :
    trim (blank ++ text) = trim text := by
  rw [trim, trimStart, List.dropWhile_append_of_pos h, trim, trimStart]

theorem trimEnd_append (h : ∀ s ∈ blank, s.isBlank) (text : Text) :
    trimEnd (text ++ blank) = trimEnd text := by
  rw [trimEnd, List.reverse_append, List.dropWhile_append_of_pos (by simpa using h), trimEnd]

theorem trim_append_right (h : ∀ s ∈ blank, s.isBlank) (text : Text) :
    trim (text ++ blank) = trim text := by
  rw [trim, trimStart, List.dropWhile_append, trim, trimStart]
  split
  case isTrue hempty => rw [List.isEmpty_iff.mp hempty, List.dropWhile_eq_nil_iff.mpr h]
  case isFalse => exact trimEnd_append h _

-- Nothing but white space is trimmed.
theorem exists_trimEnd (text : Text) :
    ∃ trail, text = trimEnd text ++ trail ∧ ∀ s ∈ trail, s.isBlank := by
  refine ⟨(text.reverse.takeWhile Symbol.isBlank).reverse, ?_, ?_⟩
  · rw [trimEnd, ← List.reverse_append, List.takeWhile_append_dropWhile, List.reverse_reverse]
  · exact fun s hs => List.mem_takeWhile_imp (List.mem_reverse.mp hs)

theorem exists_trim (text : Text) :
    ∃ lead trail, text = lead ++ (trim text ++ trail) ∧ (∀ s ∈ lead, s.isBlank) ∧
      ∀ s ∈ trail, s.isBlank := by
  obtain ⟨trail, htrail, hblank⟩ := exists_trimEnd text.trimStart
  refine ⟨text.takeWhile Symbol.isBlank, trail, ?_, fun s hs => List.mem_takeWhile_imp hs, hblank⟩
  rw [trim, ← htrail, trimStart, List.takeWhile_append_dropWhile]

-- What is left begins with the first symbol that is not white space.
theorem head?_trim (text : Text) : (trim text).head? = text.find? (!·.isBlank) := by
  obtain ⟨trail, hsplit, htrail⟩ := exists_trimEnd text.trimStart
  have hfind : text.find? (!·.isBlank) = text.trimStart.head? := by
    rw [trimStart, List.find?_eq_head?_dropWhile_not]
    simp
  rw [trim]
  cases htrim : text.trimStart.trimEnd with
  | cons s rest => rw [hfind, hsplit, htrim, List.cons_append, List.head?_cons, List.head?_cons]
  | nil =>
    rw [htrim, List.nil_append] at hsplit
    cases hfound : text.find? (!·.isBlank) with
    | none => rfl
    | some s =>
      have hmem : s ∈ trail := List.mem_of_mem_head? (by rw [← hsplit, ← hfind, hfound]; rfl)
      have hs := List.find?_some hfound
      simp [htrail s hmem] at hs

theorem stripLast_cases (s : Symbol) (text : Text) :
    stripLast s text = text ∨ text = stripLast s text ++ [s] := by
  rw [stripLast]
  cases hreverse : text.reverse with
  | nil => exact .inl (by simpa [stripFirst] using hreverse.symm)
  | cons t rest =>
    have htext : text = rest.reverse ++ [t] := by simpa using congrArg List.reverse hreverse
    by_cases ht : t = s
    · exact .inr (by rw [stripFirst, if_pos ht, htext, ht])
    · exact .inl (by rw [stripFirst, if_neg ht, ← hreverse, List.reverse_reverse])

-- A text with no white space around it.
structure IsTrimmed (text : Text) : Prop where
  first : ∀ s ∈ text.head?, ¬s.isBlank
  last : ∀ s ∈ text.getLast?, ¬s.isBlank

theorem isTrimmed_trim (text : Text) : (trim text).IsTrimmed where
  first := by
    intro s hs
    rw [head?_trim] at hs
    simpa using List.find?_some hs
  last := by
    intro s hs
    rw [trim, trimEnd, List.getLast?_reverse] at hs
    have hhead := List.head?_dropWhile_not Symbol.isBlank text.trimStart.reverse
    simpa [Option.mem_def.mp hs] using hhead

theorem IsTrimmed.trim_eq {text : Text} (h : text.IsTrimmed) : trim text = text :=
  trim_eq_self h.first h.last

theorem trim_isInfix (text : Text) : trim text <:+: text := by
  obtain ⟨lead, trail, hsplit, -⟩ := exists_trim text
  exact ⟨lead, trail, by rw [List.append_assoc, ← hsplit]⟩

theorem stripLast_isPrefix (s : Symbol) (text : Text) : stripLast s text <+: text := by
  rcases stripLast_cases s text with hsame | hsplit
  · exact ⟨[], by rw [hsame, List.append_nil]⟩
  · exact ⟨[s], hsplit.symm⟩

theorem stripLast_append (s : Symbol) (text : Text) : stripLast s (text ++ [s]) = text := by
  simp [stripLast, stripFirst]

end Trim

section Words

variable {separates : Symbol → Bool} {gap : Text}

theorem wordsStep_append (s : Symbol) {state : Bool × List Text} (h : state.1 → state.2 ≠ [])
    (others : List Text) :
    wordsStep separates s (state.1, state.2 ++ others) =
      ((wordsStep separates s state).1, (wordsStep separates s state).2 ++ others) := by
  rcases state with ⟨_ | _, found⟩
  · by_cases hs : separates s <;> simp [wordsStep, hs]
  · obtain ⟨word, rest, rfl⟩ := List.exists_cons_of_ne_nil (h rfl)
    by_cases hs : separates s <;> simp [wordsStep, hs]

-- A word that is open to the left has been begun.
theorem ne_nil_of_open (text : Text) :
    (text.foldr (wordsStep separates) (false, [])).1 →
      (text.foldr (wordsStep separates) (false, [])).2 ≠ [] := by
  cases text with
  | nil => simp
  | cons s rest =>
    rw [List.foldr_cons]
    rcases rest.foldr (wordsStep separates) (false, []) with ⟨isOpen, found⟩
    simp only [wordsStep]
    split
    · simp
    · split <;> simp

theorem foldr_wordsStep_append (text : Text) (others : List Text) :
    text.foldr (wordsStep separates) (false, others) =
      ((text.foldr (wordsStep separates) (false, [])).1, words separates text ++ others) := by
  induction text with
  | nil => rfl
  | cons s rest ih =>
    rw [List.foldr_cons, ih, words, wordsStep_append s (ne_nil_of_open rest), words,
      List.foldr_cons]

-- A separator keeps the words around it apart.
theorem words_append_separator {s : Symbol} (hs : separates s) (text rest : Text) :
    words separates (text ++ s :: rest) = words separates text ++ words separates rest := by
  have hrest : (s :: rest).foldr (wordsStep separates) (false, []) =
      (false, words separates rest) := by
    simp [words, wordsStep, hs]
  rw [words, List.foldr_append, hrest, foldr_wordsStep_append]

theorem words_append_left (h : ∀ s ∈ gap, separates s) (text : Text) :
    words separates (gap ++ text) = words separates text := by
  induction gap with
  | nil => rfl
  | cons s gap ih =>
    obtain ⟨hs, hgap⟩ := List.forall_mem_cons.mp h
    rw [List.cons_append, words_cons_of_separates hs, ih hgap]

theorem words_append_gap (hne : gap ≠ []) (h : ∀ s ∈ gap, separates s) (text rest : Text) :
    words separates (text ++ (gap ++ rest)) = words separates text ++ words separates rest := by
  cases gap with
  | nil => exact absurd rfl hne
  | cons s gap =>
    obtain ⟨hs, hgap⟩ := List.forall_mem_cons.mp h
    rw [List.cons_append, words_append_separator hs, words_append_left hgap]

theorem words_append_right (h : ∀ s ∈ gap, separates s) (text : Text) :
    words separates (text ++ gap) = words separates text := by
  by_cases hne : gap = []
  · rw [hne, List.append_nil]
  · have hgap := words_append_gap hne h text []
    rwa [List.append_nil, show words separates [] = [] from rfl, List.append_nil] at hgap

-- White space around a text is not in its words.
theorem words_trim (h : ∀ s : Symbol, s.isBlank → separates s) (text : Text) :
    words separates (trim text) = words separates text := by
  obtain ⟨lead, trail, htext, hlead, htrail⟩ := exists_trim text
  calc words separates (trim text)
    _ = words separates (trim text ++ trail) :=
      (words_append_right (fun s hs => h s (htrail s hs)) _).symm
    _ = words separates (lead ++ (trim text ++ trail)) :=
      (words_append_left (fun s hs => h s (hlead s hs)) _).symm
    _ = words separates text := by rw [← htext]

-- The first word goes on up to the next separator.
theorem words_append_word {word : Text} (hne : word ≠ []) (h : ∀ s ∈ word, ¬separates s)
    (rest : Text) :
    words separates (word ++ rest) =
      (word ++ rest.takeWhile (!separates ·)) ::
        words separates (rest.dropWhile (!separates ·)) := by
  have hword : ∀ s ∈ word ++ rest.takeWhile (!separates ·), ¬separates s := by
    intro s hs
    rcases List.mem_append.mp hs with hs | hs
    · exact h s hs
    · simpa using List.mem_takeWhile_imp hs
  have hfirst : word ++ rest.takeWhile (!separates ·) ≠ [] := by simp [hne]
  have hsplit : word ++ rest =
      word ++ rest.takeWhile (!separates ·) ++ rest.dropWhile (!separates ·) := by
    rw [List.append_assoc, List.takeWhile_append_dropWhile]
  rw [hsplit]
  cases hrest : rest.dropWhile (!separates ·) with
  | nil => rw [List.append_nil, words_of_forall hfirst hword]; rfl
  | cons t others =>
    have ht : separates t := by
      have hhead := List.head?_dropWhile_not (!separates ·) rest
      simpa [hrest] using hhead
    rw [words_append hfirst hword ht, words_cons_of_separates ht]

end Words

-- The words of a text are pieces of it between separators.
theorem mem_words {separates : Symbol → Bool} {text word : Text} (h : word ∈ words separates text) :
    word ≠ [] ∧ (∀ s ∈ word, ¬separates s) ∧ word <:+: text := by
  induction hlength : text.length using Nat.strong_induction_on generalizing text with
  | _ length ih =>
    cases text with
    | nil => simp [words] at h
    | cons s rest =>
      subst hlength
      by_cases hs : separates s
      · rw [words_cons_of_separates hs] at h
        obtain ⟨hne, hinside, hpiece⟩ := ih rest.length (by simp) h rfl
        exact ⟨hne, hinside, hpiece.trans (List.suffix_cons s rest).isInfix⟩
      · have hfirst : ∀ t ∈ [s], ¬separates t := by simpa using hs
        rw [← List.singleton_append, words_append_word (by simp) hfirst] at h
        rcases List.mem_cons.mp h with rfl | hlater
        · refine ⟨by simp, ?_, ?_⟩
          · intro t ht
            rcases List.mem_cons.mp ht with rfl | ht
            · exact hs
            · simpa using List.mem_takeWhile_imp ht
          · exact ((List.prefix_append_right_inj [s]).mpr (List.takeWhile_prefix _)).isInfix
        · have hsuffix := List.dropWhile_suffix (!separates ·) (l := rest)
          obtain ⟨hne, hinside, hpiece⟩ :=
            ih _ (Nat.lt_succ_of_le hsuffix.length_le) hlater rfl
          exact ⟨hne, hinside, hpiece.trans (hsuffix.trans (List.suffix_cons s rest)).isInfix⟩

end TileConsole.Text
