import TileConsole.Bytes
import TileConsole.Proofs.Text.Decoding
import TileConsole.Proofs.Text.Spacing
import TileConsole.Source.Line

namespace TileConsole

namespace Text

theorem linesStep_ne_nil (s : Symbol) (found : List Text) : linesStep s found ≠ [] := by
  unfold linesStep
  split
  · simp
  · split <;> simp

theorem linesStep_append (s : Symbol) {found : List Text} (h : found ≠ []) (others : List Text) :
    linesStep s (found ++ others) = linesStep s found ++ others := by
  obtain ⟨line, rest, rfl⟩ := List.exists_cons_of_ne_nil h
  simp only [linesStep, List.cons_append]
  split <;> rfl

theorem foldr_linesStep_append (text : Text) {found : List Text} (h : found ≠ [])
    (others : List Text) :
    text.foldr linesStep (found ++ others) = text.foldr linesStep found ++ others := by
  induction text with
  | nil => rfl
  | cons s rest ih =>
    have hrest : rest.foldr linesStep found ≠ [] := by
      cases rest with
      | nil => exact h
      | cons t rest => exact linesStep_ne_nil _ _
    rw [List.foldr_cons, ih, linesStep_append s hrest, List.foldr_cons]

theorem lines_cons (s : Symbol) (rest : Text) : lines (s :: rest) = linesStep s (lines rest) := rfl

-- A line feed closes the lines in front of it.
theorem lines_append (first second : Text) :
    lines (first ++ newline :: second) = lines (first ++ [newline]) ++ lines second := by
  have hclosed : first.foldr linesStep ([[]] ++ lines second) = _ :=
    foldr_linesStep_append first (by simp) (lines second)
  rw [lines, List.foldr_append, lines, List.foldr_append]
  exact hclosed

theorem length_lines_append_newline (text : Text) :
    (lines (text ++ [newline])).length = text.count newline + 1 := by
  induction text with
  | nil => rfl
  | cons s rest ih =>
    have hne : lines (rest ++ [newline]) ≠ [] := List.ne_nil_of_length_pos (by omega)
    obtain ⟨line, others, hlines⟩ := List.exists_cons_of_ne_nil hne
    rw [hlines] at ih
    rw [List.cons_append, lines_cons, hlines, List.count_cons]
    by_cases hs : s = newline
    · simp [linesStep, hs, ← ih]
    · simpa [linesStep, hs] using ih

-- The line feed adds an empty line where none was begun.
theorem lines_append_newline_cases (text : Text) :
    lines (text ++ [newline]) = lines text ∨ lines (text ++ [newline]) = lines text ++ [[]] := by
  induction text with
  | nil => exact .inr rfl
  | cons s rest ih =>
    rw [List.cons_append, lines_cons, lines_cons]
    rcases ih with heq | heq
    · exact .inl (by rw [heq])
    · rw [heq]
      cases hrest : lines rest with
      | nil =>
        by_cases hs : s = newline
        · exact .inr (by simp [linesStep, hs])
        · exact .inl (by simp [linesStep, hs])
      | cons line others => exact .inr (linesStep_append s (by simp) _)

end Text

namespace Line

-- What a text without white space around it says, if it says something.
def kindOf? : Text → Option LineKind
  | [] => none
  | s :: rest =>
    if s = labelMark then some (.label (labelName rest))
    else
      match Text.words separates (s :: rest) with
      | [] => none
      | mnemonic :: operands => some (.instruction mnemonic.upper operands)

-- A line that stands further down in a source.
def moved (count : Nat) (line : Line) : Line :=
  { line with number := line.number + count }

-- The raw lines that say something, numbered from a given line on.
def readFrom (number : Nat) (raws : List Text) : List Line :=
  (raws.zipIdx number).filterMap fun (raw, n) => read? raw n

-- The number of a line is not used for anything.
theorem read?_eq (raw : Text) (number : Int) :
    read? raw number = (kindOf? (content raw)).map (⟨number, content raw, ·⟩) := by
  unfold read? read kindOf?
  cases content raw with
  | nil => rfl
  | cons s rest =>
    dsimp only
    by_cases hs : s = labelMark
    · simp [hs]
    · cases hwords : Text.words separates (s :: rest) with
      | nil => simp [hs]
      | cons mnemonic operands => simp [hs]

theorem content_isInfix (raw : Text) : content raw <:+: raw :=
  (Text.trim_isInfix _).trans (List.takeWhile_prefix _).isInfix

theorem separates_of_isBlank {s : Symbol} (h : s.isBlank) : separates s := by
  simp [separates, h]

theorem ne_commentMark_of_separates {s : Symbol} (h : separates s) : s != commentMark := by
  rw [bne_iff_ne]
  rintro rfl
  exact absurd h (by decide)

section Content

variable {blank : Text}

theorem content_append_left (h : ∀ s ∈ blank, s.isBlank) (raw : Text) :
    content (blank ++ raw) = content raw := by
  have hkept : ∀ s ∈ blank, s != commentMark :=
    fun s hs => ne_commentMark_of_separates (separates_of_isBlank (h s hs))
  rw [content, List.takeWhile_append_of_pos hkept, Text.trim_append_left h, content]

theorem content_append_right (h : ∀ s ∈ blank, s.isBlank) (raw : Text) :
    content (raw ++ blank) = content raw := by
  have hkept : ∀ s ∈ blank, s != commentMark :=
    fun s hs => ne_commentMark_of_separates (separates_of_isBlank (h s hs))
  rw [content, List.takeWhile_append, content]
  split
  case isTrue hall =>
    have hraw : raw.takeWhile (· != commentMark) = raw :=
      (List.takeWhile_prefix _).eq_of_length hall
    rw [List.takeWhile_eq_self_iff.mpr hkept, Text.trim_append_right h, hraw]
  case isFalse => rfl

-- A comment is not read.
theorem content_append_comment (raw comment : Text) :
    content (raw ++ commentMark :: comment) = content raw := by
  rw [content, List.takeWhile_append, content]
  split
  case isTrue hall =>
    have hraw : raw.takeWhile (· != commentMark) = raw :=
      (List.takeWhile_prefix _).eq_of_length hall
    simp [hraw]
  case isFalse => rfl

theorem content_stripLast (raw : Text) : content (raw.stripLast (.char '\r')) = content raw := by
  rcases Text.stripLast_cases (.char '\r') raw with heq | heq
  · rw [heq]
  · have hblank : ∀ s ∈ [Symbol.char '\r'], s.isBlank := by decide
    calc content (raw.stripLast (.char '\r'))
      _ = content (raw.stripLast (.char '\r') ++ [.char '\r']) :=
        (content_append_right hblank _).symm
      _ = content raw := by rw [← heq]

end Content

theorem labelName_isInfix (rest : Text) : labelName rest <:+: rest :=
  (Text.trim_isInfix _).trans (Text.stripLast_isPrefix labelEnd rest).isInfix

theorem kindOf?_eq_label {text name : Text} (h : kindOf? text = some (.label name)) :
    ∃ rest, text = labelMark :: rest ∧ name = labelName rest := by
  cases text with
  | nil => cases h
  | cons s rest =>
    rw [kindOf?] at h
    split at h
    case isTrue hmark =>
      rw [hmark]
      exact ⟨rest, rfl, (LineKind.label.inj (Option.some.inj h)).symm⟩
    case isFalse => split at h <;> cases h

theorem kindOf?_eq_instruction {text mnemonic : Text} {operands : List Text}
    (h : kindOf? text = some (.instruction mnemonic operands)) :
    ∃ word, Text.words separates text = word :: operands ∧ mnemonic = word.upper := by
  cases text with
  | nil => cases h
  | cons s rest =>
    rw [kindOf?] at h
    split at h
    case isTrue => cases h
    case isFalse =>
      cases hwords : Text.words separates (s :: rest) with
      | nil => simp [hwords] at h
      | cons word others =>
        rw [hwords] at h
        obtain ⟨hmnemonic, rfl⟩ := LineKind.instruction.inj (Option.some.inj h)
        exact ⟨word, rfl, hmnemonic.symm⟩

theorem readFrom_append (number : Nat) (raws others : List Text) :
    readFrom number (raws ++ others) =
      readFrom number raws ++ readFrom (number + raws.length) others := by
  rw [readFrom, List.zipIdx_append, List.filterMap_append]
  rfl

theorem readFrom_cons (number : Nat) (raw : Text) (rest : List Text) :
    readFrom number (raw :: rest) = (read? raw number).toList ++ readFrom (number + 1) rest := by
  rw [readFrom, List.zipIdx_cons, List.filterMap_cons]
  dsimp only
  cases read? raw number <;> rfl

theorem readFrom_add (number count : Nat) (raws : List Text) :
    readFrom (number + count) raws = (readFrom number raws).map (moved count) := by
  induction raws generalizing number with
  | nil => rfl
  | cons raw rest ih =>
    rw [readFrom_cons, readFrom_cons, Nat.add_right_comm, ih, List.map_append, read?_eq, read?_eq]
    cases kindOf? (content raw) <;> simp [moved]

-- Sources that are joined by a line feed are read one after the other.
theorem readAll_append (first second : Text) :
    readAll (first ++ Text.newline :: second) =
      readAll first ++ (readAll second).map (moved (1 + first.count Text.newline)) := by
  have hclosed : readFrom 1 (rawLines (first ++ [Text.newline])) = readAll first := by
    rcases Text.lines_append_newline_cases first with heq | heq
    · rw [rawLines, heq]
      rfl
    · rw [rawLines, heq, List.map_append, readFrom_append]
      exact List.append_nil _
  have hlength : (rawLines (first ++ [Text.newline])).length = first.count Text.newline + 1 := by
    rw [rawLines, List.length_map, Text.length_lines_append_newline]
  have hraws : rawLines (first ++ Text.newline :: second) =
      rawLines (first ++ [Text.newline]) ++ rawLines second := by
    rw [rawLines, Text.lines_append, List.map_append]
    rfl
  calc readAll (first ++ Text.newline :: second)
    _ = readFrom 1 (rawLines (first ++ [Text.newline]) ++ rawLines second) :=
      congrArg (readFrom 1) hraws
    _ = readAll first ++ readFrom (1 + (1 + first.count Text.newline)) (rawLines second) := by
      rw [readFrom_append, hclosed, hlength, Nat.add_comm (first.count _)]
    _ = readAll first ++ (readAll second).map (moved (1 + first.count Text.newline)) := by
      rw [readFrom_add]
      rfl

theorem readAll_of_newline_notMem {text : Text} (h : Text.newline ∉ text) :
    readAll text = readFrom 1 [text] := by
  by_cases hne : text = []
  · rw [hne]
    rfl
  · have hlines : rawLines text = [text.stripLast (.char '\r')] := by
      rw [rawLines, Text.lines_of_not_mem hne h]
      rfl
    have hread : ∀ number, read? (text.stripLast (.char '\r')) number = read? text number := by
      intro number
      rw [read?_eq, read?_eq, content_stripLast]
    calc readAll text
      _ = readFrom 1 [text.stripLast (.char '\r')] := congrArg (readFrom 1) hlines
      _ = readFrom 1 [text] := by rw [readFrom_cons, readFrom_cons, hread]

-- A line feed between the pieces of a source makes a line of each.
theorem readAll_intercalate {pieces : List Bytes} (h : ∀ piece ∈ pieces, 0x0A ∉ piece) :
    readAll (Text.ofBytes ([0x0A].intercalate pieces)) = readFrom 1 (pieces.map Text.ofBytes) := by
  induction pieces with
  | nil => rw [List.intercalate_nil, Text.ofBytes_nil]; rfl
  | cons piece rest ih =>
    obtain ⟨hpiece, hrest⟩ := List.forall_mem_cons.mp h
    have hcount : (Text.ofBytes piece).count Text.newline = 0 := by
      rw [Text.count_newline_ofBytes, List.count_eq_zero]
      exact hpiece
    have hfirst := readAll_of_newline_notMem (List.count_eq_zero.mp hcount)
    cases rest with
    | nil => rw [List.intercalate_singleton, hfirst]; rfl
    | cons next rest =>
      rw [List.intercalate_cons_cons, List.append_assoc, List.singleton_append,
        Text.ofBytes_append_newline, readAll_append, hcount, hfirst, ih hrest, ← readFrom_add]
      exact (readFrom_append 1 [Text.ofBytes piece] _).symm

theorem newline_notMem_of_splitOn {source piece : Bytes} (h : piece ∈ source.splitOn 0x0A) :
    0x0A ∉ piece := by
  induction source generalizing piece with
  | nil => simp_all
  | cons a rest ih =>
    obtain ⟨first, others, hrest⟩ := List.exists_cons_of_ne_nil (List.splitOn_ne_nil 0x0A rest)
    rw [hrest] at ih
    rw [List.splitOn, List.splitOnP_cons_eq_if_modifyHead, ← List.splitOn, hrest] at h
    split at h
    case isTrue =>
      rcases List.mem_cons.mp h with rfl | hmem
      · simp
      · exact ih hmem
    case isFalse ha =>
      rcases List.mem_cons.mp h with rfl | hmem
      · rw [List.mem_cons, not_or]
        exact ⟨fun heq => ha (beq_iff_eq.mpr heq.symm), ih List.mem_cons_self⟩
      · exact ih (List.mem_cons_of_mem _ hmem)

-- The lines of a source are its bytes between line feeds.
theorem readAll_ofBytes (source : Bytes) :
    readAll (Text.ofBytes source) = readFrom 1 ((source.splitOn 0x0A).map Text.ofBytes) := by
  rw [← readAll_intercalate fun _ => newline_notMem_of_splitOn, List.intercalate_splitOn]

theorem exists_of_mem_readFrom {number : Nat} {raws : List Text} {line : Line}
    (h : line ∈ readFrom number raws) :
    ∃ (index : Nat) (raw : Text), raws[index]? = some raw ∧ line.number = number + index ∧
      read? raw line.number = some line := by
  rw [readFrom, List.mem_filterMap] at h
  obtain ⟨⟨raw, place⟩, hmem, hread⟩ := h
  obtain ⟨hlow, hraw⟩ := List.mk_mem_zipIdx_iff_le_and_getElem?_sub.mp hmem
  have hnumber : line.number = place := by
    dsimp only at hread
    rw [read?_eq] at hread
    obtain ⟨kind, -, rfl⟩ := Option.map_eq_some_iff.mp hread
    rfl
  refine ⟨place - number, raw, hraw, by omega, ?_⟩
  rw [hnumber]
  exact hread

theorem le_number_of_mem_readFrom {number : Nat} {raws : List Text} {line : Line}
    (h : line ∈ readFrom number raws) : number ≤ line.number := by
  obtain ⟨index, raw, -, hnumber, -⟩ := exists_of_mem_readFrom h
  omega

-- No two lines have the same number.
theorem pairwise_number_readFrom (number : Nat) (raws : List Text) :
    (readFrom number raws).Pairwise (·.number < ·.number) := by
  induction raws generalizing number with
  | nil => exact .nil
  | cons raw rest ih =>
    rw [readFrom_cons, List.pairwise_append]
    refine ⟨?_, ih (number + 1), ?_⟩
    · cases read? raw number with
      | none => exact .nil
      | some line => exact List.pairwise_singleton _ _
    · intro line hline other hother
      rw [read?_eq, Option.mem_toList] at hline
      obtain ⟨kind, -, rfl⟩ := Option.map_eq_some_iff.mp hline
      have hlater := le_number_of_mem_readFrom hother
      dsimp only
      omega

-- No line of a source holds a line feed, so neither does what is read from it.
theorem newline_notMem_of_mem_readAll {source : Bytes} {line : Line}
    (h : line ∈ readAll (Text.ofBytes source)) :
    Text.newline ∉ line.text ∧ ∀ name, line.kind = .label name → Text.newline ∉ name := by
  rw [readAll_ofBytes] at h
  obtain ⟨index, text, hget, -, hread⟩ := exists_of_mem_readFrom h
  rw [List.getElem?_map] at hget
  obtain ⟨raw, hraw, rfl⟩ := Option.map_eq_some_iff.mp hget
  have hfeed : Text.newline ∉ Text.ofBytes raw := by
    rw [← List.count_eq_zero, Text.count_newline_ofBytes, List.count_eq_zero]
    exact newline_notMem_of_splitOn (List.mem_of_getElem? hraw)
  have hcontent : Text.newline ∉ content (Text.ofBytes raw) :=
    fun hmem => hfeed ((content_isInfix _).subset hmem)
  rw [read?_eq] at hread
  obtain ⟨kind, hkind, heq⟩ := Option.map_eq_some_iff.mp hread
  have htext : line.text = content (Text.ofBytes raw) := congrArg text heq.symm
  have hsame : line.kind = kind := congrArg Line.kind heq.symm
  refine ⟨htext ▸ hcontent, ?_⟩
  intro name hname
  rw [← hsame, hname] at hkind
  obtain ⟨rest, hrest, rfl⟩ := kindOf?_eq_label hkind
  rw [hrest, List.mem_cons, not_or] at hcontent
  exact fun hmem => hcontent.2 ((labelName_isInfix rest).subset hmem)

end Line

namespace Source

-- What a line says, if it says something.
def said? (line : Bytes) : Option LineKind :=
  Line.kindOf? (Line.content (Text.ofBytes line))

theorem read?_ofBytes (line : Bytes) (number : Int) :
    Line.read? (Text.ofBytes line) number =
      (said? line).map (⟨number, Line.content (Text.ofBytes line), ·⟩) :=
  Line.read?_eq _ _

end Source

end TileConsole
