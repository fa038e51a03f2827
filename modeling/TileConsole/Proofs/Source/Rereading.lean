import TileConsole.Proofs.Source.Lines
import TileConsole.Proofs.Source.Spelling
import TileConsole.Proofs.Text.UpperCase

namespace TileConsole

namespace Line

theorem commentMark_notMem_content (raw : Text) : commentMark ∉ content raw := by
  intro hmem
  have hkept := List.mem_takeWhile_imp ((Text.trim_isInfix _).subset hmem)
  simp at hkept

theorem isWord_of_mem_words {raw word : Text} (h : word ∈ Text.words separates (content raw)) :
    IsWord word := by
  obtain ⟨hne, hinside, hpiece⟩ := Text.mem_words h
  refine ⟨hne, hinside, ?_⟩
  rintro s hs rfl
  exact commentMark_notMem_content raw (hpiece.subset hs)

theorem not_separates_of_isUpper {c : Char} (h : IsUpper c.toNat) : ¬separates (.char c) := by
  intro hseparates
  apply h.delimits
  rcases Bool.or_eq_true_iff.mp hseparates with hblank | hcomma
  · exact mem_delimiters hblank
  · obtain rfl : c = ',' := by simpa using hcomma
    decide +kernel

-- Upper case divides no word and opens no comment.
theorem IsWord.upper {word : Text} (h : IsWord word) : IsWord word.upper := by
  refine ⟨by simp [Text.upper, h.ne_nil], ?_, ?_⟩
  · intro s hs
    obtain ⟨t, ht, rfl⟩ := List.mem_map.mp hs
    rcases t.upper_cases with hsame | ⟨c, hc, hupper⟩
    · rw [hsame]
      exact h.separates t ht
    · rw [hc]
      exact not_separates_of_isUpper hupper
  · intro s hs hmark
    obtain ⟨t, ht, rfl⟩ := List.mem_map.mp hs
    rcases t.upper_cases with hsame | ⟨c, hc, hupper⟩
    · rw [hsame] at hmark
      exact h.comment t ht hmark
    · obtain rfl : c = ';' := Symbol.char.inj (hc.symm.trans hmark)
      exact hupper.delimits (by decide +kernel)

theorem IsWord.plain {word : Text} (h : IsWord word) :
    word ≠ [] ∧ ∀ s ∈ word, ¬s.isBlank ∧ s ≠ .char ',' ∧ s ≠ .char ';' := by
  refine ⟨h.ne_nil, fun s hs => ⟨h.not_isBlank s hs, ?_, h.comment s hs⟩⟩
  rintro rfl
  exact h.separates _ hs rfl

theorem read?_spelled_upper {word : Text} {operands : List Text} (hword : IsWord word.upper)
    (hmark : word.upper.head? ≠ some labelMark) (h : ∀ part ∈ operands, IsWord part)
    (number : Int) :
    read? (spelled word.upper operands) number =
      some ⟨number, spelled word.upper operands, .instruction word.upper operands⟩ := by
  rw [read?, read_spelled hword hmark h, Text.upper_upper]

section Decoded

variable {mnemonic : Text} {operands : List Text}

theorem isDecoded_spelledOperands (h : ∀ word ∈ operands, Text.IsDecoded word) :
    (spelledOperands operands).IsDecoded := by
  induction operands with
  | nil => exact Text.ofBytes_nil
  | cons word rest ih =>
    obtain ⟨hword, hrest⟩ := List.forall_mem_cons.mp h
    cases rest with
    | nil => simpa [spelledOperands] using hword
    | cons next rest =>
      rw [spelledOperands_cons_cons]
      exact hword.append_char (Text.isDecoded_cons_char (ih hrest))

-- What is written between the words is whole, so it keeps their bytes apart.
theorem isDecoded_spelled (hmnemonic : mnemonic.IsDecoded)
    (h : ∀ word ∈ operands, Text.IsDecoded word) : (spelled mnemonic operands).IsDecoded := by
  by_cases hnone : operands = []
  · rwa [spelled, if_pos hnone]
  · rw [spelled_of_ne_nil hnone]
    exact hmnemonic.append_char (isDecoded_spelledOperands h)

end Decoded

-- The plain way to write a label.
def spelledLabel (name : Text) : Text :=
  labelMark :: (name ++ [labelEnd])

section Labels

variable {name : Text}

theorem isDecoded_spelledLabel (h : name.IsDecoded) : (spelledLabel name).IsDecoded :=
  Text.isDecoded_cons_char (h.append_char Text.ofBytes_nil)

theorem read?_spelledLabel (htrimmed : name.IsTrimmed) (hcomment : commentMark ∉ name)
    (number : Int) :
    read? (spelledLabel name) number = some ⟨number, spelledLabel name, .label name⟩ := by
  have hwhole : (spelledLabel name).takeWhile (· != commentMark) = spelledLabel name := by
    rw [List.takeWhile_eq_self_iff]
    intro s hs
    rw [bne_iff_ne]
    rintro rfl
    exact hcomment (by simpa [spelledLabel, commentMark, labelMark, labelEnd] using hs)
  have hcontent : content (spelledLabel name) = spelledLabel name := by
    rw [content, hwhole]
    apply Text.trim_eq_self
    · rintro s ⟨⟩
      decide
    · rw [spelledLabel, ← List.cons_append, List.getLast?_concat]
      rintro s ⟨⟩
      decide
  have hname : labelName (name ++ [labelEnd]) = name := by
    rw [labelName, Text.stripLast_append, htrimmed.trim_eq]
  rw [read?_eq, hcontent, spelledLabel, kindOf?, if_pos rfl, hname]
  rfl

end Labels

end Line

namespace Source

-- What a line is read as can be written plainly and is read as the same again,
-- whatever bytes the line was made of. A word behind a comma may begin with the
-- mark of a label, and only then it cannot stand at the start of a line.
theorem parts_read_back (raw : Bytes) (number : Int) (line : Line)
    (h : Line.read? (Text.ofBytes raw) number = some line) :
    (∀ mnemonic operands, line.kind = .instruction mnemonic operands →
      (∀ word ∈ mnemonic :: operands, word ≠ [] ∧
        ∀ s ∈ word, ¬s.isBlank ∧ s ≠ .char ',' ∧ s ≠ .char ';') ∧
      (mnemonic.head? ≠ some (.char '@') → ∀ again : Int,
        let text := Line.spelled mnemonic operands
        Line.read? (Text.ofBytes text.toBytes) again =
          some ⟨again, text, .instruction mnemonic operands⟩)) ∧
    ∀ name, line.kind = .label name →
      name.IsTrimmed ∧ .char ';' ∉ name ∧ ∀ again : Int,
        let text : Text := .char '@' :: (name ++ [.char ':'])
        Line.read? (Text.ofBytes text.toBytes) again = some ⟨again, text, .label name⟩ := by
  have hdecoded : (Line.content (Text.ofBytes raw)).IsDecoded :=
    (Text.isDecoded_ofBytes raw).of_isInfix (Line.content_isInfix _)
  rw [Line.read?_eq] at h
  obtain ⟨kind, hkind, rfl⟩ := Option.map_eq_some_iff.mp h
  refine ⟨?_, ?_⟩
  · rintro mnemonic operands rfl
    obtain ⟨word, hwords, rfl⟩ := Line.kindOf?_eq_instruction hkind
    have hmem : ∀ part ∈ word :: operands,
        part ∈ Text.words Line.separates (Line.content (Text.ofBytes raw)) :=
      fun part hpart => hwords ▸ hpart
    have hfirst : Line.IsWord word.upper := (Line.isWord_of_mem_words (hmem word (by simp))).upper
    have hothers : ∀ part ∈ operands, Line.IsWord part :=
      fun part hpart => Line.isWord_of_mem_words (hmem part (by simp [hpart]))
    refine ⟨?_, ?_⟩
    · intro part hpart
      rcases List.mem_cons.mp hpart with rfl | hpart
      · exact hfirst.plain
      · exact (hothers part hpart).plain
    · intro hmark again text
      have hwritten : text.IsDecoded := Line.isDecoded_spelled word.isDecoded_upper
        fun part hpart => hdecoded.of_isInfix (Text.mem_words (hmem part (by simp [hpart]))).2.2
      rw [hwritten]
      exact Line.read?_spelled_upper hfirst hmark hothers again
  · rintro name rfl
    obtain ⟨rest, hcontent, rfl⟩ := Line.kindOf?_eq_label hkind
    have hpiece : Line.labelName rest <:+: Line.content (Text.ofBytes raw) := by
      rw [hcontent]
      exact (Line.labelName_isInfix rest).trans (List.suffix_cons _ rest).isInfix
    have htrimmed : (Line.labelName rest).IsTrimmed := Text.isTrimmed_trim _
    have hcomment : Line.commentMark ∉ Line.labelName rest :=
      fun hmem => Line.commentMark_notMem_content _ (hpiece.subset hmem)
    refine ⟨htrimmed, hcomment, ?_⟩
    intro again text
    have hwritten : text.IsDecoded := Line.isDecoded_spelledLabel (hdecoded.of_isInfix hpiece)
    rw [hwritten]
    exact Line.read?_spelledLabel htrimmed hcomment again

-- A line in bytes that are not UTF-8, and a label with more marks than it needs.
theorem parts_read_back_stray_bytes :
    let raw : Bytes := [0x2C, 0x09, 0x73, 0xE2, 0x2C, 0xFF, 0x40, 0x3B, 0x78]
    let mnemonic : Text := [.char 'S', .char replacementChar]
    let operand : Text := [.stray 0xFF, .char '@']
    let content : Text := [.char ',', .char '\t', .char 's', .stray 0xE2, .char ',', .stray 0xFF,
      .char '@']
    let plain := Line.spelled mnemonic [operand]
    Line.read? (Text.ofBytes raw) 7 = some ⟨7, content, .instruction mnemonic [operand]⟩ ∧
    mnemonic.head? ≠ some (.char '@') ∧
    Line.read? (Text.ofBytes plain.toBytes) 1 =
      some ⟨1, plain, .instruction mnemonic [operand]⟩ ∧
    Line.read? (Text.ofBytes (Text.toBytes " @@x:: ; twice")) 8 =
      some ⟨8, "@@x::", .label "@x:"⟩ ∧
    Line.read? (Text.ofBytes (Text.toBytes "@@x::")) 1 = some ⟨1, "@@x::", .label "@x:"⟩ := by
  intro raw mnemonic operand content plain
  have hline : Line.read? (Text.ofBytes raw) 7 =
      some ⟨7, content, .instruction mnemonic [operand]⟩ := by
    decide +kernel
  have hlabel : Line.read? (Text.ofBytes (Text.toBytes " @@x:: ; twice")) 8 =
      some ⟨8, "@@x::", .label "@x:"⟩ := by
    decide +kernel
  obtain ⟨hinstruction, -⟩ := parts_read_back _ _ _ hline
  obtain ⟨-, hagain⟩ := hinstruction mnemonic [operand] rfl
  obtain ⟨-, hname⟩ := parts_read_back _ _ _ hlabel
  exact ⟨hline, by decide, hagain (by decide) 1, hlabel, (hname "@x:" rfl).2.2 1⟩

end Source

end TileConsole
