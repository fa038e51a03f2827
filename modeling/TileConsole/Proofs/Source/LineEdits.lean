import TileConsole.Proofs.Source.Lines
import TileConsole.Proofs.Source.Spelling

namespace TileConsole

namespace Line

theorem exists_char_of_separates {s : Symbol} (h : separates s) : ∃ c, s = .char c := by
  cases s with
  | char c => exact ⟨c, rfl⟩
  | stray b => simp [separates, Symbol.isBlank] at h

-- The instruction that words make.
def instructionOf? : List Text → Option LineKind
  | [] => none
  | mnemonic :: operands => some (.instruction mnemonic.upper operands)

-- Commas and white space between the words of an instruction are not read. A
-- label is told by its first symbol before commas are taken for blanks.
theorem kindOf?_trim {text : Text} (h : text.find? (!·.isBlank) ≠ some labelMark) :
    kindOf? (Text.trim text) = instructionOf? (Text.words separates text) := by
  rw [← Text.head?_trim] at h
  rw [← Text.words_trim (fun _ => separates_of_isBlank)]
  cases htrim : Text.trim text with
  | nil => rfl
  | cons s rest =>
    have hs : s ≠ labelMark := by
      rintro rfl
      exact h (by rw [htrim]; rfl)
    rw [kindOf?, if_neg hs]
    rfl

theorem find?_ne_labelMark {text mnemonic : Text} {operands : List Text}
    (h : kindOf? (Text.trim text) = some (.instruction mnemonic operands)) :
    text.find? (!·.isBlank) ≠ some labelMark := by
  rw [← Text.head?_trim]
  intro hfirst
  obtain ⟨rest, htrim⟩ := List.head?_eq_some_iff.mp hfirst
  simp [htrim, kindOf?] at h

section Rewritten

variable {front mnemonic : Text} {operands : List Text}

-- Behind the first word, one gap is as good as another.
theorem kindOf?_respace {run other : Text} (hmark : commentMark ∉ front)
    (hword : ∃ s ∈ front, ¬separates s) (hrun : run ≠ [] ∧ ∀ s ∈ run, separates s)
    (hother : other ≠ [] ∧ ∀ s ∈ other, separates s) (back : Text)
    (h : kindOf? (content (front ++ (run ++ back))) = some (.instruction mnemonic operands)) :
    kindOf? (content (front ++ (other ++ back))) =
      kindOf? (content (front ++ (run ++ back))) := by
  have hfront : ∀ s ∈ front, s != commentMark := by
    intro s hs
    rw [bne_iff_ne]
    rintro rfl
    exact hmark hs
  have hcontent : ∀ gap : Text, (∀ s ∈ gap, separates s) →
      content (front ++ (gap ++ back)) =
        Text.trim (front ++ (gap ++ back.takeWhile (· != commentMark))) := by
    intro gap hgap
    rw [content, List.takeWhile_append_of_pos hfront, List.takeWhile_append_of_pos
      fun s hs => ne_commentMark_of_separates (hgap s hs)]
  obtain ⟨s, hs⟩ : ∃ s, front.find? (!·.isBlank) = some s := by
    obtain ⟨s, hs, hseparates⟩ := hword
    rw [← Option.isSome_iff_exists, List.find?_isSome]
    exact ⟨s, hs, by simpa using mt separates_of_isBlank hseparates⟩
  have hfind : ∀ rest, (front ++ rest).find? (!·.isBlank) = some s := by
    intro rest
    rw [List.find?_append, hs, Option.some_or]
  rw [hcontent run hrun.2] at h ⊢
  have hlabel := find?_ne_labelMark h
  rw [hfind] at hlabel
  rw [hcontent other hother.2, kindOf?_trim (by rwa [hfind]), kindOf?_trim (by rwa [hfind]),
    Text.words_append_gap hrun.1 hrun.2, Text.words_append_gap hother.1 hother.2]

theorem content_append_word {gap word : Text} (hgap : ∀ s ∈ gap, separates s) (hword : IsWord word)
    (back : Text) :
    content (gap ++ (word ++ back)) =
      Text.trim (gap ++ (word ++ back.takeWhile (· != commentMark))) := by
  rw [content, List.takeWhile_append_of_pos fun s hs => ne_commentMark_of_separates (hgap s hs),
    List.takeWhile_append_of_pos fun s hs => bne_iff_ne.mpr (hword.comment s hs)]

theorem find?_append_word {gap word : Text} (hword : IsWord word) (back : Text) :
    (gap ++ (word ++ back)).find? (!·.isBlank) = (gap.find? (!·.isBlank)).or word.head? := by
  obtain ⟨s, rest, rfl⟩ := List.exists_cons_of_ne_nil hword.ne_nil
  have hs : ¬s.isBlank := hword.not_isBlank s (by simp)
  simp [List.find?_append, hs]

-- The mnemonic is read in upper case.
theorem kindOf?_recase {gap word other : Text} (hgap : ∀ s ∈ gap, separates s)
    (hword : IsWord word) (hother : IsWord other) (hupper : other.upper = word.upper)
    (hmark : other.head? = some labelMark → word.head? = some labelMark) (back : Text)
    (h : kindOf? (content (gap ++ (word ++ back))) = some (.instruction mnemonic operands)) :
    kindOf? (content (gap ++ (other ++ back))) = kindOf? (content (gap ++ (word ++ back))) := by
  rw [content_append_word hgap hword] at h ⊢
  rw [content_append_word hgap hother]
  have hlabel := find?_ne_labelMark h
  have hother' : (gap ++ (other ++ back.takeWhile (· != commentMark))).find? (!·.isBlank) ≠
      some labelMark := by
    rw [find?_append_word hword] at hlabel
    rw [find?_append_word hother]
    cases hfound : gap.find? (!·.isBlank) with
    | some s => rwa [hfound] at hlabel
    | none =>
      rw [hfound] at hlabel
      exact mt hmark hlabel
  rw [kindOf?_trim hlabel, kindOf?_trim hother', Text.words_append_left hgap,
    Text.words_append_left hgap, Text.words_append_word hword.ne_nil hword.separates,
    Text.words_append_word hother.ne_nil hother.separates, instructionOf?, instructionOf?,
    Text.upper, List.map_append, Text.upper, List.map_append]
  rw [Text.upper, Text.upper] at hupper
  rw [hupper]

end Rewritten

end Line

namespace Source

-- White space within a line.
def IsBlank (bytes : Bytes) : Prop :=
  0x0A ∉ bytes ∧ ∀ s ∈ Text.ofBytes bytes, s.isBlank

-- White space and commas within a line.
def IsGap (bytes : Bytes) : Prop :=
  0x0A ∉ bytes ∧ ∀ s ∈ Text.ofBytes bytes, Line.separates s

-- An ASCII letter in upper and in lower case.
def letterCases (n : Nat) : Bytes :=
  [UInt8.ofNat (0x41 + n), UInt8.ofNat (0x61 + n)]

def SameLetter (a b : UInt8) : Prop :=
  ∃ n < 26, a ∈ letterCases n ∧ b ∈ letterCases n

def IsInstruction (line : Bytes) : Prop :=
  ∃ number text mnemonic operands,
    Line.read? (Text.ofBytes line) number = some ⟨number, text, .instruction mnemonic operands⟩

-- A line that is blank, only a comment, or only commas and white space, with or
-- without a comment.
def SaysNothing (line : Bytes) : Prop :=
  ∃ gap comment, line = gap ++ comment ∧ IsGap gap ∧ 0x0A ∉ comment ∧
    ∀ mark ∈ comment.head?, mark = 0x3B

-- The edits of a line that keep what it says.
inductive LineEdit : Bytes → Bytes → Prop
  -- White space at the start.
  | indent {blank : Bytes} (hblank : IsBlank blank) (line : Bytes) : LineEdit line (blank ++ line)
  -- White space at the end of the text, in front of a comment. The text may
  -- have white space at its end already.
  | trail {blank space comment : Bytes} (hblank : IsBlank blank) (hspace : IsBlank space)
      (hcomment : ∀ mark ∈ comment.head?, mark = 0x3B) (text : Bytes) :
      LineEdit (text ++ (space ++ comment)) (text ++ (blank ++ (space ++ comment)))
  -- A comment at the end. The line may keep a carriage return behind it.
  | remark {comment ending : Bytes} (hcomment : 0x0A ∉ comment) (hending : IsBlank ending)
      (line : Bytes) : LineEdit (line ++ ending) (line ++ 0x3B :: (comment ++ ending))
  -- Another run of white space and commas behind the first token.
  | respace {front run other back : Bytes} (hline : IsInstruction (front ++ (run ++ back)))
      (hmark : Line.commentMark ∉ Text.ofBytes front)
      (hword : ∃ s ∈ Text.ofBytes front, ¬Line.separates s) (hrun : run ≠ [] ∧ IsGap run)
      (hother : other ≠ [] ∧ IsGap other) :
      LineEdit (front ++ (run ++ back)) (front ++ (other ++ back))
  -- Another case for a letter of the first token.
  | recase {gap part back : Bytes} {a b : UInt8}
      (hline : IsInstruction (gap ++ (part ++ a :: back))) (hgap : IsGap gap)
      (hpart : ∀ s ∈ Text.ofBytes part, ¬Line.separates s ∧ s ≠ Line.commentMark)
      (hletter : SameLetter a b) :
      LineEdit (gap ++ (part ++ a :: back)) (gap ++ (part ++ b :: back))

theorem IsInstruction.exists_said {line : Bytes} (h : IsInstruction line) :
    ∃ mnemonic operands, said? line = some (.instruction mnemonic operands) := by
  obtain ⟨number, text, mnemonic, operands, hline⟩ := h
  rw [read?_ofBytes, Option.map_eq_some_iff] at hline
  obtain ⟨kind, hkind, heq⟩ := hline
  exact ⟨mnemonic, operands, by rw [hkind, (Line.mk.inj heq).2.2]⟩

-- The symbol that a byte below 80 stands for.
def ascii (a : UInt8) : Symbol :=
  .char (Char.ofNat a.toNat)

section Decoded

variable {gap comment : Bytes}

theorem IsBlank.isGap (h : IsBlank gap) : IsGap gap :=
  ⟨h.1, fun s hs => Line.separates_of_isBlank (h.2 s hs)⟩

theorem isBlank_nil : IsBlank [] := by
  simp [IsBlank]

-- Characters of a gap are whole, so the bytes around it are decoded on their own.
theorem ofBytes_gap_append (h : IsGap gap) (rest : Bytes) :
    Text.ofBytes (gap ++ rest) = Text.ofBytes gap ++ Text.ofBytes rest :=
  Text.ofBytes_append (.inl fun s hs => Line.exists_char_of_separates (h.2 s hs))

theorem ofBytes_append_gap (hne : gap ≠ []) (h : IsGap gap) (front back : Bytes) :
    Text.ofBytes (front ++ (gap ++ back)) =
      Text.ofBytes front ++ (Text.ofBytes gap ++ Text.ofBytes back) := by
  obtain ⟨a, rest, rfl⟩ := List.exists_cons_of_ne_nil hne
  have hmem : (Symbol.first a rest).1 ∈ Text.ofBytes (a :: rest) := by simp [Text.ofBytes_cons]
  have hfirst : ∃ c, (Symbol.first a rest).1 = .char c :=
    Line.exists_char_of_separates (h.2 _ hmem)
  rw [← ofBytes_gap_append h]
  apply Text.ofBytes_append
  right
  rw [ofBytes_gap_append h, Text.ofBytes_cons]
  simpa using hfirst

theorem ofBytes_append_ascii {a : UInt8} (h : a < 0x80) (front rest : Bytes) :
    Text.ofBytes (front ++ a :: rest) = Text.ofBytes front ++ ascii a :: Text.ofBytes rest := by
  have hcons : Text.ofBytes (a :: rest) = ascii a :: Text.ofBytes rest := by
    simp [Text.ofBytes_cons, Symbol.first, h, ascii]
  rw [Text.ofBytes_append (.inr (by simp [hcons, ascii])), hcons]

theorem IsBlank.append {other : Bytes} (h : IsBlank gap) (hother : IsBlank other) :
    IsBlank (gap ++ other) := by
  refine ⟨by simp [h.1, hother.1], ?_⟩
  rw [ofBytes_gap_append h.isGap]
  exact fun s hs => (List.mem_append.mp hs).elim (h.2 s) (hother.2 s)

-- White space and a comment behind a text are not read.
theorem content_append_tail (hgap : IsBlank gap) (hcomment : ∀ mark ∈ comment.head?, mark = 0x3B)
    (text : Bytes) :
    Line.content (Text.ofBytes (text ++ (gap ++ comment))) = Line.content (Text.ofBytes text) := by
  have hspace : Line.content (Text.ofBytes (text ++ gap)) = Line.content (Text.ofBytes text) := by
    by_cases hne : gap = []
    · rw [hne, List.append_nil]
    · have hsplit := ofBytes_append_gap hne hgap.isGap text []
      rw [List.append_nil, Text.ofBytes_nil, List.append_nil] at hsplit
      rw [hsplit, Line.content_append_right hgap.2]
  rw [← List.append_assoc]
  cases comment with
  | nil => rw [List.append_nil, hspace]
  | cons mark comment =>
    obtain rfl : mark = 0x3B := hcomment mark rfl
    rw [ofBytes_append_ascii (by decide)]
    exact (Line.content_append_comment _ _).trans hspace

end Decoded

theorem SaysNothing.said?_eq {line : Bytes} (h : SaysNothing line) : said? line = none := by
  obtain ⟨gap, comment, rfl, hgap, -, hcomment⟩ := h
  have hkept : (Text.ofBytes gap).takeWhile (· != Line.commentMark) = Text.ofBytes gap :=
    List.takeWhile_eq_self_iff.mpr fun s hs => Line.ne_commentMark_of_separates (hgap.2 s hs)
  have hcontent : Line.content (Text.ofBytes (gap ++ comment)) = Text.trim (Text.ofBytes gap) := by
    have htail := @content_append_tail [] comment isBlank_nil hcomment gap
    rw [List.nil_append] at htail
    rw [htail, Line.content, hkept]
  have hlabel : (Text.ofBytes gap).find? (!·.isBlank) ≠ some Line.labelMark := by
    intro hfound
    exact absurd (hgap.2 _ (List.mem_of_find?_eq_some hfound)) (by decide)
  have hwords := Text.words_append_left hgap.2 []
  rw [List.append_nil] at hwords
  rw [said?, hcontent, Line.kindOf?_trim hlabel, hwords]
  rfl

theorem SaysNothing.newline_notMem {line : Bytes} (h : SaysNothing line) : 0x0A ∉ line := by
  obtain ⟨gap, comment, rfl, hgap, hcomment, -⟩ := h
  simp [hgap.1, hcomment]

theorem letterCases_spec : ∀ n < 26, ∀ a ∈ letterCases n,
    a ≠ 0x0A ∧ a < 0x80 ∧ ¬Line.separates (ascii a) ∧ ascii a ≠ Line.commentMark ∧
      ascii a ≠ Line.labelMark ∧ (ascii a).upper = ascii (UInt8.ofNat (0x41 + n)) := by
  decide +kernel

-- A word goes on with a letter, whichever case it has.
theorem isWord_append_letter {part : Text} {n : Nat} {a : UInt8}
    (hpart : ∀ s ∈ part, ¬Line.separates s ∧ s ≠ Line.commentMark) (hn : n < 26)
    (ha : a ∈ letterCases n) : Line.IsWord (part ++ [ascii a]) := by
  obtain ⟨-, -, hseparates, hcomment, -⟩ := letterCases_spec n hn a ha
  refine ⟨by simp, ?_, ?_⟩
  · intro s hs
    rcases List.mem_append.mp hs with hs | hs
    · exact (hpart s hs).1
    · rwa [List.mem_singleton.mp hs]
  · intro s hs
    rcases List.mem_append.mp hs with hs | hs
    · exact (hpart s hs).2
    · rwa [List.mem_singleton.mp hs]

namespace LineEdit

variable {line other : Bytes}

-- An edit does not change what a line says.
theorem said?_eq (h : LineEdit line other) : said? other = said? line := by
  cases h with
  | @indent blank hblank =>
    rw [said?, ofBytes_gap_append hblank.isGap, Line.content_append_left hblank.2, said?]
  | @trail blank space comment hblank hspace hcomment text =>
    rw [said?, ← List.append_assoc blank, content_append_tail (hblank.append hspace) hcomment,
      said?, content_append_tail hspace hcomment]
  | @remark comment ending hcomment hending text =>
    have hremark : Line.content (Text.ofBytes (text ++ 0x3B :: (comment ++ ending))) =
        Line.content (Text.ofBytes text) :=
      content_append_tail isBlank_nil (by simp) text
    have hplain := @content_append_tail ending [] hending (by simp) text
    rw [List.append_nil] at hplain
    rw [said?, hremark, said?, hplain]
  | @respace front run other back hline hmark hword hrun hother =>
    obtain ⟨mnemonic, operands, hsaid⟩ := hline.exists_said
    rw [said?, ofBytes_append_gap hrun.1 hrun.2] at hsaid
    rw [said?, said?, ofBytes_append_gap hrun.1 hrun.2, ofBytes_append_gap hother.1 hother.2]
    exact Line.kindOf?_respace hmark hword ⟨Text.ofBytes_ne_nil hrun.1, hrun.2.2⟩
      ⟨Text.ofBytes_ne_nil hother.1, hother.2.2⟩ _ hsaid
  | @recase gap part back a b hline hgap hpart hletter =>
    obtain ⟨n, hn, ha, hb⟩ := hletter
    obtain ⟨-, hsmallA, -, -, -, hupperA⟩ := letterCases_spec n hn a ha
    obtain ⟨-, hsmallB, -, -, hlabelB, hupperB⟩ := letterCases_spec n hn b hb
    obtain ⟨mnemonic, operands, hsaid⟩ := hline.exists_said
    have hdecoded : ∀ {x : UInt8}, x < 0x80 → Text.ofBytes (gap ++ (part ++ x :: back)) =
        Text.ofBytes gap ++ ((Text.ofBytes part ++ [ascii x]) ++ Text.ofBytes back) := by
      intro x hx
      rw [ofBytes_gap_append hgap, ofBytes_append_ascii hx, List.append_assoc,
        List.singleton_append]
    rw [said?, hdecoded hsmallA] at hsaid
    rw [said?, said?, hdecoded hsmallA, hdecoded hsmallB]
    refine Line.kindOf?_recase hgap.2 (isWord_append_letter hpart hn ha)
      (isWord_append_letter hpart hn hb) ?_ ?_ _ hsaid
    · rw [Text.upper, List.map_append, Text.upper, List.map_append, List.map_singleton, hupperB,
        List.map_singleton, hupperA]
    · intro hmark
      cases hfirst : Text.ofBytes part with
      | nil => simp [hfirst, hlabelB] at hmark
      | cons s rest => simpa [hfirst] using hmark

-- An edited line is still one line.
theorem newline_notMem (h : LineEdit line other) (hline : 0x0A ∉ line) : 0x0A ∉ other := by
  cases h with
  | indent hblank => simp [hblank.1, hline]
  | trail hblank hspace hcomment text => simp_all [IsBlank]
  | remark hcomment hending text => simp_all [IsBlank]
  | respace _ _ _ hrun hother => simp_all [IsGap]
  | recase _ _ _ hletter =>
    obtain ⟨n, hn, -, hb⟩ := hletter
    have hfeed := (letterCases_spec n hn _ hb).1
    simp_all [Ne.symm hfeed]

end LineEdit

end Source

end TileConsole
