import TileConsole.Proofs.Source.Meaning

namespace TileConsole

namespace Source

-- Why a strict assembler cannot place a line behind others. An empty name is
-- never a second declaration.
inductive PlacingFlaw (mode : Mode) (before : List Line) (line : Line) : Defect → Prop
  | labelEmpty (hmode : mode = .strict) (hline : line.kind = .label []) :
    PlacingFlaw mode before line .labelEmpty
  | labelDuplicated (name : Text) (hmode : mode = .strict) (hline : line.kind = .label name)
    (hname : name ≠ []) (hbefore : ∃ other ∈ before, other.kind = .label name) :
    PlacingFlaw mode before line .labelDuplicated
  | unknownInstruction (mnemonic : Text) (operands : List Text) (hmode : mode = .strict)
    (hline : line.kind = .instruction mnemonic operands)
    (hop : Operation.ofMnemonic? mnemonic = none) :
    PlacingFlaw mode before line .unknownInstruction

-- What is wrong with an operand that an operation needs. A jump first looks for
-- a label.
inductive OperandFlaw (mode : Mode) (lines : List Line) (op : Operation) (word : Text) :
    Defect → Prop
  | notANumber (hlabel : op = .jump → address? lines word = none)
    (h : ¬∃ n, Numeral.Literal word n) :
    OperandFlaw mode lines op word (.notANumber word)
  | address (n : Nat) (hop : op = .jump) (h : address? lines word = some n) (hn : 0xFFFF < n) :
    OperandFlaw mode lines op word (.outOfRange n .word)
  | word (n : Int) (hshape : op.shape ≠ .byte) (hlabel : op = .jump → address? lines word = none)
    (h : Numeral.Literal word n) (hn : ¬(0 ≤ n ∧ n ≤ 0xFFFF)) :
    OperandFlaw mode lines op word (.outOfRange n .word)
  | byte (n : Int) (hmode : mode = .strict) (hshape : op.shape = .byte)
    (h : Numeral.Literal word n) (hn : ¬(0 ≤ n ∧ n ≤ 0xFF)) :
    OperandFlaw mode lines op word (.outOfRange n .byte)

-- The first check that a statement fails: the number of its operands, then the
-- operands from left to right.
inductive StatementFlaw (mode : Mode) (lines : List Line) (statement : Statement) : Defect → Prop
  | operandMissing (h : statement.operands.length < statement.op.shape.operands) :
    StatementFlaw mode lines statement .operandMissing
  | extraOperands (hmode : mode = .strict)
    (h : statement.op.shape.operands < statement.operands.length) :
    StatementFlaw mode lines statement .extraOperands
  | operand (before after : List Text) (word : Text) (defect : Defect)
    (hfew : ¬statement.operands.length < statement.op.shape.operands)
    (hmany : ¬(mode = .strict ∧ statement.op.shape.operands < statement.operands.length))
    (hsplit : statement.operands.take statement.op.shape.operands = before ++ word :: after)
    (hbefore : ∀ other ∈ before, ∀ found, ¬OperandFlaw mode lines statement.op other found)
    (h : OperandFlaw mode lines statement.op word defect) :
    StatementFlaw mode lines statement defect

-- What is wrong with the statement of a line.
def EncodingFlaw (mode : Mode) (lines : List Line) (line : Line) (defect : Defect) : Prop :=
  ∃ statement, line.statement? = some statement ∧ StatementFlaw mode lines statement defect

-- No line has a flaw. What is a flaw may depend on the lines before it.
def Flawless (flaw : List Line → Line → Defect → Prop) (lines : List Line) : Prop :=
  ∀ before line after, lines = before ++ line :: after → ∀ defect, ¬flaw before line defect

-- A line with a flaw behind others without one.
def FirstFlaw (flaw : List Line → Line → Defect → Prop) (lines : List Line) (line : Line)
    (defect : Defect) : Prop :=
  ∃ before after, lines = before ++ line :: after ∧ flaw before line defect ∧ Flawless flaw before

-- Some line cannot be placed by a strict assembler: it declares an empty label,
-- declares a label again or has an unknown mnemonic.
def Unplaceable (lines : List Line) : Prop :=
  ∃ before line after, lines = before ++ line :: after ∧
    (line.kind = .label [] ∨
      (∃ name, line.kind = .label name ∧ ∃ other ∈ before, other.kind = .label name) ∨
      ∃ mnemonic operands, line.kind = .instruction mnemonic operands ∧
        Operation.ofMnemonic? mnemonic = none)

-- Some statement cannot be encoded: it has too few operands, a strict assembler
-- finds too many, or a needed operand has a flaw.
def Unencodable (mode : Mode) (lines : List Line) : Prop :=
  ∃ statement ∈ statements lines,
    statement.operands.length < statement.op.shape.operands ∨
    (mode = .strict ∧ statement.op.shape.operands < statement.operands.length) ∨
    ∃ word ∈ statement.operands.take statement.op.shape.operands, ∃ defect,
      OperandFlaw mode lines statement.op word defect

section FirstFlaw

variable {flaw : List Line → Line → Defect → Prop}

theorem flawless_nil : Flawless flaw [] := by
  intro before line after hsplit
  simp at hsplit

theorem flawless_cons (line : Line) (rest : List Line) :
    Flawless flaw (line :: rest) ↔
      (∀ defect, ¬flaw [] line defect) ∧ Flawless (fun before => flaw (line :: before)) rest := by
  constructor
  · intro h
    exact ⟨h [] line rest rfl, fun before other after hsplit =>
      h (line :: before) other after (congrArg _ hsplit)⟩
  · rintro ⟨hline, hrest⟩ before other after hsplit
    cases before with
    | nil =>
      obtain ⟨rfl, -⟩ := List.cons.inj hsplit
      exact hline
    | cons first before =>
      obtain ⟨rfl, htail⟩ := List.cons.inj hsplit
      exact hrest before other after htail

theorem not_firstFlaw_nil (line : Line) (defect : Defect) : ¬FirstFlaw flaw [] line defect := by
  rintro ⟨before, after, hsplit, -⟩
  simp at hsplit

theorem firstFlaw_cons (line other : Line) (rest : List Line) (defect : Defect) :
    FirstFlaw flaw (line :: rest) other defect ↔
      (other = line ∧ flaw [] line defect) ∨
      ((∀ found, ¬flaw [] line found) ∧
        FirstFlaw (fun before => flaw (line :: before)) rest other defect) := by
  constructor
  · rintro ⟨before, after, hsplit, hflaw, hbefore⟩
    cases before with
    | nil =>
      obtain ⟨rfl, -⟩ := List.cons.inj hsplit
      exact .inl ⟨rfl, hflaw⟩
    | cons first before =>
      obtain ⟨rfl, htail⟩ := List.cons.inj hsplit
      obtain ⟨hline, hclean⟩ := (flawless_cons line before).mp hbefore
      exact .inr ⟨hline, before, after, htail, hflaw, hclean⟩
  · rintro (⟨rfl, hflaw⟩ | ⟨hline, before, after, hsplit, hflaw, hbefore⟩)
    · exact ⟨[], rest, rfl, hflaw, flawless_nil⟩
    · exact ⟨line :: before, after, congrArg _ hsplit, hflaw,
        (flawless_cons line before).mpr ⟨hline, hbefore⟩⟩

-- Lines with a flaw have a first one.
theorem flawless_iff (lines : List Line) :
    Flawless flaw lines ↔ ∀ line defect, ¬FirstFlaw flaw lines line defect := by
  induction lines generalizing flaw with
  | nil => exact ⟨fun _ => not_firstFlaw_nil, fun _ => flawless_nil⟩
  | cons line rest ih =>
    simp only [flawless_cons, firstFlaw_cons, ih]
    constructor
    · rintro ⟨hline, hrest⟩ other defect (⟨-, hflaw⟩ | ⟨-, hfirst⟩)
      · exact hline defect hflaw
      · exact hrest other defect hfirst
    · intro h
      have hline : ∀ defect, ¬flaw [] line defect := fun defect hflaw =>
        h line defect (.inl ⟨rfl, hflaw⟩)
      exact ⟨hline, fun other defect hfirst => h other defect (.inr ⟨hline, hfirst⟩)⟩

theorem not_flawless_iff (lines : List Line) :
    ¬Flawless flaw lines ↔ ∃ line defect, FirstFlaw flaw lines line defect := by
  simp only [flawless_iff, Classical.not_forall, Classical.not_not]

end FirstFlaw

theorem exists_placingFlaw_iff (mode : Mode) (before : List Line) (line : Line) :
    (∃ defect, PlacingFlaw mode before line defect) ↔ mode = .strict ∧
      (line.kind = .label [] ∨
        (∃ name, line.kind = .label name ∧ ∃ other ∈ before, other.kind = .label name) ∨
        ∃ mnemonic operands, line.kind = .instruction mnemonic operands ∧
          Operation.ofMnemonic? mnemonic = none) := by
  constructor
  · rintro ⟨defect, hflaw⟩
    cases hflaw with
    | labelEmpty hmode hline => exact ⟨hmode, .inl hline⟩
    | labelDuplicated name hmode hline _ hbefore =>
      exact ⟨hmode, .inr (.inl ⟨name, hline, hbefore⟩)⟩
    | unknownInstruction mnemonic operands hmode hline hop =>
      exact ⟨hmode, .inr (.inr ⟨mnemonic, operands, hline, hop⟩)⟩
  · rintro ⟨hmode, hline | ⟨name, hline, hbefore⟩ | ⟨mnemonic, operands, hline, hop⟩⟩
    · exact ⟨_, .labelEmpty hmode hline⟩
    · by_cases hname : name = []
      · exact ⟨_, .labelEmpty hmode (hname ▸ hline)⟩
      · exact ⟨_, .labelDuplicated name hmode hline hname hbefore⟩
    · exact ⟨_, .unknownInstruction mnemonic operands hmode hline hop⟩

theorem not_flawless_placing_iff (mode : Mode) (lines : List Line) :
    ¬Flawless (PlacingFlaw mode) lines ↔ mode = .strict ∧ Unplaceable lines := by
  simp only [Flawless, Classical.not_forall, Classical.not_not]
  constructor
  · rintro ⟨before, line, after, hsplit, hflaw⟩
    obtain ⟨hmode, hline⟩ := (exists_placingFlaw_iff mode before line).mp hflaw
    exact ⟨hmode, before, line, after, hsplit, hline⟩
  · rintro ⟨hmode, before, line, after, hsplit, hline⟩
    exact ⟨before, line, after, hsplit,
      (exists_placingFlaw_iff mode before line).mpr ⟨hmode, hline⟩⟩

theorem exists_leftmost {words : List Text} {p : Text → Prop} (h : ∃ word ∈ words, p word) :
    ∃ before word after, words = before ++ word :: after ∧ (∀ other ∈ before, ¬p other) ∧
      p word := by
  induction words with
  | nil => simp at h
  | cons first rest ih =>
    by_cases hfirst : p first
    · exact ⟨[], first, rest, rfl, by simp, hfirst⟩
    · obtain ⟨word, hword, hp⟩ := h
      rcases List.mem_cons.mp hword with rfl | hrest
      · exact absurd hp hfirst
      · obtain ⟨before, found, after, rfl, hbefore, hfound⟩ := ih ⟨word, hrest, hp⟩
        exact ⟨first :: before, found, after, rfl,
          List.forall_mem_cons.mpr ⟨hfirst, hbefore⟩, hfound⟩

-- Among operands with flaws there is a leftmost one, so the order of the checks
-- does not matter for whether one fails.
theorem exists_statementFlaw_iff (mode : Mode) (lines : List Line) (statement : Statement) :
    (∃ defect, StatementFlaw mode lines statement defect) ↔
      statement.operands.length < statement.op.shape.operands ∨
      (mode = .strict ∧ statement.op.shape.operands < statement.operands.length) ∨
      ∃ word ∈ statement.operands.take statement.op.shape.operands, ∃ defect,
        OperandFlaw mode lines statement.op word defect := by
  constructor
  · rintro ⟨defect, hflaw⟩
    cases hflaw with
    | operandMissing hfew => exact .inl hfew
    | extraOperands hmode hmany => exact .inr (.inl ⟨hmode, hmany⟩)
    | operand before after word _ _ _ hsplit _ hword =>
      exact .inr (.inr ⟨word, by simp [hsplit], defect, hword⟩)
  · intro h
    by_cases hfew : statement.operands.length < statement.op.shape.operands
    · exact ⟨_, .operandMissing hfew⟩
    by_cases hmany : mode = .strict ∧ statement.op.shape.operands < statement.operands.length
    · exact ⟨_, .extraOperands hmany.1 hmany.2⟩
    obtain ⟨before, word, after, hsplit, hbefore, defect, hword⟩ :=
      exists_leftmost ((h.resolve_left hfew).resolve_left hmany)
    exact ⟨defect, .operand before after word defect hfew hmany hsplit
      (fun other hother found hflaw => hbefore other hother ⟨found, hflaw⟩) hword⟩

theorem not_flawless_encoding_iff (mode : Mode) (lines : List Line) :
    ¬Flawless (fun _ => EncodingFlaw mode lines) lines ↔ Unencodable mode lines := by
  simp only [Flawless, Classical.not_forall, Classical.not_not, Unencodable,
    ← exists_statementFlaw_iff]
  constructor
  · rintro ⟨before, line, after, hsplit, defect, statement, hstatement, hflaw⟩
    refine ⟨statement, List.mem_filterMap.mpr ⟨line, ?_, hstatement⟩, defect, hflaw⟩
    simp [hsplit]
  · rintro ⟨statement, hmem, defect, hflaw⟩
    obtain ⟨line, hline, hstatement⟩ := List.mem_filterMap.mp hmem
    obtain ⟨before, after, hsplit⟩ := List.append_of_mem hline
    exact ⟨before, line, after, hsplit, defect, statement, hstatement, hflaw⟩

end Source

open Source

namespace Layout

variable {layout : Layout} {context : List Line}

theorem contains_iff (h : empty.Follows context layout) (name : Text) :
    layout.labels.contains name ↔ ∃ other ∈ context, other.kind = .label name := by
  have hempty : empty.labels.find? name = none := rfl
  rw [Labels.contains, h.labels, hempty, Option.or_none, Option.isSome_map]
  constructor
  · intro hsome
    obtain ⟨before, hbefore⟩ := Option.isSome_iff_exists.mp hsome
    obtain ⟨line, after, rfl, hline, -⟩ := (beforeLabel?_eq_some_iff name context before).mp hbefore
    exact ⟨line, by simp, hline⟩
  · rintro ⟨other, hother, hkind⟩
    cases hfound : beforeLabel? name context with
    | some before => rfl
    | none => exact absurd hkind ((beforeLabel?_eq_none_iff name context).mp hfound other hother)

-- A line is refused for its flaw behind the lines that have been placed.
theorem place_eq_some_iff (mode : Mode) (h : empty.Follows context layout) (line : Line)
    (defect : Defect) :
    (layout.place mode line).2 = some defect ↔ PlacingFlaw mode context line defect := by
  have hcontains := contains_iff h
  rcases line with ⟨number, text, kind⟩
  constructor
  · intro hplace
    cases kind with
    | label name =>
      simp only [place] at hplace
      split at hplace
      case isTrue hempty =>
        obtain ⟨rfl, rfl⟩ := hempty
        obtain rfl := Option.some.inj hplace
        exact .labelEmpty rfl rfl
      case isFalse hempty =>
        split at hplace
        case isTrue hknown =>
          obtain ⟨rfl, hknown⟩ := hknown
          obtain rfl := Option.some.inj hplace
          exact .labelDuplicated name rfl rfl (fun hname => hempty ⟨rfl, hname⟩)
            ((hcontains name).mp hknown)
        case isFalse => cases hplace
    | instruction mnemonic operands =>
      cases hop : Operation.ofMnemonic? mnemonic with
      | some op => simp [place, hop] at hplace
      | none =>
        simp only [place, hop, Option.ite_none_right_eq_some, Option.some.injEq] at hplace
        obtain ⟨rfl, rfl⟩ := hplace
        exact .unknownInstruction mnemonic operands rfl rfl hop
    | other => cases hplace
  · intro hflaw
    cases hflaw with
    | labelEmpty hmode hline =>
      obtain rfl : kind = .label [] := hline
      simp [place, hmode]
    | labelDuplicated name hmode hline hname hbefore =>
      obtain rfl : kind = .label name := hline
      simp [place, hmode, hname, (hcontains name).mpr hbefore]
    | unknownInstruction mnemonic operands hmode hline hop =>
      obtain rfl : kind = .instruction mnemonic operands := hline
      simp [place, hmode, hop]

-- The first pass stops at the first line that cannot be placed.
theorem extend_eq_some_iff (mode : Mode) (lines : List Line) (h : empty.Follows context layout)
    (error : SourceError) :
    (layout.extend mode lines).2 = some error ↔
      ∃ line defect,
        FirstFlaw (fun before => PlacingFlaw mode (context ++ before)) lines line defect ∧
          error = ⟨line.number, line.text, defect⟩ := by
  induction lines generalizing layout context with
  | nil => simp [extend, not_firstFlaw_nil]
  | cons line rest ih =>
    have hplace := place_eq_some_iff mode h line
    rw [extend]
    simp only [firstFlaw_cons, List.append_nil, ← hplace]
    rcases hline : layout.place mode line with ⟨next, _ | found⟩
    · have hnext := h.trans (place_follows hline)
      simp [ih hnext]
    · constructor
      · intro herror
        exact ⟨line, found, .inl ⟨rfl, rfl⟩, (Option.some.inj herror).symm⟩
      · rintro ⟨other, defect, (⟨rfl, hdefect⟩ | ⟨hnone, -⟩), rfl⟩
        · obtain rfl := Option.some.inj hdefect
          rfl
        · exact absurd rfl (hnone found)

theorem ofLines_eq_some_iff (mode : Mode) (lines : List Line) (error : SourceError) :
    (ofLines mode lines).2 = some error ↔ ∃ line defect,
      FirstFlaw (PlacingFlaw mode) lines line defect ∧
        error = ⟨line.number, line.text, defect⟩ :=
  extend_eq_some_iff mode lines (follows_nil empty) error

theorem ofLines_eq_none_iff (mode : Mode) (lines : List Line) :
    (ofLines mode lines).2 = none ↔ Flawless (PlacingFlaw mode) lines := by
  rw [flawless_iff, Option.eq_none_iff_forall_ne_some]
  constructor
  · intro h line defect hfirst
    exact h _ ((ofLines_eq_some_iff mode lines _).mpr ⟨line, defect, hfirst, rfl⟩)
  · intro h error herror
    obtain ⟨line, defect, hfirst, -⟩ := (ofLines_eq_some_iff mode lines error).mp herror
    exact h line defect hfirst

end Layout

namespace Encoding

section Operands

variable {mode : Mode} {labels : Labels} {lines : List Line} {op : Operation} {word : Text}

theorem number_eq_error_iff (defect : Defect) :
    number word = .error defect ↔ (¬∃ n, Numeral.Literal word n) ∧ defect = .notANumber word := by
  rw [← Numeral.parse?_eq_none_iff, number]
  cases Numeral.parse? word with
  | none => simp [eq_comm]
  | some n => simp

theorem byteOperand_eq_error_iff (hshape : op.shape = .byte) (defect : Defect) :
    byteOperand mode word = .error defect ↔ OperandFlaw mode lines op word defect := by
  have hjump : op ≠ .jump := by
    rintro rfl
    cases hshape
  rw [byteOperand]
  constructor
  · intro h
    cases hn : number word with
    | error found =>
      obtain ⟨hword, rfl⟩ := (number_eq_error_iff found).mp hn
      rw [hn] at h
      obtain rfl := Except.error.inj h
      exact .notANumber (fun hop => absurd hop hjump) hword
    | ok n =>
      simp only [hn] at h
      split at h
      case isTrue hrange =>
        obtain rfl := Except.error.inj h
        exact .byte n hrange.1 hshape (number_eq_ok_iff.mp hn) hrange.2
      case isFalse => cases h
  · intro hflaw
    cases hflaw with
    | notANumber _ hword => rw [(number_eq_error_iff _).mpr ⟨hword, rfl⟩]
    | address _ hop => exact absurd hop hjump
    | word _ hword => exact absurd hshape hword
    | byte n hmode _ hn hrange =>
      rw [number_eq_ok_iff.mpr hn]
      exact if_pos ⟨hmode, hrange⟩

theorem wordOperand_eq_error_iff (mode : Mode) (hshape : op.shape ≠ .byte)
    (hlabel : op = .jump → address? lines word = none) (defect : Defect) :
    wordOperand word = .error defect ↔ OperandFlaw mode lines op word defect := by
  rw [wordOperand]
  constructor
  · intro h
    cases hn : number word with
    | error found =>
      obtain ⟨hword, rfl⟩ := (number_eq_error_iff found).mp hn
      rw [hn] at h
      obtain rfl := Except.error.inj h
      exact .notANumber hlabel hword
    | ok n =>
      simp only [hn] at h
      split at h
      case isTrue => cases h
      case isFalse hrange =>
        obtain rfl := Except.error.inj h
        exact .word n hshape hlabel (number_eq_ok_iff.mp hn) hrange
  · intro hflaw
    cases hflaw with
    | notANumber _ hword => rw [(number_eq_error_iff _).mpr ⟨hword, rfl⟩]
    | address n hop haddress =>
      rw [hlabel hop] at haddress
      cases haddress
    | word n _ _ hn hrange =>
      rw [number_eq_ok_iff.mpr hn]
      exact if_neg hrange
    | byte _ _ hbyte => exact absurd hbyte hshape

theorem targetOperand_eq_error_iff (mode : Mode) (hlabels : Located lines labels)
    (defect : Defect) :
    targetOperand labels word = .error defect ↔ OperandFlaw mode lines .jump word defect := by
  rw [targetOperand, targetLabel?_eq hlabels]
  cases haddress : address? lines word with
  | none => exact wordOperand_eq_error_iff mode (by decide) (fun _ => haddress) defect
  | some address =>
    rw [Option.map_some]
    dsimp only
    constructor
    · intro h
      split at h
      case isTrue => cases h
      case isFalse hrange =>
        obtain rfl := Except.error.inj h
        exact .address address rfl haddress (by omega)
    · intro hflaw
      cases hflaw with
      | notANumber hlabel =>
        rw [hlabel rfl] at haddress
        cases haddress
      | address n _ hn hrange =>
        obtain rfl := Option.some.inj (haddress.symm.trans hn)
        exact if_neg (by omega)
      | word _ _ hlabel =>
        rw [hlabel rfl] at haddress
        cases haddress
      | byte _ _ hbyte => cases hbyte

-- An operand fails to be encoded for its flaw.
theorem operand_eq_error_iff (mode : Mode) (hlabels : Located lines labels) (op : Operation)
    (word : Text) (defect : Defect) :
    operand mode labels op word = .error defect ↔ OperandFlaw mode lines op word defect := by
  rw [operand]
  split
  case isTrue hjump =>
    subst hjump
    exact targetOperand_eq_error_iff mode hlabels defect
  case isFalse hjump =>
    split
    case isTrue hbyte => exact byteOperand_eq_error_iff hbyte defect
    case isFalse hbyte =>
      exact wordOperand_eq_error_iff mode hbyte (fun hop => absurd hop hjump) defect

end Operands

theorem join_eq_some_iff (results : List (Except Defect Bytes)) (defect : Defect) :
    (join results).2 = some defect ↔ ∃ before after, results = before ++ .error defect :: after ∧
      ∀ result ∈ before, ∀ found, result ≠ .error found := by
  induction results with
  | nil => simp [join]
  | cons result rest ih =>
    cases result with
    | error found =>
      simp only [join]
      constructor
      · intro h
        obtain rfl := Option.some.inj h
        exact ⟨[], rest, rfl, by simp⟩
      · rintro ⟨before, after, hsplit, hbefore⟩
        cases before with
        | nil =>
          obtain ⟨hfound, -⟩ := List.cons.inj hsplit
          rw [Except.error.inj hfound]
        | cons first before =>
          obtain ⟨rfl, -⟩ := List.cons.inj hsplit
          exact absurd rfl (hbefore _ (by simp) found)
    | ok bytes =>
      simp only [join, ih]
      constructor
      · rintro ⟨before, after, rfl, hbefore⟩
        exact ⟨.ok bytes :: before, after, rfl, List.forall_mem_cons.mpr ⟨by simp, hbefore⟩⟩
      · rintro ⟨before, after, hsplit, hbefore⟩
        cases before with
        | nil =>
          obtain ⟨hfound, -⟩ := List.cons.inj hsplit
          cases hfound
        | cons first before =>
          obtain ⟨rfl, htail⟩ := List.cons.inj hsplit
          exact ⟨before, after, htail, fun result hresult => hbefore result (by simp [hresult])⟩

-- A statement is refused for the first check that it fails.
theorem encode_eq_some_iff (mode : Mode) {labels : Labels} {lines : List Line}
    (hlabels : Located lines labels) (statement : Statement) (defect : Defect) :
    (encode mode labels statement.op statement.operands).2 = some defect ↔
      StatementFlaw mode lines statement defect := by
  have hoperand := operand_eq_error_iff mode hlabels statement.op
  rw [encode]
  constructor
  · intro h
    split at h
    case isTrue hfew =>
      obtain rfl := Option.some.inj h
      exact .operandMissing hfew
    case isFalse hfew =>
      split at h
      case isTrue hmany =>
        obtain rfl := Option.some.inj h
        exact .extraOperands hmany.1 hmany.2
      case isFalse hmany =>
        obtain ⟨start, rest, hresults, hstart⟩ := (join_eq_some_iff _ _).mp h
        obtain ⟨before, tail, hsplit, rfl, htail⟩ := List.map_eq_append_iff.mp hresults
        obtain ⟨word, after, rfl, hword, -⟩ := List.map_eq_cons_iff.mp htail
        have hflaw := (hoperand word defect).mp hword
        refine .operand before after word defect hfew hmany hsplit ?_ hflaw
        intro other hother found hflaw
        exact hstart _ (List.mem_map_of_mem hother) found ((hoperand other found).mpr hflaw)
  · intro hflaw
    cases hflaw with
    | operandMissing hfew => rw [if_pos hfew]
    | extraOperands hmode hmany => rw [if_neg (by omega), if_pos ⟨hmode, hmany⟩]
    | operand before after word _ hfew hmany hsplit hbefore hword =>
      rw [if_neg hfew, if_neg hmany]
      refine (join_eq_some_iff _ _).mpr ⟨before.map (operand mode labels statement.op),
        after.map (operand mode labels statement.op), ?_, ?_⟩
      · rw [hsplit, List.map_append, List.map_cons, (hoperand word defect).mpr hword]
      · intro result hresult found hfound
        obtain ⟨other, hother, rfl⟩ := List.mem_map.mp hresult
        exact hbefore other hother found ((hoperand other found).mp hfound)

theorem outcome_eq_some_iff (mode : Mode) {labels : Labels} {lines : List Line}
    (hlabels : Located lines labels) {line : Line} {inst : Instruction}
    (hinst : inst.statement? = line.statement?) (defect : Defect) :
    (outcome mode labels inst).2 = some defect ↔ EncodingFlaw mode lines line defect := by
  rw [outcome, EncodingFlaw, hinst]
  cases line.statement? with
  | none => simp
  | some statement => simp [encode_eq_some_iff mode hlabels]

-- The second pass stops at the first line whose statement has a flaw. The lines
-- that are left may be fewer than those that declare the labels.
theorem failure_extend_placed (mode : Mode) {labels : Labels} {source : List Line}
    (hlabels : Located source labels) (lines : List Line) (done : Array Instruction)
    (offset : Nat) (failure : EncodingFailure) :
    (extend mode labels done offset (placed offset lines)).failure = some failure ↔
      ∃ line defect, FirstFlaw (fun _ => EncodingFlaw mode source) lines line defect ∧
        failure = .rejected ⟨line.number, line.text, defect⟩ := by
  induction lines generalizing done offset with
  | nil => simp [placed, extend, not_firstFlaw_nil]
  | cons line rest ih =>
    simp only [firstFlaw_cons]
    rcases placed_cons_cases offset line rest with
      ⟨heq, hnone⟩ | ⟨inst, heq, hinst, hnumber, htext, hoffset⟩
    · have hclean : ∀ defect, ¬EncodingFlaw mode source line defect := by
        rintro defect ⟨statement, hstatement, -⟩
        rw [hnone] at hstatement
        cases hstatement
      simp [heq, ih, hclean]
    · rw [heq, extend_cons fun _ => hoffset]
      simp only [← outcome_eq_some_iff mode hlabels hinst]
      cases hfound : (outcome mode labels inst).2 with
      | none => simp [ih]
      | some found =>
        constructor
        · intro h
          refine ⟨line, found, .inl ⟨rfl, rfl⟩, ?_⟩
          rw [← hnumber, ← htext]
          exact (Option.some.inj h).symm
        · rintro ⟨other, defect, (⟨rfl, hdefect⟩ | ⟨hnone, -⟩), rfl⟩
          · obtain rfl := Option.some.inj hdefect
            rw [hnumber, htext]
          · exact absurd rfl (hnone found)

end Encoding

namespace Assembly

section Rejected

variable {mode : Mode} {lines : List Line} {layout : Layout}

theorem ofLines_eq_error_iff_of_refused {found : SourceError}
    (hlayout : Layout.ofLines mode lines = (layout, some found)) (error : AssemblyError) :
    ofLines mode lines = .error error ↔ error = .rejected found := by
  rw [ofLines, hlayout]
  exact ⟨fun h => (Except.error.inj h).symm, fun h => h ▸ rfl⟩

theorem ofLines_eq_error_iff_of_placed (hlayout : Layout.ofLines mode lines = (layout, none))
    (error : AssemblyError) :
    ofLines mode lines = .error error ↔ ∃ line defect,
      error = .rejected ⟨line.number, line.text, defect⟩ ∧
        FirstFlaw (fun _ => EncodingFlaw mode lines) lines line defect := by
  obtain ⟨hinsts, -, hlabels⟩ := Layout.ofLines_spec hlayout
  have hfailure := Encoding.failure_extend_placed mode hlabels lines #[] 0
  rw [ofLines, hlayout]
  simp only [hinsts, Encoding.ofInstructions]
  cases hencoding : (Encoding.extend mode layout.labels #[] 0 (placed 0 lines)).failure with
  | none =>
    have hclean : ∀ line defect,
        ¬FirstFlaw (fun _ => EncodingFlaw mode lines) lines line defect := by
      intro line defect hfirst
      have hsome := (hfailure _).mpr ⟨line, defect, hfirst, rfl⟩
      rw [hencoding] at hsome
      cases hsome
    simp [hclean]
  | some failure =>
    obtain ⟨line, defect, hfirst, rfl⟩ := (hfailure failure).mp hencoding
    constructor
    · intro h
      exact ⟨line, defect, (Except.error.inj h).symm, hfirst⟩
    · rintro ⟨other, found, rfl, hother⟩
      have hsome := (hfailure _).mpr ⟨other, found, hother, rfl⟩
      rw [hencoding] at hsome
      rw [EncodingFailure.rejected.inj (Option.some.inj hsome)]

end Rejected

-- The first pass is completed before the second begins, so a line that cannot be
-- placed is reported even when an earlier one cannot be encoded.
theorem ofLines_eq_error_iff (mode : Mode) (lines : List Line) (error : AssemblyError) :
    ofLines mode lines = .error error ↔ ∃ line defect,
      error = .rejected ⟨line.number, line.text, defect⟩ ∧
        (FirstFlaw (PlacingFlaw mode) lines line defect ∨
          Flawless (PlacingFlaw mode) lines ∧
            FirstFlaw (fun _ => EncodingFlaw mode lines) lines line defect) := by
  have hplacing := Layout.ofLines_eq_some_iff mode lines
  have hplaced := Layout.ofLines_eq_none_iff mode lines
  rcases hlayout : Layout.ofLines mode lines with ⟨layout, _ | found⟩
  · have hclean := hplaced.mp (congrArg Prod.snd hlayout)
    have hnone := (flawless_iff lines).mp hclean
    simp only [ofLines_eq_error_iff_of_placed hlayout, hclean, hnone, true_and, false_or]
  · obtain ⟨line, defect, hfirst, rfl⟩ := (hplacing found).mp (congrArg Prod.snd hlayout)
    rw [ofLines_eq_error_iff_of_refused hlayout]
    constructor
    · rintro rfl
      exact ⟨line, defect, rfl, .inl hfirst⟩
    · rintro ⟨other, found, rfl, hother | ⟨hclean, -⟩⟩
      · have hsome := (hplacing _).mpr ⟨other, found, hother, rfl⟩
        rw [hlayout] at hsome
        rw [Option.some.inj hsome]
      · exact absurd hfirst ((flawless_iff lines).mp hclean line defect)

-- A source is rejected exactly when a line cannot be placed or a statement cannot
-- be encoded. The error names the first line that the first pass refuses, else
-- the first that the second pass refuses, with the first check that fails there.
theorem ofStream_rejects (mode : Mode) (bytes : Bytes) :
    let lines := Line.readAll (Text.ofBytes bytes)
    let result := ofStream mode (.whole bytes)
    ((∃ error, result = .error (.rejected error)) ↔
      (mode = .strict ∧ Unplaceable lines) ∨ Unencodable mode lines) ∧
    ∀ error, result = .error error ↔ ∃ line defect,
      error = .rejected ⟨line.number, line.text, defect⟩ ∧
        (FirstFlaw (PlacingFlaw mode) lines line defect ∨
          Flawless (PlacingFlaw mode) lines ∧
            FirstFlaw (fun _ => EncodingFlaw mode lines) lines line defect) := by
  intro lines result
  have herror : ∀ error, result = .error error ↔ _ := ofLines_eq_error_iff mode lines
  refine ⟨?_, herror⟩
  rw [← not_flawless_placing_iff, ← not_flawless_encoding_iff, not_flawless_iff, not_flawless_iff]
  constructor
  · rintro ⟨error, h⟩
    obtain ⟨line, defect, -, hfirst | ⟨-, hfirst⟩⟩ := (herror _).mp h
    · exact .inl ⟨line, defect, hfirst⟩
    · exact .inr ⟨line, defect, hfirst⟩
  · intro h
    by_cases hplacing : Flawless (PlacingFlaw mode) lines
    · have hnone := (flawless_iff lines).mp hplacing
      rcases h with ⟨line, defect, hfirst⟩ | ⟨line, defect, hfirst⟩
      · exact absurd hfirst (hnone line defect)
      · exact ⟨_, (herror _).mpr ⟨line, defect, rfl, .inr ⟨hplacing, hfirst⟩⟩⟩
    · obtain ⟨line, defect, hfirst⟩ := (not_flawless_iff lines).mp hplacing
      exact ⟨_, (herror _).mpr ⟨line, defect, rfl, .inl hfirst⟩⟩

-- The second line is reported, though the first has no operand.
example : (match ofStream .strict (.whole (Text.toBytes "SET_X\nFOO")) with
    | .error error => some error
    | .ok _ => none) = some (.rejected ⟨2, "FOO", .unknownInstruction⟩) := by
  decide +kernel

end Assembly

end TileConsole
