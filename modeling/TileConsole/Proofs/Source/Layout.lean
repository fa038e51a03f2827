import TileConsole.Proofs.Source.Statements

namespace TileConsole

open Source

namespace Layout

-- What placing lines after a layout comes to. A label that the lines declare
-- has the offset of its last declaration, any other label keeps its own.
structure Follows (layout : Layout) (lines : List Line) (next : Layout) : Prop where
  instructions : next.instructions.toList = layout.instructions.toList ++ placed layout.size lines
  size : next.size = layout.size + codeSize lines
  labels : ∀ name, next.labels.find? name =
    ((beforeLabel? name lines).map fun before => ((layout.size + codeSize before : Nat) : Int)).or
      (layout.labels.find? name)

theorem follows_nil (layout : Layout) : layout.Follows [] layout :=
  ⟨by simp [placed], by simp, fun name => by simp [beforeLabel?]⟩

theorem Follows.trans {layout middle next : Layout} {lines others : List Line}
    (first : layout.Follows lines middle) (second : middle.Follows others next) :
    layout.Follows (lines ++ others) next := by
  constructor
  · rw [second.instructions, first.instructions, first.size, placed_append, List.append_assoc]
  · rw [second.size, first.size, codeSize_append, Nat.add_assoc]
  · intro name
    rw [second.labels, first.labels, first.size, beforeLabel?_append]
    cases beforeLabel? name others <;> simp [Nat.add_assoc]

-- A line that is placed without a defect does what its kind says, whatever the
-- mode is.
theorem place_follows {mode : Mode} {layout next : Layout} {line : Line}
    (h : layout.place mode line = (next, none)) : layout.Follows [line] next := by
  rcases line with ⟨number, text, kind⟩
  cases kind with
  | label name =>
    simp only [place] at h
    split at h
    · simp at h
    · split at h
      · simp at h
      · obtain rfl := (Prod.mk.inj h).1
        constructor
        · simp [placed, Line.instruction?]
        · simp [codeSize_singleton, Line.statement?]
        · intro other
          rw [Labels.find?_insert]
          by_cases same : name = other <;> simp [beforeLabel?, same]
  | instruction mnemonic operands =>
    cases hop : Operation.ofMnemonic? mnemonic with
    | some op =>
      simp only [place, hop, Prod.mk.injEq, and_true] at h
      subst h
      constructor
      · simp [placed, Line.instruction?]
      · simp [codeSize_singleton, Line.statement?, hop]
      · intro other
        simp [beforeLabel?]
    | none =>
      simp only [place, hop, Prod.mk.injEq] at h
      obtain ⟨rfl, -⟩ := h
      constructor
      · simp [placed, Line.instruction?]
      · simp [codeSize_singleton, Line.statement?, hop]
      · intro other
        simp [beforeLabel?]
  | other =>
    obtain rfl := (Prod.mk.inj h).1
    constructor
    · simp [placed, Line.instruction?]
    · simp [codeSize_singleton, Line.statement?]
    · intro name
      simp [beforeLabel?]

theorem extend_follows {mode : Mode} {layout next : Layout} {lines : List Line}
    (h : layout.extend mode lines = (next, none)) : layout.Follows lines next := by
  induction lines generalizing layout with
  | nil =>
    obtain rfl := (Prod.mk.inj h).1
    exact follows_nil layout
  | cons line rest ih =>
    rw [extend] at h
    split at h
    case h_1 middle hplace => exact (place_follows hplace).trans (ih h)
    case h_2 => simp at h

-- The first pass computes the placed instructions, the size of the code and the
-- offset of each label from the whole source.
theorem ofLines_spec {mode : Mode} {lines : List Line} {layout : Layout}
    (h : ofLines mode lines = (layout, none)) :
    layout.instructions.toList = placed 0 lines ∧ layout.size = codeSize lines ∧
      Located lines layout.labels := by
  obtain ⟨hinstructions, hsize, hlabels⟩ := extend_follows h
  refine ⟨by simpa [empty] using hinstructions, by simpa [empty] using hsize, fun name => ?_⟩
  rw [hlabels]
  cases beforeLabel? name lines <;> simp [empty, Labels.empty, Labels.find?]

end Layout

end TileConsole
