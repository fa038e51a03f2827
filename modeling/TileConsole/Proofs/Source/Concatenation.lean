import TileConsole.Proofs.Source.Flaws
import TileConsole.Proofs.Source.Lines

namespace TileConsole

-- An instruction that is placed further back in the code.
def Instruction.shifted (count : Nat) (inst : Instruction) : Instruction :=
  { inst with offset := inst.offset + count }

namespace Source

theorem placed_add (offset count : Nat) (lines : List Line) :
    placed (offset + count) lines = (placed offset lines).map (Instruction.shifted count) := by
  induction lines generalizing offset with
  | nil => rfl
  | cons line rest ih =>
    rw [placed, placed, Nat.add_right_comm, ih, List.map_append]
    congr 1
    unfold Line.instruction?
    cases line.kind <;> simp [Instruction.shifted]

end Source

open Source

namespace Layout

-- A lenient assembler finds a place for every line.
theorem ofLines_lenient (lines : List Line) : (ofLines .lenient lines).2 = none := by
  rw [ofLines_eq_none_iff]
  rintro before line after - defect hflaw
  obtain ⟨hmode, -⟩ := (exists_placingFlaw_iff .lenient before line).mp ⟨defect, hflaw⟩
  cases hmode

theorem lenient_spec (lines : List Line) :
    (ofLines .lenient lines).1.instructions.toList = placed 0 lines ∧
      (ofLines .lenient lines).1.size = codeSize lines ∧
      Located lines (ofLines .lenient lines).1.labels :=
  ofLines_spec (Prod.ext rfl (ofLines_lenient lines))

theorem find?_append {lines others : List Line} {first second whole : Labels}
    (hfirst : Located lines first) (hsecond : Located others second)
    (hwhole : Located (lines ++ others) whole) (name : Text) :
    whole.find? name =
      ((second.find? name).map (· + (codeSize lines : Int))).or (first.find? name) := by
  rw [hwhole, hfirst, hsecond, beforeLabel?_append]
  cases beforeLabel? name others with
  | none => simp
  | some before => simp [Int.add_comm]

end Layout

namespace Source

-- The lines and the layout of a source that is put together from two parts are
-- those of the parts. The second part only stands further down and is placed
-- further back, and its labels count where both parts declare one.
theorem parts_compose :
    (∀ first second : Bytes,
      Line.readAll (Text.ofBytes (first ++ 0x0A :: second)) =
        Line.readAll (Text.ofBytes first) ++
          (Line.readAll (Text.ofBytes second)).map (Line.moved (1 + first.count 0x0A))) ∧
    (∀ lines : List Line, (Layout.ofLines .lenient lines).2 = none) ∧
    ∀ lines others : List Line,
      let first := (Layout.ofLines .lenient lines).1
      let second := (Layout.ofLines .lenient others).1
      let whole := (Layout.ofLines .lenient (lines ++ others)).1
      whole.instructions.toList =
          first.instructions.toList ++
            second.instructions.toList.map (Instruction.shifted first.size) ∧
        whole.size = first.size + second.size ∧
        ∀ name, whole.labels.find? name =
          ((second.labels.find? name).map (· + (first.size : Int))).or
            (first.labels.find? name) := by
  refine ⟨fun first second => ?_, Layout.ofLines_lenient, ?_⟩
  · rw [Text.ofBytes_append_newline, Line.readAll_append, Text.count_newline_ofBytes]
  · intro lines others first second whole
    obtain ⟨hinsts, hsize, hlabels⟩ := Layout.lenient_spec lines
    obtain ⟨hmore, hrest, hadded⟩ := Layout.lenient_spec others
    obtain ⟨hall, htotal, htable⟩ := Layout.lenient_spec (lines ++ others)
    refine ⟨?_, ?_, fun name => ?_⟩
    · rw [hall, hinsts, hmore, hsize, placed_append, placed_add]
    · rw [htotal, hsize, hrest, codeSize_append]
    · rw [hsize]
      exact Layout.find?_append hlabels hadded htable name

end Source

end TileConsole
