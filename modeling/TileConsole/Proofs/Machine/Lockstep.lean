import Mathlib.Logic.Function.Iterate
import TileConsole.Proofs.Bytes
import TileConsole.Proofs.Machine.Fetch
import TileConsole.Proofs.Machine.SourceMachine

namespace TileConsole

open Source

namespace Source

variable {lines : List Line}

theorem mapM_action?_eq_some_iff (list : List Statement) (actions : List Action) :
    list.mapM (action? lines) = some actions ↔ list.map (action? lines) = actions.map some := by
  induction list generalizing actions with
  | nil => cases actions <;> simp
  | cons statement rest ih =>
    simp only [List.mapM_cons, Option.pure_def, Option.bind_eq_bind, Option.bind_eq_some_iff,
      Option.some.injEq, ih]
    constructor
    · rintro ⟨action, haction, others, hothers, rfl⟩
      rw [List.map_cons, haction, hothers, List.map_cons]
    · intro h
      cases actions with
      | nil => simp at h
      | cons action others =>
        obtain ⟨haction, hothers⟩ := List.cons.inj h
        exact ⟨action, haction, others, hothers, rfl⟩

theorem getElem?_actions {actions : List Action} (h : actions? lines = some actions) {i : Nat}
    {statement : Statement} (hstatement : (statements lines)[i]? = some statement) :
    ∃ action, actions[i]? = some action ∧ action? lines statement = some action := by
  have hread := congrArg (·[i]?) ((mapM_action?_eq_some_iff _ actions).mp h)
  simp only [List.getElem?_map, hstatement, Option.map_some] at hread
  obtain ⟨action, hindex, haction⟩ := Option.map_eq_some_iff.mp hread.symm
  exact ⟨action, hindex, haction.symm⟩

theorem length_actions {actions : List Action} (h : actions? lines = some actions) :
    actions.length = (statements lines).length := by
  simpa using (congrArg List.length ((mapM_action?_eq_some_iff _ actions).mp h)).symm

theorem exists_actions (h : ∀ statement ∈ statements lines, ∃ action,
    action? lines statement = some action) : ∃ actions, actions? lines = some actions := by
  refine ⟨(statements lines).filterMap (action? lines), (mapM_action?_eq_some_iff _ _).mpr ?_⟩
  generalize statements lines = list at h
  induction list with
  | nil => rfl
  | cons statement rest ih =>
    obtain ⟨⟨action, haction⟩, hrest⟩ := List.forall_mem_cons.mp h
    rw [List.map_cons, ih hrest, List.filterMap_cons_some haction, List.map_cons, haction]

-- Every jump names a declared label.
def JumpsResolve (lines : List Line) : Prop :=
  ∀ statement ∈ statements lines, statement.op = .jump →
    ∀ word ∈ statement.operands.head?, (beforeTarget? lines word).isSome

instance (lines : List Line) : Decidable (JumpsResolve lines) :=
  inferInstanceAs (Decidable (∀ statement ∈ statements lines, statement.op = .jump →
    ∀ word ∈ statement.operands.head?, (beforeTarget? lines word).isSome))

-- A statement that denotes bytes can be read, unless it jumps to an address that
-- is written as a number.
theorem exists_action {statement : Statement} {bytes : Bytes} (h : statement.Denotes lines bytes)
    (hjump : statement.op = .jump →
      ∀ word ∈ statement.operands.head?, (beforeTarget? lines word).isSome) :
    ∃ action, action? lines statement = some action := by
  cases h with
  | nop => exact ⟨_, rfl⟩
  | plot => exact ⟨_, rfl⟩
  | halt => exact ⟨_, rfl⟩
  | setA word rest n hn =>
    exact ⟨_, by rw [action?, (Numeral.parse?_eq_some_iff word n).mpr hn]; rfl⟩
  | setX word rest n hn hrange => exact ⟨_, by rw [action?, word?_of_literal hn hrange]; rfl⟩
  | setVram word rest n hn hrange => exact ⟨_, by rw [action?, word?_of_literal hn hrange]; rfl⟩
  | drawTiles first second rest x y hx hxrange hy hyrange =>
    exact ⟨_, by rw [action?, word?_of_literal hx hxrange, word?_of_literal hy hyrange]⟩
  | jumpToLabel word rest address haddress =>
    obtain ⟨target, htarget, -⟩ := address?_eq_some haddress
    exact ⟨_, by rw [action?, htarget]; rfl⟩
  | jumpToAddress word rest n hnone =>
    have hsome := hjump rfl word rfl
    rw [address?, Option.map_eq_none_iff] at hnone
    simp [hnone] at hsome

end Source

theorem Assembly.exists_actions_of_jumpsResolve {mode : Mode} {lines : List Line}
    {program : Program} (h : Assembly.ofLines mode lines = .ok program)
    (hjumps : JumpsResolve lines) : ∃ actions, actions? lines = some actions := by
  obtain ⟨hlabels, hclean, -⟩ := Assembly.ofLines_eq_ok h
  refine exists_actions fun statement hstatement => ?_
  exact exists_action
    (Encoding.denotes_encode hlabels (Encoding.encode_clean hclean statement hstatement))
    (hjumps statement hstatement)

namespace Machine

-- How a machine that runs the code of lines relates to the machine that runs
-- their actions. The program counter is at the offset of the next action.
structure Simulates (lines : List Line) (code graphics : Bytes) (machine : Machine)
    (state : SourceMachine) : Prop where
  ram : machine.ram = memory ramSize code
  vram : machine.vram = memory vramSize graphics
  codeSize : machine.codeSize = Source.codeSize lines
  booted : machine.booted
  index : state.index ≤ (statements lines).length
  pc : machine.pc = offsetAt lines state.index
  a : machine.a = state.a
  x : machine.x = state.x
  tiles : machine.tiles = state.tiles
  screen : machine.screen = state.screen
  ticks : machine.ticks = state.ticks

theorem plot_linear (screen : Screen) (x : UInt16) (color : UInt8) :
    screen.plot (x.toNat % screenWidth : Nat) (x.toNat / screenWidth : Nat) color =
      screen.set x.toNat (color &&& 0x0F) (SourceMachine.lt_screen x) := by
  have hplace := Screen.place_linear x.toNat
  rw [Screen.plot, dif_pos (Screen.inside_linear (SourceMachine.lt_screen x))]
  congr 1

section Step

variable {lines : List Line} {code graphics : Bytes} {machine : Machine} {state : SourceMachine}

theorem Simulates.setScreen (h : Simulates lines code graphics machine state)
    {shown other : Screen} (hscreen : shown = other) :
    Simulates lines code graphics { machine with screen := shown }
      { state with screen := other } :=
  { h with screen := hscreen }

theorem Simulates.goTo (h : Simulates lines code graphics machine state) {pc : Int}
    {target : Nat} (hle : target ≤ (statements lines).length) (hpc : pc = offsetAt lines target) :
    Simulates lines code graphics { machine with pc } { state with index := target } :=
  { h with index := hle, pc := hpc }

theorem Simulates.pc_end (h : Simulates lines code graphics machine state) :
    (machine.codeSize : Int) = offsetAt lines (statements lines).length := by
  rw [h.codeSize, offsetAt_length]

-- A jump to a label goes to the statement behind it. Behind the last statement
-- there is nothing to execute, and the machine calls this a fault.
theorem Simulates.jump (h : Simulates lines code graphics machine state) {args : Bytes}
    {target : Nat} (hle : target ≤ (statements lines).length)
    (hargs : Bytes.toNat args = offsetAt lines target) :
    Simulates lines code graphics (machine.perform .jump args).1
      { state with index := target } ∧
    (machine.perform .jump args).2 =
      if target = (statements lines).length then some .jumpOutside else none := by
  dsimp only [Machine.perform]
  rw [hargs]
  rcases Nat.lt_or_eq_of_le hle with hinside | rfl
  · have hnext : ¬machine.codeSize ≤ offsetAt lines target :=
      Nat.not_le.mpr (h.codeSize ▸ offsetAt_lt hinside)
    rw [if_neg hnext, if_neg (Nat.ne_of_lt hinside)]
    exact ⟨h.goTo hle rfl, rfl⟩
  · have hnext : machine.codeSize ≤ offsetAt lines (statements lines).length :=
      Int.ofNat_le.mp (Int.le_of_eq h.pc_end)
    rw [if_pos hnext, if_pos rfl]
    exact ⟨h.goTo hle h.pc_end, rfl⟩

-- An operation on its operand bytes has the effect of the action that the
-- statement is read as. It only fails where a jump leaves the code.
theorem Simulates.perform (h : Simulates lines code graphics machine state)
    {statement : Statement} {args : Bytes} {action : Action}
    (hdenotes : statement.Denotes lines (statement.op.code :: args))
    (haction : action? lines statement = some action) :
    Simulates lines code graphics (machine.perform statement.op args).1
      (state.perform (statements lines).length (memory vramSize graphics) action) ∧
    (machine.perform statement.op args).2 =
      if action = .jump (statements lines).length then some .jumpOutside else none := by
  generalize hbytes : statement.op.code :: args = bytes at hdenotes
  cases hdenotes with
  | nop =>
    obtain rfl := Option.some.inj haction
    exact ⟨h, rfl⟩
  | setA word rest n hn =>
    obtain ⟨-, rfl⟩ := List.cons.inj hbytes
    rw [action?, (Numeral.parse?_eq_some_iff word n).mpr hn] at haction
    obtain rfl := Option.some.inj haction
    have hbyte : UInt8.ofNat (Bytes.toNat [UInt8.ofNat (n % 256).toNat]) =
        UInt8.ofNat (n % 256).toNat := by
      simp only [Bytes.toNat, Nat.mul_zero, Nat.add_zero, UInt8.ofNat_toNat]
    exact ⟨{ h with a := hbyte }, rfl⟩
  | setX word rest n hn hrange =>
    obtain ⟨-, rfl⟩ := List.cons.inj hbytes
    rw [action?, word?_of_literal hn hrange] at haction
    obtain rfl := Option.some.inj haction
    exact ⟨{ h with x := congrArg UInt16.ofNat (Bytes.toNat_littleEndian_word hrange) }, rfl⟩
  | plot =>
    obtain rfl := Option.some.inj haction
    refine ⟨h.setScreen ?_, rfl⟩
    rw [plot_linear, h.screen, h.a]
    congr 1
    rw [h.x]
  | jumpToLabel word rest address haddress hrange =>
    obtain ⟨-, rfl⟩ := List.cons.inj hbytes
    obtain ⟨target, htarget, hle, rfl⟩ := address?_eq_some haddress
    rw [action?, htarget] at haction
    obtain rfl := Option.some.inj haction
    simp only [Action.jump.injEq]
    exact h.jump hle (Bytes.toNat_littleEndian_word hrange)
  | jumpToAddress word rest n hnone =>
    rw [action?, target?, Option.map_eq_none_iff.mp hnone] at haction
    cases haction
  | setVram word rest n hn hrange =>
    obtain ⟨-, rfl⟩ := List.cons.inj hbytes
    rw [action?, word?_of_literal hn hrange] at haction
    obtain rfl := Option.some.inj haction
    exact ⟨{ h with tiles := congrArg UInt16.ofNat (Bytes.toNat_littleEndian_word hrange) }, rfl⟩
  | drawTiles first second rest x y hx hxrange hy hyrange =>
    obtain rfl : args = Bytes.littleEndian 2 x ++ Bytes.littleEndian 2 y :=
      (List.cons.inj hbytes).2
    rw [action?, word?_of_literal hx hxrange, word?_of_literal hy hyrange] at haction
    obtain rfl := Option.some.inj haction
    have htake : (Bytes.littleEndian 2 x ++ Bytes.littleEndian 2 y).take 2 =
        Bytes.littleEndian 2 x := rfl
    have hdrop : (Bytes.littleEndian 2 x ++ Bytes.littleEndian 2 y).drop 2 =
        Bytes.littleEndian 2 y := rfl
    refine ⟨h.setScreen ?_, rfl⟩
    rw [htake, hdrop, Bytes.toNat_littleEndian_word hxrange, Bytes.toNat_littleEndian_word hyrange,
      Bytes.toNat_word hxrange, Bytes.toNat_word hyrange, h.vram, h.screen, h.tiles,
      Screen.drawTiles_eq_overlay]
  | halt =>
    obtain rfl := Option.some.inj haction
    exact ⟨h.goTo (Nat.le_refl _) h.pc_end, rfl⟩

theorem Simulates.done (h : Simulates lines code graphics machine state) :
    machine.done = decide ((statements lines).length ≤ state.index) := by
  rw [Machine.done, h.pc, h.codeSize]
  rcases Nat.lt_or_eq_of_le h.index with hinside | hend
  · have hlt := offsetAt_lt hinside
    simp [Nat.not_le.mpr hinside, Nat.not_le.mpr hlt]
  · simp [hend, offsetAt_length]

end Step

section Run

variable {mode : Mode} {lines : List Line} {program : Program} {actions : List Action}
  {graphics : Bytes} {machine : Machine} {state : SourceMachine}

-- The answer of a tick while the source machine is in a state: an error where a
-- jump goes to a label behind the last action, else whether the next state has
-- finished.
def answer (listing : Option Program) (pc : Int) (actions : List Action)
    (state next : SourceMachine) : Except MachineError Bool :=
  if actions[state.index]? = some (.jump actions.length) then
    .error (faultAt listing pc .jumpOutside)
  else .ok (decide (actions.length ≤ next.index))

-- The code holds the statement whose turn it is where the program counter is.
theorem Simulates.fetch (h : Simulates lines program.code graphics machine state)
    (hlines : Assembly.ofLines mode lines = .ok program) (hfits : program.code.length ≤ ramSize)
    {statement : Statement} (hstatement : (statements lines)[state.index]? = some statement) :
    ∃ args, machine.fetch = .ok (statement.op, args) ∧
      statement.Denotes lines (statement.op.code :: args) := by
  obtain ⟨args, rest, hdrop, hargs, hdenotes⟩ := Assembly.drop_code hlines hstatement
  have hsize : machine.codeSize = program.code.length :=
    h.codeSize.trans (Assembly.length_code_eq hlines).symm
  exact ⟨args, fetch_eq h.ram hsize hfits h.pc hdrop hargs, hdenotes⟩

theorem Simulates.advance (h : Simulates lines program.code graphics machine state)
    {statement : Statement} (hstatement : (statements lines)[state.index]? = some statement) :
    Simulates lines program.code graphics
      { machine with pc := machine.pc + statement.op.size, ticks := machine.ticks + 1 }
      { state with index := state.index + 1, ticks := state.ticks + 1 } where
  __ := h
  index := (List.getElem?_eq_some_iff.mp hstatement).1
  pc := by rw [h.pc, offsetAt_succ hstatement]; rfl
  ticks := congrArg (· + 1) h.ticks

-- One tick is one step of the source machine.
theorem Simulates.tick (h : Simulates lines program.code graphics machine state)
    (hlines : Assembly.ofLines mode lines = .ok program) (hfits : program.code.length ≤ ramSize)
    (hactions : actions? lines = some actions) (listing : Option Program) :
    let next := state.step actions (memory vramSize graphics)
    Simulates lines program.code graphics (machine.tick listing).1 next ∧
      (machine.tick listing).2 = answer listing machine.pc actions state next := by
  intro next
  have hcount := length_actions hactions
  have hdone := h.done
  rcases Nat.lt_or_eq_of_le h.index with hinside | hend
  · have hstatement := List.getElem?_eq_getElem hinside
    obtain ⟨action, hindex, haction⟩ := getElem?_actions hactions hstatement
    obtain ⟨args, hfetch, hdenotes⟩ := h.fetch hlines hfits hstatement
    obtain ⟨hperform, hfault⟩ := (h.advance hstatement).perform hdenotes haction
    have hnext : next = SourceMachine.perform (statements lines).length (memory vramSize graphics)
        { state with index := state.index + 1, ticks := state.ticks + 1 } action := by
      simp only [next, SourceMachine.step, hindex, hcount]
    have hrunning : ¬machine.done := by simp [hdone, hinside]
    rw [tick_of_fetch listing h.booted hrunning hfetch, hnext]
    refine ⟨hperform, ?_⟩
    rw [answer, hindex, hcount, hfault]
    by_cases houtside : action = .jump (statements lines).length
    · simp [houtside]
    · simp [houtside, hperform.done]
  · have hnone : actions[state.index]? = none := List.getElem?_eq_none (by omega)
    have hnext : next = state := by simp only [next, SourceMachine.step, hnone]
    have hfinished : machine.done := by simp [hdone, hend]
    rw [tick_of_done listing h.booted hfinished, hnext]
    refine ⟨h, ?_⟩
    simp [answer, hcount, hend]

-- A cartridge with the code starts at its first action.
theorem boot_simulates (hlines : Assembly.ofLines mode lines = .ok program)
    (hfits : program.code.length ≤ ramSize) (machine : Machine) (graphics : Bytes) :
    let booted := machine.boot (Cartridge.ofSections program.code graphics)
    booted.2 = none ∧ Simulates lines program.code graphics booted.1 .start := by
  intro booted
  have hroom : ¬ramSize < (Cartridge.ofSections program.code graphics).code.length :=
    Nat.not_lt.mpr hfits
  rw [show booted = _ from if_neg hroom]
  refine ⟨rfl, ?_⟩
  exact {
    ram := rfl
    vram := rfl
    codeSize := Assembly.length_code_eq hlines
    booted := rfl
    index := Nat.zero_le _
    pc := rfl
    a := rfl
    x := rfl
    tiles := rfl
    screen := rfl
    ticks := rfl }

-- By induction on the number of ticks. A tick after the end changes neither
-- machine.
theorem Simulates.run (h : Simulates lines program.code graphics machine state)
    (hlines : Assembly.ofLines mode lines = .ok program) (hfits : program.code.length ≤ ramSize)
    (hactions : actions? lines = some actions) (listing : Option Program) (n : Nat) :
    Simulates lines program.code graphics ((fun current => (current.tick listing).1)^[n] machine)
      ((SourceMachine.step actions (memory vramSize graphics))^[n] state) := by
  induction n with
  | zero => exact h
  | succ n ih =>
    rw [Function.iterate_succ_apply', Function.iterate_succ_apply']
    exact (ih.tick hlines hfits hactions listing).1

end Run

-- What can be seen of a machine that runs a program, told by the source machine.
-- The program counter is at the recognised instruction whose turn it is, or at
-- the end of the code once there is none.
structure Shows (program : Program) (machine : Machine) (state : SourceMachine) : Prop where
  codeSize : machine.codeSize = program.code.length
  pc : machine.pc =
    (program.recognised[state.index]?.map Instruction.offset).getD machine.codeSize
  a : machine.a = state.a
  x : machine.x = state.x
  tiles : machine.tiles = state.tiles
  screen : machine.screen = state.screen
  ticks : machine.ticks = state.ticks

theorem Simulates.shows {mode : Mode} {lines : List Line} {program : Program} {graphics : Bytes}
    {machine : Machine} {state : SourceMachine}
    (h : Simulates lines program.code graphics machine state)
    (hlines : Assembly.ofLines mode lines = .ok program) : Shows program machine state where
  codeSize := h.codeSize.trans (Assembly.length_code_eq hlines).symm
  pc := by
    rw [Assembly.offset_recognised hlines, h.pc]
    rcases Nat.lt_or_eq_of_le h.index with hinside | hend
    · rw [List.getElem?_eq_getElem hinside]
      rfl
    · rw [hend, List.getElem?_eq_none (Nat.le_refl _), ← h.pc_end]
      rfl
  a := h.a
  x := h.x
  tiles := h.tiles
  screen := h.screen
  ticks := h.ticks

-- A cartridge made of an accepted source runs as the source reads. This holds
-- after any number of ticks, also past the end of the program.
theorem lockstep (mode : Mode) (source : Stream) (program : Program) (graphics : Bytes)
    (machine : Machine) (listing : Option Program)
    (h : Assembly.ofStream mode source = .ok program) (hfits : program.code.length ≤ ramSize)
    (hjumps : JumpsResolve (Line.readAll (Text.ofBytes source.bytes))) :
    let booted := machine.boot (Cartridge.ofSections program.code graphics)
    booted.2 = none ∧
      ∃ actions, actions? (Line.readAll (Text.ofBytes source.bytes)) = some actions ∧
        ∀ n : Nat,
          let current := (fun current => (tick listing current).1)^[n] booted.1
          let state := (SourceMachine.step actions (memory vramSize graphics))^[n] .start
          Shows program current state ∧
            (current.tick listing).2 = answer listing current.pc actions state
              (state.step actions (memory vramSize graphics)) := by
  intro booted
  have hlines := Assembly.ofLines_of_ofStream h
  obtain ⟨hboot, hstart⟩ := boot_simulates hlines hfits machine graphics
  obtain ⟨actions, hactions⟩ := Assembly.exists_actions_of_jumpsResolve hlines hjumps
  refine ⟨hboot, actions, hactions, fun n => ?_⟩
  have hrun := hstart.run hlines hfits hactions listing n
  exact ⟨hrun.shows hlines, (hrun.tick hlines hfits hactions listing).2⟩

-- A jump over code to a label behind an unknown mnemonic, then back to a label
-- whose mark is written with it, then to the very end.
theorem lockstep_back_and_forth :
    let source := Stream.whole (Text.toBytes
      "JMP on\n@back\nPLOT\nJMP end\n@on\nfoo\nSET_A 300\nJMP @back\n@end")
    ∃ program, Assembly.ofStream .lenient source = .ok program ∧
      program.code = [0x04, 0x07, 0x00, 0x03, 0x04, 0x0C, 0x00, 0x01, 0x2C, 0x04, 0x03, 0x00] ∧
      JumpsResolve (Line.readAll (Text.ofBytes source.bytes)) ∧
      ∃ actions, actions? (Line.readAll (Text.ofBytes source.bytes)) = some actions ∧
        ∀ n : Nat, Shows program
          ((fun current => (tick none current).1)^[n]
            (unbooted.boot (Cartridge.ofSections program.code [])).1)
          ((SourceMachine.step actions (memory vramSize []))^[n] .start) := by
  intro source
  have hcode : (Assembly.ofStream .lenient source).toOption.map Program.code =
      some [0x04, 0x07, 0x00, 0x03, 0x04, 0x0C, 0x00, 0x01, 0x2C, 0x04, 0x03, 0x00] := by
    decide +kernel
  have hjumps : JumpsResolve (Line.readAll (Text.ofBytes source.bytes)) := by decide +kernel
  cases hsource : Assembly.ofStream .lenient source with
  | error error =>
    rw [hsource] at hcode
    cases hcode
  | ok program =>
    rw [hsource] at hcode
    have hbytes := Option.some.inj hcode
    have hfits : program.code.length ≤ ramSize := by rw [hbytes]; decide
    obtain ⟨-, actions, hactions, hrun⟩ :=
      lockstep .lenient source program [] unbooted none hsource hfits hjumps
    exact ⟨program, rfl, hbytes, hjumps, actions, hactions, fun n => (hrun n).1⟩

end Machine

end TileConsole
