import TileConsole.Proofs.Disassembly
import TileConsole.Proofs.Machine.Loaded

namespace TileConsole

-- An instruction of the machine with the values of its operands.
inductive Decoded where
  | nop
  | setA (value : UInt8)
  | setX (value : UInt16)
  | plot
  | jump (target : UInt16)
  | setVram (value : UInt16)
  | drawTiles (x y : Int16)
  | halt
deriving DecidableEq, Repr

namespace Decoded

def op : Decoded → Operation
  | nop => .nop
  | setA _ => .setA
  | setX _ => .setX
  | plot => .plot
  | jump _ => .jump
  | setVram _ => .setVram
  | drawTiles _ _ => .drawTiles
  | halt => .halt

-- The numbers in the text of an instruction. Coordinates are written without a
-- sign, modulo 65536.
def values : Decoded → List Nat
  | setA value => [value.toNat]
  | setX value => [value.toNat]
  | jump target => [target.toNat]
  | setVram value => [value.toNat]
  | drawTiles x y => [x.toUInt16.toNat, y.toUInt16.toNat]
  | nop | plot | halt => []

def text (decoded : Decoded) : Text :=
  Line.spelled decoded.op.mnemonic (decoded.values.map Numeral.decimal)

-- Where an instruction leaves the program counter. A jump out of the code goes
-- to its end.
def nextPc (decoded : Decoded) (machine : Machine) : Int :=
  match decoded with
  | jump target => if target.toNat < machine.codeSize then target.toNat else machine.codeSize
  | halt => machine.codeSize
  | nop | setA _ | setX _ | plot | setVram _ | drawTiles _ _ => machine.pc + decoded.op.size

def fault? (decoded : Decoded) (machine : Machine) : Option RunFault :=
  match decoded with
  | jump target => if target.toNat < machine.codeSize then none else some .jumpOutside
  | nop | setA _ | setX _ | plot | setVram _ | drawTiles _ _ | halt => none

-- The machine after an instruction.
def execute (decoded : Decoded) (machine : Machine) : Machine :=
  let moved := { machine with pc := decoded.nextPc machine, ticks := machine.ticks + 1 }
  match decoded with
  | setA value => { moved with a := value }
  | setX value => { moved with x := value }
  | setVram value => { moved with tiles := value }
  | plot =>
    let x := machine.x.toNat
    moved.plot (x % screenWidth : Nat) (x / screenWidth : Nat) machine.a
  | drawTiles x y => moved.drawTiles machine.tiles x.toInt y.toInt
  | nop | jump _ | halt => moved

-- What a tick answers that executes an instruction.
def answer (decoded : Decoded) (listing : Option Program) (machine : Machine) :
    Except MachineError Bool :=
  match decoded.fault? machine with
  | some fault => .error (Machine.faultAt listing machine.pc fault)
  | none => .ok (decoded.execute machine).done

-- The operands of a block of code as numbers.
def ofBlock (block : CodeBlock) : Decoded :=
  let word := UInt16.ofNat (Bytes.toNat block.args)
  match block.op with
  | .nop => nop
  | .setA => setA (UInt8.ofNat (Bytes.toNat block.args))
  | .setX => setX word
  | .plot => plot
  | .jump => jump word
  | .setVram => setVram word
  | .drawTiles =>
    drawTiles (UInt16.ofNat (Bytes.toNat (block.args.take 2))).toInt16
      (UInt16.ofNat (Bytes.toNat (block.args.drop 2))).toInt16
  | .halt => halt

theorem isWord_values (decoded : Decoded) :
    ∀ word ∈ decoded.values.map Numeral.decimal, Line.IsWord word := by
  intro word hword
  obtain ⟨n, -, rfl⟩ := List.mem_map.mp hword
  exact isWord_decimal n

theorem toUInt16_inj {x y : Int16} : x.toUInt16 = y.toUInt16 ↔ x = y := by
  refine ⟨fun h => ?_, congrArg Int16.toUInt16⟩
  rw [← x.toInt16_toUInt16, h, y.toInt16_toUInt16]

theorem eq_of_values {decoded other : Decoded} (hop : decoded.op = other.op)
    (hvalues : decoded.values = other.values) : decoded = other := by
  cases decoded <;> cases other <;> cases hop
  all_goals
    simp [values, UInt8.toNat_inj, UInt16.toNat_inj, toUInt16_inj] at hvalues ⊢
  all_goals exact hvalues

-- No two instructions have the same text.
theorem text_injective : Function.Injective text := by
  intro decoded other same
  have hwords := congrArg (Text.words Line.separates) same
  rw [text, text, Line.words_spelled (isWord_mnemonic _) decoded.isWord_values,
    Line.words_spelled (isWord_mnemonic _) other.isWord_values] at hwords
  obtain ⟨hmnemonic, hdecimals⟩ := List.cons.inj hwords
  have hop := congrArg Operation.ofMnemonic? hmnemonic
  rw [Operation.ofMnemonic?_mnemonic, Operation.ofMnemonic?_mnemonic] at hop
  exact eq_of_values (Option.some.inj hop)
    ((List.map_inj_right Numeral.decimal_injective).mp hdecimals)

section Block

variable (block : CodeBlock)

theorem toNat_byte {args : Bytes} (h : args.length = 1) :
    (UInt8.ofNat (Bytes.toNat args)).toNat = Bytes.toNat args := by
  have hlt := Bytes.toNat_lt args
  rw [h] at hlt
  rw [UInt8.toNat_ofNat']
  exact Nat.mod_eq_of_lt hlt

theorem toNat_word {args : Bytes} (h : args.length = 2) :
    (UInt16.ofNat (Bytes.toNat args)).toNat = Bytes.toNat args := by
  have hlt := Bytes.toNat_lt args
  rw [h] at hlt
  exact Bytes.toNat_word (Nat.le_of_lt_succ hlt)

theorem op_ofBlock : (ofBlock block).op = block.op := by
  rcases block with ⟨op, args, hargs⟩
  cases op <;> rfl

theorem values_ofBlock : (ofBlock block).values = block.pieces.map Bytes.toNat := by
  rcases block with ⟨op, args, hargs⟩
  cases op with
  | nop | plot | halt => rfl
  | setA =>
    have hone : args.length = 1 := hargs
    simp [ofBlock, values, CodeBlock.pieces, Operation.shape, toNat_byte hone,
      List.take_of_length_le (Nat.le_of_eq hone)]
  | setX | jump | setVram =>
    have htwo : args.length = 2 := hargs
    simp [ofBlock, values, CodeBlock.pieces, Operation.shape, toNat_word htwo,
      List.take_of_length_le (Nat.le_of_eq htwo)]
  | drawTiles =>
    have hfour : args.length = 4 := hargs
    have hx : (args.take 2).length = 2 := by simp [hfour]
    have hy : (args.drop 2).length = 2 := by simp [hfour]
    simp [ofBlock, values, CodeBlock.pieces, Operation.shape, toNat_word hx, toNat_word hy,
      List.take_of_length_le (Nat.le_of_eq hy)]

theorem text_ofBlock : (ofBlock block).text = block.text := by
  rw [text, op_ofBlock, values_ofBlock, List.map_map, block.text_eq_spelled]
  rfl

theorem toInt_word {args : Bytes} (h : args.length = 2) :
    (UInt16.ofNat (Bytes.toNat args)).toInt16.toInt = Bytes.signed16 (Bytes.toNat args) := by
  have hvalue := toNat_word h
  rw [Int16.toInt, UInt16.toBitVec_toInt16, BitVec.toInt_eq_toNat_bmod, UInt16.toNat_toBitVec,
    hvalue]
  rfl

-- Carrying out an operation on its operand bytes executes the instruction that
-- they spell.
theorem perform_block (machine : Machine) :
    Machine.perform { machine with pc := machine.pc + block.op.size, ticks := machine.ticks + 1 }
        block.op block.args =
      ((ofBlock block).execute machine, (ofBlock block).fault? machine) := by
  rcases block with ⟨op, args, hargs⟩
  cases op with
  | nop | setA | setX | plot | setVram | halt => rfl
  | jump =>
    have hvalue : (UInt16.ofNat (Bytes.toNat args)).toNat = Bytes.toNat args := toNat_word hargs
    simp only [Machine.perform, ofBlock, execute, nextPc, fault?, hvalue]
    by_cases hinside : Bytes.toNat args < machine.codeSize
    · simp [hinside, Nat.not_le.mpr hinside]
    · simp [hinside, Nat.le_of_not_lt hinside]
  | drawTiles =>
    have hfour : args.length = 4 := hargs
    have hx : (args.take 2).length = 2 := by simp [hfour]
    have hy : (args.drop 2).length = 2 := by simp [hfour]
    simp only [Machine.perform, ofBlock, execute, nextPc, fault?, toInt_word hx, toInt_word hy]
    rfl

end Block

end Decoded

namespace Machine

-- The code section as it lies in memory.
def code (machine : Machine) : Bytes :=
  machine.ram.toList.take machine.codeSize

-- What a machine fetches and what a disassembler reads at the same place.
inductive Alike : Except RunFault (Operation × Bytes) → Except DecodeError Disassembly → Prop
  | unknown (b : UInt8) : Alike (.error (.unknownByte b)) (.error (.unknownByte b))
  | cut : Alike (.error .operandsCut) (.error .truncated)
  | whole (block : CodeBlock) :
    Alike (.ok (block.op, block.args)) (.ok ⟨block.text, block.op.size⟩)

section Fits

variable {machine : Machine}

theorem length_code (hfits : machine.codeSize ≤ ramSize) :
    machine.code.length = machine.codeSize := by
  rw [code, List.length_take, Vector.length_toList, Nat.min_eq_left hfits]

theorem getElem?_code {i : Nat} (h : i < machine.codeSize) :
    machine.ram[i]? = machine.code[i]? := by
  rw [code, List.getElem?_take_of_lt h, Vector.getElem?_toList]

theorem bytesAt?_code (hfits : machine.codeSize ≤ ramSize) {address count : Nat}
    (h : address + count ≤ machine.codeSize) :
    machine.bytesAt? address count = some ((machine.code.drop address).take count) := by
  rw [bytesAt?_eq_take machine (by omega), code, List.drop_take, List.take_take,
    Nat.min_eq_left (by omega)]

-- The bounds of the operands are computed from the other end.
theorem fetch_of_drop (hfits : machine.codeSize ≤ ramSize) {b : UInt8} {rest : Bytes}
    (hdrop : machine.code.drop machine.pc.toNat = b :: rest) :
    machine.fetch =
      match Operation.ofByte? b with
      | none => .error (.unknownByte b)
      | some op =>
        if rest.length < op.shape.width then .error .operandsCut
        else .ok (op, rest.take op.shape.width) := by
  have hlength : machine.codeSize - machine.pc.toNat = rest.length + 1 := by
    have hboth := congrArg List.length hdrop
    rwa [List.length_drop, length_code hfits, List.length_cons] at hboth
  have hbyte : machine.ram[machine.pc.toNat]? = some b := by
    rw [getElem?_code (by omega), ← List.head?_drop, hdrop]
    rfl
  have htail : machine.code.drop (machine.pc.toNat + 1) = rest := by
    rw [← List.drop_drop, hdrop]
    rfl
  simp only [fetch, hbyte]
  cases Operation.ofByte? b with
  | none => rfl
  | some op =>
    dsimp only
    by_cases hcut : rest.length < op.shape.width
    · rw [if_pos hcut, if_pos (by unfold Operation.size; omega)]
    · rw [if_neg hcut, if_neg (by unfold Operation.size; omega), bytesAt?_code hfits (by omega),
        htail]

theorem alike (hfits : machine.codeSize ≤ ramSize) (hrunning : ¬machine.done) :
    Alike machine.fetch (Disassembly.ofCode machine.code machine.pc) := by
  obtain ⟨hstart, hend⟩ := pc_lt_of_not_done hrunning
  have hlength := length_code hfits
  have hinside : machine.pc.toNat < machine.code.length := by omega
  have hguard : ¬(machine.pc < 0 ∨ machine.code.length ≤ machine.pc) := by omega
  have hdrop := List.drop_eq_getElem_cons hinside
  rw [fetch_of_drop hfits hdrop, Disassembly.ofCode, if_neg hguard, hdrop, Disassembly.ofBytes]
  generalize machine.code.drop (machine.pc.toNat + 1) = rest
  cases Operation.ofByte? machine.code[machine.pc.toNat] with
  | none => exact .unknown _
  | some op =>
    dsimp only
    by_cases hcut : rest.length < op.shape.width
    · rw [if_pos hcut, if_pos hcut]
      exact .cut
    · have hargs : (rest.take op.shape.width).length = op.shape.width :=
        List.length_take_of_le (Nat.le_of_not_lt hcut)
      have hrender := Disassembly.render_append hargs (rest.drop op.shape.width)
      rw [List.take_append_drop] at hrender
      rw [if_neg hcut, if_neg hcut, hrender]
      exact .whole ⟨op, rest.take op.shape.width, hargs⟩

end Fits

theorem Loaded.code_eq {cartridge : Cartridge} {machine : Machine} (h : machine.Loaded cartridge)
    (hfits : cartridge.code.length ≤ ramSize) : machine.code = cartridge.code := by
  rw [code, h.ram, h.codeSize, toList_memory_of_le hfits, List.take_left]

-- The fault that the answer of a tick reports.
def reported? : Except MachineError Bool → Option RunFault
  | .error (.runtime _ _ fault) => some fault
  | _ => none

@[simp]
theorem reported?_faultAt (listing : Option Program) (pc : Int) (fault : RunFault) :
    reported? (.error (faultAt listing pc fault)) = some fault := by
  cases listing <;> rfl

@[simp]
theorem reported?_answer (listing : Option Program) (machine : Machine) (decoded : Decoded) :
    reported? (decoded.answer listing machine) = decoded.fault? machine := by
  unfold Decoded.answer
  cases decoded.fault? machine with
  | none => rfl
  | some fault => exact reported?_faultAt listing machine.pc fault

theorem fault?_eq_some {decoded : Decoded} {machine : Machine} {fault : RunFault}
    (h : decoded.fault? machine = some fault) : fault = .jumpOutside := by
  cases decoded with
  | jump target =>
    simp only [Decoded.fault?, Option.ite_none_left_eq_some, Option.some.injEq] at h
    exact h.2.symm
  | _ => cases h

section Running

variable {machine : Machine}

-- What a tick does before the program has ended.
theorem tick_running (listing : Option Program) (hbooted : machine.booted)
    (hrunning : ¬machine.done) (hfits : machine.codeSize ≤ ramSize) :
    (∃ b, Disassembly.ofCode machine.code machine.pc = .error (.unknownByte b) ∧
      machine.tick listing = (machine, .error (faultAt listing machine.pc (.unknownByte b)))) ∨
    (Disassembly.ofCode machine.code machine.pc = .error .truncated ∧
      machine.tick listing = (machine, .error (faultAt listing machine.pc .operandsCut))) ∨
    ∃ (decoded : Decoded) (args : Bytes), machine.fetch = .ok (decoded.op, args) ∧
      Disassembly.ofCode machine.code machine.pc = .ok ⟨decoded.text, decoded.op.size⟩ ∧
      machine.tick listing = (decoded.execute machine, decoded.answer listing machine) := by
  have halike := alike hfits hrunning
  generalize hcode : Disassembly.ofCode machine.code machine.pc = read at halike
  generalize hfetch : machine.fetch = fetched at halike
  cases halike with
  | unknown b => exact .inl ⟨b, rfl, tick_of_fetch_error listing hbooted hrunning hfetch⟩
  | cut => exact .inr (.inl ⟨rfl, tick_of_fetch_error listing hbooted hrunning hfetch⟩)
  | whole block =>
    refine .inr (.inr ⟨.ofBlock block, block.args, ?_, ?_, ?_⟩)
    · rw [Decoded.op_ofBlock]
    · rw [Decoded.text_ofBlock, Decoded.op_ofBlock]
    · rw [tick_of_fetch listing hbooted hrunning hfetch, Decoded.perform_block]
      rfl

-- A machine and a disassembler read the same instruction at the same place of
-- the same code. The machine executes what the text says.
theorem executes_what_is_shown (listing : Option Program) (machine : Machine)
    (hbooted : machine.booted) (hrunning : ¬machine.done) (hfits : machine.codeSize ≤ ramSize) :
    let shown := Disassembly.ofCode (machine.ram.toList.take machine.codeSize) machine.pc
    let answer := (machine.tick listing).2
    (∀ b, reported? answer = some (.unknownByte b) ↔ shown = .error (.unknownByte b)) ∧
    (reported? answer = some .operandsCut ↔ shown = .error .truncated) ∧
    ∀ found, shown = .ok found →
      ∃ decoded : Decoded, found = ⟨decoded.text, decoded.op.size⟩ ∧
        (∀ other : Decoded, other.text = found.text → other = decoded) ∧
        machine.tick listing = (decoded.execute machine, decoded.answer listing machine) := by
  intro shown answer
  rcases tick_running listing hbooted hrunning hfits with
    ⟨b, hshown, htick⟩ | ⟨hshown, htick⟩ | ⟨decoded, args, -, hshown, htick⟩
  · rw [show shown = _ from hshown, show answer = _ from congrArg Prod.snd htick,
      reported?_faultAt]
    simp
  · rw [show shown = _ from hshown, show answer = _ from congrArg Prod.snd htick,
      reported?_faultAt]
    simp
  · have hreported (fault : RunFault) (h : fault ≠ .jumpOutside) :
        decoded.fault? machine ≠ some fault := fun hfault => h (fault?_eq_some hfault)
    rw [show shown = _ from hshown, show answer = _ from congrArg Prod.snd htick,
      reported?_answer]
    refine ⟨fun b => by simp [hreported], by simp [hreported], ?_⟩
    rintro found ⟨⟩
    exact ⟨decoded, rfl, fun other hsame => Decoded.text_injective hsame, htick⟩

-- Tiles are drawn one pixel to the left of the screen.
theorem executes_what_is_shown_off_screen :
    let machine := (unbooted.boot ⟨0, [0x08, 0xFF, 0xFF, 0x10, 0x00], []⟩).1
    machine.booted ∧ ¬machine.done ∧ machine.codeSize ≤ ramSize ∧
      Disassembly.ofCode (machine.ram.toList.take machine.codeSize) machine.pc =
        .ok ⟨"DRAW_BTP 65535, 16", 5⟩ ∧
      machine.tick none = ((Decoded.drawTiles (-1) 16).execute machine, .ok true) := by
  intro machine
  have hloaded : machine.Loaded ⟨0, [0x08, 0xFF, 0xFF, 0x10, 0x00], []⟩ :=
    (boot_loaded unbooted (by decide)).2
  have hfits : machine.codeSize ≤ ramSize := by
    rw [hloaded.codeSize]
    decide
  have hrunning : ¬machine.done := by decide
  have hshown : Disassembly.ofCode (machine.ram.toList.take machine.codeSize) machine.pc =
      .ok ⟨"DRAW_BTP 65535, 16", 5⟩ := by
    rw [show machine.ram.toList.take machine.codeSize = _ from hloaded.code_eq (by decide)]
    decide +kernel
  obtain ⟨-, -, hexecuted⟩ := executes_what_is_shown none machine hloaded.booted hrunning hfits
  obtain ⟨decoded, -, hunique, htick⟩ := hexecuted _ hshown
  obtain rfl := hunique (.drawTiles (-1) 16) (by decide +kernel)
  exact ⟨hloaded.booted, hrunning, hfits, hshown, htick⟩

end Running

end Machine

end TileConsole
