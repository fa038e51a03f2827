import TileConsole.Proofs.Machine.Fetch

namespace TileConsole.Machine

-- The memories of a machine are those of a cartridge that was booted.
structure Loaded (cartridge : Cartridge) (machine : Machine) : Prop where
  ram : machine.ram = memory ramSize cartridge.code
  vram : machine.vram = memory vramSize cartridge.graphics
  codeSize : machine.codeSize = cartridge.code.length
  booted : machine.booted

theorem boot_of_le (machine : Machine) {cartridge : Cartridge}
    (h : cartridge.code.length ≤ ramSize) :
    machine.boot cartridge =
      (⟨memory ramSize cartridge.code, memory vramSize cartridge.graphics, 0, 0,
        cartridge.entry.toNat, 0, cartridge.code.length, cartridge.entry.toNat, .blank, 0, true⟩,
        none) := by
  rw [boot, if_neg (Nat.not_lt.mpr h)]
  rfl

theorem boot_of_lt (machine : Machine) {cartridge : Cartridge}
    (h : ramSize < cartridge.code.length) :
    machine.boot cartridge = (machine, some ⟨cartridge.code.length⟩) :=
  if_pos h

theorem boot_loaded (machine : Machine) {cartridge : Cartridge}
    (h : cartridge.code.length ≤ ramSize) :
    (machine.boot cartridge).2 = none ∧ (machine.boot cartridge).1.Loaded cartridge := by
  rw [boot_of_le machine h]
  exact ⟨rfl, rfl, rfl, rfl, rfl⟩

-- Nothing that came from the cartridge has changed.
structure Keeps (machine next : Machine) : Prop where
  ram : next.ram = machine.ram
  vram : next.vram = machine.vram
  codeSize : next.codeSize = machine.codeSize
  entry : next.entry = machine.entry
  booted : next.booted = machine.booted

namespace Keeps

theorem refl (machine : Machine) : machine.Keeps machine :=
  ⟨rfl, rfl, rfl, rfl, rfl⟩

theorem trans {machine next last : Machine} (first : machine.Keeps next) (second : next.Keeps last) :
    machine.Keeps last :=
  ⟨second.ram.trans first.ram, second.vram.trans first.vram,
    second.codeSize.trans first.codeSize, second.entry.trans first.entry,
    second.booted.trans first.booted⟩

theorem perform (machine : Machine) (op : Operation) (args : Bytes) :
    machine.Keeps (machine.perform op args).1 := by
  cases op with
  | jump =>
    unfold Machine.perform
    dsimp only
    split
    · exact ⟨rfl, rfl, rfl, rfl, rfl⟩
    · exact ⟨rfl, rfl, rfl, rfl, rfl⟩
  | _ =>
    constructor <;> simp [Machine.perform, plot, drawTiles]

theorem tick (listing : Option Program) (machine : Machine) :
    machine.Keeps (machine.tick listing).1 := by
  rcases tick_cases listing machine with hsame | ⟨op, args, -, -, hperformed⟩
  · rw [hsame]
    exact refl machine
  · have hmoved : machine.Keeps
        { machine with pc := machine.pc + op.size, ticks := machine.ticks + 1 } :=
      ⟨rfl, rfl, rfl, rfl, rfl⟩
    rw [hperformed]
    exact hmoved.trans (perform _ op args)

end Keeps

section Step

variable {cartridge : Cartridge} {machine : Machine}

theorem Loaded.of_keeps {next : Machine} (h : machine.Loaded cartridge) (hkeeps : machine.Keeps next) :
    next.Loaded cartridge :=
  ⟨hkeeps.ram.trans h.ram, hkeeps.vram.trans h.vram, hkeeps.codeSize.trans h.codeSize,
    hkeeps.booted.trans h.booted⟩

theorem Loaded.tick (h : machine.Loaded cartridge) (listing : Option Program) :
    (machine.tick listing).1.Loaded cartridge :=
  h.of_keeps (Keeps.tick listing machine)

theorem Loaded.tick_eq (h : machine.Loaded cartridge) (hfits : cartridge.code.length ≤ ramSize)
    {pc : Nat} (hpc : machine.pc = pc) {op : Operation} {args rest : Bytes}
    (hdrop : cartridge.code.drop pc = op.code :: (args ++ rest))
    (hargs : args.length = op.shape.width) (listing : Option Program) :
    let moved := { machine with pc := machine.pc + op.size, ticks := machine.ticks + 1 }
    machine.tick listing = ((moved.perform op args).1,
      match (moved.perform op args).2 with
      | some fault => .error (faultAt listing machine.pc fault)
      | none => .ok (moved.perform op args).1.done) := by
  have hlength : cartridge.code.length - pc = args.length + rest.length + 1 := by
    simpa using congrArg List.length hdrop
  have hdone : ¬machine.done := by
    have hsize := h.codeSize
    simp only [Machine.done, Bool.or_eq_true, decide_eq_true_eq]
    omega
  exact tick_of_fetch listing h.booted hdone (fetch_eq h.ram h.codeSize hfits hpc hdrop hargs)

end Step

end TileConsole.Machine
