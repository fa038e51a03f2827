import Mathlib.Logic.Function.Iterate
import TileConsole.Proofs.Machine.Loaded
import TileConsole.Proofs.Program.Location

namespace TileConsole

theorem Program.LaidOut.lineOf_eq {program : Program} (h : program.LaidOut)
    (hfits : Numeral.fitsInt64 program.code.length) {inst : Instruction} {offset : Int}
    (howns : program.Owns inst offset) : program.lineOf offset = inst.line := by
  rw [lineOf, h.locate?_of_owns hfits howns]

namespace Machine

theorem Loaded.ticks {cartridge : Cartridge} {machine : Machine} (h : machine.Loaded cartridge)
    (listing : Option Program) (count : Nat) :
    ((fun current => (Machine.tick listing current).1)^[count] machine).Loaded cartridge :=
  Function.Iterate.rec (Loaded cartridge) h (fun _ hcurrent => hcurrent.tick listing) count

-- A tick only fails inside the code. Its error was put together before the
-- program counter moved.
theorem error_of_tick {listing : Option Program} {machine : Machine} (hbooted : machine.booted)
    {error : MachineError} (h : (machine.tick listing).2 = .error error) :
    ¬machine.done ∧ ∃ fault, error = faultAt listing machine.pc fault := by
  have hrunning : ¬machine.done := by
    intro hdone
    rw [tick_of_done listing hbooted hdone] at h
    cases h
  refine ⟨hrunning, ?_⟩
  cases hfetch : machine.fetch with
  | error fault =>
    rw [tick_of_fetch_error listing hbooted hrunning hfetch] at h
    exact ⟨fault, (Except.error.inj h).symm⟩
  | ok found =>
    rw [tick_of_fetch listing hbooted hrunning hfetch] at h
    dsimp only at h
    split at h
    case h_1 fault _ => exact ⟨fault, (Except.error.inj h).symm⟩
    case h_2 => cases h

-- However a machine came to where it fails, also to a place between two
-- instructions of the source, its error names the line of the one instruction
-- that the byte at the program counter comes from.
theorem errors_name_their_line (mode : Mode) (source : Stream) (program : Program)
    (h : Assembly.ofStream mode source = .ok program) (hfits : program.code.length ≤ ramSize)
    (machine : Machine) (entry : UInt32) (graphics : Bytes) (count : Nat) :
    let start := (machine.boot ⟨entry, program.code, graphics⟩).1
    let current := (fun before => (tick (some program) before).1)^[count] start
    ∀ error, (current.tick (some program)).2 = .error error →
      ∃ inst fault, error = .runtime inst.line current.pc fault ∧
        0 ≤ current.pc ∧ current.pc < current.codeSize ∧ program.Owns inst current.pc ∧
        1 ≤ inst.line ∧ inst.ReadFrom source.bytes := by
  intro start current error herror
  have hlaidOut := Assembly.laidOut (Assembly.ofLines_of_ofStream h)
  have hloaded : current.Loaded ⟨entry, program.code, graphics⟩ :=
    (@boot_loaded machine ⟨entry, program.code, graphics⟩ hfits).2.ticks (some program) count
  obtain ⟨hrunning, fault, rfl⟩ := error_of_tick hloaded.booted herror
  obtain ⟨hstart, hend⟩ := pc_lt_of_not_done hrunning
  have hsize : current.codeSize = program.code.length := hloaded.codeSize
  obtain ⟨inst, howns⟩ := hlaidOut.exists_owner hstart (by omega)
  have hmemory : Numeral.fitsInt64 program.code.length := by
    apply Numeral.fitsInt64_natCast
    exact hfits.trans (by decide)
  have hread : inst.ReadFrom source.bytes := by
    obtain ⟨before, after, hsplit, -⟩ := id howns
    exact Assembly.readFrom_of_mem h (by simp [hsplit])
  refine ⟨inst, fault, ?_, hstart, by omega, howns, ?_, hread⟩
  · rw [faultAt, hlaidOut.lineOf_eq hmemory howns]
  · obtain ⟨index, -, hline, -⟩ := hread
    omega

-- The first jump leads to the operand of the second instruction, which reads as
-- another jump. That one leaves the code, and the error still names the place and
-- the line that it came from.
theorem errors_name_their_line_between_instructions :
    let source := Stream.whole (Text.toBytes "JMP 4\nSET_A 4\nSET_X 9")
    ∃ program, Assembly.ofStream .strict source = .ok program ∧ program.code.length ≤ ramSize ∧
      let start := (unbooted.boot ⟨0, program.code, []⟩).1
      let current := (fun before => (tick (some program) before).1)^[1] start
      (current.tick (some program)).2 = .error (.runtime 2 4 .jumpOutside) ∧
        (current.tick (some program)).1.pc = 8 ∧
        ∃ inst, program.Owns inst 4 ∧ inst.line = 2 ∧ inst.ReadFrom source.bytes := by
  intro source
  have hassembled : (Assembly.ofStream .strict source).toOption.map (fun program =>
      (program.code, program.lineOf 4)) =
        some ([0x04, 0x04, 0x00, 0x01, 0x04, 0x02, 0x09, 0x00], 2) := by
    decide +kernel
  cases hsource : Assembly.ofStream .strict source with
  | error error =>
    rw [hsource] at hassembled
    cases hassembled
  | ok program =>
    rw [hsource] at hassembled
    obtain ⟨hcode, hline⟩ := Prod.mk.inj (Option.some.inj hassembled)
    have hfits : program.code.length ≤ ramSize := by
      rw [hcode]
      decide
    refine ⟨program, rfl, hfits, ?_⟩
    intro start current
    have hlength : program.code.length = 8 := congrArg List.length hcode
    have hstart : start.Loaded ⟨0, program.code, []⟩ := (@boot_loaded unbooted _ hfits).2
    have hcurrent : current.Loaded ⟨0, program.code, []⟩ := hstart.ticks (some program) 1
    have hpc : current.pc = 4 := by
      have hentry : start.pc = 0 := congrArg (·.1.pc) (boot_of_le unbooted hfits)
      have hinside : ¬start.codeSize ≤ Bytes.toNat [0x04, 0x00] := by
        rw [hstart.codeSize, hlength]
        decide
      change (start.tick (some program)).1.pc = 4
      rw [@Loaded.tick_eq _ _ hstart hfits 0 hentry .jump [0x04, 0x00]
        [0x01, 0x04, 0x02, 0x09, 0x00] hcode rfl]
      simp only [perform, if_neg hinside]
      rfl
    have houtside : current.codeSize ≤ Bytes.toNat [0x02, 0x09] := by
      rw [hcurrent.codeSize, hlength]
      decide
    have htick := @Loaded.tick_eq _ _ hcurrent hfits 4 hpc .jump [0x02, 0x09] [0x00]
      (by rw [hcode]; rfl) rfl (some program)
    simp only [perform, if_pos houtside, faultAt, hpc, hline] at htick
    have herror : (current.tick (some program)).2 = .error (.runtime 2 4 .jumpOutside) := by
      rw [htick]
    have hstopped : (current.tick (some program)).1.pc = 8 := by
      rw [htick, hcurrent.codeSize, hlength]
      rfl
    obtain ⟨inst, fault, hsame, -, -, howns, -, hread⟩ :=
      errors_name_their_line .strict source program hsource hfits unbooted 0 [] 1 _ herror
    have hplace : program.Owns inst current.pc := howns
    rw [hpc] at hplace
    exact ⟨herror, hstopped, inst, hplace, (MachineError.runtime.inj hsame).1.symm, hread⟩

end Machine

end TileConsole
