import StackToHack.Proofs.StackMachine.Admissible

/-!
# The machine follows the stack machine

Stack code without functions is made into code, assembled and run. Whenever the stack machine is in
front of a command, the machine is in front of that command's block with the same memory, the two
scratch cells left aside (`Follows`). A command and its block keep it so (`follows_step`), and hence
whole runs do, of whatever length (`machine_follows_trace`).
-/

namespace StackToHack

open Hack StackMachine

/-! ## Where the blocks are -/

/-- The address of the block of a command, given by its number; the end of the program comes behind
the last one. -/
def start (unit : String) (commands : List Command) (index : Nat) : Nat :=
  match (generateCommands unit .fresh (commands.take index)).result with
  | .ok code => size code
  | .error _ => 0

section Blocks

variable {unit : String} {commands : List Command} {code : Code}

theorem start_of_generate {index : Nat}
    (h : (generateCommands unit .fresh (commands.take index)).result = .ok code) :
    start unit commands index = size code := by
  rw [start, h]

/-- The block of each command is in the code, between the start of that command and that of the
next. -/
theorem exists_block_at (hcode : (generateCommands unit .fresh commands).result = .ok code)
    {index : Nat} {command : Command} (hcommand : commands[index]? = some command) :
    ∃ before block behind,
      code = before ++ (.comment command.render :: block ++ behind) ∧
      command.code unit (Context.fresh.behind (commands.take index)) = .ok block ∧
      start unit commands index = size before ∧
      start unit commands (index + 1) = size before + size block := by
  obtain ⟨inside, rfl⟩ := List.getElem?_eq_some_iff.mp hcommand
  have captions : ((commands.take index).map Command.captioned).map Captioned.command =
      commands.take index := by
    rw [List.map_map]
    exact List.map_id _
  have whole : commands = commands.take index ++ commands[index] :: commands.drop (index + 1) := by
    rw [← List.drop_eq_getElem_cons, List.take_append_drop]
  have next : commands.take (index + 1) = commands.take index ++ [commands[index]] := by
    rw [List.take_add_one, hcommand]
    rfl
  rw [generateCommands, whole, List.map_append, List.map_cons] at hcode
  obtain ⟨before, block, behind, hbefore, hblock, rfl⟩ := exists_block_of_generate hcode
  rw [captions] at hblock
  refine ⟨before, block, behind, rfl, hblock, start_of_generate hbefore, ?_⟩
  have upTo : (generateCommands unit .fresh (commands.take (index + 1))).result =
      .ok (before ++ (.comment commands[index].render :: block)) := by
    rw [generateCommands, next, List.map_append]
    refine generate_append_eq_ok.mpr ⟨before, _, hbefore, ?_, rfl⟩
    rw [captions]
    exact generate_cons_eq_ok.mpr ⟨block, [], hblock, rfl, (List.append_nil _).symm⟩
  rw [start_of_generate upTo]
  simp

/-- The end of the program. -/
theorem start_length (hcode : (generateCommands unit .fresh commands).result = .ok code) :
    start unit commands commands.length = size code := by
  refine start_of_generate ?_
  rw [List.take_length]
  exact hcode

end Blocks

/-! ## The machine in front of a command -/

/-- Stack code and the program that is made of it. Its addresses are words, and its variables have
cells of their own. -/
structure Program (unit : String) (commands : List Command) (code : Code)
    (cells : String → Word) : Prop where
  admissible : Admissible unit commands
  generated : (generateCommands unit .fresh commands).result = .ok code
  fits : size code < 65536
  allocated : Allocates cells (items code)

/-- The machine is in front of the block of the next command, with the memory of the stack
machine. -/
structure Follows (unit : String) (commands : List Command) (config : Config) (state : State) :
    Prop where
  pc : state.pc = start unit commands config.next
  agree : state.core.ram.Agree config.ram

section Program

variable {unit : String} {commands : List Command} {code : Code} {cells : String → Word}
  (program : Program unit commands code cells)
include program

/-- The block of a command as the machine finds it. -/
theorem Program.block_at {index : Nat} {command : Command}
    (hcommand : commands[index]? = some command) :
    ∃ context block, command.code unit context = .ok block ∧ context.function = none ∧
      Installed (symbols cells (items code)) (assemble cells (items code))
        (start unit commands index) block ∧
      start unit commands (index + 1) = start unit commands index + size block ∧
      ∀ line ∈ block, line ∈ code := by
  have assembles := assembles_of_admissible program.admissible program.generated program.fits
  have installed := installed_assemble assembles cells
  obtain ⟨before, block, behind, hcode, hblock, hstart, hnext⟩ :=
    exists_block_at program.generated hcommand
  refine ⟨_, block, hblock, ?_, ?_, ?_, ?_⟩
  · refine Context.function_behind_eq_none (fun c member => ?_) rfl
    exact program.admissible.functionFree c (List.mem_of_mem_take member)
  · have atBlock : Installed (symbols cells (items code)) (assemble cells (items code))
        (0 + size before) (.comment command.render :: block ++ behind) := by
      rw [hcode] at installed ⊢
      exact installed.right
    rw [hstart]
    have inside := atBlock.2.2.left
    simpa using inside
  · rw [hnext, hstart]
  · intro line member
    rw [hcode]
    simp [member]

/-- A label stands for the start of the command that defines it. -/
theorem Program.target_eq_start {name : String} {index : Nat}
    (h : position? commands name = some index) :
    (symbols cells (items code) (Symbol.plain name).text).toNat = start unit commands index := by
  obtain ⟨inside, found, -⟩ := List.findIdx?_eq_some_iff_getElem.mp h
  have hcommand : commands[index]? = some (.label name) := by
    rw [List.getElem?_eq_getElem inside, of_decide_eq_true found]
  obtain ⟨context, block, hblock, outside, installed, -⟩ := program.block_at hcommand
  have made := Command.code_eq_ok hblock
  -- the block of a label is the mark alone, so the mark is where the block starts
  obtain rfl : block = Code.label _ := made
  rw [outside] at installed
  exact installed.1 _ rfl

/-- The cells of the statics that are used lie behind those of the registers. -/
theorem Program.isKept_static {index : UInt32} (loaded : .symbol (.static unit index) ∈ code) :
    IsKept (staticCells cells unit index) := by
  have isVariable := mem_variableTexts_static program.admissible program.generated loaded
  have low := program.allocated.low _ isVariable
  have high := program.allocated.high _ isVariable
  refine isKept_of_le ?_
  rw [staticCells, cell_toNat]
  omega

/-- A command that reads memory keeps away from the scratch cells as soon as it does so where it
goes through a register. -/
theorem Program.isKept_cell {config : Config} {region : Region} {index : UInt32}
    (hcommand : commands[config.next]? = some (.push (.region region) index))
    (avoids : AvoidsScratch commands (staticCells cells unit) config) :
    IsKept (region.cell (staticCells cells unit) config.ram index) := by
  obtain ⟨context, block, hblock, -, -, -, inCode⟩ := program.block_at hcommand
  obtain ⟨place, rfl, hplace⟩ := Command.code_eq_ok hblock
  have found := Code.place_eq_ok hplace
  split at found
  · next base hlayout => exact avoids region base index hlayout (.inl hcommand)
  -- the other regions keep away by where their cells are
  · next first hlayout =>
      obtain ⟨register, -, -, below⟩ := found
      rw [Region.cell, hlayout]
      exact isKept_of_lt below
  · next hlayout =>
      subst found
      rw [Region.cell, hlayout]
      exact program.isKept_static (inCode _ (by simp [Code.fetch]))

/-- Where a command goes on is where the stack machine goes on. -/
theorem Program.exit_eq_start {config : Config} {command : Command} {next : Nat}
    (h : next? commands config command = some next) :
    command.exit (start unit commands (config.next + 1))
      (fun name => (symbols cells (items code) (Symbol.plain name).text).toNat) config.ram =
        start unit commands next := by
  cases command with
  | goto name => exact program.target_eq_start h
  | ifGoto name =>
      rw [next?] at h
      rw [Command.exit]
      split at h
      · next zero => rw [if_pos zero, Option.some.inj h]
      · next nonzero =>
          rw [if_neg nonzero]
          exact program.target_eq_start h
  | function name locals => cases h
  | call name args => cases h
  | ret => cases h
  | _ => rw [← Option.some.inj h]; rfl

/-- **One command.** From in front of the block of a command, the machine comes to be in front of
the block of the command that the stack machine comes to, and stays in the block until then. -/
theorem follows_step {config config' : Config} {state : State}
    (follows : Follows unit commands config state)
    (hstep : StackMachine.step commands (staticCells cells unit) config =
      some config')
    (inRange : config.ram.StackInRange)
    (avoids : AvoidsScratch commands (staticCells cells unit) config) :
    ∃ n state', Steps (assemble cells (items code))
        (Set.Ico (start unit commands config.next) (start unit commands (config.next + 1)))
        n state state' ∧
      Follows unit commands config' state' := by
  obtain ⟨command, hcommand, hrest⟩ := Option.bind_eq_some_iff.mp hstep
  obtain ⟨next, hnext, hconfig⟩ := Option.bind_eq_some_iff.mp hrest
  obtain rfl : _ = config' := Option.some.inj hconfig
  obtain ⟨context, block, hblock, outside, installed, hsize, -⟩ := program.block_at hcommand
  obtain ⟨⟨a, d, ram⟩, pc⟩ := state
  obtain ⟨hpc, agree⟩ := follows
  obtain rfl : pc = start unit commands config.next := hpc
  have functionFree :=
    program.admissible.functionFree command (List.mem_of_getElem? hcommand)
  have agree : ram.Agree config.ram := agree
  obtain ⟨n, core, steps, hram⟩ := steps_block (a := a) (d := d) hblock installed
    (registersNamed cells (items code)) functionFree (agree.stackInRange inRange)
  rw [← hsize, outside, Command.exit_agree agree inRange] at steps
  rw [staticCells_symbols program.admissible program.generated] at hram
  refine ⟨n, _, steps, program.exit_eq_start hnext, hram.trans ?_⟩
  refine Command.effect_agree agree inRange fun region index hpush => ?_
  exact program.isKept_cell (hpush ▸ hcommand) avoids

omit program in
theorem StackMachine.Trace.shorten {statics : UInt32 → Address} {length : Nat}
    {trace : Nat → Config} (run : Trace commands statics (length + 1) trace) :
    Trace commands statics length trace where
  steps i hi := run.steps i (Nat.lt_succ_of_lt hi)
  inRange i hi := run.inRange i (Nat.le_succ_of_le hi)
  avoidsScratch i hi := run.avoidsScratch i (Nat.lt_succ_of_lt hi)

/-- **Whole runs.** From wherever the machine follows the stack machine, it follows it for as long
as the stack machine runs. -/
theorem follows_trace {length : Nat} {trace : Nat → Config} {state : State}
    (run : Trace commands (staticCells cells unit) length trace)
    (follows : Follows unit commands (trace 0) state) :
    ∃ machine : Nat → State, machine 0 = state ∧
      (∀ i ≤ length, Follows unit commands (trace i) (machine i)) ∧
      ∀ i < length, ∃ n, Steps (assemble cells (items code))
        (Set.Ico (start unit commands (trace i).next) (start unit commands ((trace i).next + 1)))
        n (machine i) (machine (i + 1)) := by
  induction length with
  | zero => exact ⟨fun _ => state, rfl, fun i h => Nat.le_zero.mp h ▸ follows, nofun⟩
  | succ length ih =>
      obtain ⟨machine, hfirst, hfollows, hsteps⟩ := ih run.shorten
      obtain ⟨n, last, steps, hlast⟩ := follows_step program (hfollows length (Nat.le_refl _))
        (run.steps length (Nat.lt_succ_self _)) (run.inRange length (Nat.le_succ _))
        (run.avoidsScratch length (Nat.lt_succ_self _))
      -- the states as far as they are known, and the new one from there on
      let longer (i : Nat) : State := if i ≤ length then machine i else last
      have before : ∀ i ≤ length, longer i = machine i := fun i h => if_pos h
      have behind : longer (length + 1) = last := if_neg (Nat.not_succ_le_self _)
      refine ⟨longer, (before 0 (Nat.zero_le _)).trans hfirst, ?_, ?_⟩
      · intro i hi
        rcases Nat.le_succ_iff.mp hi with hi | rfl
        · rw [before i hi]
          exact hfollows i hi
        · rw [behind]
          exact hlast
      · intro i hi
        rcases Nat.lt_succ_iff_lt_or_eq.mp hi with hi | rfl
        · rw [before i (Nat.le_of_lt hi), before (i + 1) hi]
          exact hsteps i hi
        · rw [before i (Nat.le_refl _), behind]
          exact ⟨n, steps⟩

/-- Behind the last command the machine stops. -/
theorem step_eq_none_of_follows {config : Config} {state : State}
    (follows : Follows unit commands config state) (hend : config.next = commands.length) :
    Hack.step (assemble cells (items code)) state = none := by
  have readable := readable_of_admissible program.admissible program.generated
  rw [step_eq_none_iff, length_assemble readable, follows.pc, hend, start_length program.generated]

end Program

/-- **The machine follows the stack machine.** The text that is made of stack code can be assembled.
Started at address 0 with anything in its own registers, the program passes, for every command of a
run of the stack machine, from the start of one block to the start of the next, always with the
memory that the stack machine has, the scratch cells left aside. It stops where the stack machine
is behind the last command. -/
theorem machine_follows_trace {unit : String} {commands : List Command} {code : Code}
    {cells : String → Word} {length : Nat} {trace : Nat → Config}
    (program : Program unit commands code cells)
    (run : Trace commands (staticCells cells unit) length trace)
    (hfirst : (trace 0).next = 0) (a d : Word) :
    ∃ rom, assembleText? cells (render code) = some rom ∧
      ∃ machine : Nat → State, machine 0 = ⟨⟨a, d, (trace 0).ram⟩, 0⟩ ∧
        (∀ i ≤ length, (machine i).pc = start unit commands (trace i).next ∧
          (machine i).core.ram.Agree (trace i).ram) ∧
        (∀ i < length, ∃ n, Steps rom
          (Set.Ico (start unit commands (trace i).next) (start unit commands ((trace i).next + 1)))
          n (machine i) (machine (i + 1))) ∧
        ((trace length).next = commands.length → Hack.step rom (machine length) = none) := by
  have readable := readable_of_admissible program.admissible program.generated
  have first : Follows unit commands (trace 0) ⟨⟨a, d, (trace 0).ram⟩, 0⟩ :=
    ⟨by rw [hfirst]; rfl, .refl _⟩
  obtain ⟨machine, hmachine, hfollows, hsteps⟩ := follows_trace program run first
  refine ⟨_, assembleText?_render readable, machine, hmachine, ?_, hsteps, ?_⟩
  · exact fun i hi => ⟨(hfollows i hi).pc, (hfollows i hi).agree⟩
  · exact step_eq_none_of_follows program (hfollows length (Nat.le_refl _))

/-- Once around a loop. -/
theorem machine_follows_loop :
    let commands : List Command := [.label "A", .push .constant 1, .ifGoto "A"]
    let ram : Ram := fun address => if address = 0 then 256 else 0
    let trace : Nat → Config
      | 0 => ⟨0, ram⟩
      | 1 => ⟨1, ram⟩
      | 2 => ⟨2, ram.push 1⟩
      | _ => ⟨0, (ram.push 1).drop⟩
    ∃ code, (generateCommands "U" .fresh commands).result = .ok code ∧
      ∃ rom, assembleText? (fun _ => 16) (render code) = some rom ∧
        ∃ machine : Nat → State, machine 0 = ⟨⟨0, 0, ram⟩, 0⟩ ∧
          ∀ i ≤ 3, (machine i).pc = start "U" commands (trace i).next ∧
            (machine i).core.ram.Agree (trace i).ram := by
  intro commands ram trace
  have admissible : Admissible "U" commands := by
    have only : ∀ name ∈ labels commands, name = "A" := by decide
    refine ⟨by decide, by decide, by decide, by decide, by decide, by decide, ?_, ?_⟩ <;>
      intro name member <;> obtain rfl := only name member
    · intro index same
      have dot := dot_mem_text_static "U" index
      rw [← same] at dot
      exact absurd dot (by decide)
    · intro arm number same
      have underscore := underscore_mem_text_comparison arm number
      rw [← same] at underscore
      exact absurd underscore (by decide)
  obtain ⟨code, hcode, hsize, hvariables⟩ : ∃ code,
      (generateCommands "U" .fresh commands).result = .ok code ∧ size code < 65536 ∧
        variableTexts (items code) = [] := ⟨_, rfl, by decide, by decide⟩
  have allocated : Allocates (fun _ => 16) (items code) := by
    constructor <;> rw [hvariables] <;> exact nofun
  have run : Trace commands (staticCells (fun _ => 16) "U") 3 trace := by
    refine ⟨?_, ?_, ?_⟩
    · intro i hi
      rcases i with _ | _ | _ | i
      · rfl
      · rfl
      · have taken : (ram.push 1).top ≠ 0 := by decide
        have back : next? commands ⟨2, ram.push 1⟩ (.ifGoto "A") = some 0 := by
          rw [next?, if_neg taken]
          rfl
        show (next? commands ⟨2, ram.push 1⟩ (.ifGoto "A")).bind _ = _
        rw [back]
        rfl
      · omega
    · intro i hi
      have behind : ((ram.push 1).drop).StackInRange := ⟨by decide, by decide⟩
      rcases i with _ | _ | _ | i
      · exact ⟨by decide, by decide⟩
      · exact ⟨by decide, by decide⟩
      · exact ⟨by decide, by decide⟩
      · exact behind
    · intro i hi region base index hlayout hcommand
      rcases i with _ | _ | _ | i
      · simp [commands, trace] at hcommand
      · simp [commands, trace] at hcommand
      · simp [commands, trace] at hcommand
      · omega
  obtain ⟨rom, assembled, machine, hfirst, hfollows, -⟩ :=
    machine_follows_trace ⟨admissible, hcode, hsize, allocated⟩ run rfl 0 0
  exact ⟨code, hcode, rom, assembled, machine, hfirst, hfollows⟩

end StackToHack
