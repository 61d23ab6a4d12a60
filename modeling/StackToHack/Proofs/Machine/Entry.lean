import StackToHack.Proofs.Faults
import StackToHack.Proofs.Machine.Assembler
import StackToHack.Proofs.Spelling
import StackToHack.Run

/-!
# What the entry of a function does

The block of a function pushes its locals in a loop that the machine runs. In front of every round
as many zeros are on the stack as `R13` says (`counted`): a round adds one of each, and the loop is
left as soon as the number is that of the locals. The counter lies below the stack, so neither gets
into the way of the other.
-/

namespace StackToHack.Hack.Ram

theorem pushAll_concat (ram : Ram) (words : List Word) (word : Word) :
    ram.pushAll (words ++ [word]) = (ram.pushAll words).push word :=
  List.foldl_append

/-- A register other than the stack pointer can be set before a word is pushed or after it. -/
theorem push_set {ram : Ram} (inRange : ram.StackInRange) {register : Register}
    (h : register.cell ≠ Register.sp.cell) (word other : Word) :
    (ram.set register.cell word).push other = (ram.push other).set register.cell word := by
  have far : register.cell ≠ cell ram.sp :=
    (register.ne_cell (Nat.le_trans (by decide) inRange.le_cell_sp)).symm
  have sameSp : (ram.set register.cell word).sp = ram.sp := reg_set_of_ne h.symm
  rw [push, push, sameSp]
  simp only [set]
  rw [Function.update_comm far, Function.update_comm h]

end StackToHack.Hack.Ram

namespace StackToHack.Code

open Hack

/-! ## Memory in front of a round -/

/-- So many zeros are on the stack, and `R13` holds their number. -/
def counted (ram : Ram) (count : Nat) : Ram :=
  (ram.pushAll (List.replicate count 0)).set Register.r13.cell (BitVec.ofNat 16 count)

/-- Memory behind the entry of a function, cell by cell. -/
structure Entered (locals : Nat) (ram ram' : Ram) : Prop where
  sp : ram'.sp.toNat = ram.sp.toNat + locals
  zeros : ∀ address : Address, ram.sp.toNat ≤ address.toNat →
    address.toNat < ram.sp.toNat + locals → ram' address = 0
  counter : (ram'.reg .r13).toNat = locals
  others : ∀ address, address ≠ Register.sp.cell → address ≠ Register.r13.cell →
    address.toNat < ram.sp.toNat ∨ ram.sp.toNat + locals ≤ address.toNat →
      ram' address = ram address

section Counted

variable (ram : Ram) (count : Nat)

theorem reg_counted : (counted ram count).reg .r13 = BitVec.ofNat 16 count := Ram.reg_set_self ..

theorem sp_counted : (counted ram count).sp = (ram.pushAll (List.replicate count 0)).sp :=
  Ram.reg_set_of_ne (by decide)

variable {ram count} (inRange : ram.StackInRange) (room : ram.sp.toNat + count ≤ 32767)
include inRange room

theorem pushed_zeros :
    ram.Pushed (ram.pushAll (List.replicate count 0)) (List.replicate count 0) :=
  Ram.pushed_pushAll inRange (by rwa [List.length_replicate])

theorem toNat_sp_zeros :
    (ram.pushAll (List.replicate count 0)).sp.toNat = ram.sp.toNat + count := by
  rw [(pushed_zeros inRange room).sp, List.length_replicate, Ram.toNat_add_ofNat room]

theorem stackInRange_zeros : (ram.pushAll (List.replicate count 0)).StackInRange := by
  have moved := toNat_sp_zeros inRange room
  have base := inRange.base
  exact ⟨by omega, by omega⟩

theorem stackInRange_counted : (counted ram count).StackInRange := by
  have zeros := stackInRange_zeros inRange room
  have same := sp_counted ram count
  exact ⟨by rw [same]; exact zeros.base, by rw [same]; exact zeros.limit⟩

/-- One more zero, counted. -/
theorem counted_succ :
    ((counted ram count).push 0).set Register.r13.cell (BitVec.ofNat 16 count + 1) =
      counted ram (count + 1) := by
  have zeros := stackInRange_zeros inRange room
  have next : BitVec.ofNat 16 count + 1 = BitVec.ofNat 16 (count + 1) :=
    (BitVec.ofNat_add ..).symm
  rw [counted, Ram.push_set zeros (by decide), counted, List.replicate_succ', Ram.pushAll_concat,
    next]
  exact Function.update_idem ..

theorem entered_counted : Entered count ram (counted ram count) := by
  have pushed := pushed_zeros inRange room
  have moved := toNat_sp_zeros inRange room
  have base := inRange.base
  constructor
  · rw [sp_counted, moved]
  · intro address low high
    -- the cell is one of those that were pushed, counted from the old stack pointer
    let i := address.toNat - ram.sp.toNat
    have sum : (ram.sp + BitVec.ofNat 16 i).toNat = ram.sp.toNat + i :=
      Ram.toNat_add_ofNat (by omega)
    have place : cell (ram.sp + BitVec.ofNat 16 i) = address := by
      apply BitVec.eq_of_toNat_eq
      rw [Ram.cell_toNat_of_le (by omega)]
      omega
    have held := pushed.holds i (by rw [List.length_replicate]; omega)
    rw [place, List.getElem_replicate] at held
    rw [counted, Ram.set_of_ne (Register.ne_cell (by omega) _), held]
  · rw [reg_counted, BitVec.toNat_ofNat, Nat.mod_eq_of_lt (by omega)]
  · intro address notSp notCounter outside
    rw [counted, Ram.set_of_ne notCounter]
    exact pushed.others address notSp (by rwa [List.length_replicate])

end Counted

/-! ## The block -/

/-- Both symbols of the function, and the counter is cleared. -/
def opening (unit name : String) : Code :=
  [.mark (.function unit name), .mark (.plain name), .register .r13, .set .onlyM .zero]

/-- What is left to push is in `D` and the way out of the loop in `A`. -/
def test (unit name : String) (locals : Nat) : Code :=
  [.number locals, .set .onlyD (.read .a), .register .r13, .set .onlyD (.sub .m),
   .symbol (.localsEnd unit name)]

/-- One zero more, and the way back to the test in `A`. -/
def round (unit name : String) : Code :=
  .set .onlyD .zero :: (pushD ++
    [.register .r13, .set .onlyM (.inc .m), .symbol (.localsLoop unit name)])

theorem enter_eq (unit name : String) (locals : Nat) :
    enter unit name locals =
      opening unit name ++ .mark (.localsLoop unit name) ::
        (test unit name locals ++ .goto .d .eq ::
          (round unit name ++ .goto .zero .always :: ([] ++ .mark (.localsEnd unit name) :: []))) :=
  rfl

variable {symbols : Symbols} {rom : Rom} {pc : Nat} {a d : Word} {ram : Ram} {unit name : String}
  {locals count : Nat}

theorem size_opening : size (opening unit name) = 2 := rfl

theorem size_test : size (test unit name locals) = 5 := rfl

theorem size_round : size (round unit name) = 9 := rfl

theorem size_enter : size (enter unit name locals) = 18 := by
  simp [enter_eq, size_opening, size_test, size_round]

section Effects

variable (named : RegistersNamed symbols)
include named

theorem effects_opening :
    effects symbols (opening unit name) ⟨a, d, ram⟩ =
      ⟨Register.r13.word, d, counted ram 0⟩ := by
  simp [opening, effect_register named, Comp.value, counted]

theorem effects_test :
    effects symbols (test unit name locals) ⟨a, d, ram⟩ =
      ⟨symbols (Symbol.localsEnd unit name).text, BitVec.ofNat 16 locals - ram.reg .r13, ram⟩ := by
  simp [test, effect_register named, Comp.value, Operand.value, Ram.apply_cell]

theorem effects_round (inRange : ram.StackInRange) (room : ram.sp.toNat + count ≤ 32767) :
    effects symbols (round unit name) ⟨a, d, counted ram count⟩ =
      ⟨symbols (Symbol.localsLoop unit name).text, 0, counted ram (count + 1)⟩ := by
  have inRange' := stackInRange_counted inRange room
  have kept : ((counted ram count).push 0).reg .r13 = BitVec.ofNat 16 count :=
    (Ram.reg_push inRange' (by decide) 0).trans (reg_counted ..)
  rw [← counted_succ inRange room, ← kept]
  simp [round, effects_pushD named inRange', effect_register named, Comp.value, Operand.value,
    Ram.apply_cell]

end Effects

/-! ## The loop -/

section Loop

variable (h : Installed symbols rom pc (enter unit name locals))
include h

theorem installed_test :
    Installed symbols rom (pc + 2) (test unit name locals ++ .goto .d .eq ::
      (round unit name ++ .goto .zero .always :: ([] ++ .mark (.localsEnd unit name) :: []))) := by
  rw [enter_eq] at h
  exact h.behind_line (show _ + 0 = 2 by rw [size_opening])

theorem installed_round :
    Installed symbols rom (pc + 8)
      (round unit name ++ .goto .zero .always :: ([] ++ .mark (.localsEnd unit name) :: [])) :=
  (installed_test h).behind_line (show _ + 1 = 6 by rw [size_test])

theorem symbols_localsLoop : (symbols (Symbol.localsLoop unit name).text).toNat = pc + 2 := by
  rw [enter_eq] at h
  exact h.mark size_opening

theorem symbols_localsEnd : (symbols (Symbol.localsEnd unit name).text).toNat = pc + 18 :=
  ((installed_round h).behind_line (show _ + 1 = 10 by rw [size_round])).mark rfl

variable (named : RegistersNamed symbols)
include named

theorem steps_opening (ram : Ram) :
    Steps rom (Set.Ico pc (pc + 2)) 2 ⟨⟨a, d, ram⟩, pc⟩
      ⟨⟨Register.r13.word, d, counted ram 0⟩, pc + 2⟩ := by
  rw [enter_eq] at h
  have opened := steps_straight h.left rfl ⟨a, d, ram⟩
  rwa [effects_opening named, size_opening] at opened

/-- The loop is left when the counter has reached the number of locals. -/
theorem steps_test (ram : Ram) (small : locals ≤ 32767) (le : count ≤ locals) :
    ∃ a' d', Steps rom (Set.Ico (pc + 2) (pc + 8)) 6 ⟨⟨a, d, counted ram count⟩, pc + 2⟩
      ⟨⟨a', d', counted ram count⟩, if count = locals then pc + 18 else pc + 8⟩ := by
  have leave : (BitVec.ofNat 16 locals - BitVec.ofNat 16 count).toInt = 0 ↔ count = locals := by
    rw [toInt_sub_eq_zero_iff, ← BitVec.toNat_inj, BitVec.toNat_ofNat, BitVec.toNat_ofNat]
    omega
  have tested := steps_straight_compute (installed_test h) rfl ⟨a, d, counted ram count⟩
    (effects_test named)
  rw [size_test, reg_counted] at tested
  simp only [Jump.taken, Comp.value, store_none, leave, symbols_localsEnd h, decide_eq_true_eq]
    at tested
  exact ⟨_, _, tested⟩

/-- A round goes back to the test. -/
theorem steps_round (inRange : ram.StackInRange) (room : ram.sp.toNat + count ≤ 32767) :
    ∃ a' d', Steps rom (Set.Ico (pc + 8) (pc + 18)) 10 ⟨⟨a, d, counted ram count⟩, pc + 8⟩
      ⟨⟨a', d', counted ram (count + 1)⟩, pc + 2⟩ := by
  have pushed := steps_straight_compute (installed_round h) rfl ⟨a, d, counted ram count⟩
    (effects_round named inRange room)
  simp only [Jump.taken, if_true, store_none, size_round, symbols_localsLoop h] at pushed
  exact ⟨_, _, pushed⟩

/-- As many times around the loop as there are locals, or fewer. -/
theorem steps_rounds (inRange : ram.StackInRange) (room : ram.sp.toNat + locals ≤ 32767)
    (le : count ≤ locals) :
    ∃ a' d', Steps rom (Set.Ico pc (pc + 18)) (16 * count) ⟨⟨a, d, counted ram 0⟩, pc + 2⟩
      ⟨⟨a', d', counted ram count⟩, pc + 2⟩ := by
  induction count with
  | zero => exact ⟨a, d, .refl _⟩
  | succ count ih =>
      obtain ⟨a₁, d₁, before⟩ := ih (by omega)
      obtain ⟨a₂, d₂, tested⟩ := steps_test (a := a₁) (d := d₁) h named ram
        (show locals ≤ 32767 by omega) (show count ≤ locals by omega)
      rw [if_neg (by omega)] at tested
      obtain ⟨a₃, d₃, pushed⟩ := steps_round (a := a₂) (d := d₂) h named inRange
        (show ram.sp.toNat + count ≤ 32767 by omega)
      refine ⟨a₃, d₃, before.trans ((tested.mono ?_).trans (pushed.mono ?_))⟩
      · exact Set.Ico_subset_Ico (by omega) (by omega)
      · exact Set.Ico_subset_Ico (by omega) (by omega)

/-- The block runs through to behind its end. -/
theorem steps_enter (inRange : ram.StackInRange) (room : ram.sp.toNat + locals ≤ 32767) :
    ∃ a' d', Steps rom (Set.Ico pc (pc + 18)) (16 * locals + 8) ⟨⟨a, d, ram⟩, pc⟩
      ⟨⟨a', d', counted ram locals⟩, pc + 18⟩ := by
  have opened := steps_opening (a := a) (d := d) h named ram
  obtain ⟨a₁, d₁, rounds⟩ := steps_rounds (a := Register.r13.word) (d := d) h named inRange room
    (Nat.le_refl locals)
  obtain ⟨a₂, d₂, left⟩ := steps_test (a := a₁) (d := d₁) h named ram
    (show locals ≤ 32767 by omega) (Nat.le_refl locals)
  rw [if_pos rfl] at left
  have whole := (opened.mono ?_).trans (rounds.trans (left.mono ?_))
  · rw [show 2 + (16 * locals + 6) = 16 * locals + 8 by omega] at whole
    exact ⟨a₂, d₂, whole⟩
  · exact Set.Ico_subset_Ico (by omega) (by omega)
  · exact Set.Ico_subset_Ico (by omega) (by omega)

end Loop

end StackToHack.Code

namespace StackToHack

open Hack

/-! ## Function commands -/

/-- **A function starts with its locals zeroed.** A function command whose count fits into one
instruction has a block, and wherever that is installed both of its symbols stand for where it
starts. From there, with room on the stack for the locals, the machine comes to behind the block and
has put as many zeros on the stack as the command says. Besides the stack pointer and the counter
nothing else is changed. -/
theorem function_zeroes_locals (unit name : String) (context : Context) (locals : UInt32)
    (accepted : locals.toNat ≤ 32767) :
    ∃ block, (Command.function name locals).code unit context = .ok block ∧
      ∀ symbols rom state, Code.RegistersNamed symbols → Installed symbols rom state.pc block →
        (symbols (unit ++ "." ++ name)).toNat = state.pc ∧ (symbols name).toNat = state.pc ∧
        (symbols (Symbol.localsEnd unit name).text).toNat = state.pc + size block ∧
        (256 ≤ state.core.ram.sp.toNat → state.core.ram.sp.toNat + locals.toNat ≤ 32767 →
          ∃ core, Steps rom (Set.Ico state.pc (state.pc + size block)) (16 * locals.toNat + 8)
              state ⟨core, state.pc + size block⟩ ∧
            Code.Entered locals.toNat state.core.ram core.ram) := by
  have small : ¬ 32767 < locals.toNat := Nat.not_lt.mpr accepted
  obtain ⟨block, emitted⟩ :
      ∃ block, (Command.function name locals).code unit context = .ok block := by
    have decided := Command.decided_code unit context (.function name locals)
    rw [Command.fault?, loadFault?, if_neg small] at decided
    exact decided
  obtain ⟨count, rfl, hcount⟩ := Command.code_eq_ok emitted
  obtain rfl := Code.eq_toNat_of_loadable hcount
  refine ⟨_, emitted, fun symbols rom state named installed => ?_⟩
  rw [Code.size_enter]
  refine ⟨installed.1 _ rfl, installed.2.2.1 _ rfl, Code.symbols_localsEnd installed, ?_⟩
  intro base room
  have inRange : state.core.ram.StackInRange := ⟨base, by omega⟩
  obtain ⟨a, d, steps⟩ := Code.steps_enter (a := state.core.a) (d := state.core.d) installed named
    inRange room
  exact ⟨_, steps, Code.entered_counted inRange room⟩

/-- Three locals over what was in memory before. -/
theorem function_zeroes_three_locals :
    let ram : Ram := fun address => if address = 0 then 256 else 99
    ∃ text rom, compile none [("Test", "function Foo.f 3 // locals\n")] = .ok text ∧
      assembleText? (fun _ => 16) text = some rom ∧
      ∃ core, run rom 56 ⟨⟨0, 0, ram⟩, 0⟩ = some ⟨core, 18⟩ ∧ core.ram.sp.toNat = 259 ∧
        (∀ address ∈ [256, 257, 258], core.ram address = 0) ∧ core.ram 259 = 99 := by
  intro ram
  obtain ⟨block, emitted, entered⟩ := function_zeroes_locals "Test" "Foo.f" .fresh 3 (by decide)
  obtain rfl : Code.enter "Test" "Foo.f" 3 = block := Except.ok.inj emitted
  let code : Code := .comment "function Foo.f 3" :: Code.enter "Test" "Foo.f" 3
  have compiled : compile none [("Test", "function Foo.f 3 // locals\n")] = .ok (render code) := by
    decide +kernel
  have unit : Name.IsName "Test" := by decide
  have name : Name.IsName "Foo.f" := by decide
  have entry : Within Symbol.Named (Code.enter "Test" "Foo.f" 3) :=
    within_enter Hack.Symbol.named_register ⟨unit, name⟩ name ⟨unit, name⟩ ⟨unit, name⟩ (by decide)
  have oneLine : '\n' ∉ "function Foo.f 3".toList := by decide
  have readable : Readable code := Spelled.readable (spelled_cons.mpr ⟨oneLine, entry.spelled⟩)
  have assembles : Assembles code := ⟨readable, by decide, by decide, by decide, by decide⟩
  have installed := (installed_assemble assembles fun _ => 16).2.2
  obtain ⟨-, -, -, runs⟩ := entered _ _ ⟨⟨0, 0, ram⟩, 0⟩ (registersNamed _ _) installed
  obtain ⟨core, steps, sp, zeros, -, others⟩ := runs (by decide) (by decide)
  refine ⟨_, _, compiled, assembleText?_render readable, core, steps.run_eq, sp, ?_, ?_⟩
  · intro address member
    have bounds : ∀ address ∈ ([256, 257, 258] : List Address), 256 ≤ address.toNat ∧
        address.toNat < 259 := by simp
    exact zeros address (bounds address member).1 (bounds address member).2
  · exact others 259 (by decide) (by decide) (.inr (by decide))

end StackToHack
