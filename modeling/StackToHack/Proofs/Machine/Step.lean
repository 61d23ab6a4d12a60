import Mathlib.Order.Interval.Set.Defs
import StackToHack.Hack.Line
import StackToHack.Proofs.Machine.Memory

/-!
# Steps of the machine

The machine has two registers of its own, `A` and `D`, besides its memory (`Core`), and the address
of the next instruction. `M` is the cell that `A` points at. Everything that an instruction reads
it reads before it changes anything: it writes to the cell that `A` pointed at, and a jump goes to
the word that `A` held.

The machine stops where its program has no instruction.
-/

namespace StackToHack.Hack

/-! ## State -/

/-- What the machine computes with. -/
structure Core where
  a : Word
  d : Word
  ram : Ram

/-- Where only the memory is known. -/
theorem Core.exists_eq_of_ram_eq {core : Core} {ram : Ram} (h : core.ram = ram) :
    ∃ a d, core = ⟨a, d, ram⟩ :=
  ⟨core.a, core.d, h ▸ rfl⟩

structure State where
  core : Core
  pc : Nat

/-! ## Computing -/

def Operand.value (core : Core) : Operand → Word
  | .a => core.a
  | .m => core.ram (cell core.a)

/-- The word that the arithmetic unit makes. -/
def Comp.value (core : Core) : Comp → Word
  | .zero => 0
  | .one => 1
  | .minusOne => -1
  | .d => core.d
  | .notD => ~~~core.d
  | .negD => -core.d
  | .incD => core.d + 1
  | .decD => core.d - 1
  | .read y => y.value core
  | .not y => ~~~(y.value core)
  | .neg y => -(y.value core)
  | .inc y => y.value core + 1
  | .dec y => y.value core - 1
  | .add y => core.d + y.value core
  | .sub y => core.d - y.value core
  | .subFrom y => y.value core - core.d
  | .and y => core.d &&& y.value core
  | .or y => core.d ||| y.value core

/-- Whether a jump is taken. The word counts as a signed number. -/
def Jump.taken (word : Word) : Jump → Bool
  | .never => false
  | .gt => decide (0 < word.toInt)
  | .eq => decide (word.toInt = 0)
  | .ge => decide (0 ≤ word.toInt)
  | .lt => decide (word.toInt < 0)
  | .ne => decide (word.toInt ≠ 0)
  | .le => decide (word.toInt ≤ 0)
  | .always => true

def Dest.store (dest : Dest) (core : Core) (word : Word) : Core where
  a := if dest.a then word else core.a
  d := if dest.d then word else core.d
  ram := if dest.m then core.ram.set (cell core.a) word else core.ram

@[simp] theorem store_none (core : Core) (word : Word) : Dest.none.store core word = core := rfl

@[simp] theorem store_onlyA (core : Core) (word : Word) :
    Dest.onlyA.store core word = { core with a := word } :=
  rfl

@[simp] theorem store_onlyD (core : Core) (word : Word) :
    Dest.onlyD.store core word = { core with d := word } :=
  rfl

@[simp] theorem store_onlyM (core : Core) (word : Word) :
    Dest.onlyM.store core word = { core with ram := core.ram.set (cell core.a) word } :=
  rfl

@[simp] theorem store_am (core : Core) (word : Word) :
    Dest.am.store core word = { core with a := word, ram := core.ram.set (cell core.a) word } :=
  rfl

/-! ## Instructions -/

/-- What the machine executes: a line without the symbols. -/
inductive Instruction
  | load (word : Word)
  | compute (dest : Dest) (comp : Comp) (jump : Jump)
  deriving DecidableEq

namespace Instruction

/-- What an instruction does besides choosing the next one. -/
def effect (core : Core) : Instruction → Core
  | .load word => { core with a := word }
  | .compute dest comp _ => dest.store core (comp.value core)

/-- The address of the instruction that follows. -/
def next (state : State) : Instruction → Nat
  | .load _ => state.pc + 1
  | .compute _ comp jump =>
    if jump.taken (comp.value state.core) then state.core.a.toNat else state.pc + 1

end Instruction

/-- The instructions of a program, from address 0 on. -/
abbrev Rom := List Instruction

def step (rom : Rom) (state : State) : Option State :=
  rom[state.pc]?.map fun instruction =>
    { core := instruction.effect state.core, pc := instruction.next state }

/-- The state after a number of steps, unless the machine stops before. -/
def run (rom : Rom) : Nat → State → Option State
  | 0, state => some state
  | n + 1, state => (step rom state).bind (run rom n)

/-- The machine stops exactly where there is no instruction. -/
theorem step_eq_none_iff {rom : Rom} {state : State} :
    step rom state = none ↔ rom.length ≤ state.pc := by
  simp [step]

/-! ## Stretches of a run -/

/-- A number of steps lead from one state to another, and all instructions on the way lie in a
range of addresses. -/
def Steps (rom : Rom) (range : Set Nat) : Nat → State → State → Prop
  | 0, first, last => first = last
  | n + 1, first, last =>
    first.pc ∈ range ∧ ∃ second, step rom first = some second ∧ Steps rom range n second last

namespace Steps

variable {rom : Rom} {range wider : Set Nat} {m n : Nat} {first second last : State}

theorem refl (state : State) : Steps rom range 0 state state := rfl

theorem one (inside : first.pc ∈ range) (h : step rom first = some last) :
    Steps rom range 1 first last :=
  ⟨inside, last, h, rfl⟩

theorem trans (before : Steps rom range m first second) (after : Steps rom range n second last) :
    Steps rom range (m + n) first last := by
  induction m generalizing first with
  | zero =>
      obtain rfl := before
      simpa using after
  | succ m ih =>
      obtain ⟨inside, next, hstep, rest⟩ := before
      rw [Nat.add_right_comm]
      exact ⟨inside, next, hstep, ih rest⟩

theorem mono (h : Steps rom range n first last) (sub : range ⊆ wider) :
    Steps rom wider n first last := by
  induction n generalizing first with
  | zero => exact h
  | succ n ih =>
      obtain ⟨inside, next, hstep, rest⟩ := h
      exact ⟨sub inside, next, hstep, ih rest⟩

/-- A stretch is what the machine does when it is run. -/
theorem run_eq (h : Steps rom range n first last) : run rom n first = some last := by
  induction n generalizing first with
  | zero => exact congrArg some h
  | succ n ih =>
      obtain ⟨-, next, hstep, rest⟩ := h
      rw [run, hstep]
      exact ih rest

end Steps

-- the number of steps is often the size of a block, which nothing should have to count
attribute [irreducible] Steps

end StackToHack.Hack
