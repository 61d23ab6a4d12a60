import StackToHack.Proofs.Machine.Step
import Mathlib.Order.Interval.Set.Basic

/-!
# Blocks of code in a program

Comments and marks take no room in a program; every other line is one instruction, and what it
loads for a symbol is up to `symbols`. A block of lines is `Installed` at an address when its
instructions stand there in a row and each of its marks stands for the address it is at.

A block without jumps runs from its first line to behind its last one and does to the machine what
its lines do one after the other (`steps_straight`).
-/

namespace StackToHack.Hack

/-- The words that the texts of symbols stand for. -/
abbrev Symbols := String → Word

/-! ## Lines as instructions -/

namespace Line

/-- The number of instructions that a line makes. -/
def size : Line → Nat
  | .comment _ | .mark _ => 0
  | .number _ | .symbol _ | .compute _ _ _ => 1

@[simp] theorem size_comment (text : String) : (comment text).size = 0 := rfl

@[simp] theorem size_mark (s : Symbol) : (mark s).size = 0 := rfl

@[simp] theorem size_number (value : Nat) : (number value).size = 1 := rfl

@[simp] theorem size_symbol (s : Symbol) : (symbol s).size = 1 := rfl

@[simp] theorem size_register (r : Register) : (register r).size = 1 := rfl

@[simp] theorem size_set (dest : Dest) (comp : Comp) : (set dest comp).size = 1 := rfl

@[simp] theorem size_goto (comp : Comp) (jump : Jump) : (goto comp jump).size = 1 := rfl

def instruction? (symbols : Symbols) : Line → Option Instruction
  | .comment _ | .mark _ => none
  | .number value => some (.load (BitVec.ofNat 16 value))
  | .symbol s => some (.load (symbols s.text))
  | .compute dest comp jump => some (.compute dest comp jump)

/-- What a line does to the machine, jumps left aside. -/
def effect (symbols : Symbols) (core : Core) : Line → Core
  | .comment _ | .mark _ => core
  | .number value => { core with a := BitVec.ofNat 16 value }
  | .symbol s => { core with a := symbols s.text }
  | .compute dest comp _ => dest.store core (comp.value core)

@[simp] theorem effect_number (symbols : Symbols) (core : Core) (value : Nat) :
    (number value).effect symbols core = { core with a := BitVec.ofNat 16 value } :=
  rfl

@[simp] theorem effect_symbol (symbols : Symbols) (core : Core) (s : Symbol) :
    (symbol s).effect symbols core = { core with a := symbols s.text } :=
  rfl

@[simp] theorem effect_mark (symbols : Symbols) (core : Core) (s : Symbol) :
    (mark s).effect symbols core = core :=
  rfl

@[simp] theorem effect_set (symbols : Symbols) (core : Core) (dest : Dest) (comp : Comp) :
    (set dest comp).effect symbols core = dest.store core (comp.value core) :=
  rfl

/-- The line never jumps. -/
def isStraight : Line → Bool
  | .compute _ _ jump => jump == .never
  | _ => true

end Line

/-- The number of instructions of a block. -/
def size : Code → Nat
  | [] => 0
  | line :: rest => line.size + size rest

@[simp] theorem size_nil : size [] = 0 := rfl

@[simp] theorem size_cons (line : Line) (code : Code) :
    size (line :: code) = line.size + size code :=
  rfl

@[simp] theorem size_append (front back : Code) :
    size (front ++ back) = size front + size back := by
  induction front with
  | nil => simp
  | cons line front ih => rw [List.cons_append, size_cons, size_cons, ih, Nat.add_assoc]

/-- What the lines of a block do to the machine one after the other. -/
def effects (symbols : Symbols) (code : Code) (core : Core) : Core :=
  code.foldl (Line.effect symbols) core

@[simp] theorem effects_nil (symbols : Symbols) (core : Core) : effects symbols [] core = core :=
  rfl

@[simp] theorem effects_cons (symbols : Symbols) (line : Line) (code : Code) (core : Core) :
    effects symbols (line :: code) core = effects symbols code (line.effect symbols core) :=
  rfl

@[simp] theorem effects_append (symbols : Symbols) (front back : Code) (core : Core) :
    effects symbols (front ++ back) core = effects symbols back (effects symbols front core) := by
  simp [effects]

/-! ## Blocks in a program -/

/-- The lines stand in the program from an address on, and their marks are known by theirs. -/
def Installed (symbols : Symbols) (rom : Rom) : Nat → Code → Prop
  | _, [] => True
  | pc, line :: rest =>
    (∀ symbol, line = .mark symbol → (symbols symbol.text).toNat = pc) ∧
    (∀ instruction, line.instruction? symbols = some instruction → rom[pc]? = some instruction) ∧
    Installed symbols rom (pc + line.size) rest

section Installed

variable {symbols : Symbols} {rom : Rom} {pc : Nat} {line : Line} {front back code : Code}

theorem installed_append :
    Installed symbols rom pc (front ++ back) ↔
      Installed symbols rom pc front ∧ Installed symbols rom (pc + size front) back := by
  induction front generalizing pc with
  | nil => simp [Installed]
  | cons line front ih =>
      simp only [List.cons_append, Installed, ih, size_cons, Nat.add_assoc, and_assoc]

theorem Installed.left (h : Installed symbols rom pc (front ++ back)) :
    Installed symbols rom pc front :=
  (installed_append.mp h).1

theorem Installed.right (h : Installed symbols rom pc (front ++ back)) :
    Installed symbols rom (pc + size front) back :=
  (installed_append.mp h).2

/-- The back of a block, at a known distance. -/
theorem Installed.behind {distance : Nat} (h : Installed symbols rom pc (front ++ back))
    (hsize : size front = distance) : Installed symbols rom (pc + distance) back :=
  hsize ▸ h.right

theorem Installed.behind_line {distance : Nat}
    (h : Installed symbols rom pc (front ++ line :: back))
    (hsize : size front + line.size = distance) : Installed symbols rom (pc + distance) back := by
  rw [← hsize, ← Nat.add_assoc]
  exact h.right.2.2

/-- A mark in an installed block stands for the address it is at. -/
theorem Installed.mark {symbol : Symbol} {distance : Nat}
    (h : Installed symbols rom pc (front ++ .mark symbol :: back))
    (hsize : size front = distance) : (symbols symbol.text).toNat = pc + distance :=
  (h.behind hsize).1 symbol rfl

/-- One instruction of a block takes the machine to what its line does. -/
theorem step_of_installed (h : Installed symbols rom pc (line :: code)) (core : Core)
    {instruction : Instruction} (hline : line.instruction? symbols = some instruction) :
    step rom ⟨core, pc⟩ = some ⟨line.effect symbols core, instruction.next ⟨core, pc⟩⟩ := by
  have hrom := h.2.1 instruction hline
  rw [step, hrom, Option.map_some]
  cases line <;> simp only [Line.instruction?, reduceCtorEq, Option.some.injEq] at hline <;>
    subst hline <;> rfl

/-- A block without jumps runs through. -/
theorem steps_straight (h : Installed symbols rom pc code)
    (straight : code.all Line.isStraight = true) (core : Core) :
    Steps rom (Set.Ico pc (pc + size code)) (size code) ⟨core, pc⟩
      ⟨effects symbols code core, pc + size code⟩ := by
  induction code generalizing pc core with
  | nil => exact Steps.refl _
  | cons line code ih =>
      rw [List.all_cons, Bool.and_eq_true] at straight
      have rest := ih h.2.2 straight.2 (line.effect symbols core)
      rw [size_cons, effects_cons, ← Nat.add_assoc]
      cases hline : line.instruction? symbols with
      | none =>
          -- a comment or a mark: the machine is already where the rest starts
          have hsize : line.size = 0 := by
            cases line <;> simp_all [Line.instruction?, Line.size]
          have heffect : line.effect symbols core = core := by
            cases line <;> simp_all [Line.instruction?, Line.effect]
          simpa only [hsize, heffect, Nat.add_zero, Nat.zero_add] using rest
      | some instruction =>
          have hsize : line.size = 1 := by
            cases line <;> simp_all [Line.instruction?, Line.size]
          have hnext : instruction.next ⟨core, pc⟩ = pc + 1 := by
            cases line <;> simp_all [Line.instruction?, Line.isStraight] <;> subst hline <;>
              simp [Instruction.next, Jump.taken]
          have hstep := step_of_installed h core hline
          rw [hnext] at hstep
          rw [hsize] at rest ⊢
          have inside : pc ∈ Set.Ico pc (pc + 1 + size code) := ⟨Nat.le_refl _, by omega⟩
          refine Steps.trans (Steps.one inside hstep) (rest.mono ?_)
          exact Set.Ico_subset_Ico_left (Nat.le_succ _)

/-- A block without jumps and one instruction behind it that may jump: then it goes on at the word
that the block leaves in `A`. -/
theorem steps_straight_compute {dest : Dest} {comp : Comp} {jump : Jump}
    (h : Installed symbols rom pc (front ++ .compute dest comp jump :: back))
    (straight : front.all Line.isStraight = true) (core : Core) {last : Core}
    (hlast : effects symbols front core = last) :
    Steps rom (Set.Ico pc (pc + size front + 1)) (size front + 1) ⟨core, pc⟩
      ⟨dest.store last (comp.value last),
        if jump.taken (comp.value last) then last.a.toNat else pc + size front + 1⟩ := by
  subst hlast
  have first := steps_straight h.left straight core
  have second := step_of_installed h.right (effects symbols front core) rfl
  have inside : pc + size front ∈ Set.Ico pc (pc + size front + 1) :=
    ⟨Nat.le_add_right .., Nat.lt_succ_self _⟩
  refine Steps.trans (first.mono ?_) (Steps.one inside second)
  exact Set.Ico_subset_Ico_right (Nat.le_succ _)

end Installed

end StackToHack.Hack
