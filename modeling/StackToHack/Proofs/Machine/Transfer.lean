import StackToHack.Code.Memory
import StackToHack.Code.Operation
import StackToHack.Proofs.Machine.Block
import StackToHack.Proofs.StackMachine.Semantics

/-!
# What the code of the stack does

The effects of the blocks that move words on and off the stack, in terms of `Ram.push`, `Ram.top`
and `Ram.drop`.
-/

namespace StackToHack.Hack

/-! ## Laws of the stack -/

namespace Ram

variable {ram : Ram} (inRange : ram.StackInRange)
include inRange

theorem StackInRange.cell_ne {depth : Word} (hdepth : depth.toNat ≤ 2) (register : Register) :
    cell (ram.sp - depth) ≠ register.cell :=
  register.ne_cell (Nat.le_trans (by decide) (inRange.le_cell hdepth))

theorem drop_apply_sub {depth : Word} (hdepth : depth.toNat ≤ 2) :
    ram.drop (cell (ram.sp - depth)) = ram (cell (ram.sp - depth)) :=
  set_of_ne (inRange.cell_ne hdepth _)

theorem top_push (word : Word) : (ram.push word).top = word := by
  have hne : cell ram.sp ≠ Register.sp.cell := by
    simpa using inRange.cell_ne (show (0 : Word).toNat ≤ 2 by decide) .sp
  rw [top, sp_push, BitVec.add_sub_cancel, push, set_of_ne hne, set_self]

theorem top_drop : ram.drop.top = ram (cell (ram.sp - 2#16)) := by
  rw [top, sp_drop, BitVec.sub_sub]
  exact drop_apply_sub inRange (by decide)

/-- Replacing the top of the stack leaves the stack pointer as it is. -/
theorem push_drop (word : Word) : ram.drop.push word = ram.set (cell (ram.sp - 1)) word := by
  have hne := inRange.cell_ne (show (1 : Word).toNat ≤ 2 by decide) .sp
  funext address
  rw [push, sp_drop, BitVec.sub_add_cancel]
  by_cases h : address = Register.sp.cell
  · subst h
    rw [set_self, set_of_ne hne.symm]
    rfl
  · rw [set_of_ne h, set_apply, set_apply]
    rw [drop, set_of_ne h]

omit inRange in
theorem sp_drop_drop (ram : Ram) : ram.drop.drop.sp = ram.sp - 2#16 := by
  rw [sp_drop, sp_drop, BitVec.sub_sub]
  rfl

/-- Two operands up, the lower one is still where it was. -/
theorem drop_drop_apply : ram.drop.drop (cell (ram.sp - 2#16)) = ram.drop.top := by
  rw [top_drop inRange, drop, set_of_ne (inRange.cell_ne (show (2#16).toNat ≤ 2 by decide) _)]
  exact drop_apply_sub inRange (by decide)

/-- Writing a result over the lower one of two operands and moving the stack pointer behind it. -/
theorem set_set_eq_push (word : Word) :
    (ram.drop.drop.set (cell (ram.sp - 2#16)) word).set Register.sp.cell
      ((ram.drop.drop.set (cell (ram.sp - 2#16)) word).reg .sp + 1) =
    ram.drop.drop.push word := by
  have h := inRange.cell_ne (show (2#16).toNat ≤ 2 by decide) .sp
  rw [push, sp_drop_drop, reg, set_of_ne h.symm]
  congr 1
  exact congrArg (· + 1) (sp_drop_drop ram)

end Ram

end StackToHack.Hack

namespace StackToHack.Code

open Hack

/-- The names of the registers stand for their numbers. -/
def RegistersNamed (symbols : Symbols) : Prop :=
  ∀ register : Register, symbols register.text = register.word

/-- The cell that a place is. -/
def Place.address (symbols : Symbols) (ram : Ram) : Place → Address
  | .cell symbol => Hack.cell (symbols symbol.text)
  | .offset base index => Hack.cell (ram.reg base + BitVec.ofNat 16 index)

variable {symbols : Symbols} (named : RegistersNamed symbols)
include named

theorem effect_register (register : Register) (core : Core) :
    (Line.register register).effect symbols core = { core with a := register.word } := by
  simp only [Line.register, Line.effect, Symbol.text, named register]

variable {a d : Word} {ram : Ram} (inRange : ram.StackInRange)
include inRange

/-! ## Words on and off the stack -/

theorem effects_pushD :
    effects symbols pushD ⟨a, d, ram⟩ = ⟨Register.sp.word, d, ram.push d⟩ := by
  have h : (ram.set (cell ram.sp) d).reg .sp = ram.sp :=
    Ram.reg_set_of_le (Nat.le_trans (by decide) inRange.le_cell_sp)
  simp [pushD, effect_register named, Comp.value, Operand.value, Ram.apply_cell, h, Ram.push]

theorem effects_popD :
    effects symbols popD ⟨a, d, ram⟩ = ⟨ram.sp - 1, ram.top, ram.drop⟩ := by
  have h := Ram.drop_apply_sub inRange (show (1 : Word).toNat ≤ 2 by decide)
  simp [popD, effect_register named, Comp.value, Operand.value, Ram.apply_cell]
  exact ⟨h, rfl⟩

theorem effects_popOperands :
    effects symbols popOperands ⟨a, d, ram⟩ = ⟨ram.sp - 2#16, ram.top, ram.drop.drop⟩ := by
  rw [← Ram.sp_drop_drop]
  simp [popOperands, effects_popD named inRange, effect_register named, Comp.value, Operand.value,
    Ram.apply_cell]
  rfl

/-! ## Push and pop -/

theorem effects_pushNumber (n : Nat) :
    (effects symbols (pushNumber n) ⟨a, d, ram⟩).ram = ram.push (BitVec.ofNat 16 n) := by
  simp [pushNumber, effects_pushD named inRange, Comp.value, Operand.value]

theorem effects_fetch (place : Place) :
    (effects symbols (fetch place) ⟨a, d, ram⟩).ram =
      ram.push (ram (place.address symbols ram)) := by
  cases place with
  | cell symbol =>
      simp [fetch, effects_pushD named inRange, Comp.value, Operand.value, Place.address]
  | offset base index =>
      simp [fetch, effects_pushD named inRange, effect_register named, Comp.value, Operand.value,
        Ram.apply_cell, Place.address]

theorem effects_store_cell (symbol : Symbol) :
    (effects symbols (store (.cell symbol)) ⟨a, d, ram⟩).ram =
      ram.drop.set (cell (symbols symbol.text)) ram.top := by
  simp [store, effects_popD named inRange, Comp.value]

theorem effects_store_offset {base : Register} {index : Nat}
    (hsp : base.cell ≠ Register.sp.cell) (h13 : base.cell ≠ Register.r13.cell) :
    (effects symbols (store (.offset base index)) ⟨a, d, ram⟩).ram.Agree
      (ram.drop.set (cell (ram.reg base + BitVec.ofNat 16 index)) ram.top) := by
  have hbase : (ram.drop.set Register.r13.cell ram.top).reg base = ram.reg base := by
    rw [Ram.reg_set_of_ne h13, Ram.drop, Ram.reg_set_of_ne hsp]
  have h14 : ∀ (other : Ram) (word : Word),
      (other.set Register.r14.cell word).reg .r13 = other.reg .r13 :=
    fun other word => Ram.reg_set_of_ne (by decide)
  intro address ne13 ne14
  simp [store, effects_popD named inRange, effect_register named, Comp.value, Operand.value,
    Ram.apply_cell, hbase, h14, Ram.set_apply, ne13, ne14]

/-! ## Operations -/

theorem effects_unary (op : Unary) :
    (effects symbols (unary op) ⟨a, d, ram⟩).ram = ram.drop.push (op.apply ram.top) := by
  rw [Ram.push_drop inRange]
  cases op <;>
    simp [unary, unary.comp, effect_register named, Comp.value, Operand.value, Ram.apply_cell,
      Unary.apply, Ram.top]

theorem effects_binary (op : Binary) :
    (effects symbols (binary op) ⟨a, d, ram⟩).ram =
      ram.drop.drop.push (op.apply ram.drop.top ram.top) := by
  rw [← Ram.set_set_eq_push inRange]
  cases op <;>
    simp [binary, binary.comp, effects_popOperands named inRange, effect_register named,
      Comp.value, Operand.value, Ram.apply_cell, Binary.apply, Ram.drop_drop_apply inRange,
      BitVec.add_comm, BitVec.and_comm, BitVec.or_comm]

end StackToHack.Code
