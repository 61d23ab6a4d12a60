import Mathlib.Logic.Function.Basic
import StackToHack.Hack.Symbol

/-!
# Memory of the machine

A word has 16 bits and there are 2^15 cells, so a word that is used as an address loses its top
bit (`cell`). The stack grows upwards from cell 256; the cell of `SP` holds the address of the
first free one.

`push`, `top` and `drop` are what a stack does, said once for all code that works on it; `Pushed`
says cell by cell what becomes of memory when several words are pushed in a row. Two cells, `R13`
and `R14`, hold nothing from one command to the next: `Agree` compares memories outside of them.
-/

namespace StackToHack.Hack

abbrev Word := BitVec 16

abbrev Address := BitVec 15

/-- The contents of all cells. -/
abbrev Ram := Address → Word

/-- The cell that a word points at. -/
def cell (word : Word) : Address := word.setWidth 15

theorem cell_toNat (word : Word) : (cell word).toNat = word.toNat % 32768 := by
  simp [cell]

/-- The difference of words is 0 for equal words alone, although it wraps. -/
theorem toInt_sub_eq_zero_iff {x y : Word} : (x - y).toInt = 0 ↔ x = y := by
  rw [← BitVec.toInt_zero, BitVec.toInt_inj, BitVec.sub_eq_iff_eq_add, BitVec.zero_add]

/-! ## Registers in memory -/

/-- The number that the name of a register stands for. -/
def Register.word : Register → Word
  | .sp => 0
  | .lcl => 1
  | .arg => 2
  | .this => 3
  | .that => 4
  | .r index => BitVec.ofNat 16 index.val

/-- The cell of a register. -/
def Register.cell (register : Register) : Address := Hack.cell register.word

@[simp] theorem cell_word (register : Register) : cell register.word = register.cell := rfl

theorem Register.cell_lt (register : Register) : register.cell.toNat < 16 := by
  rw [Register.cell, cell_toNat]
  cases register with
  | r index =>
      have h := index.isLt
      simp only [Register.word, BitVec.toNat_ofNat]
      omega
  | _ => decide

theorem Register.ne_cell {address : Address} (h : 16 ≤ address.toNat) (register : Register) :
    address ≠ register.cell := by
  rintro rfl
  exact absurd register.cell_lt (Nat.not_lt.mpr h)

/-! ## Reading and writing -/

namespace Ram

def set (ram : Ram) (address : Address) (word : Word) : Ram := Function.update ram address word

@[simp] theorem set_self (ram : Ram) (address : Address) (word : Word) :
    ram.set address word address = word :=
  Function.update_self ..

theorem set_of_ne {ram : Ram} {address other : Address} {word : Word} (h : other ≠ address) :
    ram.set address word other = ram other :=
  Function.update_of_ne h ..

theorem set_apply (ram : Ram) (address other : Address) (word : Word) :
    ram.set address word other = if other = address then word else ram other :=
  Function.update_apply ..

/-- The word in a register. -/
def reg (ram : Ram) (register : Register) : Word := ram register.cell

theorem apply_cell (ram : Ram) (register : Register) :
    ram register.cell = ram.reg register :=
  rfl

@[simp] theorem reg_set_self (ram : Ram) (register : Register) (word : Word) :
    (ram.set register.cell word).reg register = word :=
  set_self ..

theorem reg_set_of_ne {ram : Ram} {register other : Register} {word : Word}
    (h : other.cell ≠ register.cell) :
    (ram.set register.cell word).reg other = ram.reg other :=
  set_of_ne h

theorem reg_set_of_le {ram : Ram} {address : Address} {word : Word} {register : Register}
    (h : 16 ≤ address.toNat) : (ram.set address word).reg register = ram.reg register :=
  set_of_ne (register.ne_cell h).symm

/-- Equal but for the two cells that hold nothing from one command to the next. -/
def Agree (ram other : Ram) : Prop :=
  ∀ address, address ≠ Register.r13.cell → address ≠ Register.r14.cell →
    ram address = other address

theorem Agree.refl (ram : Ram) : ram.Agree ram := fun _ _ _ => rfl

theorem Agree.of_eq {ram other : Ram} (h : ram = other) : ram.Agree other := h ▸ .refl ram

theorem Agree.trans {first second third : Ram} (h : first.Agree second) (k : second.Agree third) :
    first.Agree third :=
  fun address h13 h14 => (h address h13 h14).trans (k address h13 h14)

/-- Memories that agree still do when the same is written into both. -/
theorem Agree.set {ram other : Ram} (h : ram.Agree other) (address : Address) (word : Word) :
    (ram.set address word).Agree (other.set address word) := by
  intro a h13 h14
  rw [set_apply, set_apply, h a h13 h14]

/-! ## The stack -/

/-- The address of the first free cell. -/
abbrev sp (ram : Ram) : Word := ram.reg .sp

/-- The word that was put on the stack last. -/
def top (ram : Ram) : Word := ram (cell (ram.sp - 1))

/-- Puts a word on top of the stack. -/
def push (ram : Ram) (word : Word) : Ram :=
  (ram.set (cell ram.sp) word).set Register.sp.cell (ram.sp + 1)

/-- Gives the top of the stack up; the word itself stays where it is. -/
def drop (ram : Ram) : Ram := ram.set Register.sp.cell (ram.sp - 1)

/-- The stack pointer is where it can be: behind 256 cells that are not part of the stack, and
within memory. -/
structure StackInRange (ram : Ram) : Prop where
  base : 256 ≤ ram.sp.toNat
  limit : ram.sp.toNat ≤ 32767

@[simp] theorem sp_push (ram : Ram) (word : Word) : (ram.push word).sp = ram.sp + 1 :=
  reg_set_self ..

@[simp] theorem sp_drop (ram : Ram) : ram.drop.sp = ram.sp - 1 := reg_set_self ..

/-- What the stack has on top, or below it, is far from the cells of the registers. -/
theorem StackInRange.le_cell {ram : Ram} (h : ram.StackInRange) {depth : Word}
    (hdepth : depth.toNat ≤ 2) : 254 ≤ (cell (ram.sp - depth)).toNat := by
  have h1 := h.base
  have h2 := h.limit
  rw [cell_toNat, BitVec.toNat_sub_of_le (BitVec.le_def.mpr (by omega))]
  omega

theorem StackInRange.le_cell_sp {ram : Ram} (h : ram.StackInRange) :
    254 ≤ (cell ram.sp).toNat := by
  simpa using h.le_cell (show (0 : Word).toNat ≤ 2 by decide)

/-! ## Several words on the stack -/

/-- Puts words on top of the stack, the first one lowest. -/
def pushAll (ram : Ram) (words : List Word) : Ram := words.foldl push ram

@[simp] theorem pushAll_nil (ram : Ram) : ram.pushAll [] = ram := rfl

@[simp] theorem pushAll_cons (ram : Ram) (word : Word) (words : List Word) :
    ram.pushAll (word :: words) = (ram.push word).pushAll words :=
  rfl

theorem cell_toNat_of_le {word : Word} (h : word.toNat ≤ 32767) :
    (cell word).toNat = word.toNat := by
  rw [cell_toNat]
  omega

theorem toNat_add_ofNat {word : Word} {n : Nat} (h : word.toNat + n ≤ 32767) :
    (word + BitVec.ofNat 16 n).toNat = word.toNat + n := by
  rw [BitVec.toNat_add, BitVec.toNat_ofNat]
  omega

theorem reg_push {ram : Ram} (inRange : ram.StackInRange) {register : Register}
    (h : register.cell ≠ Register.sp.cell) (word : Word) :
    (ram.push word).reg register = ram.reg register := by
  rw [push, reg_set_of_ne h]
  exact reg_set_of_le (Nat.le_trans (by decide) inRange.le_cell_sp)

theorem toNat_sp_push {ram : Ram} (room : ram.sp.toNat + 1 ≤ 32767) (word : Word) :
    (ram.push word).sp.toNat = ram.sp.toNat + 1 := by
  rw [sp_push]
  exact toNat_add_ofNat (n := 1) room

theorem StackInRange.push {ram : Ram} (inRange : ram.StackInRange) (room : ram.sp.toNat + 1 ≤ 32767)
    (word : Word) : (ram.push word).StackInRange := by
  have moved := toNat_sp_push room word
  constructor
  · rw [moved]
    exact Nat.le_succ_of_le inRange.base
  · rw [moved]
    exact room

/-- The words lie in a row, from an address on. -/
def Holds (ram : Ram) (base : Word) (words : List Word) : Prop :=
  ∀ i (h : i < words.length), ram (cell (base + BitVec.ofNat 16 i)) = words[i]

/-- Memory after words were put on top of the stack. -/
structure Pushed (ram ram' : Ram) (words : List Word) : Prop where
  sp : ram'.sp = ram.sp + BitVec.ofNat 16 words.length
  holds : ram'.Holds ram.sp words
  others : ∀ address, address ≠ Register.sp.cell →
    address.toNat < ram.sp.toNat ∨ ram.sp.toNat + words.length ≤ address.toNat →
      ram' address = ram address

theorem pushed_pushAll {ram : Ram} {words : List Word} (inRange : ram.StackInRange)
    (room : ram.sp.toNat + words.length ≤ 32767) : Pushed ram (ram.pushAll words) words := by
  induction words generalizing ram with
  | nil => exact ⟨(BitVec.add_zero _).symm, nofun, fun _ _ _ => rfl⟩
  | cons word words ih =>
      rw [List.length_cons] at room
      have atSp := cell_toNat_of_le inRange.limit
      have moved := toNat_sp_push (show ram.sp.toNat + 1 ≤ 32767 by omega) word
      obtain ⟨hsp, hholds, hothers⟩ := ih (inRange.push (by omega) word) (by omega)
      have further : ∀ i, (ram.push word).sp + BitVec.ofNat 16 i =
          ram.sp + BitVec.ofNat 16 (i + 1) := by
        intro i
        rw [sp_push, BitVec.add_assoc, Nat.add_comm i 1, BitVec.ofNat_add]
        rfl
      have notSp : cell ram.sp ≠ Register.sp.cell :=
        Register.ne_cell (Nat.le_trans (by decide) inRange.le_cell_sp) _
      refine ⟨?_, ?_, ?_⟩
      · rw [pushAll_cons, hsp, further, List.length_cons]
      · intro i hi
        cases i with
        | zero =>
            -- the words that follow lie higher, so the first one is left alone
            rw [pushAll_cons, BitVec.add_zero, hothers _ notSp (.inl (by omega))]
            rw [push, set_of_ne notSp, set_self]
            rfl
        | succ i =>
            rw [← further]
            exact hholds i (Nat.lt_of_succ_lt_succ hi)
      · intro address hne outside
        rw [List.length_cons] at outside
        rw [pushAll_cons, hothers address hne (by omega), push, set_of_ne hne]
        refine set_of_ne fun same => ?_
        rw [same, atSp] at outside
        omega

end Ram

end StackToHack.Hack
