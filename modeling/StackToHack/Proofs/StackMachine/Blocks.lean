import StackToHack.Code.Command
import StackToHack.Proofs.Generation
import StackToHack.Proofs.Machine.Control

/-!
# One command, one block

The block of a command does to the machine what the command does to the stack machine
(`steps_block`), and it does not matter for that what the two scratch cells hold (`effect_agree`),
as long as the command keeps away from them.
-/

namespace StackToHack

open Hack

/-! ## Memories that agree -/

namespace Hack.Ram

variable {ram other : Ram} (h : ram.Agree other)
include h

theorem Agree.reg {register : Register} (h13 : register.cell ≠ Register.r13.cell)
    (h14 : register.cell ≠ Register.r14.cell) : ram.reg register = other.reg register :=
  h register.cell h13 h14

theorem Agree.sp : ram.sp = other.sp := h.reg (by decide) (by decide)

theorem Agree.drop : ram.drop.Agree other.drop := by
  rw [Ram.drop, Ram.drop, h.sp]
  exact h.set _ _

theorem Agree.push (word : Word) : (ram.push word).Agree (other.push word) := by
  rw [Ram.push, Ram.push, h.sp]
  exact (h.set _ _).set _ _

theorem Agree.stackInRange (inRange : other.StackInRange) : ram.StackInRange := by
  constructor
  · rw [h.sp]
    exact inRange.base
  · rw [h.sp]
    exact inRange.limit

/-- The stack is far from the scratch cells. -/
theorem Agree.apply_sub (inRange : other.StackInRange) {depth : Word} (hdepth : depth.toNat ≤ 2) :
    ram (cell (other.sp - depth)) = other (cell (other.sp - depth)) :=
  h _ (inRange.cell_ne hdepth _) (inRange.cell_ne hdepth _)

theorem Agree.top (inRange : other.StackInRange) : ram.top = other.top := by
  rw [Ram.top, h.sp]
  exact h.apply_sub inRange (by decide)

theorem Agree.top_drop (inRange : other.StackInRange) : ram.drop.top = other.drop.top := by
  rw [Ram.top_drop (h.stackInRange inRange), Ram.top_drop inRange, h.sp]
  exact h.apply_sub inRange (by decide)

end Hack.Ram

/-! ## Cells of the segments -/

theorem Region.layout_based {region : Region} {base : Register}
    (h : region.layout = .based base) :
    base.cell ≠ Register.sp.cell ∧ base.cell ≠ Register.r13.cell ∧
      base.cell ≠ Register.r14.cell := by
  cases region <;> cases h <;> decide

/-- Where code finds a cell is where the stack machine has it. -/
theorem Code.place_eq_ok {unit : String} {index : UInt32} {region : Region} {place : Place}
    (h : Code.place unit index region = .ok place) :
    match region.layout with
    | .based base => place = .offset base index.toNat
    | .fixed first => ∃ register : Register, place = .cell (.register register) ∧
        register.cell = BitVec.ofNat 15 (first + index.toNat) ∧ first + index.toNat < 13
    | .scattered => place = .cell (.static unit index) := by
  have found := Code.place_cases h
  cases region with
  | static => exact found
  | pointer =>
      rcases found with ⟨rfl, rfl⟩ | ⟨rfl, rfl⟩
      · exact ⟨.this, rfl, rfl, by decide⟩
      · exact ⟨.that, rfl, rfl, by decide⟩
  | temp =>
      obtain ⟨number, hnumber, small, rfl⟩ := found
      refine ⟨.r number, rfl, ?_, hnumber ▸ small⟩
      apply BitVec.eq_of_toNat_eq
      simp only [Register.cell, cell_toNat, Register.word, BitVec.toNat_ofNat, hnumber]
      omega
  | _ => exact found.1

/-- The cells of `static`, for a unit. -/
def staticCells (symbols : Symbols) (unit : String) (index : UInt32) : Address :=
  cell (symbols (Symbol.static unit index).text)

variable {symbols : Symbols} {unit : String} {index : UInt32} {region : Region} {ram other : Ram}

theorem Code.address_of_place {place : Place} (named : Code.RegistersNamed symbols)
    (h : Code.place unit index region = .ok place) :
    place.address symbols ram = region.cell (staticCells symbols unit) ram index := by
  have found := Code.place_eq_ok h
  split at found
  · next base hlayout =>
      subst found
      rw [Region.cell, hlayout]
      rfl
  · next first hlayout =>
      obtain ⟨register, rfl, hregister, -⟩ := found
      rw [Region.cell, hlayout]
      show cell (symbols register.text) = BitVec.ofNat 15 (first + index.toNat)
      rw [named register, cell_word, hregister]
  · next hlayout =>
      subst found
      rw [Region.cell, hlayout]
      rfl

theorem Region.cell_eq_of_agree {statics : UInt32 → Address} (h : ram.Agree other) :
    region.cell statics ram index = region.cell statics other index := by
  rw [Region.cell, Region.cell]
  split
  · next base hlayout =>
      obtain ⟨-, h13, h14⟩ := Region.layout_based hlayout
      rw [h.reg h13 h14]
  · rfl
  · rfl

/-! ## What the scratch cells hold -/

/-- The cell is none of the two that hold nothing from one command to the next. -/
def IsKept (address : Address) : Prop :=
  address ≠ Register.r13.cell ∧ address ≠ Register.r14.cell

theorem isKept_of_le {address : Address} (h : 16 ≤ address.toNat) : IsKept address :=
  ⟨Register.ne_cell h _, Register.ne_cell h _⟩

theorem isKept_of_lt {n : Nat} (h : n < 13) : IsKept (BitVec.ofNat 15 n) := by
  have below : ∀ n < 13, BitVec.ofNat 15 n ≠ Register.r13.cell ∧
      BitVec.ofNat 15 n ≠ Register.r14.cell := by decide
  exact below n h

/-- The effect of a command does not depend on the scratch cells, unless it reads them. -/
theorem Command.effect_agree {statics : UInt32 → Address} {command : Command}
    (h : ram.Agree other) (inRange : other.StackInRange)
    (kept : ∀ region index, command = .push (.region region) index →
      IsKept (region.cell statics other index)) :
    (command.effect statics ram).Agree (command.effect statics other) := by
  cases command with
  | operate op =>
      cases op with
      | unary op =>
          simp only [effect]
          rw [h.top inRange]
          exact h.drop.push _
      | _ op =>
          simp only [effect]
          rw [h.top inRange, h.top_drop inRange]
          exact h.drop.drop.push _
  | push segment index =>
      cases segment with
      | constant => exact h.push _
      | region region =>
          obtain ⟨h13, h14⟩ := kept region index rfl
          simp only [effect]
          rw [Region.cell_eq_of_agree h, h _ h13 h14]
          exact h.push _
  | pop segment index =>
      cases segment with
      | constant => exact h
      | region region =>
          simp only [effect]
          rw [Region.cell_eq_of_agree h, h.top inRange]
          exact h.drop.set _ _
  | ifGoto name => exact h.drop
  | _ => exact h

/-! ## Blocks -/

/-- The command belongs to code without functions. -/
def Command.isFunctionFree : Command → Bool
  | .function _ _ | .call _ _ | .ret => false
  | _ => true

/-- The address that a command goes on at: the one behind its block, unless it branches. -/
def Command.exit (behind : Nat) (target : String → Nat) (ram : Ram) : Command → Nat
  | .goto name => target name
  | .ifGoto name => if ram.top = 0 then behind else target name
  | _ => behind

theorem Command.exit_agree {command : Command} {behind : Nat} {target : String → Nat}
    (h : ram.Agree other) (inRange : other.StackInRange) :
    command.exit behind target ram = command.exit behind target other := by
  cases command with
  | ifGoto name => rw [exit, exit, h.top inRange]
  | _ => rfl

section Block

variable {rom : Rom} {pc : Nat} {a d : Word} {block : Code}

/-- A block without jumps runs through to behind its end. -/
theorem steps_of_effects {last : Ram} (h : Installed symbols rom pc block)
    (straight : block.all Line.isStraight = true)
    (heffects : (effects symbols block ⟨a, d, ram⟩).ram.Agree last) :
    ∃ n core, Steps rom (Set.Ico pc (pc + size block)) n ⟨⟨a, d, ram⟩, pc⟩
        ⟨core, pc + size block⟩ ∧ core.ram.Agree last :=
  ⟨_, _, steps_straight h straight _, heffects⟩

theorem Code.straight_fetch (place : Place) : (fetch place).all Line.isStraight = true := by
  cases place <;> rfl

theorem Code.straight_store (place : Place) : (store place).all Line.isStraight = true := by
  cases place <;> rfl

theorem Code.effects_store {place : Place} (named : Code.RegistersNamed symbols)
    (inRange : ram.StackInRange) (h : Code.place unit index region = .ok place) :
    (effects symbols (store place) ⟨a, d, ram⟩).ram.Agree
      (ram.drop.set (region.cell (staticCells symbols unit) ram index) ram.top) := by
  rw [← Code.address_of_place named h]
  have found := Code.place_eq_ok h
  split at found
  · next base hlayout =>
      subst found
      obtain ⟨hsp, h13, -⟩ := Region.layout_based hlayout
      exact effects_store_offset named inRange hsp h13
  · obtain ⟨register, rfl, -⟩ := found
    exact .of_eq (effects_store_cell named inRange _)
  · subst found
    exact .of_eq (effects_store_cell named inRange _)

/-- **One command.** The block of a command, installed somewhere, takes the machine from its start
to where the command goes on, never leaving the block on the way, and does to memory what the
command does. -/
theorem steps_block {context : Context} {command : Command}
    (hcode : command.code unit context = .ok block) (h : Installed symbols rom pc block)
    (named : Code.RegistersNamed symbols) (functionFree : command.isFunctionFree = true)
    (inRange : ram.StackInRange) :
    ∃ n core, Steps rom (Set.Ico pc (pc + size block)) n ⟨⟨a, d, ram⟩, pc⟩
        ⟨core, command.exit (pc + size block)
          (fun name => (symbols (Code.target unit context.function name).text).toNat) ram⟩ ∧
      core.ram.Agree (command.effect (staticCells symbols unit) ram) := by
  have made := Command.code_eq_ok hcode
  cases command with
  | operate op =>
      obtain rfl : block = Code.operation context.comparisons op := made
      cases op with
      | unary op =>
          refine steps_of_effects h ?_ (.of_eq (Code.effects_unary named inRange op))
          cases op <;> rfl
      | binary op =>
          refine steps_of_effects h ?_ (.of_eq (Code.effects_binary named inRange op))
          cases op <;> rfl
      | comparison op =>
          obtain ⟨n, core, steps, hram⟩ := Code.steps_comparison named inRange h
          exact ⟨n, core, steps, .of_eq hram⟩
  | push segment index =>
      cases segment with
      | constant =>
          obtain ⟨value, rfl, hvalue⟩ := made
          obtain rfl := Code.eq_toNat_of_loadable hvalue
          exact steps_of_effects h rfl (.of_eq (Code.effects_pushNumber named inRange _))
      | region region =>
          obtain ⟨place, rfl, hplace⟩ := made
          have fetched := Code.effects_fetch named inRange (a := a) (d := d) place
          rw [Code.address_of_place named hplace] at fetched
          exact steps_of_effects h (Code.straight_fetch place) (.of_eq fetched)
  | pop segment index =>
      cases segment with
      | constant => exact made.elim
      | region region =>
          obtain ⟨place, rfl, hplace⟩ := made
          exact steps_of_effects h (Code.straight_store place)
            (Code.effects_store named inRange hplace)
  | label name =>
      obtain rfl : block = Code.label _ := made
      exact steps_of_effects h rfl (.refl ram)
  | goto name =>
      obtain rfl : block = Code.goto _ := made
      obtain ⟨core, steps, hram⟩ := Code.steps_goto h
      exact ⟨2, core, steps, .of_eq hram⟩
  | ifGoto name =>
      obtain rfl : block = Code.ifGoto _ := made
      obtain ⟨core, steps, hram⟩ := Code.steps_ifGoto named inRange h
      exact ⟨5, core, steps, .of_eq hram⟩
  | function name locals => cases functionFree
  | call name args => cases functionFree
  | ret => cases functionFree

end Block

end StackToHack
