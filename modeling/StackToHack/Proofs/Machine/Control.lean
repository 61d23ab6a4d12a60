import StackToHack.Code.Branch
import StackToHack.Proofs.Machine.Transfer

/-!
# What the code of comparisons and branches does

Blocks with jumps in them. A comparison goes one of two ways that meet again behind it; a branch
leaves its block for the address that its target stands for, or does not.
-/

namespace StackToHack.Code

open Hack

variable {symbols : Symbols} (named : RegistersNamed symbols) {rom : Rom} {pc : Nat}
  {a d : Word} {ram : Ram}

/-! ## Comparisons -/

/-- The start of a comparison: the difference is in `D` and the way to the true arm in `A`. -/
def decision (number : Nat) : Code :=
  popOperands ++ [.set .onlyD (.subFrom .m), .symbol (.comparison .whenTrue number)]

/-- The arm that ends with the way around the other one in `A`. -/
def falseArm (number : Nat) : Code :=
  [.mark (.comparison .whenFalse number),
   .register .sp, .set .onlyA (.read .m), .set .onlyM .zero,
   .symbol (.comparison .done number)]

def trueArm : Code := [.register .sp, .set .onlyA (.read .m), .set .onlyM .minusOne]

/-- What both arms go on with. -/
def join : Code := [.register .sp, .set .onlyM (.inc .m)]

theorem comparison_eq (op : Comparison) (number : Nat) :
    comparison op number =
      decision number ++ .goto .d (comparison.jump op) ::
        (falseArm number ++ .goto .zero .always ::
          ([] ++ .mark (.comparison .whenTrue number) ::
            (trueArm ++ .mark (.comparison .done number) :: join))) :=
  rfl

theorem jump_taken (op : Comparison) (word : Word) :
    (comparison.jump op).taken word = op.holds word := by
  cases op <;> rfl

section Named

include named

theorem effects_falseArm (number : Nat) :
    effects symbols (falseArm number) ⟨a, d, ram.drop.drop⟩ =
      ⟨symbols (Symbol.comparison .done number).text, d,
        ram.drop.drop.set (cell (ram.sp - 2#16)) 0⟩ := by
  simp [falseArm, effect_register named, Comp.value, Operand.value, Ram.apply_cell,
    ← Ram.sp_drop_drop]

theorem effects_trueArm :
    effects symbols trueArm ⟨a, d, ram.drop.drop⟩ =
      ⟨ram.sp - 2#16, d, ram.drop.drop.set (cell (ram.sp - 2#16)) (-1)⟩ := by
  simp [trueArm, effect_register named, Comp.value, Operand.value, Ram.apply_cell,
    ← Ram.sp_drop_drop]

variable (inRange : ram.StackInRange)
include inRange

theorem effects_decision (number : Nat) :
    effects symbols (decision number) ⟨a, d, ram⟩ =
      ⟨symbols (Symbol.comparison .whenTrue number).text, ram.drop.top - ram.top,
        ram.drop.drop⟩ := by
  simp [decision, effects_popOperands named inRange, Comp.value, Operand.value,
    Ram.drop_drop_apply inRange]

theorem effects_join (word : Word) :
    effects symbols join ⟨a, d, ram.drop.drop.set (cell (ram.sp - 2#16)) word⟩ =
      ⟨Register.sp.word, d, ram.drop.drop.push word⟩ := by
  rw [← Ram.set_set_eq_push inRange]
  simp [join, effect_register named, Comp.value, Operand.value, Ram.apply_cell]

omit named inRange in
theorem size_decision (number : Nat) : size (decision number) = 7 := by
  simp [decision, popOperands, popD]

omit named inRange in
theorem size_falseArm (number : Nat) : size (falseArm number) = 4 := by simp [falseArm]

section Ways

variable {op : Comparison} {number : Nat} (h : Installed symbols rom pc (comparison op number))
include h

omit named inRange in
theorem installed_falseArm :
    Installed symbols rom (pc + 8) (falseArm number ++ .goto .zero .always ::
      ([] ++ .mark (.comparison .whenTrue number) ::
        (trueArm ++ .mark (.comparison .done number) :: join))) := by
  rw [comparison_eq] at h
  exact h.behind_line (show _ + 1 = 8 by rw [size_decision])

omit named inRange in
theorem installed_trueArm :
    Installed symbols rom (pc + 13) ([] ++ .mark (.comparison .whenTrue number) ::
      (trueArm ++ .mark (.comparison .done number) :: join)) :=
  (installed_falseArm h).behind_line (show _ + 1 = 5 by rw [size_falseArm])

/-- With the operands off the stack, a comparison goes on with one of its arms. -/
theorem steps_decision :
    Steps rom (Set.Ico pc (pc + 8)) 8 ⟨⟨a, d, ram⟩, pc⟩
      ⟨⟨symbols (Symbol.comparison .whenTrue number).text, ram.drop.top - ram.top, ram.drop.drop⟩,
        if op.holds (ram.drop.top - ram.top) then pc + 13 else pc + 8⟩ := by
  have toTrue := (installed_trueArm h).mark (show _ = 0 from rfl)
  rw [comparison_eq] at h
  have decided := steps_straight_compute h rfl ⟨a, d, ram⟩ (effects_decision named inRange number)
  simp only [jump_taken, Comp.value, store_none, size_decision, toTrue] at decided
  exact decided

omit inRange in
/-- The false arm goes around the true one. -/
theorem steps_falseArm :
    Steps rom (Set.Ico (pc + 8) (pc + 13)) 5 ⟨⟨a, d, ram.drop.drop⟩, pc + 8⟩
      ⟨⟨symbols (Symbol.comparison .done number).text, d,
        ram.drop.drop.set (cell (ram.sp - 2#16)) 0⟩, pc + 16⟩ := by
  have atTrue := (installed_trueArm h).behind_line (show _ = 0 from rfl)
  have toDone := atTrue.mark (show _ = 3 from rfl)
  have arm := steps_straight_compute (installed_falseArm h) rfl ⟨a, d, ram.drop.drop⟩
    (effects_falseArm named number)
  simp only [Jump.taken, if_true, store_none, size_falseArm, toDone] at arm
  exact arm

omit inRange in
theorem steps_trueArm :
    Steps rom (Set.Ico (pc + 13) (pc + 16)) 3 ⟨⟨a, d, ram.drop.drop⟩, pc + 13⟩
      ⟨⟨ram.sp - 2#16, d, ram.drop.drop.set (cell (ram.sp - 2#16)) (-1)⟩, pc + 16⟩ := by
  have atTrue := (installed_trueArm h).behind_line (show _ = 0 from rfl)
  have arm := steps_straight atTrue.left rfl ⟨a, d, ram.drop.drop⟩
  rw [effects_trueArm named] at arm
  exact arm

theorem steps_join (word : Word) :
    Steps rom (Set.Ico (pc + 16) (pc + 18)) 2
      ⟨⟨a, d, ram.drop.drop.set (cell (ram.sp - 2#16)) word⟩, pc + 16⟩
      ⟨⟨Register.sp.word, d, ram.drop.drop.push word⟩, pc + 18⟩ := by
  have atTrue := (installed_trueArm h).behind_line (show _ = 0 from rfl)
  have atJoin := atTrue.behind_line (show _ = 3 from rfl)
  have joined := steps_straight atJoin rfl
    ⟨a, d, ram.drop.drop.set (cell (ram.sp - 2#16)) word⟩
  rw [effects_join named inRange] at joined
  exact joined

/-- A comparison runs through to its end, whichever way it goes, and leaves its answer on the
stack. -/
theorem steps_comparison :
    ∃ n core, Steps rom (Set.Ico pc (pc + size (comparison op number))) n ⟨⟨a, d, ram⟩, pc⟩
        ⟨core, pc + size (comparison op number)⟩ ∧
      core.ram = ram.drop.drop.push (truth (op.holds (ram.drop.top - ram.top))) := by
  have sizeAll : size (comparison op number) = 18 := by
    simp [comparison_eq, size_decision, size_falseArm, trueArm, join]
  have decided := steps_decision (a := a) (d := d) named inRange h
  have wider : ∀ {low high : Nat}, pc ≤ low → high ≤ pc + 18 →
      Set.Ico low high ⊆ Set.Ico pc (pc + 18) := fun h k => Set.Ico_subset_Ico h k
  rw [sizeAll]
  -- the two ways differ in length and in the word they leave, and meet in `join`
  cases holds : op.holds (ram.drop.top - ram.top) with
  | true =>
      rw [holds, if_pos rfl] at decided
      refine ⟨_, _, (decided.mono (wider ?_ ?_)).trans
        (((steps_trueArm named h).mono (wider ?_ ?_)).trans
          ((steps_join named inRange h (-1)).mono (wider ?_ ?_))), rfl⟩ <;> omega
  | false =>
      rw [holds, if_neg Bool.false_ne_true] at decided
      refine ⟨_, _, (decided.mono (wider ?_ ?_)).trans
        (((steps_falseArm named h).mono (wider ?_ ?_)).trans
          ((steps_join named inRange h 0).mono (wider ?_ ?_))), rfl⟩ <;> omega

end Ways

/-! ## Branches -/

omit inRange named in
theorem steps_goto {target : Symbol} (h : Installed symbols rom pc (goto target)) :
    ∃ core, Steps rom (Set.Ico pc (pc + size (goto target))) 2 ⟨⟨a, d, ram⟩, pc⟩
        ⟨core, (symbols target.text).toNat⟩ ∧ core.ram = ram := by
  have heq : goto target = [.symbol target] ++ .goto .zero .always :: [] := rfl
  have sizeAll : size (goto target) = 2 := by simp [goto]
  have last : effects symbols [.symbol target] ⟨a, d, ram⟩ = ⟨symbols target.text, d, ram⟩ := rfl
  rw [sizeAll]
  rw [heq] at h
  exact ⟨_, steps_straight_compute h rfl ⟨a, d, ram⟩ last, rfl⟩

/-- A conditional branch is taken unless the word on top of the stack is 0. -/
theorem steps_ifGoto {target : Symbol} (h : Installed symbols rom pc (ifGoto target)) :
    ∃ core, Steps rom (Set.Ico pc (pc + size (ifGoto target))) 5 ⟨⟨a, d, ram⟩, pc⟩
        ⟨core, if ram.top = 0 then pc + size (ifGoto target) else (symbols target.text).toNat⟩ ∧
      core.ram = ram.drop := by
  have heq : ifGoto target = (popD ++ [.symbol target]) ++ .goto .d .ne :: [] := rfl
  have last : effects symbols (popD ++ [.symbol target]) ⟨a, d, ram⟩ =
      ⟨symbols target.text, ram.top, ram.drop⟩ := by
    simp [effects_popD named inRange]
  have sizeFront : size (popD ++ [.symbol target]) = 4 := by simp [popD]
  have sizeAll : size (ifGoto target) = 5 := by simp [ifGoto, popD]
  have zero : ram.top.toInt = 0 ↔ ram.top = 0 := by
    rw [← BitVec.toInt_inj]
    rfl
  rw [heq] at h
  have jumped := steps_straight_compute h rfl ⟨a, d, ram⟩ last
  rw [sizeFront] at jumped
  rw [sizeAll]
  refine ⟨⟨symbols target.text, ram.top, ram.drop⟩, ?_, rfl⟩
  by_cases top : ram.top = 0
  · simpa [Jump.taken, Comp.value, zero, top] using jumped
  · simpa [Jump.taken, Comp.value, zero, top] using jumped

end Named

end StackToHack.Code
