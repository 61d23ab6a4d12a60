import StackToHack.Proofs.Machine.Assembler
import StackToHack.Proofs.Machine.Control
import StackToHack.Proofs.Spelling
import StackToHack.Run

/-!
# How comparisons order words

A comparison looks at the difference of its operands, and that is a word: it wraps. As long as the
difference of the two signed numbers is a signed word itself, its sign says which of them is larger.
If it is not, the sign is the wrong one, and `gt` and `lt` answer the opposite of what is the case
(`far_words_compare_backwards`). Equal words are told from different ones in any case, since the
difference of different words never wraps to 0.
-/

namespace StackToHack

open Hack

/-! ## Differences of signed words -/

section Words

variable {x y : Word}

theorem ssubOverflow_iff :
    x.ssubOverflow y = true ↔ 32767 < x.toInt - y.toInt ∨ x.toInt - y.toInt < -32768 := by
  simp only [BitVec.ssubOverflow, Bool.or_eq_true, decide_eq_true_eq]
  omega

/-- A difference that is no signed word wraps to the other side of 0. -/
theorem toInt_sub_of_ssubOverflow (h : x.ssubOverflow y = true) :
    (x - y).toInt ≠ 0 ∧ (0 < (x - y).toInt ↔ x.toInt < y.toInt) := by
  have xLow := x.le_toInt
  have xHigh := x.toInt_lt
  have yLow := y.le_toInt
  have yHigh := y.toInt_lt
  rw [ssubOverflow_iff] at h
  -- the word is off by 2^16 from a difference of less than that
  rw [BitVec.toInt_sub, Int.bmod_eq_emod]
  split <;> omega

namespace Comparison

instance (op : Comparison) (x y : Int) : Decidable (op.Relates x y) :=
  match op with
  | .eq => inferInstanceAs (Decidable (x = y))
  | .gt => inferInstanceAs (Decidable (y < x))
  | .lt => inferInstanceAs (Decidable (x < y))

theorem holds_sub_of_near {op : Comparison} (h : op = .eq ∨ x.ssubOverflow y = false) :
    op.holds (x - y) = decide (op.Relates x.toInt y.toInt) := by
  rw [Bool.eq_iff_iff, decide_eq_true_eq]
  rcases h with rfl | near
  · rw [holds, decide_eq_true_eq, toInt_sub_eq_zero_iff, ← BitVec.toInt_inj]
    rfl
  · rw [Bool.eq_false_iff, ne_eq, ssubOverflow_iff] at near
    exact op.holds_sub_iff (by omega) (by omega)

theorem holds_sub_of_far {op : Comparison} (ordering : op ≠ .eq) (far : x.ssubOverflow y = true) :
    op.holds (x - y) = decide (¬op.Relates x.toInt y.toInt) := by
  obtain ⟨nonzero, sign⟩ := toInt_sub_of_ssubOverflow far
  rw [ssubOverflow_iff] at far
  rw [Bool.eq_iff_iff, decide_eq_true_eq]
  cases op with
  | eq => exact absurd rfl ordering
  | gt =>
      simp only [holds, Relates, decide_eq_true_eq]
      omega
  | lt =>
      simp only [holds, Relates, decide_eq_true_eq]
      omega

end Comparison

end Words

/-! ## The machine -/

/-- Memory behind a comparison. Its answer is the truth, except where `gt` or `lt` had to do with
words whose difference is no signed word: then it is the opposite. -/
structure Answered (op : Comparison) (x y : Word) (ram ram' : Ram) : Prop where
  sp : ram'.sp.toNat + 1 = ram.sp.toNat
  near : op = .eq ∨ x.ssubOverflow y = false → ram'.top = truth (op.Relates x.toInt y.toInt)
  far : op ≠ .eq → x.ssubOverflow y = true → ram'.top = truth (¬op.Relates x.toInt y.toInt)
  others : ∀ address, address ≠ Register.sp.cell → address ≠ cell (ram.sp - 2#16) →
    ram' address = ram address

/-- Two words off the stack and one on it. -/
theorem answered_push {op : Comparison} {x y : Word} {ram : Ram} (low : 258 ≤ ram.sp.toNat)
    (high : ram.sp.toNat ≤ 32767) :
    Answered op x y ram (ram.drop.drop.push (truth (op.holds (x - y)))) := by
  have lower : ram.drop.drop.sp.toNat = ram.sp.toNat - 2 := by
    rw [Ram.sp_drop_drop, BitVec.toNat_sub_of_le (BitVec.le_def.mpr (by simp; omega))]
    rfl
  have inRange : ram.drop.drop.StackInRange := ⟨by omega, by omega⟩
  constructor
  · rw [Ram.toNat_sp_push (by omega), lower]
    omega
  · intro near
    rw [Ram.top_push inRange, Comparison.holds_sub_of_near near]
  · intro ordering far
    rw [Ram.top_push inRange, Comparison.holds_sub_of_far ordering far]
  · intro address notSp notTop
    rw [← Ram.sp_drop_drop] at notTop
    rw [Ram.push, Ram.set_of_ne notSp, Ram.set_of_ne notTop]
    rw [Ram.drop, Ram.set_of_ne notSp, Ram.drop, Ram.set_of_ne notSp]

/-- **Comparisons order words.** The block of a comparison, met anywhere with two operands on the
stack, takes the machine to behind it and leaves the answer in place of the two. -/
theorem comparisons_order_words (op : Comparison) (unit : String) (context : Context) :
    ∃ block, (Command.operate (.comparison op)).code unit context = .ok block ∧
      ∀ symbols rom state x y, Code.RegistersNamed symbols → Installed symbols rom state.pc block →
        258 ≤ state.core.ram.sp.toNat → state.core.ram.sp.toNat ≤ 32767 →
        state.core.ram (cell (state.core.ram.sp - 2#16)) = x →
        state.core.ram (cell (state.core.ram.sp - 1#16)) = y →
          ∃ n core, Steps rom (Set.Ico state.pc (state.pc + size block)) n state
              ⟨core, state.pc + size block⟩ ∧
            Answered op x y state.core.ram core.ram := by
  refine ⟨_, rfl, ?_⟩
  rintro symbols rom state x y named installed low high rfl rfl
  have inRange : state.core.ram.StackInRange := ⟨by omega, high⟩
  obtain ⟨n, core, steps, hram⟩ := Code.steps_comparison (a := state.core.a) (d := state.core.d)
    named inRange installed
  refine ⟨n, core, steps, ?_⟩
  rw [hram, Ram.top_drop inRange]
  exact answered_push low high

/-- What `lt` answers about -3 and 5. -/
theorem comparisons_order_words_near :
    let ram : Ram := fun address =>
      if address = 0 then 258 else if address = 256 then -3 else if address = 257 then 5 else 99
    ∃ text rom, compile none [("Near", "lt\n")] = .ok text ∧
      assembleText? (fun _ => 16) text = some rom ∧
      ∃ n core, run rom n ⟨⟨0, 0, ram⟩, 0⟩ = some ⟨core, 18⟩ ∧ core.ram.sp.toNat = 257 ∧
        core.ram.top = -1 ∧ core.ram 257 = 5 := by
  intro ram
  obtain ⟨block, emitted, compares⟩ := comparisons_order_words .lt "Near" .fresh
  obtain rfl : Code.comparison .lt 0 = block := Except.ok.inj emitted
  let code : Code := .comment "lt" :: Code.comparison .lt 0
  have compiled : compile none [("Near", "lt\n")] = .ok (render code) := by decide +kernel
  have oneLine : '\n' ∉ "lt".toList := by decide
  have readable : Readable code :=
    Spelled.readable (spelled_cons.mpr ⟨oneLine, spelled_operation 0 (.comparison .lt)⟩)
  have assembles : Assembles code := ⟨readable, by decide, by decide, by decide, by decide⟩
  have installed := (installed_assemble assembles fun _ => 16).2.2
  obtain ⟨n, core, steps, sp, near, -, others⟩ :=
    compares _ _ ⟨⟨0, 0, ram⟩, 0⟩ (-3) 5 (registersNamed _ _) installed (by decide) (by decide)
      (by decide) (by decide)
  refine ⟨_, _, compiled, assembleText?_render readable, n, core, steps.run_eq, ?_, ?_, ?_⟩
  · exact Nat.succ.inj sp
  · exact near (.inr (by decide))
  · exact others 257 (by decide) (by decide)

/-! ## Words far apart -/

/-- Puts 32767 and -1 on the stack. -/
def farOperands : Code :=
  .comment "push constant 32767" :: Code.pushNumber 32767 ++
    .comment "push constant 1" :: Code.pushNumber 1 ++ .comment "neg" :: Code.unary .neg

theorem spelled_farOperands : Spelled farOperands := by
  have pushes : Within Symbol.Named Code.pushD := within_pushD Symbol.named_register
  have first : Within Symbol.Named (Code.pushNumber 32767) := by simp [Code.pushNumber, pushes]
  have second : Within Symbol.Named (Code.pushNumber 1) := by simp [Code.pushNumber, pushes]
  have negation : Spelled (Code.unary .neg) := spelled_operation 0 (.unary .neg)
  simp [farOperands, Line.Spelled, first.spelled, second.spelled, negation]

theorem effects_farOperands {symbols : Symbols} (named : Code.RegistersNamed symbols) {a d : Word}
    {ram : Ram} (inRange : ram.StackInRange) (room : ram.sp.toNat + 2 ≤ 32767) :
    (effects symbols farOperands ⟨a, d, ram⟩).ram =
      ((ram.push 32767#16).push 1#16).drop.push (-1) := by
  have whole : effects symbols farOperands ⟨a, d, ram⟩ =
      effects symbols (Code.unary .neg) (effects symbols (Code.pushNumber 1)
        (effects symbols (Code.pushNumber 32767) ⟨a, d, ram⟩)) := by
    simp [farOperands, Line.effect]
  have inRange₁ := inRange.push (show ram.sp.toNat + 1 ≤ 32767 by omega) 32767#16
  have moved := Ram.toNat_sp_push (show ram.sp.toNat + 1 ≤ 32767 by omega) 32767#16
  have inRange₂ := inRange₁.push (by omega) 1#16
  obtain ⟨a₁, d₁, first⟩ := Core.exists_eq_of_ram_eq
    (Code.effects_pushNumber (a := a) (d := d) named inRange 32767)
  obtain ⟨a₂, d₂, second⟩ := Core.exists_eq_of_ram_eq
    (Code.effects_pushNumber (a := a₁) (d := d₁) named inRange₁ 1)
  have negated := Code.effects_unary (a := a₂) (d := d₂) named inRange₂ .neg
  rw [Ram.top_push inRange₁] at negated
  rw [whole, first, second]
  exact negated

/-- **Words far apart compare backwards.** With 32767 and -1 on the stack, `gt` answers that the
first is not greater. -/
theorem far_words_compare_backwards :
    ∃ text rom, compile none [("Far", "push constant 32767\npush constant 1\nneg\ngt\n")] =
        .ok text ∧
      assembleText? (fun _ => 16) text = some rom ∧
      ∃ core, run rom 17 ⟨⟨0, 0, fun address => if address = 0 then 256 else 0⟩, 0⟩ =
          some ⟨core, 17⟩ ∧
        core.ram.sp.toNat = 258 ∧ core.ram 256 = 32767 ∧ core.ram 257 = -1 ∧
        ∃ n last, run rom n ⟨core, 17⟩ = some ⟨last, 35⟩ ∧ step rom ⟨last, 35⟩ = none ∧
          last.ram.sp.toNat = 257 ∧ last.ram.top = 0 ∧
          (core.ram 257).toInt < (core.ram 256).toInt := by
  let ram : Ram := fun address => if address = 0 then 256 else 0
  let code : Code := farOperands ++ .comment "gt" :: Code.comparison .gt 0
  have compiled : compile none [("Far", "push constant 32767\npush constant 1\nneg\ngt\n")] =
      .ok (render code) := by decide +kernel
  have oneLine : '\n' ∉ "gt".toList := by decide
  have readable : Readable code :=
    Spelled.readable (spelled_append.mpr ⟨spelled_farOperands,
      spelled_cons.mpr ⟨oneLine, spelled_operation 0 (.comparison .gt)⟩⟩)
  have assembles : Assembles code := ⟨readable, by decide, by decide, by decide, by decide⟩
  have installed := installed_assemble assembles fun _ => 16
  have named := registersNamed (fun _ => 16) (items code)
  have operands := steps_straight installed.left rfl ⟨0, 0, ram⟩
  have inRange : ram.StackInRange := ⟨by decide, by decide⟩
  let full : Ram := ((ram.push 32767#16).push 1#16).drop.push (-1)
  obtain ⟨a, d, pushed⟩ := Core.exists_eq_of_ram_eq
    (effects_farOperands (a := 0) (d := 0) named inRange (by decide))
  rw [pushed] at operands
  have inRange' : full.StackInRange := ⟨by decide, by decide⟩
  obtain ⟨n, last, compared, result⟩ := Code.steps_comparison (a := a) (d := d) named inRange'
    installed.right.2.2
  have sp : full.sp.toNat = 258 := by decide
  have lower : full 256 = 32767 := by decide
  have upper : full 257 = -1 := by decide
  have length : (assemble (fun _ => 16) (items code)).length = 35 := length_assemble readable
  refine ⟨_, _, compiled, assembleText?_render readable, _, operands.run_eq, sp, lower,
    upper, n, last, compared.run_eq, ?_, ?_, ?_, ?_⟩
  · exact step_eq_none_iff.mpr length.le
  · rw [result]
    decide
  · rw [result]
    decide
  · show (full 257).toInt < (full 256).toInt
    rw [lower, upper]
    decide

end StackToHack
