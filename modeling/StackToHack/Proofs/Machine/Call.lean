import StackToHack.Code.Subroutine
import StackToHack.Proofs.Machine.Transfer

/-!
# What the code of calls and returns does

The block of a call pushes five words and moves `ARG` and `LCL`; the block of a return puts the
result in place of the arguments and reads the saved registers back. Both end with a jump: to the
symbol of the callee, or to the address that the frame of the call holds.
-/

namespace StackToHack.Code

open Hack

variable {symbols : Symbols} (named : RegistersNamed symbols) {rom : Rom} {pc : Nat}
  {a d : Word} {ram : Ram}

/-! ## Calls -/

section Calls

include named

/-- Saving registers puts what they hold on the stack. -/
theorem effects_saves (registers : List Register) (inRange : ram.StackInRange)
    (room : ram.sp.toNat + registers.length ≤ 32767)
    (notSp : ∀ register ∈ registers, register.cell ≠ Register.sp.cell) :
    (effects symbols (registers.flatMap save) ⟨a, d, ram⟩).ram =
      ram.pushAll (registers.map ram.reg) := by
  induction registers generalizing a d ram with
  | nil => rfl
  | cons register registers ih =>
      rw [List.length_cons] at room
      have room' : ram.sp.toNat + 1 ≤ 32767 := by omega
      have moved := Ram.toNat_sp_push room' (ram.reg register)
      have saved := effects_fetch named inRange (a := a) (d := d) (.cell (.register register))
      have address : Place.address symbols ram (.cell (.register register)) = register.cell := by
        rw [Place.address, Symbol.text, named register, cell_word]
      rw [address, Ram.apply_cell ram] at saved
      have same : registers.map (ram.push (ram.reg register)).reg = registers.map ram.reg := by
        refine List.map_congr_left fun r hr => ?_
        exact Ram.reg_push inRange (notSp r (List.mem_cons_of_mem _ hr)) _
      obtain ⟨a', d', first⟩ := Core.exists_eq_of_ram_eq saved
      rw [List.flatMap_cons, effects_append, List.map_cons, Ram.pushAll_cons, ← same, save, first]
      exact ih (inRange.push room' _) (by omega) fun r hr => notSp r (List.mem_cons_of_mem _ hr)

omit named in
/-- Where the frame is complete: `ARG` and `LCL` get their new places, and the way to the callee is
in `A`. -/
def relocate (callee : String) (args : Nat) : Code :=
  [.register .sp, .set .onlyD (.read .m), .number 5, .set .onlyD (.sub .a),
   .number args, .set .onlyD (.sub .a), .register .arg, .set .onlyM .d,
   .register .sp, .set .onlyD (.read .m), .register .lcl, .set .onlyM .d,
   .symbol (.plain callee)]

theorem effects_relocate (callee : String) (args : Nat) :
    effects symbols (relocate callee args) ⟨a, d, ram⟩ =
      ⟨symbols callee, ram.sp,
        (ram.set Register.arg.cell (ram.sp - 5#16 - BitVec.ofNat 16 args)).set Register.lcl.cell
          ram.sp⟩ := by
  have kept : ∀ word, (ram.set Register.arg.cell word).reg .sp = ram.sp :=
    fun word => Ram.reg_set_of_ne (by decide)
  simp [relocate, effect_register named, Comp.value, Operand.value, Ram.apply_cell, kept,
    Symbol.text]

end Calls

/-- What a call saves: the address to return to and four registers. -/
def frame (site : Word) (ram : Ram) : List Word :=
  [site, ram.reg .lcl, ram.reg .arg, ram.reg .this, ram.reg .that]

/-- Memory behind a call. -/
def called (site : Word) (args : Nat) (ram : Ram) : Ram :=
  ((ram.pushAll (frame site ram)).set Register.arg.cell (ram.sp - BitVec.ofNat 16 args)).set
    Register.lcl.cell (ram.sp + 5#16)

/-- Memory behind a call, cell by cell: the frame is on the stack, `LCL` points behind it and `ARG`
to the first argument. -/
structure Called (site : Word) (args : Nat) (ram ram' : Ram) : Prop where
  sp : ram'.sp = ram.sp + 5#16
  lcl : ram'.reg .lcl = ram.sp + 5#16
  arg : ram'.reg .arg = ram.sp - BitVec.ofNat 16 args
  holds : ram'.Holds ram.sp (frame site ram)
  others : ∀ address, (∀ register ∈ [Register.sp, .lcl, .arg], address ≠ register.cell) →
    address.toNat < ram.sp.toNat ∨ ram.sp.toNat + 5 ≤ address.toNat → ram' address = ram address

theorem called_called (inRange : ram.StackInRange) (room : ram.sp.toNat + 5 ≤ 32767) (site : Word)
    (args : Nat) : Called site args ram (called site args ram) := by
  have pushed : ram.Pushed (ram.pushAll (frame site ram)) (frame site ram) :=
    Ram.pushed_pushAll inRange room
  have moved : ∀ {address : Address}, address ≠ Register.lcl.cell → address ≠ Register.arg.cell →
      called site args ram address = ram.pushAll (frame site ram) address := by
    intro address notLcl notArg
    rw [called, Ram.set_of_ne notLcl, Ram.set_of_ne notArg]
  constructor
  · exact (moved (by decide) (by decide)).trans pushed.sp
  · rw [called, Ram.reg_set_self]
  · rw [called, Ram.reg_set_of_ne (by decide), Ram.reg_set_self]
  · intro i hi
    have length : i < 5 := hi
    have base := inRange.base
    have place : (cell (ram.sp + BitVec.ofNat 16 i)).toNat = ram.sp.toNat + i := by
      have sum : (ram.sp + BitVec.ofNat 16 i).toNat = ram.sp.toNat + i :=
        Ram.toNat_add_ofNat (by omega)
      rw [Ram.cell_toNat_of_le (by omega), sum]
    have notRegister : ∀ register : Register,
        cell (ram.sp + BitVec.ofNat 16 i) ≠ register.cell := Register.ne_cell (by omega)
    rw [moved (notRegister _) (notRegister _)]
    exact pushed.holds i hi
  · intro address notRegister outside
    rw [moved (notRegister .lcl (by decide)) (notRegister .arg (by decide))]
    exact pushed.others address (notRegister .sp (by decide)) outside

/-- The code in front of the jump of a call. -/
def prepare (callee : String) (site : Symbol) (args : Nat) : Code :=
  ([.symbol site, .set .onlyD (.read .a)] ++ pushD) ++
    ([Register.lcl, .arg, .this, .that].flatMap save ++ relocate callee args)

theorem invoke_eq (callee : String) (site : Symbol) (args : Nat) :
    invoke callee site args =
      prepare callee site args ++ .goto .zero .always :: ([] ++ .mark site :: []) := by
  simp [invoke, prepare, relocate]

section Calls

variable (inRange : ram.StackInRange) (room : ram.sp.toNat + 5 ≤ 32767)
include named inRange room

theorem effects_prepare (callee : String) (site : Symbol) (args : Nat) :
    effects symbols (prepare callee site args) ⟨a, d, ram⟩ =
      ⟨symbols callee, ram.sp + 5#16, called (symbols site.text) args ram⟩ := by
  let back := symbols site.text
  let first := ram.push back
  have inFirst : first.StackInRange := inRange.push (by omega) back
  have roomFirst : first.sp.toNat + 4 ≤ 32767 := by
    rw [Ram.toNat_sp_push (by omega)]
    omega
  have pushed : effects symbols ([.symbol site, .set .onlyD (.read .a)] ++ pushD) ⟨a, d, ram⟩ =
      ⟨Register.sp.word, back, first⟩ := by
    simp [effects_pushD named inRange, Comp.value, Operand.value, first, back]
  have saved : (effects symbols ([Register.lcl, .arg, .this, .that].flatMap save)
      ⟨Register.sp.word, back, first⟩).ram = ram.pushAll (frame back ram) := by
    rw [effects_saves named [.lcl, .arg, .this, .that] inFirst roomFirst (by decide), frame,
      Ram.pushAll_cons]
    -- the registers are saved behind the first push, but with the words they had before it
    have kept : ∀ register : Register, register.cell ≠ Register.sp.cell →
        first.reg register = ram.reg register := fun _ h => Ram.reg_push inRange h _
    simp only [List.map_cons, List.map_nil]
    rw [kept .lcl (by decide), kept .arg (by decide), kept .this (by decide),
      kept .that (by decide)]
  have pushed5 : ram.Pushed (ram.pushAll (frame back ram)) (frame back ram) :=
    Ram.pushed_pushAll inRange room
  have hsp : (ram.pushAll (frame back ram)).sp = ram.sp + 5#16 := pushed5.sp
  obtain ⟨a', d', complete⟩ := Core.exists_eq_of_ram_eq saved
  rw [prepare, effects_append, pushed, effects_append, complete, effects_relocate named, hsp,
    BitVec.add_sub_cancel]
  rfl

/-- **A call** goes to the symbol of the callee. The address to return to is the one behind the
block. -/
theorem steps_invoke {callee : String} {site : Symbol} {args : Nat}
    (h : Installed symbols rom pc (invoke callee site args)) :
    Steps rom (Set.Ico pc (pc + size (invoke callee site args))) (size (invoke callee site args))
        ⟨⟨a, d, ram⟩, pc⟩
        ⟨⟨symbols callee, ram.sp + 5#16, called (symbols site.text) args ram⟩,
          (symbols callee).toNat⟩ ∧
      (symbols site.text).toNat = pc + size (invoke callee site args) := by
  have sizeAll : size (invoke callee site args) = size (prepare callee site args) + 1 := by
    simp [invoke_eq]
  rw [sizeAll]
  rw [invoke_eq] at h
  constructor
  · have straight : (prepare callee site args).all Line.isStraight = true := rfl
    have prepared := effects_prepare (a := a) (d := d) named inRange room callee site args
    have jumped := steps_straight_compute h straight ⟨a, d, ram⟩ prepared
    simpa only [Jump.taken, if_true, store_none, Nat.add_assoc] using jumped
  · have behind := h.behind_line (show _ = size (prepare callee site args) + 1 from rfl)
    exact behind.mark rfl

end Calls

/-! ## Returns -/

/-- Notes down where the frame ends, in `R13`, and the address to return to, in `R14`. -/
def note : Code :=
  [.register .lcl, .set .onlyD (.read .m), .register .r13, .set .onlyM .d,
   .number 5, .set .onlyA (.sub .a), .set .onlyD (.read .m),
   .register .r14, .set .onlyM .d]

/-- Puts the result where the first argument was and ends the stack behind it. -/
def deliver : Code :=
  popD ++
    [.register .arg, .set .onlyA (.read .m), .set .onlyM .d,
     .register .arg, .set .onlyD (.inc .m), .register .sp, .set .onlyM .d]

/-- The registers that a return takes back, and how far from the end of the frame they are. -/
def savedAt : List (Register × Nat) := [(.that, 1), (.this, 2), (.arg, 3), (.lcl, 4)]

/-- The code in front of the jump of a return. -/
def leave : Code :=
  note ++ (deliver ++ (savedAt.flatMap (fun entry => restore entry.1 entry.2) ++
    [.register .r14, .set .onlyA (.read .m)]))

theorem ret_eq : ret = leave ++ .goto .zero .always :: [] := by
  simp [ret, leave, note, deliver, savedAt]

/-- Memory behind `note`. -/
def noted (ram : Ram) : Ram :=
  (ram.set Register.r13.cell (ram.reg .lcl)).set Register.r14.cell
    (ram.set Register.r13.cell (ram.reg .lcl) (cell (ram.reg .lcl - 5#16)))

/-- Memory behind `deliver`. -/
def delivered (ram : Ram) : Ram :=
  (ram.drop.set (cell (ram.reg .arg)) ram.top).set Register.sp.cell (ram.reg .arg + 1)

/-- Memory after registers were taken back, one after the other. -/
def restored (ram : Ram) : List (Register × Nat) → Ram
  | [] => ram
  | (register, distance) :: rest =>
    restored (ram.set register.cell (ram (cell (ram.reg .r13 - BitVec.ofNat 16 distance)))) rest

theorem restored_of_not_mem {entries : List (Register × Nat)} {address : Address}
    (h : ∀ entry ∈ entries, address ≠ entry.1.cell) :
    restored ram entries address = ram address := by
  induction entries generalizing ram with
  | nil => rfl
  | cons entry rest ih =>
      rw [restored, ih fun e he => h e (List.mem_cons_of_mem _ he)]
      exact Ram.set_of_ne (h entry (List.mem_cons_self ..))

/-- What is taken back is what lay there in the first place, since the frame is far from the cells
of registers. -/
theorem restored_of_mem {entries : List (Register × Nat)} {register : Register} {distance : Nat}
    (member : (register, distance) ∈ entries)
    (different : (entries.map fun entry => entry.1.cell).Nodup)
    (notR13 : ∀ entry ∈ entries, entry.1.cell ≠ Register.r13.cell)
    (far : ∀ entry ∈ entries, 16 ≤ (cell (ram.reg .r13 - BitVec.ofNat 16 entry.2)).toNat) :
    (restored ram entries).reg register =
      ram (cell (ram.reg .r13 - BitVec.ofNat 16 distance)) := by
  induction entries generalizing ram with
  | nil => exact absurd member List.not_mem_nil
  | cons entry rest ih =>
      obtain ⟨other, otherDistance⟩ := entry
      rw [List.map_cons, List.nodup_cons] at different
      let word := ram (cell (ram.reg .r13 - BitVec.ofNat 16 otherDistance))
      have keptR13 : (ram.set other.cell word).reg .r13 = ram.reg .r13 :=
        Ram.reg_set_of_ne (notR13 _ (List.mem_cons_self ..)).symm
      rcases List.mem_cons.mp member with same | inRest
      · -- taken back right now, and by none of those that follow
        obtain ⟨rfl, rfl⟩ := Prod.mk.inj same
        have last : ∀ e ∈ rest, register.cell ≠ e.1.cell := fun e he same =>
          different.1 (same ▸ List.mem_map_of_mem (f := fun e : Register × Nat => e.1.cell) he)
        rw [restored, Ram.reg, restored_of_not_mem last, Ram.set_self]
      · -- taken back later, from a cell that is not touched by then
        have keptFar : ∀ e ∈ rest,
            16 ≤ (cell ((ram.set other.cell word).reg .r13 - BitVec.ofNat 16 e.2)).toNat := by
          intro e he
          rw [keptR13]
          exact far e (List.mem_cons_of_mem _ he)
        have restTaken : (restored (ram.set other.cell word) rest).reg register = _ :=
          ih inRest different.2 (fun e he => notR13 e (List.mem_cons_of_mem _ he)) keptFar
        rw [restored, restTaken, keptR13]
        exact Ram.set_of_ne (other.ne_cell (far _ member))

section Returns

include named

theorem effects_restores (entries : List (Register × Nat)) :
    (effects symbols (entries.flatMap fun entry => restore entry.1 entry.2) ⟨a, d, ram⟩).ram =
      restored ram entries := by
  induction entries generalizing a d ram with
  | nil => rfl
  | cons entry rest ih =>
      obtain ⟨register, distance⟩ := entry
      have first : effects symbols (restore register distance) ⟨a, d, ram⟩ =
          ⟨register.word, ram (cell (ram.reg .r13 - BitVec.ofNat 16 distance)),
            ram.set register.cell (ram (cell (ram.reg .r13 - BitVec.ofNat 16 distance)))⟩ := by
        simp [restore, effect_register named, Comp.value, Operand.value, Ram.apply_cell]
      rw [List.flatMap_cons, effects_append, first, ih]
      rfl

theorem effects_note : (effects symbols note ⟨a, d, ram⟩).ram = noted ram := by
  simp [noted, note, effect_register named, Comp.value, Operand.value, Ram.apply_cell]

theorem effects_deliver (inRange : ram.StackInRange) (far : 16 ≤ (cell (ram.reg .arg)).toNat) :
    (effects symbols deliver ⟨a, d, ram⟩).ram = delivered ram := by
  have dropped : ram.drop.reg .arg = ram.reg .arg := Ram.reg_set_of_ne (by decide)
  have kept : (ram.drop.set (cell (ram.reg .arg)) ram.top).reg .arg = ram.reg .arg := by
    rw [Ram.reg_set_of_le far, dropped]
  simp [delivered, deliver, effects_popD named inRange, effect_register named, Comp.value,
    Operand.value, Ram.apply_cell, dropped, kept]

end Returns

theorem noted_of_ne {address : Address} (h13 : address ≠ Register.r13.cell)
    (h14 : address ≠ Register.r14.cell) : noted ram address = ram address := by
  rw [noted, Ram.set_of_ne h14, Ram.set_of_ne h13]

theorem arg_noted : (noted ram).reg .arg = ram.reg .arg := noted_of_ne (by decide) (by decide)

theorem sp_noted : (noted ram).sp = ram.sp := noted_of_ne (by decide) (by decide)

theorem delivered_of_ne {address : Address} (hsp : address ≠ Register.sp.cell)
    (harg : address ≠ cell (ram.reg .arg)) : delivered (noted ram) address = noted ram address := by
  rw [← arg_noted] at harg
  rw [delivered, Ram.set_of_ne hsp, Ram.set_of_ne harg, Ram.drop, Ram.set_of_ne hsp]

/-- Memory behind a return. -/
def returned (ram : Ram) : Ram := restored (delivered (noted ram)) savedAt

/-- The frame of the current call is where `LCL` says, its arguments, if any, are below it, and the
stack is above it. -/
structure InFrame (ram : Ram) (base : Word) (words : List Word) : Prop where
  lcl : ram.reg .lcl = base + 5#16
  low : 256 ≤ base.toNat
  high : base.toNat + 5 ≤ 32767
  argLow : 256 ≤ (ram.reg .arg).toNat
  argHigh : (ram.reg .arg).toNat ≤ base.toNat
  stack : (ram.reg .lcl).toNat < ram.sp.toNat
  limit : ram.sp.toNat ≤ 32767
  holds : ram.Holds base words

/-- Memory behind a return: the result is on top of the stack of the caller, its registers are what
they were, and all the rest is as it is. -/
structure Returned (ram ram' : Ram) (lcl arg this that : Word) : Prop where
  sp : ram'.sp = ram.reg .arg + 1
  lcl : ram'.reg .lcl = lcl
  arg : ram'.reg .arg = arg
  this : ram'.reg .this = this
  that : ram'.reg .that = that
  result : ram' (cell (ram.reg .arg)) = ram.top
  others : ∀ address, (∀ register ∈ [Register.sp, .lcl, .arg, .this, .that, .r13, .r14],
    address ≠ register.cell) → address ≠ cell (ram.reg .arg) → ram' address = ram address

section Leaving

variable {base : Word} {words : List Word} (inFrame : InFrame ram base words)
include inFrame

theorem InFrame.stackInRange : ram.StackInRange := by
  have h := inFrame.stack
  have low := inFrame.low
  rw [inFrame.lcl, Ram.toNat_add_ofNat (n := 5) inFrame.high] at h
  exact ⟨by omega, inFrame.limit⟩

theorem InFrame.far : 16 ≤ (cell (ram.reg .arg)).toNat := by
  have low := inFrame.argLow
  have high := inFrame.argHigh
  have limit := inFrame.high
  rw [Ram.cell_toNat_of_le (by omega)]
  omega

/-- Counted from the end of the frame or from its start. -/
theorem InFrame.lcl_sub {distance : Nat} (h : distance ≤ 5) :
    ram.reg .lcl - BitVec.ofNat 16 distance = base + BitVec.ofNat 16 (5 - distance) := by
  have low := inFrame.low
  have high := inFrame.high
  rw [inFrame.lcl]
  apply BitVec.eq_of_toNat_eq
  simp only [BitVec.toNat_sub, BitVec.toNat_add, BitVec.toNat_ofNat]
  omega

theorem InFrame.toNat_cell_lcl_sub {distance : Nat} (h : distance ≤ 5) :
    (cell (ram.reg .lcl - BitVec.ofNat 16 distance)).toNat = base.toNat + 5 - distance := by
  have high := inFrame.high
  have sum : (base + BitVec.ofNat 16 (5 - distance)).toNat = base.toNat + (5 - distance) :=
    Ram.toNat_add_ofNat (by omega)
  rw [inFrame.lcl_sub h, Ram.cell_toNat_of_le (by omega), sum]
  omega

/-- The cells of registers are far from the one of the result. -/
theorem InFrame.register_ne (register : Register) : register.cell ≠ cell (ram.reg .arg) :=
  (register.ne_cell inFrame.far).symm

theorem InFrame.top_noted : (noted ram).top = ram.top := by
  have far := inFrame.stackInRange.cell_ne (show (1 : Word).toNat ≤ 2 by decide)
  rw [Ram.top, sp_noted, noted_of_ne (far _) (far _)]
  rfl

theorem InFrame.r13_delivered : (delivered (noted ram)).reg .r13 = ram.reg .lcl := by
  rw [Ram.reg, delivered_of_ne (by decide) (inFrame.register_ne .r13), noted,
    Ram.set_of_ne (by decide), Ram.set_self]

/-- The address to return to is safe in `R14` before the result can take its place. -/
theorem InFrame.r14_delivered :
    (delivered (noted ram)).reg .r14 = ram (cell (ram.reg .lcl - 5#16)) := by
  have low := inFrame.low
  have site : (cell (ram.reg .lcl - 5#16)).toNat = _ := inFrame.toNat_cell_lcl_sub (Nat.le_refl 5)
  rw [Ram.reg, delivered_of_ne (by decide) (inFrame.register_ne .r14), noted, Ram.set_self]
  exact Ram.set_of_ne (Register.ne_cell (by omega) _)

/-- A saved register can still be read behind `deliver`. -/
theorem InFrame.delivered_frame {distance : Nat} (hlow : 1 ≤ distance) (hhigh : distance ≤ 4) :
    delivered (noted ram) (cell ((delivered (noted ram)).reg .r13 - BitVec.ofNat 16 distance)) =
      ram (cell (base + BitVec.ofNat 16 (5 - distance))) := by
  have place := inFrame.toNat_cell_lcl_sub (show distance ≤ 5 by omega)
  have low := inFrame.low
  have notRegister : ∀ register : Register,
      cell (ram.reg .lcl - BitVec.ofNat 16 distance) ≠ register.cell := Register.ne_cell (by omega)
  have notResult : cell (ram.reg .lcl - BitVec.ofNat 16 distance) ≠ cell (ram.reg .arg) := by
    intro same
    have argHigh := inFrame.argHigh
    have high := inFrame.high
    rw [same, Ram.cell_toNat_of_le (by omega)] at place
    omega
  rw [inFrame.r13_delivered, delivered_of_ne (notRegister _) notResult,
    noted_of_ne (notRegister _) (notRegister _), inFrame.lcl_sub (by omega)]

theorem InFrame.taken_back {register : Register} {distance : Nat}
    (member : (register, distance) ∈ savedAt) :
    (returned ram).reg register = ram (cell (base + BitVec.ofNat 16 (5 - distance))) := by
  have bounds : ∀ entry ∈ savedAt, 1 ≤ entry.2 ∧ entry.2 ≤ 4 := by decide
  have far : ∀ entry ∈ savedAt, 16 ≤
      (cell ((delivered (noted ram)).reg .r13 - BitVec.ofNat 16 entry.2)).toNat := by
    intro entry inSaved
    have low := inFrame.low
    have near := (bounds entry inSaved).2
    rw [inFrame.r13_delivered, inFrame.toNat_cell_lcl_sub (by omega)]
    omega
  rw [returned, restored_of_mem member (by decide) (by decide) far]
  exact inFrame.delivered_frame (bounds _ member).1 (bounds _ member).2

end Leaving

/-- What a return leaves behind, given what the frame holds. -/
theorem InFrame.returned {base site lcl arg this that : Word}
    (inFrame : InFrame ram base [site, lcl, arg, this, that]) :
    Returned ram (returned ram) lcl arg this that := by
  have notSaved : ∀ address, (∀ register ∈ [Register.lcl, .arg, .this, .that],
      address ≠ register.cell) → Code.returned ram address = delivered (noted ram) address := by
    intro address h
    refine restored_of_not_mem fun entry member => h entry.1 ?_
    have among : ∀ entry ∈ savedAt, entry.1 ∈ [Register.lcl, .arg, .this, .that] := by decide
    exact among entry member
  constructor
  · show Code.returned ram Register.sp.cell = _
    rw [notSaved _ (by decide), delivered, Ram.set_self, arg_noted]
  · exact (inFrame.taken_back (show (.lcl, 4) ∈ savedAt by decide)).trans
      (inFrame.holds 1 (show 1 < 5 by decide))
  · exact (inFrame.taken_back (show (.arg, 3) ∈ savedAt by decide)).trans
      (inFrame.holds 2 (show 2 < 5 by decide))
  · exact (inFrame.taken_back (show (.this, 2) ∈ savedAt by decide)).trans
      (inFrame.holds 3 (show 3 < 5 by decide))
  · exact (inFrame.taken_back (show (.that, 1) ∈ savedAt by decide)).trans
      (inFrame.holds 4 (show 4 < 5 by decide))
  · rw [notSaved _ fun register _ => (inFrame.register_ne register).symm, delivered,
      Ram.set_of_ne (inFrame.register_ne .sp).symm, arg_noted, Ram.set_self, inFrame.top_noted]
  · intro address notRegister notResult
    rw [notSaved address fun register member => notRegister register ?_,
      delivered_of_ne (notRegister .sp (by decide)) notResult,
      noted_of_ne (notRegister .r13 (by decide)) (notRegister .r14 (by decide))]
    revert member
    revert register
    decide

theorem effects_leave {base : Word} {words : List Word} (named : RegistersNamed symbols)
    (inFrame : InFrame ram base words) :
    ∃ d', effects symbols leave ⟨a, d, ram⟩ =
      ⟨(returned ram).reg .r14, d', returned ram⟩ := by
  have notedRange : (noted ram).StackInRange := by
    obtain ⟨low, high⟩ := inFrame.stackInRange
    rw [← sp_noted] at low high
    exact ⟨low, high⟩
  have notedFar : 16 ≤ (cell ((noted ram).reg .arg)).toNat := by
    rw [arg_noted]
    exact inFrame.far
  obtain ⟨a₁, d₁, noting⟩ := Core.exists_eq_of_ram_eq
    (show (effects symbols note ⟨a, d, ram⟩).ram = _ from effects_note named)
  obtain ⟨a₂, d₂, delivering⟩ :=
    Core.exists_eq_of_ram_eq (effects_deliver (a := a₁) (d := d₁) named notedRange notedFar)
  obtain ⟨a₃, d₃, restoring⟩ := Core.exists_eq_of_ram_eq
    (show (effects symbols (savedAt.flatMap fun entry => restore entry.1 entry.2)
      ⟨a₂, d₂, delivered (noted ram)⟩).ram = returned ram from effects_restores named savedAt)
  rw [leave, effects_append, noting, effects_append, delivering, effects_append, restoring]
  refine ⟨d₃, ?_⟩
  simp only [effects_cons, effects_nil, effect_register named, Line.effect_set, store_onlyA,
    Comp.value, Operand.value, cell_word, Ram.apply_cell]

/-- **A return** goes back to the address that the frame holds. -/
theorem steps_ret {base site lcl arg this that : Word} (named : RegistersNamed symbols)
    (inFrame : InFrame ram base [site, lcl, arg, this, that]) (h : Installed symbols rom pc ret) :
    ∃ core, Steps rom (Set.Ico pc (pc + size ret)) (size ret) ⟨⟨a, d, ram⟩, pc⟩
        ⟨core, site.toNat⟩ ∧
      Returned ram core.ram lcl arg this that := by
  obtain ⟨d', left⟩ := effects_leave (a := a) (d := d) named inFrame
  have back : (returned ram).reg .r14 = site := by
    have notSaved : ∀ entry ∈ savedAt, Register.r14.cell ≠ entry.1.cell := by decide
    rw [returned, Ram.reg, restored_of_not_mem notSaved]
    refine inFrame.r14_delivered.trans ?_
    rw [show (5#16 : Word) = BitVec.ofNat 16 5 from rfl, inFrame.lcl_sub (Nat.le_refl 5)]
    exact inFrame.holds 0 (show 0 < 5 by decide)
  have sizeAll : size ret = size leave + 1 := by
    rw [ret_eq]
    simp
  have straight : leave.all Line.isStraight = true := rfl
  rw [sizeAll]
  rw [ret_eq] at h
  have jumped := steps_straight_compute h straight ⟨a, d, ram⟩ left
  simp only [Jump.taken, if_true, store_none, back, Nat.add_assoc] at jumped
  exact ⟨_, jumped, inFrame.returned⟩

end StackToHack.Code
