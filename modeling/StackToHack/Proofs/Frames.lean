import StackToHack.Proofs.Machine.Assembler
import StackToHack.Proofs.Machine.Call
import StackToHack.Proofs.Spelling

/-!
# Frames of calls

Between a call and its return anything may happen: other calls and returns, and code that writes
wherever it likes, as long as it keeps its hands off `LCL`, `ARG` and the frames of the calls that
are active (`Execution`). All along, the frames lie in memory one above the other, each with what
its call saved, and `LCL` and `ARG` belong to the uppermost one (`Framed`). So a return always finds
the frame of the call it belongs to, the one that was made last.
-/

namespace StackToHack

open Hack

/-! ## Active calls -/

/-- A call that is active: the machine in front of its block, the symbol behind the block, and the
number of arguments. -/
structure Activation where
  before : State
  site : Symbol
  args : Nat

namespace Activation

/-- Memory in front of the call. -/
def ram (call : Activation) : Ram := call.before.core.ram

/-- Where the frame starts. -/
def base (call : Activation) : Word := call.ram.sp

/-- What the frame holds. -/
def saved (symbols : Symbols) (call : Activation) : List Word :=
  Code.frame (symbols call.site.text) call.ram

end Activation

/-- A call may be made: its arguments are on the stack of the current call, and there is room for a
frame. -/
structure CanCall (active : List Activation) (ram : Ram) (args : Nat) : Prop where
  args : (if active = [] then 256 else (ram.reg .lcl).toNat) + args ≤ ram.sp.toNat
  room : ram.sp.toNat + 5 ≤ 32767

/-- What may happen to memory besides calls and returns. -/
structure Allowed (active : List Activation) (ram ram' : Ram) : Prop where
  lcl : ram'.reg .lcl = ram.reg .lcl
  arg : ram'.reg .arg = ram.reg .arg
  frames : ∀ call ∈ active, ∀ i < 5,
    ram' (cell (call.base + BitVec.ofNat 16 i)) = ram (cell (call.base + BitVec.ofNat 16 i))
  limit : ram'.sp.toNat ≤ 32767
  bottom : active ≠ [] → (ram'.reg .lcl).toNat ≤ ram'.sp.toNat

/-- Executions that are made of the blocks of calls and returns and of anything else that is
allowed, with the calls that are active, the last one first. -/
inductive Execution (symbols : Symbols) (rom : Rom) : List Activation → State → Prop
  | start (state : State) : Execution symbols rom [] state
  | call {active : List Activation} {state state' : State} {unit name : String}
      {context : Context} {args : UInt32} {block : Code}
      (reached : Execution symbols rom active state)
      (emitted : (Command.call name args).code unit context = .ok block)
      (installed : Installed symbols rom state.pc block)
      (can : CanCall active state.core.ram args.toNat)
      (ran : run rom (size block) state = some state') :
      Execution symbols rom
        (⟨state, .returnSite unit name context.callSites, args.toNat⟩ :: active) state'
  | other {active : List Activation} {state state' : State}
      (reached : Execution symbols rom active state)
      (allowed : Allowed active state.core.ram state'.core.ram) :
      Execution symbols rom active state'
  | ret {call : Activation} {active : List Activation} {state state' : State} {unit : String}
      {context : Context} {block : Code}
      (reached : Execution symbols rom (call :: active) state)
      (emitted : Command.ret.code unit context = .ok block)
      (installed : Installed symbols rom state.pc block)
      (result : (state.core.ram.reg .lcl).toNat < state.core.ram.sp.toNat)
      (ran : run rom (size block) state = some state') :
      Execution symbols rom active state'

/-! ## The chain of frames -/

/-- The lowest address of the stack of the current call. -/
def floor : List Activation → Nat
  | [] => 256
  | call :: _ => call.base.toNat + 5

/-- The frames of active calls are in memory, and the given words are the `LCL` and `ARG` that the
last one made. -/
def Framed (symbols : Symbols) (ram : Ram) : Word → Word → List Activation → Prop
  | _, _, [] => True
  | lcl, arg, call :: rest =>
    lcl = call.base + 5#16 ∧ arg = call.base - BitVec.ofNat 16 call.args ∧
      floor rest + call.args ≤ call.base.toNat ∧ call.base.toNat + 5 ≤ 32767 ∧
      ram.Holds call.base (call.saved symbols) ∧
      Framed symbols ram (call.ram.reg .lcl) (call.ram.reg .arg) rest

section Framed

variable {symbols : Symbols} {ram ram' : Ram} {lcl arg : Word} {active : List Activation}

theorem Framed.le_floor (h : Framed symbols ram lcl arg active) : 256 ≤ floor active := by
  induction active generalizing lcl arg with
  | nil => exact Nat.le_refl _
  | cons call rest ih =>
      obtain ⟨-, -, room, -, -, outer⟩ := h
      have low := ih outer
      show 256 ≤ call.base.toNat + 5
      omega

/-- Every frame lies between the cells of the registers and the stack of the current call. -/
theorem Framed.base_mem (h : Framed symbols ram lcl arg active) :
    ∀ call ∈ active, 256 ≤ call.base.toNat ∧ call.base.toNat + 5 ≤ floor active ∧
      floor active ≤ 32767 := by
  induction active generalizing lcl arg with
  | nil => exact fun _ member => absurd member List.not_mem_nil
  | cons call rest ih =>
      obtain ⟨-, -, room, limit, -, outer⟩ := h
      have low := outer.le_floor
      have here : floor (call :: rest) = call.base.toNat + 5 := rfl
      intro other member
      rcases List.mem_cons.mp member with rfl | member
      · omega
      · have below := ih outer other member
        omega

/-- Frames stay where memory is not changed. -/
theorem Framed.of_frames (h : Framed symbols ram lcl arg active)
    (same : ∀ call ∈ active, ∀ i < 5,
      ram' (cell (call.base + BitVec.ofNat 16 i)) = ram (cell (call.base + BitVec.ofNat 16 i))) :
    Framed symbols ram' lcl arg active := by
  induction active generalizing lcl arg with
  | nil => exact trivial
  | cons call rest ih =>
      obtain ⟨hlcl, harg, room, limit, holds, outer⟩ := h
      refine ⟨hlcl, harg, room, limit, ?_, ?_⟩
      · intro i hi
        rw [same call (List.mem_cons_self ..) i hi]
        exact holds i hi
      · exact ih outer fun c hc => same c (List.mem_cons_of_mem _ hc)

/-- Frames stay where memory is not changed below the stack of the current call. -/
theorem Framed.of_below (h : Framed symbols ram lcl arg active)
    (same : ∀ address : Address, 256 ≤ address.toNat → address.toNat < floor active →
      ram' address = ram address) :
    Framed symbols ram' lcl arg active := by
  -- every cell of a frame is below the stack of the current call
  refine h.of_frames fun call member i hi => ?_
  obtain ⟨low, below, limit⟩ := h.base_mem call member
  have sum : (call.base + BitVec.ofNat 16 i).toNat = call.base.toNat + i :=
    Ram.toNat_add_ofNat (by omega)
  have place := Ram.cell_toNat_of_le (show (call.base + BitVec.ofNat 16 i).toNat ≤ 32767 by omega)
  exact same _ (by omega) (by omega)

end Framed

/-- What holds all along an execution. -/
structure Sound (symbols : Symbols) (active : List Activation) (ram : Ram) : Prop where
  framed : Framed symbols ram (ram.reg .lcl) (ram.reg .arg) active
  limit : active ≠ [] → ram.sp.toNat ≤ 32767

/-! ## Calls -/

section Call

variable {symbols : Symbols} {rom : Rom} {active : List Activation} {state : State} {ram ram' : Ram}
  {unit name : String} {context : Context} {args : UInt32} {block : Code}

theorem Sound.floor_le (sound : Sound symbols active ram) {count : Nat}
    (can : CanCall active ram count) : floor active + count ≤ ram.sp.toNat := by
  have enough := can.args
  cases active with
  | nil => simpa [floor] using enough
  | cons call rest =>
      obtain ⟨hlcl, -, -, limit, -⟩ := sound.framed
      rw [if_neg (List.cons_ne_nil _ _), hlcl, Ram.toNat_add_ofNat (n := 5) limit] at enough
      exact enough

theorem Sound.stackInRange (sound : Sound symbols active ram) {count : Nat}
    (can : CanCall active ram count) : ram.StackInRange := by
  have low := sound.framed.le_floor
  have enough := sound.floor_le can
  have room := can.room
  exact ⟨by omega, by omega⟩

/-- The block of a call reaches the callee. -/
theorem steps_call (named : Code.RegistersNamed symbols)
    (sound : Sound symbols active state.core.ram)
    (emitted : (Command.call name args).code unit context = .ok block)
    (installed : Installed symbols rom state.pc block)
    (can : CanCall active state.core.ram args.toNat) :
    ∃ core, Steps rom (Set.Ico state.pc (state.pc + size block)) (size block) state
        ⟨core, (symbols name).toNat⟩ ∧
      Code.Called (symbols (Symbol.returnSite unit name context.callSites).text) args.toNat
        state.core.ram core.ram ∧
      (symbols (Symbol.returnSite unit name context.callSites).text).toNat =
        state.pc + size block := by
  obtain ⟨count, rfl, hcount⟩ := Command.code_eq_ok emitted
  obtain rfl := Code.eq_toNat_of_loadable hcount
  have inRange := sound.stackInRange can
  obtain ⟨steps, behind⟩ := Code.steps_invoke (a := state.core.a) (d := state.core.d) named inRange
    can.room installed
  exact ⟨_, steps, Code.called_called inRange can.room _ _, behind⟩

/-- A call puts its frame on top of the others. -/
theorem Sound.call {site : Symbol} {count : Nat} (sound : Sound symbols active state.core.ram)
    (can : CanCall active state.core.ram count)
    (called : Code.Called (symbols site.text) count state.core.ram ram') :
    Sound symbols (⟨state, site, count⟩ :: active) ram' := by
  have enough := sound.floor_le can
  constructor
  · rw [called.lcl, called.arg]
    refine ⟨rfl, rfl, enough, can.room, called.holds, ?_⟩
    refine sound.framed.of_below fun address low below => ?_
    have notRegister : ∀ register : Register, address ≠ register.cell :=
      Register.ne_cell (by omega)
    exact called.others address (fun register _ => notRegister register) (.inl (by omega))
  · intro _
    rw [called.sp, Ram.toNat_add_ofNat (n := 5) can.room]
    exact can.room

end Call

/-! ## Returns -/

/-- Memory behind a return, cell by cell, compared with memory in front of it and in front of the
call. -/
structure AfterReturn (call : Activation) (ram ram' : Ram) : Prop where
  lcl : ram'.reg .lcl = call.ram.reg .lcl
  arg : ram'.reg .arg = call.ram.reg .arg
  this : ram'.reg .this = call.ram.reg .this
  that : ram'.reg .that = call.ram.reg .that
  sp : ram'.sp = call.ram.sp - BitVec.ofNat 16 call.args + 1
  result : ram'.top = ram.top
  others : ∀ address, (∀ register ∈ [Register.sp, .lcl, .arg, .this, .that, .r13, .r14],
    address ≠ register.cell) → address ≠ cell (call.ram.sp - BitVec.ofNat 16 call.args) →
      ram' address = ram address

section Return

variable {symbols : Symbols} {rom : Rom} {call : Activation} {active : List Activation}
  {state : State} {ram ram' : Ram} {unit : String} {context : Context} {block : Code}

theorem Sound.toNat_arg (sound : Sound symbols (call :: active) ram) :
    (ram.reg .arg).toNat = call.base.toNat - call.args := by
  obtain ⟨-, harg, room, -⟩ := sound.framed
  have small : (BitVec.ofNat 16 call.args).toNat = call.args := by
    have word := call.base.isLt
    rw [BitVec.toNat_ofNat, Nat.mod_eq_of_lt (by omega)]
  rw [harg, BitVec.toNat_sub_of_le (BitVec.le_def.mpr (by omega)), small]

theorem Sound.inFrame (sound : Sound symbols (call :: active) ram)
    (result : (ram.reg .lcl).toNat < ram.sp.toNat) :
    Code.InFrame ram call.base (call.saved symbols) := by
  have harg := sound.toNat_arg
  obtain ⟨hlcl, -, room, limit, holds, outer⟩ := sound.framed
  have low := outer.le_floor
  exact {
    lcl := hlcl
    low := by omega
    high := limit
    argLow := by omega
    argHigh := by omega
    stack := result
    limit := sound.limit (List.cons_ne_nil _ _)
    holds }

/-- The block of a return goes back behind the last call. -/
theorem steps_return (named : Code.RegistersNamed symbols)
    (sound : Sound symbols (call :: active) state.core.ram)
    (emitted : Command.ret.code unit context = .ok block)
    (installed : Installed symbols rom state.pc block)
    (result : (state.core.ram.reg .lcl).toNat < state.core.ram.sp.toNat) :
    ∃ core, Steps rom (Set.Ico state.pc (state.pc + size block)) (size block) state
        ⟨core, (symbols call.site.text).toNat⟩ ∧
      AfterReturn call state.core.ram core.ram := by
  obtain rfl : block = Code.ret := Command.code_eq_ok emitted
  obtain ⟨core, steps, returned⟩ := Code.steps_ret (a := state.core.a) (d := state.core.d) named
    (sound.inFrame result) installed
  obtain ⟨-, harg, -⟩ := sound.framed
  refine ⟨core, steps, ?_⟩
  exact {
    lcl := returned.lcl
    arg := returned.arg
    this := returned.this
    that := returned.that
    sp := returned.sp.trans (congrArg (· + 1) harg)
    result := by
      rw [Ram.top, returned.sp, BitVec.add_sub_cancel]
      exact returned.result
    others := fun address notRegister notResult => by
      refine returned.others address notRegister ?_
      rw [harg]
      exact notResult }

/-- A return takes the uppermost frame away. -/
theorem Sound.ret (sound : Sound symbols (call :: active) ram)
    (after : AfterReturn call ram ram') : Sound symbols active ram' := by
  have harg := sound.toNat_arg
  obtain ⟨-, arg, room, limit, -, outer⟩ := sound.framed
  rw [arg] at harg
  constructor
  · rw [after.lcl, after.arg]
    refine outer.of_below fun address low below => ?_
    have notRegister : ∀ register : Register, address ≠ register.cell :=
      Register.ne_cell (by omega)
    have notResult : address ≠ cell (call.base - BitVec.ofNat 16 call.args) := by
      rintro rfl
      rw [Ram.cell_toNat_of_le (by omega)] at below
      omega
    exact after.others address (fun register _ => notRegister register) notResult
  · intro _
    have next := Ram.toNat_add_ofNat (n := 1)
      (show (call.base - BitVec.ofNat 16 call.args).toNat + 1 ≤ 32767 by omega)
    rw [after.sp, show call.ram.sp = call.base from rfl]
    exact Nat.le_trans (Nat.le_of_eq next) (by omega)

end Return

/-! ## Executions -/

/-- Anything else that is allowed leaves the frames alone. -/
theorem Sound.other {symbols : Symbols} {active : List Activation} {ram ram' : Ram}
    (sound : Sound symbols active ram) (allowed : Allowed active ram ram') :
    Sound symbols active ram' := by
  constructor
  · rw [allowed.lcl, allowed.arg]
    exact sound.framed.of_frames allowed.frames
  · exact fun _ => allowed.limit

theorem Execution.sound {symbols : Symbols} {rom : Rom} (named : Code.RegistersNamed symbols)
    {active : List Activation} {state : State} (h : Execution symbols rom active state) :
    Sound symbols active state.core.ram := by
  induction h with
  | start state => exact ⟨trivial, fun h => absurd rfl h⟩
  | call reached emitted installed can ran ih =>
      -- the machine has no choice, so the state behind the block is the one that is known
      obtain ⟨core, steps, called, -⟩ := steps_call named ih emitted installed can
      obtain rfl := Option.some.inj (steps.run_eq.symm.trans ran)
      exact ih.call can called
  | other reached allowed ih => exact ih.other allowed
  | ret reached emitted installed result ran ih =>
      obtain ⟨core, steps, after⟩ := steps_return named ih emitted installed result
      obtain rfl := Option.some.inj (steps.run_eq.symm.trans ran)
      exact ih.ret after

/-- **Frame discipline.** Wherever an execution has come to, the block of a call reaches the callee
with a new frame on the stack, and the block of a return goes back behind the call that was made
last and is still active: with the registers that it saved, and the result on top of the stack in
place of its arguments. -/
theorem frame_discipline {symbols : Symbols} {rom : Rom} (named : Code.RegistersNamed symbols)
    {active : List Activation} {state : State} (reached : Execution symbols rom active state) :
    (∀ unit context name args block,
      (Command.call name args).code unit context = .ok block →
      Installed symbols rom state.pc block → CanCall active state.core.ram args.toNat →
        ∃ core, Steps rom (Set.Ico state.pc (state.pc + size block)) (size block) state
            ⟨core, (symbols name).toNat⟩ ∧
          Code.Called (symbols (Symbol.returnSite unit name context.callSites).text) args.toNat
            state.core.ram core.ram ∧
          (symbols (Symbol.returnSite unit name context.callSites).text).toNat =
            state.pc + size block) ∧
    ∀ unit context block call rest, active = call :: rest →
      Command.ret.code unit context = .ok block → Installed symbols rom state.pc block →
      (state.core.ram.reg .lcl).toNat < state.core.ram.sp.toNat →
        ∃ core, Steps rom (Set.Ico state.pc (state.pc + size block)) (size block) state
            ⟨core, (symbols call.site.text).toNat⟩ ∧
          AfterReturn call state.core.ram core.ram := by
  have sound := reached.sound named
  constructor
  · intro unit context name args block emitted installed can
    exact steps_call named sound emitted installed can
  · rintro unit context block call rest rfl emitted installed result
    exact steps_return named sound emitted installed result

/-- A call and its return, with a result that is pushed in between. -/
theorem frame_discipline_once :
    let call := Code.invoke "f" (.returnSite "U" "f" 0) 0
    let code := call ++ Code.ret
    let rom := assemble (fun _ => 16) (items code)
    let ram : Ram := fun address => if address = 0 then 256 else 0
    ∃ inside behind : Core,
      run rom (size call) ⟨⟨0, 0, ram⟩, 0⟩ = some ⟨inside, 16⟩ ∧
      run rom (size Code.ret) ⟨⟨0, 0, inside.ram.push 7⟩, size call⟩ =
        some ⟨behind, size call⟩ ∧
      behind.ram.sp = 257 ∧ behind.ram.top = 7 := by
  intro call code rom ram
  let table := symbols (fun _ => 16) (items code)
  have readable : Readable code := readable_append.mpr
    ⟨readable_invoke (by decide) ⟨by decide, by decide⟩ (by decide), readable_ret⟩
  have assembles : Assembles code := ⟨readable, by decide, by decide, by decide, by decide⟩
  have installed : Installed table rom 0 code :=
    installed_assemble assembles _
  have named : Code.RegistersNamed table := registersNamed _ _
  have emitted : (Command.call "f" 0).code "U" .fresh = .ok call := rfl
  have can : CanCall [] ram 0 := ⟨by decide, by decide⟩
  have start : Execution table rom [] ⟨⟨0, 0, ram⟩, 0⟩ := .start _
  obtain ⟨inside, entering, called, site⟩ :=
    (frame_discipline named start).1 "U" .fresh "f" 0 call emitted installed.left can
  have hsp : inside.ram.sp = 261#16 := called.sp.trans (by decide)
  have hlcl : inside.ram.reg .lcl = 261#16 := called.lcl.trans (by decide)
  have inRange : inside.ram.StackInRange :=
    ⟨by rw [hsp]; decide, by rw [hsp]; decide⟩
  have allowed : Allowed [⟨⟨⟨0, 0, ram⟩, 0⟩, .returnSite "U" "f" 0, 0⟩] inside.ram
      (inside.ram.push 7) := by
    refine ⟨Ram.reg_push inRange (by decide) 7, Ram.reg_push inRange (by decide) 7, ?_, ?_, ?_⟩
    · intro active member i hi
      obtain rfl := List.mem_singleton.mp member
      have apart : ∀ i < 5, cell (256#16 + BitVec.ofNat 16 i) ≠ Register.sp.cell ∧
          cell (256#16 + BitVec.ofNat 16 i) ≠ cell 261#16 := by decide
      rw [Ram.push, hsp]
      exact (Ram.set_of_ne (apart i hi).1).trans (Ram.set_of_ne (apart i hi).2)
    · rw [Ram.sp_push, hsp]
      decide
    · intro _
      rw [Ram.reg_push inRange (by decide), hlcl, Ram.sp_push, hsp]
      decide
  have later : Execution table rom _ ⟨⟨0, 0, inside.ram.push 7⟩, size call⟩ :=
    (start.call emitted installed.left can entering.run_eq).other allowed
  have atRet : Installed table rom (size call) Code.ret := by
    rw [← Nat.zero_add (size call)]
    exact installed.right
  have result : ((inside.ram.push 7).reg .lcl).toNat < (inside.ram.push 7).sp.toNat := by
    rw [Ram.reg_push inRange (by decide), hlcl, Ram.sp_push, hsp]
    decide
  obtain ⟨behind, leaving, after⟩ :=
    (frame_discipline named later).2 "U" .fresh Code.ret _ [] rfl rfl atRet result
  have callee : (table "f").toNat = 16 := by decide
  rw [callee] at entering
  rw [site, Nat.zero_add] at leaving
  refine ⟨inside, behind, entering.run_eq, leaving.run_eq, after.sp.trans (by decide), ?_⟩
  exact after.result.trans (Ram.top_push inRange 7)

end StackToHack
