import StackToHack.Proofs.Generation

/-!
# Commands without code

What a command asks of the machine decides whether it has code (`Command.fault?`); neither the unit
nor the context has a say in it. Generation goes on up to the first command that has none and
reports that one. What the context holds afterwards is counted over the commands in front of it:
the one that failed and those behind it have left no trace.
-/

namespace StackToHack

/-! ## What cannot be expressed -/

/-- What is wrong with a number that has to be loaded. -/
def loadFault? (fault : UInt32 → Fault) (n : UInt32) : Option Fault :=
  if 32767 < n.toNat then some (fault n) else none

/-- What is wrong with an index into a region. Statics have no last index. -/
def Region.fault? (index : UInt32) : Region → Option Fault
  | .locals | .argument | .this | .that => loadFault? .indexOutOfRange index
  | .static => none
  | .pointer => if 1 < index.toNat then some (.pointerIndex index) else none
  | .temp => if 7 < index.toNat then some (.tempIndex index) else none

/-- Why a command has no code, if it has none. Nothing can be stored into a constant, whatever its
number. -/
def Command.fault? : Command → Option Fault
  | .push .constant n => loadFault? .constantOutOfRange n
  | .pop .constant _ => some .popConstant
  | .push (.region region) index | .pop (.region region) index => region.fault? index
  | .function _ count | .call _ count => loadFault? .countOutOfRange count
  | .operate _ | .label _ | .goto _ | .ifGoto _ | .ret => none

/-- A result that is a value if nothing is wrong, and else the fault. -/
def Decided {α : Type} (result : Except Fault α) : Option Fault → Prop
  | none => ∃ value, result = .ok value
  | some fault => result = .error fault

theorem Decided.map {α β : Type} {result : Except Fault α} {fault? : Option Fault} {f : α → β}
    (h : Decided result fault?) : Decided (result.map f) fault? := by
  cases fault? with
  | none =>
      obtain ⟨value, rfl⟩ := h
      exact ⟨f value, rfl⟩
  | some fault =>
      obtain rfl : result = .error fault := h
      rfl

theorem Code.decided_loadable (fault : UInt32 → Fault) (n : UInt32) :
    Decided (Code.loadable fault n) (loadFault? fault n) := by
  have small : n ≤ Code.maxLoad ↔ ¬ 32767 < n.toNat := by
    rw [UInt32.le_iff_toNat_le, Nat.not_lt]
    rfl
  rw [Code.loadable, loadFault?]
  by_cases large : 32767 < n.toNat
  · rw [if_neg (fun h => small.mp h large), if_pos large]
    rfl
  · rw [if_pos (small.mpr large), if_neg large]
    exact ⟨_, rfl⟩

theorem Code.decided_place (unit : String) (index : UInt32) (region : Region) :
    Decided (Code.place unit index region) (region.fault? index) := by
  cases region with
  | static => exact ⟨_, rfl⟩
  | pointer =>
      have zero : index = 0 ↔ index.toNat = 0 := UInt32.toNat_inj.symm
      have one : index = 1 ↔ index.toNat = 1 := UInt32.toNat_inj.symm
      rw [Code.place, Region.fault?]
      by_cases large : 1 < index.toNat
      · rw [if_neg (by rw [zero]; omega), if_neg (by rw [one]; omega), if_pos large]
        rfl
      · rw [if_neg large]
        split
        · exact ⟨_, rfl⟩
        · rw [if_pos (by rw [one]; rw [zero] at *; omega)]
          exact ⟨_, rfl⟩
  | temp =>
      rw [Code.place, Region.fault?]
      by_cases large : 7 < index.toNat
      · rw [dif_neg (by omega), if_pos large]
        rfl
      · rw [dif_pos (by omega), if_neg large]
        exact ⟨_, rfl⟩
  | _ => exact (Code.decided_loadable _ _).map

/-- A command has code in every unit and every context, or in none. -/
theorem Command.decided_code (unit : String) (context : Context) (command : Command) :
    Decided (command.code unit context) command.fault? := by
  cases command with
  | push segment index =>
      cases segment with
      | constant => exact (Code.decided_loadable _ _).map
      | region region => exact (Code.decided_place unit index region).map
  | pop segment index =>
      cases segment with
      | constant => rfl
      | region region => exact (Code.decided_place unit index region).map
  | function name count => exact (Code.decided_loadable _ _).map
  | call name count => exact (Code.decided_loadable _ _).map
  | _ => exact ⟨_, rfl⟩

theorem Command.fault?_eq_none_iff {unit : String} {context : Context} {command : Command} :
    command.fault? = none ↔ ∃ code, command.code unit context = .ok code := by
  have decided := command.decided_code unit context
  cases hfault : command.fault? with
  | none =>
      rw [hfault] at decided
      exact ⟨fun _ => decided, fun _ => rfl⟩
  | some fault =>
      rw [hfault] at decided
      have failed : command.code unit context = .error fault := decided
      simp [failed]

/-! ## What the context counts -/

def Command.isComparison : Command → Bool
  | .operate (.comparison _) => true
  | _ => false

def Command.isCall : Command → Bool
  | .call _ _ => true
  | _ => false

/-- The function that code is in behind a command, if the command changes that at all. -/
def Command.entered? : Command → Option (Option String)
  | .function name _ => some (some name)
  | .ret => some none
  | _ => none

/-- The context behind commands, counted. The last command that enters or leaves a function says
which one the code is in. -/
def Context.counted (context : Context) (commands : List Command) : Context where
  function := ((commands.filterMap Command.entered?).getLast?).getD context.function
  comparisons := context.comparisons + commands.countP Command.isComparison
  callSites := context.callSites + commands.countP Command.isCall

theorem Context.behind_eq_counted (context : Context) (commands : List Command) :
    context.behind commands = context.counted commands := by
  induction commands generalizing context with
  | nil => rfl
  | cons command rest ih =>
      rw [behind_cons, ih]
      cases command with
      | operate op =>
          cases op <;> simp [counted, after, List.countP_cons, Command.entered?,
            Command.isComparison, Command.isCall, Nat.add_assoc, Nat.add_comm 1]
      | call name args =>
          simp [counted, after, List.countP_cons, Command.entered?, Command.isComparison,
            Command.isCall, Nat.add_assoc, Nat.add_comm 1]
      | function name locals | ret =>
          simp [counted, after, Command.entered?, Command.isComparison, Command.isCall,
            List.getLast?_cons]
      | _ => simp [counted, after, Command.entered?, Command.isComparison, Command.isCall]

/-! ## Where generation stops -/

/-- The commands in front of the first one that has no code. -/
def expressible (commands : List Captioned) : List Captioned :=
  commands.takeWhile fun captioned => captioned.command.fault?.isNone

/-- The first command that has no code. -/
def inexpressible? (commands : List Captioned) : Option Captioned :=
  commands.find? fun captioned => captioned.command.fault?.isSome

/-- What comes out of commands when it is known which of them have code: the code of all of them or
the first fault, and the context that the commands in front of it make. -/
structure StopsAtFirstFault (unit : String) (context : Context) (commands : List Captioned)
    (generation : Generation) : Prop where
  result : match inexpressible? commands with
    | none => ∃ code, generation.result = .ok code
    | some failing => ∃ fault, failing.command.fault? = some fault ∧
        generation.result = .error { unit, text := failing.text, fault }
  context : generation.context =
    context.counted ((expressible commands).map Captioned.command)

theorem generate_stopsAtFirstFault (unit : String) (context : Context)
    (commands : List Captioned) :
    StopsAtFirstFault unit context commands (generate unit context commands) := by
  induction commands generalizing context with
  | nil => exact ⟨⟨[], rfl⟩, rfl⟩
  | cons captioned rest ih =>
      obtain ⟨text, command⟩ := captioned
      have decided := command.decided_code unit context
      cases hfault : command.fault? with
      | some fault =>
          rw [hfault] at decided
          have failed : command.code unit context = .error fault := decided
          have first : inexpressible? ({ text, command } :: rest) = some { text, command } := by
            simp [inexpressible?, hfault]
          have noneBefore : expressible ({ text, command } :: rest) = [] := by
            simp [expressible, hfault]
          rw [generate, failed]
          refine ⟨?_, ?_⟩
          · rw [first]
            exact ⟨fault, hfault, rfl⟩
          · rw [noneBefore, ← Context.behind_eq_counted]
            rfl
      | none =>
          rw [hfault] at decided
          obtain ⟨code, made⟩ : ∃ code, command.code unit context = .ok code := decided
          obtain ⟨result, behind⟩ := ih (context.after command)
          have later : inexpressible? ({ text, command } :: rest) = inexpressible? rest := by
            simp [inexpressible?, hfault]
          have before : expressible ({ text, command } :: rest) =
              { text, command } :: expressible rest := by
            simp [expressible, hfault]
          rw [generate, made]
          refine ⟨?_, ?_⟩
          · rw [later]
            cases hfailing : inexpressible? rest with
            | none =>
                rw [hfailing] at result
                obtain ⟨following, hfollowing⟩ := result
                exact ⟨.comment text :: code ++ following, by simp only [hfollowing]; rfl⟩
            | some failing =>
                rw [hfailing] at result
                obtain ⟨fault, isFault, hresult⟩ := result
                exact ⟨fault, isFault, by simp only [hresult]; rfl⟩
          · rw [before, List.map_cons, ← Context.behind_eq_counted, Context.behind_cons,
              Context.behind_eq_counted]
            exact behind

/-- **Generation stops at the first fault.** Whether commands were read or not, and whatever context
they are met in, they have code unless one of them cannot be expressed; then the first of these is
reported with its own text and fault. The context has gone on by the commands in front of it. -/
theorem generation_stops_at_first_fault (unit : String) (context : Context) :
    (∀ commands : List Command,
      StopsAtFirstFault unit context (commands.map Command.captioned)
        (generateCommands unit context commands)) ∧
    ∀ statements : List Statement,
      StopsAtFirstFault unit context (statements.map Statement.captioned)
        (generateStatements unit context statements) :=
  ⟨fun _ => generate_stopsAtFirstFault unit context _,
    fun _ => generate_stopsAtFirstFault unit context _⟩

end StackToHack
