import Mathlib.Data.List.Forall2
import Mathlib.Data.List.Induction
import StackToHack.CommandLine.Compile
import StackToHack.Proofs.CommandLine.Host

/-!
# Verdicts

Files are read and added to a run in turn, so what can fail first is a file or a unit. What comes of
it does not depend on that interplay: it is what `compile` makes of the units that the files are, up
to the first file or unit that fails (`Verdict`).

On a lawful host, gathering files leaves the disk as it was and comes to that verdict
(`Host.Lawful.gather`, `verdict_eq_gathered`).
-/

namespace StackToHack

variable {bootstrap : Option Bootstrap} {units : List (String × String)} {error : UnitError}

/-! ## Units in a row -/

theorem Run.addAll_append (run : Run) (front back : List (String × String)) :
    run.addAll (front ++ back) =
      match (run.addAll front).result with
      | .error _ => run.addAll front
      | .ok () =>
        let behind := (run.addAll front).run.addAll back
        { behind with events := (run.addAll front).events ++ behind.events } := by
  induction front generalizing run with
  | nil => rfl
  | cons head front ih =>
      obtain ⟨unit, source⟩ := head
      rw [List.cons_append, addAll, addAll]
      cases here : (run.add unit source).result with
      | error error => simp only [here]
      | ok =>
          rw [ih]
          cases behind : ((run.add unit source).run.addAll front).result with
          | error error => simp only [behind]
          | ok => simp only [List.append_assoc]

/-- Units behind one that fails make no difference. -/
theorem compile_append_of_eq_error (h : compile bootstrap units = .error error)
    (back : List (String × String)) : compile bootstrap (units ++ back) = .error error := by
  rw [compile] at h ⊢
  rw [Run.addAll_append]
  cases result : ((Run.start bootstrap).addAll units).result with
  | error error' =>
      rw [result] at h
      simpa only [result] using h
  | ok =>
      rw [result] at h
      cases h

/-- An error is that of the first unit that fails. -/
theorem exists_first_of_compile_eq_error (h : compile bootstrap units = .error error) :
    ∃ front unit back text, units = front ++ unit :: back ∧ compile bootstrap front = .ok text ∧
      compile bootstrap (front ++ [unit]) = .error error := by
  induction units using List.reverseRecOn with
  | nil => cases h
  | append_singleton units unit ih =>
      cases sooner : compile bootstrap units with
      | ok text => exact ⟨units, unit, [], text, rfl, sooner, h⟩
      | error error' =>
          have same := h.symm.trans (compile_append_of_eq_error sooner [unit])
          obtain ⟨front, first, back, text, rfl, made, failed⟩ :=
            ih (sooner.trans same.symm)
          exact ⟨front, first, back ++ [unit], text, by simp, made, failed⟩

/-! ## Items read as units -/

section Reading

variable {α β : Type} {read : α → Except Failure (String × String)} {items front : List α}
  {unread : Option Failure}

/-- The units that items are read as, up to the first item that cannot be read, and why that one
cannot. -/
def takeUnits (read : α → Except Failure (String × String)) :
    List α → List (String × String) × Option Failure
  | [] => ([], none)
  | item :: rest =>
    match read item with
    | .error failure => ([], some failure)
    | .ok unit =>
      let behind := takeUnits read rest
      (unit :: behind.1, behind.2)

/-- Items that are read as units, one by one. -/
def TakenAs (read : α → Except Failure (String × String)) (items : List α)
    (units : List (String × String)) : Prop :=
  List.Forall₂ (fun item unit => read item = .ok unit) items units

theorem takeUnits_append (h : TakenAs read front units) (back : List α) :
    takeUnits read (front ++ back) =
      (units ++ (takeUnits read back).1, (takeUnits read back).2) := by
  induction h with
  | nil => rfl
  | cons here _ ih =>
      rw [List.cons_append, takeUnits, here, ih]
      rfl

/-- Where reading ends: behind all items, or in front of one that cannot be read. -/
theorem exists_takenAs (read : α → Except Failure (String × String)) (items : List α) :
    ∃ front back, items = front ++ back ∧ TakenAs read front (takeUnits read items).1 ∧
      match (takeUnits read items).2 with
      | none => back = []
      | some failure => ∃ item rest, back = item :: rest ∧ read item = .error failure := by
  induction items with
  | nil => exact ⟨[], [], rfl, .nil, rfl⟩
  | cons item items ih =>
      cases here : read item with
      | error failure =>
          have ends : takeUnits read (item :: items) = ([], some failure) := by
            rw [takeUnits, here]
          rw [ends]
          exact ⟨[], item :: items, rfl, .nil, item, items, rfl, here⟩
      | ok unit =>
          obtain ⟨front, back, whole, takenAs, ends⟩ := ih
          have goesOn : takeUnits read (item :: items) =
              (unit :: (takeUnits read items).1, (takeUnits read items).2) := by
            rw [takeUnits, here]
          rw [goesOn]
          exact ⟨item :: front, back, by rw [whole, List.cons_append], .cons here takenAs, ends⟩

/-- Items are read alike where what stands for them is. -/
theorem takeUnits_map {read' : β → Except Failure (String × String)} {f : α → β}
    (h : ∀ item ∈ items, read' (f item) = read item) :
    takeUnits read' (items.map f) = takeUnits read items := by
  induction items with
  | nil => rfl
  | cons item items ih =>
      obtain ⟨here, behind⟩ := List.forall_mem_cons.mp h
      rw [List.map_cons, takeUnits, takeUnits, here, ih behind]

/-! ## Verdicts -/

/-- What comes of items that are read as the units of one program: the text of the program, or the
failure of the first of them that cannot be read or has no code. -/
inductive Verdict (read : α → Except Failure (String × String)) (bootstrap : Option Bootstrap) :
    List α → Except Failure String → Prop
  | program {items : List α} {units : List (String × String)} {text : String}
      (takenAs : TakenAs read items units) (made : compile bootstrap units = .ok text) :
      Verdict read bootstrap items (.ok text)
  | unread {front back : List α} {item : α} {units : List (String × String)} {text : String}
      {failure : Failure} (takenAs : TakenAs read front units)
      (made : compile bootstrap units = .ok text) (failed : read item = .error failure) :
      Verdict read bootstrap (front ++ item :: back) (.error failure)
  | unmade {front back : List α} {item : α} {units : List (String × String)}
      {unit : String × String} {text : String} {error : UnitError}
      (takenAs : TakenAs read front units) (made : compile bootstrap units = .ok text)
      (here : read item = .ok unit) (failed : compile bootstrap (units ++ [unit]) = .error error) :
      Verdict read bootstrap (front ++ item :: back) (.error (.unit error))

/-- The verdict on units and on why reading ended behind them. -/
def verdict (bootstrap : Option Bootstrap) (taken : List (String × String) × Option Failure) :
    Except Failure String :=
  match compile bootstrap taken.1, taken.2 with
  | .error error, _ => .error (.unit error)
  | .ok _, some failure => .error failure
  | .ok text, none => .ok text

theorem verdict_of_eq_error (h : compile bootstrap units = .error error) :
    verdict bootstrap (units, unread) = .error (.unit error) := by
  rw [verdict, h]

theorem verdict_of_eq_ok {text : String} (h : compile bootstrap units = .ok text) :
    verdict bootstrap (units, unread) = unread.elim (.ok text) .error := by
  rw [verdict, h]
  cases unread <;> rfl

theorem verdict_takeUnits (read : α → Except Failure (String × String))
    (bootstrap : Option Bootstrap) (items : List α) :
    Verdict read bootstrap items (verdict bootstrap (takeUnits read items)) := by
  obtain ⟨front, back, whole, takenAs, ends⟩ := exists_takenAs read items
  generalize takeUnits read items = taken at takenAs ends ⊢
  obtain ⟨units, unread⟩ := taken
  subst whole
  cases made : compile bootstrap units with
  | error error =>
      -- the unit that fails was read from an item in front of the end of reading
      rw [verdict_of_eq_error made]
      obtain ⟨before, unit, behind, text, rfl, madeBefore, failed⟩ :=
        exists_first_of_compile_eq_error made
      have takenBefore := List.forall₂_take_append front before (unit :: behind) takenAs
      have takenBehind := List.forall₂_drop_append front before (unit :: behind) takenAs
      obtain ⟨item, rest, here, -, parted⟩ := List.forall₂_cons_right_iff.mp takenBehind
      rw [← List.take_append_drop before.length front, parted, List.append_assoc, List.cons_append]
      exact .unmade takenBefore madeBefore here failed
  | ok text =>
      rw [verdict_of_eq_ok made]
      cases unread with
      | none =>
          obtain rfl := ends
          rw [List.append_nil]
          exact .program takenAs made
      | some failure =>
          obtain ⟨item, rest, rfl, failed⟩ := ends
          exact .unread takenAs made failed

theorem verdict_iff {outcome : Except Failure String} :
    Verdict read bootstrap items outcome ↔ outcome = verdict bootstrap (takeUnits read items) := by
  constructor
  · rintro (⟨takenAs, made⟩ | ⟨takenAs, made, failed⟩ | ⟨takenAs, made, here, failed⟩)
    · have taken := takeUnits_append takenAs []
      rw [List.append_nil] at taken
      rw [taken, takeUnits, List.append_nil, verdict_of_eq_ok made]
      rfl
    · rw [takeUnits_append takenAs, takeUnits, failed, List.append_nil, verdict_of_eq_ok made]
      rfl
    · rw [takeUnits_append takenAs, takeUnits, here, List.append_cons]
      exact (verdict_of_eq_error (compile_append_of_eq_error failed _)).symm
  · rintro rfl
    exact verdict_takeUnits read bootstrap items

/-- There is a program only if all items are units that make it. -/
theorem exists_takenAs_of_verdict {text : String}
    (h : verdict bootstrap (takeUnits read items) = .ok text) :
    ∃ units, TakenAs read items units ∧ compile bootstrap units = .ok text := by
  cases verdict_iff.mpr h.symm with
  | program takenAs made => exact ⟨_, takenAs, made⟩

end Reading

/-! ## Gathering -/

/-- What a file is as a unit, as far as a process can read it. -/
def Process.unit (process : Process) (disk : Disk) (path : String) :
    Except Failure (String × String) :=
  match process.readText disk path with
  | .error error => .error (.reading path error)
  | .ok source =>
    match Path.unitName? path with
    | none => .error (.unnamed path)
    | some unit => .ok (unit, source)

/-- What gathering comes to if units were added and reading ended behind them. -/
def Added.gathered (added : Added) (unread : Option Failure) : Gathered where
  run := added.run
  events := added.events
  failure? :=
    match added.result with
    | .error error => some (.unit error)
    | .ok () => unread

section Gathering

variable {σ : Type} {view : σ → Disk} {host : Host (StateM σ)} {process : Process}

/-- **Gathering.** To read files and add them in turn is to read all of them, up to the first that
cannot be read, and then to add what was read. No unit changes the disk, so each file is read from
the disk that was there in the beginning. -/
theorem Host.Lawful.gather (lawful : host.Lawful process view) (run : Run) (paths : List String)
    (s : σ) :
    Does view (run.gather host paths) s
      (let taken := takeUnits (process.unit (view s)) paths
      (run.addAll taken.1).gathered taken.2) (view s) := by
  induction paths generalizing run s with
  | nil => exact .pure _ rfl
  | cons path rest ih =>
      refine (lawful.readText s path).bind fun s' seen => ?_
      rw [takeUnits, Process.unit, ← seen]
      cases process.readText (view s') path with
      | error error => exact .pure _ rfl
      | ok source =>
          dsimp only
          cases Path.unitName? path with
          | none => exact .pure _ rfl
          | some unit =>
              dsimp only
              rw [Run.addAll]
              cases result : (run.add unit source).result with
              | error error =>
                  rw [Added.gathered, result]
                  exact .pure _ rfl
              | ok =>
                  exact (ih _ s').bind fun s'' seen' => .pure _ seen'

/-- What files come to that are gathered for a program. -/
def Process.gathered (process : Process) (disk : Disk) (bootstrap : Option Bootstrap)
    (paths : List String) : Gathered :=
  let taken := takeUnits (process.unit disk) paths
  ((Run.start bootstrap).addAll taken.1).gathered taken.2

theorem Host.Lawful.gather_start (lawful : host.Lawful process view)
    (bootstrap : Option Bootstrap) (paths : List String) (s : σ) :
    Does view ((Run.start bootstrap).gather host paths) s
      (process.gathered (view s) bootstrap paths) (view s) :=
  lawful.gather (Run.start bootstrap) paths s

/-- Gathering succeeds only if everything can be read. -/
theorem unread_eq_none_of_gathered {disk : Disk} {paths : List String}
    (h : (process.gathered disk bootstrap paths).failure? = none) :
    (takeUnits (process.unit disk) paths).2 = none := by
  rw [Process.gathered, Added.gathered] at h
  dsimp only at h
  split at h
  · cases h
  · exact h

/-- Gathering fails or succeeds as the verdict says. -/
theorem verdict_eq_gathered (process : Process) (disk : Disk) (bootstrap : Option Bootstrap)
    (paths : List String) :
    verdict bootstrap (takeUnits (process.unit disk) paths) =
      match (process.gathered disk bootstrap paths).failure? with
      | some failure => .error failure
      | none => .ok (process.gathered disk bootstrap paths).run.finish := by
  rw [verdict, compile, Process.gathered, Added.gathered]
  cases ((Run.start bootstrap).addAll (takeUnits (process.unit disk) paths).1).result with
  | error error => rfl
  | ok => cases (takeUnits (process.unit disk) paths).2 <;> rfl

end Gathering

end StackToHack
