import Mathlib.Data.List.Sort
import StackToHack.CommandLine.Disk
import StackToHack.CommandLine.Sources

/-!
# Lawful hosts

A host is lawful if a disk is in view in each of its states and it answers as a process does that
sees this disk. So looking and reading leave the disk as it is, and they may be refused for any
error. A write does what was asked for, or it fails and leaves the disk as it is. In which order a
directory is listed is up to the host, and makes no difference to the units in it
(`Lawful.listUnits`).
-/

namespace StackToHack

variable {σ α β : Type} {view : σ → Disk} {s : σ}

/-! ## Actions -/

/-- From a state, an action comes to a result, and a disk is in view behind it. -/
structure Does (view : σ → Disk) (action : StateM σ α) (s : σ) (result : α) (disk : Disk) :
    Prop where
  result : (action.run s).1 = result
  view : view (action.run s).2 = disk

namespace Does

variable {action : StateM σ α} {rest : α → StateM σ β} {a : α} {b : β} {disk disk' : Disk}

theorem pure (a : α) (h : view s = disk) : Does view (pure a) s a disk := ⟨rfl, h⟩

theorem bind (h : Does view action s a disk)
    (behind : ∀ s', view s' = disk → Does view (rest a) s' b disk') :
    Does view (action >>= rest) s b disk' := by
  obtain ⟨rfl, seen⟩ := h
  have run : (action >>= rest).run s = (rest (action.run s).1).run (action.run s).2 := rfl
  obtain ⟨result, view⟩ := behind _ seen
  exact ⟨by rw [run, result], by rw [run, view]⟩

end Does

/-! ## Hosts -/

/-- Listings of one directory: refused for the same reason, or with the same entries. -/
inductive Reordered : Except FileError (List α) → Except FileError (List α) → Prop
  | refused (error : FileError) : Reordered (.error error) (.error error)
  | listed {entries entries' : List α} (perm : entries.Perm entries') :
      Reordered (.ok entries) (.ok entries')

/-- What a host does is what a process does on the disk in view. -/
structure Host.Lawful (host : Host (StateM σ)) (process : Process) (view : σ → Disk) : Prop where
  isDirectory (s : σ) (path : String) :
    Does view (host.isDirectory path) s (process.isDirectory (view s) path) (view s)
  isFile (s : σ) (path : String) :
    Does view (host.isFile path) s (process.isFile (view s) path) (view s)
  entryNames (s : σ) (path : String) :
    ∃ listing, Reordered (process.entryNames (view s) path) listing ∧
      Does view (host.entryNames path) s listing (view s)
  directoryName (s : σ) (path : String) :
    Does view (host.directoryName path) s (process.directoryName (view s) path) (view s)
  readText (s : σ) (path : String) :
    Does view (host.readText path) s (process.readText (view s) path) (view s)
  writeText_of_error {s : σ} {path : String} {error : FileError} (text : String)
    (target : process.target (view s) path = .error error) :
    Does view (host.writeText path text) s (.error error) (view s)
  writeText_of_ok {s : σ} {path : String} {location : Location} (text : String)
    (target : process.target (view s) path = .ok location) :
    Does view (host.writeText path text) s (.ok ())
      ((view s).put location (.file text.toUTF8))

theorem Process.run_writeText (process : Process) (disk : Disk) (path text : String) :
    (process.host.writeText path text).run disk =
      match process.target disk path with
      | .error error => (.error error, disk)
      | .ok location => (.ok (), disk.put location (.file text.toUTF8)) := by
  simp only [host, StateT.run_bind, StateT.run_get, pure_bind, writeText]
  cases process.target disk path <;> rfl

/-- A process is a host of the disk itself. -/
theorem Process.lawful_host (process : Process) : process.host.Lawful process id where
  isDirectory _ _ := ⟨rfl, rfl⟩
  isFile _ _ := ⟨rfl, rfl⟩
  entryNames disk path := by
    refine ⟨process.entryNames disk path, ?_, rfl, rfl⟩
    rw [id]
    cases process.entryNames disk path with
    | error error => exact .refused error
    | ok entries => exact .listed (.refl entries)
  directoryName _ _ := ⟨rfl, rfl⟩
  readText _ _ := ⟨rfl, rfl⟩
  writeText_of_error {disk path error} text target := by
    rw [id] at target
    constructor <;> rw [process.run_writeText, target]
  writeText_of_ok {disk path location} text target := by
    rw [id] at target
    constructor <;> rw [process.run_writeText, target]
    rfl

/-- A host that lists directories the other way round. -/
def Host.backwards (host : Host (StateM σ)) : Host (StateM σ) :=
  { host with entryNames := fun path => return (← host.entryNames path).map List.reverse }

theorem Host.Lawful.backwards {host : Host (StateM σ)} {process : Process}
    (lawful : host.Lawful process view) : host.backwards.Lawful process view :=
  { lawful with
    entryNames := fun s path => by
      obtain ⟨listing, reordered, lists⟩ := lawful.entryNames s path
      refine ⟨listing.map List.reverse, ?_, lists.bind fun _ seen => .pure _ seen⟩
      generalize process.entryNames (view s) path = expected at reordered
      cases reordered with
      | refused error => exact .refused error
      | listed perm => exact .listed (perm.trans (List.reverse_perm _).symm) }

/-! ## Listings -/

namespace Sources

variable {entries entries' : List (Except FileError String)} {names names' : List String}
  {error : FileError}

theorem collect_of_forall (h : ∀ error, .error error ∉ entries) :
    collect entries = .ok (entries.filterMap Except.toOption) := by
  induction entries with
  | nil => rfl
  | cons entry entries ih =>
      cases entry with
      | error error => exact absurd (List.mem_cons_self ..) (h error)
      | ok name =>
          rw [collect, ih fun error member => h error (List.mem_cons_of_mem _ member)]
          rfl

theorem collect_of_mem (h : .error error ∈ entries)
    (only : ∀ error', .error error' ∈ entries → error' = error) :
    collect entries = .error error := by
  induction entries with
  | nil => cases h
  | cons entry entries ih =>
      cases entry with
      | error error' => rw [collect, only error' (List.mem_cons_self ..)]
      | ok name =>
          have behind : .error error ∈ entries := by simpa using h
          rw [collect, ih behind fun error' member => only error' (List.mem_cons_of_mem _ member)]
          rfl

theorem pairwise_le_unitNames (names : List String) :
    (unitNames names).Pairwise fun name next => name ≤ next := by
  have sorted :
      (unitNames names).Pairwise fun name next => decide (name ≤ next) = true := by
    refine List.pairwise_mergeSort (fun a b c hab hbc => ?_) (fun a b => ?_) _
    · rw [decide_eq_true_iff] at *
      exact String.le_trans hab hbc
    · rw [Bool.or_eq_true, decide_eq_true_iff, decide_eq_true_iff]
      exact String.le_total a b
  exact sorted.imp of_decide_eq_true

/-- The order of a listing makes no difference to the units. -/
theorem unitNames_perm (h : names.Perm names') : unitNames names = unitNames names' := by
  have perm : (unitNames names).Perm (unitNames names') :=
    (List.mergeSort_perm _ _).trans ((h.filter _).trans (List.mergeSort_perm _ _).symm)
  exact perm.eq_of_pairwise (fun _ _ _ _ before behind => String.le_antisymm before behind)
    (pairwise_le_unitNames names) (pairwise_le_unitNames names')

end Sources

namespace Process

variable {process : Process} {disk : Disk} {path : String}
  {entries : List (Except FileError String)}

/-- The names of units that a process finds in a directory, or why it finds none. -/
def listUnits (process : Process) (disk : Disk) (path : String) : Except Failure (List String) :=
  match process.entryNames disk path with
  | .error error => .error (.listing path error)
  | .ok entries =>
    match Sources.collect entries with
    | .error error => .error (.system error)
    | .ok names =>
      .ok (Sources.unitNames (names.filter fun name => process.isFile disk (Path.join path name)))

/-- Entries are refused for one reason only. -/
theorem eq_of_error_mem_entryNames (listed : process.entryNames disk path = .ok entries)
    {error error' : FileError} (h : .error error ∈ entries) (h' : .error error' ∈ entries) :
    error' = error := by
  rw [entryNames] at listed
  cases refused : process.refusals.list path with
  | some error =>
      rw [refused] at listed
      cases listed
  | none =>
      rw [refused, unlessRefused] at listed
      cases names : disk.names process.work path with
      | error error =>
          rw [names] at listed
          cases listed
      | ok names' =>
          rw [names] at listed
          obtain rfl := Except.ok.inj listed
          have only : ∀ {error}, .error error ∈ names'.map Except.ok ++
              (process.refusals.entry path).toList.map Except.error →
              process.refusals.entry path = some error := by
            simp
          exact Option.some.inj ((only h').symm.trans (only h))

end Process

namespace Host.Lawful

variable {host : Host (StateM σ)} {process : Process}

theorem filesAmong (lawful : host.Lawful process view) (s : σ) (path : String)
    (names : List String) :
    Does view (Sources.filesAmong host path names) s
      (names.filter fun name => process.isFile (view s) (Path.join path name)) (view s) := by
  induction names generalizing s with
  | nil => exact .pure [] rfl
  | cons name rest ih =>
      refine (lawful.isFile s _).bind fun s' seen => ?_
      have behind := ih s'
      rw [seen] at behind
      refine behind.bind fun s'' seen' => ?_
      rw [List.filter_cons]
      exact .pure _ seen'

/-- **Listings.** However a directory is listed, its units are found in one order. -/
theorem listUnits (lawful : host.Lawful process view) (s : σ) (path : String) :
    Does view (Sources.listUnits host path) s (process.listUnits (view s) path) (view s) := by
  obtain ⟨listing, reordered, lists⟩ := lawful.entryNames s path
  refine lists.bind fun s' seen => ?_
  rw [Process.listUnits]
  cases listed : process.entryNames (view s) path with
  | error error =>
      rw [listed] at reordered
      cases reordered
      exact .pure _ seen
  | ok entries =>
      rw [listed] at reordered
      cases reordered with
      | @listed _ entries' perm =>
        by_cases broken : ∃ error, .error error ∈ entries
        · obtain ⟨error, member⟩ := broken
          have only : ∀ error', .error error' ∈ entries → error' = error :=
            fun _ => Process.eq_of_error_mem_entryNames listed member
          dsimp only
          rw [Sources.collect_of_mem member only, Sources.collect_of_mem (perm.mem_iff.mp member)
            fun error' member' => only error' (perm.mem_iff.mpr member')]
          exact .pure _ seen
        · have whole : ∀ error, .error error ∉ entries := not_exists.mp broken
          dsimp only
          rw [Sources.collect_of_forall whole, Sources.collect_of_forall
            fun error member => whole error (perm.mem_iff.mpr member)]
          refine (lawful.filesAmong s' path _).bind fun s'' seen' => ?_
          rw [seen] at seen' ⊢
          dsimp only
          rw [Sources.unitNames_perm ((perm.filterMap _).filter _)]
          exact .pure _ seen'

end Host.Lawful

end StackToHack
