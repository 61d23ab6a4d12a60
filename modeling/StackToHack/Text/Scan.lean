/-!
# Scanners

A scanner takes what it reads off the front of a text and leaves the rest, or fails. Two scanners in
sequence read one behind the other; of two in a choice the second is asked where the first fails, and
what the first has read is not given up again for the sake of what stands behind.

Every combinator comes with the one equivalence that says what it takes and what it leaves.
-/

namespace StackToHack

abbrev Scanner (α : Type) := StateT (List Char) Option α

namespace Scanner

variable {α β : Type}

/-! ## Sequence and choice -/

@[simp] theorem pure_eq_some_iff {a b : α} {cs rest : List Char} :
    (pure a : Scanner α) cs = some (b, rest) ↔ a = b ∧ cs = rest := by
  rw [show (pure a : Scanner α) cs = some (a, cs) from rfl, Option.some.injEq, Prod.mk.injEq]

theorem bind_eq_some_iff {scan : Scanner α} {next : α → Scanner β} {b : β} {cs rest : List Char} :
    (scan >>= next) cs = some (b, rest) ↔
      ∃ a left, scan cs = some (a, left) ∧ next a left = some (b, rest) := by
  rw [show (scan >>= next) cs = (scan cs).bind fun read => next read.1 read.2 from rfl,
    Option.bind_eq_some_iff, Prod.exists]

theorem map_eq_some_iff {f : α → β} {scan : Scanner α} {b : β} {cs rest : List Char} :
    (f <$> scan) cs = some (b, rest) ↔ ∃ a, scan cs = some (a, rest) ∧ f a = b := by
  rw [show f <$> scan = scan >>= fun a => pure (f a) from rfl, bind_eq_some_iff]
  simp only [pure_eq_some_iff]
  constructor
  · rintro ⟨a, left, read, rfl, rfl⟩
    exact ⟨a, read, rfl⟩
  · rintro ⟨a, read, rfl⟩
    exact ⟨a, rest, read, rfl, rfl⟩

/-- The second scanner of a choice has its turn where the first fails. -/
theorem orElse_eq_some_iff {first second : Scanner α} {a : α} {cs rest : List Char} :
    (first <|> second) cs = some (a, rest) ↔
      first cs = some (a, rest) ∨ first cs = none ∧ second cs = some (a, rest) := by
  rw [show (first <|> second) cs = (first cs <|> second cs) from rfl]
  cases first cs with
  | none => simp
  | some read => simp

theorem orElse_eq_none_iff {first second : Scanner α} {cs : List Char} :
    (first <|> second) cs = none ↔ first cs = none ∧ second cs = none := by
  rw [show (first <|> second) cs = (first cs <|> second cs) from rfl]
  cases first cs with
  | none => simp
  | some read => simp

/-! ## Characters and words -/

def satisfy (p : Char → Bool) : Scanner Char
  | [] => none
  | c :: cs => if p c then some (c, cs) else none

theorem satisfy_eq_some_iff {p : Char → Bool} {c : Char} {cs rest : List Char} :
    satisfy p cs = some (c, rest) ↔ cs = c :: rest ∧ p c = true := by
  cases cs with
  | nil => simp [satisfy]
  | cons d cs =>
      rw [satisfy]
      split
      · next holds =>
          rw [Option.some.injEq, Prod.mk.injEq, List.cons.injEq]
          exact ⟨fun same => ⟨same, same.1 ▸ holds⟩, And.left⟩
      · next fails =>
          refine ⟨fun read => by simp at read, ?_⟩
          rintro ⟨same, holds⟩
          exact absurd ((List.cons.inj same).1 ▸ holds) fails

/-- A text that is known. -/
def tag (word : String) : Scanner Unit := fun cs =>
  if word.toList <+: cs then some ((), cs.drop word.toList.length) else none

theorem tag_eq_some_iff {word : String} {read : Unit} {cs rest : List Char} :
    tag word cs = some (read, rest) ↔ cs = word.toList ++ rest := by
  rw [tag]
  constructor
  · intro accepted
    split at accepted
    · next starts =>
        obtain ⟨behind, rfl⟩ := starts
        simpa using accepted
    · cases accepted
  · rintro rfl
    simp

/-- A value that is written as a word. -/
def tagged (word : String) (a : α) : Scanner α := (fun _ => a) <$> tag word

theorem tagged_eq_some_iff {word : String} {a b : α} {cs rest : List Char} :
    tagged word a cs = some (b, rest) ↔ a = b ∧ cs = word.toList ++ rest := by
  rw [tagged, map_eq_some_iff]
  simp only [tag_eq_some_iff, and_comm, exists_const]

/-- One of several values, each by its word. -/
def oneOf (entries : List (String × α)) : Scanner α :=
  entries.firstM fun entry => tagged entry.1 entry.2

/-- Words of which none starts the other. -/
def Apart (word other : String) : Prop :=
  ¬word.toList <+: other.toList ∧ ¬other.toList <+: word.toList

instance (word other : String) : Decidable (Apart word other) :=
  inferInstanceAs (Decidable (_ ∧ _))

/-- A text starts with one word at most out of two that are apart. -/
theorem Apart.not_start {word other : String} (h : Apart word other) (behind : List Char) :
    ¬word.toList <+: other.toList ++ behind := by
  intro starts
  rcases List.prefix_or_prefix_of_prefix starts (List.prefix_append _ behind) with shorter | shorter
  · exact h.1 shorter
  · exact h.2 shorter

theorem tag_eq_none {word : String} {cs : List Char} (h : ¬word.toList <+: cs) :
    tag word cs = none := if_neg h

theorem tagged_eq_none {word : String} {cs : List Char} (h : ¬word.toList <+: cs) (a : α) :
    tagged word a cs = none := by
  rw [show tagged word a cs = (tag word cs).bind fun read => some (a, read.2) from rfl,
    tag_eq_none h, Option.bind_none]

/-- Words that are apart are told from each other by what the text starts with, whatever their
order. -/
theorem oneOf_eq_some_iff {entries : List (String × α)}
    (apart : (entries.map Prod.fst).Pairwise Apart) {a : α} {cs rest : List Char} :
    oneOf entries cs = some (a, rest) ↔ ∃ word, (word, a) ∈ entries ∧ cs = word.toList ++ rest := by
  induction entries with
  | nil =>
      have fails : oneOf ([] : List (String × α)) cs = none := rfl
      simp [fails]
  | cons entry entries ih =>
      obtain ⟨word, b⟩ := entry
      obtain ⟨here, behind⟩ := List.pairwise_cons.mp apart
      rw [show oneOf ((word, b) :: entries) = (tagged word b <|> oneOf entries) from rfl,
        orElse_eq_some_iff, ih behind, tagged_eq_some_iff]
      constructor
      · rintro (⟨rfl, rfl⟩ | ⟨-, other, member, rfl⟩)
        · exact ⟨word, List.mem_cons_self .., rfl⟩
        · exact ⟨other, List.mem_cons_of_mem _ member, rfl⟩
      · rintro ⟨other, member, rfl⟩
        rcases List.mem_cons.mp member with same | member
        · obtain ⟨rfl, rfl⟩ := Prod.mk.inj same
          exact .inl ⟨rfl, rfl⟩
        · have separate := here other (List.mem_map_of_mem member)
          exact .inr ⟨tagged_eq_none (separate.not_start rest) b, other, member, rfl⟩

/-! ## Runs of characters -/

/-- As many characters of a class as there are. -/
def takeWhile (p : Char → Bool) : Scanner (List Char) := fun cs =>
  some (cs.takeWhile p, cs.dropWhile p)

/-- As many characters of a class as there are, and one at least. -/
def takeWhile1 (p : Char → Bool) : Scanner (List Char) := fun cs =>
  if cs.takeWhile p = [] then none else some (cs.takeWhile p, cs.dropWhile p)

theorem takeWhile_eq_some_iff {p : Char → Bool} {run cs rest : List Char} :
    takeWhile p cs = some (run, rest) ↔
      cs = run ++ rest ∧ (∀ c ∈ run, p c = true) ∧ ∀ c ∈ rest.head?, p c = false := by
  rw [takeWhile, Option.some.injEq, Prod.mk.injEq]
  constructor
  · rintro ⟨rfl, rfl⟩
    refine ⟨List.takeWhile_append_dropWhile.symm,
      fun c member => List.all_eq_true.mp List.all_takeWhile c member, fun c first => ?_⟩
    have fails := List.head?_dropWhile_not p cs
    rw [Option.mem_def.mp first] at fails
    exact fails
  · rintro ⟨rfl, all, stops⟩
    have none : rest.takeWhile p = [] ∧ rest.dropWhile p = rest := by
      cases rest with
      | nil => exact ⟨rfl, rfl⟩
      | cons c rest => simp [stops c rfl]
    rw [List.takeWhile_append_of_pos all, List.dropWhile_append_of_pos all, none.1, none.2,
      List.append_nil]
    exact ⟨rfl, rfl⟩

theorem takeWhile1_eq_some_iff {p : Char → Bool} {run cs rest : List Char} :
    takeWhile1 p cs = some (run, rest) ↔
      run ≠ [] ∧ cs = run ++ rest ∧ (∀ c ∈ run, p c = true) ∧ ∀ c ∈ rest.head?, p c = false := by
  rw [← takeWhile_eq_some_iff, takeWhile1, takeWhile]
  split
  · next nothing =>
      refine ⟨fun read => (by cases read), ?_⟩
      rintro ⟨nonempty, read⟩
      rw [Option.some.injEq, Prod.mk.injEq, nothing] at read
      exact absurd read.1.symm nonempty
  · next something =>
      refine ⟨fun read => ⟨?_, read⟩, And.right⟩
      rw [Option.some.injEq, Prod.mk.injEq] at read
      exact read.1 ▸ something

/-! ## Whole texts -/

/-- What a scanner makes of a text of which it leaves nothing. -/
def whole (scan : Scanner α) : Scanner α := fun cs =>
  match scan cs with
  | some (a, []) => some (a, [])
  | _ => none

theorem whole_eq_some_iff {scan : Scanner α} {a : α} {cs rest : List Char} :
    whole scan cs = some (a, rest) ↔ scan cs = some (a, []) ∧ rest = [] := by
  rw [whole]
  split
  · next b read => simp [read, eq_comm]
  · next leaves =>
      refine ⟨fun read => (by cases read), ?_⟩
      rintro ⟨read, -⟩
      exact absurd read (leaves a)

end Scanner

end StackToHack
