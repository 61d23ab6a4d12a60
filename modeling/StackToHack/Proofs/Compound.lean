import StackToHack.Proofs.Spelling
import StackToHack.Proofs.SymbolText

/-!
# Compound symbols

The symbols of a unit are composed: of its name, of the name of a function behind a dot and, if they
stand for a place in that function, of the name of the place behind a dollar sign. Names can hold
both of these characters. So two compounds can have one text, but only where the name of a unit
goes on behind that of another with a dot, or the name of a function behind that of another with a
dollar sign (`eq_or_extends_of_chars_eq`). Statics, whose numbers are no names, meet compounds
across units only.
-/

namespace StackToHack.Hack

/-- One name goes on behind another with a separator. -/
def Extends (separator : Char) (long short : String) : Prop :=
  ∃ more, long.toList = short.toList ++ separator :: more

/-! ## Parts of a symbol -/

structure Compound where
  unit : String
  owner : String
  inner : Option String
  deriving DecidableEq

namespace Compound

/-- What stands behind the name of the function. -/
def tail (compound : Compound) : List Char :=
  match compound.inner with
  | none => []
  | some inner => '$' :: inner.toList

/-- The text of a compound. -/
def chars (compound : Compound) : List Char :=
  compound.unit.toList ++ '.' :: (compound.owner.toList ++ compound.tail)

end Compound

/-- The parts of the symbols of a unit, its statics apart. -/
def Symbol.compound? : Symbol → Option Compound
  | .function unit name => some ⟨unit, name, none⟩
  | .label unit owner name => some ⟨unit, owner, some name⟩
  | .localsLoop unit owner => some ⟨unit, owner, some "__LOCALS_LOOP__"⟩
  | .localsEnd unit owner => some ⟨unit, owner, some "__LOCALS_END__"⟩
  | .returnSite unit callee site => some ⟨unit, callee, some ("ret." ++ toString site)⟩
  | .register _ | .plain _ | .static _ _ | .comparison _ _ => none

section Parts

variable {symbol : Symbol} {compound other : Compound}

theorem Symbol.toList_text_of_compound? (h : symbol.compound? = some compound) :
    symbol.text.toList = compound.chars := by
  cases symbol <;> simp only [compound?, Option.some.injEq, reduceCtorEq] at h <;> subst h <;>
    simp [text, Compound.chars, Compound.tail]

theorem Symbol.dot_mem_text_of_compound? (h : symbol.compound? = some compound) :
    '.' ∈ symbol.text.toList := by
  rw [toList_text_of_compound? h, Compound.chars]
  exact List.mem_append_right _ (List.mem_cons_self ..)

/-- A compound of names has the name of a function. -/
theorem Symbol.Named.isName_owner (named : symbol.Named)
    (h : symbol.compound? = some compound) : Name.IsName compound.owner := by
  cases symbol <;> simp only [compound?, Option.some.injEq, reduceCtorEq] at h <;> subst h
  case label => exact named.2.1
  all_goals exact named.2

/-! ## Compounds of one text -/

namespace Compound

theorem owner_eq_or_extends
    (h : compound.owner.toList ++ compound.tail = other.owner.toList ++ other.tail) :
    compound.owner = other.owner ∧ compound.inner = other.inner ∨
      Extends '$' compound.owner other.owner ∨ Extends '$' other.owner compound.owner := by
  obtain ⟨unit, owner, inner⟩ := compound
  obtain ⟨unit', owner', inner'⟩ := other
  cases inner with
  | none =>
      cases inner' with
      | none => exact .inl ⟨String.toList_inj.mp (by simpa [tail] using h), rfl⟩
      | some name => exact .inr (.inl ⟨name.toList, by simpa [tail] using h⟩)
  | some name =>
      cases inner' with
      | none => exact .inr (.inr ⟨name.toList, by simpa [tail] using h.symm⟩)
      | some name' =>
          rcases append_cons_eq_cases h with ⟨owners, names⟩ | ⟨more, hmore, -⟩ | ⟨more, hmore, -⟩
          · exact .inl ⟨String.toList_inj.mp owners, congrArg some (String.toList_inj.mp names)⟩
          · exact .inr (.inl ⟨more, hmore⟩)
          · exact .inr (.inr ⟨more, hmore⟩)

/-- Compounds of one text are the same, or a name in one goes on behind the name in the other. -/
theorem eq_or_extends_of_chars_eq (h : compound.chars = other.chars) :
    compound = other ∨
      (Extends '.' compound.unit other.unit ∨ Extends '.' other.unit compound.unit) ∨
        compound.unit = other.unit ∧
          (Extends '$' compound.owner other.owner ∨
            Extends '$' other.owner compound.owner) := by
  rcases append_cons_eq_cases h with ⟨units, rest⟩ | ⟨more, hmore, -⟩ | ⟨more, hmore, -⟩
  · have sameUnit := String.toList_inj.mp units
    rcases owner_eq_or_extends rest with ⟨owners, inners⟩ | goesOn
    · left
      cases compound
      cases other
      simp_all
    · exact .inr (.inr ⟨sameUnit, goesOn⟩)
  · exact .inr (.inl (.inl ⟨more, hmore⟩))
  · exact .inr (.inl (.inr ⟨more, hmore⟩))

/-- A compound has the text of a static only if the name of that unit goes on behind the name of
its own. -/
theorem extends_of_chars_eq_static (named : Name.IsName compound.owner) {unit : String}
    {index : UInt32} (h : compound.chars = (Symbol.static unit index).text.toList) :
    Extends '.' unit compound.unit := by
  have static : (Symbol.static unit index).text.toList =
      unit.toList ++ '.' :: Nat.toDigits 10 index.toNat := by
    simp [Symbol.text]
  rw [static] at h
  rcases append_cons_eq_cases h with ⟨-, digits⟩ | ⟨more, -, digits⟩ | ⟨more, hmore, -⟩
  · -- a name starts with no digit
    rw [Name.IsName] at named
    cases howner : compound.owner.toList with
    | nil => simp [howner, Name.isNameList] at named
    | cons c cs =>
        rw [howner, Name.isNameList, Bool.and_eq_true] at named
        have digit : c ∈ Nat.toDigits 10 index.toNat := by
          rw [← digits, howner]
          exact List.mem_cons_self ..
        exact absurd digit (not_mem_toDigits (isDigit_of_isInitial named.1))
  · have dot : '.' ∈ Nat.toDigits 10 index.toNat := by
      rw [digits]
      exact List.mem_append_right _ (List.mem_cons_self ..)
    exact absurd dot (not_mem_toDigits (by decide))
  · exact ⟨more, hmore⟩

end Compound

end Parts

end StackToHack.Hack
