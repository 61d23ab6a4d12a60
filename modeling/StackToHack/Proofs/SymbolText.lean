import StackToHack.Context
import StackToHack.Hack.Symbol

/-!
# Texts of numbered symbols

Comparisons and return sites are numbered through the life of a context. Their texts end with that
number behind a character that no number has, so whatever names stand before it, two of these
symbols have the same text only if they have the same number, and a comparison never has the text
of a return site (`serial_eq_of_text_eq`).
-/

namespace StackToHack

namespace Hack

/-! ## Numbers in texts -/

theorem toDigits_injective {m n : Nat} (h : Nat.toDigits 10 m = Nat.toDigits 10 n) : m = n := by
  have value := congrArg (fun cs => Nat.ofDigitChars 10 cs 0) h
  simpa [Nat.ofDigitChars_toDigits] using value

theorem not_mem_toDigits {n : Nat} {c : Char} (h : c.isDigit = false) :
    c ∉ Nat.toDigits 10 n := by
  intro mem
  rw [Nat.isDigit_of_mem_toDigits (by decide) (by decide) mem] at h
  exact Bool.noConfusion h

/-- Two lists with an `x` in each are equal if the parts are, or else one of them goes on up to an
`x` of the other's second part. -/
theorem append_cons_eq_cases {α : Type} {x : α} {xs ys ds es : List α}
    (h : xs ++ x :: ds = ys ++ x :: es) :
    xs = ys ∧ ds = es ∨ (∃ more, xs = ys ++ x :: more ∧ es = more ++ x :: ds) ∨
      ∃ more, ys = xs ++ x :: more ∧ ds = more ++ x :: es := by
  rcases List.append_eq_append_iff.mp h with ⟨more, rfl, hmore⟩ | ⟨more, rfl, hmore⟩
  · cases more with
    | nil => exact .inl (by simpa using hmore)
    | cons a more =>
        rw [List.cons_append, List.cons.injEq] at hmore
        obtain ⟨rfl, rfl⟩ := hmore
        exact .inr (.inr ⟨more, rfl, rfl⟩)
  · cases more with
    | nil => exact .inl (by simpa using hmore.symm)
    | cons a more =>
        rw [List.cons_append, List.cons.injEq] at hmore
        obtain ⟨rfl, rfl⟩ := hmore
        exact .inr (.inl ⟨more, rfl, rfl⟩)

/-- Where two lists are equal, so are what stands before and behind the last `x` in each. -/
theorem append_cons_inj_of_not_mem {α : Type} {x : α} {xs ys ds es : List α} (hd : x ∉ ds)
    (he : x ∉ es) (h : xs ++ x :: ds = ys ++ x :: es) : xs = ys ∧ ds = es := by
  rcases append_cons_eq_cases h with same | ⟨more, -, rfl⟩ | ⟨more, -, rfl⟩
  · exact same
  · exact absurd (List.mem_append_right more (List.mem_cons_self ..)) he
  · exact absurd (List.mem_append_right more (List.mem_cons_self ..)) hd

/-! ## Numbered symbols -/

/-- The number of a symbol, and which of the two counts it comes from. -/
inductive Serial
  | comparison (number : Nat)
  | call (site : Nat)
  deriving DecidableEq

namespace Symbol

def serial? : Symbol → Option Serial
  | .comparison _ number => some (.comparison number)
  | .returnSite _ _ site => some (.call site)
  | _ => none

theorem toList_text_comparison (arm : Arm) (number : Nat) :
    (comparison arm number).text.toList =
      arm.text.toList ++ '_' :: Nat.toDigits 10 number := by
  simp [text]

theorem toList_text_returnSite (unit callee : String) (site : Nat) :
    (returnSite unit callee site).text.toList =
      (unit.toList ++ '.' :: callee.toList ++ ['$', 'r', 'e', 't']) ++
        '.' :: Nat.toDigits 10 site := by
  simp [text]

theorem dollar_not_mem_text_comparison (arm : Arm) (number : Nat) :
    '$' ∉ (comparison arm number).text.toList := by
  have digits := not_mem_toDigits (n := number) (show '$'.isDigit = false by decide)
  rw [toList_text_comparison]
  cases arm <;> simp [Arm.text, digits]

theorem dollar_mem_text_returnSite (unit callee : String) (site : Nat) :
    '$' ∈ (returnSite unit callee site).text.toList := by
  rw [toList_text_returnSite]
  simp

/-- Comparisons are known by their texts. -/
theorem comparison_eq_of_text_eq {arm arm' : Arm} {m n : Nat}
    (h : (comparison arm m).text = (comparison arm' n).text) : arm = arm' ∧ m = n := by
  have lists := congrArg String.toList h
  rw [toList_text_comparison, toList_text_comparison] at lists
  have digits : ∀ k : Nat, '_' ∉ Nat.toDigits 10 k := fun k => not_mem_toDigits (by decide)
  obtain ⟨arms, numbers⟩ := append_cons_inj_of_not_mem (digits m) (digits n) lists
  refine ⟨?_, toDigits_injective numbers⟩
  cases arm <;> cases arm' <;> first | rfl | exact absurd arms (by decide)

/-- Return sites of one text have one number, whatever unit and callee they belong to. -/
theorem site_eq_of_text_eq {unit unit' callee callee' : String} {m n : Nat}
    (h : (returnSite unit callee m).text = (returnSite unit' callee' n).text) : m = n := by
  have lists := congrArg String.toList h
  rw [toList_text_returnSite, toList_text_returnSite] at lists
  have digits : ∀ k : Nat, '.' ∉ Nat.toDigits 10 k := fun k => not_mem_toDigits (by decide)
  obtain ⟨-, numbers⟩ := append_cons_inj_of_not_mem (digits m) (digits n) lists
  exact toDigits_injective numbers

/-- Numbered symbols of one text have one number. -/
theorem serial_eq_of_text_eq {s t : Symbol} {a b : Serial} (hs : s.serial? = some a)
    (ht : t.serial? = some b) (h : s.text = t.text) : a = b := by
  have apart : ∀ {arm number unit callee site},
      (comparison arm number).text ≠ (returnSite unit callee site).text := by
    intro arm number unit callee site h
    have dollar := dollar_mem_text_returnSite unit callee site
    rw [← h] at dollar
    exact dollar_not_mem_text_comparison arm number dollar
  cases s <;> simp only [serial?, Option.some.injEq, reduceCtorEq] at hs <;> subst hs <;>
    cases t <;> simp only [serial?, Option.some.injEq, reduceCtorEq] at ht <;> subst ht
  case returnSite.returnSite => rw [site_eq_of_text_eq h]
  case returnSite.comparison => exact absurd h.symm apart
  case comparison.returnSite => exact absurd h apart
  case comparison.comparison => rw [(comparison_eq_of_text_eq h).2]

end Symbol

end Hack

open Hack

theorem underscore_mem_text_comparison (arm : Arm) (number : Nat) :
    '_' ∈ (Symbol.comparison arm number).text.toList := by
  rw [Symbol.toList_text_comparison]
  simp

theorem dot_mem_text_static (unit : String) (index : UInt32) :
    '.' ∈ (Symbol.static unit index).text.toList := by
  simp [Symbol.text]

theorem dot_not_mem_text_comparison (arm : Arm) (number : Nat) :
    '.' ∉ (Symbol.comparison arm number).text.toList := by
  have digits := not_mem_toDigits (n := number) (show '.'.isDigit = false by decide)
  rw [Symbol.toList_text_comparison]
  cases arm <;> simp [Arm.text, digits]

end StackToHack
