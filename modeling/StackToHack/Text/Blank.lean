/-!
# White space

The characters with the Unicode property White_Space, and the removal of a run of them from
either end of a text. Texts are lists of characters here and in the modules beside this one;
strings appear where a text is handed to the rest of the library.

- `blankRanges` — the property as closed ranges of code points, in increasing order.
- `isBlank` — membership in those ranges.
- `trim` — a text without its outer white space.
-/

namespace StackToHack.Text

/-! ## The property -/

/-- The 25 code points of White_Space as ten closed ranges, in increasing order. -/
def blankRanges : List (Nat × Nat) :=
  [(0x09, 0x0D), (0x20, 0x20), (0x85, 0x85), (0xA0, 0xA0), (0x1680, 0x1680),
   (0x2000, 0x200A), (0x2028, 0x2029), (0x202F, 0x202F), (0x205F, 0x205F), (0x3000, 0x3000)]

def isBlank (c : Char) : Bool :=
  blankRanges.any fun range => decide (range.1 ≤ c.toNat ∧ c.toNat ≤ range.2)

/-! ## Trimming -/

def trimStart (cs : List Char) : List Char := cs.dropWhile isBlank

def trimEnd (cs : List Char) : List Char := (trimStart cs.reverse).reverse

def trim (cs : List Char) : List Char := trimEnd (trimStart cs)

/-- White space in front of a text goes. -/
theorem trimStart_append {blanks : List Char} (h : ∀ c ∈ blanks, isBlank c = true)
    (cs : List Char) : trimStart (blanks ++ cs) = trimStart cs := by
  rw [trimStart, List.dropWhile_append_of_pos h]
  rfl

/-- White space behind a text goes. -/
theorem trimEnd_append {blanks : List Char} (h : ∀ c ∈ blanks, isBlank c = true)
    (cs : List Char) : trimEnd (cs ++ blanks) = trimEnd cs := by
  have reversed : ∀ c ∈ blanks.reverse, isBlank c = true :=
    fun c member => h c (List.mem_reverse.mp member)
  rw [trimEnd, List.reverse_append, trimStart_append reversed]
  rfl

/-- White space around a text makes no difference to what it is trimmed to. -/
theorem trim_append {before behind : List Char} (hbefore : ∀ c ∈ before, isBlank c = true)
    (hbehind : ∀ c ∈ behind, isBlank c = true) (cs : List Char) :
    trim (before ++ cs ++ behind) = trim cs := by
  have nothingBehind : trimStart behind = [] := by
    have gone := trimStart_append hbehind []
    rwa [List.append_nil] at gone
  have whole : trimStart cs = [] ∧ trimStart (cs ++ behind) = [] ∨
      trimStart (cs ++ behind) = trimStart cs ++ behind := by
    rw [trimStart, trimStart, List.dropWhile_append]
    by_cases nothing : (cs.dropWhile isBlank).isEmpty = true
    · rw [if_pos nothing]
      exact .inl ⟨List.isEmpty_iff.mp nothing, nothingBehind⟩
    · rw [if_neg nothing]
      exact .inr rfl
  rw [trim, trim, List.append_assoc, trimStart_append hbefore]
  rcases whole with ⟨nothing, nothing'⟩ | kept
  · rw [nothing, nothing']
  · rw [kept, trimEnd_append hbehind]

/-- A text that starts with anything else keeps its start. -/
theorem exists_trim_cons {c : Char} (h : isBlank c = false) (cs : List Char) :
    ∃ behind, trim (c :: cs) = c :: behind := by
  have first : ∀ others, trimStart (c :: others) = c :: others := fun others => by
    rw [trimStart, List.dropWhile_cons_of_neg (by simp [h])]
  rw [trim, first, trimEnd, List.reverse_cons, trimStart, List.dropWhile_append]
  by_cases nothing : (cs.reverse.dropWhile isBlank).isEmpty = true
  · refine ⟨[], ?_⟩
    rw [if_pos nothing, List.dropWhile_cons_of_neg (by simp [h])]
    rfl
  · refine ⟨(cs.reverse.dropWhile isBlank).reverse, ?_⟩
    rw [if_neg nothing, List.reverse_append]
    rfl

theorem trimStart_sublist (cs : List Char) : (trimStart cs).Sublist cs := List.dropWhile_sublist _

theorem trimEnd_sublist (cs : List Char) : (trimEnd cs).Sublist cs := by
  simpa [trimEnd] using (trimStart_sublist cs.reverse).reverse

theorem trim_sublist (cs : List Char) : (trim cs).Sublist cs :=
  (trimEnd_sublist _).trans (trimStart_sublist cs)

end StackToHack.Text
