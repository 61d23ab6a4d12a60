import Mathlib.Data.List.TakeWhile
import StackToHack.CommandLine.Path
import StackToHack.Proofs.SymbolText

/-!
# File names

A name that a directory can hold is one step of a path. Behind the path of the directory it is the
last step of its own path (`steps_join`) and so its file name.

Names with one extension are told apart by what stands in front of it: a name has the extension `x`
exactly if it is a stem that is not empty, a dot, and `x` (`extension?_eq_some_iff`), and that stem
is the one that is taken from it (`stem_append`) and from its path (`unitName?_join`).

To replace the extension of a path is to replace its last step (`exists_steps_withExtension`). The
path is then a path to another name, unless the extension is the one that it had
(`fileName_withExtension_eq_iff`).
-/

namespace StackToHack.Path

/-! ## The last character of a kind -/

section Last

variable {c : Char} {back cs : List Char}

theorem all_reverse_ne_of_not_mem (h : c ∉ cs) : ∀ d ∈ cs.reverse, (d != c) = true := by
  intro d member
  rw [bne_iff_ne]
  rintro rfl
  exact h (List.mem_reverse.mp member)

theorem behindLast_of_not_mem (h : c ∉ cs) : behindLast c cs = cs := by
  rw [behindLast, List.takeWhile_eq_self_iff.mpr (all_reverse_ne_of_not_mem h),
    List.reverse_reverse]

theorem behindLast_append_cons (h : c ∉ back) (front : List Char) :
    behindLast c (front ++ c :: back) = back := by
  rw [behindLast, List.reverse_append, List.reverse_cons, List.append_assoc,
    List.takeWhile_append_of_pos (all_reverse_ne_of_not_mem h)]
  simp

theorem throughLast_of_not_mem (h : c ∉ cs) : throughLast c cs = [] := by
  have whole := throughLast_append_behindLast c cs
  rw [behindLast_of_not_mem h] at whole
  exact List.append_left_eq_self.mp whole

theorem throughLast_append_cons (h : c ∉ back) (front : List Char) :
    throughLast c (front ++ c :: back) = front ++ [c] := by
  have whole := throughLast_append_behindLast c (front ++ c :: back)
  have parted : front ++ c :: back = front ++ [c] ++ back := List.append_cons ..
  rw [behindLast_append_cons h] at whole
  exact List.append_cancel_right (whole.trans parted)

/-- A character does not stand in a text, or there is a last place where it does. -/
theorem not_mem_or_exists_last (c : Char) (cs : List Char) :
    c ∉ cs ∨ ∃ front back, cs = front ++ c :: back ∧ c ∉ back := by
  by_cases h : c ∈ cs
  · obtain ⟨back, front, whole, notBehind⟩ :=
      List.eq_append_cons_of_mem (List.mem_reverse.mpr h)
    refine .inr ⟨front.reverse, back.reverse, ?_, by simpa using notBehind⟩
    have parts := congrArg List.reverse whole
    rw [List.reverse_reverse] at parts
    rw [parts]
    simp
  · exact .inl h

theorem not_mem_behindLast (c : Char) (cs : List Char) : c ∉ behindLast c cs := by
  rcases not_mem_or_exists_last c cs with h | ⟨front, back, rfl, h⟩
  · rwa [behindLast_of_not_mem h]
  · rwa [behindLast_append_cons h]

theorem throughLast_eq_nil_or_exists (c : Char) (cs : List Char) :
    throughLast c cs = [] ∨ ∃ front, throughLast c cs = front ++ [c] := by
  rcases not_mem_or_exists_last c cs with h | ⟨front, back, rfl, h⟩
  · exact .inl (throughLast_of_not_mem h)
  · exact .inr ⟨front, throughLast_append_cons h front⟩

end Last

/-! ## Extensions -/

section Extensions

variable {name stem extension : List Char}

theorem extensionOfName?_append (nonempty : stem ≠ []) (h : '.' ∉ extension) :
    extensionOfName? (stem ++ '.' :: extension) = some extension := by
  rw [extensionOfName?, throughLast_append_cons h, behindLast_append_cons h]
  obtain ⟨c, cs, rfl⟩ := List.exists_cons_of_ne_nil nonempty
  cases cs <;> rfl

theorem stemOfName_append (nonempty : stem ≠ []) (h : '.' ∉ extension) :
    stemOfName (stem ++ '.' :: extension) = stem := by
  rw [stemOfName, throughLast_append_cons h]
  obtain ⟨c, cs, rfl⟩ := List.exists_cons_of_ne_nil nonempty
  have kept : (c :: cs ++ ['.']).dropLast = c :: cs := List.dropLast_concat
  cases cs <;> exact kept

/-- A name has an extension behind its last dot, if anything stands in front of that. -/
theorem exists_append_of_extensionOfName? (h : extensionOfName? name = some extension) :
    ∃ stem, stem ≠ [] ∧ name = stem ++ '.' :: extension := by
  rcases not_mem_or_exists_last '.' name with noDot | ⟨front, back, rfl, notBehind⟩
  · rw [extensionOfName?, throughLast_of_not_mem noDot] at h
    cases h
  · by_cases nonempty : front = []
    · subst nonempty
      rw [extensionOfName?, throughLast_append_cons notBehind] at h
      cases h
    · rw [extensionOfName?_append nonempty notBehind] at h
      obtain rfl := Option.some.inj h
      exact ⟨front, nonempty, rfl⟩

theorem stemOfName_of_not_mem (h : '.' ∉ name) : stemOfName name = name := by
  rw [stemOfName, throughLast_of_not_mem h]

/-- A hidden name is all stem. -/
theorem stemOfName_dot_cons (h : '.' ∉ name) : stemOfName ('.' :: name) = '.' :: name := by
  have first : throughLast '.' ('.' :: name) = ['.'] := throughLast_append_cons h []
  rw [stemOfName, first]

theorem stemOfName_subset (name : List Char) : stemOfName name ⊆ name := by
  have front : throughLast '.' name ⊆ name :=
    List.IsPrefix.subset ⟨_, throughLast_append_behindLast '.' name⟩
  rw [stemOfName]
  split
  · exact List.Subset.refl name
  · exact List.Subset.refl name
  · exact List.Subset.trans (List.dropLast_subset _) front

/-- A name that is given an extension stays the same if it has that one already. -/
theorem nameWithExtension_eq_self_iff (proper : stemOfName name ≠ ['.']) (h : '.' ∉ extension) :
    nameWithExtension name extension = name ↔ extensionOfName? name = some extension := by
  rw [nameWithExtension, if_neg proper]
  constructor
  · intro same
    have shorter : stemOfName name ≠ name := by
      intro whole
      rw [whole] at same
      exact absurd (congrArg List.length same) (by simp)
    rcases not_mem_or_exists_last '.' name with noDot | ⟨front, back, rfl, notBehind⟩
    · exact absurd (stemOfName_of_not_mem noDot) shorter
    · by_cases nonempty : front = []
      · subst nonempty
        exact absurd (stemOfName_dot_cons notBehind) shorter
      · rw [stemOfName_append nonempty notBehind] at same
        obtain rfl := (List.cons.inj (List.append_cancel_left same)).2
        exact extensionOfName?_append nonempty notBehind
  · intro has
    obtain ⟨stem, nonempty, rfl⟩ := exists_append_of_extensionOfName? has
    rw [stemOfName_append nonempty h]

theorem slash_not_mem_nameWithExtension (h : '/' ∉ name) (h' : '/' ∉ extension) :
    '/' ∉ nameWithExtension name extension := by
  rw [nameWithExtension]
  split
  · decide
  · have inStem : '/' ∉ stemOfName name := fun slash => h (stemOfName_subset name slash)
    simp [inStem, h']

end Extensions

/-! ## Steps -/

section Steps

variable {path : String}

theorem cut_of_not_mem {cs : List Char} (h : '/' ∉ cs) : Text.cut (· == '/') cs = [cs] := by
  refine Text.cut_of_forall_not fun c member => ?_
  rw [beq_eq_false_iff_ne]
  rintro rfl
  exact h member

theorem slash_not_mem_of_mem_steps {step : String} (h : step ∈ steps path) :
    '/' ∉ step.toList := by
  obtain ⟨piece, member, rfl⟩ := List.mem_map.mp h
  intro slash
  rw [String.toList_ofList] at slash
  simpa using Text.forall_not_of_mem_cut member '/' slash

theorem ofList_throughLast_append (path : String) :
    String.ofList (throughLast '/' path.toList ++ behindLast '/' path.toList) = path := by
  rw [throughLast_append_behindLast, String.ofList_toList]

/-- Steps in front of a file name are the same for all file names. -/
theorem exists_steps_throughLast (cs : List Char) :
    ∃ front, ∀ last, '/' ∉ last →
      steps (String.ofList (throughLast '/' cs ++ last)) = front ++ [String.ofList last] := by
  rcases throughLast_eq_nil_or_exists '/' cs with nothing | ⟨front, whole⟩
  · refine ⟨[], fun last h => ?_⟩
    rw [nothing, List.nil_append, steps, String.toList_ofList, cut_of_not_mem h]
    rfl
  · refine ⟨(Text.cut (· == '/') front).map String.ofList, fun last h => ?_⟩
    rw [whole, List.append_assoc, List.singleton_append, steps, String.toList_ofList,
      Text.cut_append_cons (by rfl), cut_of_not_mem h, List.map_append]
    rfl

/-- The last step of a path is its file name. -/
theorem exists_steps_eq (path : String) : ∃ front, steps path = front ++ [fileName path] := by
  obtain ⟨front, each⟩ := exists_steps_throughLast path.toList
  have itself := each _ (not_mem_behindLast '/' path.toList)
  rw [ofList_throughLast_append] at itself
  exact ⟨front, itself⟩

/-- A path has a file name unless it ends with a slash or is empty. -/
theorem fileName_ne_empty (nonempty : path ≠ "") (h : ¬endsWithSlash path = true) :
    fileName path ≠ "" := by
  rcases not_mem_or_exists_last '/' path.toList with noSlash | ⟨front, last, whole, noSlash⟩
  · rwa [fileName, behindLast_of_not_mem noSlash, String.ofList_toList]
  · rw [fileName, whole, behindLast_append_cons noSlash]
    intro empty
    have nothing : last = [] := by simpa using empty
    exact h (by simp [endsWithSlash, whole, nothing])

end Steps

/-! ## Replaced extensions -/

section WithExtension

variable {last : List Char} {path extension : String}

theorem behindLast_throughLast_append (h : '/' ∉ last) (cs : List Char) :
    behindLast '/' (throughLast '/' cs ++ last) = last := by
  rcases throughLast_eq_nil_or_exists '/' cs with nothing | ⟨front, whole⟩
  · rw [nothing, List.nil_append, behindLast_of_not_mem h]
  · rw [whole, List.append_assoc, List.singleton_append, behindLast_append_cons h]

theorem isAbsolute_throughLast_append (h : '/' ∉ last) (cs : List Char) :
    isAbsolute (String.ofList (throughLast '/' cs ++ last)) =
      ((throughLast '/' cs).head? == some '/') := by
  rw [isAbsolute, String.toList_ofList]
  cases throughLast '/' cs with
  | nil =>
      have notFirst : last.head? ≠ some '/' := fun first => h (List.mem_of_mem_head? first)
      simpa using notFirst
  | cons c front => rfl

theorem fileName_withExtension (h : '/' ∉ extension.toList) :
    fileName (withExtension path extension) =
      String.ofList (nameWithExtension (behindLast '/' path.toList) extension.toList) := by
  have noSlash := slash_not_mem_nameWithExtension (not_mem_behindLast '/' path.toList) h
  rw [fileName, withExtension, String.toList_ofList, behindLast_throughLast_append noSlash]

/-- Only the last step of a path is another one with another extension. -/
theorem exists_steps_withExtension (h : '/' ∉ extension.toList) (path : String) :
    ∃ front, steps path = front ++ [fileName path] ∧
      steps (withExtension path extension) =
        front ++ [fileName (withExtension path extension)] := by
  obtain ⟨front, each⟩ := exists_steps_throughLast path.toList
  have noSlash := not_mem_behindLast '/' path.toList
  refine ⟨front, ?_, ?_⟩
  · have itself := each _ noSlash
    rwa [ofList_throughLast_append] at itself
  · rw [fileName_withExtension h]
    exact each _ (slash_not_mem_nameWithExtension noSlash h)

theorem isAbsolute_withExtension (h : '/' ∉ extension.toList) (path : String) :
    isAbsolute (withExtension path extension) = isAbsolute path := by
  have noSlash := not_mem_behindLast '/' path.toList
  have itself := isAbsolute_throughLast_append noSlash path.toList
  rw [ofList_throughLast_append] at itself
  rw [itself, withExtension]
  exact isAbsolute_throughLast_append (slash_not_mem_nameWithExtension noSlash h) _

/-- A path that is given an extension leads to the same name if it has that one already. -/
theorem fileName_withExtension_eq_iff (h : '/' ∉ extension.toList) (noDot : '.' ∉ extension.toList)
    (proper : fileName (withExtension path extension) ≠ "..") :
    fileName (withExtension path extension) = fileName path ↔
      extension? path = some extension := by
  rw [fileName_withExtension h] at proper ⊢
  have notDot : stemOfName (behindLast '/' path.toList) ≠ ['.'] := by
    intro dot
    rw [nameWithExtension, if_pos dot] at proper
    exact proper rfl
  rw [fileName, String.ofList_inj, nameWithExtension_eq_self_iff notDot noDot, extension?,
    Option.map_eq_some_iff]
  constructor
  · exact fun has => ⟨_, has, String.ofList_toList⟩
  · rintro ⟨chars, has, rfl⟩
    rwa [String.toList_ofList]

end WithExtension

/-! ## Names in a directory -/

/-- What a directory can call something inside of it: one step of a path, which neither stays nor
goes up. -/
structure IsEntryName (name : String) : Prop where
  nonempty : name ≠ ""
  notHere : name ≠ "."
  notAbove : name ≠ ".."
  noSlash : '/' ∉ name.toList
  fits : stepFits name = true

instance : DecidablePred IsEntryName := fun name =>
  decidable_of_iff
    (name ≠ "" ∧ name ≠ "." ∧ name ≠ ".." ∧ '/' ∉ name.toList ∧ stepFits name = true)
    ⟨fun ⟨nonempty, notHere, notAbove, noSlash, fits⟩ =>
      ⟨nonempty, notHere, notAbove, noSlash, fits⟩,
    fun ⟨nonempty, notHere, notAbove, noSlash, fits⟩ =>
      ⟨nonempty, notHere, notAbove, noSlash, fits⟩⟩

section Join

variable {path name : String}

theorem toList_join :
    (join path name).toList =
      (if endsWithSlash path then path.toList else path.toList ++ ['/']) ++ name.toList := by
  rw [join]
  split <;> simp

/-- Behind a path its names stand behind one slash more than the path itself goes on with. -/
theorem exists_toList_join (path name : String) :
    ∃ front, (join path name).toList = front ++ '/' :: name.toList ∧
      (path.toList = front ∨ path.toList = front ++ ['/']) := by
  rw [toList_join]
  by_cases slash : endsWithSlash path = true
  · have last : path.toList.getLast? = some '/' := by simpa [endsWithSlash] using slash
    obtain ⟨front, whole⟩ := List.getLast?_eq_some_iff.mp last
    refine ⟨front, ?_, .inr whole⟩
    rw [if_pos slash, whole, List.append_assoc]
    rfl
  · refine ⟨path.toList, ?_, .inl rfl⟩
    rw [if_neg slash, List.append_assoc]
    rfl

/-- The last step is the name, and without it the steps are those of the path, up to a step that
stays. -/
theorem steps_join (h : '/' ∉ name.toList) (path : String) :
    ∃ front, steps (join path name) = front ++ [name] ∧
      (steps path = front ∨ steps path = front ++ [""]) := by
  obtain ⟨front, joined, parts⟩ := exists_toList_join path name
  refine ⟨(Text.cut (· == '/') front).map String.ofList, ?_, ?_⟩
  · rw [steps, joined, Text.cut_append_cons (by rfl), cut_of_not_mem h, List.map_append]
    simp
  · rcases parts with whole | whole
    · exact .inl (by rw [steps, whole])
    · right
      rw [steps, whole, Text.cut_append_cons (by rfl), List.map_append]
      rfl

theorem isAbsolute_join (nonempty : path ≠ "") (name : String) :
    isAbsolute (join path name) = isAbsolute path := by
  have chars : path.toList ≠ [] := by simpa using nonempty
  obtain ⟨c, cs, whole⟩ := List.exists_cons_of_ne_nil chars
  rw [isAbsolute, isAbsolute, toList_join, whole]
  split <;> rfl

theorem join_injective (path : String) : Function.Injective (join path) := by
  intro name other same
  rw [← String.toList_inj, toList_join, toList_join] at same
  exact String.toList_inj.mp (List.append_cancel_left same)

theorem join_ne_empty (path name : String) : join path name ≠ "" := by
  obtain ⟨front, whole, -⟩ := exists_toList_join path name
  intro empty
  rw [empty] at whole
  simp at whole

/-- A name has an extension if it is a stem, a dot, and the extension. -/
theorem extension?_eq_some_iff {extension : String} (h : '/' ∉ name.toList)
    (noDot : '.' ∉ extension.toList) :
    extension? name = some extension ↔ ∃ stem, stem ≠ "" ∧ name = stem ++ "." ++ extension := by
  rw [extension?, behindLast_of_not_mem h, Option.map_eq_some_iff]
  constructor
  · rintro ⟨chars, found, rfl⟩
    obtain ⟨stem, nonempty, whole⟩ := exists_append_of_extensionOfName? found
    refine ⟨String.ofList stem, by simpa using nonempty, ?_⟩
    rw [← String.toList_inj, whole]
    simp
  · rintro ⟨stem, nonempty, rfl⟩
    have chars : stem.toList ≠ [] := by simpa using nonempty
    refine ⟨extension.toList, ?_, String.ofList_toList⟩
    rw [← extensionOfName?_append chars noDot]
    simp

theorem stem_append {stem extension : String} (nonempty : stem ≠ "")
    (noDot : '.' ∉ extension.toList) : Path.stem (stem ++ "." ++ extension) = stem := by
  have chars : stem.toList ≠ [] := by simpa using nonempty
  have parts : (stem ++ "." ++ extension).toList = stem.toList ++ '.' :: extension.toList := by simp
  rw [Path.stem, parts, stemOfName_append chars noDot, String.ofList_toList]

/-- In a directory, a unit is called by the stem of its own name. -/
theorem unitName?_join (named : IsEntryName name) (path : String) :
    unitName? (join path name) = some (stem name) := by
  obtain ⟨front, whole, -⟩ := steps_join named.noSlash path
  have goes : ¬(name = "" ∨ name = ".") := not_or.mpr ⟨named.nonempty, named.notHere⟩
  rw [unitName?, lastName?, whole, List.reverse_append, List.reverse_singleton,
    List.singleton_append, List.dropWhile_cons_of_neg (by simpa using goes)]
  simp only [if_neg named.notAbove, Option.map_some]

end Join

end StackToHack.Path
