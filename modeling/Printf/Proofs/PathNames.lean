import Printf.Files.Path
import Printf.Proofs.Pieces

/-! Names at the end of paths. A path is what stands in front of its last component, and that; an
extension replaces one at the end of the name and leaves the rest of the path as it is. -/
namespace Printf.Path

variable {front stem ext : List Char} {name extension : String}

/-- What can stand in front of a component: nothing, or a text that ends with a slash. -/
def IsFront (front : List Char) : Prop := front = [] ∨ ∃ cs, front = cs ++ ['/']

def IsName (name : String) : Prop := name ≠ "" ∧ name ≠ "." ∧ name ≠ ".."

def frontComponents (front : List Char) : List String :=
  (Text.split '/' front).dropLast.map String.ofList

def nameWith (name extension : String) : String :=
  String.ofList (splitName name.toList).1 ++ "." ++ extension

theorem components_front (isFront : IsFront front) (whole : '/' ∉ name.toList) :
    components (String.ofList (front ++ name.toList)) = frontComponents front ++ [name] := by
  rw [components, String.toList_ofList, frontComponents]
  obtain rfl | ⟨cs, rfl⟩ := isFront
  · simp [Text.split_whole whole, Text.split]
  · rw [List.append_assoc, List.singleton_append, Text.split_append_cons, Text.split_append_cons,
      Text.split_whole whole]
    simp [Text.split]

/-- A path ends with its last component. -/
theorem exists_front {path : String} {cs : List String} (ends : components path = cs ++ [name]) :
    ∃ front, IsFront front ∧ '/' ∉ name.toList ∧ path = String.ofList (front ++ name.toList) ∧
      frontComponents front = cs := by
  have cut : ∃ front last, IsFront front ∧ '/' ∉ last ∧ path.toList = front ++ last := by
    by_cases slash : '/' ∈ path.toList
    · obtain ⟨cs, last, whole, at_last⟩ := Text.exists_last slash
      exact ⟨cs ++ ['/'], last, .inr ⟨cs, rfl⟩, whole, by rw [at_last, List.append_assoc]; rfl⟩
    · exact ⟨[], path.toList, .inl rfl, slash, rfl⟩
  obtain ⟨front, last, isFront, whole, cut⟩ := cut
  obtain rfl : path = String.ofList (front ++ (String.ofList last).toList) := by
    rw [String.toList_ofList, ← cut, String.ofList_toList]
  rw [← String.toList_ofList (l := last)] at whole
  obtain ⟨rfl, same⟩ := List.append_inj' ((components_front isFront whole).symm.trans ends) rfl
  cases same
  exact ⟨front, isFront, whole, rfl, rfl⟩

theorem IsName.point (named : IsName name) : name.toList ≠ ['.'] :=
  fun same => named.2.1 (String.toList_injective same)

theorem IsName.chars (named : IsName name) : name.toList ≠ [] :=
  fun same => named.1 (String.toList_injective same)

theorem isAbsolute_front (isFront : IsFront front) (whole : '/' ∉ name.toList) :
    isAbsolute (String.ofList (front ++ name.toList)) = (front.head? == some '/') := by
  rw [isAbsolute, String.toList_ofList]
  obtain rfl | ⟨cs, rfl⟩ := isFront
  · cases chars : name.toList with
    | nil => rfl
    | cons c cs =>
      rw [chars] at whole
      simpa using (List.ne_of_not_mem_cons whole).symm
  · cases cs <;> rfl

/-- Nothing is cut off behind a name. -/
theorem trimEnd_front (named : IsName name) (whole : '/' ∉ name.toList) :
    (trimEnd (String.ofList (front ++ name.toList))).toList = front ++ name.toList := by
  have kept (cs : List Char) (nonempty : cs ≠ []) (point : cs ≠ ['.']) (whole : '/' ∉ cs) :
      trimEnd.strip (cs ++ front.reverse) = cs ++ front.reverse := by
    -- what goes is a slash at the end, or a point with a slash in front of it; a name ends in neither
    rw [trimEnd.strip.eq_3]
    · rintro behind same
      match cs with
      | [_] => exact point (congrArg ([·]) (List.head_eq_of_cons_eq same))
      | _ :: c :: _ =>
        obtain rfl : c = '/' := List.head_eq_of_cons_eq (List.tail_eq_of_cons_eq same)
        exact whole (List.mem_cons_of_mem _ List.mem_cons_self)
    · rintro d behind same
      match cs with
      | c :: _ =>
        obtain rfl : c = '/' := List.head_eq_of_cons_eq same
        exact whole List.mem_cons_self
  rw [trimEnd, String.toList_ofList, String.toList_ofList, List.reverse_append, kept,
    List.reverse_append, List.reverse_reverse, List.reverse_reverse]
  · exact fun same => named.chars (List.reverse_eq_nil_iff.mp same)
  · exact fun same => named.point (List.reverse_eq_iff.mp same)
  · exact fun member => whole (List.mem_reverse.mp member)

theorem fileName?_front (isFront : IsFront front) (named : IsName name) (whole : '/' ∉ name.toList) :
    fileName? (String.ofList (front ++ name.toList)) = some name := by
  have last : ((front ++ name.toList).reverse.takeWhile (· != '/')).reverse = name.toList := by
    rw [List.reverse_append, List.takeWhile_append_of_pos]
    · obtain rfl | ⟨cs, rfl⟩ := isFront <;> simp
    · intro c member
      exact bne_iff_ne.mpr fun slash => whole (slash ▸ List.mem_reverse.mp member)
  rw [fileName?, trimEnd_front named whole, last]
  rw [if_neg, String.ofList_toList]
  rintro (same | same | same)
  · exact named.chars same
  · exact named.point same
  · exact named.2.2 (String.toList_injective same)

theorem withExtension_front (isFront : IsFront front) (named : IsName name)
    (whole : '/' ∉ name.toList) (extension : String) :
    withExtension (String.ofList (front ++ name.toList)) extension =
      String.ofList (front ++ (nameWith name extension).toList) := by
  have kept : (front ++ name.toList).take ((front ++ name.toList).length - name.toList.length) =
      front := by
    rw [List.length_append, Nat.add_sub_cancel, List.take_left]
  simp only [withExtension, fileName?_front isFront named whole, trimEnd_front named whole, kept,
    nameWith]
  apply String.toList_injective
  simp

/-- A name is cut at its last point. -/
theorem splitName_append (some : stem ≠ []) (last : '.' ∉ ext) :
    splitName (stem ++ '.' :: ext) = (stem, .some ext) := by
  have apart : ∀ c ∈ ext.reverse, (c != '.') = true := fun c member =>
    bne_iff_ne.mpr fun point => last (point ▸ List.mem_reverse.mp member)
  have reversed : (stem ++ '.' :: ext).reverse = ext.reverse ++ '.' :: stem.reverse := by simp
  rw [splitName, reversed, List.takeWhile_append_of_pos apart, List.dropWhile_append_of_pos apart]
  simp [some]

/-- A name without a point behind its first character is not cut. -/
theorem splitName_whole {cs : List Char} (whole : '.' ∉ cs) (c : Char) :
    splitName (c :: cs) = (c :: cs, none) := by
  have apart : ∀ c ∈ cs.reverse, (c != '.') = true := fun c member =>
    bne_iff_ne.mpr fun point => whole (point ▸ List.mem_reverse.mp member)
  rw [splitName, if_pos]
  rw [List.reverse_cons, List.dropWhile_append_of_pos apart]
  by_cases point : c = '.' <;> simp [point]

theorem splitName_cases (name : List Char) :
    splitName name = (name, none) ∨
      ∃ stem ext, stem ≠ [] ∧ name = stem ++ '.' :: ext ∧ splitName name = (stem, some ext) := by
  cases name with
  | nil => exact .inl rfl
  | cons c cs =>
    by_cases point : '.' ∈ cs
    · obtain ⟨stem, ext, last, rfl⟩ := Text.exists_last point
      exact .inr ⟨c :: stem, ext, nofun, rfl, splitName_append (List.cons_ne_nil c stem) last⟩
    · exact .inl (splitName_whole point c)

theorem toList_nameWith (name extension : String) :
    (nameWith name extension).toList = (splitName name.toList).1 ++ '.' :: extension.toList := by
  simp [nameWith]

theorem stem_ne_nil (named : IsName name) : (splitName name.toList).1 ≠ [] := by
  obtain whole | ⟨stem, ext, some, _, cut⟩ := splitName_cases name.toList
  · rw [whole]
    exact named.chars
  · rw [cut]
    exact some

theorem stem_subset (name : List Char) : (splitName name).1 ⊆ name := by
  obtain whole | ⟨stem, ext, _, rfl, cut⟩ := splitName_cases name
  · rw [whole]
    exact List.Subset.refl name
  · rw [cut]
    exact List.subset_append_left stem _

theorem extension?_nameWith (named : IsName name) (last : '.' ∉ extension.toList) :
    extension? (nameWith name extension) = some extension := by
  rw [extension?, toList_nameWith, splitName_append (stem_ne_nil named) last, Option.map_some,
    String.ofList_toList]

/-- The extension of a name is the one that changes nothing. -/
theorem nameWith_eq_self_iff (named : IsName name) (last : '.' ∉ extension.toList) :
    nameWith name extension = name ↔ extension? name = some extension := by
  constructor
  · intro same
    rw [← extension?_nameWith named last, same]
  · intro cut
    apply String.toList_injective
    rw [toList_nameWith]
    obtain whole | ⟨stem, ext, _, parts, at_last⟩ := splitName_cases name.toList
    · rw [extension?, whole] at cut
      cases cut
    · rw [extension?, at_last] at cut
      cases cut
      rw [at_last, parts, String.toList_ofList]

section
variable {path : String} {cs : List String} (ends : components path = cs ++ [name])
  (named : IsName name)
include ends named

theorem fileName?_of_components : fileName? path = some name := by
  obtain ⟨front, isFront, whole, rfl, _⟩ := exists_front ends
  exact fileName?_front isFront named whole

/-- A path with another extension is the path with another name. -/
theorem withExtension_of_components (slash : '/' ∉ extension.toList) :
    components (withExtension path extension) = cs ++ [nameWith name extension] ∧
      isAbsolute (withExtension path extension) = isAbsolute path := by
  obtain ⟨front, isFront, whole, rfl, rfl⟩ := exists_front ends
  have other : '/' ∉ (nameWith name extension).toList := by
    rw [toList_nameWith, List.mem_append, List.mem_cons]
    rintro (stem | point | ext)
    · exact whole (stem_subset _ stem)
    · exact absurd point (by decide)
    · exact slash ext
  rw [withExtension_front isFront named whole, components_front isFront other,
    isAbsolute_front isFront other, isAbsolute_front isFront whole]
  exact ⟨rfl, rfl⟩

/-- A path that has an extension is the one with this extension. -/
theorem withExtension_eq_self (last : '.' ∉ extension.toList)
    (has : extension? name = some extension) : withExtension path extension = path := by
  obtain ⟨front, isFront, whole, rfl, _⟩ := exists_front ends
  rw [withExtension_front isFront named whole, (nameWith_eq_self_iff named last).mpr has]

end

end Printf.Path
