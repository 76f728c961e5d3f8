import Printf.Files
import Printf.Proofs.JsonScalars
import Printf.Proofs.PathNames

/-! File trees that are written to. A tree only grows: what was found stays where it is, a directory
stays a directory, and a file that was written is found by the path that it was written to. -/
namespace Printf.Files

open Json (bind_ok)

variable {files later : Files} {path : String} {l k : Location} {n : Node} {content : Bytes}

theorem node?_set_self (free : isFixed l = false) (n : Node) : (files.set l n).node? l = some n := by
  have fresh : (files.nodes.filter fun entry => entry.1 != l).lookup l = none := by
    refine List.lookup_eq_none_iff.mpr fun entry member => ?_
    have other := (List.mem_filter.mp member).2
    rwa [bne_comm] at other
  rw [node?, free, set, List.lookup_append, fresh]
  simp

theorem node?_set_other (other : k ≠ l) (n : Node) : (files.set l n).node? k = files.node? k := by
  have kept : (files.nodes.filter fun entry => entry.1 != l).lookup k = files.nodes.lookup k := by
    induction files.nodes with
    | nil => rfl
    | cons entry nodes ih =>
      rw [List.filter_cons, List.lookup_cons]
      by_cases replaced : entry.1 = l
      · have apart : (k == entry.1) = false := beq_false_of_ne (replaced ▸ other)
        rw [if_neg (by simp [replaced]), apart, ih]
      · rw [if_pos (bne_iff_ne.mpr replaced), List.lookup_cons, ih]
  have last : ([(l, n)] : List (Location × Node)).lookup k = none := by
    simp [List.lookup_cons, beq_false_of_ne other]
  rw [node?, node?, set, List.lookup_append, kept, last, Option.or_none]

/-- A later tree has nodes wherever an earlier one has, and the directories of the earlier one. -/
def Grows (files later : Files) : Prop := ∀ l n, files.node? l = some n →
  ∃ m, later.node? l = some m ∧ (n = .directory → m = .directory)

theorem Grows.directory (grows : files.Grows later) (found : files.node? l = some .directory) :
    later.node? l = some .directory := by
  obtain ⟨m, found, kept⟩ := grows l _ found
  rw [found, kept rfl]

theorem walk_cons (directory : files.node? l = some .directory) (c : String) (cs : List String) :
    files.walk l (c :: cs) = files.walk (step l c) cs := by
  rw [walk, directory]

/-- What is on the way of a walk is a directory. -/
theorem walk_cons_ok {c : String} {cs : List String} (walked : files.walk l (c :: cs) = .ok k) :
    files.node? l = some .directory ∧ files.walk (step l c) cs = .ok k := by
  rw [walk] at walked
  split at walked
  · cases walked
  · cases walked
  · next directory => exact ⟨directory, walked⟩

theorem walk_append (front behind : List String) {k : Location} (walked : files.walk l front = .ok k) :
    files.walk l (front ++ behind) = files.walk k behind := by
  induction front generalizing l with
  | nil => cases walked; rfl
  | cons c front ih =>
    obtain ⟨directory, walked⟩ := walk_cons_ok walked
    rw [List.cons_append, walk_cons directory, ih walked]

theorem walk_concat {cs : List String} {c : String} (walked : files.walk l (cs ++ [c]) = .ok k) :
    ∃ m, files.walk l cs = .ok m ∧ files.node? m = some .directory ∧ k = step m c := by
  induction cs generalizing l with
  | nil =>
    obtain ⟨directory, walked⟩ := walk_cons_ok walked
    cases walked
    exact ⟨l, rfl, directory, rfl⟩
  | cons d cs ih =>
    obtain ⟨directory, walked⟩ := walk_cons_ok walked
    obtain ⟨m, front, last⟩ := ih walked
    exact ⟨m, by rw [walk_cons directory, front], last⟩

theorem Grows.walk (grows : files.Grows later) {cs : List String} (walked : files.walk l cs = .ok k) :
    later.walk l cs = .ok k := by
  induction cs generalizing l with
  | nil => exact walked
  | cons c cs ih =>
    obtain ⟨directory, walked⟩ := walk_cons_ok walked
    rw [walk_cons (grows.directory directory), ih walked]

theorem find_iff : files.find path = .ok (l, n) ↔
    path ≠ "" ∧ files.walk (start path) (Path.components path) = .ok l ∧ files.node? l = some n := by
  rw [find]
  by_cases empty : path = ""
  · simp [empty, throw, throwThe, MonadExceptOf.throw, bind, Except.bind]
  · simp only [empty, if_false, bind_ok, ne_eq, not_false_eq_true, true_and, pure, Except.pure]
    constructor
    · rintro ⟨k, walked, found⟩
      split at found
      · next node =>
        cases found
        exact ⟨walked, node⟩
      · cases found
    · rintro ⟨walked, node⟩
      exact ⟨l, walked, by rw [node]⟩

/-- A path leads to the same location in a later tree. -/
theorem Grows.find (grows : files.Grows later) (found : files.find path = .ok (l, n)) {m : Node}
    (there : later.node? l = some m) : later.find path = .ok (l, m) := by
  obtain ⟨some, walked, _⟩ := find_iff.mp found
  exact find_iff.mpr ⟨some, grows.walk walked, there⟩

theorem isFixed_eq_false (free : files.node? l ≠ some .directory) : isFixed l = false := by
  by_contra fixed
  rw [Bool.not_eq_false] at fixed
  rw [node?, if_pos fixed] at free
  exact free rfl

/-- Putting a file anywhere but at a directory lets the tree grow. -/
theorem set_grows (free : files.node? l ≠ some .directory) (content : Bytes) :
    files.Grows (files.set l (.file content)) := by
  intro k n found
  by_cases here : k = l
  · subst here
    refine ⟨_, node?_set_self (isFixed_eq_false free) _, fun directory => ?_⟩
    exact absurd (directory ▸ found) free
  · exact ⟨n, (node?_set_other here _).trans found, id⟩

theorem step_name {name : String} (named : Path.IsName name) (l : Location) :
    step l name = l ++ [name] := by
  rw [step, if_neg (not_or.mpr ⟨named.1, named.2.1⟩), if_neg named.2.2]

/-- A write puts a file with the name at the end of its path into the directory that the components in
front of the name lead to. -/
theorem write_name (written : files.write path content = .ok later) :
    ∃ front name l, Path.components path = front ++ [name] ∧ Path.IsName name ∧
      files.walk (start path) front = .ok l ∧ files.node? (l ++ [name]) ≠ some .directory ∧
      later = files.set (l ++ [name]) (.file content) ∧
      later.find path = .ok (l ++ [name], .file content) := by
  rw [write] at written
  by_cases empty : path = ""
  · simp [empty, throw, throwThe, MonadExceptOf.throw, bind, Except.bind] at written
  simp only [empty, if_false, bind_ok] at written
  generalize trimmed : ((Path.components path).reverse.dropWhile (· == "")).reverse = cs at written
  obtain ⟨l, walked, written⟩ := written
  split at written
  · cases written
  next proper =>
  simp only [bne_iff_ne, not_or, ne_eq, not_not] at proper
  obtain ⟨whole, named⟩ := proper
  split at written
  · cases written
  next free =>
  cases written
  obtain rfl | ⟨front, name, rfl⟩ := cs.eq_nil_or_concat'
  · exact absurd rfl named.1
  simp only [List.getLast?_concat, Option.getD_some, List.dropLast_concat] at *
  obtain ⟨m, front_walked, directory, stay⟩ := walk_concat walked
  obtain rfl : l = m := stay.trans (if_pos (Or.inl rfl))
  have grows : files.Grows (files.set (l ++ [name]) (.file content)) := set_grows free content
  refine ⟨front, name, l, whole, named, front_walked, free, rfl,
    find_iff.mpr ⟨empty, ?_, node?_set_self (isFixed_eq_false free) _⟩⟩
  rw [whole, walk_append front [name] (grows.walk front_walked),
    walk_cons (grows.directory directory), step_name named]
  rfl

/-- A write puts a file where the path leads to afterwards, and there was no directory. -/
theorem write_ok (written : files.write path content = .ok later) :
    ∃ l, files.node? l ≠ some .directory ∧ later = files.set l (.file content) ∧
      later.find path = .ok (l, .file content) := by
  obtain ⟨_, name, l, _, _, _, put⟩ := write_name written
  exact ⟨l ++ [name], put⟩

/-- A path that a file was written to can be written to again. -/
theorem write_again (written : files.write path content = .ok later) (content' : Bytes) :
    ∃ again, later.write path content' = .ok again := by
  obtain ⟨front, name, l, ends, named, _, _, _, found⟩ := write_name written
  obtain ⟨some, walked, there⟩ := find_iff.mp found
  -- the file that was written is found, so everything on the way to it is a directory
  rw [ends] at walked
  obtain ⟨m, walked, directory, last⟩ := walk_concat walked
  obtain rfl : l = m := List.append_cancel_right (last.trans (step_name named m))
  have trimmed : ((Path.components path).reverse.dropWhile (· == "")).reverse = front ++ [name] := by
    rw [ends, List.reverse_concat, List.dropWhile_cons_of_neg (by simpa using named.1),
      List.reverse_cons, List.reverse_reverse]
  have inside : later.walk (start path) (front ++ [""]) = .ok l := by
    rw [walk_append front [""] walked, walk_cons directory]
    rfl
  obtain ⟨notEmpty, notHere, notAbove⟩ := named
  rw [ends] at trimmed
  refine ⟨later.set (l ++ [name]) (.file content'), ?_⟩
  rw [write, if_neg some, ends]
  simp only [trimmed, List.dropLast_concat, List.getLast?_concat, Option.getD_some, inside]
  simp [notEmpty, notHere, notAbove, there, bind, Except.bind, pure, Except.pure]

/-- Making directories changes nothing that is there. -/
theorem makeAlong_keeps {cs : List String} (made : files.makeAlong l cs = .ok later) {k : Location}
    (found : files.node? k = some n) : later.node? k = some n := by
  induction cs generalizing files l with
  | nil => cases made; exact found
  | cons c cs ih =>
    rw [makeAlong] at made
    split at made
    · dsimp only at made
      split at made
      · next missing =>
        refine ih made ?_
        have other : k ≠ step l c := by
          rintro rfl
          rw [missing] at found
          cases found
        rw [node?_set_other other, found]
      · cases made
      · cases made
      · exact ih made found
    · cases made
    · cases made

theorem makeDirectories_keeps (made : files.makeDirectories path = .ok later)
    (found : files.node? l = some n) : later.node? l = some n := makeAlong_keeps made found

theorem makeDirectories_grows (made : files.makeDirectories path = .ok later) : files.Grows later :=
  fun _ n found => ⟨n, makeDirectories_keeps made found, id⟩

theorem write_grows (written : files.write path content = .ok later) : files.Grows later := by
  obtain ⟨l, free, rfl, _⟩ := write_ok written
  exact set_grows free content

theorem read_iff : files.read path = .ok content ↔ ∃ l, files.find path = .ok (l, .file content) := by
  rw [read]
  rcases files.find path with e | ⟨l, _ | _⟩ <;>
    simp [bind, Except.bind, throw, throwThe, MonadExceptOf.throw, pure, Except.pure]

def location? (files : Files) (path : String) : Option Location :=
  (files.find path).toOption.map Prod.fst

/-- What was written is read. -/
theorem write_read (written : files.write path content = .ok later) :
    later.read path = .ok content := by
  obtain ⟨l, -, -, found⟩ := write_ok written
  exact read_iff.mpr ⟨l, found⟩

theorem location?_iff : files.location? path = some l ↔ ∃ n, files.find path = .ok (l, n) := by
  rw [location?]
  rcases files.find path with e | ⟨k, n⟩ <;> simp [Except.toOption]

/-- A path leads to the same location in a later tree. -/
theorem Grows.location? (grows : files.Grows later) (found : files.location? path = some l) :
    later.location? path = some l := by
  obtain ⟨n, found⟩ := location?_iff.mp found
  obtain ⟨m, there, _⟩ := grows l n (find_iff.mp found).2.2
  exact location?_iff.mpr ⟨m, grows.find found there⟩

/-- Paths that lead to different locations in a later tree did so before. -/
theorem Grows.apart {other : String} (grows : files.Grows later) (found : files.location? path = some l)
    (apart : later.location? path ≠ later.location? other) :
    files.location? path ≠ files.location? other := by
  intro same
  rw [grows.location? found, grows.location? (same ▸ found)] at apart
  exact apart rfl

/-- A write elsewhere keeps what is read. -/
theorem write_keeps_read {other : String} {kept : Bytes}
    (written : files.write path content = .ok later) (read : files.read other = .ok kept)
    (elsewhere : later.location? path ≠ later.location? other) : later.read other = .ok kept := by
  have grows := write_grows written
  obtain ⟨k, found⟩ := read_iff.mp read
  obtain ⟨l, free, rfl, put⟩ := write_ok written
  rw [location?_iff.mpr ⟨_, put⟩, grows.location? (location?_iff.mpr ⟨_, found⟩), ne_eq,
    Option.some.injEq] at elsewhere
  refine read_iff.mpr ⟨k, (set_grows free content).find found ?_⟩
  rw [node?_set_other (Ne.symm elsewhere), (find_iff.mp found).2.2]

theorem makeDirectories_keeps_read {other : String} {kept : Bytes}
    (made : files.makeDirectories path = .ok later) (read : files.read other = .ok kept) :
    later.read other = .ok kept := by
  obtain ⟨k, found⟩ := read_iff.mp read
  have there := makeDirectories_keeps made (find_iff.mp found).2.2
  exact read_iff.mpr ⟨k, (makeDirectories_grows made).find found there⟩

end Printf.Files
