import RemarkAtlas.Disk.Entry

/-!
Putting entries into a tree.  An entry without children that is put in the place of a file, or next
to the children of a directory, is found there afterwards, and nothing else changes.
-/

namespace RemarkAtlas.Entry

theorem find?_cons (name : Bytes) (place : Place) (entry : Entry) :
    entry.find? (name :: place) = (entry.child? name).bind (find? place) := by
  rw [find?]
  cases entry.child? name with
  | none => rfl
  | some inner => rfl

theorem find?_append (outer inner : Place) (entry : Entry) :
    entry.find? (outer ++ inner) = (entry.find? outer).bind (find? inner) := by
  induction outer generalizing entry with
  | nil => rfl
  | cons name outer ih =>
      rw [List.cons_append, find?_cons, find?_cons, Option.bind_assoc]
      exact Option.bind_congr fun inner _ => ih inner

theorem child?_eq_some {name : Bytes} {entry inner : Entry}
    (isChild : entry.child? name = some inner) :
    ∃ children, entry = directory children ∧ children.lookup name = some inner := by
  cases entry with
  | file _ => cases isChild
  | link _ => cases isChild
  | directory children => exact ⟨children, rfl, isChild⟩

theorem child?_file (content : Bytes) (name : Bytes) : (file content).child? name = none := rfl

theorem lookup_changeChild (name other : Bytes) (change : Option Entry → Entry)
    (children : List (Bytes × Entry)) :
    (changeChild name change children).lookup other =
      if other = name then some (change (children.lookup name)) else children.lookup other := by
  induction children with
  | nil =>
      simp only [changeChild, List.lookup_cons, List.lookup_nil]
      grind
  | cons child rest ih =>
      obtain ⟨present, entry⟩ := child
      by_cases same : name = present
      · subst same
        simp only [changeChild, if_true, List.lookup_cons, beq_self_eq_true]
        grind
      · simp only [changeChild, same, if_false, List.lookup_cons, ih, beq_false_of_ne same]
        grind

def IsDirectory (root : Entry) (place : Place) : Prop :=
  ∃ children, root.find? place = some (directory children)

inductive Takes : Entry → Place → Prop
  | file (content : Bytes) : Takes (.file content) []
  | new {children : List (Bytes × Entry)} {name : Bytes} (absent : children.lookup name = none) :
      Takes (directory children) [name]
  | inside {children : List (Bytes × Entry)} {name : Bytes} {inner : Entry} {place : Place}
      (found : children.lookup name = some inner) (takes : Takes inner place) :
      Takes (directory children) (name :: place)

def shallow : Entry → Entry
  | file content => file content
  | link target => link target
  | directory _ => directory []

variable {root new : Entry} {place : Place}

theorem find?_put_same (takes : Takes root place) (new : Entry) :
    (put new place root).find? place = some new := by
  induction takes with
  | file content => rfl
  | new absent => simp [put, find?, child?, lookup_changeChild]
  | inside found takes ih => simpa [put, find?_cons, child?, lookup_changeChild, found] using ih

theorem find?_put_other (takes : Takes root place) (childless : ∀ name, new.child? name = none)
    {other : Place} (different : other ≠ place) :
    ((put new place root).find? other).map shallow = (root.find? other).map shallow := by
  induction takes generalizing other with
  | file content =>
      cases other with
      | nil => exact absurd rfl different
      | cons name other =>
          rw [put, find?_cons, find?_cons, childless, child?_file]
  | @new children name absent =>
      cases other with
      | nil => rfl
      | cons first other =>
          by_cases same : first = name
          · subst same
            obtain ⟨second, rest, rfl⟩ : ∃ second rest, other = second :: rest :=
              List.exists_cons_of_ne_nil fun empty => different (by rw [empty])
            have added : (put new [first] (directory children)).child? first = some new := by
              simp [put, child?, lookup_changeChild]
            have missing : (directory children).child? first = none := absent
            rw [find?_cons, added, find?_cons, missing, Option.bind_some, find?_cons, childless]
            rfl
          · simp [put, find?_cons, child?, lookup_changeChild, same]
  | @inside children name inner place found takes ih =>
      cases other with
      | nil => rfl
      | cons first other =>
          by_cases same : first = name
          · subst same
            have below : other ≠ place := fun equal => different (by rw [equal])
            simpa [put, find?_cons, child?, lookup_changeChild, found] using ih below
          · simp [put, find?_cons, child?, lookup_changeChild, same]

theorem takes_of_file {content : Bytes} (found : root.find? place = some (file content)) :
    Takes root place := by
  induction place generalizing root with
  | nil =>
      obtain rfl := Option.some.inj found
      exact .file content
  | cons name place ih =>
      rw [find?_cons, Option.bind_eq_some_iff] at found
      obtain ⟨inner, isChild, found⟩ := found
      obtain ⟨children, rfl, present⟩ := child?_eq_some isChild
      exact .inside present (ih found)

theorem takes_of_absent {name : Bytes} (outer : IsDirectory root place)
    (absent : root.find? (place ++ [name]) = none) : Takes root (place ++ [name]) := by
  obtain ⟨children, outer⟩ := outer
  induction place generalizing root with
  | nil =>
      obtain rfl := Option.some.inj outer
      refine .new ?_
      simpa [find?_cons, child?, find?] using absent
  | cons first place ih =>
      rw [find?_cons, Option.bind_eq_some_iff] at outer
      obtain ⟨inner, isChild, outer⟩ := outer
      rw [List.cons_append, find?_cons, isChild, Option.bind_some] at absent
      obtain ⟨children, rfl, present⟩ := child?_eq_some isChild
      exact .inside present (ih absent outer)

theorem find?_of_takes (takes : Takes root place) :
    root.find? place = none ∨ ∃ content, root.find? place = some (file content) := by
  induction takes with
  | file content => exact Or.inr ⟨content, rfl⟩
  | new absent => exact Or.inl (by simp [find?_cons, child?, absent])
  | inside found takes ih => simpa [find?_cons, child?, found] using ih

theorem Takes.not_directory (takes : Takes root place) : ¬ IsDirectory root place := by
  rintro ⟨children, found⟩
  rcases find?_of_takes takes with absent | ⟨content, isFile⟩
  · exact absurd (absent.symm.trans found) (by simp)
  · exact absurd (isFile.symm.trans found) (by simp)

namespace IsDirectory

variable {other : Place}

theorem put (directory : IsDirectory root other) (takes : Takes root place)
    (childless : ∀ name, new.child? name = none) : IsDirectory (put new place root) other := by
  have different : other ≠ place := by
    rintro rfl
    exact takes.not_directory directory
  obtain ⟨children, found⟩ := directory
  have same := find?_put_other takes childless different
  rw [found, Option.map_some, Option.map_eq_some_iff] at same
  obtain ⟨entry, found, isDirectory⟩ := same
  cases entry with
  | file _ => cases isDirectory
  | link _ => cases isDirectory
  | directory children => exact ⟨children, found⟩

theorem outer (directory : IsDirectory root (place ++ other)) : IsDirectory root place := by
  obtain ⟨children, found⟩ := directory
  rw [find?_append, Option.bind_eq_some_iff] at found
  obtain ⟨entry, isEntry, found⟩ := found
  cases other with
  | nil => exact ⟨children, isEntry.trans found⟩
  | cons name other =>
      rw [find?_cons, Option.bind_eq_some_iff] at found
      obtain ⟨inner, isChild, _⟩ := found
      obtain ⟨children, rfl, _⟩ := child?_eq_some isChild
      exact ⟨children, isEntry⟩

theorem outermost (directory : IsDirectory root place) : IsDirectory root [] := by
  rw [← List.nil_append place] at directory
  exact directory.outer

theorem dropLast (directory : IsDirectory root place) : IsDirectory root place.dropLast := by
  obtain ⟨last, isPlace⟩ := List.dropLast_prefix place
  rw [← isPlace] at directory
  exact directory.outer

end IsDirectory

theorem find?_put_kept {other : Place} {old : Entry} (takes : Takes root place)
    (childless : ∀ name, new.child? name = none) (different : other ≠ place)
    (found : root.find? other = some old) (noDirectory : ∀ children, old ≠ directory children) :
    (put new place root).find? other = some old := by
  have kept := find?_put_other takes childless different
  rw [found, Option.map_some, Option.map_eq_some_iff] at kept
  obtain ⟨entry, found, same⟩ := kept
  rw [found]
  cases old with
  | directory children => exact absurd rfl (noDirectory children)
  | file content => cases entry <;> cases same; rfl
  | link target => cases entry <;> cases same; rfl

structure Rewrites (root after : Entry) (change : Place → Option Bytes → Option Bytes) : Prop where
  directory {place : Place} (found : IsDirectory root place) : IsDirectory after place
  link {place : Place} {target : Path} (found : root.find? place = some (.link target)) :
    after.find? place = some (.link target)
  file {place : Place} {old : Bytes} (found : root.find? place = some (.file old)) :
    ∃ content, change place (some old) = some content ∧ after.find? place = some (.file content)
  none {place : Place} (absent : root.find? place = .none) :
    after.find? place = (change place .none).map .file

theorem Rewrites.refl (root : Entry) : Rewrites root root fun _ content => content where
  directory found := found
  link found := found
  file found := ⟨_, rfl, found⟩
  none absent := absent

def overwrite (target : Place) (content : Bytes) (place : Place) (old : Option Bytes) :
    Option Bytes :=
  if place = target then some content else old

theorem rewrites_put {target : Place} (takes : Takes root target) (content : Bytes) :
    Rewrites root (put (.file content) target root) (overwrite target content) where
  directory found := found.put takes (child?_file content)
  link := by
    intro place link found
    refine find?_put_kept takes (child?_file content) ?_ found (by simp)
    rintro rfl
    rcases find?_of_takes takes with absent | ⟨old, isFile⟩
    · exact absurd (absent.symm.trans found) (by simp)
    · exact absurd (isFile.symm.trans found) (by simp)
  file := by
    intro place old found
    by_cases same : place = target
    · subst same
      exact ⟨content, if_pos rfl, find?_put_same takes _⟩
    · exact ⟨old, if_neg same, find?_put_kept takes (child?_file content) same found (by simp)⟩
  none := by
    intro place absent
    by_cases same : place = target
    · rw [same, find?_put_same takes, overwrite, if_pos rfl]
      rfl
    · have kept := find?_put_other takes (child?_file content) same
      rw [absent, Option.map_none, Option.map_eq_none_iff] at kept
      rw [kept, overwrite, if_neg same]
      rfl

end RemarkAtlas.Entry
