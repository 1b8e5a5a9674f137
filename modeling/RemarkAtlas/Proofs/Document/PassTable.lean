import RemarkAtlas.Proofs.Document.Forest
import RemarkAtlas.Proofs.Unit.PassForest

/-!
What reading passes does to the table.  The table locates its passes by their ids at every moment,
and what a list of passes adds is a contiguous piece of the pass list that is visited in order.
-/

namespace RemarkAtlas.Document

theorem modify_append_cons {α : Type} (change : α → α) (before after : List α) (item : α) :
    (before ++ item :: after).modify before.length change = before ++ change item :: after := by
  induction before with
  | nil => rfl
  | cons first rest ih => simp [ih]

theorem newPassId_eq_ok {table : PassTable} {members : Members} {id : String} :
    newPassId table members = .ok id ↔
      (∃ value, members.get? "id" = some value ∧ scalarText? value = some id) ∧
        table.positions.get? id = none := by
  simp only [newPassId, bind_eq_ok, scalar_eq_ok]
  constructor
  · rintro ⟨text, written, fresh⟩
    split at fresh
    · simp at fresh
    · rename_i absent
      obtain rfl : text = id := by simpa using fresh
      exact ⟨written, by simpa [NameMap.contains] using absent⟩
  · rintro ⟨written, fresh⟩
    exact ⟨id, written, by simp [NameMap.contains, fresh]⟩

theorem passWithId_keeps {id : String} {members : Members} {pass : Pass}
    (read : passWithId id members = .ok pass) : pass.id = id ∧ pass.children = [] := by
  simp only [passWithId, bind_eq_ok] at read
  obtain ⟨_, _, _, _, _, _, _, _, _, _, _, _, made⟩ := read
  simp only [pure_eq_ok, Except.ok.injEq] at made
  simp [← made]

/-- A pass is read by putting it into the table, reading the passes below it and handing it their
positions. -/
theorem readPass_eq_ok {table after : PassTable} {value : Json} {position : Nat} :
    readPass table value = .ok (position, after) ↔
      ∃ members id pass items children below, value = .object members ∧
        newPassId table members = .ok id ∧ passWithId id members = .ok pass ∧
        Lists members "children" items ∧
        readPasses (table.register pass) items = .ok (children, below) ∧
        position = table.passes.length ∧ after = below.adopt position children := by
  cases value with
  | object members =>
      simp only [readPass, readSubPasses_eq, bind_eq_ok, listed_eq_ok, pure_eq_ok]
      constructor
      · rintro ⟨id, newId, pass, fields, ⟨children, below⟩, ⟨items, lists, read⟩, result⟩
        simp only [Except.ok.injEq, Prod.mk.injEq] at result
        obtain ⟨rfl, rfl⟩ := result
        exact ⟨members, id, pass, items, children, below, rfl, newId, fields, lists, read, rfl, rfl⟩
      · rintro ⟨_, id, pass, items, children, below, same, newId, fields, lists, read, rfl, rfl⟩
        obtain rfl : members = _ := by simpa using same
        exact ⟨id, newId, pass, fields, ⟨children, below⟩, ⟨items, lists, read⟩, rfl⟩
  | _ => simp [readPass]

theorem readPasses_cons_eq_ok {table after : PassTable} {value : Json} {rest : List Json}
    {roots : List Nat} :
    readPasses table (value :: rest) = .ok (roots, after) ↔
      ∃ position middle positions, readPass table value = .ok (position, middle) ∧
        readPasses middle rest = .ok (positions, after) ∧ position :: positions = roots := by
  simp only [readPasses, bind_eq_ok, Prod.exists, pure_eq_ok, Except.ok.injEq, Prod.mk.injEq]
  constructor
  · rintro ⟨position, middle, first, positions, last, others, same, rfl⟩
    exact ⟨position, middle, positions, first, others, same⟩
  · rintro ⟨position, middle, positions, first, others, same⟩
    exact ⟨position, middle, first, positions, after, others, same, rfl⟩

namespace PassTable

def Located (table : PassTable) : Prop := Locates table.positions (table.passes.map (·.id))

theorem located_empty : empty.Located := Locates.empty

theorem Located.register {table : PassTable} (located : table.Located) {pass : Pass}
    (fresh : table.positions.get? pass.id = none) : (table.register pass).Located := by
  have extended := Locates.insert located (Locates.get?_eq_none_iff located |>.mp fresh)
  simpa [Located, PassTable.register] using extended

/-- What a pass says apart from its sub-passes does not change when it gets these. -/
theorem map_modify {Label : Type} (passes : List Pass) (position : Nat) (children : List Nat)
    {label : Pass → Label} (same : ∀ pass children, label { pass with children } = label pass) :
    (passes.modify position fun pass => { pass with children }).map label = passes.map label := by
  refine List.ext_getElem? ?_
  intro index
  rw [List.getElem?_map, List.getElem?_map, List.getElem?_modify]
  cases passes[index]? with
  | none => rfl
  | some pass => by_cases here : position = index <;> simp [here, same]

theorem map_id_modify (passes : List Pass) (position : Nat) (children : List Nat) :
    (passes.modify position fun pass => { pass with children }).map (·.id) =
      passes.map (·.id) :=
  map_modify passes position children fun _ _ => rfl

theorem Located.adopt {table : PassTable} (located : table.Located) (position : Nat)
    (children : List Nat) : (table.adopt position children).Located := by
  simpa [Located, PassTable.adopt, map_id_modify] using located

end PassTable

theorem readPasses_located {values : List Json} {table after : PassTable} {roots : List Nat}
    (located : table.Located) (read : readPasses table values = .ok (roots, after)) :
    after.Located := by
  induction values using Json.forestInduction "children" generalizing table after roots with
  | nil =>
      simp only [readPasses, Except.ok.injEq, Prod.mk.injEq] at read
      exact read.2 ▸ located
  | cons value rest ihBelow ihRest =>
      obtain ⟨position, middle, positions, readFirst, readRest, _⟩ :=
        readPasses_cons_eq_ok.mp read
      obtain ⟨members, id, pass, items, children, below, isObject, newId, fields, lists, readBelow,
        _, rfl⟩ := readPass_eq_ok.mp readFirst
      have fresh : table.positions.get? pass.id = none := by
        rw [(passWithId_keeps fields).1]
        exact (newPassId_eq_ok.mp newId).2
      have belowLocated := ihBelow members items isObject lists (located.register fresh) readBelow
      exact ihRest (belowLocated.adopt position children) readRest

theorem readPass_located {value : Json} {table after : PassTable} {position : Nat}
    (located : table.Located) (read : readPass table value = .ok (position, after)) :
    after.Located := by
  have alone : readPasses table [value] = .ok ([position], after) :=
    readPasses_cons_eq_ok.mpr ⟨position, after, [], read, rfl, rfl⟩
  exact readPasses_located located alone

/-- What a list of passes adds to a table: a piece of the pass list that is visited from its
beginning to its end, whatever stands before and after it. -/
structure Adds (table after : PassTable) (roots : List Nat) (family : List Pass) : Prop where
  passes : after.passes = table.passes ++ family
  visits : ∀ before later, before.length = table.passes.length →
    Visits (before ++ family ++ later) roots (List.range' before.length family.length)

theorem Adds.nothing (table : PassTable) : Adds table table [] [] where
  passes := by simp
  visits := fun _ _ _ => .done

theorem Adds.cons {table below after : PassTable} {pass parent : Pass} {children roots : List Nat}
    {inner others : List Pass} (isParent : parent = { pass with children })
    (inside : Adds (table.register pass) below children inner)
    (outside : Adds (below.adopt table.passes.length children) after roots others) :
    Adds table after (table.passes.length :: roots) (parent :: inner ++ others) := by
  have adopted : (below.adopt table.passes.length children).passes =
      table.passes ++ parent :: inner := by
    simp only [PassTable.adopt, inside.passes, PassTable.register, List.append_assoc,
      List.singleton_append, isParent]
    exact modify_append_cons _ _ _ _
  refine ⟨by simp [outside.passes, adopted], ?_⟩
  intro before later sameLength
  generalize everything : before ++ (parent :: inner ++ others) ++ later = all
  have here : all[before.length]? = some parent := by simp [← everything]
  have innerVisits : Visits all parent.children (List.range' (before.length + 1) inner.length) := by
    have visits := inside.visits (before ++ [parent]) (others ++ later)
      (by simp [PassTable.register, sameLength])
    simpa [← everything, isParent] using visits
  have otherVisits :
      Visits all roots (List.range' (before.length + 1 + inner.length) others.length) := by
    have visits := outside.visits (before ++ parent :: inner) later
      (by simp [adopted, sameLength])
    simpa [← everything, Nat.add_assoc, Nat.add_comm 1] using visits
  have order : List.range' before.length (parent :: inner ++ others).length =
      before.length :: List.range' (before.length + 1) inner.length ++
        List.range' (before.length + 1 + inner.length) others.length := by
    simp only [List.cons_append, List.range'_append_1, List.length_cons, List.length_append,
      List.range'_succ]
  rw [order, ← sameLength]
  exact Visits.visit here innerVisits otherVisits

theorem readPasses_adds {values : List Json} {table after : PassTable} {roots : List Nat}
    (read : readPasses table values = .ok (roots, after)) :
    ∃ family, Adds table after roots family := by
  induction values using Json.forestInduction "children" generalizing table after roots with
  | nil =>
      simp only [readPasses, Except.ok.injEq, Prod.mk.injEq] at read
      obtain ⟨rfl, rfl⟩ := read
      exact ⟨[], Adds.nothing table⟩
  | cons value rest ihBelow ihRest =>
      obtain ⟨position, middle, positions, readFirst, readRest, rfl⟩ :=
        readPasses_cons_eq_ok.mp read
      obtain ⟨members, id, pass, items, children, below, isObject, newId, fields, lists, readBelow,
        rfl, rfl⟩ := readPass_eq_ok.mp readFirst
      obtain ⟨inner, inside⟩ := ihBelow members items isObject lists readBelow
      obtain ⟨others, outside⟩ := ihRest readRest
      exact ⟨_, Adds.cons rfl inside outside⟩

end RemarkAtlas.Document
