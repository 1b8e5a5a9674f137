import RemarkAtlas.Proofs.Document.FieldRoundTrip
import RemarkAtlas.Proofs.Document.PassTable

/-!
Reading gives back a pass list that was written, if walking through the passes meets them in the
order of the list.
-/

namespace RemarkAtlas.Document

theorem writePass_eq {passes : List Pass} {position : Nat} {pass : Pass}
    (found : passes[position]? = some pass) (later : ∀ child ∈ pass.children, position < child) :
    writePass passes position =
      .object (passMembers pass (pass.children.map (writePass passes))) := by
  rw [writePass]
  split
  · rename_i missing
    simp [found] at missing
  · rename_i other isOther
    obtain rfl : other = pass := by simpa [found] using isOther.symm
    have followed : (other.children.map fun child =>
        if position < child then writePass passes child else .null) =
          other.children.map (writePass passes) :=
      List.map_congr_left fun child member => if_pos (later child member)
    rw [followed]

theorem passWithId_passMembers (pass : Pass) (children : List Json) :
    passWithId pass.id (passMembers pass children) = .ok { pass with children := [] } := by
  simp [passWithId, passMembers, names_writeNames]

/-- A walk that meets consecutive positions meets those below its first root, then the others. -/
theorem range'_eq_cons_append {start count index : Nat} {below later : List Nat}
    (order : index :: below ++ later = List.range' start count) :
    index = start ∧ below = List.range' (start + 1) below.length ∧
      later = List.range' (start + 1 + below.length) later.length ∧
      count = 1 + below.length + later.length := by
  have sameLength : count = 1 + below.length + later.length := by
    have lengths := congrArg List.length order
    simp only [List.length_append, List.length_cons, List.length_range'] at lengths
    omega
  rw [sameLength, show 1 + below.length + later.length = below.length + later.length + 1 by omega,
    List.range'_succ, ← List.range'_append_1, List.cons_append, List.cons.injEq] at order
  obtain ⟨first, rest⟩ := order
  obtain ⟨isBelow, isLater⟩ := List.append_inj rest (by simp)
  exact ⟨first, isBelow, isLater, sameLength⟩

theorem exists_family_parts {family : List Pass} {first second : Nat}
    (lengths : family.length = 1 + first + second) :
    ∃ pass inner others, family = pass :: inner ++ others ∧ inner.length = first ∧
      others.length = second := by
  cases family with
  | nil => simp at lengths; omega
  | cons pass rest =>
      simp only [List.length_cons] at lengths
      refine ⟨pass, rest.take first, rest.drop first, by simp, ?_, ?_⟩
      · rw [List.length_take]
        omega
      · rw [List.length_drop]
        omega

theorem readPass_written {table middle : PassTable} {pass : Pass} {inner : List Pass}
    {items : List Json} (fresh : table.positions.get? pass.id = none)
    (readBelow : readPasses (table.register { pass with children := [] }) items =
      .ok (pass.children, middle))
    (middlePasses : middle.passes = table.passes ++ [{ pass with children := [] }] ++ inner) :
    ∃ after, readPass table (.object (passMembers pass items)) =
        .ok (table.passes.length, after) ∧ after.passes = table.passes ++ pass :: inner := by
  refine ⟨middle.adopt table.passes.length pass.children, ?_, ?_⟩
  · refine readPass_eq_ok.mpr ⟨_, pass.id, _, items, pass.children, middle, rfl, ?_,
      passWithId_passMembers pass items, Or.inl (by simp [passMembers]), readBelow, rfl, rfl⟩
    exact newPassId_eq_ok.mpr ⟨⟨_, by simp [passMembers]; rfl, rfl⟩, fresh⟩
  · simp only [PassTable.adopt, middlePasses, List.append_assoc, List.singleton_append]
    exact modify_append_cons _ _ _ _

/-- A table of the passes before one of them does not know its id. -/
theorem get?_next_eq_none {passes before others : List Pass} {pass : Pass} {table : PassTable}
    (distinct : (passes.map (·.id)).Nodup) (parts : passes = before ++ pass :: others)
    (located : table.Located) (sameIds : table.passes.map (·.id) = before.map (·.id)) :
    table.positions.get? pass.id = none := by
  refine (Locates.get?_eq_none_iff located).mpr ?_
  rw [sameIds]
  intro member
  rw [parts, List.map_append, List.map_cons] at distinct
  exact (List.nodup_append.mp distinct).2.2 _ member _ List.mem_cons_self rfl

/-- The passes that a walk meets are put into the table in the order in which they are met.  The
table holds the passes before them; their lists of sub-passes may still be missing there. -/
theorem readPasses_written {passes : List Pass} {roots order : List Nat}
    (distinct : (passes.map (·.id)).Nodup) (visits : Visits passes roots order)
    {before family rest : List Pass} {table : PassTable}
    (parts : passes = before ++ family ++ rest)
    (consecutive : order = List.range' before.length family.length) (located : table.Located)
    (sameIds : table.passes.map (·.id) = before.map (·.id)) :
    ∃ after, readPasses table (roots.map (writePass passes)) = .ok (roots, after) ∧
      after.passes = table.passes ++ family := by
  induction visits generalizing before family rest table with
  | done =>
      have empty : family = [] := by simpa using congrArg List.length consecutive.symm
      exact ⟨table, rfl, by simp [empty]⟩
  | visit here belowVisits laterVisits ihBelow ihLater =>
      rename_i index pass roots below later
      obtain ⟨isFirst, belowOrder, laterOrder, lengths⟩ := range'_eq_cons_append consecutive
      obtain ⟨first, inner, others, rfl, innerLength, othersLength⟩ :=
        exists_family_parts lengths
      obtain rfl : first = pass := by simpa [parts, isFirst] using here
      have sameLength : table.passes.length = before.length := by
        simpa using congrArg List.length sameIds
      have isWritten : writePass passes index =
          .object (passMembers first (first.children.map (writePass passes))) := by
        refine writePass_eq here ?_
        intro child member
        have bound := belowVisits.roots_subset member
        rw [belowOrder, List.mem_range'_1] at bound
        omega
      have partsHere : passes = before ++ first :: (inner ++ others ++ rest) := by simp [parts]
      have fresh := get?_next_eq_none distinct partsHere located sameIds
      have registered : (table.register { first with children := [] }).Located :=
        PassTable.Located.register located fresh
      have partsBelow : passes = (before ++ [first]) ++ inner ++ (others ++ rest) := by
        simp [parts]
      obtain ⟨middle, readBelow, middlePasses⟩ := ihBelow partsBelow
        (by rw [List.length_append, innerLength]; exact belowOrder) registered
        (by simp [PassTable.register, sameIds])
      obtain ⟨adopted, readFirst, adoptedPasses⟩ := readPass_written fresh readBelow middlePasses
      have partsLater : passes = (before ++ first :: inner) ++ others ++ rest := by simp [parts]
      have reached : before.length + 1 + below.length = (before ++ first :: inner).length := by
        simp only [List.length_append, List.length_cons, innerLength]
        omega
      obtain ⟨after, readLater, afterPasses⟩ := ihLater partsLater
        (by rw [← reached, othersLength]; exact laterOrder)
        (readPass_located located readFirst) (by simp [adoptedPasses, sameIds])
      refine ⟨after, ?_, by simp [afterPasses, adoptedPasses]⟩
      rw [List.map_cons, isWritten]
      exact readPasses_cons_eq_ok.mpr ⟨table.passes.length, adopted, roots, readFirst, readLater,
        by rw [isFirst, sameLength]⟩

end RemarkAtlas.Document
