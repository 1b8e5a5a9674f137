import RemarkAtlas.Corpus.Sighting

/-!
The listing of a forest of records, as a statement about the records in it.
-/

namespace RemarkAtlas.Record

theorem mem_flattenAll {depth : Nat} {records : List Record} {entry : Nat × Record} :
    entry ∈ flattenAll depth records ↔ ∃ record ∈ records, entry ∈ record.flatten depth := by
  induction records with
  | nil => simp [flattenAll]
  | cons record rest ih => simp [flattenAll, ih]

/-- Induction over a list of records and the lists of records below them. -/
theorem forestInduction {motive : List Record → Prop} (nil : motive [])
    (cons : ∀ record rest, motive record.children → motive rest → motive (record :: rest)) :
    ∀ records, motive records
  | [] => nil
  | remark header details children :: rest =>
      cons _ rest (forestInduction nil cons children) (forestInduction nil cons rest)
  | snapshot _ _ :: rest =>
      cons _ rest nil (forestInduction nil cons rest)

theorem depth_le_of_mem_flattenAll {depth : Nat} {records : List Record} {entry : Nat × Record}
    (member : entry ∈ flattenAll depth records) : depth ≤ entry.1 := by
  induction records using forestInduction generalizing depth with
  | nil => simp [flattenAll] at member
  | cons record rest ihBelow ihRest =>
      rw [flattenAll, Walk.flatten_eq, List.cons_append, List.mem_cons, List.mem_append] at member
      rcases member with rfl | below | later
      · exact Nat.le_refl depth
      · exact Nat.le_of_succ_le (ihBelow below)
      · exact ihRest later

theorem flattenAll_add (depth deeper : Nat) (records : List Record) :
    flattenAll (depth + deeper) records =
      (flattenAll depth records).map fun entry => (entry.1 + deeper, entry.2) := by
  induction records using forestInduction generalizing depth with
  | nil => rfl
  | cons record rest ihBelow ihRest =>
      rw [flattenAll, flattenAll, Walk.flatten_eq, Walk.flatten_eq, ihRest, Nat.add_right_comm,
        ihBelow, List.map_append, List.map_cons]

/-- What is below a listed record is listed. -/
theorem mem_flattenAll_trans {depth : Nat} {records : List Record} {entry below : Nat × Record}
    (member : entry ∈ flattenAll depth records) (isBelow : below ∈ entry.2.flatten 0) :
    ∃ deeper, (deeper, below.2) ∈ flattenAll depth records := by
  induction records using forestInduction generalizing depth with
  | nil => cases member
  | cons record rest ihBelow ihRest =>
      rw [flattenAll, Walk.flatten_eq, List.cons_append, List.mem_cons, List.mem_append] at member
      rw [flattenAll, Walk.flatten_eq]
      rcases member with rfl | inside | later
      · rw [Walk.flatten_eq] at isBelow
        rcases List.mem_cons.mp isBelow with rfl | deeper
        · exact ⟨depth, List.mem_cons_self⟩
        · have shifted := List.mem_map_of_mem (f := fun entry : Nat × Record =>
            (entry.1 + depth, entry.2)) deeper
          rw [← flattenAll_add, Nat.zero_add, Nat.add_comm] at shifted
          exact ⟨_, List.mem_cons_of_mem _ (List.mem_append_left _ shifted)⟩
      · obtain ⟨deeper, found⟩ := ihBelow inside
        exact ⟨deeper, List.mem_cons_of_mem _ (List.mem_append_left _ found)⟩
      · obtain ⟨deeper, found⟩ := ihRest later
        exact ⟨deeper, List.mem_cons_of_mem _ (List.mem_append_right _ found)⟩

end RemarkAtlas.Record

namespace RemarkAtlas.CompilationUnit

theorem allRecords_eq (unit : CompilationUnit) :
    unit.allRecords = Record.flattenAll 0 unit.records :=
  Walk.visit_start unit.records

end RemarkAtlas.CompilationUnit

namespace RemarkAtlas.Corpus

theorem allRecords_eq (units : List CompilationUnit) :
    allRecords units = units.zipIdx.flatMap fun indexed =>
      sightings indexed.2 indexed.1 (Record.flattenAll 0 indexed.1.records) := by
  simp only [allRecords, CompilationUnit.allRecords_eq]

end RemarkAtlas.Corpus
