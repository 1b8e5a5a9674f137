import RemarkAtlas.Document.Records
import RemarkAtlas.Proofs.Document.Reading

/-!
Passes and records form forests: an object lists those below it under one of its members.  Both
readers are brought into the same shape, and one induction serves for both.
-/

namespace RemarkAtlas

theorem Members.mem_of_get? {members : Members} {key : String} {value : Json}
    (found : members.get? key = some value) : (key, value) ∈ members := by
  obtain ⟨before, after, split, _⟩ := List.lookup_eq_some_iff.mp found
  simp [split]

theorem Members.sizeOf_listed {members : Members} {key : String} {items : List Json}
    (found : members.get? key = some (.array items)) :
    sizeOf items < sizeOf (Json.object members) := by
  have member := List.sizeOf_lt_of_mem (Members.mem_of_get? found)
  simp only [Prod.mk.sizeOf_spec, Json.array.sizeOf_spec] at member
  simp only [Json.object.sizeOf_spec]
  omega

/-- Induction over a list of values and the lists under a key of its objects. -/
theorem Json.forestInduction {motive : List Json → Prop} (key : String) (nil : motive [])
    (cons : ∀ value rest,
      (∀ members items, value = .object members → Document.Lists members key items →
        motive items) →
      motive rest → motive (value :: rest)) (values : List Json) : motive values := by
  cases values with
  | nil => exact nil
  | cons value rest =>
      refine cons value rest ?_ (forestInduction key nil cons rest)
      rintro members items rfl (found | ⟨_, rfl⟩)
      · have smaller := Members.sizeOf_listed found
        exact forestInduction key nil cons items
      · exact nil
termination_by sizeOf values

namespace Document

theorem readSubPasses_eq (table : PassTable) (members : Members) :
    readSubPasses table members =
      listed .passChildren "children" members >>= readPasses table := by
  induction members with
  | nil => rfl
  | cons member rest ih =>
      obtain ⟨key, value⟩ := member
      by_cases isChildren : key = "children"
      · subst isChildren
        cases value <;> rfl
      · rw [readSubPasses.eq_def]
        simp [isChildren, ih, listed, Ne.symm isChildren]

theorem readChildren_eq (options : Options) (positions : NameMap Nat) (members : Members) :
    readChildren options positions members =
      listed .recordChildren "children" members >>= readRecords options positions := by
  induction members with
  | nil => rfl
  | cons member rest ih =>
      obtain ⟨key, value⟩ := member
      by_cases isChildren : key = "children"
      · subst isChildren
        cases value <;> rfl
      · rw [readChildren.eq_def]
        simp [isChildren, ih, listed, Ne.symm isChildren]

end Document

end RemarkAtlas
