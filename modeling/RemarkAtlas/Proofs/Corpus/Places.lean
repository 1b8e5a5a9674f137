import RemarkAtlas.Corpus.Sighting
import RemarkAtlas.Proofs.Order.Groups
import RemarkAtlas.Proofs.Record.Flatten

/-!
Groups of records by file and by line.  Each grouping is a partition of the records that have a
location, and so are the lines of all files together.
-/

namespace RemarkAtlas

namespace Groups

section Laws

variable {Key Item : Type} [BEq Key]

/-- The items that have a key are parted by their keys: each key that occurs has one group, which
holds the items with this key in the order of the list. -/
structure Partitions (precedes : Key → Key → Prop) (key? : Item → Option Key) (items : List Item)
    (groups : List (Key × List Item)) : Prop where
  ascending : groups.Pairwise fun left right => precedes left.1 right.1
  keys (key : Key) : (∃ group ∈ groups, group.1 = key) ↔ ∃ item ∈ items, key? item = some key
  holds : ∀ group ∈ groups, group.2 = items.filter fun item => key? item == some group.1

end Laws

section Grouped

variable {Key Item : Type} [Ord Key] [Std.LawfulEqOrd Key] [Std.TransOrd Key] [BEq Key]
  [LawfulBEq Key]

theorem partitions_byKey {precedes : Key → Key → Prop}
    (less : ∀ left right, compare left right = .lt → precedes left right)
    (key? : Item → Option Key) (items : List Item) :
    Partitions precedes key? items (byKey key? items) where
  ascending := (ascending_byKey key? items).imp fun before => less _ _ before
  keys key := by
    rw [← mem_keys, List.mem_map]
  holds group member := (mem_byKey.mp member).2

end Grouped

namespace Partitions

variable {Key Item : Type} [BEq Key] [LawfulBEq Key] {precedes : Key → Key → Prop}
  {key? : Item → Option Key} {items : List Item} {groups : List (Key × List Item)}

theorem mem_group (partitions : Partitions precedes key? items groups) {group : Key × List Item}
    (isGroup : group ∈ groups) {item : Item} :
    item ∈ group.2 ↔ item ∈ items ∧ key? item = some group.1 := by
  rw [partitions.holds group isGroup, List.mem_filter, beq_iff_eq]

theorem nonempty (partitions : Partitions precedes key? items groups) :
    ∀ group ∈ groups, group.2 ≠ [] := by
  intro group isGroup
  obtain ⟨item, member, keyed⟩ := (partitions.keys group.1).mp ⟨group, isGroup, rfl⟩
  exact List.ne_nil_of_mem ((partitions.mem_group isGroup).mpr ⟨member, keyed⟩)

theorem existsUnique_group (partitions : Partitions precedes key? items groups) {item : Item}
    (member : item ∈ items) (keyed : (key? item).isSome) :
    ∃! group, group ∈ groups ∧ item ∈ group.2 := by
  obtain ⟨key, isKey⟩ := Option.isSome_iff_exists.mp keyed
  obtain ⟨group, isGroup, rfl⟩ := (partitions.keys key).mpr ⟨item, member, isKey⟩
  refine ⟨group, ⟨isGroup, (partitions.mem_group isGroup).mpr ⟨member, isKey⟩⟩, ?_⟩
  rintro other ⟨isOther, inOther⟩
  have otherKey := ((partitions.mem_group isOther).mp inOther).2
  have sameKey : other.1 = group.1 := Option.some.inj (otherKey.symm.trans isKey)
  refine Prod.ext sameKey ?_
  rw [partitions.holds other isOther, partitions.holds group isGroup, sameKey]

theorem flatMap_perm (partitions : Partitions precedes key? items groups)
    (irrefl : ∀ key, ¬precedes key key) :
    (groups.flatMap (·.2)).Perm (items.filter fun item => (key? item).isSome) := by
  have distinct : (groups.map Prod.fst).Nodup := by
    refine (List.pairwise_map.mpr partitions.ascending).imp ?_
    rintro left _ before rfl
    exact irrefl left before
  have blocks : groups.flatMap (·.2) = (groups.map Prod.fst).flatMap fun key =>
      having key? key (items.filter fun item => (key? item).isSome) := by
    rw [List.flatMap_map]
    refine List.flatMap_congr fun group isGroup => ?_
    rw [partitions.holds group isGroup, having, List.filter_filter]
    refine List.filter_congr fun item _ => ?_
    cases key? item <;> simp
  -- Under distinct keys, the blocks of the keyed items alone cover these items.
  rw [blocks]
  refine flatMap_having_perm distinct fun item member => ?_
  obtain ⟨isItem, keyed⟩ := List.mem_filter.mp member
  obtain ⟨key, isKey⟩ := Option.isSome_iff_exists.mp keyed
  obtain ⟨group, isGroup, rfl⟩ := (partitions.keys key).mpr ⟨item, isItem, isKey⟩
  exact ⟨group.1, List.mem_map_of_mem isGroup, isKey⟩

end Partitions

section Nested

variable {Outer Inner Item : Type} [BEq Outer] [LawfulBEq Outer] [BEq Inner] [LawfulBEq Inner]

def bothKeys? (outer? : Item → Option Outer) (inner? : Item → Option Inner) (item : Item) :
    Option (Outer × Inner) :=
  (outer? item).bind fun outer => (inner? item).map fun inner => (outer, inner)

def flatten (parts : List Item → List (Inner × List Item)) (groups : List (Outer × List Item)) :
    List ((Outer × Inner) × List Item) :=
  groups.flatMap fun group => (parts group.2).map fun part => ((group.1, part.1), part.2)

variable {before : Outer → Outer → Prop} {precedes : Inner → Inner → Prop}
  {outer? : Item → Option Outer} {inner? : Item → Option Inner} {items : List Item}
  {groups : List (Outer × List Item)} {parts : List Item → List (Inner × List Item)}

omit [BEq Outer] [LawfulBEq Outer] [BEq Inner] [LawfulBEq Inner] in
theorem bothKeys?_eq_some {item : Item} {outer : Outer} {inner : Inner} :
    bothKeys? outer? inner? item = some (outer, inner) ↔
      outer? item = some outer ∧ inner? item = some inner := by
  simp only [bothKeys?, Option.bind_eq_some_iff, Option.map_eq_some_iff, Prod.mk.injEq]
  grind

omit [BEq Outer] [LawfulBEq Outer] [BEq Inner] [LawfulBEq Inner] in
theorem mem_flatten {entry : (Outer × Inner) × List Item} :
    entry ∈ flatten parts groups ↔
      ∃ group ∈ groups, ∃ part ∈ parts group.2, ((group.1, part.1), part.2) = entry := by
  simp only [flatten, List.mem_flatMap, List.mem_map]

theorem Partitions.flatten (partitions : Partitions before outer? items groups)
    (parted : ∀ group ∈ groups, Partitions precedes inner? group.2 (parts group.2)) :
    Partitions (Prod.Lex before precedes) (bothKeys? outer? inner?) items
      (Groups.flatten parts groups) where
  ascending := by
    refine List.pairwise_flatMap.mpr ⟨fun group isGroup => ?_, ?_⟩
    · exact List.pairwise_map.mpr ((parted group isGroup).ascending.imp (Prod.Lex.right group.1))
    · refine partitions.ascending.imp fun earlier => ?_
      rintro left isLeft right isRight
      obtain ⟨_, _, rfl⟩ := List.mem_map.mp isLeft
      obtain ⟨_, _, rfl⟩ := List.mem_map.mp isRight
      exact Prod.Lex.left _ _ earlier
  keys := by
    rintro ⟨outer, inner⟩
    constructor
    · rintro ⟨entry, member, isKey⟩
      obtain ⟨group, isGroup, part, isPart, rfl⟩ := mem_flatten.mp member
      obtain ⟨rfl, rfl⟩ := Prod.mk.inj isKey
      obtain ⟨item, inGroup, innerKey⟩ := ((parted group isGroup).keys part.1).mp ⟨part, isPart, rfl⟩
      obtain ⟨isItem, outerKey⟩ := (partitions.mem_group isGroup).mp inGroup
      exact ⟨item, isItem, bothKeys?_eq_some.mpr ⟨outerKey, innerKey⟩⟩
    · rintro ⟨item, isItem, keyed⟩
      obtain ⟨outerKey, innerKey⟩ := bothKeys?_eq_some.mp keyed
      obtain ⟨group, isGroup, rfl⟩ := (partitions.keys outer).mpr ⟨item, isItem, outerKey⟩
      have inGroup := (partitions.mem_group isGroup).mpr ⟨isItem, outerKey⟩
      obtain ⟨part, isPart, rfl⟩ := ((parted group isGroup).keys inner).mpr ⟨item, inGroup, innerKey⟩
      exact ⟨_, mem_flatten.mpr ⟨group, isGroup, part, isPart, rfl⟩, rfl⟩
  holds := by
    intro entry member
    obtain ⟨group, isGroup, part, isPart, rfl⟩ := mem_flatten.mp member
    rw [(parted group isGroup).holds part isPart, partitions.holds group isGroup,
      List.filter_filter]
    refine List.filter_congr fun item _ => ?_
    rw [Bool.eq_iff_iff, Bool.and_eq_true, beq_iff_eq, beq_iff_eq, beq_iff_eq, bothKeys?_eq_some]
    exact and_comm

end Nested

end Groups

namespace Corpus

def byPlace (units : List CompilationUnit) : List ((String × UInt32) × List Sighting) :=
  Groups.flatten byLine (bySourceFile units)

variable (units : List CompilationUnit)

theorem partitions_bySourceFile :
    Groups.Partitions (· < ·) (fun sighting => sighting.location?.map (·.file)) (allRecords units)
      (bySourceFile units) :=
  Groups.partitions_byKey (fun _ _ => compareOfLessAndEq_eq_lt.mp) _ _

theorem partitions_byLine (records : List Sighting) :
    Groups.Partitions (· < ·) (fun sighting => sighting.location?.map (·.line)) records
      (byLine records) :=
  Groups.partitions_byKey (fun _ _ => Std.compare_eq_lt.mp) _ _

theorem partitions_byPlace :
    Groups.Partitions (Prod.Lex (· < ·) (· < ·))
      (fun sighting => sighting.location?.map fun location => (location.file, location.line))
      (allRecords units) (byPlace units) := by
  have keys : (fun sighting : Sighting =>
      sighting.location?.map fun location => (location.file, location.line)) =
        Groups.bothKeys? (fun sighting => sighting.location?.map (·.file))
          fun sighting => sighting.location?.map (·.line) := by
    funext sighting
    rw [Groups.bothKeys?]
    cases sighting.location? <;> rfl
  rw [keys]
  exact (partitions_bySourceFile units).flatten fun group _ => partitions_byLine group.2

theorem not_precedes_self (place : String × UInt32) :
    ¬Prod.Lex (· < ·) (· < ·) place place := by
  rw [Prod.lex_def]
  rintro (before | ⟨_, before⟩)
  · exact String.lt_irrefl _ before
  · exact UInt32.lt_irrefl _ before

structure PartedByPlace (units : List CompilationUnit) : Prop where
  files : Groups.Partitions (· < ·) (fun sighting => sighting.location?.map (·.file))
    (allRecords units) (bySourceFile units)
  lines (records : List Sighting) : Groups.Partitions (· < ·)
    (fun sighting => sighting.location?.map (·.line)) records (byLine records)
  places : Groups.Partitions (Prod.Lex (· < ·) (· < ·))
    (fun sighting => sighting.location?.map fun location => (location.file, location.line))
    (allRecords units) (byPlace units)
  alone : ∀ sighting ∈ allRecords units, sighting.location?.isSome →
    ∃! group, group ∈ byPlace units ∧ sighting ∈ group.2
  together : ((byPlace units).flatMap (·.2)).Perm
    ((allRecords units).filter fun sighting => sighting.location?.isSome)
  nonempty : (∀ group ∈ bySourceFile units, group.2 ≠ []) ∧
    (∀ records, ∀ group ∈ byLine records, group.2 ≠ []) ∧ ∀ group ∈ byPlace units, group.2 ≠ []
  located : (∀ group ∈ bySourceFile units, ∀ sighting ∈ group.2, sighting.location?.isSome) ∧
    ∀ records, ∀ group ∈ byLine records, ∀ sighting ∈ group.2, sighting.location?.isSome

theorem allRecords_partedByPlace : PartedByPlace units where
  files := partitions_bySourceFile units
  lines := partitions_byLine
  places := partitions_byPlace units
  alone sighting member located :=
    (partitions_byPlace units).existsUnique_group member (by simpa using located)
  together := by
    simpa using (partitions_byPlace units).flatMap_perm not_precedes_self
  nonempty := ⟨(partitions_bySourceFile units).nonempty,
    fun records => (partitions_byLine records).nonempty, (partitions_byPlace units).nonempty⟩
  located := by
    refine ⟨fun group isGroup sighting inGroup => ?_,
      fun records group isGroup sighting inGroup => ?_⟩
    · have keyed := ((partitions_bySourceFile units).mem_group isGroup).mp inGroup
      simpa using Option.isSome_of_eq_some keyed.2
    · have keyed := ((partitions_byLine records).mem_group isGroup).mp inGroup
      simpa using Option.isSome_of_eq_some keyed.2

def noteAt (location : Option Location) (children : List Record) : Record :=
  .remark ⟨.note, none, none⟩ ⟨none, [], none, location, none⟩ children

def scatteredUnit : CompilationUnit where
  filename := none
  format := "1"
  generator := ⟨"GNU C17", "", "13.2.0", "x86_64-pc-linux-gnu"⟩
  passes := []
  rootPasses := []
  positions := .empty
  records :=
    let repeated := noteAt (some ⟨"b.c", 7, 1⟩) []
    [repeated, noteAt none [noteAt (some ⟨"a.c", 3, 1⟩) [repeated]]]

/-- Units and depths of the records at each place, and the group of the first record. -/
theorem scatteredUnits_partedByPlace :
    (byPlace [scatteredUnit, scatteredUnit]).map (fun group =>
      (group.1, group.2.map fun sighting => (sighting.unitIndex, sighting.depth))) =
        [(("a.c", 3), [(0, 1), (1, 1)]), (("b.c", 7), [(0, 0), (0, 2), (1, 0), (1, 2)])] ∧
    ∃ sighting ∈ allRecords [scatteredUnit, scatteredUnit], sighting.location?.isSome ∧
      ∃! group, group ∈ byPlace [scatteredUnit, scatteredUnit] ∧ sighting ∈ group.2 := by
  have first : ⟨0, scatteredUnit, 0, noteAt (some ⟨"b.c", 7, 1⟩) []⟩ ∈
      allRecords [scatteredUnit, scatteredUnit] := by
    rw [allRecords_eq]
    exact List.mem_cons_self
  refine ⟨?_, _, first, rfl, (allRecords_partedByPlace _).alone _ first rfl⟩
  rw [byPlace, bySourceFile, allRecords_eq]
  rfl

end Corpus

end RemarkAtlas
