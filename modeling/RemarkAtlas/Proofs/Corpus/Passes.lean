import Mathlib.Algebra.GroupWithZero.Nat
import RemarkAtlas.Corpus.Passes
import RemarkAtlas.Proofs.Corpus.Ranking
import RemarkAtlas.Proofs.Order.Groups
import RemarkAtlas.Proofs.Unit.WellFormed

/-!
The passes of a corpus share out its records.  The numbers of a pass are counted over all units, and
the ranking of its records is what the ranking of all records has of them.
-/

namespace RemarkAtlas

namespace Record

/-- What a listing has at its own depth are the roots. -/
theorem filter_depth_flattenAll (depth : Nat) (records : List Record) :
    (flattenAll depth records).filter (fun entry => entry.1 == depth) =
      records.map fun record => (depth, record) := by
  induction records with
  | nil => rfl
  | cons record rest ih =>
      have below : (flattenAll (depth + 1) record.children).filter
          (fun entry => entry.1 == depth) = [] := by
        refine List.filter_eq_nil_iff.mpr fun entry member atDepth => ?_
        have deeper := depth_le_of_mem_flattenAll member
        rw [eq_of_beq atDepth] at deeper
        omega
      rw [flattenAll, Walk.flatten_eq, List.cons_append, List.filter_cons_of_pos (by simp),
        List.filter_append, below, ih, List.nil_append, List.map_cons]

end Record

namespace Corpus

theorem topLevelRecords_eq (units : List CompilationUnit) :
    topLevelRecords units =
      (allRecords units).filter fun sighting => sighting.depth == 0 := by
  rw [topLevelRecords, allRecords_eq, List.filter_flatMap]
  refine List.flatMap_congr fun ⟨unit, index⟩ _ => ?_
  dsimp only
  rw [sightings, sightings, List.filter_map, ← Record.filter_depth_flattenAll 0]
  rfl

end Corpus

/-- In a well-formed unit only those records have no pass that name none. -/
theorem CompilationUnit.WellFormed.passOf?_eq_none {unit : CompilationUnit}
    (wellFormed : unit.WellFormed) {entry : Nat × Record} (member : entry ∈ unit.allRecords) :
    unit.passOf? entry.2 = none ↔ entry.2.pass? = none := by
  constructor
  · intro noPass
    cases named : entry.2.pass? with
    | none => rfl
    | some index =>
        obtain ⟨pass, _, found⟩ := wellFormed.inBounds.passOf entry member index named
        rw [found] at noPass
        cases noPass
  · intro unnamed
    rw [passOf?, unnamed, Option.bind_none]

namespace PassSummary

variable {units : List CompilationUnit}

def recordsOf (units : List CompilationUnit) (name : Option String) : List Sighting :=
  (Corpus.allRecords units).filter fun sighting => sighting.passName? == name

theorem mem_ofUnits {summary : PassSummary} :
    summary ∈ ofUnits units ↔
      recordsOf units summary.name ≠ [] ∧
        summary = ofGroup (summary.name, recordsOf units summary.name) := by
  have isRecords (name : Option String) : Groups.having
      (fun sighting => some sighting.passName?) name (Corpus.allRecords units) =
        recordsOf units name := by
    simp only [Groups.having, recordsOf, Option.some_beq_some]
  rw [ofUnits, List.mem_map]
  constructor
  · rintro ⟨⟨name, group⟩, member, rfl⟩
    obtain ⟨nonempty, isGroup⟩ := Groups.mem_byKey.mp member
    rw [isRecords] at isGroup
    subst isGroup
    exact ⟨nonempty, rfl⟩
  · rintro ⟨nonempty, isSummary⟩
    refine ⟨_, Groups.mem_byKey.mpr ⟨nonempty, (isRecords summary.name).symm⟩, isSummary.symm⟩

theorem exists_name_iff {name : Option String} :
    (∃ summary ∈ ofUnits units, summary.name = name) ↔
      ∃ sighting ∈ Corpus.allRecords units, sighting.passName? = name := by
  constructor
  · rintro ⟨summary, member, rfl⟩
    obtain ⟨sighting, isRecord⟩ := List.exists_mem_of_ne_nil _ (mem_ofUnits.mp member).1
    obtain ⟨present, named⟩ := List.mem_filter.mp isRecord
    exact ⟨sighting, present, eq_of_beq named⟩
  · rintro ⟨sighting, present, named⟩
    have isRecord : sighting ∈ recordsOf units name :=
      List.mem_filter.mpr ⟨present, by simp [named]⟩
    exact ⟨ofGroup (name, recordsOf units name),
      mem_ofUnits.mpr ⟨List.ne_nil_of_mem isRecord, rfl⟩, rfl⟩

theorem exists_named {record : Sighting} (member : record ∈ Corpus.allRecords units) :
    ∃ summary ∈ ofUnits units, summary.name = record.passName? :=
  exists_name_iff.mpr ⟨record, member, rfl⟩

theorem pairwise_ofUnits (units : List CompilationUnit) :
    (ofUnits units).Pairwise fun left right => left.name < right.name := by
  have ascending := Groups.ascending_byKey
    (fun sighting : Sighting => some sighting.passName?) (Corpus.allRecords units)
  refine List.pairwise_map.mpr (ascending.imp ?_)
  rintro ⟨leftName, _⟩ ⟨rightName, _⟩ before
  cases leftName with
  | none =>
      cases rightName with
      | none => cases before
      | some _ => trivial
  | some left =>
      cases rightName with
      | none => cases before
      | some right =>
          have isBelow : left < right := compareOfLessAndEq_eq_lt.mp before
          exact isBelow

/-- Records of any sort are counted once. -/
theorem sum_countP (selected : Sighting → Bool) (units : List CompilationUnit) :
    ((Groups.byKey (fun sighting => some sighting.passName?) (Corpus.allRecords units)).map
      fun group => group.2.countP selected).sum = (Corpus.allRecords units).countP selected := by
  have grouped : ((Groups.byKey (fun sighting => some sighting.passName?)
      (Corpus.allRecords units)).flatMap (·.2)).Perm (Corpus.allRecords units) :=
    Groups.flatMap_byKey_perm fun _ _ => rfl
  rw [← grouped.countP_eq, List.countP_flatMap]
  rfl

theorem sum_totals (units : List CompilationUnit) :
    ((ofUnits units).map (·.total)).sum = (Corpus.allRecords units).length := by
  have all := sum_countP (fun _ => true) units
  simp only [List.countP_true] at all
  rw [ofUnits, List.map_map]
  exact all

theorem sum_topLevels (units : List CompilationUnit) :
    ((ofUnits units).map (·.topLevel)).sum = (Corpus.topLevelRecords units).length := by
  rw [Corpus.topLevelRecords_eq, ← List.countP_eq_length_filter, ← sum_countP, ofUnits,
    List.map_map]
  rfl

theorem forPass_eq (policy : PrecisionPolicy) (units : List CompilationUnit) (name : String) :
    Ranking.forPass policy units name =
      (Ranking.rank policy (Corpus.allRecords units)).filter
        fun sighting => sighting.passName? == some name :=
  (Ranking.filter_rankBy policy _ _ _).symm

theorem length_forPass (policy : PrecisionPolicy) (units : List CompilationUnit) (name : String) :
    (Ranking.forPass policy units name).length = (recordsOf units (some name)).length :=
  (Ranking.rank_perm policy _).length_eq

theorem find?_ofUnits (units : List CompilationUnit) (name : Option String) :
    ((ofUnits units).find? (·.name == name)).elim 0 (·.total) =
      (recordsOf units name).length := by
  cases found : (ofUnits units).find? (·.name == name) with
  | none =>
      have unnamed : recordsOf units name = [] := by
        refine List.filter_eq_nil_iff.mpr fun sighting present named => ?_
        obtain ⟨summary, member, isName⟩ := exists_named present
        exact List.find?_eq_none.mp found summary member (isName ▸ named)
      rw [unnamed]
      rfl
  | some summary =>
      have matched := List.find?_some found
      have isName : summary.name = name := eq_of_beq matched
      have isSummary := (mem_ofUnits.mp (List.mem_of_find?_eq_some found)).2
      rw [← isName, isSummary]
      rfl

structure SharesOut (units : List CompilationUnit) (summaries : List PassSummary) : Prop where
  named (name : String) : (∃ summary ∈ summaries, summary.name = some name) ↔
    ∃ sighting ∈ Corpus.allRecords units, ∃ pass, sighting.pass? = some pass ∧ pass.name = name
  nameless : (∃ summary ∈ summaries, summary.name = none) ↔
    ∃ sighting ∈ Corpus.allRecords units, sighting.pass? = none
  passless (wellFormed : ∀ unit ∈ units, unit.WellFormed) :
    ∀ sighting ∈ Corpus.allRecords units, sighting.pass? = none ↔ sighting.record.pass? = none
  ascending : summaries.Pairwise fun left right => left.name < right.name
  totals : (summaries.map (·.total)).sum = (Corpus.allRecords units).length
  topLevels : (summaries.map (·.topLevel)).sum = (Corpus.topLevelRecords units).length
  /-- Whatever their units and their passes are, records are told apart by the name alone. -/
  counted : ∀ summary ∈ summaries,
    summary.total = (Corpus.allRecords units).countP
      (fun sighting => sighting.pass?.map (·.name) == summary.name) ∧
    summary.topLevel = (Corpus.topLevelRecords units).countP
      (fun sighting => sighting.pass?.map (·.name) == summary.name)
  bounds : ∀ summary ∈ summaries, summary.topLevel ≤ summary.total ∧ 1 ≤ summary.total

theorem ofUnits_sharesOut (policy : PrecisionPolicy) (units : List CompilationUnit) :
    SharesOut units (ofUnits units) ∧
    Corpus.topLevelRecords units =
      (Corpus.allRecords units).filter (fun sighting => sighting.depth == 0) ∧
    ∀ name, Ranking.forPass policy units name =
        (Ranking.rank policy (Corpus.allRecords units)).filter
          (fun sighting => sighting.pass?.map (·.name) == some name) ∧
      (Ranking.forPass policy units name).length =
        ((ofUnits units).find? (·.name == some name)).elim 0 (·.total) := by
  refine ⟨⟨?_, ?_, ?_, pairwise_ofUnits units, sum_totals units, sum_topLevels units, ?_, ?_⟩,
    Corpus.topLevelRecords_eq units, fun name => ⟨forPass_eq policy units name, ?_⟩⟩
  · intro name
    rw [exists_name_iff]
    simp only [Sighting.passName?, Option.map_eq_some_iff]
  · rw [exists_name_iff]
    simp only [Sighting.passName?, Option.map_eq_none_iff]
  · intro wellFormed sighting member
    obtain ⟨⟨unit, index⟩, isUnit, inUnit⟩ := List.mem_flatMap.mp member
    obtain ⟨entry, isEntry, rfl⟩ := List.mem_map.mp inUnit
    exact (wellFormed unit (List.fst_mem_of_mem_zipIdx isUnit)).passOf?_eq_none isEntry
  · intro summary member
    rw [(mem_ofUnits.mp member).2]
    refine ⟨List.countP_eq_length_filter.symm, ?_⟩
    rw [Corpus.topLevelRecords_eq, List.countP_filter, ofGroup, recordsOf, List.countP_filter]
    exact List.countP_congr fun sighting _ => by rw [Bool.and_comm]; rfl
  · intro summary member
    obtain ⟨nonempty, isSummary⟩ := mem_ofUnits.mp member
    rw [isSummary]
    exact ⟨List.countP_le_length, List.length_pos_iff.mpr nonempty⟩
  · rw [length_forPass, find?_ofUnits]

def noteOf (pass : Option Nat) (children : List Record) : Record :=
  .remark ⟨.note, pass, none⟩ ⟨none, [], none, none, none⟩ children

def loopUnit : CompilationUnit where
  filename := none
  format := "1"
  generator := ⟨"GNU C17", "", "13.2.0", "x86_64-pc-linux-gnu"⟩
  passes := [⟨"1", "loop", 6, .empty, "gimple", []⟩, ⟨"2", "loop", 7, .empty, "gimple", []⟩]
  rootPasses := [0, 1]
  positions := (NameMap.empty.insert "1" 0).insert "2" 1
  records := [noteOf (some 0) [noteOf (some 1) []], noteOf none []]

theorem noteOf_wellFormed (pass : Option Nat) (children : List Record)
    (bounded : ∀ index, pass = some index → index < 2) : (noteOf pass children).WellFormed 2 where
  pass := bounded
  body := ⟨nofun, nofun⟩
  kind := nofun
  graph := nofun

theorem loopUnit_wellFormed : loopUnit.WellFormed where
  distinctIds := by decide
  located := (Locates.empty.insert List.not_mem_nil).insert (by decide)
  preorder :=
    have second : Visits loopUnit.passes [1] (1 :: [] ++ []) := .visit rfl .done .done
    show Visits loopUnit.passes [0, 1] (0 :: [] ++ [1]) from .visit rfl .done second
  records := by
    rw [CompilationUnit.allRecords_eq]
    have first := noteOf_wellFormed (some 0) [noteOf (some 1) []] (by simp)
    have below := noteOf_wellFormed (some 1) [] (by simp)
    have last := noteOf_wellFormed none [] (by simp)
    exact List.forall_mem_cons.mpr ⟨first, List.forall_mem_cons.mpr ⟨below,
      List.forall_mem_singleton.mpr last⟩⟩

/-- The records of two passes in two units count for one name. -/
theorem loopUnits_sharesOut :
    (∀ unit ∈ [loopUnit, loopUnit], unit.WellFormed) ∧
    ofUnits [loopUnit, loopUnit] = [⟨none, 2, 2⟩, ⟨some "loop", 2, 4⟩] ∧
    ∀ sighting ∈ Corpus.allRecords [loopUnit, loopUnit],
      sighting.pass? = none ↔ sighting.record.pass? = none := by
  have wellFormed : ∀ unit ∈ [loopUnit, loopUnit], unit.WellFormed := by
    simp [loopUnit_wellFormed]
  refine ⟨wellFormed, ?_, (ofUnits_sharesOut .retainAll _).1.passless wellFormed⟩
  rw [ofUnits, Corpus.allRecords_eq]
  rfl

end PassSummary

end RemarkAtlas
