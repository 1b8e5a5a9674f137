import RemarkAtlas.Proofs.Corpus.Views

/-!
Looking at a corpus through its precision policy comes to the same as taking the counts that the
policy ignores out of the corpus.
-/

namespace RemarkAtlas

namespace PrecisionPolicy

variable {policy other : PrecisionPolicy}

theorem ofUnits_eq (units : List CompilationUnit) :
    ofUnits units = ofCounts ((Corpus.counts units).filterMap id) := by
  rw [ofUnits, Corpus.counts, List.filterMap_map]
  rfl

theorem preciseOnly_ofCounts {counts : List (Option Count)} :
    (ofCounts (counts.filterMap id)).preciseOnly = true ↔
      ∃ count, some count ∈ counts ∧ count.isPrecise = true := by
  simp only [ofCounts, List.any_eq_true, List.mem_filterMap, id]
  constructor
  · rintro ⟨count, ⟨_, member, rfl⟩, isPrecise⟩
    exact ⟨count, member, isPrecise⟩
  · rintro ⟨count, member, isPrecise⟩
    exact ⟨count, ⟨some count, member, rfl⟩, isPrecise⟩

theorem preciseOnly_ofUnits (units : List CompilationUnit) :
    (ofUnits units).preciseOnly = true ↔
      ∃ count, some count ∈ Corpus.counts units ∧ count.isPrecise = true := by
  rw [ofUnits_eq, preciseOnly_ofCounts]

theorem effective_eq_some {count : Option Count} {value : Count} :
    policy.effective count = some value ↔
      count = some value ∧ (policy.preciseOnly = true → value.isPrecise = true) := by
  rw [effective, Option.filter_eq_some_iff]
  cases policy.preciseOnly <;> simp

/-- A policy that is no stricter than another ignores none of the counts that the other uses. -/
theorem effective_effective (noStricter : other.preciseOnly = true → policy.preciseOnly = true)
    (count : Option Count) : other.effective (policy.effective count) = policy.effective count := by
  refine Option.ext ?_
  intro value
  rw [effective_eq_some, effective_eq_some]
  constructor
  · rintro ⟨used, _⟩
    exact used
  · intro used
    exact ⟨used, fun strict => used.2 (noStricter strict)⟩

theorem sameHotness_effective
    (noStricter : other.preciseOnly = true → policy.preciseOnly = true) :
    SameHotness policy other policy.effective := by
  intro record
  rw [hotness, hotness, Record.count?_mapCounts rfl, effective_effective noStricter]

end PrecisionPolicy

namespace Corpus

def reconciled (units : List CompilationUnit) : List CompilationUnit :=
  withCounts (PrecisionPolicy.reconcile (counts units)) units

theorem reconcile_counts (units : List CompilationUnit) :
    PrecisionPolicy.reconcile (counts units) =
      (counts units).map (PrecisionPolicy.ofUnits units).effective := by
  rw [PrecisionPolicy.ofUnits_eq]
  rfl

theorem reconciled_eq (units : List CompilationUnit) :
    reconciled units = units.map (·.mapCounts (PrecisionPolicy.ofUnits units).effective) := by
  rw [reconciled, reconcile_counts, withCounts_map_counts]

theorem counts_reconciled (units : List CompilationUnit) :
    counts (reconciled units) = PrecisionPolicy.reconcile (counts units) := by
  rw [reconciled_eq, counts_mapCounts rfl, reconcile_counts]

/-- Reconciling leaves no precise count that was not there before. -/
theorem noStricter_reconciled (units : List CompilationUnit)
    (precise : (PrecisionPolicy.ofUnits (reconciled units)).preciseOnly = true) :
    (PrecisionPolicy.ofUnits units).preciseOnly = true := by
  obtain ⟨count, member, isPrecise⟩ := (PrecisionPolicy.preciseOnly_ofUnits _).mp precise
  rw [counts_reconciled, reconcile_counts, List.mem_map] at member
  obtain ⟨original, originalMember, kept⟩ := member
  obtain ⟨rfl, _⟩ := PrecisionPolicy.effective_eq_some.mp kept
  exact (PrecisionPolicy.preciseOnly_ofUnits _).mpr ⟨count, originalMember, isPrecise⟩

theorem sameViews_reconciled (units : List CompilationUnit) :
    (∀ index : Nat, (PrecisionPolicy.reconcile (counts units))[index]? =
      (counts units)[index]?.map (PrecisionPolicy.ofUnits units).effective) ∧
    counts (reconciled units) = PrecisionPolicy.reconcile (counts units) ∧
    SameViews (.ofUnits units) units .retainAll (reconciled units) ∧
    SameViews (.ofUnits units) units (.ofUnits (reconciled units)) (reconciled units) := by
  refine ⟨?_, counts_reconciled units, ?_, ?_⟩
  · intro index
    rw [reconcile_counts, List.getElem?_map]
  · rw [reconciled_eq]
    have noStricter : PrecisionPolicy.retainAll.preciseOnly = true →
        (PrecisionPolicy.ofUnits units).preciseOnly = true := by
      simp [PrecisionPolicy.retainAll]
    exact sameViews_mapCounts (PrecisionPolicy.sameHotness_effective noStricter) units
  -- The policy is decided anew on the changed corpus; all that is needed is that it is no stricter.
  · have noStricter := noStricter_reconciled units
    rw [reconciled_eq] at noStricter ⊢
    exact sameViews_mapCounts (PrecisionPolicy.sameHotness_effective noStricter) units

end Corpus

end RemarkAtlas
