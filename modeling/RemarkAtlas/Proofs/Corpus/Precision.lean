import RemarkAtlas.Proofs.Corpus.Reconciliation

/-!
Reconciling a list of counts: one measured count decides for all entries, and then each entry is
kept or dropped on its own, so neither the order of the list nor a second pass makes a difference.
-/

namespace RemarkAtlas

def Count.IsMeasured (count : Count) : Prop :=
  count.quality = "precise" ∨ count.quality = "adjusted"

theorem Count.isPrecise_iff {count : Count} : count.isPrecise = true ↔ count.IsMeasured := by
  simp [isPrecise, preciseQualities, IsMeasured]

def Corpus.entriesAt {Entry : Type} (order : List Nat) (entries : List Entry) : List Entry :=
  order.filterMap fun position => entries[position]?

theorem Corpus.mem_entriesAt {Entry : Type} {order : List Nat} {entries : List Entry}
    (perm : order.Perm (List.range entries.length)) {entry : Entry} :
    entry ∈ entriesAt order entries ↔ entry ∈ entries := by
  rw [entriesAt, List.mem_filterMap, List.mem_iff_getElem?]
  constructor
  · rintro ⟨position, _, found⟩
    exact ⟨position, found⟩
  · rintro ⟨position, found⟩
    obtain ⟨bound, _⟩ := List.getElem?_eq_some_iff.mp found
    exact ⟨position, perm.mem_iff.mpr (List.mem_range.mpr bound), found⟩

namespace PrecisionPolicy

variable {counts others : List (Option Count)}

theorem effective_of_retaining {policy : PrecisionPolicy} (retains : policy.preciseOnly = false)
    (count : Option Count) : policy.effective count = count := by
  refine Option.ext fun value => ?_
  rw [effective_eq_some, retains]
  simp

/-- The policy of a list is decided by the measured counts in it, wherever they stand. -/
theorem ofCounts_congr
    (sameMeasured : ∀ count : Count, count.isPrecise = true →
      (some count ∈ counts ↔ some count ∈ others)) :
    ofCounts (counts.filterMap id) = ofCounts (others.filterMap id) := by
  have sameChoice : (ofCounts (counts.filterMap id)).preciseOnly = true ↔
      (ofCounts (others.filterMap id)).preciseOnly = true := by
    rw [preciseOnly_ofCounts, preciseOnly_ofCounts]
    refine exists_congr fun count => ?_
    constructor
    · rintro ⟨member, isPrecise⟩
      exact ⟨(sameMeasured count isPrecise).mp member, isPrecise⟩
    · rintro ⟨member, isPrecise⟩
      exact ⟨(sameMeasured count isPrecise).mpr member, isPrecise⟩
  exact congrArg mk (Bool.eq_iff_iff.mpr sameChoice)

theorem getElem?_reconcile {position : Nat} :
    (reconcile counts)[position]? =
      counts[position]?.map (ofCounts (counts.filterMap id)).effective :=
  List.getElem?_map

theorem mem_reconcile {count : Count} :
    some count ∈ reconcile counts ↔ some count ∈ counts ∧
      ((ofCounts (counts.filterMap id)).preciseOnly = true → count.isPrecise = true) := by
  rw [reconcile, List.mem_map]
  simp only [effective_eq_some]
  constructor
  · rintro ⟨_, member, rfl, kept⟩
    exact ⟨member, kept⟩
  · rintro ⟨member, kept⟩
    exact ⟨some count, member, rfl, kept⟩

theorem ofCounts_reconcile :
    ofCounts ((reconcile counts).filterMap id) = ofCounts (counts.filterMap id) := by
  refine ofCounts_congr fun count isPrecise => ?_
  rw [mem_reconcile]
  exact and_iff_left fun _ => isPrecise

theorem reconcile_reconcile : reconcile (reconcile counts) = reconcile counts := by
  have policy_eq := @ofCounts_reconcile counts
  rw [reconcile, policy_eq, reconcile, List.map_map]
  exact List.map_congr_left fun count _ => effective_effective id count

theorem reconcile_entriesAt {order : List Nat} (perm : order.Perm (List.range counts.length)) :
    reconcile (Corpus.entriesAt order counts) = Corpus.entriesAt order (reconcile counts) := by
  have policy_eq : ofCounts ((Corpus.entriesAt order counts).filterMap id) =
      ofCounts (counts.filterMap id) :=
    ofCounts_congr fun _ _ => Corpus.mem_entriesAt perm
  rw [reconcile, policy_eq, Corpus.entriesAt, Corpus.entriesAt, List.map_filterMap]
  simp only [getElem?_reconcile]

theorem reconcile_allOrNothing (counts : List (Option Count)) :
    (reconcile counts).length = counts.length ∧
    (∀ (position : Nat) (entry : Option Count), (reconcile counts)[position]? = some entry →
      counts[position]? = some entry ∨ entry = none) ∧
    ((∃ count, some count ∈ counts ∧ count.IsMeasured) → ∀ (position : Nat) (count : Count),
      (reconcile counts)[position]? = some (some count) ↔
        counts[position]? = some (some count) ∧ count.IsMeasured) ∧
    ((¬∃ count, some count ∈ counts ∧ count.IsMeasured) → reconcile counts = counts) ∧
    reconcile (reconcile counts) = reconcile counts ∧
    (∀ order : List Nat, order.Perm (List.range counts.length) →
      reconcile (Corpus.entriesAt order counts) = Corpus.entriesAt order (reconcile counts)) ∧
    ofCounts ((reconcile counts).filterMap id) = ofCounts (counts.filterMap id) := by
  have decided : (ofCounts (counts.filterMap id)).preciseOnly = true ↔
      ∃ count, some count ∈ counts ∧ count.IsMeasured := by
    simp only [preciseOnly_ofCounts, Count.isPrecise_iff]
  refine ⟨List.length_map _, ?_, ?_, ?_, reconcile_reconcile, fun _ => reconcile_entriesAt,
    ofCounts_reconcile⟩
  · intro position entry found
    rw [getElem?_reconcile, Option.map_eq_some_iff] at found
    obtain ⟨original, isOriginal, rfl⟩ := found
    cases kept : (ofCounts (counts.filterMap id)).effective original with
    | none => exact Or.inr rfl
    | some count => exact Or.inl ((effective_eq_some.mp kept).1 ▸ isOriginal)
  · intro hasMeasured position count
    rw [getElem?_reconcile, Option.map_eq_some_iff]
    simp only [effective_eq_some, decided.mpr hasMeasured, Count.isPrecise_iff, true_implies]
    constructor
    · rintro ⟨_, found, rfl, isMeasured⟩
      exact ⟨found, isMeasured⟩
    · rintro ⟨found, isMeasured⟩
      exact ⟨some count, found, rfl, isMeasured⟩
  · intro noneMeasured
    have retains : (ofCounts (counts.filterMap id)).preciseOnly = false :=
      Bool.eq_false_iff.mpr fun precise => noneMeasured (decided.mp precise)
    rw [reconcile]
    exact (List.map_congr_left fun count _ => effective_of_retaining retains count).trans
      (List.map_id counts)

/-- One measured count more makes all the guessed ones disappear. -/
example :
    let guessed : Option Count := some ⟨"guessed", 100⟩
    let measured : Option Count := some ⟨"adjusted", 7⟩
    reconcile [guessed, none, guessed] = [guessed, none, guessed] ∧
      reconcile [guessed, none, guessed, measured] = [none, none, none, measured] := by
  decide

end PrecisionPolicy

end RemarkAtlas
