import Mathlib.Algebra.GroupWithZero.Nat
import RemarkAtlas.Proofs.Record.Flatten

/-!
Walks against the shape of a forest.  Every record has an address, the positions that lead to it
from the roots; a walk visits the addresses in the order of a dictionary.
-/

namespace RemarkAtlas

namespace Record

def at? : List Record → List Nat → Option Record
  | _, [] => none
  | records, [position] => records[position]?
  | records, position :: next :: below =>
    records[position]?.bind fun record => at? record.children (next :: below)

def ancestors : List Record → List Nat → List Record
  | _, [] => []
  | _, [_] => []
  | records, position :: next :: below =>
    records[position]?.elim [] fun record => record :: ancestors record.children (next :: below)

def moved : List Nat → List Nat
  | [] => []
  | position :: below => (position + 1) :: below

mutual

def addresses : Record → List (List Nat)
  | remark _ _ children => [0] :: (addressesAll children).map (0 :: ·)
  | snapshot _ _ => [[0]]

def addressesAll : List Record → List (List Nat)
  | [] => []
  | record :: rest => addresses record ++ (addressesAll rest).map moved

end

variable {record : Record} {rest records : List Record} {address : List Nat}

theorem addresses_eq (record : Record) :
    addresses record = [0] :: (addressesAll record.children).map (0 :: ·) := by
  cases record <;> rfl

theorem at?_nil (address : List Nat) : at? [] address = none := by
  match address with
  | [] => rfl
  | [_] => rfl
  | _ :: _ :: _ => rfl

theorem at?_below (notEmpty : address ≠ []) :
    at? (record :: rest) (0 :: address) = at? record.children address := by
  cases address with
  | nil => contradiction
  | cons next below => rfl

theorem at?_moved (address : List Nat) : at? (record :: rest) (moved address) = at? rest address := by
  match address with
  | [] => rfl
  | [_] => rfl
  | _ :: _ :: _ => rfl

theorem ancestors_below (notEmpty : address ≠ []) :
    ancestors (record :: rest) (0 :: address) = record :: ancestors record.children address := by
  cases address with
  | nil => contradiction
  | cons next below => rfl

theorem ancestors_moved (address : List Nat) :
    ancestors (record :: rest) (moved address) = ancestors rest address := by
  match address with
  | [] => rfl
  | [_] => rfl
  | _ :: _ :: _ => rfl

theorem mem_addressesAll : address ∈ addressesAll records ↔ (at? records address).isSome := by
  induction records using forestInduction generalizing address with
  | nil => simp [addressesAll, at?_nil]
  | cons record rest ihBelow ihRest =>
      rw [addressesAll, addresses_eq, List.cons_append, List.mem_cons, List.mem_append,
        List.mem_map, List.mem_map]
      -- The first position tells in which part of the listing an address would stand.
      match address with
      | [] =>
          have noRoot : [] ∉ addressesAll rest := by simp [ihRest, at?]
          suffices ¬∃ other ∈ addressesAll rest, moved other = [] by simpa [at?]
          rintro ⟨other, member, isEmpty⟩
          cases other with
          | nil => exact noRoot member
          | cons position below => cases isEmpty
      | [0] => simp [at?]
      | 0 :: next :: below =>
          rw [at?_below (List.cons_ne_nil _ _), ← ihBelow]
          constructor
          · rintro (isFirst | ⟨other, member, isBelow⟩ | ⟨other, member, isMoved⟩)
            · cases isFirst
            · rwa [← List.tail_eq_of_cons_eq isBelow]
            · cases other <;> cases isMoved
          · intro member
            exact Or.inr (Or.inl ⟨_, member, rfl⟩)
      | (position + 1) :: below =>
          have isMoved : (position + 1) :: below = moved (position :: below) := rfl
          rw [isMoved, at?_moved, ← ihRest]
          constructor
          · rintro (isFirst | ⟨other, member, isBelow⟩ | ⟨other, member, same⟩)
            · cases isFirst
            · cases isBelow
            · cases other with
              | nil => cases same
              | cons first others =>
                  cases same
                  exact member
          · intro member
            exact Or.inr (Or.inr ⟨_, member, rfl⟩)

theorem ne_nil_of_mem_addressesAll (member : address ∈ addressesAll records) : address ≠ [] := by
  rintro rfl
  have found := mem_addressesAll.mp member
  cases records <;> cases found

theorem precedes_moved {left right : List Nat} (before : List.Lex (· < ·) left right) :
    List.Lex (· < ·) (moved left) (moved right) := by
  cases before with
  | nil => exact .nil
  | rel smaller => exact .rel (Nat.succ_lt_succ smaller)
  | cons later => exact .cons later

theorem pairwise_addressesAll (records : List Record) :
    (addressesAll records).Pairwise (List.Lex (· < ·)) := by
  induction records using forestInduction with
  | nil => exact .nil
  | cons record rest ihBelow ihRest =>
      rw [addressesAll, addresses_eq]
      have below : ((addressesAll record.children).map (0 :: ·)).Pairwise (List.Lex (· < ·)) :=
        List.pairwise_map.mpr (ihBelow.imp .cons)
      have later : ((addressesAll rest).map moved).Pairwise (List.Lex (· < ·)) :=
        List.pairwise_map.mpr (ihRest.imp precedes_moved)
      have first : ([0] :: (addressesAll record.children).map (0 :: ·)).Pairwise
          (List.Lex (· < ·)) := by
        refine List.pairwise_cons.mpr ⟨?_, below⟩
        intro address member
        obtain ⟨other, isBelow, rfl⟩ := List.mem_map.mp member
        obtain ⟨next, others, rfl⟩ := List.exists_cons_of_ne_nil (ne_nil_of_mem_addressesAll isBelow)
        exact .cons .nil
      refine List.pairwise_append.mpr ⟨first, later, ?_⟩
      intro left isLeft right isRight
      obtain ⟨other, isLater, rfl⟩ := List.mem_map.mp isRight
      obtain ⟨next, others, rfl⟩ := List.exists_cons_of_ne_nil (ne_nil_of_mem_addressesAll isLater)
      obtain ⟨leftBelow, rfl⟩ : ∃ leftBelow, left = 0 :: leftBelow := by
        rcases List.mem_cons.mp isLeft with rfl | isBelow
        · exact ⟨_, rfl⟩
        · obtain ⟨address, _, rfl⟩ := List.mem_map.mp isBelow
          exact ⟨_, rfl⟩
      exact .rel (Nat.succ_pos next)

/-- The depths in a listing count the records above each record. -/
theorem map_addressesAll (depth : Nat) (records : List Record) :
    (addressesAll records).map (fun address =>
        (depth + (ancestors records address).length, at? records address)) =
      (flattenAll depth records).map fun entry => (entry.1, some entry.2) := by
  induction records using forestInduction generalizing depth with
  | nil => rfl
  | cons record rest ihBelow ihRest =>
      rw [addressesAll, addresses_eq, flattenAll, Walk.flatten_eq, List.map_append, List.map_append,
        List.map_cons, List.map_cons, ← ihBelow, ← ihRest, List.map_map, List.map_map]
      refine congrArg₂ (· ++ ·) (congrArg _ (List.map_congr_left fun address member => ?_))
        (List.map_congr_left fun address _ => ?_)
      · have notEmpty := ne_nil_of_mem_addressesAll member
        simp only [Function.comp_apply, ancestors_below notEmpty, at?_below notEmpty,
          List.length_cons]
        rw [Nat.add_right_comm, Nat.add_assoc]
      · simp only [Function.comp_apply, ancestors_moved, at?_moved]

theorem length_flattenAll (depth : Nat) (records : List Record) :
    (flattenAll depth records).length = (addressesAll records).length := by
  have listed := congrArg List.length (map_addressesAll depth records)
  rw [List.length_map, List.length_map] at listed
  exact listed.symm

end Record

namespace Walk

def after (walk : Walk) : Nat → Walk
  | 0 => walk
  | count + 1 => walk.next.2.after count

theorem nextOf_eq_nil {pending outer : List (List Record)} (ended : nextOf pending = (none, outer)) :
    outer = [] := by
  induction pending with
  | nil => exact (Prod.mk.inj ended).2.symm
  | cons siblings outer ih =>
      cases siblings with
      | nil => exact ih ended
      | cons record siblings => cases (Prod.mk.inj ended).1

/-- A call takes the first record off those that are still to be visited, if there is one. -/
theorem listing_next (walk : Walk) : listing walk.next.2.pending = (listing walk.pending).tail := by
  cases step : walk.next with
  | mk visited rest =>
      cases visited with
      | some record => rw [listing_of_next step, List.tail_cons]
      | none =>
          have ended := nextOf_of_next step
          rw [listing_of_nextOf_none ended, nextOf_eq_nil ended]
          rfl

theorem head?_listing (walk : Walk) :
    (listing walk.pending).head? = walk.next.1.map fun record => (walk.next.2.depth, record) := by
  cases step : walk.next with
  | mk visited rest =>
      cases visited with
      | some record => rw [listing_of_next step, List.head?_cons, Option.map_some]
      | none =>
          rw [listing_of_nextOf_none (nextOf_of_next step)]
          rfl

theorem getElem?_listing (walk : Walk) (count : Nat) :
    (listing walk.pending)[count]? = (walk.after count).next.1.map fun record =>
      ((walk.after count).next.2.depth, record) := by
  induction count generalizing walk with
  | zero => rw [← List.head?_eq_getElem?, head?_listing, after]
  | succ count ih =>
      rw [← List.getElem?_tail, ← listing_next, ih]
      rfl

structure Visits (roots : List Record) (addresses : List (List Nat)) : Prop where
  complete (address : List Nat) : address ∈ addresses ↔ (Record.at? roots address).isSome
  ascending : addresses.Pairwise (List.Lex (· < ·))
  visited (count : Nat) :
    ((start roots).after count).next.1 = addresses[count]?.bind (Record.at? roots)
  ended (count : Nat) (enough : addresses.length ≤ count) :
    ((start roots).after count).next.1 = none
  depth (count : Nat) (address : List Nat) (isNext : addresses[count]? = some address) :
    ((start roots).after count).next.2.depth = (Record.ancestors roots address).length
  flattened : (Record.flattenAll 0 roots).map (fun entry => (entry.1, some entry.2)) =
    addresses.map fun address =>
      ((Record.ancestors roots address).length, Record.at? roots address)

theorem start_visits (roots : List Record) : Visits roots (Record.addressesAll roots) := by
  have flattened := Record.map_addressesAll 0 roots
  simp only [Nat.zero_add] at flattened
  -- One more call finds the record at the next address, as deep as there are records above it.
  have calls (count : Nat) : (Record.addressesAll roots)[count]?.map (fun address =>
      ((Record.ancestors roots address).length, Record.at? roots address)) =
        ((start roots).after count).next.1.map fun record =>
          (((start roots).after count).next.2.depth, some record) := by
    have listed := getElem?_listing (start roots) count
    rw [← visit_eq_listing, visit_start] at listed
    rw [← List.getElem?_map, flattened, List.getElem?_map, listed, Option.map_map]
    rfl
  have visited (count : Nat) : ((start roots).after count).next.1 =
      (Record.addressesAll roots)[count]?.bind (Record.at? roots) := by
    have call := calls count
    cases next : ((start roots).after count).next.1 with
    | none =>
        rw [next, Option.map_none, Option.map_eq_none_iff] at call
        rw [call, Option.bind_none]
    | some record =>
        rw [next, Option.map_some, Option.map_eq_some_iff] at call
        obtain ⟨address, isNext, same⟩ := call
        rw [isNext, Option.bind_some, (Prod.mk.inj same).2]
  exact {
    complete := fun _ => Record.mem_addressesAll
    ascending := Record.pairwise_addressesAll roots
    visited := visited
    ended := fun count enough => by rw [visited, List.getElem?_eq_none enough, Option.bind_none]
    depth := fun count address isNext => by
      have call := calls count
      rw [isNext, Option.map_some] at call
      obtain ⟨record, _, same⟩ := Option.map_eq_some_iff.mp call.symm
      exact (Prod.mk.inj same).1
    flattened := flattened.symm }

end Walk

namespace Record

theorem length_flattenAll_eq_sum (records : List Record) :
    (flattenAll 0 records).length =
      (records.map fun record => 1 + record.descendants.length).sum := by
  induction records with
  | nil => rfl
  | cons record rest ih =>
      have below : (flattenAll (0 + 1) record.children).length = record.descendants.length := by
        rw [descendants, Walk.visit_start, length_flattenAll, length_flattenAll]
      rw [flattenAll, Walk.flatten_eq, List.cons_append, List.length_cons, List.length_append, below,
        ih, List.map_cons, List.sum_cons]
      omega

end Record

theorem Walk.start_visitsPreorder (roots : List Record) (record : Record) (unit : CompilationUnit)
    (units : List CompilationUnit) :
    Visits roots (Record.addressesAll roots) ∧
    record.descendants = Record.flattenAll 0 record.children ∧
    unit.allRecords = Record.flattenAll 0 unit.records ∧
    Corpus.allRecords units = units.zipIdx.flatMap (fun indexed =>
      Corpus.sightings indexed.2 indexed.1 (Record.flattenAll 0 indexed.1.records)) ∧
    unit.allRecords.length =
      (unit.records.map fun record => 1 + record.descendants.length).sum := by
  refine ⟨start_visits roots, visit_start record.children, unit.allRecords_eq,
    Corpus.allRecords_eq units, ?_⟩
  rw [unit.allRecords_eq, Record.length_flattenAll_eq_sum]

end RemarkAtlas
