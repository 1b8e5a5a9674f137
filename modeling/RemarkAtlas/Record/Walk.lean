import RemarkAtlas.Record.Basic

/-!
Walking through a forest of records step by step, parents before children.  A walk keeps what is
still to be visited at each depth; run to its end it lists the forest as `Record.flattenAll` does.
-/

namespace RemarkAtlas

/-- A walk under way.  The lists hold the siblings that are still to be visited, those at the
greatest depth first; the first list belongs to the children of the record visited last. -/
structure Walk where
  pending : List (List Record)

namespace Walk

def start (roots : List Record) : Walk := ⟨[roots]⟩

def depth (walk : Walk) : Nat := walk.pending.length - 2

def nextOf : List (List Record) → Option Record × List (List Record)
  | [] => (none, [])
  | [] :: outer => nextOf outer
  | (record :: siblings) :: outer => (some record, record.children :: siblings :: outer)

def next (walk : Walk) : Option Record × Walk :=
  let (record, pending) := nextOf walk.pending
  (record, ⟨pending⟩)

def listing : List (List Record) → List (Nat × Record)
  | [] => []
  | siblings :: outer => Record.flattenAll outer.length siblings ++ listing outer

theorem flatten_eq (depth : Nat) (record : Record) :
    record.flatten depth = (depth, record) :: Record.flattenAll (depth + 1) record.children := by
  cases record <;> simp [Record.flatten, Record.children, Record.flattenAll]

theorem listing_of_nextOf_none {pending after : List (List Record)}
    (ended : nextOf pending = (none, after)) : listing pending = [] := by
  induction pending with
  | nil => rfl
  | cons siblings outer ih =>
    cases siblings with
    | nil => simpa [listing, Record.flattenAll] using ih ended
    | cons record siblings => simp [nextOf] at ended

theorem listing_of_nextOf_some {pending after : List (List Record)} {record : Record}
    (visited : nextOf pending = (some record, after)) :
    listing pending = (after.length - 2, record) :: listing after := by
  induction pending with
  | nil => simp [nextOf] at visited
  | cons siblings outer ih =>
    cases siblings with
    | nil => simpa [listing, Record.flattenAll] using ih visited
    | cons first siblings =>
      simp only [nextOf, Prod.mk.injEq, Option.some.injEq] at visited
      obtain ⟨rfl, rfl⟩ := visited
      simp [listing, Record.flattenAll, flatten_eq]

theorem nextOf_of_next {walk after : Walk} {record : Option Record}
    (step : walk.next = (record, after)) : nextOf walk.pending = (record, after.pending) := by
  simp only [next, Prod.mk.injEq] at step
  exact Prod.ext step.1 (congrArg Walk.pending step.2)

theorem listing_of_next {walk after : Walk} {record : Record}
    (step : walk.next = (some record, after)) :
    listing walk.pending = (after.depth, record) :: listing after.pending :=
  listing_of_nextOf_some (nextOf_of_next step)

def visit (walk : Walk) : List (Nat × Record) :=
  match step : walk.next with
  | (some record, after) =>
    have shorter : (listing after.pending).length < (listing walk.pending).length := by
      simp [listing_of_next step]
    (after.depth, record) :: visit after
  | (none, _) => []
termination_by (listing walk.pending).length

theorem visit_eq_listing (walk : Walk) : walk.visit = listing walk.pending := by
  fun_induction visit walk with
  | case1 walk record after step shorter ih => rw [listing_of_next step, ih]
  | case2 walk after step => exact (listing_of_nextOf_none (nextOf_of_next step)).symm

theorem visit_start (roots : List Record) : (start roots).visit = Record.flattenAll 0 roots := by
  simp [visit_eq_listing, start, listing]

end Walk

namespace Record

def descendants (record : Record) : List (Nat × Record) := (Walk.start record.children).visit

end Record

end RemarkAtlas
