import RemarkAtlas.Proofs.Json.Outlines

/-!
Reading back what was printed.  A value whose objects list their members in ascending order, and
whose containers do not nest too deep, is read from its text as it was.
-/

namespace RemarkAtlas

namespace Members

theorem put_of_above {key : String} {members : Members} (value : Json)
    (above : ∀ member ∈ members, member.1 < key) :
    members.put key value = members ++ [(key, value)] := by
  induction members with
  | nil => rfl
  | cons first rest ih =>
      obtain ⟨before, others⟩ := List.forall_mem_cons.mp above
      have notBefore : ¬ key < first.1 := fun reverse =>
        String.lt_irrefl _ (String.lt_trans before reverse)
      have different : key ≠ first.1 := fun same => notBefore (same ▸ before)
      rw [put] at ih
      rw [put, NameMap.insertEntry, if_neg notBefore, if_neg different, ih others]
      rfl

theorem ofList_of_ascending {members : Members}
    (ascending : members.Pairwise fun left right => left.1 < right.1) :
    ofList members = members := by
  have placed : ∀ first : Members,
      (first ++ members).Pairwise (fun left right => left.1 < right.1) →
      members.foldl (fun placed member => placed.put member.1 member.2) first =
        first ++ members := by
    induction members with
    | nil => exact fun first _ => (List.append_nil first).symm
    | cons member members ih =>
        intro first all
        have above : ∀ earlier ∈ first, earlier.1 < member.1 := fun earlier isEarlier =>
          (List.pairwise_append.mp all).2.2 earlier isEarlier member List.mem_cons_self
        have split_eq : first ++ member :: members = (first ++ [member]) ++ members :=
          List.append_cons first member members
        rw [split_eq] at all ⊢
        rw [List.foldl_cons, put_of_above member.2 above,
          ih (List.pairwise_cons.mp ascending).2 _ all]
  exact placed [] ascending

end Members

namespace Json

/-- Values without doubles and negative numbers that a reader may give: the keys of an object
ascend, and containers nest at most `depth` deep. -/
inductive IsRead : Nat → Json → Prop
  | null (depth : Nat) : IsRead depth .null
  | bool (depth : Nat) (value : Bool) : IsRead depth (.bool value)
  | natural (depth : Nat) {value : Nat} (fits : value < JsonLiteral.wordLimit) :
      IsRead depth (.natural value)
  | string (depth : Nat) (text : String) : IsRead depth (.string text)
  | array {depth : Nat} {items : List Json} (areRead : ∀ item ∈ items, IsRead depth item) :
      IsRead (depth + 1) (.array items)
  | object {depth : Nat} {members : Members}
      (ascending : (members.map Prod.fst).Pairwise (· < ·))
      (areRead : ∀ member ∈ members, IsRead depth member.2) : IsRead (depth + 1) (.object members)

variable {depth : Nat} {value : Json}

theorem IsRead.isPlain (isRead : value.IsRead depth) : value.IsPlain := by
  induction isRead with
  | null _ => exact .null
  | bool _ value => exact .bool value
  | natural _ fits => exact .natural fits
  | string _ text => exact .string text
  | array _ ih => exact .array ih
  | object _ _ ih => exact .object ih

theorem itemsOfOutlines?_outlines {items : List Json}
    (reads : ∀ item ∈ items, ofOutline? depth item.outline = some item) :
    itemsOfOutlines? depth (outlines items) = some items := by
  induction items with
  | nil => rfl
  | cons item items ih =>
      obtain ⟨first, others⟩ := List.forall_mem_cons.mp reads
      rw [outlines, itemsOfOutlines?, first, ih others]

theorem membersOfOutlines?_memberOutlines {members : Members}
    (reads : ∀ member ∈ members, ofOutline? depth member.2.outline = some member.2) :
    membersOfOutlines? depth (memberOutlines members) = some members := by
  induction members with
  | nil => rfl
  | cons member members ih =>
      obtain ⟨first, others⟩ := List.forall_mem_cons.mp reads
      rw [memberOutlines, membersOfOutlines?, JsonString.ofBody?_body, first, ih others]

theorem ofOutline?_outline (isRead : value.IsRead depth) :
    ofOutline? depth value.outline = some value := by
  induction isRead with
  | null _ => rfl
  | bool _ _ => rfl
  | @natural depth value fits =>
      have outline_eq : (Json.natural value).outline = .number (JsonLiteral.ofNat value) := rfl
      rw [outline_eq, ofOutline?, JsonLiteral.value?, JsonLiteral.integer?_ofNat fits]
      rfl
  | string _ text => rw [outline, ofOutline?, JsonString.ofBody?_body, Option.map_some]
  | array _ ih => rw [outline, ofOutline?, itemsOfOutlines?_outlines ih, Option.map_some]
  | object ascending _ ih =>
      rw [outline, ofOutline?, membersOfOutlines?_memberOutlines ih, Option.map_some,
        Members.ofList_of_ascending (List.pairwise_map.mp ascending)]

theorem ofBytes?_pretty (isRead : value.IsRead depthLimit) (level : Nat) :
    Json.ofBytes? (Utf8.encode (value.pretty level)) = some value := by
  rw [Json.ofBytes?, outline?_pretty isRead.isPlain level, Option.bind_some,
    ofOutline?_outline isRead]

end Json

end RemarkAtlas
