/-
CriteriaSql/Proofs/Criteria/Listed.lean

Criteria that are written as JSON again.

Reading takes the members `or` and `and` of an object for groups, and a single
object there for a group with one branch; writing makes a list of every group.
So what is written is the object that was read, with these single objects put
into lists, at any depth of groups (`Json.listed`).  The value of a predicate
stays as it is, whatever its own members are called.

The names in an object are distinct, and so are those in its branches
(`Json.DistinctNames`): two entries of one name would be written as one member.
This is all that is used of an object that can be read.

Main result: `toJson_rereads`.
-/
import CriteriaSql.Proofs.Criteria.Documents
import CriteriaSql.Proofs.Criteria.Faults

namespace CriteriaSql

namespace Json

/-! ### Groups as lists -/

mutual

/-- The members of criteria with every group as a list. -/
def listed : Members → Members
  | [] => []
  | (name, value) :: members =>
    (name, if name = "or" ∨ name = "and" then listedGroup value else value) :: listed members

/-- The value of a group as a list; an object is its only branch. -/
def listedGroup : Json → Json
  | .obj members => .arr [.obj (listed members)]
  | .arr items => .arr (listedItems items)
  | value => value

/-- The branches of a group. -/
def listedItems : List Json → List Json
  | [] => []
  | .obj members :: items => .obj (listed members) :: listedItems items
  | item :: items => item :: listedItems items

end

theorem names_listed (members : Members) : Members.names (listed members) = members.names := by
  induction members with
  | nil => rw [listed]
  | cons m members ih =>
    show m.1 :: Members.names (listed members) = _
    rw [ih]
    rfl

/-! ### Distinct names -/

/-- The names in an object are distinct, and so are those in the branches of its
groups, at any depth. -/
inductive DistinctNames : Members → Prop
  | nil : DistinctNames []
  | cons {name : String} {value : Json} {members : Members} (hnew : name ∉ members.names)
      (hbranches : name = "or" ∨ name = "and" →
        ∀ branch, Branch value branch → DistinctNames branch)
      (h : DistinctNames members) : DistinctNames ((name, value) :: members)

theorem DistinctNames.nodup {members : Members} (h : DistinctNames members) :
    members.names.Nodup := by
  induction members with
  | nil => exact List.nodup_nil
  | cons m members ih =>
    cases h with
    | cons hnew _ h => exact List.nodup_cons.mpr ⟨hnew, ih h⟩

end Json

open Json (Branch DistinctNames listed listedGroup listedItems names_listed)

theorem Connective.ofName?_eq_some {name : String} {connective : Connective}
    (h : Connective.ofName? name = some connective) :
    (name = "or" ∨ name = "and") ∧ connective.name = name := by
  unfold Connective.ofName? at h
  split at h
  · next hor =>
    obtain rfl := Option.some.inj h
    exact ⟨.inl hor, hor.symm⟩
  · split at h
    · next hand =>
      obtain rfl := Option.some.inj h
      exact ⟨.inr hand, hand.symm⟩
    · cases h

namespace Criteria

/-! ### What is written -/

/-- Entries that stand for members with distinct names are written as these. -/
theorem membersAfter_nil_of_map {criteria : Criteria} {members : Members}
    (hnames : members.names.Nodup) (h : criteria.map memberOf = listed members) :
    membersAfter [] criteria = listed members := by
  have hnodup : (Members.names [] ++ Members.names (listed members)).Nodup := by
    rw [names_listed]
    exact hnames
  rw [membersAfter_eq, h, Members.insertAll_of_disjoint hnodup, List.nil_append]

mutual

/-- Each entry is written as the member that it was read from, with its groups
as lists. -/
theorem map_memberOf_of_ofMembers : ∀ (members : Members) {criteria : Criteria},
    DistinctNames members → ofMembers members = .ok criteria →
      criteria.map memberOf = listed members
  | [], _, _, h => by
    obtain rfl := Except.ok.inj h
    rw [listed, List.map_nil]
  | (name, value) :: members, criteria, .cons _ hbranches hnames, h => by
    rw [ofMembers] at h
    rw [listed]
    rcases hname : Connective.ofName? name with - | connective
    · -- a predicate is its key and value
      rw [hname] at h
      obtain ⟨entries, hentries, h⟩ := bind_eq_ok_iff.mp h
      obtain rfl := Except.ok.inj h
      rw [if_neg (Connective.ofName?_eq_none_iff.mp hname), List.map_cons,
        map_memberOf_of_ofMembers members hnames hentries, memberOf]
    · rw [hname] at h
      obtain ⟨hgroup, hwritten⟩ := Connective.ofName?_eq_some hname
      obtain ⟨branches, hread, h⟩ := bind_eq_ok_iff.mp h
      obtain ⟨entries, hentries, h⟩ := bind_eq_ok_iff.mp h
      obtain rfl := Except.ok.inj h
      rw [if_pos hgroup, List.map_cons, map_memberOf_of_ofMembers members hnames hentries,
        memberOf, hwritten, arr_branchValues_of_branchesOf value (hbranches hgroup) hread]

theorem arr_branchValues_of_branchesOf {connective : Connective} :
    ∀ (value : Json) {branches : List Criteria},
      (∀ branch, Branch value branch → DistinctNames branch) →
      branchesOf connective value = .ok branches →
        .arr (branchValues branches) = listedGroup value
  | .arr items, branches, hnames, h => by
    rw [listedGroup, branchValues_of_branchItems items (fun members hmem =>
      hnames members (.item hmem)) h]
  | .obj members, branches, hnames, h => by
    obtain ⟨entries, hentries, h⟩ := bind_eq_ok_iff.mp h
    obtain rfl := Except.ok.inj h
    have hmembers := hnames members (.single members)
    rw [listedGroup, branchValues, branchValues,
      membersAfter_nil_of_map hmembers.nodup (map_memberOf_of_ofMembers members hmembers hentries)]
  | .null, _, _, h | .bool _, _, _, h | .num _, _, _, h | .str _, _, _, h => by cases h

theorem branchValues_of_branchItems {connective : Connective} :
    ∀ (items : List Json) {branches : List Criteria},
      (∀ members, .obj members ∈ items → DistinctNames members) →
      branchItems connective items = .ok branches → branchValues branches = listedItems items
  | [], _, _, h => by
    obtain rfl := Except.ok.inj h
    rw [branchValues, listedItems]
  | .obj members :: items, branches, hnames, h => by
    obtain ⟨entries, hentries, h⟩ := bind_eq_ok_iff.mp h
    obtain ⟨rest, hrest, h⟩ := bind_eq_ok_iff.mp h
    obtain rfl := Except.ok.inj h
    have hmembers := hnames members List.mem_cons_self
    rw [branchValues, listedItems,
      membersAfter_nil_of_map hmembers.nodup (map_memberOf_of_ofMembers members hmembers hentries),
      branchValues_of_branchItems items (fun members hmem =>
        hnames members (List.mem_cons_of_mem _ hmem)) hrest]
  | .null :: _, _, _, h | .bool _ :: _, _, _, h | .num _ :: _, _, _, h | .str _ :: _, _, _, h
  | .arr _ :: _, _, _, h => by cases h

end

/-! ### What is read again -/

mutual

/-- Groups as lists are read as they were. -/
theorem ofMembers_listed : ∀ members : Members, ofMembers (listed members) = ofMembers members
  | [] => by rw [listed]
  | (name, value) :: members => by
    rw [listed, ofMembers, ofMembers, ofMembers_listed members]
    rcases hname : Connective.ofName? name with - | connective
    · rw [if_neg (Connective.ofName?_eq_none_iff.mp hname)]
    · rw [if_pos (Connective.ofName?_eq_some hname).1]
      dsimp only
      rw [branchesOf_listedGroup connective value]

theorem branchesOf_listedGroup (connective : Connective) :
    ∀ value : Json, branchesOf connective (listedGroup value) = branchesOf connective value
  | .arr items => by
    rw [listedGroup, branchesOf, branchesOf, branchItems_listedItems connective items]
  | .obj members => by
    rw [listedGroup, branchesOf, branchesOf, branchItems, ofMembers_listed members]
    rfl
  | .null | .bool _ | .num _ | .str _ => by rw [listedGroup] <;> exact fun _ h => nomatch h

theorem branchItems_listedItems (connective : Connective) :
    ∀ items : List Json, branchItems connective (listedItems items) = branchItems connective items
  | [] => by rw [listedItems]
  | .obj members :: items => by
    rw [listedItems, branchItems, branchItems, ofMembers_listed members,
      branchItems_listedItems connective items]
  | .null :: _ | .bool _ :: _ | .num _ :: _ | .str _ :: _ | .arr _ :: _ => by rfl

end

/-! ### Main result -/

/-- Criteria that were read from an object are written as this object, member by
member, except that groups which are single objects become lists; and what is
written is read as the same criteria. -/
theorem toJson_rereads (members : Members) (hnames : DistinctNames members)
    (criteria : Criteria) (h : ofJson (.obj members) = .ok criteria) :
    criteria.toJson = .obj (listed members) ∧ ofJson criteria.toJson = .ok criteria := by
  have hwritten : criteria.toJson = .obj (listed members) := by
    rw [toJson, membersAfter_nil_of_map hnames.nodup (map_memberOf_of_ofMembers members hnames h)]
  refine ⟨hwritten, ?_⟩
  rw [hwritten, ofJson, ofMembers_listed]
  exact h

/-- A group inside a group, each a single object, beside a predicate whose value
has a member `or` of its own. -/
theorem toJson_rereads_nested :
    ∃ criteria : Criteria,
      ofJson (.obj [("or", .obj [("x", .ofNat 1), ("and", .obj [("y", .ofNat 2)])]),
        ("z", .obj [("or", .obj [("w", .ofNat 3)])])]) = .ok criteria
      ∧ criteria.toJson = .obj
        [("or", .arr [.obj [("x", .ofNat 1), ("and", .arr [.obj [("y", .ofNat 2)]])]]),
          ("z", .obj [("or", .obj [("w", .ofNat 3)])])]
      ∧ ofJson criteria.toJson = .ok criteria := by
  have hinner : DistinctNames [("y", .ofNat 2)] :=
    .cons (by decide) (fun h => absurd h (by decide)) .nil
  have hbranch : DistinctNames [("x", .ofNat 1), ("and", .obj [("y", .ofNat 2)])] := by
    refine .cons (by decide) (fun h => absurd h (by decide)) (.cons (by decide) ?_ .nil)
    rintro - branch ⟨⟩
    exact hinner
  have houter : DistinctNames
      [("or", .obj [("x", .ofNat 1), ("and", .obj [("y", .ofNat 2)])]),
        ("z", .obj [("or", .obj [("w", .ofNat 3)])])] := by
    refine .cons (by decide) ?_ (.cons (by decide) (fun h => absurd h (by decide)) .nil)
    rintro - branch ⟨⟩
    exact hbranch
  obtain ⟨hwritten, hread⟩ := toJson_rereads _ houter _ rfl
  exact ⟨_, rfl, hwritten, hread⟩

end Criteria

end CriteriaSql
