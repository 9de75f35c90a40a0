/-
CriteriaSql/Proofs/Criteria/Documents.lean

The documents that predicates ask the body to contain.

Equality on a path of members asks for the smallest document that holds the
value there: one member for the field, and one in it for each step of the path,
under their plain names.  A list of objects asks for the criteria that it stands
in, as they are written: their members are named by the keys of the predicates,
with operators, paths and casts, and by `or` and `and` (`Asked`).  So only
where all of these are plain fields compared for equality are the names of the
document those of stored fields (`Asked.namesFields`); one comparison beside the
list is enough for it to have another (`not_forall_namesFields`).

Main result: `documents_compile`.
-/
import CriteriaSql.Proofs.Criteria.Outline
import CriteriaSql.Proofs.Criteria.Shape
import CriteriaSql.Proofs.Json.Members
import CriteriaSql.Proofs.Sql.Placeholder

namespace CriteriaSql

/-! ### Documents -/

/-- A value at the end of a path of names, each the only one of its object. -/
inductive Json.OnlyAt (value : Json) : List String → Json → Prop
  | here : OnlyAt value [] value
  | inside {name : String} {names : List String} {inner : Json} (h : OnlyAt value names inner) :
      OnlyAt value (name :: names) (.obj [(name, inner)])

theorem Json.onlyAt_documentAt (column : String) (names : List String) (value : Json) :
    value.OnlyAt (column :: names)
      (Condition.documentAt column (names.map Step.member) value) := by
  refine .inside ?_
  induction names with
  | nil => exact .here
  | cons name names ih => exact .inside ih

/-- Steps that are all names of members. -/
theorem exists_map_member {path : List Step} (h : path.all Step.isMember = true) :
    ∃ names : List String, path = names.map Step.member := by
  induction path with
  | nil => exact ⟨[], rfl⟩
  | cons step path ih =>
    rw [List.all_cons, Bool.and_eq_true] at h
    obtain ⟨names, rfl⟩ := ih h.2
    cases step with
    | member name => exact ⟨name :: names, rfl⟩
    | index position => cases h.1

namespace Criteria

theorem membersAfter_eq (before : Members) (entries : List Criterion) :
    membersAfter before entries = before.insertAll (entries.map memberOf) := by
  induction entries generalizing before with
  | nil => rfl
  | cons entry entries ih =>
    rw [membersAfter, ih]
    rfl

/-- The document that a predicate asks for. -/
inductive Asked (s : Site) : Json → Prop
  | field {names : List String} {document : Json} (harr : ∀ items, s.value ≠ .arr items)
      (hop : (Operation.resolve (Key.parse s.key).operatorText).operator = "=")
      (hcast : (Key.parse s.key).cast = none)
      (hpath : (Key.parse s.key).path = names.map Step.member)
      (hdocument : s.value.OnlyAt ((Key.parse s.key).column :: names) document) :
      Asked s document
  | whole {members : Members} (hobjects : s.value.IsObjectList) (hnodup : members.names.Nodup)
      (hget : ∀ name, members.get? name = Members.get? (s.siblings.map memberOf).reverse name) :
      Asked s (.obj members)

theorem Asked.exists_obj {s : Site} {document : Json} (h : Asked s document) :
    ∃ members, document = .obj members := by
  cases h with
  | field _ _ _ _ hdocument =>
    cases hdocument with
    | inside _ => exact ⟨_, rfl⟩
  | whole _ _ _ => exact ⟨_, rfl⟩

/-- A list of objects asks for the object of its criteria. -/
theorem asked_toJson {s : Site} (hobjects : s.value.IsObjectList) : Asked s s.siblings.toJson := by
  rw [toJson, membersAfter_eq]
  have hempty : (Members.names []).Nodup := List.nodup_nil
  refine .whole hobjects (Members.nodup_names_insertAll hempty _) ?_
  intro name
  rw [Members.get?_insertAll, Members.get?_nil, Option.or_none]

end Criteria

/-! ### The text of containment -/

/-- The text that asks for the document bound as the parameter with number
`n`. -/
def containmentText (n : Nat) : String :=
  "\"body\" @> " ++ placeholder n

theorem containmentText_inj {m n : Nat} (h : containmentText m = containmentText n) : m = n := by
  have hplaceholder : placeholder m = placeholder n := by
    have hchars := congrArg String.toList h
    rw [containmentText, containmentText, String.toList_append, String.toList_append] at hchars
    exact String.toList_inj.mp (List.append_cancel_left hchars)
  have hnumbers := (Sql.numbered_placeholder m).placeholders_eq
  rw [hplaceholder, (Sql.numbered_placeholder n).placeholders_eq] at hnumbers
  exact (List.head_eq_of_cons_eq hnumbers).symm

/-- A text that begins with an opening parenthesis. -/
def IsEnclosed (text : String) : Prop :=
  text.toList.head? = some '('

theorem isEnclosed_append (text : String) : IsEnclosed ("(" ++ text) := by
  rw [IsEnclosed, String.toList_append]
  rfl

theorem IsEnclosed.append {a : String} (h : IsEnclosed a) (b : String) : IsEnclosed (a ++ b) := by
  rw [IsEnclosed, String.toList_append, List.head?_append, h]
  rfl

theorem IsEnclosed.ne_containmentText {text : String} (h : IsEnclosed text) (n : Nat) :
    text ≠ containmentText n := by
  rintro rfl
  rw [IsEnclosed, containmentText, String.toList_append] at h
  cases h

/-- What is compared in the body stands in parentheses. -/
theorem isEnclosed_extracted (c : Condition) : IsEnclosed c.extracted := by
  unfold Condition.extracted
  split
  · next hcast =>
    rw [Key.bodyField, hcast]
    exact ((isEnclosed_append _).append _).append _
  · exact ((isEnclosed_append _).append _).append _
  · exact (isEnclosed_append _).append _

/-- A comparison with an operand in parentheses is no containment. -/
theorem Fragment.ne_containmentText {n : Nat} {field : String} {clause : Clause}
    (hfield : IsEnclosed field) (h : Fragment n field clause) (m : Nat) :
    clause.conditions ≠ containmentText m := by
  cases h with
  | truth htext =>
    intro h
    have hhead := congrArg (fun text => text.toList.head?) h
    simp only [containmentText, String.toList_append] at hhead
    rcases htext with rfl | rfl <;> cases hhead
  | constant _ _ => exact (((hfield.append _).append _).append _ |>.append _).ne_containmentText m
  | value _ _ => exact (((hfield.append _).append _).append _ |>.append _).ne_containmentText m
  | bounds _ _ => exact (((hfield.append _).append _).append _ |>.append _).ne_containmentText m
  | members _ _ => exact (((hfield.append _).append _).append _ |>.append _).ne_containmentText m

namespace Condition

variable {c : Condition}

theorem clause_containment (hc : c.params = []) (document : Json) :
    (c.containment document).clause = ⟨containmentText c.offset, [document]⟩ := by
  have hparams : (c.containment document).params = [document] := by
    show c.params ++ [document] = [document]
    rw [hc, List.nil_append]
  rw [clause, hparams]
  rfl

theorem of_isPlainEquality (h : c.isPlainEquality = true) :
    c.operation.operator = "=" ∧ (∀ items, c.value ≠ .arr items) ∧ c.key.cast = none
      ∧ ∃ names : List String, c.key.path = names.map Step.member := by
  simp only [isPlainEquality, Bool.and_eq_true, decide_eq_true_eq, Option.isNone_iff_eq_none] at h
  obtain ⟨⟨⟨hop, harr⟩, hcast⟩, hpath⟩ := h
  refine ⟨hop, ?_, hcast, exists_map_member hpath⟩
  intro items hvalue
  rw [hvalue] at harr
  cases harr

/-- A condition on the body with the text of containment asks for the criteria
or for the document of its own value. -/
theorem clause_of_compileBody {c' : Condition} {group : Json} {n : Nat} (hc : c.params = [])
    (hmem : c.operation ∈ Operation.registered.map Prod.snd) (h : c.compileBody group = .ok c')
    (htext : c'.predicate = containmentText n) :
    n = c.offset ∧ (c.value.IsObjectList ∧ c'.params = [group]
      ∨ c.isPlainEquality = true
        ∧ c'.params = [documentAt c.key.column c.key.path c.value]) := by
  unfold compileBody at h
  split at h
  · next hobjects =>
    obtain rfl := Except.ok.inj h
    obtain ⟨htext', hparams⟩ := Clause.mk.inj (clause_containment hc group)
    refine ⟨containmentText_inj (htext.symm.trans htext'), Or.inl ⟨?_, hparams⟩⟩
    exact Json.isObjectList_iff.mp hobjects
  · split at h
    · next hplain =>
      obtain rfl := Except.ok.inj h
      obtain ⟨htext', hparams⟩ := Clause.mk.inj (clause_containment hc (documentAt _ _ c.value))
      exact ⟨containmentText_inj (htext.symm.trans htext'), Or.inr ⟨hplain, hparams⟩⟩
    · have hfragment := fragment_compileColumn (c := { c with field := c.extracted }) hc hmem h
      exact absurd htext (hfragment.ne_containmentText (isEnclosed_extracted c) n)

end Condition

namespace Criteria

/-- A predicate on the body with the text of containment binds the document that
it asks for. -/
theorem asked_of_predicateClause {pk : List String} {s : Site} {offset n : Nat} {clause : Clause}
    (h : predicateClause ⟨.document, pk⟩ s.siblings offset s.key s.value = .ok clause)
    (hcolumn : (Key.parse s.key).column ∉ pk) (htext : clause.conditions = containmentText n) :
    n = offset + 1 ∧ ∃ document, clause.params = [document] ∧ Asked s document := by
  rw [predicateClause_body ⟨rfl, hcolumn⟩] at h
  obtain ⟨c, hc, rfl⟩ := map_eq_ok_iff.mp h
  obtain ⟨hn, hasked⟩ := Condition.clause_of_compileBody (params_startOf _ _ _)
    (operation_startOf_mem _ _ _) hc htext
  refine ⟨hn.trans (offset_startOf _ _ _), ?_⟩
  rw [value_startOf, key_startOf] at hasked
  rcases hasked with ⟨hobjects, hbound⟩ | ⟨hplain, hbound⟩
  · exact ⟨_, hbound, asked_toJson hobjects⟩
  · obtain ⟨hop, harr, hcast, names, hpath⟩ := Condition.of_isPlainEquality hplain
    rw [operation_startOf] at hop
    rw [value_startOf] at harr
    rw [key_startOf] at hcast hpath
    refine ⟨_, hbound, .field harr hop hcast hpath ?_⟩
    rw [hpath]
    exact Json.onlyAt_documentAt _ names _

/-! ### The names of stored fields -/

/-- A key that compares a field in the body for equality. -/
def IsFieldEquality (pk : List String) (key : String) : Prop :=
  (Operation.resolve (Key.parse key).operatorText).operator = "=" ∧ (Key.parse key).column ∉ pk

/-- Every name of a document is the field of an equality among the criteria. -/
def NamesFields (pk : List String) (criteria : Criteria) (document : Members) : Prop :=
  ∀ name ∈ document.names, ∃ key value, Criterion.predicate key value ∈ criteria
    ∧ IsFieldEquality pk key ∧ (Key.parse key).column = name

/-- An equality whose key is the name of its field, and nothing else. -/
def IsBare (pk : List String) (entry : Criterion) : Prop :=
  ∃ key value, entry = .predicate key value ∧ IsFieldEquality pk key ∧ (Key.parse key).column = key

theorem exists_of_mem_names_reverse {entries : List Criterion} {members : Members} {name : String}
    (hget : members.get? name = Members.get? (entries.map memberOf).reverse name)
    (hname : name ∈ members.names) : ∃ entry ∈ entries, (memberOf entry).1 = name := by
  have hmem : name ∈ Members.names (entries.map memberOf).reverse := by
    by_contra habsent
    rw [(Members.get?_eq_none_iff _ _).mpr habsent, Members.get?_eq_none_iff] at hget
    exact hget hname
  obtain ⟨m, hm, rfl⟩ := List.mem_map.mp hmem
  obtain ⟨entry, hentry, rfl⟩ := List.mem_map.mp (List.mem_reverse.mp hm)
  exact ⟨entry, hentry, rfl⟩

/-- The smallest document names a stored field; a document made of criteria does
so where all their entries are bare. -/
theorem Asked.namesFields {pk : List String} {s : Site} {document : Members}
    (h : Asked s (.obj document)) (hsite : .predicate s.key s.value ∈ s.siblings)
    (hcolumn : (Key.parse s.key).column ∉ pk)
    (hbare : s.value.IsObjectList → ∀ entry ∈ s.siblings, IsBare pk entry) :
    NamesFields pk s.siblings document := by
  intro name hname
  cases h with
  | field harr hop hcast hpath hdocument =>
    cases hdocument with
    | inside _ =>
      obtain rfl := List.mem_singleton.mp hname
      exact ⟨s.key, s.value, hsite, ⟨hop, hcolumn⟩, rfl⟩
  | whole hobjects hnodup hget =>
    obtain ⟨entry, hentry, rfl⟩ := exists_of_mem_names_reverse (hget name) hname
    obtain ⟨key, value, rfl, Operation.resolve_empty, hkey⟩ := hbare hobjects entry hentry
    exact ⟨key, value, hentry, Operation.resolve_empty, hkey⟩

mutual

theorem mem_of_mem_entrySites {siblings : Criteria} : ∀ {entry : Criterion}, entry ∈ siblings →
    ∀ s ∈ entrySites siblings entry, .predicate s.key s.value ∈ s.siblings
  | .predicate key value, hentry => by
    intro s hs
    obtain rfl := List.mem_singleton.mp hs
    exact hentry
  | .group _ branches, _ => mem_of_mem_branchSites

/-- A predicate is one of the criteria that it stands in. -/
theorem mem_of_mem_sitesIn {siblings : Criteria} : ∀ {entries : List Criterion},
    entries ⊆ siblings → ∀ s ∈ sitesIn siblings entries, .predicate s.key s.value ∈ s.siblings
  | [], _ => fun _ hs => absurd hs List.not_mem_nil
  | entry :: entries, h => by
    intro s hs
    obtain ⟨hentry, hentries⟩ := List.cons_subset.mp h
    rcases List.mem_append.mp hs with hs | hs
    · exact mem_of_mem_entrySites hentry s hs
    · exact mem_of_mem_sitesIn hentries s hs

theorem mem_of_mem_branchSites : ∀ {branches : List (List Criterion)},
    ∀ s ∈ branchSites branches, .predicate s.key s.value ∈ s.siblings
  | [] => fun _ hs => absurd hs List.not_mem_nil
  | branch :: branches => by
    intro s hs
    rcases List.mem_append.mp hs with hs | hs
    · exact mem_of_mem_sitesIn (List.Subset.refl branch) s hs
    · exact mem_of_mem_branchSites s hs

end

/-! ### Compiled criteria -/

/-- Every predicate on a field in the body with the text of containment binds,
as the parameter of its placeholder, the document that it asks for.  The names
of the document are those of stored fields, unless it is made of criteria with
other entries. -/
theorem documents_compile {pk : List String} {offset : Nat} {criteria : Criteria}
    {clause : Clause} (h : compile ⟨.document, pk⟩ offset criteria = .ok clause) :
    ∃ os, outlines ⟨.document, pk⟩ criteria offset criteria = .ok os
      ∧ clause = Clause.conjunction (Outline.clauses os)
      ∧ List.Forall₂ (fun s c => (Key.parse s.key).column ∉ pk →
          ∀ n, c.conditions = "\"body\" @> " ++ placeholder n →
            ∃ document : Members, c.params = [.obj document]
              ∧ offset < n ∧ clause.params[n - (offset + 1)]? = some (.obj document)
              ∧ Asked s (.obj document)
              ∧ ((s.value.IsObjectList → ∀ entry ∈ s.siblings, IsBare pk entry) →
                NamesFields pk s.siblings document))
          (sites criteria) (Outline.entryLeaves os) := by
  obtain ⟨os, hos, rfl⟩ := compile_eq_ok_iff.mp h
  refine ⟨os, hos, rfl, ?_⟩
  rw [Outline.params_conjunction, Outline.params_clauses]
  refine (@Placed.forall₂ _ offset _ [] _ _ (placed_of_outlines hos) rfl).imp ?_
  rintro s c ⟨hmem, front, back, hparams, hclause⟩ hcolumn n htext
  obtain ⟨rfl, document, hbound, hasked⟩ := asked_of_predicateClause hclause hcolumn htext
  obtain ⟨members, rfl⟩ := hasked.exists_obj
  have hsite := mem_of_mem_sitesIn (List.Subset.refl criteria) s hmem
  refine ⟨members, hbound, by omega, ?_, hasked, hasked.namesFields hsite hcolumn⟩
  -- the parameters in front are as many as the numbers between
  have hindex : offset + front.length + 1 - (offset + 1) = front.length := by omega
  rw [hindex, ← List.nil_append (List.flatMap _ _), hparams, hbound]
  simp

/-- A path of two names, and a list of objects alone in its branch. -/
theorem documents_compile_branch :
    compile ⟨.document, ["id"]⟩ 0 [.predicate "a.b" (.str "x"),
        .group .any [[.predicate "tags" (.arr [.obj []])]]]
      = .ok ⟨"\"body\" @> $1 AND ((\"body\" @> $2))",
          [.obj [("a", .obj [("b", .str "x")])], .obj [("tags", .arr [.obj []])]]⟩
    ∧ NamesFields ["id"] [.predicate "a.b" (.str "x"),
        .group .any [[.predicate "tags" (.arr [.obj []])]]] [("a", .obj [("b", .str "x")])]
    ∧ NamesFields ["id"] [.predicate "tags" (.arr [.obj []])] [("tags", .arr [.obj []])] := by
  have hab : Key.parse "a.b" = ⟨"a", [.member "b"], none, ""⟩ := by decide +kernel
  have htags : Key.parse "tags" = ⟨"tags", [], none, ""⟩ := by decide +kernel
  have hpath : ∀ siblings, predicateClause ⟨.document, ["id"]⟩ siblings 0 "a.b" (.str "x")
      = .ok ⟨"\"body\" @> $1", [.obj [("a", .obj [("b", .str "x")])]]⟩ := by
    intro siblings
    rw [predicateClause, hab, Operation.resolve_empty]
    rfl
  have hlist : predicateClause ⟨.document, ["id"]⟩ [.predicate "tags" (.arr [.obj []])] 1
      "tags" (.arr [.obj []]) = .ok ⟨"\"body\" @> $2", [.obj [("tags", .arr [.obj []])]]⟩ := by
    rw [predicateClause, htags, Operation.resolve_empty]
    rfl
  have hbranch : branchOutlines ⟨.document, ["id"]⟩ 1 [[.predicate "tags" (.arr [.obj []])]]
      = .ok [[.predicate ⟨"\"body\" @> $2", [.obj [("tags", .arr [.obj []])]]⟩]] := by
    rw [branchOutlines, outlines, outlineOf, hlist]
    rfl
  have houtlines : ∀ siblings, outlines ⟨.document, ["id"]⟩ siblings 0 [.predicate "a.b" (.str "x"),
        .group .any [[.predicate "tags" (.arr [.obj []])]]]
      = .ok [.predicate ⟨"\"body\" @> $1", [.obj [("a", .obj [("b", .str "x")])]]⟩,
          .group .any [[.predicate ⟨"\"body\" @> $2", [.obj [("tags", .arr [.obj []])]]⟩]]] := by
    intro siblings
    rw [outlines, outlineOf, hpath]
    show (outlines ⟨.document, ["id"]⟩ siblings 1 [.group .any _] >>= _) = _
    rw [outlines, outlineOf, hbranch]
    rfl
  have hcompile := compile_eq_ok_iff.mpr ⟨_, houtlines _, rfl⟩
  obtain ⟨os, hos, -, hall⟩ := documents_compile hcompile
  obtain rfl := Except.ok.inj ((houtlines _).symm.trans hos)
  obtain ⟨hfirst, hall⟩ := List.forall₂_cons.mp hall
  obtain ⟨hsecond, -⟩ := List.forall₂_cons.mp hall
  refine ⟨hcompile, ?_, ?_⟩
  · obtain ⟨document, hparams, -, -, -, hnames⟩ := hfirst (by rw [hab]; decide) 1 rfl
    obtain rfl := Json.obj.inj (List.head_eq_of_cons_eq hparams)
    refine hnames fun hobjects => ?_
    obtain ⟨items, hvalue, -⟩ := hobjects
    cases hvalue
  · obtain ⟨document, hparams, -, -, -, hnames⟩ := hsecond (by rw [htags]; decide) 2 rfl
    obtain rfl := Json.obj.inj (List.head_eq_of_cons_eq hparams)
    refine hnames fun _ entry hentry => ?_
    obtain rfl := List.mem_singleton.mp hentry
    refine ⟨"tags", _, rfl, ⟨?_, ?_⟩, ?_⟩
    · rw [htags, Operation.resolve_empty]
      rfl
    · rw [htags]
      decide
    · rw [htags]

-- a column of the primary key may have the name `body`, and is then compared as it is
example : compile ⟨.document, ["body"]⟩ 0 [.predicate "body @>" (.obj [("x", .null)])]
    = .ok ⟨"\"body\" @> $1", [.obj [("x", .null)]]⟩ := by
  cbv

/-- A comparison beside a list of objects gives the document a name that no
stored field has. -/
theorem not_forall_namesFields :
    ¬∀ (pk : List String) (offset : Nat) (criteria : Criteria) (clause : Clause),
      compile ⟨.document, pk⟩ offset criteria = .ok clause →
      ∀ os, outlines ⟨.document, pk⟩ criteria offset criteria = .ok os →
        List.Forall₂ (fun s c => ∀ n, c.conditions = "\"body\" @> " ++ placeholder n →
            ∀ document : Members, c.params = [.obj document] →
              NamesFields pk s.siblings document)
          (sites criteria) (Outline.entryLeaves os) := by
  have htags : Key.parse "tags" = ⟨"tags", [], none, ""⟩ := by decide +kernel
  have hprice : Key.parse "price >" = ⟨"price", [], none, ">"⟩ := by decide +kernel
  have hgreater : Operation.resolve ">" = ⟨">", none⟩ := by decide +kernel
  generalize hcriteria : ([.predicate "tags" (.arr [.obj [("name", .str "x")]]),
    .predicate "price >" (.num (.int 10))] : Criteria) = criteria
  have hlist : predicateClause ⟨.document, ["id"]⟩ criteria 0 "tags"
      (.arr [.obj [("name", .str "x")]]) = .ok ⟨"\"body\" @> $1",
        [.obj [("tags", .arr [.obj [("name", .str "x")]]), ("price >", .num (.int 10))]]⟩ := by
    rw [predicateClause, htags, Operation.resolve_empty, ← hcriteria]
    rfl
  have hnumber : predicateClause ⟨.document, ["id"]⟩ criteria 1 "price >" (.num (.int 10))
      = .ok ⟨"(\"body\"->>'price')::decimal > $2", [.num (.int 10)]⟩ := by
    rw [predicateClause, hprice, hgreater]
    rfl
  have houtlines : outlines ⟨.document, ["id"]⟩ criteria 0
        [.predicate "tags" (.arr [.obj [("name", .str "x")]]), .predicate "price >" (.num (.int 10))]
      = .ok [.predicate ⟨"\"body\" @> $1",
            [.obj [("tags", .arr [.obj [("name", .str "x")]]), ("price >", .num (.int 10))]]⟩,
          .predicate ⟨"(\"body\"->>'price')::decimal > $2", [.num (.int 10)]⟩] := by
    rw [outlines, outlineOf, hlist]
    show (outlines ⟨.document, ["id"]⟩ criteria 1 [.predicate "price >" _] >>= _) = _
    rw [outlines, outlineOf, hnumber]
    rfl
  rw [hcriteria] at houtlines
  intro h
  have hcompile := compile_eq_ok_iff.mpr ⟨_, houtlines, rfl⟩
  have hall := h _ _ _ _ hcompile _ houtlines
  rw [sites, ← hcriteria] at hall
  obtain ⟨hfirst, -⟩ := List.forall₂_cons.mp hall
  obtain ⟨key, value, hmem, -, hkey⟩ := hfirst 1 rfl _ rfl "price >" (by decide)
  rcases List.mem_cons.mp hmem with heq | hmem
  · obtain ⟨rfl, -⟩ := Criterion.predicate.inj heq
    rw [htags] at hkey
    revert hkey
    decide
  · obtain ⟨rfl, -⟩ := Criterion.predicate.inj (List.mem_singleton.mp hmem)
    rw [hprice] at hkey
    revert hkey
    decide

end Criteria

end CriteriaSql
