/-
CriteriaSql/Proofs/Statement/DeepInsert.lean

A deep insert writes everything that its record holds.

The members of the record that are columns of the table are its own row; every
other one is a junction, and each object of a junction is a row of the table
that the member names.  An object together with its junction is a `Site`.  The
insert is written as a chain: first the row of the table itself, then one
insertion for each site, in order, whose cells stand for the key of the new row
where the object has null, and for the values of the object elsewhere
(`Chains`).

The parameters of the rows follow each other: what is proved of one row
(`exists_link`) holds after any parameters that come before, and so it holds of
the rows of a junction and of all junctions.

Main result: `deep_lossless`.
-/
import CriteriaSql.Proofs.Statement.InsertText
import CriteriaSql.Proofs.Statement.Records

namespace CriteriaSql.Insert

open Sql (Worded Insertion Rows Cell Slot ReadsAs words readLink readChain linkTokens EndsList Stops
  isGlue worded_intercalate worded_quoteIdent worded_placeholder)

/-! ### Sites -/

/-- An object of a junction: the name of the member, all objects that it holds
and this one of them. -/
structure Site where
  name : String
  objects : List Members
  object : Members

/-- The objects of a list. -/
def objectsOf : Json → List Members
  | .arr items => items.filterMap fun item => match item with
    | .obj members => some members
    | _ => none
  | _ => []

/-- The sites of a member. -/
def memberSites (member : String × Json) : List Site :=
  (objectsOf member.2).map fun object => ⟨member.1, objectsOf member.2, object⟩

/-- The members of a record that are columns of the entity. -/
def own (entity : Entity) (record : Members) : Members :=
  record.filter fun m => entity.hasColumn m.1

/-- The sites of the members that are no columns, in order. -/
def sites (entity : Entity) (record : Members) : List Site :=
  (record.filter fun m => !entity.hasColumn m.1).flatMap memberSites

/-- What an object puts into a column: the key of the parent for null, its value
for that name, or null when it has none. -/
def slotFor (key : String) (object : Members) (column : String) : Slot Json :=
  match object.get? column with
  | some .null => .column key
  | some value => .value value
  | none => .value .null

/-- A link of a chain inserts the object of a site: into the table that the
member names, with the names of all objects of the junction as columns. -/
structure Chains (key : String) (params : List Json) (site : Site) (link : String × Insertion) :
    Prop where
  table : Identifier.parse site.name = .ok ⟨link.2.table⟩
  columns : link.2.columns = (site.objects.flatMap Members.names).eraseDups
  cells : ∃ cells, link.2.rows = .select cells "inserted"
    ∧ cells.mapM (Cell.slot? params) = some (link.2.columns.map (slotFor key site.object))

/-! ### Cells -/

/-- The cells of a row, after `offset` parameters. -/
def cellsFrom (key : String) (offset : Nat) : List (Option Json) → List Cell
  | [] => []
  | none :: slots => .column key :: cellsFrom key offset slots
  | some _ :: slots => .parameter (offset + 1) :: cellsFrom key (offset + 1) slots

/-- What a value of a row stands for. -/
def slot (key : String) : Option Json → Slot Json
  | none => .column key
  | some value => .value value

theorem slot_slotOf (key : String) (object : Members) (column : String) :
    slot key (slotOf object column) = slotFor key object column := by
  unfold slotOf slotFor
  rcases object.get? column with - | value
  · rfl
  · cases value <;> rfl

theorem worded_slotTexts (key : String) (offset : Nat) (row : List (Option Json)) :
    List.Forall₂ Worded (slotTexts key offset row)
      ((cellsFrom key offset row).map fun c => [c.token]) := by
  induction row generalizing offset with
  | nil => exact .nil
  | cons value row ih =>
    cases value with
    | none => exact .cons (worded_quoteIdent key) (ih offset)
    | some value => exact .cons (worded_placeholder (offset + 1)) (ih (offset + 1))

/-- The cells stand for the values of the row. -/
theorem mapM_cellsFrom (key : String) (before : List Json) (row : List (Option Json))
    (after : List Json) :
    (cellsFrom key before.length row).mapM (Cell.slot? (before ++ Junction.rowParams row ++ after))
      = some (row.map (slot key)) := by
  induction row generalizing before with
  | nil => rfl
  | cons value row ih =>
    cases value with
    | none =>
      rw [cellsFrom, List.mapM_cons]
      exact Option.bind_eq_some_iff.mpr ⟨_, rfl, Option.bind_eq_some_iff.mpr ⟨_, ih before, rfl⟩⟩
    | some value =>
      have hparams : before ++ Junction.rowParams (some value :: row) ++ after
          = before ++ value :: (Junction.rowParams row ++ after) := List.append_assoc _ _ _
      have hrest := ih (before ++ [value])
      rw [List.length_append, List.append_assoc, List.append_assoc] at hrest
      rw [cellsFrom, hparams, List.mapM_cons]
      refine Option.bind_eq_some_iff.mpr ⟨.value value, ?_, Option.bind_eq_some_iff.mpr
        ⟨_, hrest, rfl⟩⟩
      rw [Cell.slot?, Sql.param?_append]
      rfl

/-! ### Links -/

/-- The name of a link. -/
def linkName (j r : Nat) : String := "q_" ++ toString j ++ "_" ++ toString r

theorem isWordChar_of_mem_toString {n : Nat} {c : Char} (h : c ∈ (toString n).toList) :
    Sql.isWordChar c = true := by
  have hdigits : (toString n).toList = Nat.toDigits 10 n := String.toList_ofList
  rw [hdigits] at h
  have hdigit : c.isDigit = true := Nat.isDigit_of_mem_toDigits (by decide) (by decide) h
  rw [Sql.isWordChar, Char.isAlphanum, hdigit, Bool.or_true, Bool.true_or]

theorem worded_linkName (j r : Nat) : Worded (linkName j r) [.word (linkName j r).toList] := by
  have hlist : (linkName j r).toList
      = 'q' :: '_' :: ((toString j).toList ++ '_' :: (toString r).toList) := by
    simp [linkName]
  refine Sql.worded_word (fun h => ?_) fun c hc => ?_
  · have := congrArg String.toList h
    rw [hlist] at this
    cases this
  · rw [hlist] at hc
    rcases List.mem_cons.mp hc with rfl | hc
    · rfl
    · rcases List.mem_cons.mp hc with rfl | hc
      · rfl
      · rcases List.mem_append.mp hc with hc | hc
        · exact isWordChar_of_mem_toString hc
        · rcases List.mem_cons.mp hc with rfl | hc
          · rfl
          · exact isWordChar_of_mem_toString hc

theorem worded_chainedRow (key : String) (junction : Junction) {table : List String}
    (htable : junction.table = Identifier.sql ⟨table⟩) (j r offset : Nat)
    (row : List (Option Json)) :
    Worded (chainedRow key junction j r offset row)
      (linkTokens (linkName j r)
        ⟨table, junction.columns, .select (cellsFrom key offset row) "inserted"⟩ false false) := by
  have hinto : words " AS (INSERT INTO " = words "AS (" ++ words "INSERT INTO" := by decide
  have hopen : words " (" = [.mark '('] := by decide
  have hselect : words ") SELECT " = .mark ')' :: words "SELECT" := by decide
  have hend : words " FROM inserted)"
      = [.word "FROM".toList, .word "inserted".toList, .mark ')'] := by decide
  have htarget := ((worded_linkName j r).join hinto rfl (worded_identifier ⟨table⟩)).join hopen rfl
    (worded_nameList junction.columns)
  have hcells := worded_intercalate words_comma rfl (worded_slotTexts key offset row)
  have hall := (htarget.join hselect rfl hcells).append_glue hend rfl
  rw [← htable] at hall
  refine ⟨hall.whole, hall.words_eq.trans ?_⟩
  simp [linkTokens, Insertion.tokens, Insertion.rowTokens, Rows.tokens, Sql.parenthesized,
    Sql.tailTokens]

/-- One row of a junction, after any parameters. -/
theorem exists_link (site : Site) {table : Identifier} {junction : Junction}
    (hparse : Identifier.parse site.name = .ok table) (htable : junction.table = table.sql)
    (hcolumns : junction.columns = columnsOf site.objects) (key : String) (j r : Nat)
    (before after : List Json) :
    let row := junction.columns.map (slotOf site.object)
    ∃ ws link, Worded (chainedRow key junction j r before.length row) ws ∧ ReadsAs readLink ws link
      ∧ Chains key (before ++ Junction.rowParams row ++ after) site link := by
  intro row
  refine ⟨_, (linkName j r, ⟨table.parts, junction.columns,
    .select (cellsFrom key before.length row) "inserted"⟩),
    worded_chainedRow key junction htable j r before.length row,
    Sql.readsAs_link (linkName j r) ⟨Identifier.parts_ne_nil hparse, trivial⟩ false false,
    hparse, ?_, _, rfl, ?_⟩
  · exact hcolumns.trans (columnsOf_eq site.objects)
  · rw [mapM_cellsFrom]
    show some ((junction.columns.map (slotOf site.object)).map (slot key)) = _
    rw [List.map_map]
    exact congrArg some (List.map_congr_left fun column _ => slot_slotOf key site.object column)

/-- The texts are read as the links, one for each site, each of which inserts
the object of its site. -/
def Linked (key : String) (params : List Json) (texts : List String) (sites : List Site)
    (links : List (String × Insertion)) : Prop :=
  ∃ wss, List.Forall₂ Worded texts wss ∧ List.Forall₂ (ReadsAs readLink) wss links
    ∧ List.Forall₂ (Chains key params) sites links

theorem Linked.append {key : String} {params : List Json} {texts texts' : List String}
    {sites sites' : List Site} {links links' : List (String × Insertion)}
    (h : Linked key params texts sites links) (h' : Linked key params texts' sites' links') :
    Linked key params (texts ++ texts') (sites ++ sites') (links ++ links') := by
  obtain ⟨wss, hworded, hreads, hchains⟩ := h
  obtain ⟨wss', hworded', hreads', hchains'⟩ := h'
  exact ⟨wss ++ wss', List.rel_append hworded hworded', List.rel_append hreads hreads',
    List.rel_append hchains hchains'⟩

/-- The rows of some objects of a junction. -/
theorem exists_links_rows {name : String} {objects : List Members} {table : Identifier}
    {junction : Junction} (hparse : Identifier.parse name = .ok table)
    (htable : junction.table = table.sql) (hcolumns : junction.columns = columnsOf objects)
    (key : String) (j : Nat) (after : List Json) (selected : List Members) :
    ∀ (r : Nat) (before : List Json),
      let rows := selected.map fun object => junction.columns.map (slotOf object)
      ∃ links, Linked key (before ++ rows.flatMap Junction.rowParams ++ after)
        (chainedRows key junction j r before.length rows)
        (selected.map fun object => ⟨name, objects, object⟩) links := by
  induction selected with
  | nil => exact fun r before => ⟨[], [], .nil, .nil, .nil⟩
  | cons object selected ih =>
    intro r before rows
    have hparams : before ++ rows.flatMap Junction.rowParams ++ after
        = before ++ Junction.rowParams (junction.columns.map (slotOf object))
          ++ ((selected.map fun object => junction.columns.map (slotOf object)).flatMap
            Junction.rowParams ++ after) := by
      simp [rows]
    obtain ⟨ws, link, hworded, hreads, hchains⟩ := exists_link ⟨name, objects, object⟩ hparse
      htable hcolumns key j r before
      ((selected.map fun object => junction.columns.map (slotOf object)).flatMap Junction.rowParams
        ++ after)
    obtain ⟨links, wss, hworded', hreads', hchains'⟩ := ih (r + 1)
      (before ++ Junction.rowParams (junction.columns.map (slotOf object)))
    rw [List.length_append] at hworded'
    rw [← hparams] at hchains
    rw [List.append_assoc _ _ after, ← hparams] at hchains'
    exact ⟨link :: links, ws :: wss, .cons hworded hworded', .cons hreads hreads',
      .cons hchains hchains'⟩

/-! ### Junctions -/

theorem objectsOf_arr (objects : List Members) :
    objectsOf (.arr (objects.map .obj)) = objects := by
  rw [objectsOf, List.filterMap_map]
  exact List.filterMap_some

theorem junctionOf_eq_ok {name : String} {value : Json} {junction : Junction}
    (h : junctionOf name value = .ok junction) :
    ∃ objects table, value = .arr (objects.map .obj) ∧ Identifier.parse name = .ok table
      ∧ junction = ⟨table.sql, columnsOf objects,
        objects.map fun object => (columnsOf objects).map (slotOf object)⟩ := by
  unfold junctionOf at h
  split at h
  · obtain ⟨objects, hobjects, h⟩ := bind_eq_ok_iff.mp h
    obtain ⟨table, htable, h⟩ := bind_eq_ok_iff.mp h
    refine ⟨objects, table, congrArg Json.arr (objects_eq_ok_iff.mp hobjects),
      mapError_eq_ok_iff.mp htable, (Except.ok.inj h).symm⟩
  · cases h

theorem forall₂_of_junctionsOf {members : List (String × Json)} {junctions : List Junction}
    (h : junctionsOf members = .ok junctions) :
    List.Forall₂ (fun m junction => junctionOf m.1 m.2 = .ok junction) members junctions := by
  induction members generalizing junctions with
  | nil =>
    obtain rfl := Except.ok.inj h
    exact .nil
  | cons member members ih =>
    obtain ⟨junction, hjunction, h⟩ := bind_eq_ok_iff.mp h
    obtain ⟨rest, hrest, h⟩ := bind_eq_ok_iff.mp h
    obtain rfl := Except.ok.inj h
    exact .cons hjunction (ih hrest)

/-- Junctions come from lists of objects. -/
theorem isList_of_forall₂ {members : List (String × Json)} {junctions : List Junction}
    (h : List.Forall₂ (fun m junction => junctionOf m.1 m.2 = .ok junction) members junctions) :
    ∀ m ∈ members, ∃ objects : List Members, m.2 = .arr (objects.map .obj) := by
  induction h with
  | nil => exact fun m hm => absurd hm List.not_mem_nil
  | cons hhead _ ih =>
    obtain ⟨objects, -, hvalue, -⟩ := junctionOf_eq_ok hhead
    exact List.forall_mem_cons.mpr ⟨⟨objects, hvalue⟩, ih⟩

/-- The rows of all junctions. -/
theorem exists_links {members : List (String × Json)} {junctions : List Junction}
    (h : List.Forall₂ (fun m junction => junctionOf m.1 m.2 = .ok junction) members junctions)
    (key : String) (after : List Json) :
    ∀ (j : Nat) (before : List Json),
      ∃ links, Linked key (before ++ junctions.flatMap Junction.params ++ after)
        (chained key j before.length junctions) (members.flatMap memberSites) links := by
  induction h with
  | nil => exact fun j before => ⟨[], [], .nil, .nil, .nil⟩
  | @cons member junction members junctions hjunction _ ih =>
    intro j before
    obtain ⟨objects, table, hvalue, hparse, rfl⟩ := junctionOf_eq_ok hjunction
    have hsites : memberSites member
        = objects.map fun object => ⟨member.1, objects, object⟩ := by
      rw [memberSites, hvalue, objectsOf_arr]
    generalize hrow : (Junction.mk table.sql (columnsOf objects)
      (objects.map fun object => (columnsOf objects).map (slotOf object))) = junction
    have htable : junction.table = table.sql := by rw [← hrow]
    have hcolumns : junction.columns = columnsOf objects := by rw [← hrow]
    have hrows : junction.rows
        = objects.map fun object => junction.columns.map (slotOf object) := by
      rw [← hrow]
    have hparams : before ++ (junction :: junctions).flatMap Junction.params ++ after
        = before ++ junction.params ++ (junctions.flatMap Junction.params ++ after) := by
      rw [List.flatMap_cons, List.append_assoc, List.append_assoc, List.append_assoc]
    obtain ⟨links, hlinks⟩ := exists_links_rows hparse htable hcolumns key j
      (junctions.flatMap Junction.params ++ after) objects 0 before
    obtain ⟨links', hlinks'⟩ := ih (j + 1) (before ++ junction.params)
    rw [← hrows] at hlinks
    rw [List.length_append, List.append_assoc (before ++ _), ← hparams] at hlinks'
    refine ⟨links ++ links', ?_⟩
    rw [hparams] at hlinks' ⊢
    rw [chained, List.flatMap_cons, hsites]
    exact hlinks.append hlinks'

/-! ### Main result -/

theorem deepOf_eq_ok {entity : Entity} {record : Members} {options : Options} {i : Insert}
    (h : deepOf entity record options = .ok i) :
    ∃ key junctions, entity.pk = [key] ∧ entity.columns ≠ []
      ∧ junctionsOf (record.filter fun m => !entity.hasColumn m.1) = .ok junctions
      ∧ i = { source := entity.fullName, columns := (own entity record).map Prod.fst,
              rows := [(own entity record).map Prod.snd], deep := some ⟨key, junctions⟩,
              options } := by
  unfold deepOf at h
  split at h
  · next key hkey =>
    split at h
    · cases h
    · next hcolumns =>
      obtain ⟨junctions, hjunctions, h⟩ := bind_eq_ok_iff.mp h
      exact ⟨key, junctions, hkey, fun hnil => hcolumns (List.isEmpty_iff.mpr hnil),
        mapError_eq_ok_iff.mp hjunctions, (Except.ok.inj h).symm⟩
  · cases h

theorem ofJson_eq_ok_of_deep {entity : Entity} {value : Json} {options : Options} {i : Insert}
    (hdeep : options.deepInsert = true) (h : ofJson entity value options = .ok i) :
    ∃ record, HoldsRecords value [record] ∧ deepOf entity record options = .ok i := by
  obtain ⟨records, hrecords, h⟩ := bind_eq_ok_iff.mp h
  have hholds := recordsOf_eq_ok_iff.mp (mapError_eq_ok_iff.mp hrecords)
  rcases records with - | ⟨record, - | ⟨other, others⟩⟩
  · cases h
  · rw [hdeep] at h
    exact ⟨record, hholds, h⟩
  · rw [hdeep] at h
    cases h

/-- What is written of a deep insert: the link of the parent, which returns its
row, and the links of the junctions. -/
theorem readChain_sql {i : Insert} {deep : Deep} {table : List String}
    (hsource : i.source = Identifier.sql ⟨table⟩) (htable : table ≠ []) (hrows : i.rows ≠ [])
    (hdeep : i.deep = some deep) {sites : List Site} {links : List (String × Insertion)}
    (hlinks : Linked deep.key i.params (chained deep.key 0 i.ownParams.length deep.junctions)
      sites links) :
    readChain (words i.sql) = some (("inserted", i.insertion table) :: links,
      words (" SELECT " ++ i.options.projection ++ " FROM inserted")) := by
  obtain ⟨wss, hworded, hreads, -⟩ := hlinks
  have hwith : words "WITH " = words "WITH" := by decide
  have has : words "inserted AS (" = .word "inserted".toList :: words "AS (" := by decide
  have hreturning : words " RETURNING *)" = words "RETURNING *" ++ [.mark ')'] := by decide
  have hselect : isGlue " SELECT " = true := rfl
  generalize hrest : " SELECT " ++ i.options.projection ++ " FROM inserted" = rest
  have hsql : i.sql = "WITH "
      ++ ", ".intercalate (("inserted AS (" ++ i.plainSql ++ " RETURNING *)")
      :: chained deep.key 0 i.ownParams.length deep.junctions) ++ rest := by
    rw [Insert.sql, hdeep, ← hrest]
    simp only [String.append_assoc]
  have hstops : Stops rest := by
    rw [← hrest, String.append_assoc]
    exact Sql.stops_glue_append hselect _
  have hends : EndsList ',' (words rest) := by
    have hwords : words rest
        = words " SELECT " ++ words (i.options.projection ++ " FROM inserted") := by
      rw [← hrest, String.append_assoc]
      exact Sql.words_append_of_sealed (Sql.sealed_of_isGlue hselect) _
    rw [hwords]
    exact fun h => absurd (Option.some.inj h) (by decide)
  -- the link of the parent
  have hparent : Worded ("inserted AS (" ++ i.plainSql ++ " RETURNING *)")
      (linkTokens "inserted" (i.insertion table) i.options.onConflictIgnore true) := by
    have hall := ((worded_plainSql hsource).lead has rfl).append_glue hreturning rfl
    refine ⟨hall.whole, hall.words_eq.trans ?_⟩
    simp [linkTokens, Sql.tailTokens]
  have hfirst := Sql.readsAs_link "inserted" (printable_insertion htable hrows)
    i.options.onConflictIgnore true
  have hchain := (worded_intercalate words_comma rfl (.cons hparent hworded)).lead hwith rfl
  have hread := Sql.separated_intercalate (.cons hfirst hreads) (List.cons_ne_nil _ _) hends
  rw [hsql, hchain.words_append hstops, List.append_assoc, readChain]
  exact Option.bind_eq_some_iff.mpr ⟨_, Sql.expect_append _ _, hread⟩

/-- Every accepted value holds one record, and the entity has a single key and
known columns.  What is written is a chain.  Its first link inserts the members
of the record that are columns, with placeholders that stand for their values;
every other member is a list of objects.  The other links are one for each of
these objects, in order: a link inserts into the table that the member names,
with the names of all objects of the member as columns, each where it is first
seen, and takes for each column the key of the inserted row if the object has
null there, and otherwise a parameter that is its value, or null when it has
none. -/
theorem deep_lossless (entity : Entity) (value : Json) (options : Options) (i : Insert)
    (hdeep : options.deepInsert = true) (h : ofJson entity value options = .ok i) :
    ∃ record key parent chain,
      HoldsRecords value [record] ∧ entity.pk = [key] ∧ entity.columns ≠ []
      ∧ readChain (words i.sql) = some (("inserted", parent) :: chain,
        words (" SELECT " ++ i.options.projection ++ " FROM inserted"))
      ∧ parent.table = entity.nameParts
      ∧ parent.columns = (own entity record).map Prod.fst
      ∧ parent.rows.values? i.params = some [(own entity record).map Prod.snd]
      ∧ (∀ m ∈ record, entity.hasColumn m.1 = false →
        ∃ objects : List Members, m.2 = .arr (objects.map .obj))
      ∧ List.Forall₂ (Chains key i.params) (sites entity record) chain := by
  obtain ⟨record, hholds, h⟩ := ofJson_eq_ok_of_deep hdeep h
  obtain ⟨key, junctions, hkey, hcolumns, hjunctions, rfl⟩ := deepOf_eq_ok h
  have hall := forall₂_of_junctionsOf hjunctions
  generalize hi : (Insert.mk entity.fullName ((own entity record).map Prod.fst)
    [(own entity record).map Prod.snd] (some ⟨key, junctions⟩) options) = i
  have hrows : i.rows = [(own entity record).map Prod.snd] := by rw [← hi]
  have hnames : i.columns = (own entity record).map Prod.fst := by rw [← hi]
  have hsource : i.source = Identifier.sql ⟨entity.nameParts⟩ := by
    rw [← hi]
    exact entity.fullName_eq_sql
  have hparams : i.params = i.ownParams ++ junctions.flatMap Junction.params := by rw [← hi]; rfl
  have hdefaults : i.columns = [] → i.rows = [[]] := by
    intro hnil
    rw [hrows, List.map_eq_nil_iff.mp (hnames.symm.trans hnil)]
    rfl
  obtain ⟨links, hlinks⟩ := exists_links hall key [] 0 i.ownParams
  rw [List.append_nil, ← hparams] at hlinks
  have hread := readChain_sql hsource entity.nameParts_ne_nil
    (by rw [hrows]; exact List.cons_ne_nil _ _)
    (show i.deep = some ⟨key, junctions⟩ by rw [← hi]) hlinks
  obtain ⟨-, -, -, hchains⟩ := hlinks
  refine ⟨record, key, i.insertion entity.nameParts, links, hholds, hkey, hcolumns, hread, rfl,
    hnames, ?_, ?_, hchains⟩
  · rw [hparams, values?_insertion hdefaults, hrows]
  · intro m hm hcolumn
    refine isList_of_forall₂ hall m (List.mem_filter.mpr ⟨hm, ?_⟩)
    rw [hcolumn]
    rfl

/-- A user with two roles. -/
theorem deep_lossless_roles :
    ∃ i parent chain rest,
      ofJson ⟨"public", "users", ["id"], ["id", "name"], false⟩
        (.obj [("name", .str "alice"), ("user_roles", .arr
          [.obj [("user_id", .null), ("role_id", .ofNat 1)],
           .obj [("user_id", .null), ("role_id", .ofNat 2), ("main", .bool true)]])])
        Options.none.asDeepInsert = .ok i
      ∧ readChain (words i.sql) = some (("inserted", parent) :: chain, rest)
      ∧ parent.rows.values? i.params = some [[.str "alice"]]
      ∧ chain.length = 2 := by
  generalize hentity : (⟨"public", "users", ["id"], ["id", "name"], false⟩ : Entity) = entity
  generalize hrecord : ([("name", .str "alice"), ("user_roles", .arr
    [.obj [("user_id", .null), ("role_id", .ofNat 1)],
     .obj [("user_id", .null), ("role_id", .ofNat 2), ("main", .bool true)]])] : Members) = record
  obtain ⟨i, hi⟩ : ∃ i, ofJson entity (.obj record) Options.none.asDeepInsert = .ok i := by
    have hok : (ofJson entity (.obj record) Options.none.asDeepInsert).toBool = true := by
      rw [← hentity, ← hrecord]
      decide +kernel
    rcases h : ofJson entity (.obj record) Options.none.asDeepInsert with e | i
    · rw [h] at hok
      cases hok
    · exact ⟨i, rfl⟩
  obtain ⟨record', key, parent, chain, hholds, -, -, hread, -, -, hvalues, -, hchains⟩ :=
    deep_lossless entity (.obj record) Options.none.asDeepInsert i rfl hi
  obtain rfl := (List.cons.inj (hholds.unique (.one record))).1
  have hown : (own entity record').map Prod.snd = [.str "alice"] := by
    rw [← hentity, ← hrecord]
    rfl
  have hsites : (sites entity record').length = 2 := by
    rw [← hentity, ← hrecord]
    rfl
  rw [hown] at hvalues
  exact ⟨i, parent, chain, _, hi, hread, hvalues, hchains.length_eq.symm.trans hsites⟩

end CriteriaSql.Insert
