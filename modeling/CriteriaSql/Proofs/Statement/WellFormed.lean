/-
CriteriaSql/Proofs/Statement/WellFormed.lean

Which of the INSERTs that are written can be carried out.

An insertion is well formed when it inserts defaults, or when it has columns and
all its rows are as long as these.  What an insert writes is read back as one
insertion alone or as a chain of insertions with names (`Sql.readInserts`).

The insertion of the records themselves is well formed: without columns it is a
row of defaults.  Those of a junction are as long as their columns, but the
columns are the names in the objects of the junction, and there is no other form
when all these objects are empty (`Chains.wellFormed_iff`).  The names of the
links are numbered twice, by junction and by row, and so no two are the same
(`nodup_linkNames`).

Main result: `inserts_wellFormed_iff`; a junction of one empty object refutes that
all of them are well formed (`not_forall_inserts_wellFormed`).
-/
import CriteriaSql.Proofs.Json.ScalarText
import CriteriaSql.Proofs.Statement.Alignment
import CriteriaSql.Proofs.Statement.DeepInsert
import Mathlib.Data.List.Nodup

namespace CriteriaSql

namespace Sql

/-! ### Well-formed insertions -/

/-- Defaults for no columns, or columns, at least one, and rows that are as long
as these. -/
def Insertion.WellFormed (i : Insertion) : Prop :=
  match i.rows with
  | .defaults => i.columns = []
  | .tuples rows => i.columns ≠ [] ∧ ∀ row ∈ rows, row.length = i.columns.length
  | .select cells _ => i.columns ≠ [] ∧ cells.length = i.columns.length

/-! ### All insertions of a text -/

/-- What a text inserts: by one insertion alone, or by a chain of insertions with
names. -/
inductive Inserts where
  | alone (insertion : Insertion)
  | chain (links : List (String × Insertion))

namespace Inserts

def insertions : Inserts → List Insertion
  | alone insertion => [insertion]
  | chain links => links.map Prod.snd

def names : Inserts → List String
  | alone _ => []
  | chain links => links.map Prod.fst

end Inserts

/-- The insertions of a text, up to what follows them. -/
def readInserts (ts : List Token) : Option (Inserts × List Token) :=
  match readChain ts with
  | some (links, rest) => some (.chain links, rest)
  | none => (readInsertion ts).map fun r => (.alone r.1, r.2)

theorem readInserts_of_readChain {ts rest : List Token} {links : List (String × Insertion)}
    (h : readChain ts = some (links, rest)) : readInserts ts = some (.chain links, rest) := by
  rw [readInserts, h]

/-- A text that begins with INSERT does not begin with WITH. -/
theorem readInserts_of_readInsertion {ts rest : List Token} {insertion : Insertion}
    (h : readInsertion ts = some (insertion, rest)) :
    readInserts ts = some (.alone insertion, rest) := by
  have hinsert : words "INSERT INTO" = [.word "INSERT".toList, .word "INTO".toList] := by decide
  have hwith : words "WITH" = [.word "WITH".toList] := by decide
  have hnone : readChain ts = none := by
    obtain ⟨us, hus, -⟩ := Option.bind_eq_some_iff.mp h
    rw [hinsert] at hus
    rcases ts with - | ⟨t, ts⟩
    · cases hus
    · by_cases ht : t = .word "INSERT".toList
      · rw [readChain, hwith, expect_of_ne (by rw [ht]; decide)]
        rfl
      · rw [expect_of_ne ht] at hus
        cases hus
  rw [readInserts, hnone, h]
  rfl

end Sql

namespace Insert

open Sql (Worded Insertion Inserts Token ReadsAs Stops isGlue words readLink readChain readInsertion
  readInserts)

variable {entity : Entity} {value : Json} {options : Options} {i : Insert}

/-! ### The insertion of the records -/

theorem length_of_mem_numbersFrom {offset width : Nat} {rows : List (List Json)}
    (h : ∀ row ∈ rows, row.length = width) :
    ∀ numbers ∈ numbersFrom offset rows, numbers.length = width := by
  induction rows generalizing offset with
  | nil => exact fun numbers hnumbers => absurd hnumbers List.not_mem_nil
  | cons row rows ih =>
    obtain ⟨hrow, hrows⟩ := List.forall_mem_cons.mp h
    rw [numbersFrom, List.forall_mem_cons, List.length_range']
    exact ⟨hrow, ih hrows⟩

/-- Rows as long as the columns are written as such, or as defaults. -/
theorem wellFormed_insertion (hrows : ∀ row ∈ i.rows, row.length = i.columns.length)
    (table : List String) : (i.insertion table).WellFormed := by
  unfold Insertion.WellFormed insertion
  by_cases hcolumns : i.columns.isEmpty = true
  · rw [if_pos hcolumns]
    exact List.isEmpty_iff.mp hcolumns
  · rw [if_neg hcolumns]
    exact ⟨mt List.isEmpty_iff.mpr hcolumns, length_of_mem_numbersFrom hrows⟩

/-- Without junctions, an accepted insert has rows, all as long as its columns. -/
theorem rows_of_ofJson (hdeep : options.deepInsert = false)
    (h : ofJson entity value options = .ok i) :
    i.source = entity.fullName ∧ i.deep = none ∧ i.rows ≠ []
      ∧ ∀ row ∈ i.rows, row.length = i.columns.length := by
  rcases hdocument : options.isDocument entity with - | -
  · obtain ⟨records, -, hne, -, rfl⟩ := (ofJson_eq_ok_iff hdeep hdocument).mp h
    refine ⟨rfl, rfl, mt List.map_eq_nil_iff.mp hne, ?_⟩
    intro row hrow
    obtain ⟨record, -, rfl⟩ := List.mem_map.mp hrow
    exact List.length_map ..
  · -- each document is a row of its own
    obtain ⟨records, -, h⟩ := bind_eq_ok_iff.mp h
    rw [hdeep, hdocument] at h
    rcases records with - | ⟨record, records⟩
    · cases h
    · obtain rfl := Except.ok.inj h
      refine ⟨rfl, rfl, List.cons_ne_nil _ _, ?_⟩
      intro row hrow
      obtain ⟨record', -, rfl⟩ := List.mem_map.mp hrow
      rfl

/-! ### The names of the links -/

theorem linkName_inj {j r j' r' : Nat} (h : linkName j r = linkName j' r') :
    j = j' ∧ r = r' := by
  have hdigits : ∀ n : Nat, (toString n).toList = Nat.toDigits 10 n := fun _ =>
    String.toList_ofList
  have hchars := congrArg String.toList h
  simp only [linkName, String.toList_append, List.append_assoc, hdigits] at hchars
  -- no digit is an underscore
  have hsplit := (List.append_cons_inj_of_notMem Nat.underscore_not_in_toDigits
    Nat.underscore_not_in_toDigits).mp (List.append_cancel_left hchars)
  exact ⟨JsonNumber.toDigits_inj hsplit.1, JsonNumber.toDigits_inj hsplit.2.2⟩

/-- The names of the links of junctions, from junction number `j` on. -/
def linkNames (j : Nat) : List Junction → List String
  | [] => []
  | junction :: junctions =>
    (List.range' 0 junction.rows.length).map (linkName j) ++ linkNames (j + 1) junctions

theorem exists_of_mem_linkNames {j : Nat} {junctions : List Junction} {name : String}
    (h : name ∈ linkNames j junctions) : ∃ j' r, j ≤ j' ∧ name = linkName j' r := by
  induction junctions generalizing j with
  | nil => cases h
  | cons junction junctions ih =>
    rcases List.mem_append.mp h with h | h
    · obtain ⟨r, -, rfl⟩ := List.mem_map.mp h
      exact ⟨j, r, Nat.le_refl j, rfl⟩
    · obtain ⟨j', r, hj, rfl⟩ := ih h
      exact ⟨j', r, by omega, rfl⟩

theorem nodup_linkNames (j : Nat) (junctions : List Junction) :
    (linkNames j junctions).Nodup := by
  induction junctions generalizing j with
  | nil => exact List.nodup_nil
  | cons junction junctions ih =>
    refine List.nodup_append.mpr ⟨?_, ih (j + 1), ?_⟩
    · exact List.Nodup.map (fun r r' h => (linkName_inj h).2) (List.nodup_range' ..)
    · rintro name hname _ hname' rfl
      obtain ⟨r, -, rfl⟩ := List.mem_map.mp hname
      obtain ⟨j', r', hj, h⟩ := exists_of_mem_linkNames hname'
      have := (linkName_inj h).1
      omega

theorem inserted_notMem_linkNames (j : Nat) (junctions : List Junction) :
    "inserted" ∉ linkNames j junctions := by
  intro h
  obtain ⟨j', r, -, h⟩ := exists_of_mem_linkNames h
  have hchars := congrArg String.toList h
  simp [linkName] at hchars

/-- The first word of the text is the name. -/
def Opens (name text : String) : Prop :=
  ∃ ws, words text = .word name.toList :: ws

theorem opens_chainedRow (key : String) (junction : Junction) (j r offset : Nat)
    (row : List (Option Json)) :
    Opens (linkName j r) (chainedRow key junction j r offset row) := by
  have has : isGlue " AS (INSERT INTO " = true := rfl
  have htext : ∃ rest, chainedRow key junction j r offset row
      = linkName j r ++ (" AS (INSERT INTO " ++ rest) := by
    simp only [chainedRow, linkName, String.append_assoc]
    exact ⟨_, rfl⟩
  obtain ⟨rest, htext⟩ := htext
  exact ⟨_, htext ▸ (worded_linkName j r).words_append (Sql.stops_glue_append has rest)⟩

theorem opens_chainedRows (key : String) (junction : Junction) (j r offset : Nat)
    (rows : List (List (Option Json))) :
    List.Forall₂ Opens ((List.range' r rows.length).map (linkName j))
      (chainedRows key junction j r offset rows) := by
  induction rows generalizing r offset with
  | nil => exact .nil
  | cons row rows ih => exact .cons (opens_chainedRow ..) (ih ..)

theorem opens_chained (key : String) (j offset : Nat) (junctions : List Junction) :
    List.Forall₂ Opens (linkNames j junctions) (chained key j offset junctions) := by
  induction junctions generalizing j offset with
  | nil => exact .nil
  | cons junction junctions ih => exact List.rel_append (opens_chainedRows ..) (ih ..)

/-- A link is read with the name that its text begins with. -/
theorem Opens.name_eq {name text : String} (h : Opens name text) {ws : List Token}
    (hw : Worded text ws) {link : String × Insertion} (hr : ReadsAs readLink ws link) :
    link.1 = name := by
  obtain ⟨us, hus⟩ := h
  have hread := hr []
  rw [← hw.words_eq, hus, List.append_nil, readLink] at hread
  obtain ⟨r, hname, hread⟩ := Option.bind_eq_some_iff.mp hread
  obtain rfl := Option.some.inj ((Sql.readsAs_one (Sql.letters?_word name) us).symm.trans hname)
  obtain ⟨us, -, hread⟩ := Option.bind_eq_some_iff.mp hread
  obtain ⟨⟨insertion, us⟩, -, hread⟩ := Option.bind_eq_some_iff.mp hread
  obtain ⟨us, -, hread⟩ := Option.bind_eq_some_iff.mp hread
  exact (congrArg Prod.fst (Prod.mk.inj (Option.some.inj hread)).1).symm

theorem Linked.map_fst {key : String} {params : List Json} {names texts : List String}
    {sites : List Site} {links : List (String × Insertion)} (hopens : List.Forall₂ Opens names texts)
    (h : Linked key params texts sites links) : links.map Prod.fst = names := by
  obtain ⟨wss, hworded, hreads, -⟩ := h
  induction hopens generalizing wss links with
  | nil =>
    cases hworded
    cases hreads
    rfl
  | cons hhead _ ih =>
    obtain - | ⟨hw, hworded⟩ := hworded
    obtain - | ⟨hr, hreads⟩ := hreads
    rw [List.map_cons, hhead.name_eq hw hr, ih _ hworded hreads]

/-! ### The links -/

/-- The link of an object is well formed when its junction has a member at all. -/
theorem Chains.wellFormed_iff {key : String} {params : List Json} {site : Site}
    {link : String × Insertion} (h : Chains key params site link) :
    link.2.WellFormed ↔ ∃ object ∈ site.objects, object ≠ [] := by
  obtain ⟨cells, hrows, hcells⟩ := h.cells
  have hlength : cells.length = link.2.columns.length := by
    rw [← length_of_mapM_eq_some hcells, List.length_map]
  have hcolumns : link.2.columns = [] ↔ ∀ object ∈ site.objects, object = [] := by
    rw [h.columns, ← columnsOf_eq, columnsOf_eq_nil_iff]
  unfold Insertion.WellFormed
  rw [hrows]
  simp only [hlength, and_true, Ne, hcolumns, not_forall, exists_prop]

/-! ### What is written -/

/-- What follows the insertions of an insert. -/
def closing (i : Insert) : String :=
  match i.deep with
  | some _ => " SELECT " ++ i.options.projection ++ " FROM inserted"
  | none => i.ending

/-- An insert without junctions is one insertion, and it is well formed. -/
theorem exists_inserts_alone (hdeep : options.deepInsert = false)
    (h : ofJson entity value options = .ok i) :
    ∃ insertion, readInserts (words i.sql) = some (.alone insertion, words i.closing)
      ∧ insertion.WellFormed := by
  obtain ⟨hsource, hnone, hne, hrows⟩ := rows_of_ofJson hdeep h
  have hread := readInsertion_sql (hsource.trans entity.fullName_eq_sql) entity.nameParts_ne_nil
    hne hnone
  have hclosing : i.closing = i.ending := by rw [closing, hnone]
  exact ⟨i.insertion entity.nameParts, hclosing ▸ Sql.readInserts_of_readInsertion hread,
    wellFormed_insertion hrows _⟩

/-- A deep insert is a chain of insertions, each under a name of its own.  The
first one is well formed, and one for an object of a junction when the junction
has a member. -/
theorem exists_inserts_chain (hdeep : options.deepInsert = true)
    (h : ofJson entity value options = .ok i) :
    ∃ record parent links, HoldsRecords value [record]
      ∧ readInserts (words i.sql) = some (.chain (("inserted", parent) :: links), words i.closing)
      ∧ ("inserted" :: links.map Prod.fst).Nodup ∧ parent.WellFormed
      ∧ List.Forall₂ (fun site link => link.2.WellFormed ↔ ∃ object ∈ site.objects, object ≠ [])
        (sites entity record) links := by
  obtain ⟨record, hholds, h⟩ := ofJson_eq_ok_of_deep hdeep h
  obtain ⟨key, junctions, -, -, hjunctions, rfl⟩ := deepOf_eq_ok h
  generalize hi : (Insert.mk entity.fullName ((own entity record).map Prod.fst)
    [(own entity record).map Prod.snd] (some ⟨key, junctions⟩) options) = i
  have hrow : i.rows = [(own entity record).map Prod.snd] := by rw [← hi]
  have hrows : ∀ row ∈ i.rows, row.length = i.columns.length := by
    intro row hmem
    rw [hrow] at hmem
    rw [List.mem_singleton.mp hmem, ← hi, List.length_map, List.length_map]
  have hsource : i.source = Identifier.sql ⟨entity.nameParts⟩ := by
    rw [← hi]
    exact entity.fullName_eq_sql
  have hsome : i.deep = some ⟨key, junctions⟩ := by rw [← hi]
  have hparams : i.params = i.ownParams ++ junctions.flatMap Junction.params := by rw [← hi]; rfl
  obtain ⟨links, hlinks⟩ := exists_links (forall₂_of_junctionsOf hjunctions) key [] 0 i.ownParams
  rw [List.append_nil, ← hparams] at hlinks
  have hread := readChain_sql hsource entity.nameParts_ne_nil
    (by rw [hrow]; exact List.cons_ne_nil _ _) hsome hlinks
  have hnames := hlinks.map_fst (opens_chained key 0 i.ownParams.length junctions)
  have hclosing : i.closing = " SELECT " ++ i.options.projection ++ " FROM inserted" := by
    rw [closing, hsome]
  obtain ⟨-, -, -, hchains⟩ := hlinks
  refine ⟨record, i.insertion entity.nameParts, links, hholds,
    hclosing ▸ Sql.readInserts_of_readChain hread, ?_, wellFormed_insertion hrows _,
    hchains.imp fun _ _ hchain => hchain.wellFormed_iff⟩
  rw [hnames, List.nodup_cons]
  exact ⟨inserted_notMem_linkNames 0 junctions, nodup_linkNames 0 junctions⟩

/-! ### Main result -/

/-- What holds of an item just when it holds of the one beside it holds of all
items or of none of the lists. -/
theorem forall_mem_iff_of_forall₂ {α β : Type} {P : α → Prop} {Q : β → Prop} {xs : List α}
    {ys : List β} (h : List.Forall₂ (fun x y => Q y ↔ P x) xs ys) :
    (∀ y ∈ ys, Q y) ↔ ∀ x ∈ xs, P x := by
  induction h with
  | nil => exact ⟨fun _ x hx => absurd hx List.not_mem_nil, fun _ y hy => absurd hy List.not_mem_nil⟩
  | cons hhead _ ih => rw [List.forall_mem_cons, List.forall_mem_cons, hhead, ih]

/-- Every junction with objects has a member in one of them. -/
def JunctionsFilled (entity : Entity) (value : Json) : Prop :=
  ∀ record, HoldsRecords value [record] →
    ∀ site ∈ sites entity record, ∃ object ∈ site.objects, object ≠ []

/-- The insertions of every accepted insert are read from its text, and no two of
a chain have the same name.  All of them are well formed, that is, without columns
and with defaults or with columns and with rows as long as these, just when the
insert is not deep or every junction that has objects has a member in one of
them. -/
theorem inserts_wellFormed_iff (entity : Entity) (value : Json) (options : Options) (i : Insert)
    (h : ofJson entity value options = .ok i) :
    ∃ inserts, readInserts (words i.sql) = some (inserts, words i.closing)
      ∧ inserts.names.Nodup
      ∧ ((∀ insertion ∈ inserts.insertions, insertion.WellFormed)
        ↔ (options.deepInsert = true → JunctionsFilled entity value)) := by
  rcases hdeep : options.deepInsert with - | -
  · obtain ⟨insertion, hread, hwell⟩ := exists_inserts_alone hdeep h
    refine ⟨_, hread, List.nodup_nil, fun _ hfalse => (nomatch hfalse), fun _ => ?_⟩
    exact List.forall_mem_singleton.mpr hwell
  · obtain ⟨record, parent, links, hholds, hread, hnodup, hparent, hsites⟩ :=
      exists_inserts_chain hdeep h
    refine ⟨_, hread, hnodup, ?_⟩
    have hfilled : JunctionsFilled entity value
        ↔ ∀ site ∈ sites entity record, ∃ object ∈ site.objects, object ≠ [] := by
      refine ⟨fun h => h record hholds, fun h record' hholds' => ?_⟩
      obtain rfl := (List.cons.inj (hholds.unique hholds')).1
      exact h
    rw [hfilled, ← forall_mem_iff_of_forall₂ hsites]
    show (∀ insertion ∈ parent :: links.map Prod.snd, insertion.WellFormed) ↔ _
    simp only [List.forall_mem_cons, hparent, true_and, List.forall_mem_map, true_implies]

/-- An empty object beside one that is not, and a junction without objects. -/
theorem inserts_wellFormed_iff_tags :
    ∃ i inserts,
      ofJson ⟨"public", "users", ["id"], ["id", "name"], false⟩
        (.obj [("name", .str "alice"), ("tags", .arr [.obj [], .obj [("tag", .str "x")]]),
          ("notes", .arr [])]) Options.none.asDeepInsert = .ok i
      ∧ readInserts (words i.sql) = some (inserts, words i.closing)
      ∧ inserts.names.Nodup ∧ ∀ insertion ∈ inserts.insertions, insertion.WellFormed := by
  generalize hentity : (⟨"public", "users", ["id"], ["id", "name"], false⟩ : Entity) = entity
  generalize hrecord : ([("name", .str "alice"),
    ("tags", .arr [.obj [], .obj [("tag", .str "x")]]), ("notes", .arr [])] : Members) = record
  obtain ⟨i, hi⟩ : ∃ i, ofJson entity (.obj record) Options.none.asDeepInsert = .ok i := by
    rw [← hentity, ← hrecord]
    exact exists_of_toBool (by decide +kernel)
  obtain ⟨inserts, hread, hnodup, hwell⟩ :=
    inserts_wellFormed_iff entity (.obj record) Options.none.asDeepInsert i hi
  refine ⟨i, inserts, hi, hread, hnodup, hwell.mpr fun _ record' hholds site hsite => ?_⟩
  obtain rfl := (List.cons.inj (hholds.unique (.one record))).1
  have hsites : sites entity record' = [⟨"tags", [[], [("tag", .str "x")]], []⟩,
      ⟨"tags", [[], [("tag", .str "x")]], [("tag", .str "x")]⟩] := by
    rw [← hentity, ← hrecord]
    rfl
  rw [hsites] at hsite
  refine ⟨[("tag", .str "x")], ?_, List.cons_ne_nil _ _⟩
  rcases List.mem_cons.mp hsite with rfl | hsite
  · simp
  · rw [List.mem_singleton.mp hsite]
    simp

/-- A junction of one empty object is inserted with no columns and no cells. -/
theorem not_forall_inserts_wellFormed :
    ¬∀ (entity : Entity) (value : Json) (options : Options) (i : Insert) (inserts : Inserts)
      (rest : List Token), ofJson entity value options = .ok i →
      readInserts (words i.sql) = some (inserts, rest) →
      ∀ insertion ∈ inserts.insertions, insertion.WellFormed := by
  intro h
  generalize hentity : (⟨"", "users", ["id"], ["id", "name"], false⟩ : Entity) = entity
  generalize hrecord : ([("name", .str "alice"), ("tags", .arr [.obj []])] : Members) = record
  obtain ⟨i, hi⟩ : ∃ i, ofJson entity (.obj record) Options.none.asDeepInsert = .ok i := by
    rw [← hentity, ← hrecord]
    exact exists_of_toBool (by decide +kernel)
  obtain ⟨record', parent, links, hholds, hread, -, -, hsites⟩ := exists_inserts_chain rfl hi
  obtain rfl := (List.cons.inj (hholds.unique (.one record))).1
  have hall := h entity _ _ i _ _ hi hread
  have hlinks : ∀ link ∈ links, link.2.WellFormed := fun link hlink =>
    hall link.2 (List.mem_cons_of_mem _ (List.mem_map_of_mem hlink))
  have hsite : ⟨"tags", [[]], []⟩ ∈ sites entity record' := by
    rw [← hentity, ← hrecord]
    exact List.mem_singleton_self _
  obtain ⟨object, hobject, hne⟩ := (forall_mem_iff_of_forall₂ hsites).mp hlinks _ hsite
  exact hne (List.mem_singleton.mp hobject)

end Insert

end CriteriaSql
