import RowGuard.Proofs.Json.Order
import RowGuard.Proofs.Text.Numeral
import RowGuard.Proofs.Value.Atom

/-!
# The record that a command names

The records of a fixture are the rows of its tables
(`Files.records_of_document`).  If the identities of an entity are distinct, and
all integers or all strings, each is found by itself
(`Store.find?_eq_some_iff`).  On a command line an identity is a text.  The text
of an integer stands for that integer, whereas a string that looks like an
integer stands for the integer and not for itself
(`Value.Written.identityOfText_eq_iff`), and the record of such a string is not
found (`Command.run_eval_iff`).
-/

namespace RowGuard

/-! ## Records of fixtures -/

namespace Store

theorem records_insert (s : Store) (r : Record) (entity : String) :
    (s.insert r).records entity = s.records entity ++ [r].filter
      (·.entity == some entity) := by
  unfold insert
  by_cases hinstance : r.entity.isSome
  · rw [if_pos hinstance]
    exact List.filter_append ..
  · have hnone : r.entity = none := by
      rwa [Option.not_isSome_iff_eq_none] at hinstance
    have hother : (r.entity == some entity) = false := by rw [hnone]; rfl
    rw [if_neg hinstance, List.filter_cons, hother, List.filter_nil]
    exact (List.append_nil _).symm

theorem records_foldl_insert (s : Store) (rs : List Record) (entity : String) :
    (rs.foldl insert s).records entity =
      s.records entity ++ rs.filter (·.entity == some entity) := by
  induction rs generalizing s with
  | nil => exact (List.append_nil _).symm
  | cons r rs ih =>
    rw [List.foldl_cons, ih, records_insert, List.append_assoc,
      ← List.filter_append]
    rfl

/-- The records that the rows of a table stand for. -/
def ofRows (entity : String) (rows : List Json) : List Record :=
  rows.filterMap (Record.ofRow? entity)

theorem records_insertTable (s : Store) (name : String) (rows : List Json)
    (entity : String) :
    (s.insertTable name rows).records entity =
      s.records entity ++ if entity = name then ofRows entity rows else [] := by
  have hentity : ∀ r ∈ ofRows name rows, r.entity = some name := by
    intro r hr
    obtain ⟨row, -, hrow⟩ := List.mem_filterMap.1 hr
    unfold Record.ofRow? at hrow
    split at hrow
    · rw [← Option.some.inj hrow]
    · cases hrow
  unfold insertTable
  rw [records_foldl_insert]
  congr 1
  by_cases hname : entity = name
  · rw [if_pos hname, hname]
    exact List.filter_eq_self.2 fun r hr => by
      rw [hentity r hr, beq_self_eq_true]
  · rw [if_neg hname]
    refine List.filter_eq_nil_iff.2 fun r hr heq => hname ?_
    rw [hentity r hr, beq_iff_eq, Option.some_inj] at heq
    exact heq.symm

/-- The rows of the table of an entity. -/
def tableRows (tables : List (String × Json)) (entity : String) : List Json :=
  match tables.lookup entity with
  | some (.array rows) => rows
  | _ => []

theorem tableRows_cons_self (name : String) (table : Json)
    (tables : List (String × Json)) :
    tableRows ((name, table) :: tables) name =
      match table with
      | .array rows => rows
      | _ => [] := by
  rw [tableRows, List.lookup_cons_self]
  cases table <;> rfl

theorem tableRows_cons_of_ne {name entity : String} (h : entity ≠ name)
    (table : Json) (tables : List (String × Json)) :
    tableRows ((name, table) :: tables) entity = tableRows tables entity := by
  rw [tableRows, List.lookup_cons, beq_eq_false_iff_ne.2 h]
  rfl

theorem tableRows_of_notMem {tables : List (String × Json)} {entity : String}
    (h : entity ∉ tables.map Prod.fst) : tableRows tables entity = [] := by
  rw [tableRows, List.lookup_eq_none_iff.2]
  intro table hmem
  rw [bne_iff_ne]
  intro heq
  exact h (heq ▸ List.mem_map_of_mem hmem)

theorem records_insertTables (s : Store) {tables : List (String × Json)}
    (hnames : (tables.map Prod.fst).Nodup) (entity : String) :
    (tables.foldl (fun s table =>
        match table.2 with
        | .array rows => s.insertTable table.1 rows
        | _ => s) s).records entity =
      s.records entity ++ ofRows entity (tableRows tables entity) := by
  induction tables generalizing s with
  | nil => exact (List.append_nil _).symm
  | cons table tables ih =>
    obtain ⟨name, table⟩ := table
    obtain ⟨hfresh, hnames⟩ := List.nodup_cons.1 hnames
    rw [List.foldl_cons, ih _ hnames]
    by_cases hname : entity = name
    · subst hname
      rw [tableRows_cons_self, tableRows_of_notMem hfresh]
      cases table with
      | array rows =>
        rw [records_insertTable, if_pos rfl]
        exact List.append_nil _
      | _ => rfl
    · rw [tableRows_cons_of_ne hname]
      cases table with
      | array rows => rw [records_insertTable, if_neg hname, List.append_nil]
      | _ => rfl

/-- The records of an entity are the rows of its table that are objects, in
their order. -/
theorem records_read? {document : Document} {s : Store}
    (h : read? document = some s) :
    ∃ tables, document.toJson? = some (.object tables) ∧
      ∀ entity, s.records entity = ofRows entity (tableRows tables entity) := by
  have hascending : ∀ tables, document.toJson? = some (.object tables) →
      (tables.map Prod.fst).Nodup := by
    intro tables htables
    cases document with
    | object members =>
      rw [Document.toJson?, Option.map_eq_some_iff] at htables
      obtain ⟨members, -, hmembers⟩ := htables
      rw [← Json.object.inj hmembers]
      exact (Json.sortMembers_ascending members).nodup
    | array items =>
      rw [Document.toJson?, Option.map_eq_some_iff] at htables
      obtain ⟨items, -, hitems⟩ := htables
      cases hitems
    | _ => cases htables
  unfold read? at h
  obtain ⟨json, hjson, h⟩ := Option.bind_eq_some_iff.1 h
  split at h
  · next tables =>
    refine ⟨tables, hjson, fun entity => ?_⟩
    split at h
    · rw [← Option.some.inj h]
      exact records_insertTables empty (hascending tables hjson) entity
    · cases h
  · cases h

end Store

namespace Files

variable {files : Files} {file : String}

/-- A document that is read stands in the file. -/
theorem document_eq_ok_iff {α : Type} {read : Document → Option α} {a : α} :
    files.document read file = .ok a ↔
      ∃ text document, files file = .ok text ∧
        Document.parse? text = some document ∧ read document = some a := by
  unfold document
  cases files file with
  | error reason => simp
  | ok text =>
    cases hparse : Document.parse? text with
    | none => simp [hparse]
    | some document =>
      cases hread : read document with
      | none => simp [hparse, hread]
      | some found => simp [hparse, hread]

/-- The records of an entity are the rows of its table in the file. -/
theorem records_of_document {store : Store}
    (h : files.document Store.read? file = .ok store) (entity : String) :
    ∃ tables, files.document Document.toJson? file = .ok (.object tables) ∧
      store.records entity =
        Store.ofRows entity (Store.tableRows tables entity) := by
  obtain ⟨text, document, htext, hparse, hread⟩ := document_eq_ok_iff.1 h
  obtain ⟨tables, hjson, hrecords⟩ := Store.records_read? hread
  have htables := document_eq_ok_iff.2 ⟨text, document, htext, hparse, hjson⟩
  exact ⟨tables, htables, hrecords entity⟩

end Files

/-! ## Looking a record up -/

/-- The text of an identity on a command line: an integer in decimal, a string
as it stands. -/
inductive Value.Written : Value → String → Prop where
  | int64 (n : Int64) : Written (.int64 n) (toString n.toInt)
  | string (text : String) : Written (.string text) text

namespace Value.Written

variable {v w : Value} {text text' : String}

/-- Identities of the two kinds agree if they are one. -/
theorem agrees_iff (hv : v.Written text) (hw : w.Written text') :
    v.agrees w = true ↔ v = w := by
  cases hv with
  | int64 n =>
    cases hw with
    | int64 m =>
      rw [Value.agrees_iff rfl rfl, Atom.int.injEq, Value.int64.injEq,
        Int64.toInt_inj]
    | string _ =>
      rw [Value.agrees_iff rfl rfl]
      constructor <;> intro h <;> cases h
  | string _ =>
    cases hw with
    | int64 m =>
      rw [Value.agrees_iff rfl rfl]
      constructor <;> intro h <;> cases h
    | string _ =>
      rw [Value.agrees_iff rfl rfl, Atom.string.injEq, Value.string.injEq]

/-- The text of an identity stands for it, unless it is a string that looks like
an integer. -/
theorem identityOfText_eq_iff (h : v.Written text) :
    identityOfText text = v ↔
      (v = .string text → ∀ n : Int64, ¬ IntegerText text.toList n.toInt) := by
  unfold identityOfText
  cases h with
  | int64 n =>
    rw [int64OfText?_toString]
    constructor
    · intro _ hstring
      cases hstring
    · intro _
      rfl
  | string =>
    cases hread : int64OfText? text with
    | none =>
      refine ⟨fun _ _ n hn => ?_, fun _ => rfl⟩
      rw [← int64OfText?_eq_some_iff, hread] at hn
      cases hn
    | some n =>
      constructor
      · intro heq
        cases heq
      · intro hlooks
        exact absurd (int64OfText?_eq_some_iff.1 hread) (hlooks rfl n)

end Value.Written

namespace Store

/-- The identities of the records of an entity. -/
def ids (s : Store) (entity : String) : List Value :=
  (s.records entity).filterMap Record.id?

/-- The identities of an entity are distinct, and all integers or all
strings. -/
structure Labelled (s : Store) (entity : String) : Prop where
  distinct : (s.ids entity).Nodup
  alike : (∀ id ∈ s.ids entity, ∃ n, id = .int64 n) ∨
    ∀ id ∈ s.ids entity, ∃ text, id = .string text

namespace Labelled

variable {s : Store} {entity : String} {r p : Record} {id : Value}

theorem written (h : s.Labelled entity) (hr : r ∈ s.records entity)
    (hid : r.id? = some id) :
    ∃ text, id.Written text := by
  have hmem : id ∈ s.ids entity := List.mem_filterMap.2 ⟨r, hr, hid⟩
  rcases h.alike with hints | hstrings
  · obtain ⟨n, rfl⟩ := hints id hmem
    exact ⟨_, .int64 n⟩
  · obtain ⟨text, rfl⟩ := hstrings id hmem
    exact ⟨_, .string text⟩

/-- An identity belongs to one record. -/
theorem unique (h : s.Labelled entity) (hr : r ∈ s.records entity)
    (hp : p ∈ s.records entity) (hid : r.id? = some id)
    (hid' : p.id? = some id) : r = p := by
  have hpairs := List.pairwise_filterMap.1 h.distinct
  by_contra hne
  have hsymm : Std.Symm fun a b : Record =>
      ∀ v, a.id? = some v → ∀ w, b.id? = some w → v ≠ w :=
    ⟨fun a b hab v hv w hw heq => hab w hw v hv heq.symm⟩
  exact hpairs.forall hr hp hne id hid id hid' rfl

end Labelled

/-- An identity finds the record that bears it. -/
theorem find?_eq_some_iff {s : Store} {entity text : String} {id : Value}
    {r : Record} (h : s.Labelled entity) (hwritten : id.Written text) :
    s.find? entity id = some r ↔ r ∈ s.records entity ∧ r.id? = some id := by
  have hagrees : ∀ p ∈ s.records entity, p.id?.any (·.agrees id) = true ↔
      p.id? = some id := by
    intro p hp
    cases hid : p.id? with
    | none => constructor <;> intro hnone <;> cases hnone
    | some id' =>
      obtain ⟨text', hwritten'⟩ := h.written hp hid
      rw [Option.any_some, hwritten'.agrees_iff hwritten, Option.some_inj]
  unfold find?
  constructor
  · intro hfind
    have hmem := List.mem_of_find?_eq_some hfind
    have hany := List.find?_some hfind
    exact ⟨hmem, (hagrees r hmem).1 hany⟩
  · intro hr
    cases hfind : (s.records entity).find? fun p => p.id?.any (·.agrees id) with
    | none =>
      exact absurd ((hagrees r hr.1).2 hr.2) (List.find?_eq_none.1 hfind r hr.1)
    | some p =>
      have hmem := List.mem_of_find?_eq_some hfind
      have hany := List.find?_some hfind
      rw [h.unique hmem hr.1 ((hagrees p hmem).1 hany) hr.2]

/-- Where an identity is a string, no integer finds a record. -/
theorem find?_int64_eq_none {s : Store} {entity text : String} {r : Record}
    (h : s.Labelled entity) (hr : r ∈ s.records entity)
    (hid : r.id? = some (.string text)) (n : Int64) :
    s.find? entity (.int64 n) = none := by
  cases hfind : s.find? entity (.int64 n) with
  | none => rfl
  | some p =>
    obtain ⟨hp, hid'⟩ := (find?_eq_some_iff h (.int64 n)).1 hfind
    rcases h.alike with hints | hstrings
    · obtain ⟨m, hm⟩ := hints _ (List.mem_filterMap.2 ⟨r, hr, hid⟩)
      cases hm
    · obtain ⟨other, hother⟩ := hstrings _ (List.mem_filterMap.2 ⟨p, hp, hid'⟩)
      cases hother

end Store

/-! ## Running the command -/

namespace Command

/-- The report of the value at a path from a record. -/
def reportAt (format : ReportFormat) (schema : Schema) (store : Store)
    (path : Path) (subject : Record) : Except CommandError String := do
  let evaluator : Evaluator Store := { schema, loader := some (Store.loader 0) }
  let value ← (runFresh store
    (evaluator.evaluate path (.record subject))).mapError .evaluation
  return Report.value format value

/-- A report is no complaint about the identity. -/
theorem reportAt_ne_notFound (format : ReportFormat) (schema : Schema)
    (store : Store) (path : Path) (subject : Record) (entity text : String) :
    reportAt format schema store path subject ≠
      .error (.notFound entity text) := by
  unfold reportAt
  dsimp only
  generalize runFresh store _ = result
  intro h
  cases result <;> cases h

section

variable (files : Files) (format : ReportFormat)
  {schemaFile storeFile entity text dotted : String} {schema : Schema}
  {store : Store} {path : Path} {r : Record} {id : Value}

/-- The command looks its subject up and evaluates the path on it. -/
theorem run_eval_eq (hschema : files.schema schemaFile = .ok schema)
    (hstore : files.document Store.read? storeFile = .ok store)
    (hpath : Path.parse dotted = .ok path) :
    run files format (.eval schemaFile storeFile entity text dotted) =
      (store.find? entity (identityOfText text)).elim
        (.error (.notFound entity text))
        (reportAt format schema store path) := by
  rw [run, hschema, hstore, hpath]
  dsimp only [bind, Except.bind, Except.mapError]
  cases store.find? entity (identityOfText text) <;> rfl

/-- The records are the rows of the fixture.  The record of an identity is found
by the text of the identity, and the path is evaluated on it, exactly if the
identity is not a string that looks like an integer of 64 bits.  Of such a
string the command says that there is no such record. -/
theorem run_eval_iff (hschema : files.schema schemaFile = .ok schema)
    (hstore : files.document Store.read? storeFile = .ok store)
    (hpath : Path.parse dotted = .ok path) (hlabelled : store.Labelled entity)
    (hr : r ∈ store.records entity) (hid : r.id? = some id)
    (hwritten : id.Written text) :
    (run files format (.eval schemaFile storeFile entity text dotted) =
        reportAt format schema store path r ↔
      (id = .string text → ∀ n : Int64, ¬ IntegerText text.toList n.toInt)) ∧
    (run files format (.eval schemaFile storeFile entity text dotted) =
        .error (.notFound entity text) ↔
      id = .string text ∧ ∃ n : Int64, IntegerText text.toList n.toInt) ∧
    ∃ tables, files.document Document.toJson? storeFile = .ok (.object tables) ∧
      store.records entity =
        Store.ofRows entity (Store.tableRows tables entity) := by
  have hrows := files.records_of_document hstore entity
  rw [run_eval_eq files format hschema hstore hpath]
  have hlooks := hwritten.identityOfText_eq_iff
  have hfound := reportAt_ne_notFound format schema store path r entity text
  by_cases hread : identityOfText text = id
  · have hfind := (Store.find?_eq_some_iff hlabelled hwritten).2 ⟨hr, hid⟩
    rw [hread, hfind]
    refine ⟨iff_of_true rfl (hlooks.1 hread), iff_of_false hfound ?_, hrows⟩
    intro hinteger
    obtain ⟨hstring, n, hn⟩ := hinteger
    exact hlooks.1 hread hstring n hn
  · have hinteger : id = .string text ∧
        ∃ n : Int64, IntegerText text.toList n.toInt := by
      have hnot := mt hlooks.2 hread
      push Not at hnot
      exact hnot
    obtain ⟨hstring, n, hn⟩ := hinteger
    have hint : identityOfText text = .int64 n := by
      rw [identityOfText, int64OfText?_eq_some_iff.2 hn]
    rw [hint, Store.find?_int64_eq_none hlabelled hr (hstring ▸ hid) n]
    refine ⟨iff_of_false ?_ ?_, iff_of_true rfl ⟨hstring, n, hn⟩, hrows⟩
    · exact hfound.symm
    · intro hplain
      exact hplain hstring n hn

end

end Command

/-! ## A registry -/

namespace Registry

/-- Users with strings for identities, posts with integers. -/
def files : Files := fun file =>
  if file = "schema" then
    .ok "[\x7b\"name\": \"user\"\x7d, \x7b\"name\": \"post\"\x7d]"
  else
    .ok
      "\x7b\"user\": [\x7b\"id\":\"ann\"\x7d, \x7b\"id\":\"7\"\x7d], \"post\": [\x7b\"id\":-6\x7d]\x7d"

def schema : Schema where
  entities := [.new "user", .new "post"]
  names_nodup := by decide
  targets_declared := by decide

def user (id : String) : Record := ⟨some "user", [("id", .string id)]⟩

def post (n : Int64) : Record := ⟨some "post", [("id", .int64 n)]⟩

def store : Store := ⟨[post (-6), user "ann", user "7"], [], 0⟩

theorem files_schema : files.schema "schema" = .ok schema := by cbv

theorem files_store : files.document Store.read? "store" = .ok store := by cbv

theorem records_user : store.records "user" = [user "ann", user "7"] := rfl

theorem records_post : store.records "post" = [post (-6)] := rfl

theorem labelled_user : store.Labelled "user" := by
  have hids : store.ids "user" = [.string "ann", .string "7"] := rfl
  constructor
  · rw [hids]
    simp
  · rw [hids]
    exact .inr (by simp)

theorem labelled_post : store.Labelled "post" := by
  have hids : store.ids "post" = [.int64 (-6)] := rfl
  constructor
  · rw [hids]
    exact List.nodup_singleton _
  · rw [hids]
    exact .inl (by simp)

end Registry

namespace Command

open Registry

/-- A user and a post are found by their identities; a user whose identity looks
like an integer is not. -/
theorem run_eval_iff_registry :
    run files .json (.eval "schema" "store" "user" "ann" "id") = .ok "\"ann\"" ∧
      run files .json (.eval "schema" "store" "post" "-6" "id") = .ok "-6" ∧
      run files .json (.eval "schema" "store" "user" "7" "id") =
        .error (.notFound "user" "7") := by
  have hpath : Path.parse "id" = .ok [.plain "id"] := rfl
  have hann := run_eval_iff files .json files_schema files_store hpath
    labelled_user (records_user ▸ .head _) (r := user "ann") rfl (.string "ann")
  have hsix := run_eval_iff files .json files_schema files_store hpath
    labelled_post (records_post ▸ .head _) (r := post (-6)) rfl (.int64 (-6))
  have hseven := run_eval_iff files .json files_schema files_store hpath
    labelled_user (records_user ▸ .tail _ (.head _)) (r := user "7") rfl
    (.string "7")
  refine ⟨?_, ?_, ?_⟩
  · have hplain : ∀ n : Int64, ¬ IntegerText "ann".toList n.toInt := by
      intro n hn
      cases (int64OfText?_eq_some_iff.2 hn : none = some n)
    refine (hann.1.2 fun _ => hplain).trans ?_
    cbv
  · have hinteger : Value.int64 (-6) ≠ .string "-6" := by
      intro h
      cases h
    refine (hsix.1.2 fun h => absurd h hinteger).trans ?_
    cbv
  · have hread : int64OfText? "7" = some 7 := by cbv
    exact hseven.2.1.2 ⟨rfl, 7, int64OfText?_eq_some_iff.1 hread⟩

/-- The record of a string that looks like an integer is not found, though it is
there. -/
theorem run_eval_misses_seven :
    files.schema "schema" = .ok schema ∧
      files.document Store.read? "store" = .ok store ∧
      Path.parse "id" = .ok [.plain "id"] ∧ store.Labelled "user" ∧
      user "7" ∈ store.records "user" ∧ (user "7").id? = some (.string "7") ∧
      (Value.string "7").Written "7" ∧
      run files .json (.eval "schema" "store" "user" "7" "id") =
        .error (.notFound "user" "7") := by
  refine ⟨files_schema, files_store, rfl, labelled_user, ?_, rfl,
    .string "7", by cbv⟩
  rw [records_user]
  exact .tail _ (.head _)

end Command

end RowGuard
