import RowGuard.Evaluation.Decision
import RowGuard.Proofs.Scope.Tracks

/-!
# Where a query and a decision differ

A comparison with a literal for equality or membership can be compiled into a
query, and it can be decided for a loaded record.  Both go along the same track,
and on a complete store they meet the same values at its ends.  They differ in
what they make of these values, and the two results of this module say where.

* `Compiler.select_agrees_toOne_iff`, for paths through parents: a negative
  operator holds of null when it is decided and never in a query, and equality
  with a list is membership in a query and never holds when it is decided.
* `Compiler.select_agrees_toMany_iff`, for paths that lead through children:
  equality holds of no value at all when it is decided, and in a query it takes
  a value.
-/

namespace RowGuard

/-- Whether the operator is equality or its opposite. -/
def Operator.isEquality : Operator → Bool
  | .eq | .neq => true
  | _ => false

/-! ## Single values -/

/-- Some item of the value passes the comparison in a query. -/
def Operator.PassesIn (op : Operator) (w v : Value) : Prop :=
  ∃ x ∈ v.toItems, Engine.comparator.compare op x.identityOrSelf w = .yes

namespace Operator.Asks

variable {op : Operator} {w v : Value}

/-- For a value that is no list the decision is whether its identity or itself
is accepted.  No such value equals a list. -/
theorem compare_single (h : op.Asks w) (hlist : v.isList = false)
    (hself : v.identityOrSelf.isList = false) :
    op.compare v w =
      .ok ((!(op.isEquality && w.isList) && w.accepts v.identityOrSelf) !=
        op.isNegative) := by
  have hintersects : v.intersects w = w.accepts v.identityOrSelf := by
    rw [h.scalars.intersects_eq]
    cases hnull : v.isNull with
    | true =>
      obtain rfl := Value.eq_null_of_isNull hnull
      exact h.scalars.accepts_null.symm
    | false =>
      rw [Value.toItems_of_single hnull hlist, List.any_cons, List.any_nil,
        Bool.or_false]
  have hagrees := h.scalars.agrees_eq hlist hself
  cases op with
  | eq | neq => simp [compare, isEquality, isNegative, hagrees]
  | mem | notMem => simp [compare, isEquality, isNegative, hintersects]
  | gt | gte | lt | lte => cases h.unordered

/-- Null passes in no query, and where nothing is null a query differs in that
equality with a list is membership. -/
theorem passesIn_single_iff (h : op.Asks w) (hlist : v.isList = false)
    (hself : v.isNull = false → ∃ a, v.identityOrSelf.atom? = some a) :
    ∃ b, op.compare v w = .ok b ∧ ((op.PassesIn w v ↔ b = true) ↔
      ¬ (op.isNegative = true ∧ v.isNull = true ∨
        op.isEquality = true ∧ w.isList = true ∧ v.intersects w = true)) := by
  cases hnull : v.isNull with
  | true =>
    obtain rfl := Value.eq_null_of_isNull hnull
    have hpasses : ¬ op.PassesIn w .null := by
      rintro ⟨x, hx, -⟩
      cases hx
    have haccepts : w.accepts Value.null.identityOrSelf = false :=
      h.scalars.accepts_null
    have hintersects : Value.null.intersects w = false := by
      rw [h.scalars.intersects_eq]
      rfl
    refine ⟨_, h.compare_single rfl rfl, ?_⟩
    rw [haccepts, Bool.and_false, hintersects, iff_false_left hpasses]
    cases op.isNegative <;> simp
  | false =>
    obtain ⟨a, ha⟩ := hself hnull
    have hitems := Value.toItems_of_single hnull hlist
    have hpasses : op.PassesIn w v ↔
        (w.accepts v.identityOrSelf != op.isNegative) = true := by
      rw [PassesIn, hitems]
      simp only [List.mem_singleton, exists_eq_left]
      rw [h.scalars.compare_eq_yes_iff h.unordered,
        and_iff_right (Value.isNull_of_atom ha)]
    have hintersects : v.intersects w = w.accepts v.identityOrSelf := by
      rw [h.scalars.intersects_eq, hitems, List.any_cons, List.any_nil,
        Bool.or_false]
    refine ⟨_, h.compare_single hlist (Value.isList_of_atom ha), ?_⟩
    rw [hpasses, hintersects]
    cases w.accepts v.identityOrSelf <;> cases op.isNegative <;>
      cases op.isEquality <;>
      cases w.isList <;> decide

end Operator.Asks

/-! ## Lists -/

theorem anyAgrees_eq (items : List Value) (w : Value) :
    anyAgrees items w = items.any (·.agrees w) := by
  induction items with
  | nil => rw [anyAgrees, List.any_nil]
  | cons item items ih => rw [anyAgrees, ih, List.any_cons]

/-- A list agrees with a scalar if it is empty or the identity of an item, or
the item, is accepted. -/
theorem Value.Scalars.agrees_list {w : Value} (hw : w.isScalar = true)
    {items : List Value}
    (hitems : ∀ x ∈ items, x.isList = false ∧
      ∃ a, x.identityOrSelf.atom? = some a) :
    (Value.list items).agrees w =
      (items.isEmpty || items.any fun x => w.accepts x.identityOrSelf) := by
  have hitem : ∀ x ∈ items, x.agrees w = w.accepts x.identityOrSelf := by
    intro x hx
    obtain ⟨hlist, a, ha⟩ := hitems x hx
    rw [(Value.Scalars.one hw).agrees_eq hlist (Value.isList_of_atom ha),
      Value.isList_of_isScalar hw, Bool.not_false, Bool.true_and]
  rw [Value.agrees, anyAgrees_eq, Bool.eq_iff_iff, Bool.or_eq_true,
    Bool.or_eq_true, List.any_eq_true, List.any_eq_true]
  refine or_congr_right (exists_congr fun x => and_congr_right fun hx => ?_)
  rw [hitem x hx]

/-- The operator is equality with a scalar, or membership. -/
def Operator.Seeks (op : Operator) (w : Value) : Prop :=
  op = .eq ∧ w.isScalar = true ∨ op = .mem ∧ w.Scalars

namespace Operator.Seeks

variable {op : Operator} {w v : Value}

theorem asks (h : op.Seeks w) : op.Asks w := by
  rcases h with ⟨rfl, hw⟩ | ⟨rfl, hw⟩
  · exact .of_isScalar rfl hw
  · exact ⟨rfl, hw⟩

/-- A value passes in a query if one of its items is accepted. -/
theorem passesIn_iff (h : op.Seeks w)
    (hitems : ∀ x ∈ v.toItems, ∃ a, x.identityOrSelf.atom? = some a) :
    op.PassesIn w v ↔
      (v.toItems.any fun x => w.accepts x.identityOrSelf) = true := by
  have hnegative : op.isNegative = false := by
    rcases h with ⟨rfl, -⟩ | ⟨rfl, -⟩ <;> rfl
  rw [PassesIn, List.any_eq_true]
  refine exists_congr fun x => and_congr_right fun hx => ?_
  obtain ⟨a, ha⟩ := hitems x hx
  rw [h.asks.scalars.compare_eq_yes_iff h.asks.unordered, hnegative,
    and_iff_right (Value.isNull_of_atom ha), Bool.bne_false]

/-- A query differs in that the empty list does not pass.  It equals every
scalar when it is compared. -/
theorem passesIn_many_iff (h : op.Seeks w)
    (hmany : v.isNull = false → v.isList = true)
    (hitems : ∀ x ∈ v.toItems, x.isList = false ∧
      ∃ a, x.identityOrSelf.atom? = some a) :
    ∃ b, op.compare v w = .ok b ∧
      ((op.PassesIn w v ↔ b = true) ↔ ¬ (op = .eq ∧ v = .list [])) := by
  have hpasses := h.passesIn_iff fun x hx => (hitems x hx).2
  rcases h with ⟨rfl, hw⟩ | ⟨rfl, hw⟩
  · refine ⟨_, rfl, ?_⟩
    rw [hpasses]
    cases v with
    | null =>
      have hdiffer : Value.null.agrees w = false := by
        rw [(Value.Scalars.one hw).agrees_eq rfl rfl]
        show (_ && w.accepts .null) = false
        rw [(Value.Scalars.one hw).accepts_null, Bool.and_false]
      simp [Value.toItems, hdiffer]
    | list items =>
      have hagrees : (Value.list items).agrees w =
          (items.isEmpty || items.any fun x => w.accepts x.identityOrSelf) :=
        Value.Scalars.agrees_list hw hitems
      rw [hagrees]
      cases items <;> simp [Value.toItems]
    | _ => cases hmany rfl
  · refine ⟨_, rfl, ?_⟩
    rw [hpasses, hw.intersects_eq]
    simp

end Operator.Seeks

/-! ## Both sides of a leaf -/

namespace Compiler

/-- The compiler reads a complete store, in which every entity has a table of
its own, without limits. -/
structure OnTables (c : Compiler Store) (D : Store) : Prop where
  elapsed : ∃ elapsed, c.evaluator.loader = some (Store.loader elapsed)
  unlimited : c.evaluator.budget = .unlimited
  separator : c.naming.separator ≠ ""
  tabular : c.evaluator.schema.Tabular
  relational : D.Relational c.evaluator.schema
  complete : D.Complete c.evaluator.schema

variable {c : Compiler Store} {D : Store} {actor : Value} {name : String}
  {entity : Entity} {op : Operator} {names : List String} {track : Track}
  {w : Value} {r : Record}

/-- The comparison of what is at the end of a path of names with a literal. -/
def leafOf (op : Operator) (names : List String) (w : Value) : Expression :=
  .leaf op (names.map .plain) (.literal w)

/-- The leaf compiles, and its select admits the records that have an end which
passes. -/
theorem OnTables.select_returns (h : c.OnTables D) (actor : Value)
    (hentity : c.evaluator.schema.entity? name = some entity)
    (hasks : op.Asks w)
    (hnamed : track.NamedBy c.evaluator.schema entity names) :
    ∃ select, Returns (c.select actor name (leafOf op names w))
      (.start D) select (.start D) ∧
      ∀ r, D.Holds c.evaluator.schema entity r →
        (select.admits (c.evaluator.schema.database D) r.getOrNull = true ↔
          track.Passes D op w r) := by
  let test : Test := ⟨op, .value w⟩
  let f := c.binder.bind test (names.map .plain) entity c.naming.root
  have hbuilt : f.Built c.naming.root := (Binder.bind_closed _ entity _).toBuilt
  refine ⟨f.applyTo (c.root entity), ?_, fun r hr => ?_⟩
  · rw [select_returns_iff hentity]
    refine ⟨f, ?_, rfl⟩
    rw [leafOf, fragment, leaf, returns_bind_iff]
    refine ⟨w, .start D,
      returns_adapt_iff.2 (returns_pure_iff.2 ⟨rfl, rfl⟩), ?_⟩
    rw [hasks.scalars.test hasks.unordered]
    exact returns_pure_iff.2 ⟨rfl, rfl⟩
  · obtain ⟨property, hfinds⟩ := Binder.onPath_finds
      (b := c.binder) h.separator h.tabular h.relational h.complete hasks hnamed
    rw [admits_root_iff hbuilt, ← hfinds.record_iff hr]
    exact hfinds.tells.admits_iff entity c.naming.root r.getOrNull

/-- Evaluation comes to a value with the ends of the track, and the leaf is
decided as the comparison of this value. -/
theorem OnTables.holds_returns (h : c.OnTables D)
    (hnamed : track.NamedBy c.evaluator.schema entity names)
    (hr : D.Holds c.evaluator.schema entity r) :
    ∃ v s, Returns (c.evaluator.evaluate (names.map .plain) (.record r))
      (.start D) v s ∧
      v.Collects (track.ends D r) track.toMany ∧
      ∀ b, op.compare v w = .ok b →
        Returns (c.evaluator.holds (.record r) actor (leafOf op names w))
          (.start D) b s := by
  obtain ⟨elapsed, hloader⟩ := h.elapsed
  -- the literal asks nothing of the actor, so that the records of no actor
  -- matter
  have hfamiliar : D.Familiar c.evaluator.schema .null := by
    intro r hr
    rw [Value.records] at hr
    cases hr
  have hsteady := h.relational.steady hfamiliar rfl hloader h.unlimited
  obtain ⟨v, hvalue, hcollects⟩ :=
    Evaluator.evaluate_track h.complete h.relational hsteady hnamed hr
  obtain ⟨s, hreturns, -⟩ := hvalue _ (.start h.relational.serves_self)
  refine ⟨v, s, hreturns, hcollects, fun b hb => ?_⟩
  rw [leafOf, Evaluator.holds, Evaluator.holdsLeaf, returns_bind_iff]
  refine ⟨v, s, hreturns,
    returns_bind_iff.2 ⟨w, s, returns_pure_iff.2 ⟨rfl, rfl⟩, ?_⟩⟩
  rw [hb]
  exact returns_pure_iff.2 ⟨rfl, rfl⟩

theorem holds_of_mem_records
    (hentity : c.evaluator.schema.entity? name = some entity)
    (hr : r ∈ D.records name) : D.Holds c.evaluator.schema entity r := by
  obtain ⟨hmem, hname⟩ := List.mem_filter.1 hr
  obtain rfl := Schema.entity?_name hentity
  exact ⟨hmem, Schema.entityOf?_eq_some_iff.2 ⟨beq_iff_eq.1 hname, hentity⟩⟩

/-- What a value collects passes if the value does. -/
theorem passes_iff {v : Value} {many : Bool}
    (h : v.Collects (track.ends D r) many) :
    track.Passes D op w r ↔ op.PassesIn w v := by
  rw [Track.Passes, Operator.PassesIn]
  simp only [h.mem_iff]

/-! ## The two results -/

/-- Along parents, the select admits a stored record exactly if the leaf is
decided to hold, unless a negative operator meets null, or equality is asked of
a list that has the value. -/
theorem select_agrees_toOne_iff (htables : c.OnTables D)
    (hentity : c.evaluator.schema.entity? name = some entity)
    (hasks : op.Asks w) (hnamed : track.NamedBy c.evaluator.schema entity names)
    (hone : track.toMany = false) (hr : r ∈ D.records name) :
    ∃ select v b s t,
      Returns (c.select actor name (leafOf op names w)) (.start D) select s ∧
      Returns (c.evaluator.evaluate (names.map .plain) (.record r))
        (.start D) v t ∧
      Returns (c.evaluator.holds (.record r) actor (leafOf op names w))
        (.start D) b t ∧
      ((select.admits (c.evaluator.schema.database D) r.getOrNull = true ↔
        b = true) ↔
        ¬ (op.isNegative = true ∧ v.isNull = true ∨
          op.isEquality = true ∧ w.isList = true ∧ v.intersects w = true)) := by
  have hholds := holds_of_mem_records hentity hr
  obtain ⟨select, hselect, hadmits⟩ :=
    htables.select_returns actor hentity hasks hnamed
  obtain ⟨v, t, hvalue, hcollects, hdecide⟩ :=
    htables.holds_returns hnamed hholds
  have hlist : v.isList = false := by
    cases hnull : v.isNull with
    | true => rw [Value.eq_null_of_isNull hnull]; rfl
    | false => rw [hcollects.isList_eq hnull, hone]
  have hself : v.isNull = false → ∃ a, v.identityOrSelf.atom? = some a := by
    intro hnull
    have hmem : v ∈ v.toItems := by
      rw [Value.toItems_of_single hnull hlist]
      exact List.mem_singleton_self v
    have hreaches :=
      hnamed.ends_reach htables.complete hholds v ((hcollects.mem_iff v).1 hmem)
    exact hreaches.identityOrSelf htables.complete htables.relational
  obtain ⟨b, hb, hiff⟩ := hasks.passesIn_single_iff hlist hself
  refine ⟨select, v, b, _, t, hselect, hvalue, hdecide b hb, ?_⟩
  rw [hadmits r hholds, passes_iff hcollects]
  exact hiff

/-- Through children, the select admits a stored record exactly if the leaf is
decided to hold, unless equality is asked of no value at all. -/
theorem select_agrees_toMany_iff (htables : c.OnTables D)
    (hentity : c.evaluator.schema.entity? name = some entity)
    (hseeks : op.Seeks w)
    (hnamed : track.NamedBy c.evaluator.schema entity names)
    (hmany : track.toMany = true) (hr : r ∈ D.records name) :
    ∃ select v b s t,
      Returns (c.select actor name (leafOf op names w)) (.start D) select s ∧
      Returns (c.evaluator.evaluate (names.map .plain) (.record r))
        (.start D) v t ∧
      Returns (c.evaluator.holds (.record r) actor (leafOf op names w))
        (.start D) b t ∧
      ((select.admits (c.evaluator.schema.database D) r.getOrNull = true ↔
        b = true) ↔
        ¬ (op = .eq ∧ v = .list [])) := by
  have hholds := holds_of_mem_records hentity hr
  obtain ⟨select, hselect, hadmits⟩ :=
    htables.select_returns actor hentity hseeks.asks hnamed
  obtain ⟨v, t, hvalue, hcollects, hdecide⟩ :=
    htables.holds_returns hnamed hholds
  have hitems : ∀ x ∈ v.toItems, x.isList = false ∧
      ∃ a, x.identityOrSelf.atom? = some a := by
    intro x hx
    have hreaches :=
      hnamed.ends_reach htables.complete hholds x ((hcollects.mem_iff x).1 hx)
    exact ⟨hreaches.isList_eq,
      hreaches.identityOrSelf htables.complete htables.relational⟩
  have hlist : v.isNull = false → v.isList = true := by
    intro hnull
    rw [hcollects.isList_eq hnull, hmany]
  obtain ⟨b, hb, hiff⟩ := hseeks.passesIn_many_iff hlist hitems
  refine ⟨select, v, b, _, t, hselect, hvalue, hdecide b hb, ?_⟩
  rw [hadmits r hholds, passes_iff hcollects]
  exact hiff

end Compiler

/-! ## A store on which they differ -/

namespace Mailbox

open Compiler (leafOf)

def folder : Entity :=
  { Entity.new "folder" with
    relations := [.children "letters" "letter" "folder"] }

/-- A letter is in a folder and may answer another letter. -/
def letter : Entity :=
  { Entity.new "letter" with
    attributes := [⟨"subject", .string, none⟩]
    relations := [.parent "folder" "folder",
      (Relation.parent "answered" "letter").nullable] }

def schema : Schema where
  entities := [folder, letter]
  names_nodup := by decide
  targets_declared := by decide

/-- A compiler that loads from a store without limits. -/
def compiler : Compiler Store :=
  { evaluator :=
      { schema, loader := some (Store.loader 0), budget := .unlimited } }

def inbox : Record := ⟨some "folder", [("id", .int64 1)]⟩

def drafts : Record := ⟨some "folder", [("id", .int64 2)]⟩

/-- A folder without letters. -/
def trash : Record := ⟨some "folder", [("id", .int64 3)]⟩

/-- The letter in the inbox, which answers none. -/
def received : Record :=
  ⟨some "letter",
    [("id", .int64 4), ("folder_id", .int64 1), ("subject", .string "x")]⟩

/-- The letter among the drafts, which has no subject yet. -/
def reply : Record :=
  ⟨some "letter",
    [("id", .int64 5), ("folder_id", .int64 2), ("answered_id", .int64 4)]⟩

def store : Store := ⟨[inbox, drafts, trash, received, reply], [], 0⟩

theorem mem_contents {r : Record} (hr : r ∈ store.contents) :
    r = inbox ∨ r = drafts ∨ r = trash ∨ r = received ∨ r = reply := by
  simpa [store] using hr

theorem entity_of_holds {r : Record} {entity : Entity}
    (h : store.Holds schema entity r) :
    entity = if r.entity = some "folder" then folder else letter := by
  obtain ⟨hr, hentity⟩ := h
  rcases mem_contents hr with rfl | rfl | rfl | rfl | rfl <;>
    exact (Option.some.inj hentity).symm

theorem relational : store.Relational schema where
  intact := rfl
  rows := by
    intro r hr entity hentity
    obtain rfl := entity_of_holds ⟨hr, hentity⟩
    rcases mem_contents hr with rfl | rfl | rfl | rfl | rfl <;>
      exact ⟨by decide, by decide, by decide, by decide, by decide⟩
  unique := by
    intro r hr r' hr' entity _ _ id id' hid hid' hagrees
    -- every record has an identity of its own
    rcases mem_contents hr with rfl | rfl | rfl | rfl | rfl <;>
      rcases mem_contents hr' with rfl | rfl | rfl | rfl | rfl <;>
        first
        | rfl
        | cases hid
          cases hid'
          exact absurd hagrees (by decide +kernel)

theorem complete : store.Complete schema where
  identified := by
    rintro entity r ⟨hr, -⟩
    rcases mem_contents hr with rfl | rfl | rfl | rfl | rfl <;> rfl
  exact := by
    rintro entity r ⟨hr, -⟩
    rcases mem_contents hr with rfl | rfl | rfl | rfl | rfl <;> decide
  refers := by
    intro entity r hr
    obtain rfl := entity_of_holds hr
    rcases mem_contents hr.1 with rfl | rfl | rfl | rfl | rfl <;> decide +kernel

theorem onTables : compiler.OnTables store where
  elapsed := ⟨0, rfl⟩
  unlimited := rfl
  separator := by decide
  tabular := ⟨by decide, by decide⟩
  relational := relational
  complete := complete

/-- From a letter to its folder. -/
def toFolder : Track := .parent "folder_id" folder .here

/-- From a letter to the subject of the letter that it answers. -/
def toAnswered : Track := .parent "answered_id" letter (.column "subject")

/-- From a folder to the subjects of its letters. -/
def toSubjects : Track := .children letter "folder_id" (.column "subject")

theorem toFolder_named : toFolder.NamedBy schema letter ["folder"] :=
  .parent rfl .here

theorem toAnswered_named :
    toAnswered.NamedBy schema letter ["answered", "subject"] :=
  .parent rfl (.column rfl)

theorem toSubjects_named :
    toSubjects.NamedBy schema folder ["letters", "subject"] :=
  .children rfl (.column rfl)

/-- A list with one number. -/
def only (n : Int64) : Value := .list [.int64 n]

theorem asks_only {op : Operator} (hop : op.isOrdering = false) (n : Int64) :
    op.Asks (only n) := by
  refine ⟨hop, .several (List.cons_ne_nil _ _) ?_⟩
  rw [List.forall_mem_singleton]
  rfl

/-- The select of a leaf admits the record or not, and the leaf is decided the
other way. -/
structure Differ (entity : Entity) (op : Operator) (names : List String)
    (track : Track) (w : Value) (r : Record) (admitted : Bool) : Prop where
  named : track.NamedBy schema entity names
  asks : op.Asks w
  stored : r ∈ store.records entity.name
  differ : ∃ select s t,
    Returns (compiler.select .null entity.name (leafOf op names w))
      (.start store) select s ∧
    select.admits (schema.database store) r.getOrNull = admitted ∧
    Returns (compiler.evaluator.holds (.record r) .null (leafOf op names w))
      (.start store) (!admitted) t

theorem mem_records {r : Record} {name : String} (hr : r ∈ store.contents)
    (hentity : r.entity = some name) : r ∈ store.records name :=
  List.mem_filter.2 ⟨hr, beq_iff_eq.2 hentity⟩

/-- Both sides can be computed. -/
theorem differ_of_computed {entity : Entity} {op : Operator}
    {names : List String} {track : Track} {w : Value} {r : Record}
    {admitted : Bool} (hnamed : track.NamedBy schema entity names)
    (hasks : op.Asks w) (hstored : r ∈ store.contents)
    (hentity : r.entity = some entity.name)
    (hselect : (outcome (compiler.select .null entity.name (leafOf op names w))
      (.start store)).1.toOption.map
      (·.admits (schema.database store) r.getOrNull) =
        some admitted)
    (hholds :
      (outcome (compiler.evaluator.holds (.record r) .null (leafOf op names w))
        (.start store)).1.toOption = some !admitted) :
    Differ entity op names track w r admitted := by
  obtain ⟨select, hresult, hadmits⟩ := Option.map_eq_some_iff.1 hselect
  exact ⟨hnamed, hasks, mem_records hstored hentity, select, _, _,
    returns_of_toOption hresult, hadmits, returns_of_toOption hholds⟩

theorem received_mem : received ∈ store.contents := by simp [store]

theorem reply_mem : reply ∈ store.contents := by simp [store]

theorem trash_mem : trash ∈ store.contents := by simp [store]

theorem drafts_mem : drafts ∈ store.contents := by simp [store]

end Mailbox

open Mailbox in
theorem Compiler.select_agrees_toOne_iff_reply :
    compiler.OnTables store ∧
      compiler.evaluator.schema.entity? "letter" = some letter ∧
      Operator.neq.Asks (.string "y") ∧
      toAnswered.NamedBy compiler.evaluator.schema letter
        ["answered", "subject"] ∧
      toAnswered.toMany = false ∧ reply ∈ store.records "letter" ∧
      ∃ select v b s t,
        Returns (compiler.select .null "letter"
          (leafOf .neq ["answered", "subject"] (.string "y")))
          (.start store) select s ∧
        Returns (compiler.evaluator.evaluate
          (["answered", "subject"].map .plain) (.record reply))
          (.start store) v t ∧
        Returns (compiler.evaluator.holds (.record reply) .null
          (leafOf .neq ["answered", "subject"] (.string "y")))
          (.start store) b t ∧
        ((select.admits (compiler.evaluator.schema.database store)
          reply.getOrNull = true ↔
            b = true) ↔
          ¬ (Operator.neq.isNegative = true ∧ v.isNull = true ∨
            Operator.neq.isEquality = true ∧ (Value.string "y").isList = true ∧
              v.intersects (.string "y") = true)) := by
  have hstored := mem_records reply_mem rfl
  have hasks : Operator.neq.Asks (.string "y") := .of_isScalar rfl rfl
  exact ⟨onTables, rfl, hasks, toAnswered_named, rfl, hstored,
    Compiler.select_agrees_toOne_iff onTables rfl hasks toAnswered_named
      rfl hstored⟩

open Mailbox in
/-- The received letter answers none, so that a query takes no negative operator
for true; and it is in a folder that is in a list, which a query takes for
equality. -/
theorem Compiler.select_differs_toOne :
    compiler.OnTables store ∧ toAnswered.toMany = false ∧
      toFolder.toMany = false ∧
      Differ letter .neq ["answered", "subject"] toAnswered
        (.string "y") received false ∧
      Differ letter .notMem ["answered", "subject"] toAnswered
        (.string "y") received false ∧
      Differ letter .neq ["subject"] (.column "subject")
        (.string "y") reply false ∧
      Differ letter .eq ["folder"] toFolder (only 1) received true ∧
      Differ letter .neq ["folder"] toFolder (only 1) received false := by
  refine ⟨onTables, rfl, rfl,
    differ_of_computed toAnswered_named (.of_isScalar rfl rfl)
      received_mem rfl ?_ ?_,
    differ_of_computed toAnswered_named (.of_isScalar rfl rfl)
      received_mem rfl ?_ ?_,
    differ_of_computed (.column rfl) (.of_isScalar rfl rfl) reply_mem rfl ?_ ?_,
    differ_of_computed toFolder_named (asks_only rfl 1) received_mem rfl ?_ ?_,
    differ_of_computed toFolder_named (asks_only rfl 1) received_mem rfl ?_ ?_⟩
  all_goals decide +kernel

open Mailbox in
theorem Compiler.select_agrees_toMany_iff_inbox :
    compiler.OnTables store ∧
      compiler.evaluator.schema.entity? "folder" = some folder ∧
      Operator.eq.Seeks (.string "x") ∧
      toSubjects.NamedBy compiler.evaluator.schema folder
        ["letters", "subject"] ∧
      toSubjects.toMany = true ∧ inbox ∈ store.records "folder" ∧
      ∃ select v b s t,
        Returns (compiler.select .null "folder"
          (leafOf .eq ["letters", "subject"] (.string "x")))
          (.start store) select s ∧
        Returns (compiler.evaluator.evaluate (["letters", "subject"].map .plain)
          (.record inbox)) (.start store) v t ∧
        Returns (compiler.evaluator.holds (.record inbox) .null
          (leafOf .eq ["letters", "subject"] (.string "x")))
          (.start store) b t ∧
        ((select.admits (compiler.evaluator.schema.database store)
          inbox.getOrNull = true ↔
            b = true) ↔
          ¬ (Operator.eq = .eq ∧ v = .list [])) := by
  have hstored : inbox ∈ store.records "folder" :=
    mem_records (by simp [store]) rfl
  have hseeks : Operator.eq.Seeks (.string "x") := .inl ⟨rfl, rfl⟩
  exact ⟨onTables, rfl, hseeks, toSubjects_named, rfl, hstored,
    Compiler.select_agrees_toMany_iff onTables rfl hseeks toSubjects_named
      rfl hstored⟩

open Mailbox in
/-- A folder without letters and one without subjects are decided to have the
subject, and no query admits them. -/
theorem Compiler.select_differs_toMany :
    compiler.OnTables store ∧ toSubjects.toMany = true ∧
      Differ folder .eq ["letters", "subject"] toSubjects
        (.string "x") trash false ∧
      Differ folder .eq ["letters", "subject"] toSubjects
        (.string "x") drafts false := by
  refine ⟨onTables, rfl,
    differ_of_computed toSubjects_named (.of_isScalar rfl rfl)
      trash_mem rfl ?_ ?_,
    differ_of_computed toSubjects_named (.of_isScalar rfl rfl)
      drafts_mem rfl ?_ ?_⟩
  all_goals decide +kernel

end RowGuard
