import Mathlib.Data.List.Find
import RowGuard.Proofs.Evaluation.Tracks
import RowGuard.Proofs.Value.Literals
import RowGuard.Scope.Binder

/-!
# The identity on which a relation is loaded

An entity declares the column that identifies its rows.  The condition of a join
compares foreign keys with this column, but a store compares them with the field
`id`, whatever the entity declares.  So a load answers with the records that the
join pairs with the owner where the two are one, and there is a store for which
it does not where they differ (`Store.answer_partners_iff`).
-/

namespace RowGuard

/-! ## Owners and their partners -/

/-- The record holds scalars and nulls, and something in the column that
identifies the rows of the entity. -/
structure Record.Keyed (entity : Entity) (r : Record) : Prop where
  flat : ∀ field ∈ r.fields, field.2.isNull = true ∨ field.2.isScalar = true
  identified : (r.getOrNull entity.identity).isScalar = true

/-- The records of declared entities are identified by the column that is
declared for them.  No load fails. -/
structure Store.Keyed (s : Schema) (D : Store) : Prop where
  intact : D.failing = []
  keyed : ∀ {entity r}, D.Holds s entity r → r.Keyed entity
  unique : ∀ {entity r r'}, D.Holds s entity r → D.Holds s entity r' →
    (r.getOrNull entity.identity).atomsEqual (r'.getOrNull entity.identity) =
      true → r = r'

/-- The records that the condition of a join pairs with an owner, in the order
of their insertion. -/
def Join.partners (j : Join) (D : Store) (owner : Record) : List Record :=
  (D.records j.entity).filter fun r =>
    Engine.comparator.test .eq (r.getOrNull j.column)
      (owner.getOrNull j.parentColumn) == .yes

/-- The value of a relation with these records: a list of children, or else the
first of them. -/
def Field.gather : Field → List Record → Value
  | .hasMany .., rs => .list (rs.map .record)
  | .belongsTo .., rs | .column _, rs | .unknown, rs =>
    rs.head?.elim .null .record

/-- The declared column with whose values the foreign keys of a relation are
compared. -/
def Field.identityOn (entity : Entity) : Field → String
  | .belongsTo _ target _ => target.identity
  | .hasMany .. => entity.identity
  | .column _ | .unknown => identityField

/-- The join of a relation of an entity. -/
def Field.join? (entity : Entity) (aliasName child : String) :
    Field → Option Join
  | .belongsTo key target optional =>
    some (Binder.parentJoin aliasName key target optional child)
  | .hasMany target _ key =>
    some (Binder.childrenJoin aliasName key entity target child)
  | .column _ | .unknown => none

/-- A path that goes on after a relation joins it. -/
theorem Binder.bind_relation_joins {b : Binder} {entity : Entity}
    {name : String} (t : Test) (root : String) {j : Join}
    (hjoin : (b.schema.field entity name).join? entity root
      (b.naming.child root name) = some j) :
    (b.bind t [.plain name, .wildcard] entity root).joins = [j] := by
  show (b.step t name none false _ entity root .empty).joins = [j]
  unfold Binder.step
  cases hfield : b.schema.field entity name with
  | belongsTo key target optional =>
    rw [hfield] at hjoin
    obtain rfl := Option.some.inj hjoin
    rfl
  | hasMany target inverse key =>
    rw [hfield] at hjoin
    obtain rfl := Option.some.inj hjoin
    rfl
  | column | unknown =>
    rw [hfield] at hjoin
    cases hjoin

/-! ## Equality of columns -/

/-- A value of a column agrees with a scalar if a join takes the two for
equal. -/
theorem Value.agrees_iff_test {x y : Value}
    (hx : x.isNull = true ∨ x.isScalar = true) (hy : y.isScalar = true) :
    x.agrees y = true ↔ Engine.comparator.test .eq x y = .yes := by
  rw [Engine.test_eq_yes_iff (Value.isNull_of_isScalar hy)]
  rcases hx with hx | hx
  · obtain rfl := Value.eq_null_of_isNull hx
    have hself : Value.null.identityOrSelf = .null := rfl
    rw [Value.agrees_eq_equals rfl, hself, Value.identityOrSelf_of_isScalar hy,
      Value.equals_of_isScalar hy, Value.null_atomsEqual_of_isScalar hy]
    simp [Value.isNull]
  · rw [Value.agrees_eq_equals (Value.isList_of_isScalar hx),
      Value.identityOrSelf_of_isScalar hx, Value.identityOrSelf_of_isScalar hy,
      Value.equals_of_isScalar hy, and_iff_right (Value.isNull_of_isScalar hx)]

/-- A join takes a number for equal to itself. -/
theorem Engine.test_int64_self (n : Int64) :
    Engine.comparator.test .eq (.int64 n) (.int64 n) = .yes := by
  rw [Engine.test_eq_yes_iff rfl]
  simp [Value.atomsEqual, Value.same, Value.isNull]

namespace Record.Keyed

variable {entity : Entity} {r : Record} {v : Value}

theorem getOrNull (h : r.Keyed entity) (column : String) :
    (r.getOrNull column).isNull = true ∨
      (r.getOrNull column).isScalar = true := by
  cases hget : r.get? column with
  | none => exact .inl (by rw [Record.getOrNull, hget]; rfl)
  | some v =>
    rw [Record.getOrNull_of_get? hget]
    exact h.flat _ (Evaluator.mem_fields_of_get? hget)

/-- A foreign key agrees with a scalar if a join takes the two for equal. -/
theorem any_get?_agrees_iff (h : r.Keyed entity) (hv : v.isScalar = true)
    (column : String) :
    (r.get? column).any (·.agrees v) = true ↔
      Engine.comparator.test .eq (r.getOrNull column) v = .yes := by
  rw [← Value.agrees_iff_test (h.getOrNull column) hv]
  cases hget : r.get? column with
  | none =>
    rw [Record.getOrNull, hget, Option.getD_none,
      Value.agrees_iff_test (.inl rfl) hv]
    simp [Engine.test, Value.isNull]
  | some w => rw [Record.getOrNull_of_get? hget, Option.any_some]

/-- So does an identity. -/
theorem any_id?_agrees_iff (h : r.Keyed entity) (hv : v.isScalar = true) :
    r.id?.any (·.agrees v) = true ↔
      Engine.comparator.test .eq (r.getOrNull identityField) v = .yes := by
  rw [← h.any_get?_agrees_iff hv identityField, Record.id?]
  cases r.get? identityField with
  | none => rfl
  | some w =>
    cases hnull : w.isNull with
    | false => simp [Option.filter, hnull]
    | true =>
      -- null is no identity, and it agrees with nothing
      obtain rfl := Value.eq_null_of_isNull hnull
      rw [Option.any_some, Value.agrees_iff_test (.inl rfl) hv]
      simp [Option.filter, Engine.test, Value.isNull]

/-- A record with scalars is identified by a column that it has. -/
theorem of_fields {name : Option String} {fields : List (String × Value)}
    (hscalars : ∀ field ∈ fields, field.2.isScalar = true)
    (hidentity : entity.identity ∈ fields.map Prod.fst) :
    Record.Keyed entity ⟨name, fields⟩ := by
  refine ⟨fun field hfield => .inr (hscalars field hfield), ?_⟩
  cases hget : Record.get? ⟨name, fields⟩ entity.identity with
  | none =>
    obtain ⟨field, hfield, hname⟩ := List.mem_map.1 hidentity
    have hne := List.lookup_eq_none_iff.1 hget field hfield
    simp [hname] at hne
  | some v =>
    rw [Record.getOrNull_of_get? hget]
    exact hscalars _ (Evaluator.mem_fields_of_get? hget)

end Record.Keyed

/-- A record without the field has no identity. -/
theorem Record.id?_eq_none {r : Record}
    (h : identityField ∉ r.fields.map Prod.fst) :
    r.id? = none := by
  have hget : r.get? identityField = none := by
    refine List.lookup_eq_none_iff.2 fun field hfield => ?_
    rw [bne_iff_ne]
    rintro heq
    exact h (heq ▸ List.mem_map_of_mem hfield)
  rw [Record.id?, hget, Option.filter_none]

/-- Nothing is paired with null. -/
theorem Join.partners_of_isNull {j : Join} {D : Store} {owner : Record}
    (h : (owner.getOrNull j.parentColumn).isNull = true) :
    j.partners D owner = [] := by
  simp [partners, Engine.test, h]

/-! ## Loads -/

section Loads

variable {s : Schema} {D : Store} {entity target : Entity} {owner : Record}
  {key : String}

theorem Store.Keyed.of_mem_records (hD : D.Keyed s)
    (htarget : s.entity? target.name = some target) {r : Record}
    (hr : r ∈ D.records target.name) : r.Keyed target := by
  obtain ⟨hmem, hname⟩ := List.mem_filter.1 hr
  exact hD.keyed
    ⟨hmem, Schema.entityOf?_eq_some_iff.2 ⟨beq_iff_eq.1 hname, htarget⟩⟩

/-- Where the target is identified by `id`, a foreign key leads to the first
record that the join pairs with the owner. -/
theorem Store.Keyed.parent_eq (hD : D.Keyed s)
    (htarget : s.entity? target.name = some target)
    (howner : owner.Keyed entity) (hid : target.identity = identityField)
    (aliasName child : String) (optional : Bool) :
    D.parent owner key target.name =
      Field.gather (.belongsTo key target optional)
        ((Binder.parentJoin aliasName key target optional child).partners D
          owner) := by
  rw [Store.parent_eq, Field.gather]
  congr 1
  rcases howner.getOrNull key with hnull | hscalar
  · rw [Store.parent?_of_isNull hnull, Join.partners_of_isNull hnull,
      List.head?_nil]
  · rw [Store.parent?_of_not_isNull (Value.isNull_of_isScalar hscalar),
      Store.find?, Join.partners, List.head?_filter]
    refine List.find?_congr fun r hr => ?_
    rw [Bool.eq_iff_iff, (hD.of_mem_records htarget hr).any_id?_agrees_iff
      hscalar, beq_iff_eq,
      ← hid]
    rfl

/-- Where the owner is identified by `id`, its children are the records that the
join pairs with it. -/
theorem Store.Keyed.children_eq (hD : D.Keyed s)
    (htarget : s.entity? target.name = some target)
    (howner : owner.Keyed entity) (hid : entity.identity = identityField)
    (aliasName child : String) :
    D.children owner target.name key =
      (Binder.childrenJoin aliasName key entity target child).partners
        D owner := by
  have hscalar : (owner.getOrNull identityField).isScalar = true :=
    hid ▸ howner.identified
  obtain ⟨id, hidentity⟩ := Record.exists_id (Value.isNull_of_isScalar hscalar)
  rw [Record.getOrNull_identity hidentity] at hscalar
  rw [Store.children, hidentity]
  refine List.filter_congr fun r hr => ?_
  rw [Bool.eq_iff_iff, (hD.of_mem_records htarget hr).any_get?_agrees_iff
    hscalar, beq_iff_eq,
    ← Record.getOrNull_identity hidentity, ← hid]
  rfl

/-- One record is a store, if it is identified by the column that is
declared. -/
theorem Store.keyed_singleton (htarget : s.entity? target.name = some target)
    {p : Record} (hentity : p.entity = some target.name) (hp : p.Keyed target) :
    Store.Keyed s ⟨[p], [], 0⟩ where
  intact := rfl
  keyed := by
    rintro other r ⟨hr, hdeclared⟩
    obtain rfl := List.mem_singleton.1 hr
    have hother := Schema.entityOf?_eq_some_iff.1 hdeclared
    rw [hentity] at hother
    obtain rfl : other = target := by
      have hname : target.name = other.name := Option.some.inj hother.1
      rw [← hname, htarget] at hother
      exact (Option.some.inj hother.2).symm
    exact hp
  unique := by
    rintro _ r r' ⟨hr, -⟩ ⟨hr', -⟩ -
    rw [List.mem_singleton.1 hr, List.mem_singleton.1 hr']

end Loads

/-! ## Stores that do not pair -/

section Stray

variable {s : Schema} {entity target : Entity}

/-- The store has the record to which the foreign key of the owner leads, and no
record with the field `id`. -/
theorem Store.exists_parent_ne (htarget : s.entity? target.name = some target)
    (hid : target.identity ≠ identityField) (entity : Entity)
    (key aliasName child : String) (optional : Bool) :
    ∃ (D : Store) (owner : Record), D.Keyed s ∧
      owner.entity = some entity.name ∧
      owner.Keyed entity ∧ D.parent owner key target.name ≠
        Field.gather (.belongsTo key target optional)
          ((Binder.parentJoin aliasName key target optional child).partners D
            owner) := by
  let p : Record := ⟨some target.name, [(target.identity, .int64 2)]⟩
  let owner : Record :=
    ⟨some entity.name, [(key, .int64 2), (entity.identity, .int64 1)]⟩
  have hp : p.Keyed target := .of_fields (by simp [Value.isScalar]) (by simp)
  have howner : owner.Keyed entity :=
    .of_fields (by simp [Value.isScalar]) (by simp)
  refine ⟨⟨[p], [], 0⟩, owner, Store.keyed_singleton htarget rfl hp,
    rfl, howner, ?_⟩
  have hpaired : (Binder.parentJoin aliasName key target optional
      child).partners ⟨[p], [], 0⟩ owner = [p] := by
    simp [Join.partners, Binder.parentJoin, Store.records, p, owner,
      Record.getOrNull, Record.get?, Engine.test_int64_self]
  have hloaded : Store.parent ⟨[p], [], 0⟩ owner key target.name = .null := by
    have hp : p.id? = none := Record.id?_eq_none (by simpa [p] using hid.symm)
    simp [Store.parent, Store.find?, Store.records, owner, Record.get?,
      Value.isNull, hp, Option.filter, List.find?_filter]
  rw [hpaired, hloaded]
  intro heq
  cases heq

/-- The store has a record whose foreign key leads to the owner, which does not
have the field `id`. -/
theorem Store.exists_children_ne (htarget : s.entity? target.name = some target)
    (hid : entity.identity ≠ identityField) (key aliasName child : String) :
    ∃ (D : Store) (owner : Record), D.Keyed s ∧
      owner.entity = some entity.name ∧
      owner.Keyed entity ∧ D.children owner target.name key ≠
        (Binder.childrenJoin aliasName key entity target child).partners
          D owner := by
  let c : Record :=
    ⟨some target.name, [(key, .int64 1), (target.identity, .int64 2)]⟩
  let owner : Record := ⟨some entity.name, [(entity.identity, .int64 1)]⟩
  have hc : c.Keyed target := .of_fields (by simp [Value.isScalar]) (by simp)
  have howner : owner.Keyed entity :=
    .of_fields (by simp [Value.isScalar]) (by simp)
  refine ⟨⟨[c], [], 0⟩, owner, Store.keyed_singleton htarget rfl hc,
    rfl, howner, ?_⟩
  have hpaired : (Binder.childrenJoin aliasName key entity target
      child).partners ⟨[c], [], 0⟩ owner = [c] := by
    simp [Join.partners, Binder.childrenJoin, Store.records, c, owner,
      Record.getOrNull, Record.get?, Engine.test_int64_self]
  have hloaded : Store.children ⟨[c], [], 0⟩ owner target.name key = [] := by
    rw [Store.children, Record.id?_eq_none (by simpa [owner] using hid.symm)]
  rw [hpaired, hloaded]
  intro heq
  cases heq

end Stray

/-- A relation is joined, and each load of it answers with the records that the
condition of the join pairs with the owner exactly if the identity that the
schema declares for it is the field `id`. -/
theorem Store.answer_partners_iff (b : Binder) (entity : Entity) (name : String)
    (hrelation : (b.schema.field entity name).isRelation = true) (t : Test)
    (root : String) :
    ∃ j, (b.bind t [.plain name, .wildcard] entity root).joins = [j] ∧
      ((∀ (D : Store) (owner : Record), D.Keyed b.schema →
        owner.entity = some entity.name →
          owner.Keyed entity →
            D.answer owner name (b.schema.field entity name) =
              .ok ((b.schema.field entity name).gather (j.partners D owner))) ↔
        (b.schema.field entity name).identityOn entity = identityField) := by
  -- no load fails, so that each of them is answered
  have hanswer {D : Store} (hD : D.Keyed b.schema) (owner : Record) :
      D.answer owner name (b.schema.field entity name) =
        .ok (D.reply owner name (b.schema.field entity name)) :=
    Store.Serves.answer_eq ⟨rfl, hD.intact⟩ hrelation
  cases hfield : b.schema.field entity name with
  | belongsTo key target optional =>
    have htarget := (Schema.field_eq_belongsTo hfield).2
    refine ⟨_, Binder.bind_relation_joins t root (by rw [hfield]; rfl),
      fun hall => ?_, ?_⟩
    · by_contra hid
      obtain ⟨D, owner, hD, hname, howner, hne⟩ := Store.exists_parent_ne
        htarget hid entity key root (b.naming.child root name) optional
      have hloaded := hall D owner hD hname howner
      rw [← hfield, hanswer hD, hfield] at hloaded
      exact hne (Except.ok.inj hloaded)
    · intro hid D owner hD _ howner
      rw [← hfield, hanswer hD, hfield, Store.reply,
        hD.parent_eq htarget howner hid]
  | hasMany target inverse key =>
    have htarget := Schema.entity?_of_hasMany hfield
    refine ⟨_, Binder.bind_relation_joins t root (by rw [hfield]; rfl),
      fun hall => ?_, ?_⟩
    · by_contra hid
      obtain ⟨D, owner, hD, hname, howner, hne⟩ := Store.exists_children_ne
        htarget hid key root (b.naming.child root name)
      have hloaded := hall D owner hD hname howner
      rw [← hfield, hanswer hD, hfield] at hloaded
      refine hne (List.map_injective_iff.2 (fun _ _ => Value.record.inj) ?_)
      exact Value.list.inj (Except.ok.inj hloaded)
    · intro hid D owner hD _ howner
      rw [← hfield, hanswer hD, hfield, Store.reply,
        hD.children_eq htarget howner hid, Field.gather]
  | column | unknown =>
    rw [hfield] at hrelation
    cases hrelation

/-! ## Accounts with numbers -/

namespace Ledger

/-- An account is identified by its number. -/
def account : Entity :=
  { Entity.new "account" with
    identity := "number"
    relations := [.children "entries" "entry" "account"] }

def entry : Entity :=
  { Entity.new "entry" with relations := [.parent "account" "account"] }

def note : Entity :=
  { Entity.new "note" with relations := [.parent "entry" "entry"] }

def schema : Schema where
  entities := [account, entry, note]
  names_nodup := by decide
  targets_declared := by decide

def binder : Binder := { schema }

/-- A test for the end of a path. -/
def present : Test := ⟨.neq, .null⟩

def savings : Record := ⟨some "account", [("number", .int64 7)]⟩

def deposit : Record :=
  ⟨some "entry", [("id", .int64 1), ("account_id", .int64 7)]⟩

def store : Store := ⟨[savings, deposit], [], 0⟩

/-- The join of the account of an entry. -/
def accountJoin : Join :=
  ⟨.inner, "account", "account", "root__account", "number", "root",
    "account_id"⟩

/-- The join of the entries of an account. -/
def entriesJoin : Join :=
  ⟨.left, "entry", "entry", "root__entries", "account_id", "root", "number"⟩

theorem savings_keyed : savings.Keyed account :=
  .of_fields (by decide) (by decide)

theorem deposit_keyed : deposit.Keyed entry :=
  .of_fields (by decide) (by decide)

theorem holds_cases {entity : Entity} {r : Record}
    (h : store.Holds schema entity r) :
    r = savings ∧ entity = account ∨ r = deposit ∧ entity = entry := by
  obtain ⟨hr, hentity⟩ := h
  simp only [store, List.mem_cons, List.not_mem_nil, or_false] at hr
  rcases hr with rfl | rfl
  · exact .inl ⟨rfl, (Option.some.inj hentity).symm⟩
  · exact .inr ⟨rfl, (Option.some.inj hentity).symm⟩

theorem store_keyed : store.Keyed schema where
  intact := rfl
  keyed := by
    intro entity r h
    rcases holds_cases h with ⟨rfl, rfl⟩ | ⟨rfl, rfl⟩
    · exact savings_keyed
    · exact deposit_keyed
  unique := by
    intro entity r r' h h' _
    rcases holds_cases h with ⟨rfl, hentity⟩ | ⟨rfl, hentity⟩ <;>
      rcases holds_cases h' with ⟨rfl, hentity'⟩ | ⟨rfl, hentity'⟩ <;>
        first
        | rfl
        | exact absurd (hentity.symm.trans hentity') (by decide)

end Ledger

open Ledger in
/-- Entries are identified by `id`. -/
theorem Store.answer_partners_iff_entry :
    (binder.schema.field note "entry").isRelation = true ∧
      ∃ j, (binder.bind present [.plain "entry", .wildcard] note "root").joins =
        [j] ∧
        ∀ (D : Store) (owner : Record), D.Keyed binder.schema →
          owner.entity = some "note" →
          owner.Keyed note → D.answer owner "entry"
            (binder.schema.field note "entry") =
            .ok ((binder.schema.field note "entry").gather
              (j.partners D owner)) := by
  obtain ⟨j, hjoins, hiff⟩ :=
    Store.answer_partners_iff binder note "entry" rfl present "root"
  exact ⟨rfl, j, hjoins, hiff.2 rfl⟩

open Ledger in
/-- The joins pair the deposit with its account.  The loads find neither the
account nor, for the account, the deposit. -/
theorem Store.answer_ne_partners :
    store.Keyed schema ∧ savings.Keyed account ∧ deposit.Keyed entry ∧
      (binder.bind present [.plain "account", .wildcard] entry "root").joins =
        [accountJoin] ∧
      accountJoin.partners store deposit = [savings] ∧
      store.answer deposit "account" (schema.field entry "account") =
        .ok .null ∧
      (binder.bind present [.plain "entries", .wildcard] account "root").joins =
        [entriesJoin] ∧
      entriesJoin.partners store savings = [deposit] ∧
      store.answer savings "entries" (schema.field account "entries") =
        .ok (.list []) := by
  have hnumber : savings.getOrNull "number" = .int64 7 := rfl
  have hkey : deposit.getOrNull "account_id" = .int64 7 := rfl
  have haccounts : store.records "account" = [savings] := rfl
  have hentries : store.records "entry" = [deposit] := rfl
  refine ⟨store_keyed, savings_keyed, deposit_keyed, rfl, ?_, rfl, rfl, ?_, rfl⟩
  · simp [Join.partners, accountJoin, haccounts, hnumber, hkey,
      Engine.test_int64_self]
  · simp [Join.partners, entriesJoin, hentries, hnumber, hkey,
      Engine.test_int64_self]

end RowGuard
