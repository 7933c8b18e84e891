import RowGuard.Proofs.Evaluation.Ancestors
import RowGuard.Proofs.Query.Functional
import RowGuard.Proofs.Scope.Compilation
import RowGuard.Proofs.Value.Operands

/-!
# What a lineage admits

On a relational store the joins of a lineage bind the records on the way, and
the column at its end holds what `Lineage.reads` reads off the store.  The value
on loaded data compares like it (`Lineage.compare_value`), and so the fragment
of a lineage is `Functional` and admits the rows for which the comparison holds
(`Lineage.grow_admits_iff`).
-/

namespace RowGuard

/-- What the column at the end of a lineage holds. -/
def Lineage.reads (D : Store) : Lineage → Option Record → Value
  | .identity, o => Row.ofRecord o identityField
  | .column _ columnName, o => Row.ofRecord o columnName
  | .parent _ key _ _, o => Row.ofRecord o key
  | .hop _ key target _ rest, o =>
    rest.reads D (o.bind (D.parent? · key target.name))
  | .nowhere, _ => .null

/-- If the lineage ends with a foreign key, then those of the stored records
lead to records. -/
def Lineage.Refers (s : Schema) (D : Store) : Entity → Lineage → Prop
  | entity, .parent _ key target _ =>
    ∀ r ∈ D.contents, s.entityOf? r = some entity →
    (r.getOrNull key).isNull = false →
    (D.parent? r key target.name).isSome = true
  | _, .hop _ _ target _ rest => rest.Refers s D target
  | _, .identity | _, .column .. | _, .nowhere => True

namespace Lineage

variable {s : Schema} {D : Store} {entity : Entity} {lineage : Lineage}
  {op : Operator} {w : Value}

/-! ## The value and the column -/

theorem reads_none : ∀ lineage : Lineage, lineage.reads D none = .null
  | .identity | .column .. | .parent .. | .nowhere => rfl
  | .hop _ _ _ _ rest => reads_none rest

/-- A column of a row holds a scalar or null. -/
theorem isNull_or_isScalar_getOrNull {r : Record} (hrow : r.IsRow entity)
    (column : String) :
    (r.getOrNull column).isNull = true ∨
      (r.getOrNull column).isScalar = true := by
  cases hget : r.get? column with
  | none => exact .inl (by rw [Record.getOrNull, hget]; rfl)
  | some v =>
    rw [Record.getOrNull_of_get? hget]
    exact hrow.scalars _ (Evaluator.mem_fields_of_get? hget)

/-- The value at the end of a lineage compares like the column there. -/
theorem compare_value (hD : D.Relational s) (hop : op.Takes w)
    (hstarts : lineage.StartsAt s entity) (hrefers : lineage.Refers s D entity)
    {r : Record} (hr : r ∈ D.contents) (hentity : s.entityOf? r = some entity) :
    op.compare (lineage.value D r) w =
      .ok (w.accepts (lineage.reads D (some r))) := by
  have hnull : op.compare .null w = .ok (w.accepts .null) := hop.compare_eq rfl
  induction hstarts generalizing r with
  | identity =>
    rw [value, hop.compare_eq rfl]
    show _ = Except.ok (w.accepts (r.getOrNull identityField))
    cases hid : r.id? with
    | some id =>
      rw [Record.identityOrSelf_of_id hid, Record.getOrNull_identity hid]
    | none =>
      have hidNull : (r.getOrNull identityField).isNull = true := by
        rw [← Bool.not_eq_false]
        intro hnotNull
        obtain ⟨id, hid'⟩ := Record.exists_id hnotNull
        rw [hid] at hid'
        cases hid'
      have hself : (Value.record r).identityOrSelf = .record r := by
        rw [Value.identityOrSelf, Value.identity?, hid, Option.getD_none]
      rw [hself, Value.eq_null_of_isNull hidNull, hop.accepts_record,
        hop.accepts_null]
  | @column _ _ columnName _ =>
    have hscalar :=
      isNull_or_isScalar_getOrNull (hD.rows r hr hentity) columnName
    show op.compare (r.getOrNull columnName) w =
      .ok (w.accepts (r.getOrNull columnName))
    rcases hscalar with hisNull | hscalar
    · rw [Value.eq_null_of_isNull hisNull, hnull]
    · rw [hop.compare_eq (Value.isList_of_isScalar hscalar),
        Value.identityOrSelf_of_isScalar hscalar]
  | @parent _ _ key target _ hfield =>
    show op.compare (D.parent r key target.name) w =
      .ok (w.accepts (r.getOrNull key))
    rw [Store.parent_eq]
    rcases (hD.rows r hr hentity).key_of_field hfield with hkey | ⟨a, hkey⟩
    · rw [Store.parent?_of_isNull hkey, Value.eq_null_of_isNull hkey,
        Option.elim_none, hnull]
    -- the parent is there and its identity is the key
    · have hnotNull := Value.isNull_of_atom hkey
      obtain ⟨p, hp⟩ :=
        Option.isSome_iff_exists.1 (hrefers r hr hentity hnotNull)
      have hfound := hp
      rw [Store.parent?_of_not_isNull hnotNull] at hfound
      obtain ⟨id, hid, hagrees⟩ :=
        (Option.any_eq_true _ _).1 (Store.find?_eq_some hfound).2.2
      obtain ⟨hmem, hdeclared⟩ :=
        Store.parent?_eq_some (Schema.field_eq_belongsTo hfield).2 hp
      obtain ⟨b, hidb⟩ := (hD.rows p hmem hdeclared).atom_of_id hid
      rw [Value.agrees_iff hidb hkey] at hagrees
      subst hagrees
      rw [hp, Option.elim_some, hop.compare_eq rfl,
        Record.identityOrSelf_of_id hid, hop.accepts_congr hidb hkey]
  | @hop _ _ key target _ rest hfield hrest ih =>
    show op.compare ((D.parent? r key target.name).elim .null (rest.value D))
      w = .ok (w.accepts (rest.reads D (D.parent? r key target.name)))
    cases hparent : D.parent? r key target.name with
    | none => rw [Option.elim_none, reads_none, hnull]
    | some p =>
      obtain ⟨hp, hdeclared⟩ :=
        Store.parent?_eq_some ((Schema.field_eq_belongsTo hfield).2) hparent
      exact ih hrefers hp hdeclared
  | nowhere => exact hnull

/-! ## Assignments along a lineage -/

section

variable {n : Naming} {o : Option Record} {a : Assignment} {aliasName : String}

/-- A left join of a parent binds the row of the parent. -/
theorem parent_row (hD : D.Relational s) (htabular : s.Tabular)
    (ho : ∀ r ∈ o, r ∈ D.contents ∧ s.entityOf? r = some entity)
    {name key child : String} {target : Entity} {optional : Bool}
    (hfield : s.field entity name = .belongsTo key target optional)
    (ha : a aliasName = Row.ofRecord o)
    (hfits :
      (Binder.parentJoin aliasName key target optional child).leftened.Fits
      (s.database D) a) :
    a child = Row.ofRecord (o.bind (D.parent? · key target.name)) := by
  have hfound (row : Row) : row ∈
      (Binder.parentJoin aliasName key target optional child).found
        (s.database D) a ↔ _ :=
    hD.mem_found_iff htabular ho hfield ha child
  unfold Join.Fits Join.candidates at hfits
  split at hfits
  · next hkind => cases hkind
  · next hnil _ =>
    have hnone : o.bind (D.parent? · key target.name) = none := by
      rw [Option.eq_none_iff_forall_ne_some]
      intro p hp
      have hmem := (hfound _).2 ⟨p, hp, rfl⟩
      exact List.ne_nil_of_mem hmem hnil
    rw [hnone]
    exact List.mem_singleton.1 hfits
  · obtain ⟨p, hp, hrow⟩ := (hfound _).1 hfits
    rw [hp, hrow]
    rfl

/-- What is bound on the way from a row is what the records on the way are: the
condition at the end asks for what the lineage reads, every join finds a row if
it holds, and another assignment binds the same rows. -/
structure Bound (s : Schema) (D : Store) (n : Naming) (t : Test) (w : Value)
    (entity : Entity) (aliasName : String) (lineage : Lineage)
    (o : Option Record) (a : Assignment) : Prop where
  truth : (lineage.condition n t entity aliasName).truth
    (s.database D) a = .yes ↔
    w.accepts (lineage.reads D o) = true
  found : w.accepts (lineage.reads D o) = true →
    ∀ j ∈ lineage.joins n aliasName, j.found (s.database D) a ≠ []
  same : ∀ b : Assignment, b aliasName = Row.ofRecord o →
    (∀ j ∈ lineage.joins n aliasName, j.leftened.Fits (s.database D) b) →
      ∀ j ∈ lineage.joins n aliasName, a j.aliasName = b j.aliasName

/-- Where no joins are left, only the condition matters. -/
theorem Bound.of_end {t : Test} (hend : lineage.joins n aliasName = [])
    (htruth : (lineage.condition n t entity aliasName).truth
      (s.database D) a = .yes ↔
      w.accepts (lineage.reads D o) = true) :
    lineage.Bound s D n t w entity aliasName o a := by
  refine ⟨htruth, fun _ j hj => ?_, fun _ _ _ j hj => ?_⟩
  all_goals
    rw [hend] at hj
    cases hj

/-- An assignment that the left joins of a lineage fit binds the records on the
way. -/
theorem bound (hD : D.Relational s) (htabular : s.Tabular) {v : Value}
    (htests : op.Tests w v) (hstarts : lineage.StartsAt s entity)
    (hentity : entity ∈ s.entities)
    (ho : ∀ r ∈ o, r ∈ D.contents ∧ s.entityOf? r = some entity)
    (ha : a aliasName = Row.ofRecord o)
    (hfits : ∀ j ∈ lineage.joins n aliasName,
      j.leftened.Fits (s.database D) a) :
    lineage.Bound s D n ⟨op, .value v⟩ w entity aliasName o a := by
  have hcolumn {aliasName : String} {o : Option Record}
    (ha : a aliasName = Row.ofRecord o)
      (column : String) : (Filter.comparison aliasName column op v).truth
      (s.database D) a =
        .yes ↔ w.accepts (Row.ofRecord o column) = true := by
    rw [Filter.truth, ha]
    exact htests.compare_iff _
  induction hstarts generalizing aliasName o with
  | @identity entity =>
    refine .of_end rfl ?_
    show (Filter.comparison aliasName entity.identity op v).truth
      (s.database D) a = .yes ↔ _
    rw [htabular.identity_eq entity hentity]
    exact hcolumn ha identityField
  | @column _ _ columnName _ => exact .of_end rfl (hcolumn ha columnName)
  | @parent _ _ key _ _ _ => exact .of_end rfl (hcolumn ha key)
  | @hop _ name key target optional rest hfield hrest ih =>
    have htarget := (Schema.field_eq_belongsTo hfield).2
    rw [joins, List.forall_mem_cons] at hfits
    have hchild := parent_row hD htabular ho hfield ha hfits.1
    have hparent : ∀ p ∈ o.bind (D.parent? · key target.name),
        p ∈ D.contents ∧ s.entityOf? p = some target := by
      intro p hp
      obtain ⟨r, -, hp⟩ := Option.bind_eq_some_iff.1 hp
      exact Store.parent?_eq_some htarget hp
    have hrest := ih (Schema.entity?_mem htarget) hparent hchild hfits.2
    refine ⟨hrest.truth, fun haccepts => ?_, fun b hb hfitsb => ?_⟩
    · rw [joins, List.forall_mem_cons]
      refine ⟨?_, hrest.found haccepts⟩
      -- a parent that is missing would read as null at the end
      cases hp : o.bind (D.parent? · key target.name) with
      | none =>
        rw [reads, hp, reads_none, htests.accepts_null] at haccepts
        cases haccepts
      | some p =>
        exact List.ne_nil_of_mem
          ((hD.mem_found_iff htabular ho hfield ha _).2 ⟨p, hp, rfl⟩)
    · rw [joins, List.forall_mem_cons] at hfitsb ⊢
      have hchildb := parent_row hD htabular ho hfield hb hfitsb.1
      exact ⟨hchild.trans hchildb.symm, hrest.same b hchildb hfitsb.2⟩
  | nowhere =>
    refine .of_end rfl ?_
    rw [reads, htests.accepts_null]
    simp [condition, Filter.truth]

end

/-! ## The fragment of a lineage -/

section

variable {n : Naming} {root : String} {r : Record} {v : Value}

theorem grow_isMerge (n : Naming) (t : Test) (entity : Entity) (root : String)
    (lineage : Lineage) :
    IsMerge (lineage.joins n root)
      (lineage.grow n t entity root .empty).joins :=
  (IsMerge.refl List.Pairwise.nil).merge (lineage.joins n root)

theorem grow_sameBindings (n : Naming) (t : Test) (entity : Entity)
    (root : String) (lineage : Lineage) :
    SameBindings (lineage.joins n root)
      (lineage.grow n t entity root .empty).joins :=
  ⟨(grow_isMerge n t entity root lineage).covers,
    (grow_isMerge n t entity root lineage).source⟩

/-- An assignment that the left joins of the fragment fit binds the records on
the way from the record at the root. -/
theorem grow_bound (hD : D.Relational s) (htabular : s.Tabular)
    (htests : op.Tests w v) (hstarts : lineage.StartsAt s entity)
    (hr : r ∈ D.contents) (hdeclared : s.entityOf? r = some entity)
    {a : Assignment} (ha : a root = r.getOrNull)
    (hfits : ∀ m ∈ (lineage.grow n ⟨op, .value v⟩ entity root .empty).joins,
      m.leftened.Fits (s.database D) a) :
    lineage.Bound s D n ⟨op, .value v⟩ w entity root (some r) a := by
  have hentity :=
    Schema.entity?_mem (Schema.entityOf?_eq_some_iff.1 hdeclared).2
  have ho : ∀ r' ∈ some r, r' ∈ D.contents ∧ s.entityOf? r' = some entity := by
    rintro r' ⟨⟩
    exact ⟨hr, hdeclared⟩
  exact bound hD htabular htests hstarts hentity ho ha
    ((grow_sameBindings n _ entity root lineage).fits_iff.1 hfits)

/-- The fragment of a lineage binds one row for each join, and where its
condition is true no parent is missing. -/
theorem grow_functional (hD : D.Relational s) (htabular : s.Tabular)
    (htests : op.Tests w v) (hstarts : lineage.StartsAt s entity)
    (hr : r ∈ D.contents) (hdeclared : s.entityOf? r = some entity) (n : Naming)
    (root : String) :
    (lineage.grow n ⟨op, .value v⟩ entity root .empty).Functional
      (s.database D) root r.getOrNull := by
  have hmerge := grow_isMerge n ⟨op, .value v⟩ entity root lineage
  have hsame := grow_sameBindings n ⟨op, .value v⟩ entity root lineage
  constructor
  · intro a b ha hb hfitsa hfitsb m hm
    obtain ⟨j, hj, hjm⟩ := hmerge.source m hm
    have hbound := grow_bound hD htabular htests hstarts hr hdeclared ha hfitsa
    rw [← Join.aliasName_eq_of_sameBinding hjm]
    exact hbound.same b hb (hsame.fits_iff.1 hfitsb) j hj
  · intro a ha hsolved
    obtain ⟨hfits, holds⟩ := Fragment.leftened_solvedBy_iff.1 hsolved
    have hbound := grow_bound hD htabular htests hstarts hr hdeclared ha hfits
    have hfound := hbound.found (hbound.truth.1 holds)
    refine ⟨fun m hm => ?_, holds⟩
    obtain ⟨j, hj, rfl⟩ := hmerge.mem_iff.1 hm
    exact Join.fits_widened hj
      (Join.fits_of_matched j.leftened_sameBinding (fun _ => rfl)
        (hsame.fits_iff.1 hfits j hj) fun _ => hfound j hj)

/-- The fragment of a lineage admits a record if the operand accepts what the
lineage reads. -/
theorem grow_admits_iff (hD : D.Relational s) (htabular : s.Tabular)
    (htests : op.Tests w v) (hstarts : lineage.StartsAt s entity)
    (hr : r ∈ D.contents) (hdeclared : s.entityOf? r = some entity)
    (hscoped : (lineage.grow n ⟨op, .value v⟩ entity root .empty).WellScoped
      root) :
    (lineage.grow n ⟨op, .value v⟩ entity root .empty).Admits
      (s.database D) root r.getOrNull ↔
      w.accepts (lineage.reads D (some r)) = true := by
  rw [Fragment.admits_iff_solved hscoped]
  constructor
  · rintro ⟨a, ha, hsolved⟩
    obtain ⟨hfits, holds⟩ := Fragment.leftened_solvedBy_iff.1 hsolved.leftened
    have hbound := grow_bound hD htabular htests hstarts hr hdeclared ha hfits
    exact hbound.truth.1 holds
  · intro haccepts
    obtain ⟨a, ha, hfits⟩ := hscoped.exists_fits (s.database D) r.getOrNull
    have hbound := grow_bound hD htabular htests hstarts hr hdeclared ha hfits
    have hfunctional :=
      grow_functional hD htabular htests hstarts hr hdeclared n root
    refine ⟨a, ha, hfunctional.matched a ha
      (Fragment.leftened_solvedBy_iff.2 ⟨hfits, ?_⟩)⟩
    exact hbound.truth.2 haccepts

end

end Lineage

end RowGuard
