import RowGuard.Evaluation.Decision
import RowGuard.Proofs.Scope.Admission

/-!
# Compiled conditions and decisions

A condition is `Positive` if it is built from `all`, `any` and comparisons for
equality or membership at the end of paths through parents.  What it compiles to
and what it decides on loaded data are the same on a relational store:
`Compiler.Agrees` says so for one expression and one fragment, and
`Expression.Positive.agrees` for all positive expressions.
-/

namespace RowGuard

/-- The operand has a value that the operator takes, in a fresh session on the
store. -/
def Evaluator.Offers (ev : Evaluator Store) (D : Store) (actor : Value)
    (op : Operator) (operand : Operand) : Prop :=
  ∃ w s', Returns (ev.resolve actor operand) (.start D) w s' ∧ op.Takes w

/-- Conditions on parents that are built without negation. -/
inductive Expression.Positive (ev : Evaluator Store) (D : Store) (actor : Value)
    (entity : Entity) : Expression → Prop where
  | all {parts} (hparts : ∀ part ∈ parts, Positive ev D actor entity part) :
      Positive ev D actor entity (.all parts)
  | any {parts} (hparts : ∀ part ∈ parts, Positive ev D actor entity part) :
      Positive ev D actor entity (.any parts)
  | leaf {op property operand lineage} (hplain : property.Plain)
      (hlineage : property.lineage? ev.schema ev.graph entity = some lineage)
      (hrefers : lineage.Refers ev.schema D entity)
      (hoperand : ev.Offers D actor op operand) :
      Positive ev D actor entity (.leaf op property operand)

namespace Compiler

/-- Sessions whose cache agrees with the store. -/
abbrev Fresh (c : Compiler Store) (D : Store) (actor : Value) :
    Session Store → Prop :=
  Coherent c.evaluator D.Serves D.reply (D.Known c.evaluator.schema actor)

/-- The fragment is functional for the record and admits it if the decision is
positive. -/
structure Decided (c : Compiler Store) (D : Store) (r : Record) (f : Fragment)
    (b : Bool) : Prop where
  functional : f.Functional (c.evaluator.schema.database D)
    c.naming.root r.getOrNull
  admits_iff : f.Admits (c.evaluator.schema.database D) c.naming.root
    r.getOrNull ↔ b = true

/-- The fragment admits exactly the stored records for which the expression is
decided to hold, as long as no two of its joins clash. -/
structure Agrees (c : Compiler Store) (D : Store) (actor : Value)
    (entity : Entity) (e : Expression) (f : Fragment) : Prop where
  compiled : f.Compiled true c.naming.root
  decides : ∀ r ∈ D.contents, c.evaluator.schema.entityOf? r = some entity →
    ∃ b, Yields (c.Fresh D actor) (c.evaluator.holds (.record r) actor e) b ∧
      (Unambiguous f.joins → c.Decided D r f b)

/-- What is needed of a compiler, a store and an actor: the evaluator loads from
the store without limits, the store is relational and knows the actor's
records. -/
structure Reads (c : Compiler Store) (D : Store) (actor : Value) : Prop where
  elapsed : ∃ elapsed, c.evaluator.loader = some (Store.loader elapsed)
  unlimited : c.evaluator.budget = .unlimited
  names : c.binder.Names
  tabular : c.evaluator.schema.Tabular
  relational : D.Relational c.evaluator.schema
  familiar : D.Familiar c.evaluator.schema actor

variable {c : Compiler Store} {D : Store} {actor : Value} {entity : Entity}

theorem Reads.steady (h : c.Reads D actor) :
    ∃ loader, c.evaluator.Steady loader D.Serves D.reply
      (D.Known c.evaluator.schema actor) := by
  obtain ⟨elapsed, hloader⟩ := h.elapsed
  exact ⟨_, h.relational.steady h.familiar rfl hloader h.unlimited⟩

theorem Reads.start (h : c.Reads D actor) : c.Fresh D actor (.start D) :=
  .start h.relational.serves_self

/-! ## Comparisons -/

/-- An operand has its value in every session. -/
theorem Reads.resolve_yields (h : c.Reads D actor) {operand : Operand}
    {w : Value} {s' : Session Store}
    (hw : Returns (c.evaluator.resolve actor operand) (.start D) w s') :
    Yields (c.Fresh D actor) (c.evaluator.resolve actor operand) w := by
  cases operand with
  | literal v =>
    obtain ⟨rfl, -⟩ := returns_pure_iff.1 hw
    exact .pure v
  | setting app environment key =>
    simp only [Evaluator.resolve] at hw ⊢
    cases hsetting : c.evaluator.settings.bind
      (·.lookup? app environment key) with
    | none =>
      simp only [hsetting] at hw
      exact absurd hw not_returns_throw
    | some setting =>
      simp only [hsetting] at hw ⊢
      obtain ⟨rfl, -⟩ := returns_pure_iff.1 hw
      exact .pure setting
  | path path =>
    obtain ⟨_, hsteady⟩ := h.steady
    obtain ⟨w', -, hyields⟩ :=
      Evaluator.evaluate_total hsteady path actor fun r hr => .inr hr
    rwa [hyields.eq_of_returns h.start hw]

theorem Reads.leaf_agrees (h : c.Reads D actor)
    (hentity : entity ∈ c.evaluator.schema.entities) {op : Operator}
    {property : Path} {operand : Operand} {lineage : Lineage}
    (hplain : property.Plain)
    (hlineage : property.lineage? c.evaluator.schema c.evaluator.graph entity =
      some lineage) (hrefers : lineage.Refers c.evaluator.schema D entity)
    (hoperand : c.evaluator.Offers D actor op operand) :
    ∃ f, Yields (c.Fresh D actor)
      (c.fragment actor entity (.leaf op property operand)) f ∧
      c.Agrees D actor entity (.leaf op property operand) f := by
  obtain ⟨w, s', hw, htakes⟩ := hoperand
  have hresolve := h.resolve_yields hw
  obtain ⟨v, hof, htests⟩ := htakes.test
  obtain ⟨_, hsteady⟩ := h.steady
  have hfragment : Yields (c.Fresh D actor)
      (c.fragment actor entity (.leaf op property operand))
      (c.binder.bind ⟨op, .value v⟩ property entity c.naming.root) := by
    rw [fragment, leaf]
    refine hresolve.adapt.bind ?_
    rw [hof]
    exact .pure _
  obtain ⟨t, hreturns, -⟩ := hfragment _ h.start
  obtain ⟨hstarts, hbind⟩ := c.binder.bind_lineage (t := ⟨op, .value v⟩)
    hplain hlineage c.naming.root
  have hcompiled : (c.binder.bind ⟨op, .value v⟩ property entity
      c.naming.root).Compiled true c.naming.root :=
    fragment_compiled hentity (fun _ => h.names) _ (fun _ path hpath => by
      rw [Expression.properties, List.mem_singleton] at hpath
      exact hpath ▸ hplain) hreturns
  refine ⟨_, hfragment, hcompiled, fun r hr hdeclared => ?_⟩
  have hholds : Yields (c.Fresh D actor) (c.evaluator.holds (.record r) actor
      (.leaf op property operand)) (w.accepts (lineage.reads D (some r))) := by
    rw [Evaluator.holds, Evaluator.holdsLeaf]
    refine (Evaluator.evaluate_lineage h.relational hsteady hlineage hr
      hdeclared).bind (hresolve.bind ?_)
    rw [Lineage.compare_value h.relational htakes hstarts hrefers hr hdeclared]
    exact .pure _
  refine ⟨_, hholds, fun hu => ?_⟩
  have hscoped := hcompiled.toBuilt.wellScoped hu hcompiled.root_free
  rw [hbind] at hscoped ⊢
  exact ⟨Lineage.grow_functional h.relational h.tabular htests hstarts hr
    hdeclared _ _,
    Lineage.grow_admits_iff h.relational h.tabular htests hstarts hr
      hdeclared hscoped⟩

/-! ## Combinations -/

/-- Several expressions compile in every session if each of them does. -/
theorem fragments_agree {parts : List Expression}
    (hparts : ∀ part ∈ parts, ∃ f,
      Yields (c.Fresh D actor) (c.fragment actor entity part) f ∧
      c.Agrees D actor entity part f) :
    ∃ fs, Yields (c.Fresh D actor) (c.fragments actor entity parts) fs ∧
      List.Forall₂ (c.Agrees D actor entity) parts fs := by
  induction parts with
  | nil => exact ⟨[], .pure [], .nil⟩
  | cons part parts ih =>
    rw [List.forall_mem_cons] at hparts
    obtain ⟨⟨f, hf, hagrees⟩, hparts⟩ := hparts
    obtain ⟨fs, hfs, hall⟩ := ih hparts
    refine ⟨f :: fs, ?_, .cons hagrees hall⟩
    rw [fragments]
    exact hf.bind (hfs.bind (.pure (f :: fs)))

section

variable {parts : List Expression} {fs : List Fragment}

theorem compiled_of_agrees
    (h : List.Forall₂ (c.Agrees D actor entity) parts fs) :
    ∀ f ∈ fs, f.Compiled true c.naming.root := by
  induction h with
  | nil => simp
  | cons hf _ ih => exact List.forall_mem_cons.2 ⟨hf.compiled, ih⟩

theorem unambiguous_of_cons {f : Fragment}
    (hu : Unambiguous ((f :: fs).flatMap Fragment.joins)) :
    Unambiguous f.joins ∧ Unambiguous (fs.flatMap Fragment.joins) := by
  rw [List.flatMap_cons] at hu
  exact ⟨hu.mono fun _ => List.mem_append_left _,
    hu.mono fun _ => List.mem_append_right _⟩

variable {r : Record}

/-- Each of several expressions has a decision. -/
theorem decide_each (h : List.Forall₂ (c.Agrees D actor entity) parts fs)
    (hr : r ∈ D.contents)
    (hdeclared : c.evaluator.schema.entityOf? r = some entity) :
    ∃ bs : List Bool,
      Yields (c.Fresh D actor) (c.evaluator.allHold (.record r) actor parts)
        (bs.all id) ∧
      Yields (c.Fresh D actor) (c.evaluator.anyHolds (.record r) actor parts)
        (bs.any id) ∧
      (Unambiguous (fs.flatMap Fragment.joins) →
        List.Forall₂ (c.Decided D r) fs bs) := by
  induction h with
  | nil => exact ⟨[], .pure true, .pure false, fun _ => .nil⟩
  | cons hf _ ih =>
    obtain ⟨b, hb, hdecided⟩ := hf.decides r hr hdeclared
    obtain ⟨bs, hall, hany, hrest⟩ := ih
    refine ⟨b :: bs, ?_, ?_, fun hu => ?_⟩
    · rw [Evaluator.allHold]
      refine hb.bind ?_
      cases b with
      | true => exact hall
      | false => exact .pure false
    · rw [Evaluator.anyHolds]
      refine hb.bind ?_
      cases b with
      | true => exact .pure true
      | false => exact hany
    · obtain ⟨hu, hurest⟩ := unambiguous_of_cons hu
      exact .cons (hdecided hu) (hrest hurest)

variable {bs : List Bool}

theorem functional_of_decided (h : List.Forall₂ (c.Decided D r) fs bs) :
    ∀ f ∈ fs, f.Functional (c.evaluator.schema.database D) c.naming.root
      r.getOrNull := by
  induction h with
  | nil => simp
  | cons hf _ ih => exact List.forall_mem_cons.2 ⟨hf.functional, ih⟩

theorem all_iff_of_decided (h : List.Forall₂ (c.Decided D r) fs bs) :
    (∀ f ∈ fs, f.Admits (c.evaluator.schema.database D) c.naming.root
      r.getOrNull) ↔
      bs.all id = true := by
  induction h with
  | nil => simp
  | cons hf _ ih =>
    rw [List.forall_mem_cons, hf.admits_iff, ih, List.all_cons,
      Bool.and_eq_true, id]

theorem any_iff_of_decided (h : List.Forall₂ (c.Decided D r) fs bs) :
    (∃ f ∈ fs, f.Admits (c.evaluator.schema.database D) c.naming.root
      r.getOrNull) ↔
      bs.any id = true := by
  induction h with
  | nil => simp
  | cons hf _ ih =>
    simp only [List.exists_mem_cons_iff, hf.admits_iff, ih, List.any_cons,
      Bool.or_eq_true, id]

/-- What matches no row agrees with an expression that never holds. -/
theorem emptySet_agrees {e : Expression}
    (he : ∀ subject, c.evaluator.holds subject actor e = pure false) :
    c.Agrees D actor entity e .emptySet := by
  refine ⟨.emptySet, fun r _ _ =>
    ⟨false, ?_, fun _ => ⟨⟨?_, fun _ _ h => h⟩, ?_⟩⟩⟩
  · rw [he]
    exact .pure false
  · exact fun _ _ _ _ _ _ j hj => absurd hj List.not_mem_nil
  · simp only [Bool.false_eq_true, iff_false]
    rintro ⟨a, -, holds⟩
    have hno := holds .emptySet (List.mem_singleton_self _)
    rw [Filter.truth] at hno
    cases hno

/-- An `all` agrees if its parts do. -/
theorem all_agrees (h : List.Forall₂ (c.Agrees D actor entity) parts fs) :
    c.Agrees D actor entity (.all parts) (combine .all fs) := by
  have hcompiled := compiled_of_agrees h
  by_cases hne : fs = []
  · subst hne
    cases h
    exact emptySet_agrees fun subject => by rw [Evaluator.holds]; rfl
  · obtain ⟨d, hd, hconjunction⟩ := combineFragments_all
      (c.evaluator.schema.database D) hne fun f hf => (hcompiled f hf).toBuilt
    have hcombine : combine .all fs = d := by rw [combine, hd, Option.getD_some]
    refine ⟨.combine hcompiled .all, fun r hr hdeclared => ?_⟩
    obtain ⟨bs, hall, -, hdecided⟩ := decide_each h hr hdeclared
    refine ⟨bs.all id, ?_, fun hu => ?_⟩
    · rw [Evaluator.holds, if_neg]
      · exact hall
      · rintro hempty
        rw [List.isEmpty_iff.1 hempty] at h
        cases h
        exact hne rfl
    · rw [hcombine] at hu ⊢
      have hsources := hconjunction.sameBindings.unambiguous hu
      have hdecided := hdecided hsources
      have hfunctional := functional_of_decided hdecided
      refine ⟨hconjunction.functional hfunctional, ?_⟩
      rw [hconjunction.admits_iff_forall (.of_compiled hcompiled hsources)
        hfunctional]
      exact all_iff_of_decided hdecided

/-- An `any` agrees if its parts do. -/
theorem any_agrees (h : List.Forall₂ (c.Agrees D actor entity) parts fs) :
    c.Agrees D actor entity (.any parts) (combine .any fs) := by
  have hcompiled := compiled_of_agrees h
  by_cases hne : fs = []
  · subst hne
    cases h
    exact emptySet_agrees fun subject => by
      rw [Evaluator.holds, Evaluator.anyHolds]
  · obtain ⟨d, hd, hdisjunction⟩ := combineFragments_any
      (c.evaluator.schema.database D) hne fun f hf => (hcompiled f hf).toBuilt
    have hcombine : combine .any fs = d := by rw [combine, hd, Option.getD_some]
    refine ⟨.combine hcompiled .any, fun r hr hdeclared => ?_⟩
    obtain ⟨bs, -, hany, hdecided⟩ := decide_each h hr hdeclared
    refine ⟨bs.any id, ?_, fun hu => ?_⟩
    · rw [Evaluator.holds]
      exact hany
    · rw [hcombine] at hu ⊢
      have hsources := hdisjunction.sameBindings.unambiguous hu
      have hdecided := hdecided hsources
      have hfunctional := functional_of_decided hdecided
      refine ⟨hdisjunction.functional hfunctional, ?_⟩
      rw [hdisjunction.admits_iff_exists (.of_compiled hcompiled hsources)
        hfunctional]
      exact any_iff_of_decided hdecided

end

/-! ## Positive expressions -/

/-- Every positive expression compiles, and agrees with what it compiles to. -/
theorem Reads.positive_agrees (h : c.Reads D actor)
    (hentity : entity ∈ c.evaluator.schema.entities) {e : Expression}
    (he : e.Positive c.evaluator D actor entity) :
    ∃ f, Yields (c.Fresh D actor) (c.fragment actor entity e) f ∧
      c.Agrees D actor entity e f := by
  induction he with
  | all _ ih =>
    obtain ⟨fs, hfs, hagree⟩ := fragments_agree ih
    refine ⟨_, ?_, all_agrees hagree⟩
    rw [fragment]
    exact hfs.bind (.pure (combine .all fs))
  | any _ ih =>
    obtain ⟨fs, hfs, hagree⟩ := fragments_agree ih
    refine ⟨_, ?_, any_agrees hagree⟩
    rw [fragment]
    exact hfs.bind (.pure (combine .any fs))
  | leaf hplain hlineage hrefers hoperand =>
    exact h.leaf_agrees hentity hplain hlineage hrefers hoperand

end Compiler

end RowGuard
