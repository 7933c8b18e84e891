import Mathlib.Data.List.Nodup
import RowGuard.Proofs.Policy.Agreement

/-!
# What the aliases of a query stand for

Without alias overrides an alias is that of the table before, a separator and
the name of a relation.  A query should have one join for every alias, but names
may contain the separator: `lead` and `team` lead to the same alias as
`lead__team`.

* `Binder.Reaches` are the chains of relations that joins follow.
* `Fragment.Linked` says that every join ends such a chain.  Binding and merging
  keep it.
* `Compiler.aliases_nodup_iff` says that the aliases of a query are distinct
  exactly if no two chains lead to one alias.
* `Compiler.aliases_nodup_of_divides` names a condition on the relations of a
  schema under which they always are.
-/

namespace RowGuard

/-! ## Names and separators -/

namespace Naming

variable {n : Naming} {parent parent' name name' : String}

/-- No separator ends inside the name, even if part of it comes before the
name. -/
def Divides (n : Naming) (name : String) : Prop :=
  ¬ n.separator.toList <:+: n.separator.toList.tail ++ name.toList

instance : Decidable (n.Divides name) := inferInstanceAs (Decidable (¬ _))

theorem Divides.separator_ne_nil (h : n.Divides name) :
    n.separator.toList ≠ [] := by
  intro hnil
  exact h (hnil ▸ List.nil_infix)

/-- Up to the end of the name, a separator stands nowhere but before the
name. -/
theorem Divides.eq_nil (h : n.Divides name) {front back : List Char}
    (heq : n.separator.toList ++ name.toList =
      front ++ (n.separator.toList ++ back)) :
    front = [] := by
  by_contra hfront
  refine h ⟨front.tail, back, ?_⟩
  have htail := congrArg List.tail heq
  rw [List.tail_append_of_ne_nil h.separator_ne_nil,
    List.tail_append_of_ne_nil hfront] at htail
  rw [htail, List.append_assoc]

theorem toList_child : (n.child parent name).toList =
    parent.toList ++ (n.separator.toList ++ name.toList) := by
  simp [child, String.toList_append]

/-- Where the separator divides the names, the alias of a child tells that of
its parent. -/
theorem Divides.parent_eq (h : n.Divides name) (h' : n.Divides name')
    (heq : n.child parent name = n.child parent' name') : parent = parent' := by
  have hchars := congrArg String.toList heq
  rw [toList_child, toList_child, List.append_eq_append_iff] at hchars
  refine String.toList_inj.1 ?_
  rcases hchars with ⟨front, hparent, hrest⟩ | ⟨front, hparent, hrest⟩
  · rw [hparent, h.eq_nil hrest, List.append_nil]
  · rw [hparent, h'.eq_nil hrest, List.append_nil]

example : Divides {} "team_lead" ∧ ¬ Divides {} "lead__team" ∧
    ¬ Divides {} "_team" := by
  decide +kernel

theorem child_cancel (heq : n.child parent name = n.child parent name') :
    name = name' := by
  have hchars := congrArg String.toList heq
  rw [toList_child, toList_child, List.append_cancel_left_eq,
    List.append_cancel_left_eq] at hchars
  exact String.toList_inj.1 hchars

end Naming

/-! ## Chains of relations -/

namespace Binder

/-- The join of a relation under the alias that is built from the path. -/
structure PlainJoin (b : Binder) (entity : Entity) (aliasName name : String)
    (target : Entity) (j : Join) : Prop where
  relation : b.RelationJoin entity aliasName name target j
  aliasName_eq : j.aliasName = b.naming.child aliasName name

/-- The joins follow a chain of relations from the root, which is a row of
`start`, to a row of an entity under an alias.  The last relation stands
first. -/
inductive Reaches (b : Binder) (root : String) (start : Entity)
    (joins : List Join) :
    (chain : List String) → Entity → (aliasName : String) → Prop where
  | root : Reaches b root start joins [] start root
  | join {chain : List String} {entity target : Entity}
      {aliasName name : String} {j : Join}
      (before : Reaches b root start joins chain entity aliasName)
      (hjoin : b.PlainJoin entity aliasName name target j)
      (hbinds : Binds joins j) :
      Reaches b root start joins (name :: chain) target j.aliasName

/-- Every alias stands for one chain of relations. -/
def OneChain (b : Binder) (root : String) (start : Entity)
    (joins : List Join) : Prop :=
  ∀ ⦃chain chain' entity entity' aliasName⦄,
    b.Reaches root start joins chain entity aliasName →
    b.Reaches root start joins chain' entity' aliasName → chain = chain'

/-- The join ends a chain that the joins follow, up to its kind. -/
def Ends (b : Binder) (root : String) (start : Entity) (joins : List Join)
    (j : Join) : Prop :=
  ∃ chain entity aliasName name target i,
    b.Reaches root start joins chain entity aliasName ∧
    b.PlainJoin entity aliasName name target i ∧ i.sameBinding j = true

variable {b : Binder} {root : String}
  {start entity entity' target target' : Entity}
  {aliasName aliasName' name : String} {i j : Join} {joins joins' : List Join}
  {chain chain' : List String}

/-- An entity has one join for each of its relations. -/
theorem PlainJoin.unique (h : b.PlainJoin entity aliasName name target i)
    (h' : b.PlainJoin entity aliasName name target' j) :
    target = target' ∧ i = j := by
  obtain ⟨hrelation, halias⟩ := h
  obtain ⟨hrelation', halias'⟩ := h'
  have hsame := halias.trans halias'.symm
  cases hrelation with
  | parent _ hfield | children _ hfield =>
    cases hrelation' with
    | parent _ hfield' | children _ hfield' =>
      -- no field is both a parent and children
      cases hfield.symm.trans hfield' <;> exact ⟨rfl, congrArg _ hsame⟩

theorem Reaches.mono (h : b.Reaches root start joins chain entity aliasName)
    (hsub : ∀ j, Binds joins j → Binds joins' j) :
    b.Reaches root start joins' chain entity aliasName := by
  induction h with
  | root => exact .root
  | join _ hjoin hbinds ih => exact .join ih hjoin (hsub _ hbinds)

/-- A chain leads to one entity and one alias. -/
theorem Reaches.unique (h : b.Reaches root start joins chain entity aliasName)
    (h' : b.Reaches root start joins chain entity' aliasName') :
    entity = entity' ∧ aliasName = aliasName' := by
  induction h generalizing entity' aliasName' with
  | root =>
    cases h'
    exact ⟨rfl, rfl⟩
  | join _ hjoin _ ih =>
    cases h' with
    | join before' hjoin' _ =>
      obtain ⟨rfl, rfl⟩ := ih before'
      obtain ⟨rfl, rfl⟩ := hjoin.unique hjoin'
      exact ⟨rfl, rfl⟩

/-- A chain leads to entities of the schema. -/
theorem Reaches.declared (h : b.Reaches root start joins chain entity aliasName)
    (hstart : start ∈ b.schema.entities) : entity ∈ b.schema.entities := by
  cases h with
  | root => exact hstart
  | join _ hjoin _ => exact hjoin.relation.declared.2

/-- Every alias stands for one chain, if joins with one alias hang off one
alias. -/
theorem OneChain.of_parent (hfree : ∀ j ∈ joins, j.aliasName ≠ root)
    (hparent : ∀ i ∈ joins, ∀ j ∈ joins, i.aliasName = j.aliasName →
      i.parentAlias = j.parentAlias) : b.OneChain root start joins := by
  have hfree' : ∀ j, Binds joins j → j.aliasName ≠ root := by
    rintro j ⟨k, hk, hkj⟩
    rw [← Join.aliasName_eq_of_sameBinding hkj]
    exact hfree k hk
  intro chain chain' entity entity' aliasName h h'
  induction h generalizing chain' entity' with
  | root =>
    generalize heq : root = x at h'
    cases h' with
    | root => rfl
    | join _ _ hbinds => exact absurd heq.symm (hfree' _ hbinds)
  | @join chain entity target x name i before hjoin hbinds ih =>
    generalize heq : i.aliasName = y at h'
    cases h' with
    | root => exact absurd heq (hfree' i hbinds)
    | @join chain' entity' _ x' name' j before' hjoin' hbinds' =>
      obtain ⟨k, hk, hki⟩ := hbinds
      obtain ⟨l, hl, hlj⟩ := hbinds'
      obtain rfl : x = x' := by
        rw [← hjoin.relation.parentAlias_eq, ← hjoin'.relation.parentAlias_eq,
          ← Join.parentAlias_eq_of_sameBinding hki,
          ← Join.parentAlias_eq_of_sameBinding hlj]
        refine hparent k hk l hl ?_
        rw [Join.aliasName_eq_of_sameBinding hki,
          Join.aliasName_eq_of_sameBinding hlj, heq]
      obtain rfl : name = name' := by
        rw [hjoin.aliasName_eq, hjoin'.aliasName_eq] at heq
        exact Naming.child_cancel heq
      rw [ih before']

/-- Distinct aliases stand for one chain each. -/
theorem OneChain.of_nodup (hfree : ∀ j ∈ joins, j.aliasName ≠ root)
    (hnodup : (joins.map Join.aliasName).Nodup) : b.OneChain root start joins :=
  .of_parent hfree fun _ hi _ hj halias =>
    congrArg _ (List.inj_on_of_nodup_map hnodup hi hj halias)

theorem Ends.mono (h : b.Ends root start joins j)
    (hsub : ∀ j, Binds joins j → Binds joins' j) :
    b.Ends root start joins' j := by
  obtain ⟨chain, entity, aliasName, name, target, i, hreach, hjoin, hsame⟩ := h
  exact ⟨chain, entity, aliasName, name, target, i, hreach.mono hsub,
    hjoin, hsame⟩

end Binder

/-! ## Linked fragments -/

/-- Every join ends a chain that the joins of the fragment follow. -/
def Fragment.Linked (b : Binder) (root : String) (start : Entity)
    (f : Fragment) : Prop :=
  ∀ j, Binds f.joins j → b.Ends root start f.joins j

namespace Fragment.Linked

variable {b : Binder} {root : String} {start : Entity} {f g : Fragment}

theorem of_nil {filters : List Filter} :
    Fragment.Linked b root start ⟨[], filters⟩ := by
  rintro j ⟨_, hmem, _⟩
  cases hmem

theorem merge (hf : f.Linked b root start) (hg : g.Linked b root start)
    (combination : Combination) :
    (f.merge combination g).Linked b root start := by
  intro j hj
  rcases Fragment.binds_merge.1 hj with hj | hj
  · exact (hf j hj).mono fun _ h => Fragment.binds_merge.2 (.inl h)
  · exact (hg j hj).mono fun _ h => Fragment.binds_merge.2 (.inr h)

end Fragment.Linked

namespace Binder

variable {b : Binder} {root : String} {start entity : Entity}
  {aliasName : String} {f g : Fragment} {chain : List String}

/-- What binding adds goes on from the chain at which it starts. -/
theorem Chain.linked (h : b.Chain true entity aliasName f g)
    (hf : f.Linked b root start)
    (hreach : b.Reaches root start f.joins chain entity aliasName) :
    g.Linked b root start := by
  induction h generalizing chain with
  | filter => exact hf
  | @join entity aliasName f name target j g hrelation halias _ ih =>
    have hjoin : b.PlainJoin entity aliasName name target j :=
      ⟨hrelation, halias rfl⟩
    have hsub : ∀ i, Binds f.joins i → Binds (f.join j).joins i := fun i hi =>
      binds_insertJoin.2 (.inl hi)
    refine ih (fun i hi => ?_) ((hreach.mono hsub).join hjoin ?_)
    · rcases binds_insertJoin.1 hi with hi | hsame
      · exact (hf i hi).mono hsub
      · exact ⟨chain, entity, aliasName, name, target, j, hreach.mono hsub,
          hjoin, hsame⟩
    · exact binds_insertJoin.2 (.inr j.sameBinding_refl)

end Binder

/-- Where every alias stands for one chain, joins with one alias have one
binding. -/
theorem Fragment.Linked.unambiguous {b : Binder} {root : String}
    {start : Entity} {f : Fragment} (h : f.Linked b root start)
    (hunique : b.OneChain root start f.joins) :
    Unambiguous f.joins := by
  intro j hj k hk halias
  obtain ⟨chain, entity, x, name, target, i, hreach, hjoin, hij⟩ :=
    h j ⟨j, hj, j.sameBinding_refl⟩
  obtain ⟨chain', entity', x', name', target', l, hreach', hjoin', hlk⟩ :=
    h k ⟨k, hk, k.sameBinding_refl⟩
  have hil : i.aliasName = l.aliasName := by
    rw [Join.aliasName_eq_of_sameBinding hij,
      Join.aliasName_eq_of_sameBinding hlk, halias]
  have hends := hreach.join hjoin ⟨j, hj, Join.sameBinding_symm hij⟩
  have hends' := hreach'.join hjoin' ⟨k, hk, Join.sameBinding_symm hlk⟩
  cases hunique hends (hil ▸ hends')
  obtain ⟨rfl, rfl⟩ := hreach.unique hreach'
  obtain ⟨-, rfl⟩ := hjoin.unique hjoin'
  exact Join.sameBinding_trans (Join.sameBinding_symm hij) hlk

/-! ## Compilation -/

namespace Compiler

variable {σ : Type} {c : Compiler σ} {actor : Value} {name : String}
  {entity : Entity} {e : Expression} {s s' : Session σ} {f : Fragment}

theorem fragment_linked (hplain : e.Plain)
    (h : Returns (c.fragment actor entity e) s f s') :
    f.Linked c.binder c.naming.root entity :=
  fragment_induction .of_nil
    (fun _ _ combination hf hg => hf.merge hg combination) e
    (fun path hpath _ =>
      (Binder.bind_chain (fun _ => hplain path hpath) entity _).linked
      .of_nil .root) h

/-- Without alias overrides no join of a compiled expression has the alias of
the root.  The aliases of its joins are distinct exactly if each stands for one
chain of relations.  The names are as required if the separator is not empty
(`Binder.Names.of_separator`). -/
theorem aliases_nodup_iff
    (hentity : c.evaluator.schema.entity? name = some entity)
    (hnames : c.binder.Names) (hplain : e.Plain)
    (h : Returns (c.compile actor name e) s f s') :
    c.naming.root ∉ f.joins.map Join.aliasName ∧
      ((f.joins.map Join.aliasName).Nodup ↔
        c.binder.OneChain c.naming.root entity f.joins) := by
  rw [compile_returns_iff hentity] at h
  have hcompiled : f.Compiled true c.naming.root :=
    fragment_compiled (Schema.entity?_mem hentity) (fun _ => hnames) e
      (fun _ => hplain) h
  refine ⟨fun hroot => ?_, fun hnodup => ?_, fun hunique => ?_⟩
  · obtain ⟨j, hj, halias⟩ := List.mem_map.1 hroot
    exact hcompiled.root_free j hj halias
  · exact .of_nodup hcompiled.root_free hnodup
  · have hlinked := fragment_linked hplain h
    exact (IsMerge.refl hcompiled.once).nodup_aliases
      (hlinked.unambiguous hunique)

/-- The aliases are distinct if the separator divides the names of all
relations. -/
theorem aliases_nodup_of_divides
    (hentity : c.evaluator.schema.entity? name = some entity)
    (hdivides : ∀ declared ∈ c.evaluator.schema.entities,
      ∀ relation ∈ declared.relations,
      c.naming.Divides relation.name)
    (hplain : e.Plain) (h : Returns (c.compile actor name e) s f s') :
    (c.naming.root :: f.joins.map Join.aliasName).Nodup := by
  rw [compile_returns_iff hentity] at h
  have hmem := Schema.entity?_mem hentity
  have hnames :
      c.binder.Names := fun declared hdeclared relation hrelation heq =>
    (hdivides declared hdeclared relation hrelation).separator_ne_nil
      (String.toList_eq_nil_iff.2 (String.append_eq_empty_iff.1 heq).1)
  have hcompiled : f.Compiled true c.naming.root :=
    fragment_compiled hmem (fun _ => hnames) e (fun _ => hplain) h
  have hlinked := fragment_linked hplain h
  have hone : c.binder.OneChain c.naming.root entity f.joins := by
    refine .of_parent hcompiled.root_free fun i hi j hj halias => ?_
    obtain ⟨_, _, _, _, _, k, hreach, hjoin, hki⟩ :=
      hlinked i ⟨i, hi, i.sameBinding_refl⟩
    obtain ⟨_, _, _, _, _, l, hreach', hjoin', hlj⟩ :=
      hlinked j ⟨j, hj, j.sameBinding_refl⟩
    obtain ⟨⟨_, hrelation, rfl⟩, -⟩ := hjoin.relation.declared
    obtain ⟨⟨_, hrelation', rfl⟩, -⟩ := hjoin'.relation.declared
    rw [← Join.aliasName_eq_of_sameBinding hki,
      ← Join.aliasName_eq_of_sameBinding hlj, hjoin.aliasName_eq,
      hjoin'.aliasName_eq] at halias
    rw [← Join.parentAlias_eq_of_sameBinding hki,
      ← Join.parentAlias_eq_of_sameBinding hlj, hjoin.relation.parentAlias_eq,
      hjoin'.relation.parentAlias_eq]
    exact (hdivides _ (hreach.declared hmem) _ hrelation).parent_eq
      (hdivides _ (hreach'.declared hmem) _ hrelation') halias
  exact (hcompiled.toBuilt.wellScoped (hlinked.unambiguous hone)
    hcompiled.root_free).nodup

end Compiler

namespace Staff

/-- A compiler without storage and settings. -/
def plainCompiler : Compiler Unit := { evaluator := { schema := tidySchema } }

/-- What `lentOut` compiles to. -/
def lentOutFragment : Fragment where
  joins :=
    [⟨.left, "member", "member", "root__lead", "id", "root", "lead_id"⟩,
      ⟨.inner, "team", "team", "root__lead__team", "id",
        "root__lead", "team_id"⟩,
      ⟨.left, "team", "team", "root__lead__team", "id", "root",
        "lead__team_id"⟩]
  filters :=
    [.and [.comparison "root__lead__team" "name" .eq (.string "x"),
      .comparison "root__lead__team" "name" .eq (.string "y")]]

theorem lentOut_plain : lentOut.expression.Plain := by
  simp [lentOut, allow, Expression.Plain, Expression.properties,
    propertiesOf, Path.Plain, Step.plain, Step.alias?]

theorem lentOut_returns :
    Returns (plainCompiler.compile .null "member" lentOut.expression)
      (.start ()) lentOutFragment (.start ()) := rfl

end Staff

open Staff in
/-- The team of the lead and the relation `lead__team` get two joins with one
alias. -/
theorem Compiler.aliases_shared_lentOut :
    plainCompiler.naming = {} ∧ lentOut.expression.Plain ∧
      Returns (plainCompiler.compile .null "member" lentOut.expression)
        (.start ()) lentOutFragment (.start ()) ∧
      ¬ (lentOutFragment.joins.map Join.aliasName).Nodup :=
  ⟨rfl, lentOut_plain, lentOut_returns, by decide⟩

open Staff in
theorem Compiler.aliases_nodup_iff_lentOut :
    plainCompiler.evaluator.schema.entity? "member" = some member ∧
      plainCompiler.binder.Names ∧ lentOut.expression.Plain ∧
      Returns (plainCompiler.compile .null "member" lentOut.expression)
        (.start ()) lentOutFragment (.start ()) ∧
      plainCompiler.naming.root ∉ lentOutFragment.joins.map Join.aliasName ∧
      ((lentOutFragment.joins.map Join.aliasName).Nodup ↔
        plainCompiler.binder.OneChain plainCompiler.naming.root member
          lentOutFragment.joins) := by
  have hnames : plainCompiler.binder.Names := .of_separator (by decide)
  exact ⟨rfl, hnames, lentOut_plain, lentOut_returns,
    Compiler.aliases_nodup_iff rfl hnames lentOut_plain lentOut_returns⟩

end RowGuard
