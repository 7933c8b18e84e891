import Mathlib.Data.List.Forall2
import RowGuard.Proofs.Evaluation.Returns
import RowGuard.Proofs.Scope.Chain
import RowGuard.Scope.Compiler

/-!
# Compiled conditions are well-scoped

Every leaf of an expression compiles to a chain of joins, and combining keeps
what holds of the leaves (`Compiler.fragment_induction`).
`Compiler.fragment_compiled` says that whatever an expression compiles to is
`Compiled`: it is built on the root, and without alias overrides no join uses
the alias of the root.
-/

namespace RowGuard

/-! ## The paths of an expression -/

mutual

/-- The paths of the leaves, which start at the subject. -/
def Expression.properties : Expression → List Path
  | .all parts => propertiesOf parts
  | .any parts => propertiesOf parts
  | .not part => part.properties
  | .leaf _ property _ => [property]

/-- The paths of the leaves of several expressions. -/
def propertiesOf : List Expression → List Path
  | [] => []
  | part :: parts => part.properties ++ propertiesOf parts

end

/-- No leaf gives aliases. -/
def Expression.Plain (e : Expression) : Prop :=
  ∀ path ∈ e.properties, path.Plain

theorem mem_propertiesOf {path : Path} {parts : List Expression} :
    path ∈ propertiesOf parts ↔ ∃ part ∈ parts, path ∈ part.properties := by
  induction parts with
  | nil => simp [propertiesOf]
  | cons part parts ih => simp [propertiesOf, ih]

/-! ## Combined fragments -/

/-- What holds of fragments, of the one that matches no row and of merges holds
of a combination. -/
theorem Compiler.combine_induction {P : Fragment → Prop} {fs : List Fragment}
    (emptySet : P .emptySet)
    (merge : ∀ f g combination, P f → P g → P (f.merge combination g))
    (hfs : ∀ f ∈ fs, P f) (combination : Combination) :
    P (combine combination fs) := by
  cases fs with
  | nil => exact emptySet
  | cons f fs =>
    obtain ⟨d, hd, hP⟩ : ∃ d,
        combineFragments combination ((f :: fs).map some) = some d ∧ P d :=
      combineFragments_induction (motive := fun _ d => P d)
        (List.cons_ne_nil f fs) hfs
        (fun _ _ _ _ hd _ => hd) fun _ d g hg hd _ =>
          merge d g combination hd (hfs g hg)
    rw [combine, hd, Option.getD_some]
    exact hP

/-- A fragment is built on the root, and if `plain` then no join uses the alias
of the root. -/
structure Fragment.Compiled (plain : Bool) (root : String) (f : Fragment) : Prop
    extends f.Built root where
  longer : plain = true → ∀ x ∈ f.joins.map Join.aliasName,
    root.length < x.length

namespace Fragment.Compiled

variable {plain : Bool} {root : String} {f g : Fragment}

theorem emptySet : Fragment.emptySet.Compiled plain root :=
  ⟨.emptySet, fun _ => by simp [Fragment.emptySet]⟩

theorem merge (hf : f.Compiled plain root) (hg : g.Compiled plain root)
    (combination : Combination) :
    (f.merge combination g).Compiled plain root := by
  refine ⟨hf.toBuilt.merge hg.toBuilt combination, fun hplain x hx => ?_⟩
  rcases mem_aliases_merge.1 hx with hx | hx
  · exact hf.longer hplain x hx
  · exact hg.longer hplain x hx

/-- Combined fragments are compiled if all of them are. -/
theorem combine {fs : List Fragment} (hfs : ∀ f ∈ fs, f.Compiled plain root)
    (combination : Combination) :
    (Compiler.combine combination fs).Compiled plain root :=
  Compiler.combine_induction emptySet
    (fun _ _ combination hf hg => hf.merge hg combination) hfs
    combination

theorem root_free (h : f.Compiled true root) :
    ∀ j ∈ f.joins, j.aliasName ≠ root := by
  intro j hj heq
  have hlonger := h.longer rfl j.aliasName (List.mem_map_of_mem hj)
  rw [heq] at hlonger
  exact Nat.lt_irrefl _ hlonger

end Fragment.Compiled

/-- Compiled fragments can be merged if the joins that share an alias have one
binding. -/
theorem Mergeable.of_compiled {root : String} {fs : List Fragment}
    (hfs : ∀ f ∈ fs, f.Compiled true root)
    (hu : Unambiguous (fs.flatMap Fragment.joins)) :
    Mergeable root fs where
  built f hf := (hfs f hf).toBuilt
  unambiguous := hu
  root_free j hj := by
    obtain ⟨f, hf, hj⟩ := List.mem_flatMap.1 hj
    exact (hfs f hf).root_free j hj

/-! ## Compilation -/

namespace Compiler

variable {σ : Type} {c : Compiler σ} {actor : Value} {entity : Entity}
  {plain : Bool}

/-- A leaf compiles if its operand has a value that a filter can carry, and the
path is bound with the test of this value. -/
theorem leaf_returns_iff {op : Operator} {property : Path} {operand : Operand}
    {s s' : Session σ} {f : Fragment} :
    Returns (c.leaf actor entity op property operand) s f s' ↔
      ∃ value t, Returns (c.evaluator.resolve actor operand) s value s' ∧
        Test.of op value = .ok t ∧
        f = c.binder.bind t property entity c.naming.root := by
  simp only [leaf, returns_bind_iff, returns_pure_iff]
  constructor
  · rintro ⟨value, u, hvalue, t, v, htest, rfl, rfl⟩
    cases hof : Test.of op value with
    | error e =>
      rw [hof] at htest
      exact absurd htest not_returns_throw
    | ok t' =>
      rw [hof] at htest
      obtain ⟨rfl, rfl⟩ := returns_pure_iff.1 htest
      exact ⟨value, t', returns_adapt_iff.1 hvalue, hof, rfl⟩
  · rintro ⟨value, t, hvalue, htest, rfl⟩
    refine ⟨value, s', returns_adapt_iff.2 hvalue, t, s', ?_, rfl, rfl⟩
    rw [htest]
    exact returns_pure_iff.2 ⟨rfl, rfl⟩

/-- A leaf is bound with some test. -/
theorem leaf_returns {op : Operator} {property : Path} {operand : Operand}
    {s s' : Session σ} {f : Fragment}
    (h : Returns (c.leaf actor entity op property operand) s f s') :
    ∃ t, f = c.binder.bind t property entity c.naming.root := by
  obtain ⟨_, t, _, _, rfl⟩ := leaf_returns_iff.1 h
  exact ⟨t, rfl⟩

mutual

/-- What holds of the bound paths of an expression, of the fragment that matches
no row and of merges holds of what the expression compiles to. -/
theorem fragment_induction {P : Fragment → Prop} (emptySet : P .emptySet)
    (merge : ∀ f g combination, P f → P g → P (f.merge combination g)) :
    ∀ (e : Expression) {s s' : Session σ} {f : Fragment},
      (∀ path ∈ e.properties, ∀ t,
        P (c.binder.bind t path entity c.naming.root)) →
      Returns (c.fragment actor entity e) s f s' → P f
  | .all parts, s, s', f, hbind, h => by
    simp only [fragment, returns_bind_iff, returns_pure_iff] at h
    obtain ⟨fs, _, hfs, rfl, _⟩ := h
    exact combine_induction emptySet merge
      (fragments_induction emptySet merge parts hbind hfs) .all
  | .any parts, s, s', f, hbind, h => by
    simp only [fragment, returns_bind_iff, returns_pure_iff] at h
    obtain ⟨fs, _, hfs, rfl, _⟩ := h
    exact combine_induction emptySet merge
      (fragments_induction emptySet merge parts hbind hfs) .any
  | .leaf op property operand, s, s', f, hbind, h => by
    rw [fragment] at h
    obtain ⟨t, rfl⟩ := leaf_returns h
    exact hbind property (by simp [Expression.properties]) t
  | .not (.leaf op property operand), s, s', f, hbind, h => by
    rw [fragment] at h
    split at h
    · obtain ⟨t, rfl⟩ := leaf_returns h
      exact hbind property (by simp [Expression.properties]) t
    · exact absurd h not_returns_throw
  | .not (.not part), s, s', f, hbind, h => by
    rw [fragment] at h
    refine fragment_induction emptySet merge part (fun path hpath => ?_) h
    exact hbind path (by simpa [Expression.properties] using hpath)
  | .not (.all _), s, s', f, _, h => by
    rw [fragment] at h
    exact absurd h not_returns_throw
  | .not (.any _), s, s', f, _, h => by
    rw [fragment] at h
    exact absurd h not_returns_throw

theorem fragments_induction {P : Fragment → Prop} (emptySet : P .emptySet)
    (merge : ∀ f g combination, P f → P g → P (f.merge combination g)) :
    ∀ (es : List Expression) {s s' : Session σ} {fs : List Fragment},
      (∀ path ∈ propertiesOf es, ∀ t,
        P (c.binder.bind t path entity c.naming.root)) →
      Returns (c.fragments actor entity es) s fs s' → ∀ f ∈ fs, P f
  | [], s, s', fs, _, h => by
    simp only [fragments, returns_pure_iff] at h
    simp [← h.1]
  | e :: es, s, s', fs, hbind, h => by
    simp only [fragments, returns_bind_iff, returns_pure_iff] at h
    obtain ⟨first, _, hfirst, rest, _, hrest, rfl, _⟩ := h
    rw [propertiesOf, List.forall_mem_append] at hbind
    exact List.forall_mem_cons.2
      ⟨fragment_induction emptySet merge e hbind.1 hfirst,
        fragments_induction emptySet merge es hbind.2 hrest⟩

end

/-- A path is bound to a fragment on the root; without alias overrides no join
uses the root. -/
theorem bind_compiled (hentity : entity ∈ c.evaluator.schema.entities)
    (hnames : plain = true → c.binder.Names) {property : Path}
    (hpath : plain = true → property.Plain) (t : Test) :
    (c.binder.bind t property entity c.naming.root).Compiled plain
      c.naming.root := by
  refine ⟨(Binder.bind_chain hpath entity _).built .empty
    (List.mem_cons_self ..), ?_⟩
  intro hplain
  subst hplain
  exact (Binder.bind_chain hpath entity _).longer (hnames rfl) hentity
    (Nat.le_refl _) (by simp [Fragment.empty])

/-- What an expression compiles to is built on the root; without alias overrides
no join uses the root. -/
theorem fragment_compiled (hentity : entity ∈ c.evaluator.schema.entities)
    (hnames : plain = true → c.binder.Names) (e : Expression) {s s' : Session σ}
    {f : Fragment} (hplain : plain = true → e.Plain)
    (h : Returns (c.fragment actor entity e) s f s') :
    f.Compiled plain c.naming.root :=
  fragment_induction .emptySet
    (fun _ _ combination hf hg => hf.merge hg combination) e
    (fun path hpath => bind_compiled hentity hnames fun hp =>
      hplain hp path hpath) h

theorem fragments_compiled (hentity : entity ∈ c.evaluator.schema.entities)
    (hnames : plain = true → c.binder.Names) (es : List Expression)
    {s s' : Session σ} {fs : List Fragment}
    (hplain : plain = true → ∀ e ∈ es, e.Plain)
    (h : Returns (c.fragments actor entity es) s fs s') :
    ∀ f ∈ fs, f.Compiled plain c.naming.root := by
  refine fragments_induction .emptySet
    (fun _ _ combination hf hg => hf.merge hg combination) es
    (fun path hpath => ?_) h
  obtain ⟨e, he, hpath⟩ := mem_propertiesOf.1 hpath
  exact bind_compiled hentity hnames fun hp => hplain hp e he path hpath

/-! ## Selects -/

theorem require_returns_iff {name : String} {s s' : Session σ} :
    Returns (c.require name) s entity s' ↔
      c.evaluator.schema.entity? name = some entity ∧ s = s' := by
  rw [require, Schema.require]
  cases c.evaluator.schema.entity? name with
  | none => simp
  | some found => simp

/-- The entity of a name is found, and what follows goes on with it. -/
theorem require_bind_returns_iff {α : Type} {name : String}
    {next : Entity → ScopeM σ α} {s s' : Session σ} {a : α}
    (hentity : c.evaluator.schema.entity? name = some entity) :
    Returns (c.require name >>= next) s a s' ↔
      Returns (next entity) s a s' := by
  simp only [returns_bind_iff, require_returns_iff, hentity]
  constructor
  · rintro ⟨_, _, ⟨⟨rfl⟩, rfl⟩, h⟩
    exact h
  · exact fun h => ⟨entity, s, ⟨rfl, rfl⟩, h⟩

/-- An expression compiles to its fragment for the entity of the name. -/
theorem compile_returns_iff {name : String} {e : Expression} {s s' : Session σ}
    {f : Fragment} (hentity : c.evaluator.schema.entity? name = some entity) :
    Returns (c.compile actor name e) s f s' ↔
      Returns (c.fragment actor entity e) s f s' :=
  require_bind_returns_iff hentity

/-- The select of an expression has what the expression compiles to. -/
theorem select_returns_iff {name : String} {e : Expression} {s s' : Session σ}
    {select : Select}
    (hentity : c.evaluator.schema.entity? name = some entity) :
    Returns (c.select actor name e) s select s' ↔
      ∃ f, Returns (c.fragment actor entity e) s f s' ∧
        f.applyTo (c.root entity) = select := by
  rw [Compiler.select, require_bind_returns_iff hentity]
  simp only [returns_bind_iff, returns_pure_iff]
  constructor
  · rintro ⟨f, _, hf, hselect, rfl⟩
    exact ⟨f, hf, hselect⟩
  · rintro ⟨f, hf, hselect⟩
    exact ⟨f, s', hf, hselect, rfl⟩

/-- A fragment on the root admits the rows that it admits in a select. -/
theorem admits_root_iff {f : Fragment} (h : f.Built c.naming.root)
    {db : Database} {row : Row} :
    (f.applyTo (c.root entity)).admits db row = true ↔
      f.Admits db c.naming.root row :=
  Fragment.admits_applyTo_iff (mergeJoins_of_once h.once) rfl

end Compiler

/-! ## An example -/

namespace Blog

/-- A user has a name. -/
def user : Entity :=
  { Entity.new "user" with attributes := [⟨"name", .string, none⟩] }

/-- A post has an author. -/
def post : Entity :=
  { Entity.new "post" with relations := [.parent "author" "user"] }

/-- A comment has a body and may belong to a post. -/
def comment : Entity :=
  { Entity.new "comment" with
    attributes := [⟨"body", .string, none⟩]
    relations := [(Relation.parent "post" "post").nullable] }

def schema : Schema where
  entities := [user, post, comment]
  names_nodup := by decide
  targets_declared := by decide

/-- A compiler without storage and settings. -/
def compiler : Compiler Unit := { evaluator := { schema } }

theorem names : compiler.binder.Names := .of_separator (by decide)

/-- The author of the post of the comment has a name that is compared with a
value. -/
def author (op : Operator) (value : Value) : Expression :=
  .leaf op [.plain "post", .plain "author", .plain "name"] (.literal value)

/-- The body of the comment is compared with a value. -/
def body (op : Operator) (value : Value) : Expression :=
  .leaf op [.plain "body"] (.literal value)

/-- The joins of the post of a comment and of its author. -/
def authorJoins (kind : JoinKind) : List Join :=
  [⟨.left, "post", "post", "root__post", "id", "root", "post_id"⟩,
    ⟨kind, "user", "user", "root__post__author", "id", "root__post",
      "author_id"⟩]

/-- The test of the name of the author. -/
def authorIs (value : Value) : Filter :=
  .comparison "root__post__author" "name" .eq value

/-- A comment on no post. -/
def remark : Row := fun column => if column = "body" then .string "y" else .null

/-- A storage with one comment, which is on no post. -/
def remarks : Database :=
  ⟨.comparator, fun table => if table = "comment" then [remark] else []⟩

end Blog

end RowGuard
