import RowGuard.Proofs.Query.Together
import RowGuard.Proofs.Scope.Union

/-!
# What an `all` of conditions admits

The parts of an `all` share their joins.  A join of children binds one child for
all parts, and so two parts that ask for children with different properties ask
for one child with both.  `Compiler.select_all_admits_iff` says which rows an
`all` admits, and `Compiler.select_all_complete_iff` when these are all that its
parts admit alone.  By `Compiler.select_all_complete` it is so where the joins
that two parts share find one row at most, as the joins of parents do over a
table without repeated identities.
-/

namespace RowGuard

namespace Compiler

variable {σ : Type} {c : Compiler σ} {actor : Value} {entity : Entity}
  {name : String} {parts : List Expression} {fs : List Fragment}
  {s s' : Session σ}

theorem select_all_returns
    (hentity : c.evaluator.schema.entity? name = some entity)
    (h : Returns (c.fragments actor entity parts) s fs s') :
    Returns (c.select actor name (.all parts)) s
      ((combine .all fs).applyTo (c.root entity)) s' := by
  refine (select_returns_iff hentity).2 ⟨combine .all fs, ?_, rfl⟩
  simp only [fragment, returns_bind_iff, returns_pure_iff]
  exact ⟨fs, s', h, rfl, rfl⟩

/-- An `all` admits the rows that its parts admit together. -/
theorem select_all_admits_iff
    (hentity : c.evaluator.schema.entity? name = some entity)
    (hnames : c.binder.Names) (hne : parts ≠ [])
    (hplain : ∀ part ∈ parts, part.Plain)
    (hparts : Returns (c.fragments actor entity parts) s fs s')
    (hunambiguous : Unambiguous (fs.flatMap Fragment.joins)) (db : Database) :
    ∃ select, Returns (c.select actor name (.all parts)) s select s' ∧
      ∀ row, select.admits db row = true ↔
        AdmitTogether db c.naming.root fs row := by
  refine ⟨_, select_all_returns hentity hparts, fun row => ?_⟩
  have hmergeable :=
    fragments_mergeable hentity hnames hplain hparts hunambiguous
  obtain ⟨d, hcombined, hd⟩ := combineFragments_all db
    (fragments_ne_nil hne hparts) hmergeable.built
  rw [combine, hcombined, Option.getD_some, admits_root_iff hd.built,
    hd.admits_iff_together hmergeable]

/-- An `all` admits what its parts admit alone, if the joins that two of them
share find one row at most. -/
theorem select_all_complete
    (hentity : c.evaluator.schema.entity? name = some entity)
    (hnames : c.binder.Names) (hne : parts ≠ [])
    (hplain : ∀ part ∈ parts, part.Plain)
    (hparts : Returns (c.fragments actor entity parts) s fs s')
    (hunambiguous : Unambiguous (fs.flatMap Fragment.joins)) {db : Database}
    (hsingle : ∀ f ∈ fs, ∀ g ∈ fs, f ≠ g → ∀ j ∈ f.joins,
      j.aliasName ∈ g.joins.map Join.aliasName →
        ∀ a, (j.found db a).length ≤ 1) :
    ∃ select, Returns (c.select actor name (.all parts)) s select s' ∧
      ∀ row, (∀ f ∈ fs, (f.applyTo (c.root entity)).admits db row = true) →
        select.admits db row = true := by
  obtain ⟨select, hselect, hadmits⟩ :=
    select_all_admits_iff hentity hnames hne hplain hparts hunambiguous db
  have hmergeable :=
    fragments_mergeable hentity hnames hplain hparts hunambiguous
  refine ⟨select, hselect, fun row h => (hadmits row).2 ?_⟩
  exact admitTogether_of_single hmergeable hsingle fun f hf =>
    (admits_root_iff (hmergeable.built f hf)).1 (h f hf)

/-- An `all` admits every row that each of its parts admits alone, exactly if
the parts admit each such row together: by assignments with the same row under
the aliases that two parts have in common. -/
theorem select_all_complete_iff
    (hentity : c.evaluator.schema.entity? name = some entity)
    (hnames : c.binder.Names) (hne : parts ≠ [])
    (hplain : ∀ part ∈ parts, part.Plain)
    (hparts : Returns (c.fragments actor entity parts) s fs s')
    (hunambiguous : Unambiguous (fs.flatMap Fragment.joins)) (db : Database) :
    ∃ select, Returns (c.select actor name (.all parts)) s select s' ∧
      ((∀ row ∈ db.rows entity.tableName,
          (∀ f ∈ fs, (f.applyTo (c.root entity)).admits db row = true) →
            select.admits db row = true) ↔
        ∀ row ∈ db.rows entity.tableName,
          (∀ f ∈ fs, (f.applyTo (c.root entity)).admits db row = true) →
            AdmitTogether db c.naming.root fs row) := by
  obtain ⟨select, hselect, hadmits⟩ :=
    select_all_admits_iff hentity hnames hne hplain hparts hunambiguous db
  exact ⟨select, hselect, by simp only [hadmits]⟩

end Compiler

/-! ## Two replies to one topic -/

namespace Board

/-- A reply has a body and belongs to a topic. -/
def reply : Entity :=
  { Entity.new "reply" with
    attributes := [⟨"body", .string, none⟩]
    relations := [.parent "topic" "topic"] }

/-- A topic has replies. -/
def topic : Entity :=
  { Entity.new "topic" with relations := [.children "replies" "reply" "topic"] }

def schema : Schema where
  entities := [topic, reply]
  names_nodup := by decide
  targets_declared := by decide

/-- A compiler without storage and settings. -/
def compiler : Compiler Unit := { evaluator := { schema } }

theorem names : compiler.binder.Names := .of_separator (by decide)

/-- The topics with a reply that has a body. -/
def answered (body : String) : Expression :=
  .leaf .eq [.plain "replies", .plain "body"] (.literal (.string body))

def answeredFragment (body : String) : Fragment where
  joins :=
    [⟨.left, "reply", "reply", "root__replies", "topic_id", "root", "id"⟩]
  filters := [.comparison "root__replies" "body" .eq (.string body)]

/-- The topics with a reply `x` and a reply `y`. -/
def answeredTwice : List Expression := [answered "x", answered "y"]

def answeredTwiceFragments : List Fragment :=
  [answeredFragment "x", answeredFragment "y"]

theorem answeredTwice_returns :
    Returns (compiler.fragments .null topic answeredTwice)
      (.start ()) answeredTwiceFragments (.start ()) := rfl

theorem answeredTwice_plain : ∀ part ∈ answeredTwice, part.Plain := by
  simp [answeredTwice, answered, Expression.Plain, Expression.properties,
    Path.Plain, Step.plain, Step.alias?]

theorem answeredTwice_unambiguous :
    Unambiguous (answeredTwiceFragments.flatMap Fragment.joins) := by
  simp [answeredTwiceFragments, answeredFragment, Unambiguous, Join.sameBinding]

/-- The topic 1. -/
def thread : Row := fun column => if column = "id" then .int64 1 else .null

/-- A reply to the topic 1. -/
def replyTo (body : String) : Row := fun column =>
  if column = "topic_id" then .int64 1 else if column = "body" then .string body
    else .null

/-- A storage with one topic and two replies to it. -/
def threads : Database :=
  ⟨.comparator, fun table =>
    if table = "topic" then [thread]
    else if table = "reply" then [replyTo "x", replyTo "y"]
    else []⟩

end Board

open Board in
/-- Each part alone admits the topic, since it has a reply `x` and a reply `y`.
The two together do not, since no reply is both. -/
theorem Compiler.select_all_loses_thread :
    ∃ select, Returns (compiler.select .null "topic" (.all answeredTwice))
      (.start ()) select
        (.start ()) ∧
      thread ∈ threads.rows topic.tableName ∧
      select.admits threads thread = false ∧ ∀ f ∈ answeredTwiceFragments,
        (f.applyTo (compiler.root topic)).admits threads thread = true := by
  refine ⟨_, select_all_returns rfl answeredTwice_returns, ?_, ?_, ?_⟩
  · exact List.mem_singleton_self _
  · decide +kernel
  · decide +kernel

open Board in
theorem Compiler.select_all_complete_iff_answeredTwice :
    compiler.evaluator.schema.entity? "topic" = some topic ∧
      compiler.binder.Names ∧
      answeredTwice ≠ [] ∧ (∀ part ∈ answeredTwice, part.Plain) ∧
      Returns (compiler.fragments .null topic answeredTwice)
        (.start ()) answeredTwiceFragments (.start ()) ∧
      Unambiguous (answeredTwiceFragments.flatMap Fragment.joins) ∧
      ∃ select, Returns (compiler.select .null "topic" (.all answeredTwice))
        (.start ()) select
          (.start ()) ∧
        ((∀ row ∈ threads.rows topic.tableName,
            (∀ f ∈ answeredTwiceFragments,
              (f.applyTo (compiler.root topic)).admits threads row = true) →
              select.admits threads row = true) ↔
          ∀ row ∈ threads.rows topic.tableName,
            (∀ f ∈ answeredTwiceFragments,
              (f.applyTo (compiler.root topic)).admits threads row = true) →
              AdmitTogether threads compiler.naming.root
                answeredTwiceFragments row) :=
  ⟨rfl, names, List.cons_ne_nil _ _, answeredTwice_plain, answeredTwice_returns,
    answeredTwice_unambiguous,
    Compiler.select_all_complete_iff rfl names (List.cons_ne_nil _ _)
      answeredTwice_plain
      answeredTwice_returns answeredTwice_unambiguous threads⟩

end RowGuard
