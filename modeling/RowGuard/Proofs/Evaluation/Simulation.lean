import RowGuard.Policy
import RowGuard.Proofs.Evaluation.Script

/-!
# Evaluators that answer alike

All that an evaluation takes from its session are the answers to its requests.
So two evaluators whose answers agree, in sessions that they keep related, agree
on everything they can be asked: on paths and operands, on expressions and on
policies.  `Evaluator.Mimics` is the agreement of the answers, and the lemmas
lift it from one kind of question to the next.
-/

namespace RowGuard

variable {σ τ : Type}

/-- Both evaluators know the same schema and settings, and in related sessions
they give the same answer or error and leave related sessions. -/
structure Evaluator.Mimics (R : Session σ → Session τ → Prop) (ev : Evaluator σ)
    (ev' : Evaluator τ) : Prop where
  schema_eq : ev.schema = ev'.schema
  graph_eq : ev.graph = ev'.graph
  settings_eq : ev.settings = ev'.settings
  answers : ∀ request : Request ev.schema, Simulates R (ev.answer request)
    (ev'.answer request)

variable {R : Session σ → Session τ → Prop} {ev : Evaluator σ}
  {ev' : Evaluator τ}

namespace Evaluator.Mimics

theorem evaluate (h : ev.Mimics R ev') (path : Path) (v : Value) :
    Simulates R (ev.evaluate path v) (ev'.evaluate path v) := by
  rw [evaluate_eq_run, evaluate_eq_run, ← h.schema_eq, ← h.graph_eq]
  exact Script.run_simulates h.answers _

theorem resolve (h : ev.Mimics R ev') (v : Value) (operand : Operand) :
    Simulates R (ev.resolve v operand) (ev'.resolve v operand) := by
  cases operand with
  | literal literal => exact .pure literal
  | setting app environment key =>
    simp only [Evaluator.resolve, ← h.settings_eq]
    cases ev.settings.bind (·.lookup? app environment key) with
    | some setting => exact .pure setting
    | none => exact .throw _
  | path path => exact h.evaluate path v

theorem holdsLeaf (h : ev.Mimics R ev') (subject actor : Value) (op : Operator)
    (property : Path) (operand : Operand) :
    Simulates R (ev.holdsLeaf subject actor op property operand)
      (ev'.holdsLeaf subject actor op property operand) := by
  refine (h.evaluate property subject).bind fun left => ?_
  refine (h.resolve actor operand).bind fun right => ?_
  split
  · exact .pure _
  · exact .throw _

mutual

theorem holds (h : ev.Mimics R ev') (subject actor : Value) : ∀ e : Expression,
    Simulates R (ev.holds subject actor e) (ev'.holds subject actor e)
  | .all parts => by
    unfold Evaluator.holds
    split
    · exact .pure false
    · exact allHold h subject actor parts
  | .any parts => anyHolds h subject actor parts
  | .leaf op property operand => h.holdsLeaf subject actor op property operand
  | .not (.leaf op property operand) => by
    unfold Evaluator.holds
    split
    · exact h.holdsLeaf subject actor _ property operand
    · exact .throw _
  | .not (.not part) => holds h subject actor part
  | .not (.all _) => .throw _
  | .not (.any _) => .throw _

theorem allHold (h : ev.Mimics R ev') (subject actor : Value) :
    ∀ parts : List Expression,
    Simulates R (ev.allHold subject actor parts)
      (ev'.allHold subject actor parts)
  | [] => .pure true
  | part :: parts => by
    refine (holds h subject actor part).bind fun decision => ?_
    split
    · exact allHold h subject actor parts
    · exact .pure false

theorem anyHolds (h : ev.Mimics R ev') (subject actor : Value) :
    ∀ parts : List Expression,
    Simulates R (ev.anyHolds subject actor parts)
      (ev'.anyHolds subject actor parts)
  | [] => .pure false
  | part :: parts => by
    refine (holds h subject actor part).bind fun decision => ?_
    split
    · exact .pure true
    · exact anyHolds h subject actor parts

end

end Evaluator.Mimics

namespace PolicySet

theorem someHolds_simulates (h : ev.Mimics R ev') (subject actor : Value)
    (policies : List Policy) :
    Simulates R (someHolds ev subject actor policies)
      (someHolds ev' subject actor policies) := by
  induction policies with
  | nil => exact .pure false
  | cons p ps ih =>
    refine (h.holds subject actor p.expression).bind fun decision => ?_
    split
    · exact .pure true
    · exact ih

theorem allHold_simulates (h : ev.Mimics R ev') (subject actor : Value)
    (policies : List Policy) :
    Simulates R (allHold ev subject actor policies)
      (allHold ev' subject actor policies) := by
  induction policies with
  | nil => exact .pure true
  | cons p ps ih =>
    refine (h.holds subject actor p.expression).bind fun decision => ?_
    split
    · exact ih
    · exact .pure false

theorem authorize_simulates (h : ev.Mimics R ev') (set : PolicySet)
    (subject : Value) (action : String) (actor : Value) :
    Simulates R (set.authorize ev subject action actor)
      (set.authorize ev' subject action actor) := by
  unfold authorize
  split
  · exact .pure false
  · refine (someHolds_simulates h subject actor _).bind fun permitted => ?_
    split
    · exact allHold_simulates h subject actor _
    · exact .pure false

end PolicySet

end RowGuard
