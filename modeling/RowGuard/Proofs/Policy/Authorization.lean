import RowGuard.Proofs.Evaluation.Reproducible

/-!
# What an authorization decides

A subject is authorized if some permissive policy about its entity and the
action matches it and every restrictive one does (`PolicySet.Permits`).
`PolicySet.authorize` looks at the policies in order and only as far as it has
to, so an error of one policy may or may not be met.  In sessions whose answers
do not change:

* A subject is allowed only if the policies permit it, whatever errors they
  hide.
* If no policy about the entity and the action fails, a subject is allowed
  exactly if the policies permit it.  So their order does not matter, one more
  restrictive policy allows nothing new and one more permissive policy takes
  nothing away.

`PolicySet.someHolds_settles` and `PolicySet.allHold_settles` say what the two
loops come to, by induction on the policies, and `PolicySet.authorize_settles`
puts them together.
-/

namespace RowGuard

variable {σ : Type}

/-- What an expression comes to for a subject in a session. -/
def Evaluator.verdict (ev : Evaluator σ) (s : Session σ) (subject actor : Value)
    (e : Expression) : Except EvalError Bool :=
  (outcome (ev.holds subject actor e) s).1

namespace PolicySet

/-- What the policies decide in a session. -/
def decision (set : PolicySet) (ev : Evaluator σ) (s : Session σ)
    (subject : Value) (action : String) (actor : Value) :
    Except EvalError Bool :=
  (outcome (set.authorize ev subject action actor) s).1

variable {ev : Evaluator σ} {s : Session σ} {subject actor : Value}
  {entity action : String}

/-- Some permissive policy about the entity and the action matches the subject,
and every restrictive one does.  `verdict` is what an expression comes to. -/
structure Permits (set : PolicySet)
    (verdict : Expression → Except EvalError Bool)
    (entity action : String) : Prop where
  permitted : ∃ p ∈ set.policies, p.appliesTo entity action = true ∧
    p.kind = .permissive ∧ verdict p.expression = .ok true
  unrestricted : ∀ p ∈ set.policies, p.appliesTo entity action = true →
    p.kind = .restrictive → verdict p.expression = .ok true

/-- No policy about the entity and the action fails. -/
def Conclusive (set : PolicySet) (verdict : Expression → Except EvalError Bool)
    (entity action : String) : Prop :=
  ∀ p ∈ set.policies, p.appliesTo entity action = true →
    ∃ b, verdict p.expression = .ok b

theorem mem_applicable_iff {set : PolicySet} {kind : PolicyKind} {p : Policy} :
    p ∈ set.applicable kind entity action ↔
      p ∈ set.policies ∧ p.appliesTo entity action = true ∧ p.kind = kind := by
  rw [applicable, List.mem_filter, Bool.and_eq_true, beq_iff_eq,
    and_comm (a := p.kind = kind)]

theorem permits_iff {set : PolicySet}
    {verdict : Expression → Except EvalError Bool} :
    set.Permits verdict entity action ↔
      (∃ p ∈ set.applicable .permissive entity action,
        verdict p.expression = .ok true) ∧
        ∀ p ∈ set.applicable .restrictive entity action,
          verdict p.expression = .ok true := by
  simp only [mem_applicable_iff, and_assoc, and_imp]
  exact ⟨fun h => ⟨h.permitted, h.unrestricted⟩, fun h => ⟨h.1, h.2⟩⟩

/-! ## The two loops -/

/-- A result is right about a condition: it is not positive unless the condition
is true, and where an answer is certain it says whether the condition is
true. -/
structure Decides (certain condition : Prop)
    (r : Except EvalError Bool) : Prop where
  sound : r = .ok true → condition
  complete : certain → ∃ b, r = .ok b ∧ (b = true ↔ condition)

namespace Decides

variable {certain certain' condition condition' : Prop}
  {r : Except EvalError Bool}

theorem of_true (h : condition) : Decides certain condition (.ok true) :=
  ⟨fun _ => h, fun _ => ⟨true, rfl, iff_of_true rfl h⟩⟩

theorem of_false (h : ¬ condition) : Decides certain condition (.ok false) :=
  ⟨nofun, fun _ => ⟨false, rfl, iff_of_false Bool.false_ne_true h⟩⟩

theorem of_error {e : EvalError} (h : ¬ certain) :
    Decides certain condition (.error e) :=
  ⟨nofun, fun hcertain => absurd hcertain h⟩

theorem congr (h : Decides certain condition r) (hcertain : certain' → certain)
    (hcondition : condition ↔ condition') : Decides certain' condition' r := by
  rw [← hcondition]
  exact ⟨h.sound, fun hc => h.complete (hcertain hc)⟩

theorem eq_true (h : Decides certain condition r) (hcertain : certain)
    (hcondition : condition) :
    r = .ok true := by
  obtain ⟨b, rfl, hb⟩ := h.complete hcertain
  rw [hb.2 hcondition]

theorem eq_false (h : Decides certain condition r) (hcertain : certain)
    (hcondition : ¬ condition) : r = .ok false := by
  obtain ⟨b, rfl, hb⟩ := h.complete hcertain
  rw [Bool.eq_false_iff.2 fun htrue => hcondition (hb.1 htrue)]

end Decides

section Loops

variable {I : Session σ → Prop} {verdict : Expression → Except EvalError Bool}

theorem someHolds_settles
    (hverdict : ∀ e, Settles I (ev.holds subject actor e) (verdict e))
    (policies : List Policy) :
    ∃ r, Settles I (someHolds ev subject actor policies) r ∧
      Decides (∀ p ∈ policies, ∃ b, verdict p.expression = .ok b)
        (∃ p ∈ policies, verdict p.expression = .ok true) r := by
  induction policies with
  | nil => exact ⟨.ok false, .pure false, .of_false (by simp)⟩
  | cons p ps ih =>
    obtain ⟨r, hr, hdecides⟩ := ih
    have hp := hverdict p.expression
    -- the rest is looked at if the first policy does not match
    rcases hcase : verdict p.expression with e | ⟨_ | _⟩ <;> rw [hcase] at hp
    · refine ⟨.error e, hp.bind_error _, .of_error fun hall => ?_⟩
      obtain ⟨b, hb⟩ := hall p List.mem_cons_self
      exact nomatch hb.symm.trans hcase
    · refine ⟨r, hp.bind hr,
        hdecides.congr (fun hall => (List.forall_mem_cons.1 hall).2) ?_⟩
      simp [hcase]
    · exact ⟨.ok true, hp.bind (.pure true),
        .of_true ⟨p, List.mem_cons_self, hcase⟩⟩

theorem allHold_settles
    (hverdict : ∀ e, Settles I (ev.holds subject actor e) (verdict e))
    (policies : List Policy) :
    ∃ r, Settles I (allHold ev subject actor policies) r ∧
      Decides (∀ p ∈ policies, ∃ b, verdict p.expression = .ok b)
        (∀ p ∈ policies, verdict p.expression = .ok true) r := by
  induction policies with
  | nil => exact ⟨.ok true, .pure true, .of_true (by simp)⟩
  | cons p ps ih =>
    obtain ⟨r, hr, hdecides⟩ := ih
    have hp := hverdict p.expression
    -- the rest is looked at if the first policy matches
    rcases hcase : verdict p.expression with e | ⟨_ | _⟩ <;> rw [hcase] at hp
    · refine ⟨.error e, hp.bind_error _, .of_error fun hall => ?_⟩
      obtain ⟨b, hb⟩ := hall p List.mem_cons_self
      exact nomatch hb.symm.trans hcase
    · exact ⟨.ok false, hp.bind (.pure false), .of_false (by simp [hcase])⟩
    · refine ⟨r, hp.bind hr,
        hdecides.congr (fun hall => (List.forall_mem_cons.1 hall).2) ?_⟩
      simp [hcase]

/-- An authorization is right about whether the policies permit the subject. -/
theorem authorize_settles
    (hverdict : ∀ e, Settles I (ev.holds subject actor e) (verdict e))
    (hsubject : subject.entity? = some entity) (set : PolicySet)
    (action : String) :
    ∃ r, Settles I (set.authorize ev subject action actor) r ∧
      Decides (set.Conclusive verdict entity action)
        (set.Permits verdict entity action) r := by
  have hconclusive (kind : PolicyKind)
    (h : set.Conclusive verdict entity action) :
      ∀ p ∈ set.applicable kind entity action, ∃ b, verdict p.expression =
        .ok b := fun p hp =>
    have ⟨hmem, happlies, _⟩ := mem_applicable_iff.1 hp
    h p hmem happlies
  obtain ⟨rsome, hsome, hdecides⟩ :=
    someHolds_settles hverdict (set.applicable .permissive entity action)
  obtain ⟨rall, hall, hdecides'⟩ :=
    allHold_settles hverdict (set.applicable .restrictive entity action)
  rw [authorize, hsubject]
  rcases rsome with e | ⟨_ | _⟩
  · refine ⟨.error e, hsome.bind_error _, .of_error fun h => ?_⟩
    obtain ⟨b, hb, -⟩ := hdecides.complete (hconclusive .permissive h)
    cases hb
  -- a refusal of the first loop is certain only where no permissive policy
  -- fails
  · refine ⟨.ok false, hsome.bind (.pure false), nofun,
      fun h => ⟨false, rfl, ?_⟩⟩
    refine iff_of_false Bool.false_ne_true fun hpermits => ?_
    cases hdecides.eq_true (hconclusive .permissive h)
      (permits_iff.1 hpermits).1
  · refine ⟨rall, hsome.bind hall,
      hdecides'.congr (hconclusive .restrictive) ?_⟩
    rw [permits_iff, and_iff_right (hdecides.sound rfl)]

end Loops

/-! ## Other sets of policies -/

section Change

variable {verdict : Expression → Except EvalError Bool} {set set' : PolicySet}
  {p : Policy}

/-- The order of the policies does not matter. -/
theorem permits_of_perm (hperm : set'.policies.Perm set.policies) :
    set'.Permits verdict entity action ↔ set.Permits verdict entity action := by
  simp only [permits_iff, mem_applicable_iff, hperm.mem_iff]

/-- What is permitted is permitted without a restrictive policy. -/
theorem Permits.drop_restrictive (hp : p.kind = .restrictive)
    (hperm : set'.policies.Perm (p :: set.policies))
    (h : set'.Permits verdict entity action) :
    set.Permits verdict entity action := by
  obtain ⟨⟨q, hq, happlies, hkind, htrue⟩, hall⟩ := h
  refine ⟨⟨q, ?_, happlies, hkind, htrue⟩, fun q hq => hall q ?_⟩
  · rcases List.mem_cons.1 (hperm.mem_iff.1 hq) with rfl | hq
    · exact nomatch hp.symm.trans hkind
    · exact hq
  · exact hperm.mem_iff.2 (List.mem_cons_of_mem _ hq)

/-- What is permitted is permitted with one more permissive policy. -/
theorem Permits.add_permissive (hp : p.kind = .permissive)
    (hperm : set'.policies.Perm (p :: set.policies))
    (h : set.Permits verdict entity action) :
    set'.Permits verdict entity action := by
  obtain ⟨⟨q, hq, hmatch⟩, hall⟩ := h
  refine ⟨⟨q, hperm.mem_iff.2 (List.mem_cons_of_mem _ hq), hmatch⟩,
    fun q hq happlies hkind => ?_⟩
  rcases List.mem_cons.1 (hperm.mem_iff.1 hq) with rfl | hq
  · exact nomatch hp.symm.trans hkind
  · exact hall q hq happlies hkind

theorem Conclusive.of_perm (hperm : set'.policies.Perm set.policies)
    (h : set.Conclusive verdict entity action) :
    set'.Conclusive verdict entity action :=
  fun q hq => h q (hperm.mem_iff.1 hq)

end Change

/-- In a session whose answers do not change, a subject is allowed only if the
policies permit it.  If no policy about its entity and the action fails, it is
allowed exactly then; the decision is that of the policies in any other order,
one more restrictive policy does not turn a refusal into a permission, and one
more permissive policy does not turn a permission into a refusal. -/
theorem authorize_decides (hrep : ev.Reproducible s)
    (hsubject : subject.entity? = some entity) (set : PolicySet)
    (action : String) (actor : Value) :
    (set.decision ev s subject action actor = .ok true →
      set.Permits (ev.verdict s subject actor) entity action) ∧
    (set.Conclusive (ev.verdict s subject actor) entity action →
      (∃ b, set.decision ev s subject action actor = .ok b ∧
        (b = true ↔ set.Permits (ev.verdict s subject actor) entity action)) ∧
      (∀ set' : PolicySet, set'.policies.Perm set.policies →
        set'.decision ev s subject action actor =
          set.decision ev s subject action actor) ∧
      ∀ (p : Policy) (set' : PolicySet),
        set'.policies.Perm (p :: set.policies) →
        set'.Conclusive (ev.verdict s subject actor) entity action →
        (p.kind = .restrictive →
          set.decision ev s subject action actor = .ok false →
          set'.decision ev s subject action actor = .ok false) ∧
        (p.kind = .permissive →
          set.decision ev s subject action actor = .ok true →
          set'.decision ev s subject action actor = .ok true)) := by
  obtain ⟨I, hs, hmimics⟩ := hrep.exists_mimics
  have hdecides (set : PolicySet) :
      Decides (set.Conclusive (ev.verdict s subject actor) entity action)
        (set.Permits (ev.verdict s subject actor) entity action)
        (set.decision ev s subject action actor) := by
    obtain ⟨r, hr, hr'⟩ := authorize_settles
      (fun e => (hmimics.holds subject actor e).settles hs) hsubject set action
    rw [decision, hr.outcome_eq hs]
    exact hr'
  refine ⟨(hdecides set).sound,
    fun hset => ⟨(hdecides set).complete hset, ?_, ?_⟩⟩
  · intro set' hperm
    have hset' := hset.of_perm hperm
    by_cases hpermits : set.Permits (ev.verdict s subject actor) entity action
    · rw [(hdecides set).eq_true hset hpermits,
        (hdecides set').eq_true hset' ((permits_of_perm hperm).2 hpermits)]
    · rw [(hdecides set).eq_false hset hpermits,
        (hdecides set').eq_false hset' (mt (permits_of_perm hperm).1 hpermits)]
  · refine fun p set' hperm hset' => ⟨fun hp hfalse => ?_, fun hp htrue => ?_⟩
    · refine (hdecides set').eq_false hset' fun hpermits => ?_
      rw [(hdecides set).eq_true hset (hpermits.drop_restrictive hp hperm)]
        at hfalse
      cases hfalse
    · exact (hdecides set').eq_true hset'
        (((hdecides set).sound htrue).add_permissive hp hperm)

end PolicySet

/-! ## An example -/

namespace Firm

/-- The person 2, whose boss has been loaded. -/
def subordinate : Value := .record (numbered 2)

def about (kind : PolicyKind) (e : Expression) : Policy :=
  ⟨"about", "person", "*", kind, e⟩

/-- Permits those whose boss is the person 1. -/
def direct : Policy :=
  about .permissive (.equals [.plain "boss"] (.record (numbered 1)))

/-- Excludes the person 3. -/
def exceptThird : Policy :=
  about .restrictive (.leaf .neq [] (.literal (.record (numbered 3))))

/-- Permits those whose boss has no boss, which cannot be told. -/
def secondLine : Policy :=
  about .permissive (.equals [.plain "boss", .plain "boss"] .null)

end Firm

open Firm in
/-- The policies are decided without the one that fails if it comes last. -/
theorem PolicySet.authorize_decides_subordinate :
    evaluator.Reproducible remembered ∧ subordinate.entity? = some "person" ∧
      PolicySet.decision ⟨[direct, exceptThird, secondLine]⟩ evaluator
        remembered subordinate "view"
        .null = .ok true ∧
      PolicySet.Permits ⟨[direct, exceptThird, secondLine]⟩
        (evaluator.verdict remembered subordinate .null) "person" "view" ∧
      ¬ PolicySet.Conclusive ⟨[direct, exceptThird, secondLine]⟩
        (evaluator.verdict remembered subordinate .null) "person" "view" ∧
      PolicySet.Conclusive ⟨[direct, exceptThird]⟩
        (evaluator.verdict remembered subordinate .null) "person" "view" ∧
      PolicySet.decision ⟨[exceptThird, direct]⟩ evaluator remembered
        subordinate "view" .null =
        PolicySet.decision ⟨[direct, exceptThird]⟩ evaluator remembered
          subordinate "view"
          .null := by
  have hrep : evaluator.Reproducible remembered :=
    .served rfl rfl registry_answersByKey remembered_holds
  have hdirect : evaluator.verdict remembered subordinate .null
      direct.expression = .ok true :=
    congrArg Prod.fst (returns_of_toOption (by decide +kernel))
  have hexcept :
      evaluator.verdict remembered subordinate .null exceptThird.expression =
        .ok true :=
    congrArg Prod.fst (returns_of_toOption (by decide +kernel))
  have hdecision : PolicySet.decision ⟨[direct, exceptThird, secondLine]⟩
      evaluator remembered subordinate "view" .null = .ok true :=
    congrArg Prod.fst (returns_of_toOption (by decide +kernel))
  have hfails : (evaluator.verdict remembered subordinate .null
      secondLine.expression).toOption = none := by
    decide +kernel
  have hconclusive : PolicySet.Conclusive ⟨[direct, exceptThird]⟩
      (evaluator.verdict remembered subordinate .null) "person" "view" := by
    simp [PolicySet.Conclusive, hdirect, hexcept]
  obtain ⟨hsound, -⟩ := PolicySet.authorize_decides hrep
    (rfl : subordinate.entity? = some "person")
    ⟨[direct, exceptThird, secondLine]⟩ "view" .null
  obtain ⟨-, hall⟩ := PolicySet.authorize_decides hrep
    (rfl : subordinate.entity? = some "person") ⟨[direct, exceptThird]⟩
    "view" .null
  refine ⟨hrep, rfl, hdecision, hsound hdecision, fun h => ?_, hconclusive,
    (hall hconclusive).2.1 ⟨[exceptThird, direct]⟩ (List.Perm.swap ..)⟩
  obtain ⟨b, hb⟩ := h secondLine (by simp) (by decide)
  rw [hb] at hfails
  cases hfails

end RowGuard
