import Mathlib.Data.List.Forall2
import RowGuard.Proofs.Query.Lexing
import RowGuard.Proofs.Query.Rows

/-!
# The condition that a text stands for

The condition of a statement is written without regard to precedence:
parentheses stand around groups of two or more parts and nowhere else.  This
module reads the text again, with the precedence of SQL, and compares.

* `Condition` are conditions built from atoms, and `readCondition` reads one
  from a text: AND binds tighter than OR, parentheses group, and what stands
  between the connectives is an atom with all its tokens.
* `Filter.truthOf` is the truth of a filter for given truths of its atoms.
  `Filter.truthOf_truth` says that the truth on the rows of a database is a case
  of it.
* `Reader.Steady` are the tokens that an atom takes.  `Sql.Phrase.kept` says
  that all that stands in parentheses of an atom, a subquery as well, stays in
  the atom.
* `ReadsAs` says of tokens that they are read as one part of a condition.
  `reads_group` is the step for groups, and `Filter.reads` the induction over
  the filter.
* `Select.where_reads` is the result: the text is read as a condition with the
  atoms of the filter, in their order, and with its truth.
-/

namespace RowGuard

/-! ## Conditions -/

/-- A condition on atoms. -/
inductive Condition (α : Type) where
  | constant (b : Bool)
  | atom (a : α)
  | and (c d : Condition α)
  | or (c d : Condition α)
deriving DecidableEq, Repr

namespace Condition

variable {α β : Type}

/-- The truth of a condition for given truths of its atoms. -/
def truth (assignment : α → Truth) : Condition α → Truth
  | constant b => .ofBool b
  | atom a => assignment a
  | and c d => (c.truth assignment).and (d.truth assignment)
  | or c d => (c.truth assignment).or (d.truth assignment)

/-- The condition with other atoms. -/
def map (f : α → β) : Condition α → Condition β
  | constant b => constant b
  | atom a => atom (f a)
  | and c d => and (c.map f) (d.map f)
  | or c d => or (c.map f) (d.map f)

/-- The atoms of a condition, from left to right. -/
def atoms : Condition α → List α
  | constant _ => []
  | atom a => [a]
  | and c d => c.atoms ++ d.atoms
  | or c d => c.atoms ++ d.atoms

/-- Combines two conditions. -/
def combine : Combination → Condition α → Condition α → Condition α
  | .all => and
  | .any => or

/-- Combines several conditions; without any the condition is constant. -/
def combineAll (combination : Combination) : List (Condition α) → Condition α
  | [] => constant (combination == .all)
  | c :: cs => cs.foldl (combine combination) c

end Condition

/-! ## Reading conditions -/

/-- What a token is for the structure of conditions. -/
inductive TokenKind where
  | opening
  | closing
  | connective (combination : Combination)
  /-- Part of an atom. -/
  | other
deriving DecidableEq, Repr

/-- The kind of a token.  A name is part of an atom, whatever its characters. -/
def SqlToken.kind : SqlToken → TokenKind
  | .name _ => .other
  | .word text =>
    if text = "AND" then .connective .all
      else if text = "OR" then .connective .any else .other
  | .symbol c =>
    if c = '(' then .opening else if c = ')' then .closing else .other

/-- A condition on atoms as they are written. -/
abbrev ReadCondition := Condition (List SqlToken)

/-- The condition of tokens between connectives: one of the two constants, or an
atom. -/
def Condition.ofTokens (tokens : List SqlToken) : ReadCondition :=
  if tokens = [.word "1", .symbol '=', .word "0"] then .constant false
  else if tokens = [.word "1", .symbol '=', .word "1"] then .constant true
  else .atom tokens

/-- What has been read on one level of parentheses: the disjunction and, within
it, the conjunction to which the next part belongs. -/
structure ReadLevel where
  disjunction : Option ReadCondition := none
  conjunction : Option ReadCondition := none
deriving DecidableEq, Repr

namespace ReadLevel

/-- The conjunction with one more part. -/
def conjoin (level : ReadLevel) (c : ReadCondition) : ReadCondition :=
  level.conjunction.elim c (.and · c)

/-- All of the level with one more part. -/
def close (level : ReadLevel) (c : ReadCondition) : ReadCondition :=
  level.disjunction.elim (level.conjoin c) (.or · (level.conjoin c))

/-- The level after one more part and a connective.  AND binds tighter than
OR. -/
def after (level : ReadLevel) (c : ReadCondition) : Combination → ReadLevel
  | .all => { level with conjunction := some (level.conjoin c) }
  | .any => { disjunction := some (level.close c) }

end ReadLevel

/-- What a reader of a condition is in the middle of. -/
inductive ReadMode where
  /-- A part of the condition has to come. -/
  | ready
  /-- In an atom, with a number of open parentheses of its own. -/
  | within (tokens : List SqlToken) (depth : Nat)
  /-- After a group in parentheses. -/
  | grouped (c : ReadCondition)
deriving DecidableEq, Repr

/-- The part that ends here, if one can. -/
def ReadMode.condition? : ReadMode → Option ReadCondition
  | .within tokens 0 => some (.ofTokens tokens)
  | .grouped c => some c
  | .ready | .within _ (_ + 1) => none

/-- A reader of a condition, with the levels of the parentheses around it. -/
structure Reader where
  outer : List ReadLevel := []
  level : ReadLevel := {}
  mode : ReadMode := .ready
deriving DecidableEq, Repr

namespace Reader

/-- Goes on in an atom. -/
def inAtom (r : Reader) (tokens : List SqlToken) (depth : Nat) : Reader :=
  { r with mode := .within tokens depth }

/-- Reads a token. -/
def step (r : Reader) (token : SqlToken) : Option Reader :=
  match token.kind, r.mode with
  | .opening, .ready => some { outer := r.level :: r.outer }
  | .opening, .within tokens depth =>
    some (r.inAtom (tokens ++ [token]) (depth + 1))
  | .opening, .grouped _ => none
  | .other, .ready => some (r.inAtom [token] 0)
  | .other, .within tokens depth => some (r.inAtom (tokens ++ [token]) depth)
  | .other, .grouped _ => none
  | .closing, .within tokens (depth + 1) =>
    some (r.inAtom (tokens ++ [token]) depth)
  | .closing, mode =>
    match r.outer, mode.condition? with
    | level :: outer, some c => some ⟨outer, level, .grouped (r.level.close c)⟩
    | _, _ => none
  | .connective _, .within tokens (depth + 1) =>
    some (r.inAtom (tokens ++ [token]) (depth + 1))
  | .connective combination, mode =>
    mode.condition?.map fun c =>
      { r with level := r.level.after c combination, mode := .ready }

/-- Reads several tokens. -/
def run (r : Reader) : List SqlToken → Option Reader
  | [] => some r
  | token :: tokens => (r.step token).bind fun r => r.run tokens

/-- The condition that ends here, outside of all parentheses. -/
def condition? (r : Reader) : Option ReadCondition :=
  if r.outer.isEmpty then r.mode.condition?.map r.level.close else none

end Reader

/-- Reads a condition from a text. -/
def readCondition (text : String) : Option ReadCondition :=
  ((lex text).bind (Reader.run {})).bind Reader.condition?

example : readCondition "\"a\" OR \"b\" AND (\"c\" OR \"d\") AND \"e\"" =
    some (.or (.atom [.name "a"]) (.and (.and (.atom [.name "b"])
      (.or (.atom [.name "c"]) (.atom [.name "d"]))) (.atom [.name "e"]))) := by
  decide +kernel

/-! ## Tokens of an atom -/

namespace Reader

variable {r : Reader} {tokens more : List SqlToken} {token : SqlToken}

theorem run_append (r : Reader) (tokens more : List SqlToken) :
    r.run (tokens ++ more) = (r.run tokens).bind fun r => r.run more := by
  induction tokens generalizing r with
  | nil => rfl
  | cons token tokens ih =>
    simp only [List.cons_append, run, ih, Option.bind_assoc]

/-- An atom takes the tokens, whatever has been read of it and however many of
its parentheses are open. -/
def Steady (tokens : List SqlToken) : Prop :=
  ∀ (r : Reader) before depth,
    (r.inAtom before depth).run tokens =
      some (r.inAtom (before ++ tokens) depth)

/-- Inside of a parenthesis of its own, an atom takes the tokens. -/
def Kept (tokens : List SqlToken) : Prop :=
  ∀ (r : Reader) before depth,
    (r.inAtom before (depth + 1)).run tokens =
      some (r.inAtom (before ++ tokens) (depth + 1))

theorem Steady.nil : Steady [] :=
  fun r before depth => by rw [run, List.append_nil]

theorem Steady.append (h : Steady tokens) (h' : Steady more) :
    Steady (tokens ++ more) := by
  intro r before depth
  rw [run_append, h, Option.bind_some, h', List.append_assoc]

theorem Kept.nil : Kept [] := fun r before depth => by rw [run, List.append_nil]

theorem Kept.append (h : Kept tokens) (h' : Kept more) :
    Kept (tokens ++ more) := by
  intro r before depth
  rw [run_append, h, Option.bind_some, h', List.append_assoc]

theorem Steady.kept (h : Steady tokens) : Kept tokens :=
  fun r before depth => h r before (depth + 1)

theorem Steady.of_other (h : ∀ token ∈ tokens, token.kind = .other) :
    Steady tokens := by
  induction tokens with
  | nil => exact .nil
  | cons token tokens ih =>
    rw [List.forall_mem_cons] at h
    intro r before depth
    have hstep : (r.inAtom before depth).step token =
        some (r.inAtom (before ++ [token]) depth) := by
      simp only [step, h.1, inAtom]
    rw [run, hstep, Option.bind_some, ih h.2, List.append_assoc,
      List.singleton_append]

theorem Kept.of_connective (combination : Combination)
    (h : token.kind = .connective combination) :
    Kept [token] := by
  intro r before depth
  simp [run, step, h, inAtom]

/-- Parentheses belong to the atom that they follow, with all that is kept in
them. -/
theorem Steady.parenthesized (h : Kept tokens) :
    Steady (.symbol '(' :: tokens ++ [.symbol ')']) := by
  intro r before depth
  have hopening : (SqlToken.symbol '(').kind = .opening := rfl
  have hclosing : (SqlToken.symbol ')').kind = .closing := rfl
  have hopen : (r.inAtom before depth).step (.symbol '(') =
      some (r.inAtom (before ++ [.symbol '(']) (depth + 1)) := by
    simp only [step, hopening, inAtom]
  have hclose : ∀ before, (r.inAtom before (depth + 1)).step (.symbol ')') =
      some (r.inAtom (before ++ [.symbol ')']) depth) := by
    intro before
    simp only [step, hclosing, inAtom]
  rw [List.cons_append, run, hopen, Option.bind_some, run_append, h,
    Option.bind_some, run, hclose, Option.bind_some, run]
  simp

end Reader

open Reader

/-- A plain token is no parenthesis. -/
theorem SqlToken.kept_of_isPlain {token : SqlToken} (h : token.isPlain = true) :
    Kept [token] := by
  have hother : token.kind = .other → Kept [token] := fun hkind =>
    (Steady.of_other (by simpa using hkind)).kept
  cases token with
  | name ident => cases h
  | word text =>
    by_cases hand : text = "AND"
    · exact .of_connective .all (by simp [kind, hand])
    · by_cases hor : text = "OR"
      · exact .of_connective .any (by simp [kind, hor])
      · exact hother (by simp [kind, hand, hor])
  | symbol c =>
    simp only [isPlain, Bool.and_eq_true, bne_iff_ne] at h
    exact hother (by simp [kind, h])

theorem kept_of_isPlain {tokens : List SqlToken}
    (h : tokens.all SqlToken.isPlain = true) :
    Kept tokens := by
  induction tokens with
  | nil => exact .nil
  | cons token tokens ih =>
    rw [List.all_cons, Bool.and_eq_true] at h
    exact (SqlToken.kept_of_isPlain h.1).append (ih h.2)

namespace Sql

theorem tokens_of_isPlainWord {w : String} (h : isPlainWord w = true) :
    (SqlPiece.word w).tokens.all SqlToken.isPlain = true := by
  obtain ⟨tokens, hlex, hplain⟩ := (Option.any_eq_true _ _).1 h
  rwa [SqlPiece.tokens, hlex]

/-- A word that opens a parenthesis has plain tokens before it. -/
theorem tokens_of_opensGroup {w : String} (h : opensGroup w = true) :
    ∃ before, (SqlPiece.word w).tokens = before ++ [.symbol '('] ∧
      before.all SqlToken.isPlain = true := by
  rw [opensGroup, Bool.and_eq_true] at h
  obtain ⟨tokens, hlex, hopens⟩ := (Option.any_eq_true _ _).1 h.2
  rw [Bool.and_eq_true, beq_iff_eq] at hopens
  obtain ⟨before, rfl⟩ := List.getLast?_eq_some_iff.1 hopens.1
  rw [List.dropLast_concat] at hopens
  exact ⟨before, by rw [SqlPiece.tokens, hlex, Option.getD_some], hopens.2⟩

theorem tokens_closing : SqlPiece.tokens (.word ")") = [.symbol ')'] := by
  decide +kernel

/-- The tokens of what stands in parentheses, with those of the words before
it. -/
theorem tokens_enclosed {w : String} {before : List SqlToken}
    (h : (SqlPiece.word w).tokens = before ++ [.symbol '(']) (sql : Sql) :
    tokens (.word w :: sql ++ [.word ")"]) =
      before ++ (.symbol '(' :: sql.tokens ++ [.symbol ')']) := by
  rw [tokens_append, tokens_cons, tokens_cons, h, tokens_closing]
  simp [tokens]

/-- What stands in parentheses of an atom stays in the atom. -/
theorem Phrase.kept {sql : Sql} (h : Phrase sql) : Kept sql.tokens := by
  induction h with
  | nil => exact .nil
  | name ident =>
    exact (Steady.of_other
      (by simp [SqlToken.kind, tokens, SqlPiece.tokens])).kept
  | parameter value =>
    exact (Steady.of_other
      (by simp [SqlToken.kind, tokens, SqlPiece.tokens])).kept
  | word hplain =>
    rw [tokens_cons]
    exact (kept_of_isPlain (tokens_of_isPlainWord hplain)).append .nil
  | opened hplain _ _ ih =>
    rw [tokens_cons]
    exact (kept_of_isPlain (tokens_of_isPlainWord hplain)).append ih
  | @enclosed w sql hopens _ ih =>
    obtain ⟨before, htokens, hplain⟩ := tokens_of_opensGroup hopens
    rw [tokens_enclosed htokens]
    exact (kept_of_isPlain hplain).append (Steady.parenthesized ih).kept
  | append _ _ _ iha ihb =>
    rw [tokens_append]
    exact iha.append ihb

/-- Words and a phrase in parentheses go on with the atom before them. -/
theorem Phrase.steady_enclosed {w : String} {sql : Sql} {before : List SqlToken}
    (h : Phrase sql) (hw : (SqlPiece.word w).tokens = before ++ [.symbol '('])
    (hbefore : ∀ token ∈ before, token.kind = .other) :
    Steady (tokens (.word w :: sql ++ [.word ")"])) := by
  rw [tokens_enclosed hw]
  exact (Steady.of_other hbefore).append (.parenthesized h.kept)

/-- A membership test goes on with its column. -/
theorem Phrase.steady_membership {sql : Sql} (h : Phrase sql)
    (negative : Bool) :
    Steady
      (tokens (.word (if negative then " NOT IN (" else " IN (") :: sql ++
        [.word ")"])) := by
  have hword : SqlPiece.tokens
      (.word (if negative then " NOT IN (" else " IN (")) =
      (if negative then [.word "NOT", .word "IN"] else [.word "IN"]) ++
        [.symbol '('] := by
    cases negative <;> decide +kernel
  refine h.steady_enclosed hword ?_
  cases negative <;> decide +kernel

end Sql

/-! ## The condition of a filter -/

/-- The constant truth of a comparison that does not depend on the column: an
ordering against a list, and membership in no list.  These are the comparisons
that are written as a constant (`comparisonSql_of_constant`,
`comparisonSql_of_ne_constant`). -/
def Operator.constant? (op : Operator) : Value → Option Bool
  | .list items =>
    if op.isOrdering then some false
      else if items.isEmpty then some op.isNegative else none
  | _ => none

mutual

/-- The atoms of a filter, in order. -/
def Filter.atoms : Filter → List Filter
  | .comparison aliasName column op value =>
    if (op.constant? value).isSome then []
      else [.comparison aliasName column op value]
  | .emptySet => []
  | .and parts => atomsOf parts
  | .or parts => atomsOf parts
  | .inSubquery aliasName column query => [.inSubquery aliasName column query]

/-- The atoms of several filters. -/
def atomsOf : List Filter → List Filter
  | [] => []
  | part :: parts => part.atoms ++ atomsOf parts

end

mutual

/-- The truth of a filter for given truths of its atoms. -/
def Filter.truthOf (assignment : Filter → Truth) : Filter → Truth
  | .comparison aliasName column op value =>
    match op.constant? value with
    | some b => .ofBool b
    | none => assignment (.comparison aliasName column op value)
  | .emptySet => .no
  | .and parts => .all (truthsOf assignment parts)
  | .or parts => .any (truthsOf assignment parts)
  | .inSubquery aliasName column query =>
    assignment (.inSubquery aliasName column query)

/-- The truths of several filters. -/
def truthsOf (assignment : Filter → Truth) : List Filter → List Truth
  | [] => []
  | part :: parts => part.truthOf assignment :: truthsOf assignment parts

end

mutual

/-- A filter as a condition on its atoms. -/
def Filter.condition : Filter → Condition Filter
  | .comparison aliasName column op value =>
    match op.constant? value with
    | some b => .constant b
    | none => .atom (.comparison aliasName column op value)
  | .emptySet => .constant false
  | .and parts => .combineAll .all (conditionsOf parts)
  | .or parts => .combineAll .any (conditionsOf parts)
  | .inSubquery aliasName column query =>
    .atom (.inSubquery aliasName column query)

/-- Several filters as conditions. -/
def conditionsOf : List Filter → List (Condition Filter)
  | [] => []
  | part :: parts => part.condition :: conditionsOf parts

end

namespace Truth

theorem and_assoc (s t u : Truth) : (s.and t).and u = s.and (t.and u) := by
  cases s <;> cases t <;> cases u <;> rfl

theorem or_assoc (s t u : Truth) : (s.or t).or u = s.or (t.or u) := by
  cases s <;> cases t <;> cases u <;> rfl

theorem and_yes (s : Truth) : s.and .yes = s := by cases s <;> rfl

theorem or_no (s : Truth) : s.or .no = s := by cases s <;> rfl

end Truth

namespace Condition

variable {α β : Type} {assignment : α → Truth}

theorem truth_foldl_and (c : Condition α) (cs : List (Condition α)) :
    (cs.foldl (combine .all) c).truth assignment =
      (c.truth assignment).and (.all (cs.map (truth assignment))) := by
  induction cs generalizing c with
  | nil => exact (Truth.and_yes _).symm
  | cons d cs ih => exact (ih _).trans (Truth.and_assoc _ _ _)

theorem truth_foldl_or (c : Condition α) (cs : List (Condition α)) :
    (cs.foldl (combine .any) c).truth assignment =
      (c.truth assignment).or (.any (cs.map (truth assignment))) := by
  induction cs generalizing c with
  | nil => exact (Truth.or_no _).symm
  | cons d cs ih => exact (ih _).trans (Truth.or_assoc _ _ _)

/-- All combined conditions have to be true. -/
theorem truth_combineAll_all (cs : List (Condition α)) :
    (combineAll .all cs).truth assignment =
      .all (cs.map (truth assignment)) := by
  cases cs with
  | nil => rfl
  | cons c cs => exact truth_foldl_and c cs

/-- One of the combined conditions has to be true. -/
theorem truth_combineAll_any (cs : List (Condition α)) :
    (combineAll .any cs).truth assignment =
      .any (cs.map (truth assignment)) := by
  cases cs with
  | nil => rfl
  | cons c cs => exact truth_foldl_or c cs

theorem atoms_combine (combination : Combination) (c d : Condition α) :
    (combine combination c d).atoms = c.atoms ++ d.atoms := by
  cases combination <;> rfl

theorem atoms_combineAll (combination : Combination) (cs : List (Condition α)) :
    (combineAll combination cs).atoms = cs.flatMap atoms := by
  have hfold : ∀ c, (cs.tail.foldl (combine combination) c).atoms =
      c.atoms ++ cs.tail.flatMap atoms := by
    induction cs.tail with
    | nil => exact fun c => (List.append_nil _).symm
    | cons d cs ih =>
      intro c
      rw [List.foldl_cons, ih, atoms_combine, List.flatMap_cons,
        List.append_assoc]
  cases cs with
  | nil => rfl
  | cons c cs => exact hfold c

theorem map_combineAll (f : α → β) (combination : Combination)
    (cs : List (Condition α)) :
    (combineAll combination cs).map f =
      combineAll combination (cs.map (map f)) := by
  have hcombine : ∀ c d : Condition α, (combine combination c d).map f =
      combine combination (c.map f) (d.map f) := by
    intro c d
    cases combination <;> rfl
  have hfold : ∀ c, (cs.tail.foldl (combine combination) c).map f =
      (cs.tail.map (map f)).foldl (combine combination) (c.map f) := by
    induction cs.tail with
    | nil => exact fun c => rfl
    | cons d cs ih =>
      intro c
      rw [List.foldl_cons, ih, hcombine, List.map_cons, List.foldl_cons]
  cases cs with
  | nil => rfl
  | cons c cs => exact hfold c

end Condition

mutual

/-- The condition has the truth of the filter. -/
theorem Filter.truth_condition (assignment : Filter → Truth) : ∀ f : Filter,
    f.condition.truth assignment = f.truthOf assignment
  | .comparison aliasName column op value => by
    rw [Filter.condition, Filter.truthOf]
    split <;> rfl
  | .emptySet => by
    rw [Filter.condition, Filter.truthOf]
    rfl
  | .and parts => by
    rw [Filter.condition, Filter.truthOf, Condition.truth_combineAll_all,
      truths_conditions assignment parts]
  | .or parts => by
    rw [Filter.condition, Filter.truthOf, Condition.truth_combineAll_any,
      truths_conditions assignment parts]
  | .inSubquery aliasName column query => by
    rw [Filter.condition, Filter.truthOf]
    rfl

theorem truths_conditions (assignment : Filter → Truth) : ∀ parts : List Filter,
    (conditionsOf parts).map (Condition.truth assignment) =
      truthsOf assignment parts
  | [] => rfl
  | part :: parts => by
    rw [conditionsOf, truthsOf, List.map_cons, part.truth_condition,
      truths_conditions]

end

mutual

/-- The condition has the atoms of the filter. -/
theorem Filter.atoms_condition : ∀ f : Filter, f.condition.atoms = f.atoms
  | .comparison aliasName column op value => by
    rw [Filter.condition, Filter.atoms]
    cases op.constant? value <;> rfl
  | .emptySet => by
    rw [Filter.condition, Filter.atoms]
    rfl
  | .and parts => by
    rw [Filter.condition, Filter.atoms, Condition.atoms_combineAll,
      atoms_conditions parts]
  | .or parts => by
    rw [Filter.condition, Filter.atoms, Condition.atoms_combineAll,
      atoms_conditions parts]
  | .inSubquery aliasName column query => by
    rw [Filter.condition, Filter.atoms]
    rfl

theorem atoms_conditions : ∀ parts : List Filter,
    (conditionsOf parts).flatMap Condition.atoms = atomsOf parts
  | [] => rfl
  | part :: parts => by
    rw [conditionsOf, atomsOf, List.flatMap_cons, part.atoms_condition,
      atoms_conditions]

end

/-- A comparison that is constant has the same truth for every column. -/
theorem Engine.compare_of_constant {op : Operator} {value : Value} {b : Bool}
    (h : op.constant? value = some b) (e : Engine) (x : Value) :
    e.compare op x value = .ofBool b := by
  cases value with
  | list items =>
    rw [Operator.constant?] at h
    rw [compare]
    split at h
    · next hordering =>
      obtain rfl := Option.some.inj h
      rw [if_pos hordering]
      rfl
    · next hordering =>
      split at h
      · next hempty =>
        obtain rfl := Option.some.inj h
        obtain rfl := List.isEmpty_iff.1 hempty
        rw [if_neg hordering]
        cases op.isNegative <;> rfl
      · cases h
  | _ => cases h

mutual

/-- The truth on the rows of a database is that for the truths of the atoms
there. -/
theorem Filter.truthOf_truth (db : Database) (a : Assignment) : ∀ f : Filter,
    f.truthOf (fun atom => atom.truth db a) = f.truth db a
  | .comparison aliasName column op value => by
    rw [Filter.truthOf]
    split
    · next b hconstant =>
        rw [Filter.truth, Engine.compare_of_constant hconstant]
    · rfl
  | .emptySet => by
    rw [Filter.truthOf, Filter.truth]
  | .and parts => by
    rw [Filter.truthOf, Filter.truth, truthsOf_truth db a parts]
  | .or parts => by
    rw [Filter.truthOf, Filter.truth, truthsOf_truth db a parts]
  | .inSubquery aliasName column query => by
    rw [Filter.truthOf]

theorem truthsOf_truth (db : Database) (a : Assignment) : ∀ parts : List Filter,
    truthsOf (fun atom => atom.truth db a) parts = filterTruths db parts a
  | [] => by rw [truthsOf, filterTruths]
  | part :: parts => by
    rw [truthsOf, filterTruths, part.truthOf_truth db a,
      truthsOf_truth db a parts]

end

/-! ## What is read -/

/-- The tokens are read as one part of a condition, on every level. -/
def ReadsAs (tokens : List SqlToken) (c : ReadCondition) : Prop :=
  ∃ mode : ReadMode, mode.condition? = some c ∧
    ∀ outer level, Reader.run ⟨outer, level, .ready⟩ tokens =
      some ⟨outer, level, mode⟩

/-- Several parts are read, each as its condition. -/
abbrev ReadsAll (parts : List Sql) (cs : List ReadCondition) : Prop :=
  List.Forall₂ (fun sql c => ReadsAs sql.tokens c) parts cs

/-- A name and what an atom takes is an atom. -/
theorem reads_atom {ident : String} {tokens : List SqlToken}
    (h : Steady tokens) :
    ReadsAs (.name ident :: tokens) (.atom (.name ident :: tokens)) := by
  refine ⟨.within (.name ident :: tokens) 0, ?_, fun outer level => ?_⟩
  · simp [ReadMode.condition?, Condition.ofTokens]
  · exact h ⟨outer, level, .ready⟩ [.name ident] 0

/-- The way in which a constant is written. -/
theorem reads_constant (b : Bool) :
    ReadsAs (Sql.tokens [.word (if b then "1 = 1" else "1 = 0")])
      (.constant b) := by
  have htokens : Sql.tokens [.word (if b then "1 = 1" else "1 = 0")] =
      [.word "1", .symbol '=', .word (if b then "1" else "0")] := by
    cases b <;> decide +kernel
  rw [htokens]
  refine ⟨.within [.word "1", .symbol '=', .word (if b then "1" else "0")] 0,
    ?_, fun _ _ => ?_⟩
  · cases b <;> rfl
  · cases b <;> rfl

namespace Reader

variable {outer : List ReadLevel} {level : ReadLevel} {mode : ReadMode}
  {c : ReadCondition}

/-- A part ends after an atom without open parentheses and after a group. -/
theorem condition?_eq_some (h : mode.condition? = some c) :
    (∃ tokens, mode = .within tokens 0 ∧ c = .ofTokens tokens) ∨
      mode = .grouped c := by
  cases mode with
  | ready => cases h
  | grouped d =>
    obtain rfl := Option.some.inj h
    exact .inr rfl
  | within tokens depth =>
    cases depth with
    | zero => exact .inl ⟨tokens, rfl, (Option.some.inj h).symm⟩
    | succ depth => cases h

/-- A connective ends a part. -/
theorem step_connective (h : mode.condition? = some c) {token : SqlToken}
    {combination : Combination}
    (htoken : token.kind = .connective combination) :
    (⟨outer, level, mode⟩ : Reader).step token =
      some ⟨outer, level.after c combination, .ready⟩ := by
  obtain ⟨tokens, rfl, rfl⟩ | rfl := condition?_eq_some h
  · simp [step, htoken, ReadMode.condition?]
  · simp [step, htoken, ReadMode.condition?]

/-- A parenthesis ends a part and the level that it is on. -/
theorem step_closing (h : mode.condition? = some c) (around : ReadLevel) :
    (⟨around :: outer, level, mode⟩ : Reader).step (.symbol ')') =
      some ⟨outer, around, .grouped (level.close c)⟩ := by
  have hkind : (SqlToken.symbol ')').kind = .closing := rfl
  obtain ⟨tokens, rfl, rfl⟩ | rfl := condition?_eq_some h
  · simp [step, hkind, ReadMode.condition?]
  · simp [step, hkind, ReadMode.condition?]

end Reader

/-- The parts before, if any, with one more. -/
def Condition.extend (combination : Combination) (before : Option ReadCondition)
    (c : ReadCondition) : ReadCondition :=
  before.elim c (combine combination · c)

/-- A level on which there is only one connective, after the parts before it, if
any. -/
def ReadLevel.of (combination : Combination) : Option ReadCondition → ReadLevel
  | none => {}
  | some c => ReadLevel.after {} c combination

namespace ReadLevel

variable {combination : Combination} {c : ReadCondition}

theorem close_of (before : Option ReadCondition) :
    (ReadLevel.of combination before).close c =
      .extend combination before c := by
  cases before <;> cases combination <;> rfl

theorem after_of (before : Option ReadCondition) :
    (ReadLevel.of combination before).after c combination =
      .of combination (some (.extend combination before c)) := by
  cases before <;> cases combination <;> rfl

end ReadLevel

/-- The word between two parts is one token, their connective. -/
theorem tokens_connective (combination : Combination) :
    ∃ token : SqlToken, token.kind = .connective combination ∧
      SqlPiece.tokens (.word (" " ++ combination.connective ++ " ")) =
        [token] := by
  cases combination with
  | all => exact ⟨.word "AND", by decide +kernel, by decide +kernel⟩
  | any => exact ⟨.word "OR", by decide +kernel, by decide +kernel⟩

/-- Parts with a connective between them are combined with it, up to the last
one, which is still to be closed. -/
theorem reads_between (combination : Combination) {part : Sql}
    {parts : List Sql} {c : ReadCondition} {cs : List ReadCondition}
    (hpart : ReadsAs part.tokens c) (hparts : ReadsAll parts cs)
    (before : Option ReadCondition) (outer : List ReadLevel) :
    ∃ level mode last, Reader.run ⟨outer, .of combination before, .ready⟩
        (Sql.between (" " ++ combination.connective ++ " ")
          (part :: parts)).tokens =
          some ⟨outer, level, mode⟩ ∧
      mode.condition? = some last ∧
      level.close last = cs.foldl (.combine combination)
        (.extend combination before c) := by
  induction hparts generalizing part c before with
  | nil =>
    obtain ⟨mode, hmode, hrun⟩ := hpart
    exact ⟨_, mode, c, hrun _ _, hmode, ReadLevel.close_of before⟩
  | @cons next d parts cs hnext _ ih =>
    obtain ⟨mode, hmode, hrun⟩ := hpart
    obtain ⟨token, hkind, htoken⟩ := tokens_connective combination
    obtain ⟨level, mode', last, hrest, hlast, hclose⟩ :=
      ih hnext (some (.extend combination before c))
    refine ⟨level, mode', last, ?_, hlast, hclose⟩
    rw [Sql.between, Sql.tokens_append, Sql.tokens_cons, htoken,
      List.singleton_append, Reader.run_append, hrun, Option.bind_some,
      Reader.run, step_connective hmode hkind, Option.bind_some,
      ReadLevel.after_of]
    · exact hrest
    · simp

/-- A group is read as its parts, combined.  One part stands without
parentheses, and as one part; several are a part because of theirs. -/
theorem reads_group (combination : Combination) {parts : List Sql}
    {cs : List ReadCondition} (h : ReadsAll parts cs) :
    ReadsAs (Sql.group combination.connective
      (if combination == .all then "1 = 1" else "1 = 0") parts).tokens
      (.combineAll combination cs) := by
  cases h with
  | nil => exact reads_constant _
  | @cons part c parts cs hpart hparts =>
    cases hparts with
    | nil => exact hpart
    | @cons next d parts cs hnext hparts =>
      refine ⟨.grouped (.combineAll combination (c :: d :: cs)), rfl,
        fun outer level => ?_⟩
      obtain ⟨inner, mode, last, hrun, hlast, hclose⟩ :=
        reads_between combination hpart (.cons hnext hparts) none
          (level :: outer)
      have hopening : SqlPiece.tokens (.word "(") = [] ++ [.symbol '('] := by
        decide +kernel
      have hopen : (⟨outer, level, .ready⟩ : Reader).step (.symbol '(') =
          some ⟨level :: outer, .of combination none, .ready⟩ := rfl
      have hgroup : Sql.group combination.connective
          (if combination == .all then "1 = 1" else "1 = 0")
          (part :: next :: parts) =
          .word "(" :: Sql.between (" " ++ combination.connective ++ " ")
            (part :: next :: parts) ++
            [.word ")"] := by
        rw [Sql.group] <;> simp
      rw [hgroup, Sql.tokens_enclosed hopening, List.nil_append,
        List.cons_append, Reader.run, hopen, Option.bind_some,
        Reader.run_append, hrun, Option.bind_some, Reader.run,
        step_closing hlast, Option.bind_some, hclose]
      rfl

/-! ## The atoms as they are written -/

/-- A comparison that is constant is written as the constant. -/
theorem comparisonSql_of_constant {op : Operator} {value : Value} {b : Bool}
    (h : op.constant? value = some b) (target : Sql) :
    comparisonSql target op value =
      [.word (if b then "1 = 1" else "1 = 0")] := by
  cases value with
  | list items =>
    rw [Operator.constant?] at h
    rw [comparisonSql]
    split at h
    · next hordering =>
      obtain rfl := Option.some.inj h
      rw [if_pos hordering]
      rfl
    · next hordering =>
      split at h
      · next hempty =>
        obtain rfl := Option.some.inj h
        rw [if_neg hordering, if_pos hempty]
      · cases h
  | _ => cases h

/-- Any other comparison is written as the column and what an atom takes. -/
theorem comparisonSql_of_ne_constant {op : Operator} {value : Value}
    (h : op.constant? value = none) (target : Sql) :
    ∃ tail : Sql, comparisonSql target op value = target ++ tail ∧
      Steady tail.tokens := by
  have hsingle : ∀ v,
      Steady (Sql.tokens [.word (" " ++ op.symbol ++ " "), .parameter v]) := by
    intro v
    have hsymbol : ∀ token ∈ SqlPiece.tokens (.word (" " ++ op.symbol ++ " ")),
        token.kind = .other := by
      cases op <;> decide +kernel
    refine .append (.of_other hsymbol) (.of_other ?_)
    simp [SqlPiece.tokens, SqlToken.kind]
  cases value with
  | null =>
    refine ⟨_, rfl, .of_other ?_⟩
    cases op.isNegative <;> decide +kernel
  | list items =>
    rw [Operator.constant?] at h
    rw [comparisonSql]
    split at h
    · cases h
    · next hordering =>
      split at h
      · cases h
      · next hempty =>
        rw [if_neg hordering, if_neg hempty, List.append_assoc]
        exact ⟨_, rfl, (Sql.parameters_phrase items).steady_membership
          op.isNegative⟩
  | _ => exact ⟨_, rfl, hsingle _⟩

theorem Sql.tokens_column (aliasName name : String) :
    (Sql.column aliasName name).tokens =
      [.name aliasName, .symbol '.', .name name] := by
  have hdot : SqlPiece.tokens (.word ".") = [.symbol '.'] := by decide +kernel
  rw [Sql.column, tokens_cons, tokens_cons, tokens_cons, hdot]
  rfl

/-- A column and what an atom takes is an atom. -/
theorem reads_column (aliasName name : String) {tail : Sql}
    (h : Steady tail.tokens) :
    ReadsAs (Sql.column aliasName name ++ tail).tokens
      (.atom (Sql.column aliasName name ++ tail).tokens) := by
  rw [Sql.tokens_append, Sql.tokens_column]
  exact reads_atom (.append (.of_other (by simp [SqlToken.kind])) h)

/-- The tokens of the text of a filter. -/
def Filter.tokens (f : Filter) : List SqlToken := (lex f.sql.text).getD []

theorem Filter.tokens_eq (f : Filter) : f.tokens = f.sql.tokens := by
  rw [Filter.tokens, f.lex_text, Option.getD_some]

mutual

/-- A filter is read as its condition. -/
theorem Filter.reads :
    ∀ f : Filter, ReadsAs f.sql.tokens (f.condition.map Filter.tokens)
  | .comparison aliasName column op value => by
    rw [Filter.condition]
    cases hconstant : op.constant? value with
    | some b =>
      rw [Filter.sql, comparisonSql_of_constant hconstant]
      exact reads_constant b
    | none =>
      obtain ⟨tail, hsql, htail⟩ :=
        comparisonSql_of_ne_constant hconstant (Sql.column aliasName column)
      rw [Condition.map, Filter.tokens_eq, Filter.sql, hsql]
      exact reads_column aliasName column htail
  | .emptySet => by
    rw [Filter.condition, Filter.sql]
    exact reads_constant false
  | .and parts => by
    rw [Filter.condition, Filter.sql, Condition.map_combineAll]
    exact reads_group .all (filters_read parts)
  | .or parts => by
    rw [Filter.condition, Filter.sql, Condition.map_combineAll]
    exact reads_group .any (filters_read parts)
  | .inSubquery aliasName column query => by
    rw [Filter.condition, Condition.map, Filter.tokens_eq, Filter.sql,
      List.append_assoc]
    exact reads_column aliasName column
      (query.sql_phrase.steady_membership false)

theorem filters_read : ∀ parts : List Filter,
    ReadsAll (filtersSql parts)
      ((conditionsOf parts).map (Condition.map Filter.tokens))
  | [] => by
    rw [filtersSql, conditionsOf]
    exact .nil
  | part :: parts => by
    rw [filtersSql, conditionsOf]
    exact .cons part.reads (filters_read parts)

end

theorem Filter.readCondition_text (f : Filter) :
    readCondition f.sql.text = some (f.condition.map Filter.tokens) := by
  obtain ⟨mode, hmode, hrun⟩ := f.reads
  rw [readCondition, f.lex_text, Option.bind_some, hrun, Option.bind_some,
    Reader.condition?, hmode]
  rfl

/-- A filter stands in the text of its select after WHERE, and is read there as
a condition that has the atoms of the filter, in their order, and its truth. -/
theorem Select.where_reads (s : Select) (f : Filter) :
    ({ s with filter := some f } : Select).sql.text =
        ({ s with filter := none } : Select).sql.text ++
          " WHERE " ++ f.sql.text ∧
      ∃ c : Condition Filter, readCondition f.sql.text =
        some (c.map Filter.tokens) ∧
        c.atoms = f.atoms ∧
        ∀ assignment : Filter →
          Truth, c.truth assignment = f.truthOf assignment := by
  refine ⟨?_, f.condition, f.readCondition_text, f.atoms_condition,
    f.truth_condition⟩
  simp only [Select.sql, whereSql, Sql.text_append, Sql.text_cons,
    SqlPiece.text]
  simp [Sql.text, String.append_assoc]

end RowGuard
