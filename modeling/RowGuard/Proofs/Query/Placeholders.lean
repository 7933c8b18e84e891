import RowGuard.Proofs.Query.Conditions

/-!
# Names and placeholders of a statement

A name stands in the text of a statement between quotes, and a value stands
beside it with a placeholder in the text.  This module reads both from the text
again: no name can end its quotes early, and no placeholder is bound to the
value of another comparison.

* `Filter.comparisons` are the comparisons of a filter and `Comparison.bound`
  the values that a comparison passes beside the text.  Subqueries count, where
  they stand.
* `Filter.names` are the names in the order in which they are written, and
  `Filter.shape` is the filter without its names and with one and the same
  scalar for every bound value.
* `placeholders` reads tokens and says of each placeholder which column stands
  before it, and what between the two.  `placeholders_append` takes a statement
  apart.
* `Sql.Spells` says what pieces have in their tokens.  There is a lemma for each
  way of putting pieces together, and `Filter.spells` is the induction over the
  filter.
* `queries_read_back` is the result, for selects and compounds.
-/

namespace RowGuard

/-! ## Comparisons and names -/

/-- A comparison of a filter. -/
structure Comparison where
  aliasName : String
  column : String
  op : Operator
  value : Value

/-- The values that a comparison passes beside the text.  A null check has none
and an ordering against a list is constant. -/
def Comparison.bound (c : Comparison) : List Value :=
  match c.value with
  | .null => []
  | .list items => if c.op.isOrdering then [] else items
  | value => [value]

/-- The names that a comparison writes: those of its column, unless it is
constant. -/
def Comparison.names (c : Comparison) : List String :=
  if (c.op.constant? c.value).isSome then [] else [c.aliasName, c.column]

/-- The value without what is passed beside the text: whether it is null, and
how many items it has if it is a list. -/
def Value.shape : Value → Value
  | .null => .null
  | .list items => .list (items.map fun _ => .bool false)
  | _ => .bool false

/-- The names that a join writes. -/
def Join.names (j : Join) : List String :=
  [j.table, j.aliasName, j.aliasName, j.column, j.parentAlias, j.parentColumn]

/-- The join without its names. -/
def Join.shape (j : Join) : Join := ⟨j.kind, "", "", "", "", "", ""⟩

/-- The names of the columns that a select yields. -/
def Projection.names (aliasName identity : String) : Projection → List String
  | .all => [aliasName]
  | .identity => [aliasName, identity]

mutual

/-- The comparisons of a filter in order, with those of its subqueries. -/
def Filter.comparisons : Filter → List Comparison
  | .comparison aliasName column op value => [⟨aliasName, column, op, value⟩]
  | .emptySet => []
  | .and parts => comparisonsOf parts
  | .or parts => comparisonsOf parts
  | .inSubquery _ _ query => query.comparisons

/-- The comparisons of several filters. -/
def comparisonsOf : List Filter → List Comparison
  | [] => []
  | part :: parts => part.comparisons ++ comparisonsOf parts

/-- The comparisons of a select. -/
def Select.comparisons : Select → List Comparison
  | ⟨_, _, _, _, _, _, _, filter⟩ => whereComparisons filter

/-- The comparisons of a condition, if there is one. -/
def whereComparisons : Option Filter → List Comparison
  | none => []
  | some filter => filter.comparisons

/-- The comparisons of combined selects. -/
def Compound.comparisons : Compound → List Comparison
  | ⟨_, members⟩ => selectsComparisons members

/-- The comparisons of several selects. -/
def selectsComparisons : List Select → List Comparison
  | [] => []
  | member :: members => member.comparisons ++ selectsComparisons members

end

mutual

/-- The names of a filter, in the order in which they are written. -/
def Filter.names : Filter → List String
  | .comparison aliasName column op value =>
    Comparison.names ⟨aliasName, column, op, value⟩
  | .emptySet => []
  | .and parts => namesOf parts
  | .or parts => namesOf parts
  | .inSubquery aliasName column query => [aliasName, column] ++ query.names

/-- The names of several filters. -/
def namesOf : List Filter → List String
  | [] => []
  | part :: parts => part.names ++ namesOf parts

/-- The names of a select: the columns first, then the tables with their joins,
and the condition last. -/
def Select.names : Select → List String
  | ⟨_, table, aliasName, identity, projection, _, joins, filter⟩ =>
    projection.names aliasName identity ++ [table, aliasName] ++ joins.flatMap
      Join.names ++ whereNames filter

/-- The names of a condition, if there is one. -/
def whereNames : Option Filter → List String
  | none => []
  | some filter => filter.names

/-- The names of combined selects. -/
def Compound.names : Compound → List String
  | ⟨_, members⟩ => selectsNames members

/-- The names of several selects. -/
def selectsNames : List Select → List String
  | [] => []
  | member :: members => member.names ++ selectsNames members

end

mutual

/-- The filter without its names and values. -/
def Filter.shape : Filter → Filter
  | .comparison _ _ op value => .comparison "" "" op value.shape
  | .emptySet => .emptySet
  | .and parts => .and (shapesOf parts)
  | .or parts => .or (shapesOf parts)
  | .inSubquery _ _ query => .inSubquery "" "" query.shape

/-- Several filters without their names and values. -/
def shapesOf : List Filter → List Filter
  | [] => []
  | part :: parts => part.shape :: shapesOf parts

/-- The select without its names and values. -/
def Select.shape : Select → Select
  | ⟨_, _, _, _, projection, distinct, joins, filter⟩ =>
    ⟨"", "", "", "", projection, distinct, joins.map Join.shape,
      whereShape filter⟩

/-- A condition without its names and values, if there is one. -/
def whereShape : Option Filter → Option Filter
  | none => none
  | some filter => some filter.shape

/-- Combined selects without their names and values. -/
def Compound.shape : Compound → Compound
  | ⟨combination, members⟩ => ⟨combination, selectsShapes members⟩

/-- Several selects without their names and values. -/
def selectsShapes : List Select → List Select
  | [] => []
  | member :: members => member.shape :: selectsShapes members

end

/-! ## Reading placeholders -/

namespace SqlToken

/-- The name in a token. -/
def name? : SqlToken → Option String
  | .name ident => some ident
  | _ => none

/-- The token without its name. -/
def blank : SqlToken → SqlToken
  | .name _ => .name ""
  | token => token

/-- Whether the token is neither a name nor a placeholder. -/
def isBare : SqlToken → Bool
  | .name _ => false
  | .word _ => true
  | .symbol c => c != '?'

end SqlToken

/-- What stands before a placeholder: the last two names, and the tokens after
them but for commas and other placeholders. -/
structure Heading where
  aliasName : String := ""
  column : String := ""
  operator : List SqlToken := []
deriving DecidableEq, Repr

/-- What stands before the token after this one. -/
def Heading.next (h : Heading) : SqlToken → Heading
  | .name ident => ⟨h.column, ident, []⟩
  | .word text => { h with operator := h.operator ++ [.word text] }
  | .symbol c =>
    if c = '?' ∨ c = ',' then h
      else { h with operator := h.operator ++ [.symbol c] }

/-- What stands before each of the placeholders, from left to right. -/
def placeholders (h : Heading) : List SqlToken → List Heading
  | [] => []
  | token :: tokens =>
    if token = .symbol '?' then h :: placeholders h tokens
      else placeholders (h.next token) tokens

example : (lex "\"m\".\"a?\" IN (?, ?)").map (placeholders {}) =
    some (List.replicate 2 ⟨"m", "a?", [.word "IN", .symbol '(']⟩) := by
  decide +kernel

namespace Comparison

/-- The tokens between the column and the first placeholder of a comparison. -/
def operator (c : Comparison) : List SqlToken :=
  if c.value.isList then
    (if c.op.isNegative then [.word "NOT", .word "IN"] else [.word "IN"]) ++
      [.symbol '(']
  else c.op.symbol.toList.map .symbol

/-- What stands before the placeholders of a comparison. -/
def heading (c : Comparison) : Heading := ⟨c.aliasName, c.column, c.operator⟩

/-- The values that comparisons pass beside the text, each with its
comparison. -/
def bindings (cs : List Comparison) : List (Comparison × Value) :=
  cs.flatMap fun c => c.bound.map (c, ·)

theorem bindings_cons (c : Comparison) (cs : List Comparison) :
    bindings (c :: cs) = c.bound.map (c, ·) ++ bindings cs :=
  List.flatMap_cons

theorem bindings_append (cs ds : List Comparison) :
    bindings (cs ++ ds) = bindings cs ++ bindings ds :=
  List.flatMap_append

end Comparison

section placeholders

variable {h : Heading} {tokens more : List SqlToken}

theorem placeholders_append (h : Heading) (tokens more : List SqlToken) :
    placeholders h (tokens ++ more) =
      placeholders h tokens ++
        placeholders (tokens.foldl Heading.next h) more := by
  induction tokens generalizing h with
  | nil => rfl
  | cons token tokens ih =>
    rw [List.cons_append, placeholders, placeholders, List.foldl_cons]
    split
    · next htoken =>
      have hnext : h.next token = h := by simp [htoken, Heading.next]
      rw [ih, hnext, List.cons_append]
    · rw [ih]

/-- There is a heading for each placeholder. -/
theorem length_placeholders (h : Heading) (tokens : List SqlToken) :
    (placeholders h tokens).length = tokens.count (.symbol '?') := by
  induction tokens generalizing h with
  | nil => rfl
  | cons token tokens ih =>
    rw [placeholders]
    split
    · next htoken => rw [htoken, List.length_cons, List.count_cons_self, ih]
    · next htoken => rw [List.count_cons_of_ne htoken, ih]

theorem placeholders_of_isBare (h : Heading)
    (hbare : ∀ token ∈ tokens, token.isBare = true) :
    placeholders h tokens = [] := by
  have hcount : tokens.count (.symbol '?') = 0 := by
    rw [List.count_eq_zero]
    intro hmem
    exact absurd (hbare _ hmem) (by decide)
  rw [← length_placeholders h] at hcount
  exact List.eq_nil_of_length_eq_zero hcount

/-- The tokens of a number of placeholders with commas between them. -/
def SqlToken.items (n : Nat) : List SqlToken :=
  (List.replicate n (.symbol '?')).intersperse (.symbol ',')

theorem SqlToken.items_succ_succ (n : Nat) :
    items (n + 2) = .symbol '?' :: .symbol ',' :: items (n + 1) := rfl

theorem SqlToken.name?_of_mem_items {n : Nat} {token : SqlToken}
    (h : token ∈ items n) :
    token.name? = none := by
  induction n with
  | zero => cases h
  | succ n ih =>
    cases n with
    | zero =>
      obtain rfl := List.mem_singleton.1 h
      rfl
    | succ n =>
      rw [items_succ_succ, List.mem_cons, List.mem_cons] at h
      obtain rfl | rfl | hmem := h
      · rfl
      · rfl
      · exact ih hmem

/-- Placeholders with commas between them all have the same heading. -/
theorem placeholders_items (h : Heading) (n : Nat) (more : List SqlToken) :
    placeholders h (SqlToken.items n ++ more) =
      List.replicate n h ++ placeholders h more := by
  have hnext : h.next (.symbol ',') = h := by simp [Heading.next]
  induction n with
  | zero => rfl
  | succ n ih =>
    cases n with
    | zero => rfl
    | succ n =>
      rw [SqlToken.items_succ_succ, List.cons_append, List.cons_append,
        placeholders, if_pos rfl, placeholders, if_neg (by decide), hnext, ih]
      rfl

end placeholders

/-! ## What pieces have in their tokens -/

namespace Sql

/-- The pieces have the names in their tokens and the bound values of the
comparisons beside them, each with a placeholder after its comparison.  All
other tokens are those of the shape. -/
structure Spells (sql shape : Sql) (names : List String)
    (cs : List Comparison) : Prop where
  names_eq : sql.tokens.filterMap SqlToken.name? = names
  shape_eq : shape.tokens = sql.tokens.map SqlToken.blank
  placeholders_eq : ∀ h, placeholders h sql.tokens =
    (Comparison.bindings cs).map (·.1.heading)
  parameters_eq : sql.parameters = (Comparison.bindings cs).map Prod.snd

/-- Several parts, each of which has its own names and comparisons. -/
inductive SpellsAll : List Sql → List Sql → List String → List Comparison → Prop
  | nil : SpellsAll [] [] [] []
  | cons {sql shape sqls shapes names names' cs cs'}
      (h : Spells sql shape names cs) (hs : SpellsAll sqls shapes names' cs') :
      SpellsAll (sql :: sqls) (shape :: shapes) (names ++ names') (cs ++ cs')

variable {a b shapeA shapeB : Sql} {namesA namesB : List String}
  {csA csB : List Comparison} {parts shapes : List Sql} {names : List String}
  {cs : List Comparison} {w : String}

/-- Whether the word has neither a name nor a placeholder. -/
def isBareWord (w : String) : Bool :=
  (SqlPiece.word w).tokens.all SqlToken.isBare

theorem parameters_append (a b : Sql) :
    (a ++ b).parameters = a.parameters ++ b.parameters :=
  List.filterMap_append

theorem Spells.nil : Spells [] [] [] [] := ⟨rfl, rfl, fun _ => rfl, rfl⟩

theorem Spells.append (ha : Spells a shapeA namesA csA)
    (hb : Spells b shapeB namesB csB) :
    Spells (a ++ b) (shapeA ++ shapeB) (namesA ++ namesB) (csA ++ csB) where
  names_eq := by
    rw [tokens_append, List.filterMap_append, ha.names_eq, hb.names_eq]
  shape_eq := by
    rw [tokens_append, tokens_append, List.map_append, ha.shape_eq, hb.shape_eq]
  placeholders_eq h := by
    rw [tokens_append, placeholders_append, ha.placeholders_eq,
      hb.placeholders_eq, Comparison.bindings_append, List.map_append]
  parameters_eq := by
    rw [parameters_append, ha.parameters_eq, hb.parameters_eq,
      Comparison.bindings_append, List.map_append]

theorem Spells.name (ident : String) :
    Spells [.name ident] [.name ""] [ident] [] :=
  ⟨rfl, rfl, fun _ => rfl, rfl⟩

/-- A word adds nothing, and stays in the shape. -/
theorem Spells.word (hw : isBareWord w = true) :
    Spells [.word w] [.word w] [] [] := by
  have hbare : ∀ token ∈ tokens [.word w], token.isBare = true := by
    rw [tokens_cons, tokens, List.flatMap_nil, List.append_nil]
    exact List.all_eq_true.1 hw
  refine ⟨?_, ?_, fun h => placeholders_of_isBare h hbare, rfl⟩
  · rw [List.filterMap_eq_nil_iff]
    intro token htoken
    have := hbare token htoken
    cases token with
    | name ident => cases this
    | word text => rfl
    | symbol c => rfl
  · have hblank : ∀ token ∈ tokens [.word w], token.blank = token := by
      intro token htoken
      have := hbare token htoken
      cases token with
      | name ident => cases this
      | word text => rfl
      | symbol c => rfl
    rw [List.map_congr_left hblank, List.map_id']

/-- A word before other pieces. -/
theorem Spells.after_word (hw : isBareWord w = true)
    (ha : Spells a shapeA namesA csA) :
    Spells (.word w :: a) (.word w :: shapeA) namesA csA :=
  (Spells.word hw).append ha

theorem Spells.column (aliasName name : String) :
    Spells (Sql.column aliasName name) (Sql.column "" "")
      [aliasName, name] [] :=
  (Spells.name aliasName).append (.after_word (by decide +kernel) (.name name))

/-- Parts with a word between them. -/
theorem SpellsAll.between (hw : isBareWord w = true)
    (h : SpellsAll parts shapes names cs) :
    Spells (between w parts) (between w shapes) names cs := by
  induction h with
  | nil => exact .nil
  | cons h hs ih =>
    cases hs with
    | nil =>
      rw [List.append_nil, List.append_nil]
      exact h
    | cons h' hs => exact h.append (.after_word hw ih)

/-- A group of conditions. -/
theorem SpellsAll.group (combination : Combination) {constant : String}
    (hconstant : isBareWord constant = true)
    (h : SpellsAll parts shapes names cs) :
    Spells (group combination.connective constant parts)
      (group combination.connective constant shapes) names cs := by
  have hconnective : isBareWord (" " ++ combination.connective ++ " ") =
      true := by
    cases combination <;> decide +kernel
  have hbetween := h.between hconnective
  cases h with
  | nil => exact .word hconstant
  | cons h hs =>
    cases hs with
    | nil =>
      rw [List.append_nil, List.append_nil]
      exact h
    | cons h' hs =>
      have henclosed := (hbetween.after_word (w := "(")
        (by decide +kernel)).append (.word (w := ")") (by decide +kernel))
      rw [List.append_nil, List.append_nil] at henclosed
      exact henclosed

end Sql

open Sql

/-- A word that is read without names, and a comparison that has no bound
value. -/
theorem Sql.Spells.silent {sql shape : Sql} {names : List String}
    {c : Comparison} (h : Spells sql shape names []) (hbound : c.bound = []) :
    Spells sql shape names [c] := by
  have hbindings : Comparison.bindings [c] = Comparison.bindings [] := by
    rw [Comparison.bindings_cons, hbound]
    rfl
  exact ⟨h.names_eq, h.shape_eq, hbindings ▸ h.placeholders_eq,
    hbindings ▸ h.parameters_eq⟩

namespace Comparison

variable (c : Comparison)

/-- The tokens after the column are taken into the heading. -/
theorem foldl_operator :
    c.operator.foldl Heading.next ⟨c.aliasName, c.column, []⟩ = c.heading := by
  rw [heading, operator]
  split
  · cases c.op.isNegative <;> rfl
  · cases c.op <;> rfl

theorem isBare_of_mem_operator {token : SqlToken} (h : token ∈ c.operator) :
    token.isBare = true := by
  revert token
  rw [operator]
  split
  · cases c.op.isNegative <;> decide
  · cases c.op <;> decide +kernel

/-- A comparison is the column, the operator and then its placeholders. -/
theorem spells_bound {tail shapeTail : Sql} {rest : List SqlToken}
    (htail : tail.tokens = c.operator ++ rest)
    (hnameless : ∀ token ∈ rest, token.name? = none)
    (hrest : ∀ h, placeholders h rest = c.bound.map fun _ => h)
    (hparameters : tail.parameters = c.bound)
    (hshape : shapeTail.tokens = tail.tokens) :
    Spells (Sql.column c.aliasName c.column ++ tail)
      (Sql.column "" "" ++ shapeTail) [c.aliasName, c.column] [c] := by
  have hnone : ∀ token ∈ tail.tokens, token.name? = none := by
    intro token htoken
    rw [htail, List.mem_append] at htoken
    cases htoken with
    | inl hoperator =>
      have := c.isBare_of_mem_operator hoperator
      cases token with
      | name ident => cases this
      | word text => rfl
      | symbol c => rfl
    | inr hrest => exact hnameless token hrest
  have hblank : ∀ token ∈ tail.tokens, token.blank = token := by
    intro token htoken
    have := hnone token htoken
    cases token with
    | name ident => cases this
    | word text => rfl
    | symbol c => rfl
  have hbindings : bindings [c] = c.bound.map (c, ·) := by
    rw [bindings_cons]
    exact List.append_nil _
  have hcolumn := Spells.column c.aliasName c.column
  refine ⟨?_, ?_, fun h => ?_, ?_⟩
  · rw [tokens_append, List.filterMap_append, hcolumn.names_eq,
      List.filterMap_eq_nil_iff.2 hnone, List.append_nil]
  · rw [tokens_append, tokens_append, List.map_append, hcolumn.shape_eq, hshape,
      List.map_congr_left hblank, List.map_id']
  · have hdot : ([.name c.aliasName, .symbol '.', .name c.column] : List
        SqlToken).foldl Heading.next h = ⟨c.aliasName, c.column, []⟩ := rfl
    rw [tokens_append, placeholders_append, hcolumn.placeholders_eq,
      tokens_column, hdot, htail, placeholders_append,
      placeholders_of_isBare _ fun _ => c.isBare_of_mem_operator,
      foldl_operator, hrest, hbindings, List.map_map]
    rfl
  · rw [parameters_append, hcolumn.parameters_eq, hparameters, hbindings,
      List.map_map]
    exact (List.map_id _).symm

end Comparison

/-! ## How comparisons are written -/

/-- The placeholders of a list are written with commas between them. -/
theorem Sql.tokens_items (items : List Value) :
    (Sql.between ", " (items.map fun v => [.parameter v])).tokens =
      SqlToken.items items.length := by
  have hcomma : SqlPiece.tokens (.word ", ") = [.symbol ','] := by
    decide +kernel
  induction items with
  | nil => rfl
  | cons item items ih =>
    cases items with
    | nil => rfl
    | cons item' items =>
      have hbetween : Sql.between ", "
          ((item :: item' :: items).map fun v => [.parameter v]) =
          .parameter item :: .word ", " ::
            Sql.between ", " ((item' :: items).map fun v => [.parameter v]) :=
          rfl
      rw [hbetween, tokens_cons, tokens_cons, hcomma, ih]
      rfl

theorem Sql.parameters_items (items : List Value) :
    (Sql.between ", " (items.map fun v => [.parameter v])).parameters =
      items := by
  induction items with
  | nil => rfl
  | cons item items ih =>
    cases items with
    | nil => rfl
    | cons item' items => exact congrArg (item :: ·) ih

/-- A comparison with one value has its placeholder after the operator. -/
theorem Comparison.spells_scalar (c : Comparison)
    (hlist : c.value.isList = false) (hbound : c.bound = [c.value]) :
    Spells (Sql.column c.aliasName c.column ++
        [.word (" " ++ c.op.symbol ++ " "), .parameter c.value])
      (Sql.column "" "" ++
        [.word (" " ++ c.op.symbol ++ " "), .parameter (.bool false)])
      [c.aliasName, c.column] [c] := by
  have hsymbol : SqlPiece.tokens (.word (" " ++ c.op.symbol ++ " ")) =
      c.op.symbol.toList.map .symbol := by
    cases c.op <;> decide +kernel
  have htail : ∀ v,
      Sql.tokens [.word (" " ++ c.op.symbol ++ " "), .parameter v] =
      c.operator ++ [.symbol '?'] := by
    intro v
    rw [tokens_cons, hsymbol, operator, hlist]
    rfl
  refine c.spells_bound (htail _) ?_ (fun h => ?_) ?_
    ((htail _).trans (htail _).symm)
  · intro token htoken
    obtain rfl := List.mem_singleton.1 htoken
    rfl
  · rw [hbound]
    rfl
  · rw [hbound]
    rfl

/-- A membership test has a placeholder for each item. -/
theorem Comparison.spells_list (c : Comparison) {items : List Value}
    (hvalue : c.value = .list items) (hbound : c.bound = items) :
    Spells (Sql.column c.aliasName c.column ++
        .word (if c.op.isNegative then " NOT IN (" else " IN (") ::
          Sql.between ", " (items.map fun v => [.parameter v]) ++ [.word ")"])
      (Sql.column "" "" ++
        .word (if c.op.isNegative then " NOT IN (" else " IN (") ::
        Sql.between ", "
          ((items.map fun _ => .bool false).map fun v => [.parameter v]) ++
          [.word ")"])
      [c.aliasName, c.column] [c] := by
  have hword : SqlPiece.tokens
      (.word (if c.op.isNegative then " NOT IN (" else " IN (")) =
      c.operator := by
    rw [operator, hvalue, Value.isList, if_pos rfl]
    cases c.op.isNegative <;> decide +kernel
  have hclosing : Sql.tokens [.word ")"] = [.symbol ')'] := by decide +kernel
  have htail : ∀ values : List Value, Sql.tokens
      (.word (if c.op.isNegative then " NOT IN (" else " IN (") ::
        Sql.between ", " (values.map fun v => [.parameter v]) ++ [.word ")"]) =
      c.operator ++ (SqlToken.items values.length ++ [.symbol ')']) := by
    intro values
    rw [tokens_append, tokens_cons, hword, tokens_items, hclosing,
      List.append_assoc]
  rw [List.append_assoc, List.append_assoc]
  refine c.spells_bound (htail items) ?_ (fun h => ?_) ?_ ?_
  · intro token htoken
    rw [List.mem_append, List.mem_singleton] at htoken
    obtain hitem | rfl := htoken
    · exact SqlToken.name?_of_mem_items hitem
    · rfl
  · have hclosed : placeholders h [.symbol ')'] = [] := rfl
    rw [placeholders_items, hclosed, List.append_nil, hbound, List.map_const']
  · have hwords : ∀ w, Sql.parameters [.word w] = [] := fun _ => rfl
    rw [List.cons_append, ← List.singleton_append, parameters_append,
      parameters_append, hwords, hwords, parameters_items,
      List.append_nil, hbound]
    rfl
  · rw [htail, htail, List.length_map]

/-- A comparison is written with the names of its column and its bound
values. -/
theorem Comparison.spells (c : Comparison) :
    Spells (comparisonSql (Sql.column c.aliasName c.column) c.op c.value)
      (comparisonSql (Sql.column "" "") c.op c.value.shape) c.names [c] := by
  obtain ⟨aliasName, column, op, value⟩ := c
  cases value with
  | null =>
    refine Spells.silent
      ((Spells.column aliasName column).append (.word ?_)) rfl
    split <;> decide +kernel
  | list items =>
    rw [names, Operator.constant?, Value.shape, comparisonSql, comparisonSql,
      List.isEmpty_map]
    by_cases hordering : op.isOrdering
    · rw [if_pos hordering, if_pos hordering, if_pos hordering]
      exact .silent (.word (by decide +kernel)) (by simp [bound, hordering])
    · rw [if_neg hordering, if_neg hordering, if_neg hordering]
      have hbound : bound ⟨aliasName, column, op, .list items⟩ = items := by
        simp [bound, hordering]
      by_cases hempty : items.isEmpty
      · rw [if_pos hempty, if_pos hempty, if_pos hempty]
        refine .silent (.word ?_) (hbound.trans (List.isEmpty_iff.1 hempty))
        split <;> decide +kernel
      · rw [if_neg hempty, if_neg hempty, if_neg hempty]
        exact spells_list ⟨aliasName, column, op, .list items⟩ rfl hbound
  | _ => exact spells_scalar _ rfl rfl

/-! ## How queries are written -/

theorem Join.spells (j : Join) : Spells j.sql j.shape.sql j.names [] := by
  have hkeyword : isBareWord (" " ++ j.kind.keyword ++ " ") = true := by
    cases j.kind <;> decide +kernel
  exact (((((((Spells.word hkeyword).append (.name j.table)).append
    (.word (w := " AS ") (by decide +kernel))).append
    (.name j.aliasName)).append
    (.word (w := " ON ") (by decide +kernel))).append
    (.column j.aliasName j.column)).append
    (.word (w := " = ") (by decide +kernel))).append
    (.column j.parentAlias j.parentColumn)

theorem joins_spell (joins : List Join) :
    Spells (joins.flatMap Join.sql) ((joins.map Join.shape).flatMap Join.sql)
      (joins.flatMap Join.names) [] := by
  induction joins with
  | nil => exact .nil
  | cons j joins ih => exact j.spells.append ih

theorem Projection.spells (projection : Projection)
    (aliasName identity : String) :
    Spells (projection.sql aliasName identity) (projection.sql "" "")
      (projection.names aliasName identity) [] := by
  cases projection with
  | all => exact (Spells.name aliasName).append (.word (by decide +kernel))
  | identity => exact .column aliasName identity

mutual

theorem Filter.spells :
    ∀ f : Filter, Spells f.sql f.shape.sql f.names f.comparisons
  | .comparison aliasName column op value => by
    rw [Filter.sql, Filter.shape, Filter.sql, Filter.names, Filter.comparisons]
    exact Comparison.spells ⟨aliasName, column, op, value⟩
  | .emptySet => by
    rw [Filter.shape, Filter.sql, Filter.names, Filter.comparisons]
    exact .word (by decide +kernel)
  | .and parts => by
    rw [Filter.sql, Filter.shape, Filter.sql, Filter.names, Filter.comparisons]
    exact (filters_spell parts).group .all (by decide +kernel)
  | .or parts => by
    rw [Filter.sql, Filter.shape, Filter.sql, Filter.names, Filter.comparisons]
    exact (filters_spell parts).group .any (by decide +kernel)
  | .inSubquery aliasName column query => by
    have hquery := query.spells.append (.word (w := ")") (by decide +kernel))
    rw [Filter.sql, Filter.shape, Filter.sql, Filter.names, Filter.comparisons,
      List.append_assoc, List.append_assoc]
    rw [List.append_nil, List.append_nil] at hquery
    exact (Spells.column aliasName column).append
      (.after_word (by decide +kernel) hquery)

theorem filters_spell : ∀ parts : List Filter,
    SpellsAll (filtersSql parts) (filtersSql (shapesOf parts)) (namesOf parts)
      (comparisonsOf parts)
  | [] => by
    rw [filtersSql, shapesOf, filtersSql, namesOf, comparisonsOf]
    exact .nil
  | part :: parts => by
    rw [filtersSql, shapesOf, filtersSql, namesOf, comparisonsOf]
    exact .cons part.spells (filters_spell parts)

theorem Select.spells : ∀ query : Select,
    Spells query.sql query.shape.sql query.names query.comparisons
  | ⟨_, table, aliasName, identity, projection, distinct, joins, filter⟩ => by
    have hselect : Spells [.word "SELECT "] [.word "SELECT "] [] [] :=
      .word (by decide +kernel)
    have hdistinct : Spells (if distinct then [.word "DISTINCT "] else [])
        (if distinct then [.word "DISTINCT "] else []) [] [] := by
      split
      · exact .word (by decide +kernel)
      · exact .nil
    have hfrom : Spells [.word " FROM ", .name table, .word " AS ",
        .name aliasName]
        [.word " FROM ", .name "", .word " AS ", .name ""]
        [table, aliasName] [] :=
      .after_word (by decide +kernel)
        ((Spells.name table).append
          (.after_word (by decide +kernel) (.name aliasName)))
    rw [Select.sql, Select.shape, Select.sql, Select.names, Select.comparisons]
    exact ((((hselect.append hdistinct).append
      (projection.spells aliasName identity)).append hfrom).append
      (joins_spell joins)).append (where_spells filter)

theorem where_spells : ∀ filter : Option Filter,
    Spells (whereSql filter) (whereSql (whereShape filter)) (whereNames filter)
      (whereComparisons filter)
  | none => by
    rw [whereSql, whereShape, whereSql, whereNames, whereComparisons]
    exact .nil
  | some filter => by
    rw [whereSql, whereShape, whereSql, whereNames, whereComparisons]
    exact .after_word (by decide +kernel) filter.spells

theorem Compound.spells : ∀ query : Compound,
    Spells query.sql query.shape.sql query.names query.comparisons
  | ⟨combination, members⟩ => by
    rw [Compound.sql, Compound.shape, Compound.sql, Compound.names,
      Compound.comparisons]
    refine (selects_spell members).between ?_
    cases combination <;> decide +kernel

theorem selects_spell : ∀ members : List Select,
    SpellsAll (selectsSql members) (selectsSql (selectsShapes members))
      (selectsNames members) (selectsComparisons members)
  | [] => by
    rw [selectsSql, selectsShapes, selectsSql, selectsNames, selectsComparisons]
    exact .nil
  | member :: members => by
    rw [selectsSql, selectsShapes, selectsSql, selectsNames, selectsComparisons]
    exact .cons member.spells (selects_spell members)

end

/-! ## Reading queries back -/

/-- From the text alone a reader finds the names, outside of them what the shape
has, and the placeholders, each after the comparison that has the value bound to
it. -/
def Sql.ReadsBack (sql shape : Sql) (names : List String)
    (cs : List Comparison) : Prop :=
  ∃ tokens, lex sql.text = some tokens ∧
    tokens.filterMap SqlToken.name? = names ∧
    lex shape.text = some (tokens.map SqlToken.blank) ∧
    tokens.count (.symbol '?') = sql.parameters.length ∧
    placeholders {} tokens = (Comparison.bindings cs).map (·.1.heading) ∧
    sql.parameters = (Comparison.bindings cs).map Prod.snd

/-- What pieces have in their tokens is read from a text that is read as the
pieces. -/
theorem Sql.Spells.readsBack {sql shape : Sql} {names : List String}
    {cs : List Comparison} (h : Spells sql shape names cs)
    (hsql : lex sql.text = some sql.tokens)
    (hshape : lex shape.text = some shape.tokens) :
    ReadsBack sql shape names cs := by
  have hcount : sql.tokens.count (.symbol '?') = sql.parameters.length := by
    rw [← length_placeholders {}, h.placeholders_eq, h.parameters_eq,
      List.length_map, List.length_map]
  exact ⟨sql.tokens, hsql, h.names_eq, h.shape_eq ▸ hshape, hcount,
    h.placeholders_eq {}, h.parameters_eq⟩

/-- Queries are read back from their text, whatever characters their names
have. -/
theorem queries_read_back :
    (∀ query : Select, ReadsBack query.sql query.shape.sql query.names
      query.comparisons) ∧
      ∀ query : Compound, ReadsBack query.sql query.shape.sql query.names
        query.comparisons :=
  ⟨fun query => query.spells.readsBack query.sql_phrase.lexed.lex_eq
      query.shape.sql_phrase.lexed.lex_eq,
    fun query => query.spells.readsBack query.sql_phrase.lexed.lex_eq
      query.shape.sql_phrase.lexed.lex_eq⟩

end RowGuard
