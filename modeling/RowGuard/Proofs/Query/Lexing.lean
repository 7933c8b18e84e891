import RowGuard.Query.Sql

/-!
# The tokens of a statement

A reader of the text of a statement takes what stands between double quotes for
a name, with a doubled quote for a quote, and splits the rest into words and
symbols.  This module says that it finds the pieces of which the statement was
written, whatever characters the names have.

* `lex` is the reader, one character after the other, and `Sql.tokens` are the
  tokens of the pieces.
* `Sql.Lexed.append` says where pieces may be put side by side: the second part
  starts with a character that ends every word and does not go on with a name.
* `Sql.Phrase` is the way in which statements are put together.
  `Sql.Phrase.lexed` is the induction over it.
* `Filter.sql_phrase`, `Select.sql_phrase` and `Compound.sql_phrase` say that
  queries are written so, and `Filter.lex_text` is the result for filters.
-/

namespace RowGuard

/-! ## Reading tokens -/

/-- A token of a statement. -/
inductive SqlToken where
  /-- A name that stood between quotes. -/
  | name (ident : String)
  /-- A keyword or a number. -/
  | word (text : String)
  /-- Any other character. -/
  | symbol (c : Char)
deriving DecidableEq, Repr

/-- What a reader is in the middle of. -/
inductive LexState where
  /-- Outside of names, after some characters of a word. -/
  | outside (word : List Char)
  /-- In a name. -/
  | inside (ident : List Char)
  /-- After a quote in a name, which ends it unless another quote follows. -/
  | closing (ident : List Char)
deriving DecidableEq, Repr

namespace LexState

/-- Whether words may have the character. -/
def isWordChar (c : Char) : Bool := c.isAlphanum || c == '_'

/-- Between two tokens. -/
def start : LexState := .outside []

/-- The word that has been read, if any. -/
def wordTokens (word : List Char) : List SqlToken :=
  if word.isEmpty then [] else [.word (String.ofList word)]

/-- Reads a character outside of names. -/
def nextOutside (word : List Char) (c : Char) : List SqlToken × LexState :=
  if c = '"' then (wordTokens word, .inside [])
  else if isWordChar c then ([], .outside (word ++ [c]))
  else if c.isWhitespace then (wordTokens word, start)
  else (wordTokens word ++ [.symbol c], start)

/-- Reads a character: the tokens that it ends, and the state after it. -/
def next : LexState → Char → List SqlToken × LexState
  | .outside word, c => nextOutside word c
  | .inside ident, c =>
    if c = '"' then ([], .closing ident) else ([], .inside (ident ++ [c]))
  | .closing ident, c =>
    if c = '"' then ([], .inside (ident ++ ['"']))
    else (.name (String.ofList ident) :: (nextOutside [] c).1,
      (nextOutside [] c).2)

/-- The tokens that the end of the text ends.  There is no end inside a name. -/
def finish : LexState → Option (List SqlToken)
  | .outside word => some (wordTokens word)
  | .inside _ => none
  | .closing ident => some [.name (String.ofList ident)]

/-- Reads several characters. -/
def run : LexState → List Char → List SqlToken × LexState
  | state, [] => ([], state)
  | state, c :: cs =>
    ((state.next c).1 ++ ((state.next c).2.run cs).1,
      ((state.next c).2.run cs).2)

end LexState

/-- The tokens of a text, unless it ends inside a name. -/
def lex (text : String) : Option (List SqlToken) :=
  (LexState.start.run text.toList).2.finish.map
    ((LexState.start.run text.toList).1 ++ ·)

/-- The tokens of a piece. -/
def SqlPiece.tokens : SqlPiece → List SqlToken
  | .word text => (lex text).getD []
  | .name ident => [.name ident]
  | .parameter _ => [.symbol '?']

/-- The tokens of the pieces of a statement. -/
def Sql.tokens (sql : Sql) : List SqlToken := sql.flatMap SqlPiece.tokens

/-! ## Breaks between tokens -/

namespace LexState

variable {state : LexState} {c : Char} {rest : List SqlToken}

theorem run_append (state : LexState) (cs ds : List Char) :
    state.run (cs ++ ds) =
      ((state.run cs).1 ++ ((state.run cs).2.run ds).1,
        ((state.run cs).2.run ds).2) := by
  induction cs generalizing state with
  | nil => simp [run]
  | cons c cs ih => simp [run, ih, List.append_assoc]

/-- Whether a character ends every word and is no quote. -/
def breaks (c : Char) : Bool := c != '"' && !isWordChar c

/-- A character that breaks ends the token before it. -/
theorem next_of_breaks (hfinish : state.finish = some rest)
    (h : breaks c = true) :
    state.next c = (rest ++ (start.next c).1, (start.next c).2) := by
  simp only [breaks, Bool.and_eq_true, bne_iff_ne, Bool.not_eq_true'] at h
  obtain ⟨hquote, hword⟩ := h
  cases state with
  | outside word =>
    obtain rfl := Option.some.inj hfinish
    by_cases hblank : c.isWhitespace <;>
      simp [next, nextOutside, start, hquote, hword, hblank, wordTokens]
  | inside ident => cases hfinish
  | closing ident =>
    obtain rfl := Option.some.inj hfinish
    simp [next, start, hquote]

theorem run_of_breaks (hfinish : state.finish = some rest) {cs : List Char}
    (h : ∀ c, cs.head? = some c → breaks c = true) (hne : cs ≠ []) :
    state.run cs = (rest ++ (start.run cs).1, (start.run cs).2) := by
  cases cs with
  | nil => exact absurd rfl hne
  | cons c cs => simp [run, next_of_breaks hfinish (h c rfl)]

/-- Inside of a name, the written form of a name is read as the name. -/
theorem run_inside (ident chars : List Char) :
    (inside ident).run
      (chars.flatMap (fun c => if c = '"' then ['"', '"'] else [c]) ++ ['"']) =
      ([], .closing (ident ++ chars)) := by
  induction chars generalizing ident with
  | nil => simp [run, next]
  | cons c chars ih =>
    by_cases hquote : c = '"'
    · subst hquote
      simp [run, next, ih]
    · simp [run, next, hquote, ih]

theorem run_quoteName (ident : String) :
    start.run (quoteName ident).toList = ([], .closing ident.toList) := by
  rw [quoteName, String.toList_ofList, List.cons_append, run]
  simp [start, next, nextOutside, wordTokens, run_inside]

end LexState

/-! ## Statements put together -/

namespace Sql

variable {a b : Sql} {w : String}

theorem text_append (a b : Sql) : text (a ++ b) = text a ++ text b := by
  rw [text, List.map_append, String.join_append, text, text]

theorem text_cons (piece : SqlPiece) (sql : Sql) :
    text (piece :: sql) = piece.text ++ text sql := by
  rw [text, List.map_cons, String.join_cons, text]

theorem tokens_append (a b : Sql) : tokens (a ++ b) = tokens a ++ tokens b :=
  List.flatMap_append

theorem tokens_cons (piece : SqlPiece) (sql : Sql) :
    tokens (piece :: sql) = piece.tokens ++ tokens sql :=
  List.flatMap_cons

/-- The text is read as the tokens of the pieces, and may end there. -/
def Lexed (sql : Sql) : Prop :=
  ∃ rest, (LexState.start.run sql.text.toList).2.finish = some rest ∧
    (LexState.start.run sql.text.toList).1 ++ rest = sql.tokens

theorem Lexed.lex_eq (h : Lexed a) : lex a.text = some a.tokens := by
  obtain ⟨rest, hfinish, htokens⟩ := h
  rw [lex, hfinish, Option.map_some, htokens]

/-- The statement is empty or starts with a character that breaks. -/
def Starts (sql : Sql) : Prop :=
  ∀ c, sql.text.toList.head? = some c → LexState.breaks c = true

/-- Two parts are read one after the other if the second one breaks. -/
theorem Lexed.append (ha : Lexed a) (hb : Lexed b) (hstarts : Starts b) :
    Lexed (a ++ b) := by
  obtain ⟨resta, hfinisha, htokensa⟩ := ha
  obtain ⟨restb, hfinishb, htokensb⟩ := hb
  rw [Lexed, text_append, String.toList_append, LexState.run_append,
    tokens_append]
  by_cases hne : b.text.toList = []
  · rw [hne] at hfinishb htokensb ⊢
    obtain rfl : [] = restb := Option.some.inj hfinishb
    refine ⟨resta, hfinisha, ?_⟩
    rw [← htokensb, ← htokensa]
    simp [LexState.run]
  · rw [LexState.run_of_breaks hfinisha hstarts hne]
    refine ⟨restb, hfinishb, ?_⟩
    rw [← htokensa, ← htokensb]
    simp only [List.append_assoc]

/-- The word is read up to its end. -/
def settles (w : String) : Bool :=
  (LexState.start.run w.toList).2 = LexState.start

/-- After a word that is read up to its end the reader starts anew. -/
theorem Lexed.opened (hw : settles w = true) (hb : Lexed b) :
    Lexed (.word w :: b) := by
  obtain ⟨rest, hfinish, htokens⟩ := hb
  have hw : (LexState.start.run w.toList).2 = LexState.start :=
    of_decide_eq_true hw
  have hlex : lex w = some (LexState.start.run w.toList).1 := by
    rw [lex, hw]
    simp [LexState.start, LexState.finish, LexState.wordTokens]
  rw [Lexed, text_cons, String.toList_append, LexState.run_append, tokens_cons,
    SqlPiece.text, SqlPiece.tokens, hlex, hw]
  exact ⟨rest, hfinish, by rw [List.append_assoc, htokens, Option.getD_some]⟩

theorem Lexed.word (h : (lex w).isSome = true) : Lexed [.word w] := by
  have htext : text [.word w] = w := by simp [text, SqlPiece.text]
  obtain ⟨tokens, hlex⟩ := Option.isSome_iff_exists.1 h
  rw [Lexed, htext, tokens_cons, SqlPiece.tokens, hlex]
  rw [lex, Option.map_eq_some_iff] at hlex
  obtain ⟨rest, hfinish, rfl⟩ := hlex
  exact ⟨rest, hfinish, by simp [Sql.tokens]⟩

theorem Lexed.name (ident : String) : Lexed [.name ident] := by
  have htext : text [.name ident] = quoteName ident := by
    simp [text, SqlPiece.text]
  rw [Lexed, htext, LexState.run_quoteName]
  exact ⟨_, rfl, by simp [tokens, SqlPiece.tokens]⟩

theorem Lexed.parameter (value : Value) : Lexed [.parameter value] := by
  refine ⟨[], ?_⟩
  simp [text, SqlPiece.text, tokens, SqlPiece.tokens, LexState.run,
    LexState.next, LexState.nextOutside, LexState.start, LexState.isWordChar,
    LexState.finish, LexState.wordTokens]

theorem Lexed.nil : Lexed [] := ⟨[], rfl, rfl⟩

end Sql

/-! ## Phrases -/

/-- Whether the token is a word or a symbol, but neither a placeholder nor a
parenthesis. -/
def SqlToken.isPlain : SqlToken → Bool
  | .name _ => false
  | .word _ => true
  | .symbol c => c != '?' && c != '(' && c != ')'

namespace Sql

/-- Whether the word has plain tokens only. -/
def isPlainWord (w : String) : Bool := (lex w).any (·.all SqlToken.isPlain)

/-- Whether the word has plain tokens and then an opening parenthesis. -/
def opensGroup (w : String) : Bool :=
  settles w && (lex w).any fun tokens =>
    tokens.getLast? == some (.symbol '(') &&
      tokens.dropLast.all SqlToken.isPlain

/-- Whether the word starts with a character that breaks. -/
def startsWord (w : String) : Bool := w.toList.head?.any LexState.breaks

/-- How statements are put together from pieces. -/
inductive Phrase : Sql → Prop where
  | nil : Phrase []
  | name (ident : String) : Phrase [.name ident]
  | parameter (value : Value) : Phrase [.parameter value]
  | word {w : String} (hplain : isPlainWord w = true) : Phrase [.word w]
  | opened {w : String} {sql : Sql} (hplain : isPlainWord w = true)
      (hsettles : settles w = true) (h : Phrase sql) : Phrase (.word w :: sql)
  | enclosed {w : String} {sql : Sql} (hopens : opensGroup w = true)
      (h : Phrase sql) :
      Phrase (.word w :: sql ++ [.word ")"])
  | append {a b : Sql} (ha : Phrase a) (hb : Phrase b) (hstarts : Starts b) :
      Phrase (a ++ b)

variable {a b : Sql} {w : String} {parts : List Sql}

theorem starts_nil : Starts [] := fun _ h => nomatch h

theorem starts_word (h : startsWord w = true) (sql : Sql) :
    Starts (.word w :: sql) := by
  intro c hc
  rw [startsWord, Option.any_eq_true] at h
  obtain ⟨c', hc', hbreaks⟩ := h
  rw [text_cons, SqlPiece.text, String.toList_append, List.head?_append, hc',
    Option.some_or] at hc
  exact Option.some.inj hc ▸ hbreaks

theorem Starts.append (ha : Starts a) (hb : Starts b) : Starts (a ++ b) := by
  intro c hc
  rw [text_append, String.toList_append, List.head?_append] at hc
  cases hhead : a.text.toList.head? with
  | none =>
    rw [hhead, Option.none_or] at hc
    exact hb c hc
  | some c' =>
    rw [hhead, Option.some_or] at hc
    exact ha c (hhead.trans hc)

/-- What is put together so is read as its pieces. -/
theorem Phrase.lexed (h : Phrase a) : Lexed a := by
  induction h with
  | nil => exact .nil
  | name ident => exact .name ident
  | parameter value => exact .parameter value
  | word hplain => exact .word (Option.isSome_of_any hplain)
  | opened _ hsettles _ ih => exact .opened hsettles ih
  | enclosed hopens _ ih =>
    rw [opensGroup, Bool.and_eq_true] at hopens
    exact .append (.opened hopens.1 ih) (.word (by decide +kernel))
      (starts_word (by decide +kernel) [])
  | append _ _ hstarts iha ihb => exact .append iha ihb hstarts

/-- Whether the word may stand between two parts: it is plain, starts with a
character that breaks and is read up to its end. -/
def isJoiner (w : String) : Bool := isPlainWord w && startsWord w && settles w

theorem starts_joiner (hw : isJoiner w = true) (sql : Sql) :
    Starts (.word w :: sql) := by
  simp only [isJoiner, Bool.and_eq_true] at hw
  exact starts_word hw.1.2 sql

theorem Phrase.after_joiner (hw : isJoiner w = true) (ha : Phrase a) :
    Phrase (.word w :: a) := by
  simp only [isJoiner, Bool.and_eq_true] at hw
  exact .opened hw.1.1 hw.2 ha

/-- Two parts with a word between them. -/
theorem Phrase.joined (ha : Phrase a) (hw : isJoiner w = true) (hb : Phrase b) :
    Phrase (a ++ .word w :: b) :=
  .append ha (.after_joiner hw hb) (starts_joiner hw b)

/-- Parts with a word between them. -/
theorem between_phrase {separator : String} (hw : isJoiner separator = true)
    (h : ∀ part ∈ parts, Phrase part) : Phrase (between separator parts) := by
  fun_induction between separator parts with
  | case1 => exact .nil
  | case2 part => exact h part (List.mem_singleton_self part)
  | case3 part parts _ ih =>
    rw [List.forall_mem_cons] at h
    exact .joined h.1 hw (ih h.2)

/-- Placeholders with commas between them. -/
theorem parameters_phrase (values : List Value) :
    Phrase (between ", " (values.map fun value => [.parameter value])) := by
  refine between_phrase (by decide +kernel) fun part hpart => ?_
  obtain ⟨value, -, rfl⟩ := List.mem_map.1 hpart
  exact .parameter value

theorem column_phrase (aliasName name : String) :
    Phrase (column aliasName name) :=
  .joined (.name aliasName) (by decide +kernel) (.name name)

/-- A group of conditions. -/
theorem group_phrase (combination : Combination) {constant : String}
    (hconstant : isPlainWord constant = true)
    (h : ∀ part ∈ parts, Phrase part) :
    Phrase (group combination.connective constant parts) := by
  have hconnective : isJoiner (" " ++ combination.connective ++ " ") =
      true := by
    cases combination <;> decide +kernel
  fun_cases group combination.connective constant parts with
  | case1 => exact .word hconstant
  | case2 part => exact h part (List.mem_singleton_self part)
  | case3 => exact .enclosed (by decide +kernel) (between_phrase hconnective h)

end Sql

open Sql

/-- A comparison of a column. -/
theorem comparisonSql_phrase {target : Sql} (htarget : Phrase target)
    (op : Operator) (value : Value) :
    Phrase (comparisonSql target op value) := by
  have hsingle : ∀ v,
      Phrase (target ++ [.word (" " ++ op.symbol ++ " "), .parameter v]) := by
    intro v
    refine .joined htarget ?_ (.parameter v)
    cases op <;> decide +kernel
  cases value with
  | null =>
    refine .append htarget (.word ?_) (starts_word ?_ []) <;> split <;>
      decide +kernel
  | list items =>
    rw [comparisonSql]
    split
    · exact .word (by decide +kernel)
    · split
      · refine .word ?_
        split <;> decide +kernel
      · rw [List.append_assoc]
        refine .append htarget (.enclosed ?_ (parameters_phrase items))
          (starts_word ?_ _) <;>
          split <;> decide +kernel
  | _ => exact hsingle _

theorem Join.sql_phrase (j : Join) : Phrase j.sql ∧ Starts j.sql := by
  have hsql : j.sql = .word (" " ++ j.kind.keyword ++ " ") ::
      ([.name j.table] ++ .word " AS " ::
        ([.name j.aliasName] ++ .word " ON " ::
          (Sql.column j.aliasName j.column ++ .word " = " ::
            Sql.column j.parentAlias j.parentColumn))) := by
    simp [Join.sql]
  have hkeyword : isJoiner (" " ++ j.kind.keyword ++ " ") = true := by
    cases j.kind <;> decide +kernel
  have hcolumns := (column_phrase j.aliasName j.column).joined (w := " = ")
    (by decide +kernel) (column_phrase j.parentAlias j.parentColumn)
  have hon :=
    (Phrase.name j.aliasName).joined (w := " ON ") (by decide +kernel) hcolumns
  have has := (Phrase.name j.table).joined (w := " AS ") (by decide +kernel) hon
  rw [hsql]
  exact ⟨.after_joiner hkeyword has, starts_joiner hkeyword _⟩

theorem joins_phrase (joins : List Join) :
    Phrase (joins.flatMap Join.sql) ∧ Starts (joins.flatMap Join.sql) := by
  induction joins with
  | nil => exact ⟨.nil, starts_nil⟩
  | cons j joins ih =>
    rw [List.flatMap_cons]
    exact ⟨.append j.sql_phrase.1 ih.1 ih.2, j.sql_phrase.2.append ih.2⟩

theorem Projection.sql_phrase (projection : Projection)
    (aliasName identity : String) :
    Phrase (projection.sql aliasName identity) := by
  cases projection with
  | all =>
    exact .append (.name aliasName) (.word (by decide +kernel))
      (starts_word (by decide +kernel) [])
  | identity => exact column_phrase aliasName identity

mutual

theorem Filter.sql_phrase : ∀ f : Filter, Phrase f.sql
  | .comparison aliasName column op value => by
    rw [Filter.sql]
    exact comparisonSql_phrase (column_phrase aliasName column) op value
  | .emptySet => by
    rw [Filter.sql]
    exact .word (by decide +kernel)
  | .and parts => by
    rw [Filter.sql]
    exact group_phrase .all (by decide +kernel) (filtersSql_phrase parts)
  | .or parts => by
    rw [Filter.sql]
    exact group_phrase .any (by decide +kernel) (filtersSql_phrase parts)
  | .inSubquery aliasName column query => by
    rw [Filter.sql, List.append_assoc]
    exact .append (column_phrase aliasName column)
      (.enclosed (by decide +kernel) query.sql_phrase)
      (starts_word (by decide +kernel) _)

theorem filtersSql_phrase :
    ∀ parts : List Filter, ∀ sql ∈ filtersSql parts, Phrase sql
  | [] => fun _ h => nomatch h
  | part :: parts => by
    rw [filtersSql]
    exact List.forall_mem_cons.2 ⟨part.sql_phrase, filtersSql_phrase parts⟩

theorem Select.sql_phrase : ∀ select : Select, Phrase select.sql
  | ⟨_, table, aliasName, identity, projection, distinct, joins, filter⟩ => by
    have hwhere := whereSql_phrase filter
    have hjoins := joins_phrase joins
    have hfrom : Phrase
        ([.word " FROM ", .name table, .word " AS ", .name aliasName] : Sql) :=
      .after_joiner (by decide +kernel)
        ((Phrase.name table).joined (w := " AS ") (by decide +kernel)
          (.name aliasName))
    have hcolumns : Phrase
        ([.word "SELECT "] ++ (if distinct then [.word "DISTINCT "] else []) ++
          projection.sql aliasName identity) := by
      have hprojection := projection.sql_phrase aliasName identity
      split
      · exact .opened (by decide +kernel) (by decide +kernel)
          (.opened (by decide +kernel) (by decide +kernel) hprojection)
      · exact .opened (by decide +kernel) (by decide +kernel) hprojection
    rw [Select.sql]
    exact .append (.append
      (.append hcolumns hfrom (starts_word (by decide +kernel) _)) hjoins.1
      hjoins.2) hwhere.1 hwhere.2

theorem whereSql_phrase : ∀ filter : Option Filter,
    Phrase (whereSql filter) ∧ Starts (whereSql filter)
  | none => by
    rw [whereSql]
    exact ⟨.nil, starts_nil⟩
  | some filter => by
    rw [whereSql]
    exact ⟨.after_joiner (by decide +kernel) filter.sql_phrase,
      starts_joiner (by decide +kernel) _⟩

theorem Compound.sql_phrase : ∀ query : Compound, Phrase query.sql
  | ⟨combination, members⟩ => by
    rw [Compound.sql]
    refine between_phrase ?_ (selectsSql_phrase members)
    cases combination <;> decide +kernel

theorem selectsSql_phrase :
    ∀ members : List Select, ∀ sql ∈ selectsSql members, Phrase sql
  | [] => fun _ h => nomatch h
  | member :: members => by
    rw [selectsSql]
    exact List.forall_mem_cons.2 ⟨member.sql_phrase, selectsSql_phrase members⟩

end

/-- The text of a filter is read as its pieces. -/
theorem Filter.lex_text (f : Filter) : lex f.sql.text = some f.sql.tokens :=
  f.sql_phrase.lexed.lex_eq

end RowGuard
