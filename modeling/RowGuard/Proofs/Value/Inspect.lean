import RowGuard.Proofs.Decimal.FloatText
import RowGuard.Proofs.Text.Quoted
import RowGuard.Proofs.Value.Atom
import RowGuard.Proofs.Value.Equivalence
import RowGuard.Value.Display

/-!
# Values can be told by their full text

`Value.inspect` writes a value out with the name of every case.  The name is
followed by what the case holds, which is told from its text: numbers end at a
parenthesis, text at a quote, and lists at a bracket
(`Value.inspect_selfDelimiting`).  The full texts of two values without NaN are
thus the same only if the values are.
-/

namespace RowGuard

open Text Decimal

/-! ## Parts -/

theorem notMem_intRepr (n : Int) : ')' ∉ (toString n).toList := by
  have hnat : ∀ m : Nat, ')' ∉ m.repr.toList := fun m hmem => by
    rw [Nat.toList_repr] at hmem
    exact (allDigits_digitChars m).notMem (c := ')') rfl hmem
  rw [Int.toString_eq_repr, Int.repr_eq_if]
  split
  · exact hnat _
  · rw [String.toList_append, List.mem_append, not_or]
    exact ⟨by decide, hnat _⟩

theorem int_selfDelimiting (n : Int) :
    SelfDelimiting (fun n : Int => (toString n).toList ++ [')'])
      (fun _ => True) n :=
  SelfDelimiting.of_terminator
    (fun _ _ h => intRepr_injective (String.toList_inj.1 h))
    (fun m _ => notMem_intRepr m) (notMem_intRepr n)

theorem fullFloat_tellsInfinity : fullFloat.TellsInfinity := by
  intro c hc
  cases hc
  decide

theorem notMem_fullFloat {x : Float} (h : x.isNaN = false) :
    ')' ∉ (fullFloat.render x).toList := by
  intro hmem
  rcases FloatStyle.mem_render h hmem with hdigit | hmark | hinfinite
  · cases hdigit
  · revert hmark
    decide
  · revert hinfinite
    decide

theorem float_selfDelimiting {x : Float} (h : x.isNaN = false) :
    SelfDelimiting (fun x : Float => (fullFloat.render x).toList ++ [')'])
      (fun x => x.isNaN = false) x :=
  SelfDelimiting.of_terminator
    (fun _ hy heq => FloatStyle.render_injective fullFloat_tellsInfinity h hy
      (String.toList_inj.1 heq))
    (fun _ hy => notMem_fullFloat hy) (notMem_fullFloat h)

theorem bool_selfDelimiting (b : Bool) :
    SelfDelimiting
      (fun b : Bool => (if b then "true" else "false").toList ++ [')'])
      (fun _ => True) b := by
  refine SelfDelimiting.of_terminator (fun c _ heq => ?_) (fun c _ => ?_) ?_
  · revert b c
    decide
  · revert c
    decide
  · revert b
    decide

/-- A list between brackets is the opening bracket and the text of the list. -/
theorem bracketed_toList {α : Type} (text : α → String) (as : List α) :
    (bracketed (as.map text)).toList =
      '[' :: listText (fun a => (text a).toList) as := by
  rw [bracketed, String.toList_append, String.toList_append,
    String.toList_intercalate, List.map_map]
  rfl

/-- The text of the entity of a record. -/
def entityText (entity : Option String) : List Char :=
  (entity.elim "None" fun name => "Some(" ++ quote name ++ ")").toList

theorem entityText_selfDelimiting (entity : Option String) :
    SelfDelimiting entityText (fun _ => True) entity := by
  intro entity' _ rest rest' heq
  cases entity with
  | none =>
    cases entity' with
    | none => exact ⟨rfl, List.append_cancel_left heq⟩
    | some name =>
      rw [entityText, entityText, Option.elim_some, String.toList_append,
        String.toList_append]
        at heq
      cases (List.cons.inj heq).1
  | some name =>
    cases entity' with
    | none =>
      rw [entityText, entityText, Option.elim_some, String.toList_append,
        String.toList_append]
        at heq
      cases (List.cons.inj heq).1
    | some name' =>
      simp only [entityText, Option.elim_some, String.toList_append,
        List.append_assoc] at heq
      obtain ⟨rfl, hrest⟩ :=
        quote_selfDelimiting name trivial (List.append_cancel_left heq)
      exact ⟨rfl, List.append_cancel_left hrest⟩

/-- The text of a field. -/
def fieldText (field : String × Value) : String :=
  "(" ++ quote field.1 ++ ", " ++ field.2.inspect ++ ")"

theorem inspectItems_eq (items : List Value) :
    inspectItems items = items.map Value.inspect := by
  induction items with
  | nil => rw [inspectItems, List.map_nil]
  | cons item items ih => rw [inspectItems, ih, List.map_cons]

theorem inspectFields_eq (fields : List (String × Value)) :
    inspectFields fields = fields.map fieldText := by
  induction fields with
  | nil => rw [inspectFields, List.map_nil]
  | cons field fields ih => rw [inspectFields, ih, List.map_cons, fieldText]

/-- A record is written as its entity and the list of its fields. -/
theorem recordInspect_toList (entity : Option String)
    (fields : List (String × Value)) :
    (Record.inspect ⟨entity, fields⟩).toList =
      "Record \x7b entity: ".toList ++
        (entityText entity ++
          (", fields: ".toList ++ '[' ::
            (listText (fun field => (fieldText field).toList) fields ++
              " \x7d".toList))) := by
  rw [Record.inspect.eq_def]
  simp only [inspectFields_eq, entityText, String.toList_append,
    bracketed_toList, List.append_assoc, List.cons_append]

/-! ## Cases -/

namespace Value

/-- The name with which the text of a value begins. -/
def caseName : Value → String
  | .null => "Null"
  | .bool _ => "Bool("
  | .int32 _ => "Int32("
  | .int64 _ => "Int64("
  | .float64 _ => "Float64("
  | .string _ => "String("
  | .timestamp _ => "Timestamp("
  | .list _ => "List("
  | .record _ => "Record("

/-- The text of a value behind the name of its case. -/
def argument : Value → List Char
  | .null => []
  | .bool b => (if b then "true" else "false").toList ++ [')']
  | .int32 n => (toString n.toInt).toList ++ [')']
  | .int64 n => (toString n.toInt).toList ++ [')']
  | .float64 x => (fullFloat.render x).toList ++ [')']
  | .string s => (quote s).toList ++ [')']
  | .timestamp t => (toString t.toInt).toList ++ [')']
  | .list items =>
    '[' :: listText (fun v : Value => v.inspect.toList) items ++ [')']
  | .record r => r.inspect.toList ++ [')']

theorem inspect_toList (v : Value) :
    v.inspect.toList = v.caseName.toList ++ v.argument := by
  cases v with
  | list items =>
    rw [inspect, inspectItems_eq, String.toList_append, String.toList_append,
      bracketed_toList, List.append_assoc]
    rfl
  | null => rfl
  | _ =>
    rw [inspect, String.toList_append, String.toList_append, List.append_assoc]
    rfl

def caseNames : List String :=
  ["Null", "Bool(", "Int32(", "Int64(", "Float64(", "String(", "Timestamp(",
    "List(", "Record("]

theorem caseName_mem (v : Value) : v.caseName ∈ caseNames := by
  cases v <;> simp [caseName, caseNames]

/-- The first four characters are enough to tell the cases. -/
theorem caseNames_told : ∀ name ∈ caseNames, 4 ≤ name.toList.length ∧
    ∀ name' ∈ caseNames, name.toList.take 4 = name'.toList.take 4 →
      name = name' := by
  decide

/-- Texts of values with the same beginning are of one case, and the arguments
can be compared. -/
theorem argument_eq {v w : Value} {rest rest' : List Char}
    (h : v.inspect.toList ++ rest = w.inspect.toList ++ rest') :
    v.caseName = w.caseName ∧ v.argument ++ rest = w.argument ++ rest' := by
  rw [inspect_toList, inspect_toList, List.append_assoc, List.append_assoc] at h
  obtain ⟨hlength, htold⟩ := caseNames_told _ v.caseName_mem
  have htake := congrArg (List.take 4) h
  rw [List.take_append_of_le_length hlength,
    List.take_append_of_le_length (caseNames_told _ w.caseName_mem).1] at htake
  have hname := htold _ w.caseName_mem htake
  rw [hname] at h
  exact ⟨hname, List.append_cancel_left h⟩

/-! ## Values -/

/-- The full text of the value can be told from that of every other value
without NaN. -/
def Told (v : Value) : Prop :=
  SelfDelimiting (fun v : Value => v.inspect.toList)
    (fun v => v.nanFree = true) v

theorem fieldText_selfDelimiting {field : String × Value} (h : field.2.Told) :
    SelfDelimiting (fun field : String × Value => (fieldText field).toList)
      (fun field => field.2.nanFree = true) field := by
  intro field' hnan rest rest' heq
  simp only [fieldText, String.toList_append, List.append_assoc] at heq
  obtain ⟨hname, hvalue⟩ :=
    quote_selfDelimiting field.1 trivial (List.append_cancel_left heq)
  obtain ⟨hfield, hrest⟩ := h hnan (List.append_cancel_left hvalue)
  exact ⟨Prod.ext hname hfield, List.append_cancel_left hrest⟩

/-- Neither a value nor a field begins like the end of a list. -/
theorem inspect_head (v : Value) :
    ∃ c tail, v.inspect.toList = c :: tail ∧ c ≠ ']' := by
  have hname : ∀ name ∈ caseNames, ∃ c tail, name.toList = c :: tail ∧
      c ≠ ']' := by
    simp [caseNames]
  obtain ⟨c, tail, hcons, hc⟩ := hname _ v.caseName_mem
  exact ⟨c, tail ++ v.argument,
    by rw [inspect_toList, hcons, List.cons_append], hc⟩

theorem fieldText_head (field : String × Value) :
    ∃ c tail, (fieldText field).toList = c :: tail ∧ c ≠ ']' := by
  simp only [fieldText, String.toList_append, List.append_assoc]
  exact ⟨'(', _, rfl, by decide⟩

/-- A value that holds no other values is told by what stands behind the name of
its case. -/
theorem told_single {v : Value} (hv : v.nanFree = true)
    (hlist : v.isList = false) (hrecord : v.record? = none) : v.Told := by
  intro w hw rest rest' heq
  obtain ⟨hname, hargument⟩ := argument_eq heq
  cases v with
  | null =>
    cases w with
    | null => exact ⟨rfl, hargument⟩
    | _ => simp [caseName] at hname
  | bool b =>
    cases w with
    | bool b' =>
      obtain ⟨rfl, hrest⟩ := bool_selfDelimiting b trivial hargument
      exact ⟨rfl, hrest⟩
    | _ => simp [caseName] at hname
  | int32 n =>
    cases w with
    | int32 m =>
      obtain ⟨hn, hrest⟩ := int_selfDelimiting n.toInt trivial hargument
      exact ⟨congrArg _ (Int32.toInt_inj.1 hn), hrest⟩
    | _ => simp [caseName] at hname
  | int64 n =>
    cases w with
    | int64 m =>
      obtain ⟨hn, hrest⟩ := int_selfDelimiting n.toInt trivial hargument
      exact ⟨congrArg _ (Int64.toInt_inj.1 hn), hrest⟩
    | _ => simp [caseName] at hname
  | float64 x =>
    cases w with
    | float64 y =>
      rw [nanFree, Bool.not_eq_true'] at hv hw
      obtain ⟨rfl, hrest⟩ := float_selfDelimiting hv hw hargument
      exact ⟨rfl, hrest⟩
    | _ => simp [caseName] at hname
  | string s =>
    cases w with
    | string t =>
      rw [argument, argument, List.append_assoc, List.append_assoc] at hargument
      obtain ⟨rfl, hrest⟩ := quote_selfDelimiting s trivial hargument
      exact ⟨rfl, List.append_cancel_left hrest⟩
    | _ => simp [caseName] at hname
  | timestamp t =>
    cases w with
    | timestamp u =>
      obtain ⟨ht, hrest⟩ := int_selfDelimiting t.toInt trivial hargument
      exact ⟨congrArg _ (Int64.toInt_inj.1 ht), hrest⟩
    | _ => simp [caseName] at hname
  | list items => cases hlist
  | record r => cases hrecord

theorem told_list {items : List Value} (h : ∀ item ∈ items, item.Told) :
    (list items).Told := by
  intro w hw rest rest' heq
  obtain ⟨hname, hargument⟩ := argument_eq heq
  cases w with
  | list items' =>
    rw [nanFree, itemsNanFree_iff] at hw
    rw [argument, argument, List.append_assoc, List.append_assoc] at hargument
    obtain ⟨rfl, hrest⟩ :=
      SelfDelimiting.list h inspect_head hw (List.cons.inj hargument).2
    exact ⟨rfl, List.append_cancel_left hrest⟩
  | _ => simp [caseName] at hname

theorem told_record {entity : Option String} {fields : List (String × Value)}
    (h : ∀ field ∈ fields, field.2.Told) : (record ⟨entity, fields⟩).Told := by
  intro w hw rest rest' heq
  obtain ⟨hname, hargument⟩ := argument_eq heq
  cases w with
  | record r =>
    obtain ⟨entity', fields'⟩ := r
    rw [nanFree, Record.nanFree, fieldsNanFree_iff] at hw
    simp only [argument, recordInspect_toList, List.append_assoc,
      List.cons_append] at hargument
    obtain ⟨rfl, hfields⟩ :=
      entityText_selfDelimiting entity trivial
        (List.append_cancel_left hargument)
    obtain ⟨rfl, hrest⟩ := SelfDelimiting.list (fun field hmem =>
      fieldText_selfDelimiting (h field hmem)) fieldText_head hw
      (List.cons.inj (List.append_cancel_left hfields)).2
    exact ⟨rfl, (List.cons.inj (List.append_cancel_left hrest)).2⟩
  | _ => simp [caseName] at hname

end Value

mutual

/-- The full text of a value without NaN determines the value, whatever follows
the text. -/
theorem Value.inspect_selfDelimiting : ∀ v : Value, v.nanFree = true → v.Told
  | .list items, h =>
    Value.told_list (items_told items (by rwa [Value.nanFree] at h))
  | .record ⟨_, fields⟩, h =>
    Value.told_record
      (fields_told fields (by rwa [Value.nanFree, Record.nanFree] at h))
  | .null, h | .bool _, h | .int32 _, h | .int64 _, h | .float64 _,
      h | .string _, h
  | .timestamp _, h => Value.told_single h rfl rfl

theorem items_told : ∀ items : List Value, itemsNanFree items = true →
    ∀ item ∈ items, item.Told
  | [], _ => fun _ hmem => by cases hmem
  | item :: items, h => by
    rw [itemsNanFree, Bool.and_eq_true] at h
    exact List.forall_mem_cons.2
      ⟨item.inspect_selfDelimiting h.1, items_told items h.2⟩

theorem fields_told :
    ∀ fields : List (String × Value), fieldsNanFree fields = true →
    ∀ field ∈ fields, field.2.Told
  | [], _ => fun _ hmem => by cases hmem
  | (_, value) :: fields, h => by
    rw [fieldsNanFree, Bool.and_eq_true] at h
    exact List.forall_mem_cons.2
      ⟨value.inspect_selfDelimiting h.1, fields_told fields h.2⟩

end

/-- Values without NaN are the same if their full texts are. -/
theorem Value.inspect_injective {v w : Value} (hv : v.nanFree = true)
    (hw : w.nanFree = true) (h : v.inspect = w.inspect) : v = w := by
  have htext : v.inspect.toList ++ [] = w.inspect.toList ++ [] := by rw [h]
  exact (v.inspect_selfDelimiting hv hw htext).1

end RowGuard
