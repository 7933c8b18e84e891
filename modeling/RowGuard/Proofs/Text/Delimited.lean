import Mathlib.Data.List.Basic
import Mathlib.Data.List.TakeWhile

/-!
# Texts that show where they end

The text of a value is self-delimiting (`SelfDelimiting`) if it can be told
apart from the text of every other value whatever follows the two.  Texts that
are followed by a character which none of them contains are of this kind
(`SelfDelimiting.of_terminator`), and so are lists of self-delimiting texts
between brackets (`SelfDelimiting.list`).
-/

namespace RowGuard.Text

/-! ## Splitting a text -/

/-- The text before the first `c` and the text after it. -/
def splitAt (c : Char) (text : List Char) : List Char × List Char :=
  (text.takeWhile (· != c), (text.dropWhile (· != c)).drop 1)

section

variable {c : Char} {before : List Char}

theorem splitAt_of_notMem (h : c ∉ before) :
    splitAt c before = (before, []) := by
  have hall : ∀ x ∈ before, (x != c) = true :=
    fun x hx => bne_iff_ne.2 fun heq => h (heq ▸ hx)
  rw [splitAt, List.takeWhile_eq_self_iff.2 hall,
    List.dropWhile_eq_nil_iff.2 hall, List.drop_nil]

theorem splitAt_append (h : c ∉ before) (after : List Char) :
    splitAt c (before ++ c :: after) = (before, after) := by
  have hall : ∀ x ∈ before, (x != c) = true :=
    fun x hx => bne_iff_ne.2 fun heq => h (heq ▸ hx)
  rw [splitAt, List.takeWhile_append_of_pos hall,
    List.dropWhile_append_of_pos hall]
  simp

end

/-! ## Self-delimiting texts -/

variable {α : Type} {text : α → List Char} {P : α → Prop} {a : α} {as : List α}

/-- If the text of `a` and that of an admissible value are equal up to what
follows them, then the values are equal and so is what follows. -/
def SelfDelimiting (text : α → List Char) (P : α → Prop) (a : α) : Prop :=
  ∀ ⦃b : α⦄, P b → ∀ ⦃rest rest' : List Char⦄,
    text a ++ rest = text b ++ rest' → a = b ∧ rest = rest'

/-- Different texts are self-delimiting in front of a character that they do not
contain. -/
theorem SelfDelimiting.of_terminator {c : Char}
    (hinjective : ∀ b, P b → text a = text b → a = b)
    (hnotMem : ∀ b, P b → c ∉ text b) (ha : c ∉ text a) :
    SelfDelimiting (fun a => text a ++ [c]) P a := by
  intro b hb rest rest' heq
  rw [List.append_assoc, List.append_assoc] at heq
  have hsplit := congrArg (splitAt c) heq
  rw [List.singleton_append, List.singleton_append, splitAt_append ha,
    splitAt_append (hnotMem b hb)] at hsplit
  exact ⟨hinjective b hb (congrArg Prod.fst hsplit), congrArg Prod.snd hsplit⟩

/-! ## Lists -/

/-- The texts of values, each after a comma, and a closing bracket. -/
def tailText (text : α → List Char) (as : List α) : List Char :=
  as.flatMap (fun a => ',' :: ' ' :: text a) ++ [']']

/-- The texts of values with commas between them, and a closing bracket. -/
def listText (text : α → List Char) (as : List α) : List Char :=
  [',', ' '].intercalate (as.map text) ++ [']']

theorem listText_cons (text : α → List Char) (a : α) (as : List α) :
    listText text (a :: as) = text a ++ tailText text as := by
  induction as generalizing a with
  | nil =>
    rw [listText, List.map_singleton, List.intercalate_singleton, tailText,
      List.flatMap_nil, List.nil_append]
  | cons next as ih =>
    have hnext := ih next
    rw [listText] at hnext
    rw [listText, List.map_cons, List.map_cons, List.intercalate_cons_cons,
      ← List.map_cons, List.append_assoc, hnext]
    simp [tailText]

theorem tailText_selfDelimiting (h : ∀ a ∈ as, SelfDelimiting text P a) :
    SelfDelimiting (tailText text) (fun bs => ∀ b ∈ bs, P b) as := by
  induction as with
  | nil =>
    intro bs _ rest rest' heq
    cases bs with
    | nil => exact ⟨rfl, (List.cons.inj heq).2⟩
    | cons b bs => cases (List.cons.inj heq).1
  | cons a as ih =>
    intro bs hbs rest rest' heq
    cases bs with
    | nil => cases (List.cons.inj heq).1
    | cons b bs =>
      have hbody : text a ++ (tailText text as ++ rest) =
          text b ++ (tailText text bs ++ rest') := by
        simpa [tailText] using heq
      obtain ⟨rfl, htail⟩ := h a (.head _) (hbs b (.head _)) hbody
      obtain ⟨rfl, hrest⟩ := ih (fun a hmem => h a (.tail _ hmem))
        (fun b hmem => hbs b (.tail _ hmem)) htail
      exact ⟨rfl, hrest⟩

/-- A list is self-delimiting if its members are and no text begins with a
closing bracket. -/
theorem SelfDelimiting.list (h : ∀ a ∈ as, SelfDelimiting text P a)
    (hhead : ∀ a, ∃ c tail, text a = c :: tail ∧ c ≠ ']') :
    SelfDelimiting (listText text) (fun bs => ∀ b ∈ bs, P b) as := by
  have hempty : ∀ b bs rest rest', listText text [] ++ rest ≠ listText text
      (b :: bs) ++ rest' := by
    intro b bs rest rest' heq
    obtain ⟨c, tail, htext, hc⟩ := hhead b
    rw [listText_cons, htext] at heq
    exact hc (List.cons.inj heq).1.symm
  intro bs hbs rest rest' heq
  cases as with
  | nil =>
    cases bs with
    | nil => exact ⟨rfl, (List.cons.inj heq).2⟩
    | cons b bs => exact absurd heq (hempty b bs rest rest')
  | cons a as =>
    cases bs with
    | nil => exact absurd heq.symm (hempty a as rest' rest)
    | cons b bs =>
      rw [listText_cons, listText_cons, List.append_assoc,
        List.append_assoc] at heq
      obtain ⟨rfl, htail⟩ := h a (.head _) (hbs b (.head _)) heq
      obtain ⟨rfl, hrest⟩ := tailText_selfDelimiting
        (fun a hmem => h a (.tail _ hmem))
        (fun b hmem => hbs b (.tail _ hmem)) htail
      exact ⟨rfl, hrest⟩

end RowGuard.Text
