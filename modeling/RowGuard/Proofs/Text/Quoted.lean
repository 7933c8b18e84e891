import RowGuard.Proofs.Text.Delimited
import RowGuard.Text.Quoted

/-!
# Quoted text can be read back

`unescape` reads one character from between quotes, however it is written
(`unescape_escape`).  Since no character is written as a quote, the first quote
that is read ends the text, and quoted text is self-delimiting
(`quote_selfDelimiting`).
-/

namespace RowGuard.Text

/-! ## Hexadecimal numbers -/

/-- The value of a hexadecimal digit. -/
def hexValue (c : Char) : Nat :=
  if c.toNat < 'a'.toNat then c.toNat - '0'.toNat else c.toNat - 'a'.toNat + 10

def readHex (digits : List Char) : Nat :=
  digits.foldl (fun value c => 16 * value + hexValue c) 0

theorem hexValue_digitChar : ∀ n < 16, hexValue n.digitChar = n := by decide

theorem readHex_hexDigits (n : Nat) : readHex (hexDigits n) = n := by
  induction n using Nat.base_induction 16 (by decide) with
  | single n hn =>
    rw [hexDigits, Nat.toDigits_of_lt_base hn]
    exact (Nat.zero_add _).trans (hexValue_digitChar n hn)
  | digit n k hk hn ih =>
    rw [hexDigits, ← Nat.toDigits_append_toDigits (by decide) hn hk,
      Nat.toDigits_of_lt_base hk, readHex, List.foldl_append]
    exact congrArg₂ (16 * · + ·) ih (hexValue_digitChar k hk)

theorem notMem_hexDigits (n : Nat) : '\x7d' ∉ hexDigits n := by
  induction n using Nat.base_induction 16 (by decide) with
  | single n hn =>
    rw [hexDigits, Nat.toDigits_of_lt_base hn, List.mem_singleton]
    revert n
    decide
  | digit n k hk hn ih =>
    rw [hexDigits, ← Nat.toDigits_append_toDigits (by decide) hn hk,
      Nat.toDigits_of_lt_base hk, List.mem_append, List.mem_singleton, not_or]
    refine ⟨ih, ?_⟩
    revert k
    decide

/-! ## Reading a character -/

/-- The character that is written as a backslash and this letter. -/
def unescapeLetter : Char → Char
  | 'n' => '\n'
  | 'r' => '\r'
  | 't' => '\t'
  | '0' => '\x00'
  | letter => letter

/-- Reads one character from between quotes, and what follows it. -/
def unescape : List Char → Option (Char × List Char)
  | '\\' :: 'u' :: '\x7b' :: text =>
    some (Char.ofNat (readHex (splitAt '\x7d' text).1), (splitAt '\x7d' text).2)
  | '\\' :: letter :: text => some (unescapeLetter letter, text)
  | c :: text => some (c, text)
  | [] => none

/-- A character is read as what has been written. -/
theorem unescape_escape (c : Char) (rest : List Char) :
    unescape (escape c ++ rest) = some (c, rest) := by
  rw [escape]
  split_ifs with hquote hbackslash hnewline hreturn htab hzero hprintable
  · subst hquote; rfl
  · subst hbackslash; rfl
  · subst hnewline; rfl
  · subst hreturn; rfl
  · subst htab; rfl
  · subst hzero; rfl
  · -- A character that stands for itself is no backslash, which would begin an
    -- escape.
    rw [List.singleton_append, unescape.eq_def]
    split
    · next heq => exact absurd (List.cons.inj heq).1 hbackslash
    · next heq => exact absurd (List.cons.inj heq).1 hbackslash
    · next heq =>
      obtain ⟨rfl, rfl⟩ := List.cons.inj heq
      rfl
    · next heq => cases heq
  · have hsplit := splitAt_append (notMem_hexDigits c.toNat) rest
    have htext : ['\\', 'u', '\x7b'] ++ hexDigits c.toNat ++ ['\x7d'] ++ rest =
        '\\' :: 'u' :: '\x7b' :: (hexDigits c.toNat ++ '\x7d' :: rest) := by
      simp
    rw [htext, unescape, hsplit, readHex_hexDigits, Char.ofNat_toNat]

/-- No character is written as text that begins with a quote. -/
theorem head?_escape (c : Char) : ∃ first tail, escape c = first :: tail ∧
    first ≠ '"' := by
  rw [escape]
  split_ifs with hquote
  all_goals first | exact ⟨_, _, rfl, hquote⟩ | exact ⟨_, _, rfl, by decide⟩

/-! ## Quoted text -/

/-- The characters of a text up to the closing quote. -/
theorem escaped_selfDelimiting (cs : List Char) :
    SelfDelimiting (fun cs : List Char => cs.flatMap escape ++ ['"'])
      (fun _ => True) cs := by
  have hempty : ∀ c ds rest rest',
      ([] : List Char).flatMap escape ++ ['"'] ++ rest ≠
        (c :: ds).flatMap escape ++ ['"'] ++ rest' := by
    intro c ds rest rest' heq
    obtain ⟨first, tail, hescape, hfirst⟩ := head?_escape c
    rw [List.flatMap_cons, hescape] at heq
    exact hfirst (List.cons.inj heq).1.symm
  induction cs with
  | nil =>
    intro ds _ rest rest' heq
    cases ds with
    | nil => exact ⟨rfl, (List.cons.inj heq).2⟩
    | cons d ds => exact absurd heq (hempty d ds rest rest')
  | cons c cs ih =>
    intro ds _ rest rest' heq
    cases ds with
    | nil => exact absurd heq.symm (hempty c cs rest' rest)
    | cons d ds =>
      simp only [List.flatMap_cons, List.append_assoc] at heq
      have hread := congrArg unescape heq
      rw [unescape_escape, unescape_escape, Option.some.injEq, Prod.mk.injEq,
        ← List.append_assoc, ← List.append_assoc] at hread
      obtain ⟨rfl, htail⟩ := hread
      obtain ⟨rfl, hrest⟩ := ih trivial htail
      exact ⟨rfl, hrest⟩

/-- Quoted text can be told from what follows it, and determines what is
quoted. -/
theorem quote_selfDelimiting (s : String) :
    SelfDelimiting (fun s : String => (quote s).toList) (fun _ => True) s := by
  intro t _ rest rest' heq
  simp only [quote, String.toList_ofList, List.cons_append] at heq
  obtain ⟨htext, hrest⟩ :=
    escaped_selfDelimiting s.toList trivial (List.cons.inj heq).2
  exact ⟨String.toList_inj.1 htext, hrest⟩

end RowGuard.Text
