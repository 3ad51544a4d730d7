import Mathlib.Data.Nat.Digits.Defs
import ClosureLang.Proofs.Text.Delimited
import ClosureLang.Text.Quoted

/-!
# Quoted texts can be read back

A character inside quotes is written as itself or as an escape, which begins with a backslash. A
backslash, a quote and a line break are never written as themselves, and an escape tells where it
ends and which character it stands for. So the written characters can be told apart however they
follow one another, and a text is determined by its quoted form, which stays on one line.

Which characters are written as themselves is a matter of tables, of what can be printed and of what
combines with the character before it. Nothing here depends on these tables. `Written` lists three
ways of writing a character, short escapes, escapes by code point and the character itself, without
saying which one is taken; it is enough that one of them is, and that no two characters have one
writing in common, whatever follows (`Written.unique`).
-/

set_option autoImplicit false

namespace ClosureLang.Text

/-! ## Hexadecimal digits -/

/-- Hexadecimal digits that look alike are the same. -/
theorem digitChar_injective_of_lt {m n : Nat} (hm : m < 16) (hn : n < 16)
    (h : m.digitChar = n.digitChar) : m = n := by
  have all : ∀ i < 16, ∀ j < 16, i.digitChar = j.digitChar → i = j := by decide
  exact all m hm n hn h

/-- A number is determined by its hexadecimal digits. -/
theorem hexDigits_injective {m n : Nat} (h : Nat.toDigits 16 m = Nat.toDigits 16 n) : m = n := by
  induction m using Nat.strongRecOn generalizing n with
  | ind m ih =>
    have base : 1 < 16 := by decide
    have last := fun k : Nat => Nat.mod_lt k (Nat.zero_lt_of_lt base)
    rw [Nat.toDigits_eq_if (n := m) base, Nat.toDigits_eq_if (n := n) base] at h
    split at h <;> split at h
    · next small small' => exact digitChar_injective_of_lt small small' (List.singleton_inj.mp h)
    · -- a single digit has no digits before it
      exact absurd (List.append_eq_singleton_iff.mp h.symm) (by simp [Nat.toDigits_ne_nil])
    · exact absurd (List.append_eq_singleton_iff.mp h) (by simp [Nat.toDigits_ne_nil])
    · next large _ =>
      obtain ⟨front, digit⟩ := List.append_inj' h rfl
      have quotient := ih (m / 16) (Nat.div_lt_self (by omega) base) front
      have remainder := digitChar_injective_of_lt (last m) (last n) (List.singleton_inj.mp digit)
      omega

/-- A character that is no digit is not in a hexadecimal number. -/
theorem not_mem_hexDigits {c : Char} (h : ∀ k, Nat.digitChar k ≠ c) (n : Nat) :
    c ∉ Nat.toDigits 16 n := by
  induction n using Nat.strongRecOn with
  | ind n ih =>
    have base : 1 < 16 := by decide
    rw [Nat.toDigits_eq_if base]
    split
    · simpa using (h n).symm
    · next large =>
      rw [List.mem_append, List.mem_singleton, not_or]
      exact ⟨ih (n / 16) (Nat.div_lt_self (by omega) base), (h (n % 16)).symm⟩

/-! ## Characters -/

/-- The characters that are written as a backslash and one other character. -/
def shortEscapes : List (Char × Char) :=
  [('\x00', '0'), ('\t', 't'), ('\r', 'r'), ('\n', 'n'), ('\\', '\\'), ('"', '"')]

/-- The ways in which a character is written inside quotes. -/
inductive Written : Char → List Char → Prop where
  | short {c letter : Char} : (c, letter) ∈ shortEscapes → Written c ['\\', letter]
  | codePoint (c : Char) : Written c (codePointEscape c)
  | plain {c : Char} : c ≠ '\n' → c ≠ '\\' → c ≠ '"' → Written c [c]

/-- What is written for a character is one of the three ways to write it. -/
theorem written_quoteChar (c : Char) : Written c (quoteChar c) := by
  unfold quoteChar
  split
  iterate 6 exact .short (by decide)
  · next noLineBreak noBackslash noQuote =>
    split
    · exact .codePoint c
    · exact .plain noLineBreak noBackslash noQuote

/-- An escape by code point ends at its closing brace. -/
theorem codePointEscape_append (c : Char) (rest : List Char) : codePointEscape c ++ rest =
    '\\' :: 'u' :: '\x7b' :: (Nat.toDigits 16 c.toNat ++ '\x7d' :: rest) := by
  simp [codePointEscape]

namespace Written

variable {c d : Char} {s t : List Char}

/-- Something is written for every character. -/
theorem ne_nil (h : Written c s) : s ≠ [] := by
  cases h <;> simp [codePointEscape]

/-- What is written tells where it ends and which character it stands for, whatever follows. -/
theorem unique (h : Written c s) (h' : Written d t) {rest rest' : List Char}
    (eq : s ++ rest = t ++ rest') : c = d ∧ rest = rest' := by
  have letters : ∀ row ∈ shortEscapes, row.2 ≠ 'u' ∧
      ∀ row' ∈ shortEscapes, row.2 = row'.2 → row.1 = row'.1 := by decide
  -- the first characters tell the three ways of writing apart
  cases h with
  | short mem =>
    cases h' with
    | short mem' =>
      obtain ⟨-, letter, rest⟩ : True ∧ _ ∧ rest = rest' := by simpa using eq
      exact ⟨(letters _ mem).2 _ mem' letter, rest⟩
    | codePoint =>
      rw [codePointEscape_append] at eq
      injection eq with _ eq
      injection eq with letter
      exact absurd letter (letters _ mem).1
    | plain _ noBackslash =>
      injection eq with same
      exact absurd same.symm noBackslash
  | codePoint =>
    rw [codePointEscape_append] at eq
    cases h' with
    | short mem =>
      injection eq with _ eq
      injection eq with letter
      exact absurd letter.symm (letters _ mem).1
    | codePoint =>
      rw [codePointEscape_append] at eq
      -- the digits end at the closing brace, which is no digit
      have ends : ∀ k, Nat.digitChar k ≠ '\x7d' := fun k => Nat.digitChar_ne _ (by decide)
      obtain ⟨digits, rest⟩ : Nat.toDigits 16 c.toNat = Nat.toDigits 16 d.toNat ∧ rest = rest' := by
        simp only [List.cons.injEq, true_and] at eq
        exact append_cons_inj (not_mem_hexDigits ends _) (not_mem_hexDigits ends _) eq
      exact ⟨Char.toNat_inj.mp (hexDigits_injective digits), rest⟩
    | plain _ noBackslash =>
      injection eq with same
      exact absurd same.symm noBackslash
  | plain _ noBackslash =>
    cases h' with
    | short | codePoint =>
      injection eq with same
      exact absurd same noBackslash
    | plain =>
      injection eq with same rest
      exact ⟨same, rest⟩

/-- No line break is written for any character. -/
theorem no_lineBreak (h : Written c s) : '\n' ∉ s := by
  cases h with
  | short mem =>
    have letters : ∀ row ∈ shortEscapes, '\n' ∉ ['\\', row.2] := by decide
    exact letters _ mem
  | codePoint =>
    have digits : '\n' ∉ Nat.toDigits 16 c.toNat :=
      not_mem_hexDigits (fun k => Nat.digitChar_ne _ (by decide)) _
    simp [codePointEscape, digits]
  | plain noLineBreak => simpa using noLineBreak.symm

end Written

/-! ## Texts -/

/-- Texts that are written alike inside quotes are the same, character by character. -/
theorem flatMap_quoteChar_injective : ∀ {s t : List Char},
    s.flatMap quoteChar = t.flatMap quoteChar → s = t
  | [], [], _ => rfl
  | [], d :: t, eq => by
    have empty := (List.append_eq_nil_iff.mp eq.symm).1
    exact absurd empty (written_quoteChar d).ne_nil
  | c :: s, [], eq => by
    have empty := (List.append_eq_nil_iff.mp eq).1
    exact absurd empty (written_quoteChar c).ne_nil
  | c :: s, d :: t, eq => by
    obtain ⟨same, rest⟩ := (written_quoteChar c).unique (written_quoteChar d) eq
    rw [same, flatMap_quoteChar_injective rest]

/-- A text is determined by its quoted form. -/
theorem quote_injective {s t : String} (h : quote s = quote t) : s = t := by
  have inside : s.toList.flatMap quoteChar = t.toList.flatMap quoteChar := by
    simpa [quote] using congrArg String.toList h
  exact String.toList_inj.mp (flatMap_quoteChar_injective inside)

/-- A quoted text stays on one line. -/
theorem no_lineBreak_quote (text : String) : '\n' ∉ (quote text).toList := by
  have inside : '\n' ∉ text.toList.flatMap quoteChar := by
    intro mem
    obtain ⟨c, -, written⟩ := List.mem_flatMap.mp mem
    exact (written_quoteChar c).no_lineBreak written
  simpa [quote] using inside

end ClosureLang.Text
