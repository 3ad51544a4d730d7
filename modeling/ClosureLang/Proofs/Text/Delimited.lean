import Mathlib.Data.List.Basic

/-!
# Delimited texts

A text that is put together from words with a space between them, or from lines with a line break
after each, can be taken apart again, since no word holds a space and no line a line break.
-/

set_option autoImplicit false

namespace ClosureLang.Text

/-- What stands before the first delimiter is determined, and so is what stands after it. -/
theorem append_cons_inj {α : Type} {a : α} : ∀ {x y rest rest' : List α}, a ∉ x → a ∉ y →
    x ++ a :: rest = y ++ a :: rest' → x = y ∧ rest = rest'
  | [], [], _, _, _, _, eq => ⟨rfl, (List.cons.inj eq).2⟩
  | [], b :: y, _, _, _, absent, eq => by
    have same : a = b := (List.cons.inj eq).1
    exact absurd (same ▸ List.mem_cons_self) absent
  | b :: x, [], _, _, absent, _, eq => by
    have same : b = a := (List.cons.inj eq).1
    exact absurd (same ▸ List.mem_cons_self) absent
  | b :: x, c :: y, _, _, absent, absent', eq => by
    obtain ⟨head, tail⟩ := List.cons.inj eq
    obtain ⟨front, back⟩ := append_cons_inj (List.not_mem_of_not_mem_cons absent)
      (List.not_mem_of_not_mem_cons absent') tail
    exact ⟨by rw [head, front], back⟩

/-! ## Lines -/

/-- Lines are determined by the text that ends each of them with a line break. -/
theorem join_lines_inj : ∀ {lines lines' : List String}, (∀ line ∈ lines, '\n' ∉ line.toList) →
    (∀ line ∈ lines', '\n' ∉ line.toList) →
    String.join (lines.map (· ++ "\n")) = String.join (lines'.map (· ++ "\n")) →
    lines = lines' := by
  intro lines lines' single single' eq
  have chars : (lines.flatMap fun line => line.toList ++ ['\n']) =
      lines'.flatMap fun line => line.toList ++ ['\n'] := by
    simpa [String.toList_join, List.flatMap_map] using congrArg String.toList eq
  clear eq
  induction lines generalizing lines' with
  | nil =>
    cases lines' with
    | nil => rfl
    | cons => simp at chars
  | cons line lines ih =>
    cases lines' with
    | nil => simp at chars
    | cons line' lines' =>
      simp only [List.flatMap_cons, List.append_assoc, List.singleton_append] at chars
      rw [List.forall_mem_cons] at single single'
      obtain ⟨same, rest⟩ := append_cons_inj single.1 single'.1 chars
      rw [String.toList_inj.mp same, ih single.2 single'.2 rest]

/-! ## Words -/

/-- A text without a space or a line break. -/
def IsWord (text : String) : Prop :=
  ' ' ∉ text.toList ∧ '\n' ∉ text.toList

instance (text : String) : Decidable (IsWord text) :=
  inferInstanceAs (Decidable (_ ∧ _))

/-- A text in two parts is a word if both parts are. -/
@[simp] theorem isWord_append {s t : String} : IsWord (s ++ t) ↔ IsWord s ∧ IsWord t := by
  simp only [IsWord, String.toList_append, List.mem_append, not_or]
  tauto

/-- Words are determined by the text that puts a space between them. -/
theorem intercalate_words_inj {words words' : List String} (h : ∀ word ∈ words, IsWord word)
    (h' : ∀ word ∈ words', IsWord word) (nonempty : words ≠ []) (nonempty' : words' ≠ [])
    (eq : " ".intercalate words = " ".intercalate words') : words = words' := by
  have chars := congrArg (List.splitOn ' ' ∘ String.toList) eq
  have parts : ∀ {ws : List String}, (∀ word ∈ ws, IsWord word) → ws ≠ [] →
      (List.splitOn ' ' ∘ String.toList) (" ".intercalate ws) = ws.map String.toList := by
    intro ws words nonempty
    have noSpace : ∀ chars ∈ ws.map String.toList, ' ' ∉ chars := by
      simpa using fun word mem => (words word mem).1
    simpa [String.toList_intercalate] using
      List.splitOn_intercalate ' ' noSpace (by simpa using nonempty)
  rw [parts h nonempty, parts h' nonempty'] at chars
  exact List.map_injective_iff.mpr (fun _ _ => String.toList_inj.mp) chars

/-- Words with a space between them stay on one line. -/
theorem no_lineBreak_intercalate : ∀ {words : List String}, (∀ word ∈ words, IsWord word) →
    '\n' ∉ (" ".intercalate words).toList
  | [], _ => by simp
  | [word], h => by simpa using (h word List.mem_cons_self).2
  | word :: next :: words, h => by
    rw [List.forall_mem_cons] at h
    have rest := no_lineBreak_intercalate h.2
    rw [String.intercalate_cons_cons, String.toList_append, String.toList_append]
    simpa only [List.mem_append, not_or] using ⟨⟨h.1.2, by decide⟩, rest⟩

end ClosureLang.Text
