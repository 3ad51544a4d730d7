import ClosureLang.Bytecode.Listing
import ClosureLang.Proofs.Text.Delimited

/-!
# The texts of instructions

An instruction is shown as words with a space between them: its name, then its operands, of which
some have a label in front. The name fixes the form of the instruction and each operand can be read
off its word, so an instruction is determined by its text.

Reading back begins with numbers. A number is shown by its decimal digits, a position by at least
four of them, and zeros in front change nothing about the number that is read; a register and a cell
have a letter before the number, and an integer may have a sign. None of these texts has a blank or
a line break in it, so the words can be taken from the text of an instruction, and two instructions
with the same words are compared form by form.

A stored value takes one word or three, and the first of them tells which: an integer begins with a
digit or a sign, and the words for the other values do not.
-/

set_option autoImplicit false

namespace ClosureLang

open Text

/-! ## Numbers -/

/-- A number is read back from the digits it is written with. -/
theorem ofDigitChars_repr (n : Nat) : Nat.ofDigitChars 10 n.repr.toList 0 = n := by
  rw [Nat.toList_repr, Nat.ofDigitChars_ten_toDigits]

/-- Numbers that are written alike are the same. -/
@[simp] theorem repr_inj {m n : Nat} : m.repr = n.repr ↔ m = n := by
  refine ⟨fun h => ?_, congrArg Nat.repr⟩
  rw [← ofDigitChars_repr m, h, ofDigitChars_repr]

/-- A digit of a number is a decimal digit. -/
theorem isDigit_of_mem_toString {n : Nat} {c : Char} (h : c ∈ (toString n).toList) :
    c.isDigit := by
  rw [Nat.toString_eq_ofList_toDigits, String.toList_ofList] at h
  exact Nat.isDigit_of_mem_toDigits (by decide) (by decide) h

/-- A position has at least four digits; shorter numbers have zeros in front. -/
theorem toList_positionText (pos : Nat) : (positionText pos).toList =
    List.replicate (4 - (toString pos).length) '0' ++ (toString pos).toList := by
  have zeros : ∀ n, ("".pushn '0' n).toList = List.replicate n '0' := by
    intro n
    rw [String.pushn_eq_repeat_push]
    induction n with
    | zero => rfl
    | succ n ih => rw [Nat.repeat, String.toList_push, ih, List.replicate_succ']
  rw [positionText, String.toList_append, zeros]

/-- The zeros in front of a position do not change which number its digits stand for. -/
theorem positionText_inj {pos pos' : Nat} :
    positionText pos = positionText pos' ↔ pos = pos' := by
  have value : ∀ n, Nat.ofDigitChars 10 (positionText n).toList 0 = n := by
    intro n
    rw [toList_positionText, Nat.ofDigitChars_append, Nat.ofDigitChars_replicate_zero, Nat.mul_zero,
      Nat.toString_eq_repr, ofDigitChars_repr]
  refine ⟨fun h => ?_, congrArg positionText⟩
  rw [← value pos, h, value]

/-- A position consists of digits. -/
theorem isDigit_of_mem_positionText {pos : Nat} {c : Char} (h : c ∈ (positionText pos).toList) :
    c.isDigit := by
  rw [toList_positionText, List.mem_append] at h
  rcases h with zero | digit
  · rw [List.eq_of_mem_replicate zero]
    rfl
  · exact isDigit_of_mem_toString digit

/-- A number consists of digits, apart from a sign. -/
theorem isDigit_or_minus_of_mem_toString {value : Int} {c : Char}
    (h : c ∈ (toString value).toList) : c.isDigit ∨ c = '-' := by
  cases value with
  | ofNat n => exact .inl (isDigit_of_mem_toString h)
  | negSucc n =>
    have split : (toString (Int.negSucc n)).toList = '-' :: (toString (n + 1)).toList := by
      simp [Int.toString_eq_repr, Int.repr]
    rw [split, List.mem_cons] at h
    exact h.symm.imp_left isDigit_of_mem_toString

/-- Integers that are written alike are the same: the sign shows in the first character. -/
@[simp] theorem int_repr_inj {a b : Int} : a.repr = b.repr ↔ a = b := by
  refine ⟨fun h => ?_, congrArg Int.repr⟩
  -- no digit is a minus sign, so a number from zero on is not written like one below zero
  have apart : ∀ m n : Nat, m.repr ≠ "-" ++ n.repr := by
    intro m n eq
    have minus : '-' ∈ (toString m).toList := by simp [Nat.toString_eq_repr, eq]
    exact absurd (isDigit_of_mem_toString minus) (by decide)
  rw [Int.repr_eq_if, Int.repr_eq_if] at h
  split at h <;> split at h
  · have same := repr_inj.mp h
    omega
  · exact absurd h (apart _ _)
  · exact absurd h.symm (apart _ _)
  · have same := repr_inj.mp (String.append_right_inj _ |>.mp h)
    omega

/-- Registers can be read off their texts. -/
theorem registerText_inj {i j : Nat} : registerText i = registerText j ↔ i = j := by
  simp [registerText]

/-- Cells can be read off their texts. -/
theorem cellText_inj {i j : Nat} : cellText i = cellText j ↔ i = j := by
  simp [cellText]

/-! ## Words -/

/-- A number is shown without blanks and line breaks. -/
theorem isWord_toString (n : Nat) : IsWord (toString n) :=
  ⟨fun mem => absurd (isDigit_of_mem_toString mem) (by decide),
    fun mem => absurd (isDigit_of_mem_toString mem) (by decide)⟩

theorem isWord_positionText (pos : Nat) : IsWord (positionText pos) :=
  ⟨fun mem => absurd (isDigit_of_mem_positionText mem) (by decide),
    fun mem => absurd (isDigit_of_mem_positionText mem) (by decide)⟩

theorem isWord_toString_int (value : Int) : IsWord (toString value) :=
  ⟨fun mem => absurd (isDigit_or_minus_of_mem_toString mem) (by decide),
    fun mem => absurd (isDigit_or_minus_of_mem_toString mem) (by decide)⟩

theorem isWord_registerText (index : Nat) : IsWord (registerText index) :=
  isWord_append.mpr ⟨by decide, isWord_toString index⟩

theorem isWord_cellText (slot : Nat) : IsWord (cellText slot) :=
  isWord_append.mpr ⟨by decide, isWord_toString slot⟩

/-- The words of a stored value's text. -/
def Immediate.words : Immediate → List String
  | int value => [toString value]
  | bool true => ["true"]
  | bool false => ["false"]
  | nil => ["nil"]
  | string literal => ["str", "lit", toString literal]
  | atom literal => ["atom", "lit", toString literal]

/-- The words of an instruction's text. -/
def Instruction.words : Instruction → List String
  | store dst value => ["STORE", registerText dst] ++ value.words
  | callOperator dst recv literal =>
    ["CALL_OP", registerText dst, registerText recv, "lit", toString literal]
  | callMethod dst recv argc literal =>
    ["CALL_N", registerText dst, registerText recv, "args", toString argc, "lit", toString literal]
  | callPlain dst recv literal =>
    ["CALL_0", registerText dst, registerText recv, "lit", toString literal]
  | branchUnless cond target => ["GOTO_IF_FALSE", registerText cond, positionText target]
  | jump target => ["GOTO", positionText target]
  | storeRegister register src => ["STORE_LOCAL", registerText register, "<-", registerText src]
  | storeCell slot src => ["STORE_REF", cellText slot, "<-", registerText src]
  | readRegister dst register => ["READ_LOCAL", registerText dst, "<-", registerText register]
  | readCell dst slot => ["READ_REF", registerText dst, "<-", cellText slot]
  | invoke dst target argc =>
    ["INVOKE", registerText dst, registerText target, "args", toString argc]
  | createLambda dst arity refs unit =>
    ["CREATE_LAMBDA", registerText dst, "arity", toString arity ++ ",", "refs",
      toString refs ++ ",", "code", toString unit]
  | ret src => ["RETURN", registerText src]

namespace Immediate

/-- Every value is shown with at least one word. -/
theorem words_ne_nil (value : Immediate) : value.words ≠ [] := by
  fun_cases words value <;> exact List.cons_ne_nil _ _

/-- The text of a value is its words with blanks between them. -/
theorem render_eq (value : Immediate) : value.render = " ".intercalate value.words := by
  rw [← String.toList_inj]
  fun_cases words value <;> simp [render]

/-- None of the words of a value contains a blank or a line break. -/
theorem isWord_of_mem_words (value : Immediate) : ∀ word ∈ value.words, IsWord word := by
  fun_cases words value <;>
    simp +decide only [List.forall_mem_cons, isWord_toString, isWord_toString_int]

/-- Values can be told apart by their words. -/
theorem words_injective : Function.Injective words := by
  -- the text of a number holds no letter
  have number : ∀ name ∈ ["true", "false", "nil"], ∀ value : Int, toString value ≠ name := by
    have letters : ∀ name ∈ ["true", "false", "nil"],
        ∃ c ∈ name.toList, ¬ (c.isDigit ∨ c = '-') := by simp
    rintro name mem value rfl
    obtain ⟨c, inText, letter⟩ := letters _ mem
    exact letter (isDigit_or_minus_of_mem_toString inText)
  intro value value' eq
  fun_cases words value <;> fun_cases words value' <;> simp_all [words]

end Immediate

namespace Instruction

/-- The text of an instruction is its words with blanks between them. -/
theorem render_eq (i : Instruction) : i.render = " ".intercalate i.words := by
  rw [← String.toList_inj]
  cases i with
  | store dst value =>
    unfold render words
    simp [value.render_eq, String.intercalate_cons_of_ne_nil value.words_ne_nil]
  | _ =>
    unfold render words
    simp

/-- None of the words of an instruction contains a blank or a line break. -/
theorem isWord_of_mem_words (i : Instruction) : ∀ word ∈ i.words, IsWord word := by
  cases i with
  | store dst value =>
    simp +decide only [words, List.forall_mem_append, List.forall_mem_cons, isWord_registerText]
    simpa using value.isWord_of_mem_words
  | _ =>
    simp +decide only [words, List.forall_mem_cons, isWord_append, isWord_toString,
      isWord_registerText, isWord_cellText, isWord_positionText]

/-- Instructions can be told apart by their words: the first one fixes which operands follow. -/
theorem words_injective : Function.Injective words := by
  intro i j eq
  cases i <;> cases j <;>
    simp_all [words, registerText_inj, positionText_inj, cellText_inj,
      Immediate.words_injective.eq_iff]

/-- An instruction is determined by its text. -/
theorem render_injective : Function.Injective render := by
  intro i j eq
  have nonempty : ∀ i : Instruction, i.words ≠ [] := by
    intro i
    cases i <;> exact List.cons_ne_nil _ _
  rw [render_eq, render_eq] at eq
  exact words_injective (intercalate_words_inj i.isWord_of_mem_words j.isWord_of_mem_words
    (nonempty i) (nonempty j) eq)

/-- The text of an instruction stands on one line. -/
theorem no_lineBreak_render (i : Instruction) : '\n' ∉ i.render.toList := by
  rw [render_eq]
  exact no_lineBreak_intercalate i.isWord_of_mem_words

end Instruction

end ClosureLang
