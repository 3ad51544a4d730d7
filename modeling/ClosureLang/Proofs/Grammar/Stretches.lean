import ClosureLang.Proofs.Grammar.Correspondence

/-!
# A stretch of tokens in two places

When the first tokens of one list are a stretch of another list, wherever that is, statements and
expressions are read alike in both places. The end of the stretch needs care: no part may go on
beyond it on one side only. On the one side the input ends there, so nothing goes on. On the other
side a separator may be there, and a separator goes on inside of braces; but if the braces of the
stretch are balanced, its end is not inside of any.

How many braces are open at a position is counted from the first token on (`level`). A body in
braces is read from a position inside of some braces to one inside of as many, so in a whole program
the count is back at zero at its end. A statement that is found in the stretch is therefore found in
both places, stays within it and ends inside the same braces (`Stretch.statement_finds`).

The two lists correspond at the same places of the stretch (`Shifted`), which are as far apart in
the one list as the stretch begins in the other, each inside as many braces as were counted.
-/

set_option autoImplicit false

namespace ClosureLang

namespace TokenKind

/-- By how much a token changes the number of open braces. -/
def opening : TokenKind → Int
  | .openBrace => 1
  | .closeBrace => -1
  | _ => 0

variable {kind : TokenKind}

/-- A token that is neither brace nor separator opens and closes nothing. -/
theorem opening_of_isInner (h : kind.isInner = true) : kind.opening = 0 := by
  revert h
  cases kind <;> simp [isInner, opening]

/-- A separator opens and closes nothing. -/
theorem opening_of_isMark (h : kind.isMark = true) : kind.opening = 0 := by
  revert h
  cases kind <;> simp [isMark, opening]

/-- Inside of statements, nothing separates or ends them. -/
theorem not_isMark_of_isInner (h : kind.isInner = true ∨ kind = .openBrace) :
    kind ≠ .terminator ∧ kind.isMark = false := by
  revert h
  cases kind <;> simp [isInner, isMark]

end TokenKind

namespace Descent

variable {tokens tokens' : Array Token} {inside : Nat → Nat → Prop} {d i j k n c : Nat} {t : Token}

/-! ## Braces around positions -/

/-- How many more braces are opened than closed before a position. -/
def level (tokens : Array Token) : Nat → Int
  | 0 => 0
  | pos + 1 =>
    level tokens pos + match tokens[pos]? with
      | some t => t.kind.opening
      | none => 0

/-- `inside d i` can be said of positions `i` inside `d` braces: it is said further on when it was
said before a token. -/
structure Nesting (tokens : Array Token) (inside : Nat → Nat → Prop) : Prop where
  next {d i : Nat} {t : Token} : inside d i → tokens[i]? = some t → t.kind.opening = 0 →
    inside d (i + 1)
  opens {d i : Nat} {t : Token} : inside d i → tokens[i]? = some t → t.kind = .openBrace →
    inside (d + 1) (i + 1)
  closes {d i : Nat} {t : Token} : inside (d + 1) i → tokens[i]? = some t →
    t.kind = .closeBrace → inside d (i + 1)

/-- It need not be known how many braces there are. -/
theorem nesting_anywhere : Nesting tokens fun _ _ => True :=
  ⟨fun _ _ _ => trivial, fun _ _ _ => trivial, fun _ _ _ => trivial⟩

/-- Counting the braces from the first token on says inside how many of them a position is. -/
theorem nesting_level : Nesting tokens fun d i => level tokens i = d where
  next within there plain := by simp [level, there, within, plain]
  opens within there opens := by simp [level, there, within, opens, TokenKind.opening]
  closes within there closes := by simp [level, there, within, closes, TokenKind.opening]

/-- Separators stand inside the same braces as what follows them. -/
theorem Nesting.marks (nesting : Nesting tokens inside) (within : inside d i) (le : i ≤ k)
    (marks : ∀ m, i ≤ m → m < k → ∃ t, tokens[m]? = some t ∧ t.kind.isMark = true) :
    inside d k := by
  obtain ⟨m, rfl⟩ := Nat.exists_eq_add_of_le le
  induction m with
  | zero => exact within
  | succ m ih =>
    have before := ih (Nat.le_add_right i m) fun p le lt => marks p le (Nat.lt_succ_of_lt lt)
    obtain ⟨t, there, isMark⟩ := marks (i + m) (Nat.le_add_right i m) (Nat.lt_succ_self _)
    exact nesting.next before there (TokenKind.opening_of_isMark isMark)

/-- Separators stay inside the same braces. -/
theorem Nesting.marksTo (nesting : Nesting tokens inside) (within : inside d i)
    (h : MarksTo tokens i k) : inside d k :=
  nesting.marks within h.le h.marks

/-! ## Stretches -/

/-- The first `n` tokens of the one list are those of the other one from `c` on. The one list ends
after them; in the other one a separator may follow unless their end is inside of braces. -/
structure Stretch (tokens tokens' : Array Token) (inside : Nat → Nat → Prop) (n c : Nat) :
    Prop where
  nesting : Nesting tokens inside
  le : n ≤ tokens.size
  le' : n + c ≤ tokens'.size
  same {i : Nat} : i < n → tokens[i]? = tokens'[i + c]?
  ends {t : Token} : tokens[n]? = some t → t.kind = .terminator
  ends' {t : Token} : tokens'[n + c]? = some t →
    t.kind = .terminator ∨ t.kind.isMark = true ∧ ∀ d, ¬ inside (d + 1) n

namespace Stretch

/-- Every token list is a stretch of itself. -/
theorem whole (tokens : Array Token) : Stretch tokens tokens (fun _ _ => True) tokens.size 0 where
  nesting := nesting_anywhere
  le := Nat.le_refl _
  le' := Nat.le_refl _
  same _ := rfl
  ends there := by simp at there
  ends' there := by simp at there

/-- A list of tokens, once with the end of the input after it and once between other tokens. -/
theorem of_append (before run after : List Token) {last : Token}
    (nesting : Nesting (run ++ [last]).toArray inside) (isLast : last.kind = .terminator)
    (follows : ∀ t, after[0]? = some t →
      t.kind = .terminator ∨ t.kind.isMark = true ∧ ∀ d, ¬ inside (d + 1) run.length) :
    Stretch (run ++ [last]).toArray (before ++ run ++ after).toArray inside run.length
      before.length where
  nesting := nesting
  le := by simp
  le' := by simp; omega
  same {i} lt := by
    rw [List.getElem?_toArray, List.getElem?_toArray, List.getElem?_append_left lt,
      List.append_assoc, List.getElem?_append_right (Nat.le_add_left _ i), Nat.add_sub_cancel,
      List.getElem?_append_left lt]
  ends there := by
    simp only [List.getElem?_toArray, List.getElem?_concat_length, Option.some.injEq] at there
    exact there ▸ isLast
  ends' {t} there := by
    refine follows t ?_
    rw [← there, List.getElem?_toArray, List.getElem?_append_right (by simp; omega),
      List.length_append, Nat.add_comm run.length, Nat.sub_self]

/-- The same place of the stretch, inside `d` braces. -/
def Shifted (inside : Nat → Nat → Prop) (n c d i j : Nat) : Prop :=
  j = i + c ∧ i ≤ n ∧ inside d i

variable (h : Stretch tokens tokens' inside n c)

include h

/-- A token of the one list that is not its end is a token of the stretch. -/
theorem lt_of_getElem? (le : i ≤ n) (there : tokens[i]? = some t) (plain : t.kind ≠ .terminator) :
    i < n := by
  refine Nat.lt_of_le_of_ne le fun last => ?_
  subst last
  exact plain (h.ends there)

/-- The end of the stretch does not matter to tokens that neither end nor separate statements. -/
theorem same_iff (le : i ≤ n) (plain : t.kind ≠ .terminator) (noMark : t.kind.isMark = false) :
    tokens[i]? = some t ↔ tokens'[i + c]? = some t := by
  rcases Nat.lt_or_eq_of_le le with lt | rfl
  · rw [h.same lt]
  · refine iff_of_false (fun there => plain (h.ends there)) fun there => ?_
    rcases h.ends' there with last | ⟨isMark, -⟩
    · exact plain last
    · cases noMark.symm.trans isMark

/-- Separators of the one list end inside the stretch or right after it. -/
theorem le_of_marksTo (le : i ≤ n) (marks : MarksTo tokens i k) : k ≤ n := by
  by_contra further
  obtain ⟨t, there, isMark⟩ := marks.marks n le (Nat.lt_of_not_le further)
  rw [h.ends there] at isMark
  cases isMark

/-- Separators in the stretch. If they are the last of it, no others may follow. -/
theorem marksTo (le : i ≤ n) (marks : MarksTo tokens i k)
    (last : k = n → ∀ t, tokens'[n + c]? = some t → t.kind.isMark = false) :
    MarksTo tokens' (i + c) (k + c) := by
  have within := h.le_of_marksTo le marks
  refine ⟨Nat.add_le_add_right marks.le c, fun q le' lt => ?_, fun t there => ?_⟩
  · obtain ⟨p, rfl⟩ := Nat.exists_eq_add_of_le' (Nat.le_trans (Nat.le_add_left c i) le')
    obtain ⟨t, there, isMark⟩ := marks.marks p (by omega) (by omega)
    exact ⟨t, (h.same (by omega)).symm.trans there, isMark⟩
  · rcases Nat.lt_or_eq_of_le within with lt | rfl
    · exact marks.ends t ((h.same lt).trans there)
    · exact last rfl t there

/-- Inside of braces, the stretch is not over yet. -/
theorem clears (place : Shifted inside n c (d + 1) i j) (marks : MarksTo tokens i k) :
    MarksTo tokens' j (k + c) ∧ Shifted inside n c (d + 1) k (k + c) := by
  obtain ⟨rfl, le, within⟩ := place
  have within' := h.nesting.marksTo within marks
  refine ⟨h.marksTo le marks fun last t there => ?_, rfl, h.le_of_marksTo le marks, within'⟩
  rcases h.ends' there with isLast | ⟨-, outside⟩
  · simp [isLast, TokenKind.isMark]
  · exact absurd (last ▸ within') (outside d)

/-- The stretch corresponds to itself in the other list, inside every number of braces. -/
theorem correspondence :
    Correspondence tokens tokens' (Shifted inside n c) (Shifted inside n c)
      (Shifted inside n c) where
  inside := by
    rintro d i _ ⟨rfl, le, -⟩
    exact ⟨Nat.le_trans le h.le, Nat.le_trans (Nat.add_le_add_right le c) h.le'⟩
  same := by
    rintro d i _ t ⟨rfl, le, -⟩ plain
    obtain ⟨goesOn, noMark⟩ := TokenKind.not_isMark_of_isInner plain
    exact h.same_iff le goesOn noMark
  next := by
    rintro d i _ t ⟨rfl, le, within⟩ there plain
    have lt := h.lt_of_getElem? le there (TokenKind.not_isMark_of_isInner (.inl plain)).1
    exact ⟨Nat.add_right_comm i c 1, lt,
      h.nesting.next within there (TokenKind.opening_of_isInner plain)⟩
  opens := by
    rintro d i _ t ⟨rfl, le, within⟩ there opens
    have lt := h.lt_of_getElem? le there (by simp [opens])
    exact ⟨Nat.add_right_comm i c 1, lt, h.nesting.opens within there opens⟩
  clears start marks := ⟨_, h.clears (start.elim id id) marks⟩
  separates := by
    rintro d i j k l place marks marks'
    cases marks'.unique (h.clears place marks).1
    obtain ⟨rfl, -⟩ := place
    omega
  settles := id
  sameClose := by
    rintro d i _ t ⟨rfl, le, -⟩ closes
    exact h.same_iff le (by simp [closes]) (by simp [closes, TokenKind.isMark])
  closes := by
    rintro d i _ t ⟨rfl, le, within⟩ there closes
    have lt := h.lt_of_getElem? le there (by simp [closes])
    exact ⟨Nat.add_right_comm i c 1, lt, h.nesting.closes within there closes⟩

/-! ## Statements of a stretch -/

/-- A statement that is found in the stretch is found in both places, and it takes a token, stays in
the stretch and ends inside the same braces. -/
theorem statement_finds {precedence : Precedence} {depth : Nat} {a : Node} (le : i ≤ n)
    (within : inside d i) (found : (statement precedence depth).Finds tokens i a k) :
    (statement precedence depth).Finds tokens' (i + c) a (k + c) ∧ i < k ∧ k ≤ n ∧ inside d k := by
  have alike := (h.correspondence.expressionAndStatement precedence depth).2
  obtain ⟨_, found', ⟨rfl, le', within'⟩, further, -⟩ :=
    (alike.mirrors d).finds ⟨rfl, le, within⟩ found
  exact ⟨found', further, le', within'⟩

end Stretch

end Descent

end ClosureLang
