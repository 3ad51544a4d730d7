import ClosureLang.Proofs.Grammar.Correspondence
import Mathlib.Logic.Relation

/-!
# Separators carry no other meaning

Which semicolons and line ends separate two statements makes no difference to what is read, nor how
many there are as long as there is one. At the beginning of the input, after an opening brace,
before a closing brace and at the end of the input it does not even matter whether there are any.

When a stretch of separators is put in the place of another, the tokens around it are kept, and a
kept token on the one side corresponds to the same token on the other. Where the stretch itself
begins, no statement goes on, and the separators end at the same kept token on both sides.

So the two lists correspond in the sense of `Correspondence`, and that is all that has to be shown
here: what the readers do at corresponding positions is known. The three relations are all made of
kept positions (`Kept`) and of the one pair of positions at which the stretch begins. An empty
stretch needs some care. It is allowed at the four places only, where a body or the input begins or
ends. At the end, the place of the stretch still counts as one where a part may begin, since with
the stretch or without it none does (`stops`, `closes_of_marks`). At the beginning it does not
count, since a statement may begin there once the stretch is gone. The relation is symmetric, so one
direction is enough.
-/

set_option autoImplicit false

namespace ClosureLang

/-- A closing brace or the end of the input comes first. -/
def ClosesFirst (after : List Token) : Prop :=
  ∃ t, after[0]? = some t ∧ (t.kind = .closeBrace ∨ t.kind = .terminator)

/-- Between `before` and `after`, the semicolons and line ends `run'` may stand in the place of
`run`. One of them is empty only where no separator is needed. -/
structure Respacing (before run run' after : List Token) : Prop where
  marks : ∀ t ∈ run, t.kind.isMark = true
  marks' : ∀ t ∈ run', t.kind.isMark = true
  place : run ≠ [] ∧ run' ≠ [] ∨ before = [] ∨
    (∃ t, before.getLast? = some t ∧ t.kind = .openBrace) ∨ ClosesFirst after

/-- The second token list is the first with other separators in one place. -/
inductive Respaced : List Token → List Token → Prop where
  | respaced (before run run' after : List Token) : Respacing before run run' after →
      Respaced (before ++ run ++ after) (before ++ run' ++ after)

namespace Respacing

open Descent

variable {before run run' after : List Token} {i j k l m : Nat} {t : Token}

/-- Either run of separators may stand in the place of the other. -/
theorem symm (h : Respacing before run run' after) : Respacing before run' run after :=
  ⟨h.marks', h.marks, h.place.imp_left And.symm⟩

/-! ## The tokens in each place -/

/-- The tokens before the separators are where they were. -/
theorem before_getElem? (lt : i < before.length) :
    (before ++ run ++ after).toArray[i]? = before[i]? := by
  rw [List.getElem?_toArray, List.append_assoc, List.getElem?_append_left lt]

/-- The separators come next. -/
theorem run_getElem? (lt : m < run.length) :
    (before ++ run ++ after).toArray[before.length + m]? = run[m]? := by
  rw [List.getElem?_toArray, List.append_assoc, List.getElem?_append_right (by omega),
    Nat.add_sub_cancel_left, List.getElem?_append_left lt]

/-- The tokens after the separators are shifted by how many separators there are. -/
theorem after_getElem? :
    (before ++ run ++ after).toArray[before.length + run.length + m]? = after[m]? := by
  rw [List.getElem?_toArray, List.getElem?_append_right (by simp), List.length_append,
    Nat.add_sub_cancel_left]

/-! ## Kept tokens -/

/-- The same token of what stands before or after is at the two positions, or both are the end. -/
def Kept (before run run' after : List Token) (i j : Nat) : Prop :=
  (i = j ∧ i < before.length) ∨ ∃ m, m ≤ after.length ∧ i = before.length + run.length + m ∧
    j = before.length + run'.length + m

namespace Kept

/-- Kept tokens are kept in both directions. -/
theorem symm (h : Kept before run run' after i j) : Kept before run' run after j i := by
  rcases h with ⟨rfl, lt⟩ | ⟨m, inside, first, second⟩
  · exact .inl ⟨rfl, lt⟩
  · exact .inr ⟨m, inside, second, first⟩

/-- At kept positions the two lists hold the same token. -/
theorem same (h : Kept before run run' after i j) :
    (before ++ run ++ after).toArray[i]? = (before ++ run' ++ after).toArray[j]? := by
  rcases h with ⟨rfl, lt⟩ | ⟨m, -, rfl, rfl⟩
  · rw [before_getElem? lt, before_getElem? lt]
  · rw [after_getElem?, after_getElem?]

/-- A kept position is inside its list. -/
theorem inside (h : Kept before run run' after i j) : i ≤ (before ++ run ++ after).length := by
  simp only [List.length_append]
  rcases h with ⟨-, lt⟩ | ⟨m, inside, rfl, -⟩ <;> omega

/-- Kept positions are in the same order on both sides. -/
theorem lt_iff (h : Kept before run run' after i j) (h' : Kept before run run' after k l) :
    i < k ↔ j < l := by
  rcases h with ⟨rfl, lt⟩ | ⟨m, -, rfl, rfl⟩ <;> rcases h' with ⟨rfl, lt'⟩ | ⟨m', -, rfl, rfl⟩ <;>
    omega

/-- A kept position is past the tokens before the separators on both sides or on none. -/
theorem beyond_iff (h : Kept before run run' after i j) :
    before.length ≤ i ↔ before.length ≤ j := by
  rcases h with ⟨rfl, -⟩ | ⟨m, -, rfl, rfl⟩ <;> omega

/-- After a kept token comes a kept token, or the separators begin. -/
theorem succ (h : Kept before run run' after i j)
    (there : (before ++ run ++ after).toArray[i]? = some t) :
    Kept before run run' after (i + 1) (j + 1) ∨
      (i + 1 = before.length ∧ j + 1 = before.length) ∧ before.getLast? = some t := by
  rcases h with ⟨rfl, lt⟩ | ⟨m, -, rfl, rfl⟩
  · rw [before_getElem? lt] at there
    rcases Nat.lt_or_eq_of_le (Nat.succ_le_of_lt lt) with lt' | last
    · exact .inl (.inl ⟨rfl, lt'⟩)
    · refine .inr ⟨⟨last, last⟩, ?_⟩
      rw [← there, List.getLast?_eq_getElem?, ← last, Nat.succ_sub_one]
  · rw [after_getElem?] at there
    exact .inl (.inr ⟨m + 1, (List.getElem?_eq_some_iff.mp there).1, rfl, rfl⟩)

/-- Every position is one of a separator in question or that of a kept token. -/
theorem of_le (run' : List Token) (inside : k ≤ (before ++ run ++ after).length) :
    (∃ t ∈ run, (before ++ run ++ after).toArray[k]? = some t) ∨
      ∃ l, Kept before run run' after k l := by
  simp only [List.length_append] at inside
  rcases Nat.lt_or_ge k before.length with lt | ge
  · exact .inr ⟨k, .inl ⟨rfl, lt⟩⟩
  · obtain ⟨m, rfl⟩ := Nat.exists_eq_add_of_le ge
    rcases Nat.lt_or_ge m run.length with lt | ge
    · exact .inl ⟨run[m], List.getElem_mem lt, by
        rw [run_getElem? lt, List.getElem?_eq_getElem lt]⟩
    · obtain ⟨m, rfl⟩ := Nat.exists_eq_add_of_le ge
      exact .inr ⟨before.length + run'.length + m, .inr ⟨m, by omega, by omega, rfl⟩⟩

end Kept

/-! ## The correspondence -/

/-- Where parts may begin or go on: at kept tokens, and where the separators begin, if they do not
stand where a body or the input begins. -/
def Inner (before run run' after : List Token) (i j : Nat) : Prop :=
  Kept before run run' after i j ∨
    (i = before.length ∧ j = before.length) ∧ (run ≠ [] ∧ run' ≠ [] ∨ ClosesFirst after)

/-- Where parts may begin on the one side they may begin on the other. -/
theorem Inner.symm (h : Inner before run run' after i j) : Inner before run' run after j i :=
  h.imp Kept.symm fun ⟨⟨first, second⟩, bound⟩ => ⟨⟨second, first⟩, bound.imp_left And.symm⟩

/-- A position where parts may begin is inside its list. -/
theorem Inner.inside (h : Inner before run run' after i j) :
    i ≤ (before ++ run ++ after).length := by
  rcases h with kept | ⟨⟨rfl, -⟩, -⟩
  · exact kept.inside
  · simp

/-- The one token list ends where the other one does. -/
theorem Inner.ends (h : Inner before run run' after i j)
    (last : i = (before ++ run ++ after).length) : j = (before ++ run' ++ after).length := by
  simp only [List.length_append] at last ⊢
  rcases h with (⟨rfl, lt⟩ | ⟨m, -, rfl, rfl⟩) | ⟨⟨rfl, rfl⟩, ⟨ne, -⟩ | ⟨t, first, -⟩⟩
  · omega
  · omega
  · have := List.length_pos_iff.mpr ne
    omega
  · have := (List.getElem?_eq_some_iff.mp first).1
    omega

variable (h : Respacing before run run' after)

include h

/-- A run that is not empty begins with a separator. -/
theorem begins (ne : run ≠ []) :
    ∃ t, (before ++ run ++ after).toArray[before.length]? = some t ∧ t.kind.isMark = true := by
  have pos := List.length_pos_iff.mpr ne
  exact ⟨run[0], (run_getElem? (m := 0) pos).trans (List.getElem?_eq_getElem pos),
    h.marks _ (List.getElem_mem pos)⟩

/-- No statement goes on where the separators begin. -/
theorem stops (bound : run ≠ [] ∨ ClosesFirst after)
    (there : (before ++ run ++ after).toArray[before.length]? = some t) :
    t.kind.isInner = false ∧ t.kind ≠ .openBrace := by
  rcases eq_or_ne run [] with rfl | ne
  · obtain ⟨u, first, isKind⟩ := bound.resolve_left fun ne => ne rfl
    have here : (before ++ [] ++ after).toArray[before.length]? = after[0]? :=
      after_getElem? (m := 0)
    cases there.symm.trans (here.trans first)
    rcases isKind with isKind | isKind <;> simp [isKind, TokenKind.isInner]
  · obtain ⟨u, here, isMark⟩ := h.begins ne
    cases there.symm.trans here
    revert isMark
    cases t.kind <;> simp [TokenKind.isMark, TokenKind.isInner]

/-- After a kept token that does not open a body, reading goes on at corresponding positions. -/
theorem next (kept : Kept before run run' after i j)
    (there : (before ++ run ++ after).toArray[i]? = some t) (plain : t.kind ≠ .openBrace) :
    Inner before run run' after (i + 1) (j + 1) := by
  rcases kept.succ there with kept' | ⟨reached, isLast⟩
  · exact .inl kept'
  · refine .inr ⟨reached, ?_⟩
    rcases h.place with both | empty | ⟨u, isLast', opens⟩ | closes
    · exact .inl both
    · simp [empty] at isLast
    · cases isLast.symm.trans isLast'
      exact absurd opens plain
    · exact .inr closes

/-- Separators end at the same kept token. -/
theorem clears (start : Kept before run run' after i j ∨ i = before.length ∧ j = before.length)
    (marksTo : MarksTo (before ++ run ++ after).toArray i k) :
    ∃ l, MarksTo (before ++ run' ++ after).toArray j l ∧ Kept before run run' after k l := by
  have within : i ≤ (before ++ run ++ after).toArray.size := by
    rcases start with kept | ⟨rfl, -⟩
    · exact kept.inside
    · simp
  rcases Kept.of_le run' (marksTo.inside within) with ⟨t, mem, there⟩ | ⟨l, kept⟩
  · cases (h.marks t mem).symm.trans (marksTo.ends t there)
  refine ⟨l, ⟨?le, fun q le lt => ?marks, fun t there => marksTo.ends t (kept.same ▸ there)⟩, kept⟩
  case le =>
    rcases start with first | ⟨rfl, rfl⟩
    · exact Nat.le_of_not_lt fun lt => Nat.not_lt_of_le marksTo.le ((kept.lt_iff first).mpr lt)
    · exact kept.beyond_iff.mp marksTo.le
  case marks =>
    rcases Kept.of_le run (Nat.le_of_lt (Nat.lt_of_lt_of_le lt kept.symm.inside)) with
      ⟨t, mem, there⟩ | ⟨p, kept'⟩
    · exact ⟨t, there, h.marks' t mem⟩
    · have later : i ≤ p := by
        rcases start with first | ⟨rfl, rfl⟩
        · exact Nat.le_of_not_lt fun lt => Nat.not_lt_of_le le ((kept'.lt_iff first.symm).mpr lt)
        · exact kept'.beyond_iff.mp le
      obtain ⟨t, there, isMark⟩ := marksTo.marks p later ((kept'.lt_iff kept.symm).mp lt)
      exact ⟨t, kept'.same.trans there, isMark⟩

/-- The separators from the beginning of such a run on end past it. -/
theorem lt_of_marks (ne : run ≠ [])
    (marksTo : MarksTo (before ++ run ++ after).toArray before.length k) : before.length < k := by
  obtain ⟨t, there, isMark⟩ := h.begins ne
  refine marksTo.eq_or_lt.resolve_left fun stays => ?_
  cases isMark.symm.trans (marksTo.ends t (stays ▸ there))

/-- If a closing brace or the end comes after the run, the separators end at it. -/
theorem closes_of_marks (closes : ClosesFirst after)
    (marksTo : MarksTo (before ++ run ++ after).toArray before.length k) :
    Closes (before ++ run ++ after).toArray k := by
  obtain ⟨t, first, isKind⟩ := closes
  have here : (before ++ run ++ after).toArray[before.length + run.length]? = some t :=
    (after_getElem? (m := 0)).trans first
  have passed : MarksTo (before ++ run ++ after).toArray before.length
      (before.length + run.length) := by
    refine ⟨Nat.le_add_right _ _, fun p le lt => ?_, fun u there => ?_⟩
    · obtain ⟨m, rfl⟩ := Nat.exists_eq_add_of_le le
      have within : m < run.length := Nat.lt_of_add_lt_add_left lt
      exact ⟨run[m], (run_getElem? within).trans (List.getElem?_eq_getElem within),
        h.marks _ (List.getElem_mem within)⟩
    · cases here.symm.trans there
      rcases isKind with isKind | isKind <;> simp [isKind, TokenKind.isMark]
  cases marksTo.unique passed
  exact ⟨t, here, isKind⟩

/-- From positions where parts may begin, separators are read on both sides or on none, unless they
end at a closing brace or at the end on both. -/
theorem separates (inner : Inner before run run' after i j)
    (marksTo : MarksTo (before ++ run ++ after).toArray i k)
    (marksTo' : MarksTo (before ++ run' ++ after).toArray j l) :
    (i < k ↔ j < l) ∨
      Closes (before ++ run ++ after).toArray k ∧ Closes (before ++ run' ++ after).toArray l := by
  rcases inner with first | ⟨⟨rfl, rfl⟩, ⟨ne, ne'⟩ | closes⟩
  · obtain ⟨l', marksTo'', kept⟩ := h.clears (.inl first) marksTo
    cases marksTo'.unique marksTo''
    exact .inl (first.lt_iff kept)
  · exact .inl (iff_of_true (h.lt_of_marks ne marksTo) (h.symm.lt_of_marks ne' marksTo'))
  · exact .inr ⟨h.closes_of_marks closes marksTo, h.symm.closes_of_marks closes marksTo'⟩

/-- Two lists that differ in one run of separators correspond, with the kept positions in every
brace. -/
theorem correspondence :
    Correspondence (before ++ run ++ after).toArray (before ++ run' ++ after).toArray
      (fun _ => Inner before run run' after)
      (fun _ i j => Kept before run run' after i j ∨ i = before.length ∧ j = before.length)
      (fun _ => Kept before run run' after) where
  inside related := ⟨related.inside, related.symm.inside⟩
  same {_ i j t} related plain := by
    rcases related with kept | ⟨⟨rfl, rfl⟩, bound⟩
    · rw [kept.same]
    · have neither {run run' : List Token} (h : Respacing before run run' after)
          (bound : run ≠ [] ∨ ClosesFirst after) :
          (before ++ run ++ after).toArray[before.length]? ≠ some t := fun there => by
        obtain ⟨notInner, notOpen⟩ := h.stops bound there
        simp [notInner, notOpen] at plain
      exact iff_of_false (neither h (bound.imp_left And.left))
        (neither h.symm (bound.imp_left And.right))
  next related there plain := by
    rcases related with kept | ⟨⟨rfl, rfl⟩, bound⟩
    · exact h.next kept there fun opens => by simp [opens, TokenKind.isInner] at plain
    · cases plain.symm.trans (h.stops (bound.imp_left And.left) there).1
  opens related there opens := by
    rcases related with kept | ⟨⟨rfl, rfl⟩, bound⟩
    · exact (kept.succ there).imp_right And.left
    · exact absurd opens (h.stops (bound.imp_left And.left) there).2
  clears start marksTo := h.clears (start.elim (Or.imp_right And.left) id) marksTo
  separates := h.separates
  settles := .inl
  sameClose kept _ := by rw [kept.same]
  closes kept there closes := h.next kept there fun opens => by cases closes.symm.trans opens

/-! ## Programs -/

/-- Programs are read alike on both lists, and to the end of the one if to the end of the other. -/
theorem program_mirrors (precedence : Precedence) (depth : Nat) :
    Mirrors (before ++ run ++ after).toArray (before ++ run' ++ after).toArray 0
      (fun i j => i = 0 ∧ j = 0)
      (fun i j => i = (before ++ run ++ after).length → j = (before ++ run' ++ after).length)
      (program precedence depth) (program precedence depth) := by
  have c := h.correspondence
  have statements := c.statementList (d := 0) (c.expressionAndStatement precedence depth).2
  have terminator : Mirrors (before ++ run ++ after).toArray (before ++ run' ++ after).toArray 1
      (Kept before run run' after)
      (fun i j => i = (before ++ run ++ after).length → j = (before ++ run' ++ after).length)
      (token .terminator) (token .terminator) :=
    .token (fun _ _ _ kept _ => by rw [kept.same]) fun _ _ _ kept there isKind =>
      (h.next kept there fun opens => by cases opens.symm.trans isKind).ends
  refine c.optionalSeparator (d := 0) (n := 1) (fun i j start => .inr ?_) <|
    (statements.restrict fun _ _ => .inl).bind fun _ =>
    c.optionalSeparator (d := 0) (fun _ _ => .inl) <| terminator.bind fun _ => .pure
  obtain ⟨rfl, rfl⟩ := start
  rcases Nat.eq_zero_or_pos before.length with empty | pos
  · exact .inr ⟨empty.symm, empty.symm⟩
  · exact .inl (.inl ⟨rfl, pos⟩)

/-- What can be read with the one run is read to the same tree with the other. -/
theorem parse_ok {precedence : Precedence} {program : Node}
    (read : parse precedence (before ++ run ++ after) = .ok program) :
    parse precedence (before ++ run' ++ after) = .ok program := by
  obtain ⟨depth, enough⟩ : ∃ depth, depth = 2 * (before ++ run ++ after).length +
    2 * (before ++ run' ++ after).length + 2 := ⟨_, rfl⟩
  have deep : 2 * (before ++ run ++ after).length + 2 ≤ depth := by omega
  have deep' : 2 * (before ++ run' ++ after).length + 2 ≤ depth := by omega
  obtain ⟨stop, found, whole, -⟩ := (h.program_mirrors precedence depth).finds ⟨rfl, rfl⟩
    ((parse_ok_iff_finds_of_deep deep).mp read)
  rw [whole rfl] at found
  exact (parse_ok_iff_finds_of_deep deep').mpr found

end Respacing

/-- However many stretches of separators are put in the place of others, the same is read. -/
theorem parse_ok_iff_of_respaced {precedence : Precedence} {tokens tokens' : List Token}
    (h : Relation.ReflTransGen Respaced tokens tokens') (program : Node) :
    parse precedence tokens = .ok program ↔ parse precedence tokens' = .ok program := by
  induction h with
  | refl => rfl
  | tail _ step ih =>
    obtain ⟨_, _, _, _, respacing⟩ := step
    exact ih.trans ⟨respacing.parse_ok, respacing.symm.parse_ok⟩

/-- `=> { x; y }` is read in the same way over several lines. -/
theorem lambda_respaced :
    let mark (kind : TokenKind) : Token := ⟨kind, .none, ⟨0, 0⟩⟩
    let x : Token := ⟨.word, .text "x", ⟨0, 0⟩⟩
    let y : Token := ⟨.word, .text "y", ⟨0, 0⟩⟩
    let tokens : List Token := [mark .arrow, mark .openBrace, x, mark .semicolon, y,
      mark .closeBrace, mark .terminator]
    let lines : List Token := [mark .newline, mark .arrow, mark .openBrace, mark .newline, x,
      mark .newline, mark .newline, y, mark .semicolon, mark .newline, mark .closeBrace,
      mark .newline, mark .terminator]
    let program : Node := .lambda [] (.block [.var "x" none, .var "y" none]) none
    Relation.ReflTransGen Respaced tokens lines ∧ parse .default tokens = .ok program ∧
      parse .default lines = .ok program := by
  intro mark x y tokens lines program
  have chain : Relation.ReflTransGen Respaced tokens lines := by
    refine .head (.respaced [] [] [mark .newline] tokens ⟨by simp, by decide, .inr (.inl rfl)⟩) ?_
    refine .head (.respaced [mark .newline, mark .arrow, mark .openBrace] [] [mark .newline]
      [x, mark .semicolon, y, mark .closeBrace, mark .terminator] ⟨by simp, by decide,
        .inr (.inr (.inl ⟨_, rfl, rfl⟩))⟩) ?_
    refine .head (.respaced [mark .newline, mark .arrow, mark .openBrace, mark .newline, x]
      [mark .semicolon] [mark .newline, mark .newline]
      [y, mark .closeBrace, mark .terminator] ⟨by decide, by decide, .inl (by decide)⟩) ?_
    refine .head (.respaced [mark .newline, mark .arrow, mark .openBrace, mark .newline, x,
        mark .newline, mark .newline, y] [] [mark .semicolon, mark .newline]
      [mark .closeBrace, mark .terminator] ⟨by simp, by decide,
        .inr (.inr (.inr ⟨_, rfl, .inl rfl⟩))⟩) ?_
    exact .single (.respaced [mark .newline, mark .arrow, mark .openBrace, mark .newline, x,
        mark .newline, mark .newline, y, mark .semicolon, mark .newline, mark .closeBrace] []
      [mark .newline] [mark .terminator] ⟨by simp, by decide,
        .inr (.inr (.inr ⟨_, rfl, .inr rfl⟩))⟩)
  have read : parse .default tokens = .ok program := Grammar.parse_ok_iff.mpr rfl
  exact ⟨chain, read, (parse_ok_iff_of_respaced chain program).mp read⟩

end ClosureLang
