import ClosureLang.Proofs.Grammar.Stretches

/-!
# Programs one after the other

A program is a series of statements with separators between them, and more separators may stand
before and after it. What the statements are is settled by their own tokens. So two programs with a
separator between them are read as one, and its statements are those of the one and of the other.

It takes three things. First, a program of several statements is a block and a program of one is
that statement, so the statements of a program can be got back only if no statement is a block
itself; no reader finds one (`statement_single`). Second, the statements of a program fill its
tokens up to the end of the input (`Fills`), and what fills them can be said without the reader of
programs: a series of statements and separators from one position to another. Series are joined by a
separator. Third, the statements of each program have to be found in the joint list as well. There
the other program stands behind the first one, where the end of the input was, or in front of the
second one. That is a stretch of tokens in another place, and since no statement goes on behind a
separator and the braces of a program are balanced (`level_of_fills`), what fills the stretch fills
it there, too.
-/

set_option autoImplicit false

namespace ClosureLang

/-- The statements of a program. -/
def Node.statements : Node → List Node
  | .block items => items
  | statement => [statement]

/-- The program is a single statement. -/
def Node.Single (n : Node) : Prop := n.statements = [n]

/-- The statements of a program are those it was made of, if none of them is a block. -/
theorem Grammar.statements_programOf {l : List Node} (single : ∀ n ∈ l, n.Single) :
    (programOf l).statements = l := by
  match l, single with
  | [], _ => rfl
  | [n], single => exact single n List.mem_cons_self
  | _ :: _ :: _, _ => rfl

/-- Two lists of statements that are not empty make a block. -/
theorem Grammar.programOf_append {l l' : List Node} (ne : l ≠ []) (ne' : l' ≠ []) :
    programOf (l ++ l') = .block (l ++ l') := by
  obtain ⟨n, rest, rfl⟩ := List.exists_cons_of_ne_nil ne
  obtain ⟨n', rest', rfl⟩ := List.exists_cons_of_ne_nil ne'
  cases rest <;> rfl

namespace Descent

variable {tokens tokens' : Array Token} {precedence : Precedence} {depth pos mid mid' stop : Nat}
  {e s : Descent Node} {l l' : List Node} {node : Node}

/-! ## No statement is a block -/

/-- A lambda is a single statement. -/
theorem lambda_single : (lambda e s).Gives Node.Single := by
  have withParameters : (lambdaWithParameters e s).Gives Node.Single :=
    .skip fun _ => .skip fun _ => .skip fun _ => .pure rfl
  have withParameter : (lambdaWithParameter e s).Gives Node.Single :=
    .skip fun _ => .skip fun _ => .skip fun _ => .skip fun _ => .skip fun _ => .pure rfl
  have withoutParameters : (lambdaWithoutParameters e s).Gives Node.Single :=
    .skip fun _ => .skip fun _ => .pure rfl
  exact withParameters.orElse (withParameter.orElse withoutParameters)

/-- A tree built of a text is a single statement, if it is no block whatever the text. -/
theorem textNode_single {kind : TokenKind} (build : String → Node)
    (h : ∀ text, (build text).Single) : (textNode kind build).Gives Node.Single :=
  .skip fun _ => .skip fun _ => .skip fun text => .pure (h text)

/-- An invocation or a primary is a single statement. -/
theorem operand_single : (operand e).Gives Node.Single := by
  have invocation : (invocation e).Gives Node.Single :=
    .skip fun _ => .skip fun _ => .skip fun _ => .skip fun _ => .skip fun _ => .skip fun _ =>
      .pure rfl
  have integer : integer.Gives Node.Single :=
    .skip fun _ => .skip fun _ => .skip fun _ => .pure rfl
  have constant {kind : TokenKind} (n : Node) (h : n.Single) :
      (constant kind n).Gives Node.Single := .skip fun _ => .pure h
  exact invocation.orElse <| integer.orElse <| (textNode_single .string fun _ => rfl).orElse <|
    (textNode_single .atom fun _ => rfl).orElse <|
    (textNode_single (.var · none) fun _ => rfl).orElse <|
    (textNode_single .instanceVar fun _ => rfl).orElse <| (constant (.boolean true) rfl).orElse <|
    (constant (.boolean false) rfl).orElse <| constant .nil rfl

/-- A suffix makes a single statement, whatever its receiver. -/
theorem suffix_single {start : Nat} {receiver : Node} :
    (suffix precedence e start receiver).Gives Node.Single := by
  have withArguments : (callWithArguments e start receiver).Gives Node.Single :=
    .skip fun _ => .skip fun _ => .skip fun _ => .skip fun _ => .skip fun _ => .skip fun _ =>
      .pure rfl
  have withoutArguments : (callWithoutArguments start receiver).Gives Node.Single :=
    .skip fun _ => .skip fun _ => .skip fun _ => .skip fun _ => .skip fun _ => .pure rfl
  have attributes : (attributeAccess receiver).Gives Node.Single :=
    .skip fun _ => .skip fun _ => .pure rfl
  have operation : (operation precedence e start receiver).Gives Node.Single := by
    refine .skip fun _ => .skip fun right => .skip fun _ => .pure ?_
    unfold Precedence.reassociate
    split
    · split <;> rfl
    · rfl
  exact withArguments.orElse (withoutArguments.orElse (attributes.orElse operation))

/-- An expression is a single statement. -/
theorem expressionWith_single : (expressionWith precedence e s).Gives Node.Single :=
  lambda_single.orElse <| .skip fun _ => operand_single.bind fun _ single =>
    .asLongAs (fun _ _ => suffix_single) single

/-- A statement is a single one, if expressions are: no part of the language reads a bare block. -/
theorem statementWith_single (he : e.Gives Node.Single) :
    (statementWith e s).Gives Node.Single := by
  have importPath : importStatement.Gives Node.Single :=
    .skip fun _ => .skip fun _ => .skip fun _ => .skip fun _ => .pure rfl
  have classDef : (classStatement s).Gives Node.Single :=
    .skip fun _ => .skip fun _ => .skip fun _ => .skip fun _ => .skip fun _ => .pure rfl
  have definition : (definitionStatement s).Gives Node.Single :=
    .skip fun _ => .skip fun _ => .skip fun _ => .skip fun _ => .skip fun _ => .skip fun _ =>
      .pure rfl
  have has : hasStatement.Gives Node.Single :=
    .skip fun _ => .skip fun _ => .skip fun _ => .skip fun _ => .skip fun _ => .pure rfl
  have guarded {kind : TokenKind} (build : Node → Node → Node)
      (h : ∀ condition body, (build condition body).Single) :
      (guarded kind build e s).Gives Node.Single :=
    .skip fun _ => .skip fun _ => .skip fun _ => .pure (h _ _)
  have assignment : (assignment e).Gives Node.Single := by
    refine .skip fun _ => .skip fun _ => .skip fun _ => .skip fun _ => .accept fun n same => ?_
    unfold Grammar.assignTo at same
    split at same <;> cases same <;> rfl
  have wordAssignment : (wordAssignment e).Gives Node.Single :=
    .skip fun _ => .skip fun _ => .skip fun _ => .skip fun _ => .skip fun _ => .pure rfl
  have step {kind : TokenKind} {direction : Step} :
      (stepStatement kind direction e).Gives Node.Single :=
    .skip fun _ => .skip fun _ => .pure rfl
  exact (textNode_single .comment fun _ => rfl).orElse <| importPath.orElse <| classDef.orElse <|
    definition.orElse <| has.orElse <| (guarded .conditional fun _ _ => rfl).orElse <|
    (guarded .loop fun _ _ => rfl).orElse <| assignment.orElse <| wordAssignment.orElse <|
    step.orElse <| step.orElse he

/-- What is read for a statement is a single statement at every depth. -/
theorem statement_single (precedence : Precedence) (depth : Nat) :
    (statement precedence depth).Gives Node.Single := by
  have both : (expression precedence depth).Gives Node.Single ∧
      (statement precedence depth).Gives Node.Single := by
    induction depth with
    | zero => exact ⟨.nothing, .nothing⟩
    | succ depth ih => exact ⟨expressionWith_single, statementWith_single ih.1⟩
  exact both.2

/-! ## Series of statements -/

/-- Statements with separators between them, from one position to another. -/
inductive Series (s : Descent Node) (tokens : Array Token) (pos : Nat) :
    List Node → Nat → Prop where
  | series {n : Node} {rest : List Node} {mid stop : Nat} : s.Finds tokens pos n mid →
      Several (separator >>= fun _ => s) tokens mid rest stop → Series s tokens pos (n :: rest) stop

/-- A series has a statement. -/
theorem Series.ne_nil (h : Series s tokens pos l stop) : l ≠ [] := by
  obtain ⟨-, -⟩ := h
  exact List.cons_ne_nil _ _

/-- What a reader gives holds of every statement of a series. -/
theorem Series.all {P : Node → Prop} (h : Series s tokens pos l stop) (gives : s.Gives P) :
    ∀ n ∈ l, P n := by
  obtain ⟨first, several⟩ := h
  refine List.forall_mem_cons.mpr ⟨gives _ _ _ _ first, ?_⟩
  clear first
  induction several with
  | none => simp
  | next found _ ih =>
    exact List.forall_mem_cons.mpr ⟨Gives.skip (fun _ => gives) _ _ _ _ found, ih⟩

/-- A separator joins two series. -/
theorem Series.append (h : Series s tokens pos l mid) (marks : MarksTo tokens mid mid')
    (lt : mid < mid') (h' : Series s tokens mid' l' stop) :
    Series s tokens pos (l ++ l') stop := by
  obtain ⟨found, several⟩ := h
  obtain ⟨found', several'⟩ := h'
  obtain ⟨between, first⟩ := finds_separator_iff.mpr ⟨marks, lt⟩
  have next : (separator >>= fun _ => s).Finds tokens mid _ _ :=
    finds_bind_iff.mpr ⟨between, mid', first, found'⟩
  exact .series found (several.append (.next next several'))

/-- A statement takes a token wherever it is found. -/
theorem statement_takes (precedence : Precedence) (depth : Nat) (tokens : Array Token) :
    (statement precedence depth).Takes tokens := by
  intro pos n stop inside found
  obtain ⟨-, further, within, -⟩ :=
    (Stretch.whole tokens).statement_finds (d := 0) inside trivial found
  exact ⟨further, within⟩

/-- A separator and a statement take a token. -/
theorem separated_takes (takes : s.Takes tokens) :
    (separator >>= fun _ => s).Takes tokens := by
  intro pos n stop inside found
  obtain ⟨between, mid, first, rest⟩ := finds_bind_iff.mp found
  obtain ⟨marks, -⟩ := finds_separator_iff.mp ⟨between, first⟩
  obtain ⟨further, within⟩ := takes mid n stop (marks.inside inside) rest
  exact ⟨Nat.lt_of_le_of_lt marks.le further, within⟩

/-- The reader of lists finds a series, up to where no separator with a statement follows. -/
theorem finds_statementList_iff (takes : s.Takes tokens) (inside : pos ≤ tokens.size) :
    (statementList s).Finds tokens pos l stop ↔
      Series s tokens pos l stop ∧ (separator >>= fun _ => s).Misses tokens stop := by
  have further {mid : Nat} {n : Node} {rest : List Node} (found : s.Finds tokens pos n mid) :
      (many (separator >>= fun _ => s)).Finds tokens mid rest stop ↔
        Several (separator >>= fun _ => s) tokens mid rest stop ∧
          (separator >>= fun _ => s).Misses tokens stop :=
    finds_many_iff (separated_takes takes) (takes pos n mid inside found).2
  constructor
  · intro found
    obtain ⟨n, mid, first, found⟩ := finds_bind_iff.mp found
    obtain ⟨rest, _, found, last⟩ := finds_bind_iff.mp found
    obtain ⟨rfl, rfl⟩ := finds_pure_iff.mp last
    obtain ⟨several, missed⟩ := (further first).mp found
    exact ⟨.series first several, missed⟩
  · rintro ⟨⟨first, several⟩, missed⟩
    have found := (further first).mpr ⟨several, missed⟩
    exact finds_bind_iff.mpr
      ⟨_, _, first, finds_bind_iff.mpr ⟨_, _, found, finds_pure_iff.mpr ⟨rfl, rfl⟩⟩⟩

/-- No further statement comes behind the separators at the end. -/
theorem separated_misses {last : Nat} (none : s.Misses tokens last)
    (marks : MarksTo tokens pos last) : (separator >>= fun _ => s).Misses tokens pos := by
  rcases marks.eq_or_lt with rfl | lt
  · exact misses_bind_iff.mpr (.inl (misses_separator_iff.mpr marks))
  · obtain ⟨between, first⟩ := finds_separator_iff.mpr ⟨marks, lt⟩
    exact misses_bind_iff.mpr (.inr ⟨between, last, first, none⟩)

/-- A series and separators around it fill the positions from the one up to the other. -/
def Fills (s : Descent Node) (tokens : Array Token) (start : Nat) (l : List Node) (stop : Nat) :
    Prop :=
  ∃ i k, MarksTo tokens start i ∧ Series s tokens i l k ∧ k ≤ stop ∧
    ∀ m, k ≤ m → m < stop → ∃ t, tokens[m]? = some t ∧ t.kind.isMark = true

/-- There is a statement in positions that are filled. -/
theorem Fills.ne_nil {start : Nat} (h : Fills s tokens start l stop) : l ≠ [] := by
  obtain ⟨_, _, -, series, -⟩ := h
  exact series.ne_nil

/-- What a reader gives holds of every statement in positions that are filled. -/
theorem Fills.all {P : Node → Prop} {start : Nat} (h : Fills s tokens start l stop)
    (gives : s.Gives P) : ∀ n ∈ l, P n := by
  obtain ⟨_, _, -, series, -⟩ := h
  exact series.all gives

/-- A further separator joins what fills two stretches. -/
theorem Fills.append {start : Nat} {t : Token} (h : Fills s tokens start l mid)
    (there : tokens[mid]? = some t) (isMark : t.kind.isMark = true)
    (h' : Fills s tokens (mid + 1) l' stop) : Fills s tokens start (l ++ l') stop := by
  obtain ⟨i, k, leads, series, le, marks⟩ := h
  obtain ⟨i', k', leads', series', rest⟩ := h'
  have further := leads'.le
  have between : MarksTo tokens k i' := by
    refine ⟨by omega, fun m le' lt => ?_, leads'.ends⟩
    rcases Nat.lt_trichotomy m mid with before | rfl | after
    · exact marks m le' before
    · exact ⟨t, there, isMark⟩
    · exact leads'.marks m after lt
  exact ⟨i, k', leads, series.append between (by omega) series', rest⟩

/-- A program is a series of statements that fills the tokens up to the end of the input. -/
theorem finds_program_iff : (program precedence depth).Finds tokens 0 node stop ↔
    ∃ l last t, Fills (statement precedence depth) tokens 0 l last ∧ tokens[last]? = some t ∧
      t.kind = .terminator ∧ stop = last + 1 ∧ node = Grammar.programOf l := by
  have takes := statement_takes precedence depth tokens
  constructor
  · intro found
    obtain ⟨_, i, leading, found⟩ := finds_bind_iff.mp found
    obtain ⟨l, k, statements, found⟩ := finds_bind_iff.mp found
    obtain ⟨_, last, trailing, found⟩ := finds_bind_iff.mp found
    obtain ⟨t, _, found, rest⟩ := finds_bind_iff.mp found
    obtain ⟨there, isKind, rfl⟩ := finds_token_iff.mp found
    obtain ⟨rfl, rfl⟩ := finds_pure_iff.mp rest
    have leads := finds_optional_separator_iff.mp ⟨_, leading⟩
    have trails := finds_optional_separator_iff.mp ⟨_, trailing⟩
    obtain ⟨series, -⟩ :=
      (finds_statementList_iff takes (leads.inside (Nat.zero_le _))).mp statements
    exact ⟨l, last, t, ⟨i, k, leads, series, trails.le, trails.marks⟩, there, isKind, rfl, rfl⟩
  · rintro ⟨l, last, t, ⟨i, k, leads, series, le, marks⟩, there, isKind, rfl, rfl⟩
    have trails : MarksTo tokens k last := by
      refine ⟨le, marks, fun u here => ?_⟩
      cases there.symm.trans here
      simp [isKind, TokenKind.isMark]
    have alike := ((Stretch.whole tokens).correspondence.expressionAndStatement precedence depth).2
    have missed := separated_misses (alike.misses ⟨t, there, .inr isKind⟩) trails
    have statements := (finds_statementList_iff takes (leads.inside (Nat.zero_le _))).mpr
      ⟨series, missed⟩
    obtain ⟨leading, first⟩ := finds_optional_separator_iff.mpr leads
    obtain ⟨trailing, final⟩ := finds_optional_separator_iff.mpr trails
    exact finds_bind_iff.mpr ⟨leading, i, first, finds_bind_iff.mpr ⟨l, k, statements,
      finds_bind_iff.mpr ⟨trailing, last, final, finds_bind_iff.mpr ⟨t, last + 1,
        finds_token_iff.mpr ⟨there, isKind, rfl⟩, finds_pure_iff.mpr ⟨rfl, rfl⟩⟩⟩⟩⟩

/-- A series in a stretch is a series in the other place, too, and its end is inside of the same
braces as its beginning. -/
theorem Stretch.series {inside : Nat → Nat → Prop} {n c d : Nat}
    (h : Stretch tokens tokens' inside n c) (le : pos ≤ n) (within : inside d pos)
    (found : Series (statement precedence depth) tokens pos l stop) :
    Series (statement precedence depth) tokens' (pos + c) l (stop + c) ∧ pos < stop ∧ stop ≤ n ∧
      inside d stop := by
  have further {i k : Nat} {rest : List Node} (le : i ≤ n) (within : inside d i)
      (several : Several (separator >>= fun _ => statement precedence depth) tokens i rest k) :
      Several (separator >>= fun _ => statement precedence depth) tokens' (i + c) rest (k + c) ∧
        i ≤ k ∧ k ≤ n ∧ inside d k := by
    induction several with
    | none => exact ⟨.none, Nat.le_refl _, le, within⟩
    | @next i mid k n rest found several ih =>
      obtain ⟨between, start, first, found⟩ := finds_bind_iff.mp found
      obtain ⟨marks, lt⟩ := finds_separator_iff.mp ⟨between, first⟩
      obtain ⟨found', goesOn, le', within'⟩ := h.statement_finds (h.le_of_marksTo le marks)
        (h.nesting.marksTo within marks) found
      -- a statement follows, so the separator is not at the end of the stretch
      have marks' := h.marksTo le marks fun last => absurd last (by omega)
      obtain ⟨between', first'⟩ := finds_separator_iff.mpr ⟨marks', Nat.add_lt_add_right lt c⟩
      obtain ⟨several', later, rest'⟩ := ih le' within'
      exact ⟨.next (finds_bind_iff.mpr ⟨between', _, first', found'⟩) several', by omega, rest'⟩
  obtain ⟨first, several⟩ := found
  obtain ⟨first', goesOn, le', within'⟩ := h.statement_finds le within first
  obtain ⟨several', later, rest⟩ := further le' within' several
  exact ⟨.series first' several', Nat.lt_of_lt_of_le goesOn later, rest⟩

/-- What fills a stretch fills it in the other place, too. -/
theorem Stretch.fills {inside : Nat → Nat → Prop} {n c d : Nat}
    (h : Stretch tokens tokens' inside n c) (within : inside d 0)
    (found : Fills (statement precedence depth) tokens 0 l n) :
    Fills (statement precedence depth) tokens' c l (n + c) ∧ inside d n := by
  obtain ⟨i, k, leads, series, le, marks⟩ := found
  obtain ⟨series', lt, -, within'⟩ := h.series (h.le_of_marksTo (Nat.zero_le n) leads)
    (h.nesting.marksTo within leads) series
  have leads' := h.marksTo (Nat.zero_le n) leads fun last => absurd last (by omega)
  rw [Nat.zero_add] at leads'
  refine ⟨⟨i + c, k + c, leads', series', Nat.add_le_add_right le c, fun m le' lt' => ?_⟩,
    h.nesting.marks within' le marks⟩
  obtain ⟨m, rfl⟩ := Nat.exists_eq_add_of_le' (Nat.le_trans (Nat.le_add_left c k) le')
  obtain ⟨t, there, isMark⟩ := marks m (by omega) (by omega)
  exact ⟨t, (h.same (by omega)).symm.trans there, isMark⟩

end Descent

/-! ## Composition -/

open Descent

/-- A token list is read to the program of the statements that fill it, if the input ends then. -/
theorem parse_concat_ok_iff {precedence : Precedence} {tokens : List Token} {last : Token}
    {node : Node} {depth : Nat} (deep : 2 * (tokens ++ [last]).length + 2 ≤ depth) :
    parse precedence (tokens ++ [last]) = .ok node ↔
      ∃ l, Fills (statement precedence depth) (tokens ++ [last]).toArray 0 l tokens.length ∧
        last.kind = .terminator ∧ node = Grammar.programOf l := by
  have there : (tokens ++ [last]).toArray[tokens.length]? = some last := by simp
  rw [parse_ok_iff_finds_of_deep deep, finds_program_iff]
  constructor
  · rintro ⟨l, stop, t, fills, isLast, isKind, whole, rfl⟩
    have reached : stop = tokens.length := by simpa using whole.symm
    subst reached
    cases there.symm.trans isLast
    exact ⟨l, fills, isKind, rfl⟩
  · rintro ⟨l, fills, isKind, rfl⟩
    exact ⟨l, tokens.length, last, fills, there, isKind, by simp, rfl⟩

/-- In a program, the braces are balanced. -/
theorem level_of_fills {precedence : Precedence} {tokens : List Token} {last : Token}
    {depth : Nat} {l : List Node} (isLast : last.kind = .terminator)
    (fills : Fills (statement precedence depth) (tokens ++ [last]).toArray 0 l tokens.length) :
    level (tokens ++ [last]).toArray tokens.length = (0 : Nat) := by
  have itself := Stretch.of_append [] tokens [last] nesting_level isLast fun t there => .inl <| by
    cases there
    exact isLast
  exact (itself.fills rfl fills).2

/-- Two token lists that statements fill, each up to its end, are filled by both lists of statements
when they stand one after the other with a separator in place of the first end. -/
theorem fills_append {precedence : Precedence} {a b : List Token} {first second mark last : Token}
    {depth : Nat} {l l' : List Node} (isFirst : first.kind = .terminator)
    (fills : Fills (statement precedence depth) (a ++ [first]).toArray 0 l a.length)
    (isSecond : second.kind = .terminator)
    (fills' : Fills (statement precedence depth) (b ++ [second]).toArray 0 l' b.length)
    (isMark : mark.kind.isMark = true) (isLast : last.kind = .terminator) :
    Fills (statement precedence depth) (a ++ [mark] ++ b ++ [last]).toArray 0 (l ++ l')
      (a ++ [mark] ++ b).length := by
  have left : Stretch (a ++ [first]).toArray (a ++ [mark] ++ b ++ [last]).toArray
      (fun d i => level (a ++ [first]).toArray i = d) a.length 0 := by
    have stretch := Stretch.of_append [] a (mark :: (b ++ [last])) nesting_level isFirst
      fun t there => .inr <| by
        cases there
        refine ⟨isMark, fun d nested => ?_⟩
        -- the separator is not inside of any braces
        rw [level_of_fills isFirst fills] at nested
        omega
    simpa using stretch
  have right : Stretch (b ++ [second]).toArray (a ++ [mark] ++ b ++ [last]).toArray
      (fun _ _ => True) b.length (a.length + 1) := by
    have stretch := Stretch.of_append (a ++ [mark]) b [last] nesting_anywhere isSecond
      fun t there => .inl <| by
        cases there
        exact isLast
    simpa using stretch
  have there : (a ++ [mark] ++ b ++ [last]).toArray[a.length]? = some mark := by simp
  have both := (left.fills rfl fills).1.append there isMark (right.fills (d := 0) trivial fills').1
  have reached : (a ++ [mark] ++ b).length = b.length + (a.length + 1) := by simp; omega
  rwa [reached]

/-- Two programs with a semicolon or a line end between them are one program. -/
theorem parse_append {precedence : Precedence} {a b : List Token} {first second mark last : Token}
    {m n : Node} (readFirst : parse precedence (a ++ [first]) = .ok m)
    (readSecond : parse precedence (b ++ [second]) = .ok n)
    (isMark : mark.kind = .semicolon ∨ mark.kind = .newline) (isLast : last.kind = .terminator) :
    parse precedence (a ++ [mark] ++ b ++ [last]) =
      .ok (.block (m.statements ++ n.statements)) := by
  obtain ⟨depth, deep⟩ : ∃ depth, 2 * (a ++ [mark] ++ b ++ [last]).length + 2 ≤ depth :=
    ⟨_, Nat.le_refl _⟩
  have shorter {tokens : List Token} (le : tokens.length ≤ a.length + b.length + 2) :
      2 * tokens.length + 2 ≤ depth := by
    simp only [List.length_append, List.length_singleton] at deep
    omega
  obtain ⟨l, fills, isFirst, rfl⟩ :=
    (parse_concat_ok_iff (shorter (by simp; omega))).mp readFirst
  obtain ⟨l', fills', isSecond, rfl⟩ :=
    (parse_concat_ok_iff (shorter (by simp; omega))).mp readSecond
  have separates : mark.kind.isMark = true := by
    rcases isMark with isMark | isMark <;> simp [isMark, TokenKind.isMark]
  have both := fills_append isFirst fills isSecond fills' separates isLast
  refine (parse_concat_ok_iff deep).mpr ⟨l ++ l', both, isLast, ?_⟩
  rw [Grammar.statements_programOf (fills.all (statement_single precedence depth)),
    Grammar.statements_programOf (fills'.all (statement_single precedence depth)),
    Grammar.programOf_append fills.ne_nil fills'.ne_nil]

/-- `x = 1; => { y }` and `z` on the next line, after an empty one. -/
theorem parse_twoLines :
    let word (text : String) : Token := ⟨.word, .text text, ⟨0, 0⟩⟩
    let mark (kind : TokenKind) : Token := ⟨kind, .none, ⟨0, 0⟩⟩
    let one : List Token := [word "x", mark .equal, ⟨.integer, .number 1, ⟨0, 0⟩⟩, mark .semicolon,
      mark .arrow, mark .openBrace, word "y", mark .closeBrace]
    let two : List Token := [mark .newline, word "z"]
    let first : Node := .assign "x" (.integer 1) none
    let second : Node := .lambda [] (.block [.var "y" none]) none
    let third : Node := .var "z" none
    parse .default (one ++ [mark .terminator]) = .ok (.block [first, second]) ∧
      parse .default (two ++ [mark .terminator]) = .ok third ∧
      parse .default (one ++ [mark .newline] ++ two ++ [mark .terminator]) =
        .ok (.block [first, second, third]) := by
  intro word mark one two first second third
  have readOne : parse .default (one ++ [mark .terminator]) = .ok (.block [first, second]) :=
    Grammar.parse_ok_iff.mpr rfl
  have readTwo : parse .default (two ++ [mark .terminator]) = .ok third :=
    Grammar.parse_ok_iff.mpr rfl
  exact ⟨readOne, readTwo, parse_append readOne readTwo (.inr rfl) rfl⟩

end ClosureLang
