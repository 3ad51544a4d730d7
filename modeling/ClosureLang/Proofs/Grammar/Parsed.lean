import ClosureLang.Proofs.Compile.Values
import ClosureLang.Proofs.Grammar.Reading

/-!
# What parsed trees look like

What is known of the trees that are read for the parts of the language is known of every tree that a
token list is read to: reading is recursive descent, and a reader puts a tree together from what it
found for its parts. `Gives` says of a reader that whatever it finds has a property, wherever and in
whichever list it is. Its rules follow the ways in which readers are put together, so a property of
parsed trees takes one short lemma for each part of the language.

The fact that is needed of parsed trees here is that their operands leave values. Comments and steps
are statements, and no expression is one; statements stand in blocks, where nothing uses the value
that one of them leaves. A rotation of operators puts operands together anew, but they are the same
operands.

The property is carried for expressions and statements together, by induction on the depth:
expressions are operands, and statements only have operands where operands are needed.
-/

set_option autoImplicit false

namespace ClosureLang

/-- Reading is recursive descent, and it fails as the descent fails, however deep that may go. -/
theorem Grammar.parse_eq_of_deep {precedence : Precedence} {tokens : List Token} {depth : Nat}
    (deep : 2 * tokens.length + 2 ≤ depth) :
    parse precedence tokens = (descend precedence depth tokens).mapError .failed := by
  unfold parse Grammar.new
  rw [Grammar.ruleSet_eq]
  exact (Grammar.readAll_program deep _).resolve_left (Grammar.read_ne_outOfFuel precedence tokens)

/-- A program is read by the grammar exactly if recursive descent reads it, at any depth that covers
the tokens. -/
theorem Grammar.parse_ok_iff_of_deep {precedence : Precedence} {tokens : List Token}
    {program : Node} {depth : Nat} (deep : 2 * tokens.length + 2 ≤ depth) :
    parse precedence tokens = .ok program ↔ descend precedence depth tokens = .ok program := by
  rw [Grammar.parse_eq_of_deep deep]
  cases descend precedence depth tokens <;> simp [Except.mapError]

/-- A program is read by the grammar exactly if recursive descent reads it at the depth that covers
the tokens. -/
theorem Grammar.parse_ok_iff {precedence : Precedence} {tokens : List Token} {program : Node} :
    parse precedence tokens = .ok program ↔
      descend precedence (2 * tokens.length + 2) tokens = .ok program :=
  Grammar.parse_ok_iff_of_deep (Nat.le_refl _)

namespace Descent

variable {α β : Type}

/-- Whatever the reader finds has the property. -/
def Gives (p : Descent α) (P : α → Prop) : Prop :=
  ∀ tokens pos a stop, (p tokens pos).result = .ok (some (a, stop)) → P a

namespace Gives

variable {p q : Descent α} {P Q : α → Prop} {R : β → Prop}

/-- Whatever has the property has a weaker one. -/
theorem mono (h : p.Gives P) (imp : ∀ a, P a → Q a) : p.Gives Q :=
  fun tokens pos a stop found => imp a (h tokens pos a stop found)

/-- Of a reader in general nothing is known. -/
theorem any (p : Descent α) : p.Gives fun _ => True := fun _ _ _ _ _ => trivial

/-- A reader that finds nothing gives what one likes. -/
theorem nothing : Descent.Gives (fun _ _ => Pure.pure none : Descent α) P := by
  intro tokens pos a stop found
  cases found

/-- A reader that takes nothing gives its value. -/
theorem pure {a : α} (h : P a) : (Pure.pure a : Descent α).Gives P := by
  intro tokens pos b stop found
  cases found
  exact h

/-- What the first reader gives may be used for what the rest gives. -/
theorem bind {f : α → Descent β} (h : p.Gives P) (h' : ∀ a, P a → (f a).Gives R) :
    (p >>= f).Gives R := by
  intro tokens pos b stop found
  rw [bind_run] at found
  cases first : (p tokens pos).result with
  | error e =>
    rw [Attempt.bind_of_error first] at found
    cases found
  | ok r =>
    rw [Attempt.bind_of_ok first] at found
    rcases r with _ | ⟨a, mid⟩
    · cases found
    · exact h' a (h tokens pos a mid first) tokens mid b stop found

/-- A part of which nothing has to be known. -/
theorem skip {f : α → Descent β} (h : ∀ a, (f a).Gives R) : (p >>= f).Gives R :=
  (any p).bind fun a _ => h a

/-- Both alternatives have to give the property. -/
theorem orElse (h : p.Gives P) (h' : q.Gives P) : (p <|> q).Gives P := by
  intro tokens pos a stop found
  rw [orElse_run] at found
  cases first : (p tokens pos).result with
  | error e =>
    rw [Attempt.bind_of_error first] at found
    cases found
  | ok r =>
    rw [Attempt.bind_of_ok first] at found
    rcases r with _ | ⟨b, mid⟩
    · exact h' tokens pos a stop found
    · cases found
      exact h tokens pos a stop first

/-- What was computed has the property, if it does whenever the computation succeeds. -/
theorem accept {start : Nat} {computed : Except ActionError α} (h : ∀ a, computed = .ok a → P a) :
    (accept start computed).Gives P := by
  intro tokens pos a stop found
  cases computed with
  | ok b =>
    cases found
    exact h a rfl
  | error cause => cases found

/-- A part that may be missing has the property where it is. -/
theorem optional (h : p.Gives P) : (Descent.optional p).Gives fun a? => ∀ a ∈ a?, P a :=
  orElse (h.bind fun a ha => pure fun b hb => Option.some.inj hb ▸ ha) (pure (by simp))

/-- A repetition keeps what each of its steps keeps, for any number of rounds. -/
theorem proceed {step : α → Descent α} (h : ∀ a, P a → (step a).Gives P) {rounds : Nat} {a : α}
    (ha : P a) : (Descent.proceed step rounds a).Gives P := by
  induction rounds generalizing a with
  | zero => exact pure ha
  | succ rounds ih => exact orElse ((h a ha).bind fun b hb => ih hb) (pure ha)

/-- Going on as long as there is a next step keeps what the step keeps. -/
theorem asLongAs {step : α → Descent α} (h : ∀ a, P a → (step a).Gives P) {a : α} (ha : P a) :
    (Descent.asLongAs step a).Gives P :=
  fun tokens pos b stop found => proceed h ha tokens pos b stop found

/-- All parts of a repetition have the property of the part. -/
theorem many (h : p.Gives P) : (Descent.many p).Gives fun found => ∀ a ∈ found, P a := by
  refine bind (asLongAs (P := fun found => ∀ a ∈ found, P a) (fun before hbefore => ?_) (by simp))
    fun found hfound => pure (by simpa using hfound)
  exact h.bind fun a ha => pure (List.forall_mem_cons.mpr ⟨ha, hbefore⟩)

/-- All parts of a list have the property that the first and the further ones have. -/
theorem listOf (h : p.Gives P) (h' : q.Gives P) :
    (Descent.listOf p q).Gives fun found => ∀ a ∈ found, P a :=
  h.bind fun _ ha => h'.many.bind fun _ hs => pure (List.forall_mem_cons.mpr ⟨ha, hs⟩)

/-- All parts of a list with separators have the property of the part. -/
theorem listWith {between : TokenKind} (h : p.Gives P) :
    (Descent.listWith between p).Gives fun found => ∀ a ∈ found, P a :=
  h.listOf (skip fun _ => h)

/-- All statements of a list have the property of a statement. -/
theorem statementList {statement : Descent Node} {P : Node → Prop} (h : statement.Gives P) :
    (Descent.statementList statement).Gives fun found => ∀ n ∈ found, P n :=
  h.listOf (skip fun _ => h)

end Gives

/-! ## Operands leave values -/

section

variable {precedence : Precedence} {expression statement : Descent Node}

/-- A primary is an operand: it is a literal or a name. -/
theorem primary_operand : primary.Gives Node.Operand := by
  have textNode {kind : TokenKind} (build : String → Node) (h : ∀ text, (build text).Operand) :
      (textNode kind build).Gives Node.Operand :=
    .skip fun _ => .skip fun _ => .skip fun text => .pure (h text)
  have constant {kind : TokenKind} (n : Node) (h : n.Operand) :
      (constant kind n).Gives Node.Operand := .skip fun _ => .pure h
  have integer : integer.Gives Node.Operand :=
    .skip fun _ => .skip fun _ => .skip fun _ => .pure ⟨trivial, trivial⟩
  exact integer.orElse <| (textNode .string fun _ => ⟨trivial, trivial⟩).orElse <|
    (textNode .atom fun _ => ⟨trivial, trivial⟩).orElse <|
    (textNode (.var · none) fun _ => ⟨trivial, trivial⟩).orElse <|
    (textNode .instanceVar fun _ => ⟨trivial, trivial⟩).orElse <|
    (constant (.boolean true) ⟨trivial, trivial⟩).orElse <|
    (constant (.boolean false) ⟨trivial, trivial⟩).orElse <| constant .nil ⟨trivial, trivial⟩

/-- Rotation makes an operand of operands. Where the right side is an operation, its own sides are
operands, too. -/
theorem reassociate_operand {left right : Node} {name : String} (hl : left.Operand)
    (hr : right.Operand) : (precedence.reassociate left name right).Operand := by
  unfold Precedence.reassociate
  split
  · next inner innerLeft innerRight =>
    obtain ⟨first, second⟩ := hr.fed
    split
    · exact ⟨trivial, ⟨trivial, ⟨hl.leaves, hl.fed⟩, first⟩, second⟩
    · exact ⟨trivial, ⟨hl.leaves, hl.fed⟩, hr.leaves, hr.fed⟩
  · exact ⟨trivial, ⟨hl.leaves, hl.fed⟩, hr.leaves, hr.fed⟩

/-- In a body in braces every statement is fed, and nothing uses its value. -/
theorem bracedBody_fed (hs : statement.Gives Node.Fed) : (bracedBody statement).Gives Node.Fed :=
  .skip fun _ => .skip fun _ => hs.statementList.optional.bind fun found hfound =>
    .skip fun _ => .skip fun _ => .pure <| Node.fedAll_iff.mpr <| by
      cases found with
      | none => simp
      | some items => exact hfound items rfl

/-- A lambda is an operand: its body is an expression or is in braces. -/
theorem lambda_operand (he : expression.Gives Node.Operand) (hs : statement.Gives Node.Fed) :
    (lambda expression statement).Gives Node.Operand := by
  have body : (lambdaBody expression statement).Gives Node.Fed :=
    (bracedBody_fed hs).orElse (he.mono fun _ h => h.fed)
  have withParameters : (lambdaWithParameters expression statement).Gives Node.Operand :=
    .skip fun _ => .skip fun _ => body.bind fun _ hb => .pure ⟨trivial, hb⟩
  have withParameter : (lambdaWithParameter expression statement).Gives Node.Operand :=
    .skip fun _ => .skip fun _ => .skip fun _ => body.bind fun _ hb => .skip fun _ =>
      .pure ⟨trivial, hb⟩
  have withoutParameters : (lambdaWithoutParameters expression statement).Gives Node.Operand :=
    .skip fun _ => body.bind fun _ hb => .pure ⟨trivial, hb⟩
  exact withParameters.orElse (withParameter.orElse withoutParameters)

/-- An invocation or a primary is an operand, if the arguments are. -/
theorem operand_operand (he : expression.Gives Node.Operand) :
    (operand expression).Gives Node.Operand := by
  have invocation : (invocation expression).Gives Node.Operand :=
    .skip fun _ => .skip fun _ => .skip fun _ => he.listWith.optional.bind fun args hargs =>
      .skip fun _ => .skip fun _ => .pure ⟨trivial, Node.operandsFed_iff.mpr <| by
        cases args with
        | none => simp
        | some args => exact hargs args rfl⟩
  exact invocation.orElse primary_operand

/-- A suffix makes an operand of its receiver, if the expressions in it are operands. -/
theorem suffix_operand (he : expression.Gives Node.Operand) {start : Nat} {receiver : Node}
    (hr : receiver.Operand) :
    (suffix precedence expression start receiver).Gives Node.Operand := by
  have withArguments : (callWithArguments expression start receiver).Gives Node.Operand :=
    .skip fun _ => .skip fun _ => .skip fun _ => he.listWith.bind fun args hargs =>
      .skip fun _ => .skip fun _ => .pure
        ⟨trivial, ⟨hr.leaves, hr.fed⟩, Node.operandsFed_iff.mpr hargs⟩
  have withoutArguments : (callWithoutArguments start receiver).Gives Node.Operand :=
    .skip fun _ => .skip fun _ => .skip fun _ => .skip fun _ => .skip fun _ => .pure
      ⟨trivial, ⟨hr.leaves, hr.fed⟩, trivial⟩
  have attributes : (attributeAccess receiver).Gives Node.Operand :=
    .skip fun _ => .skip fun _ => .pure ⟨trivial, trivial⟩
  have operation : (operation precedence expression start receiver).Gives Node.Operand :=
    .skip fun _ => he.bind fun _ hright => .skip fun _ => .pure (reassociate_operand hr hright)
  exact withArguments.orElse (withoutArguments.orElse (attributes.orElse operation))

/-- An expression is an operand, since it begins with one and each suffix makes one of it. -/
theorem expressionWith_operand (he : expression.Gives Node.Operand)
    (hs : statement.Gives Node.Fed) :
    (expressionWith precedence expression statement).Gives Node.Operand :=
  (lambda_operand he hs).orElse <| .skip fun _ => (operand_operand he).bind fun _ hfirst =>
    .asLongAs (fun _ ha => suffix_operand he ha) hfirst

/-- An assignment is fed, if its value is an operand. -/
theorem assignTo_fed {target value n : Node} (hv : value.Operand)
    (h : Grammar.assignTo target value = .ok n) : n.Fed := by
  unfold Grammar.assignTo at h
  split at h
  · cases h
    exact ⟨hv.leaves, hv.fed⟩
  · cases h
    exact trivial
  · cases h

/-- A statement is fed, if expressions are operands and the statements inside are fed. -/
theorem statementWith_fed (he : expression.Gives Node.Operand) (hs : statement.Gives Node.Fed) :
    (statementWith expression statement).Gives Node.Fed := by
  have guarded {kind : TokenKind} (build : Node → Node → Node)
      (h : ∀ condition body, condition.Operand → body.Fed → (build condition body).Fed) :
      (guarded kind build expression statement).Gives Node.Fed :=
    .skip fun _ => he.bind fun condition hc => (bracedBody_fed hs).bind fun body hb =>
      .pure (h condition body hc hb)
  have comment : (textNode .comment .comment).Gives Node.Fed :=
    .skip fun _ => .skip fun _ => .skip fun _ => .pure trivial
  have importPath : importStatement.Gives Node.Fed :=
    .skip fun _ => .skip fun _ => .skip fun _ => .skip fun _ => .pure trivial
  have classDef : (classStatement statement).Gives Node.Fed :=
    .skip fun _ => .skip fun _ => .skip fun _ => .skip fun _ => .skip fun _ => .pure trivial
  have definition : (definitionStatement statement).Gives Node.Fed :=
    .skip fun _ => .skip fun _ => .skip fun _ => .skip fun _ => .skip fun _ => .skip fun _ =>
      .pure trivial
  have has : hasStatement.Gives Node.Fed :=
    .skip fun _ => .skip fun _ => .skip fun _ => .skip fun _ => .skip fun _ => .pure trivial
  have assignment : (assignment expression).Gives Node.Fed :=
    .skip fun _ => .skip fun _ => .skip fun _ => he.bind fun _ hv =>
      .accept fun _ h => assignTo_fed hv h
  have wordAssignment : (wordAssignment expression).Gives Node.Fed :=
    .skip fun _ => .skip fun _ => .skip fun _ => he.bind fun _ hv => .skip fun _ =>
      .pure ⟨hv.leaves, hv.fed⟩
  have step {kind : TokenKind} {direction : Step} :
      (stepStatement kind direction expression).Gives Node.Fed :=
    .skip fun _ => .skip fun _ => .pure trivial
  exact comment.orElse <| importPath.orElse <| classDef.orElse <| definition.orElse <| has.orElse <|
    (guarded .conditional fun _ _ hc hb => ⟨⟨hc.leaves, hc.fed⟩, hb⟩).orElse <|
    (guarded .loop fun _ _ hc hb => ⟨⟨hc.leaves, hc.fed⟩, hb⟩).orElse <| assignment.orElse <|
    wordAssignment.orElse <| step.orElse <| step.orElse <| he.mono fun _ h => h.fed

/-- At every depth expressions are operands and statements are fed. -/
theorem expressionAndStatement_fed (precedence : Precedence) (depth : Nat) :
    (Descent.expression precedence depth).Gives Node.Operand ∧
      (Descent.statement precedence depth).Gives Node.Fed := by
  induction depth with
  | zero => exact ⟨.nothing, .nothing⟩
  | succ depth ih => exact ⟨expressionWith_operand ih.1 ih.2, statementWith_fed ih.1 ih.2⟩

/-- A program that was read is fed. -/
theorem program_fed (precedence : Precedence) (depth : Nat) :
    (program precedence depth).Gives Node.Fed :=
  .skip fun _ => (expressionAndStatement_fed precedence depth).2.statementList.bind
    fun statements hs => .skip fun _ => .skip fun _ => .pure <| by
      unfold Grammar.programOf
      split
      · exact hs _ List.mem_cons_self
      · exact Node.fedAll_iff.mpr hs

end

end Descent

/-- In a parsed program, every operand leaves a value. -/
theorem fed_of_parse {precedence : Precedence} {tokens : List Token} {program : Node}
    (read : parse precedence tokens = .ok program) : program.Fed := by
  have descends := Grammar.parse_ok_iff.mp read
  unfold descend at descends
  simp only at descends
  split at descends
  · cases descends
  · cases descends
  · next found =>
    split at descends
    · cases descends
      exact Descent.program_fed precedence _ _ _ _ _ found
    · cases descends

end ClosureLang
