import ClosureLang.Proofs.Grammar.Finding

/-!
# How far readers get

Parts of a program start further on than what they are parts of, and no reader goes beyond the
tokens. With each reader it is said from where on it starts, from where on it stops, and what its
result is like then; the rules put that together as readers are put together.
-/

set_option autoImplicit false

namespace ClosureLang

namespace Descent

variable {α β : Type} {tokens : Array Token} {k k' k'' : Nat}

/-- A position from `k` on. -/
def From (tokens : Array Token) (k pos : Nat) : Prop := k ≤ pos ∧ pos ≤ tokens.size

/-- From positions from `k` on, the reader only gets to results with `P` and positions from `k'`
on. -/
def Moves (tokens : Array Token) (k k' : Nat) (p : Descent α) (P : α → Prop) : Prop :=
  Brings tokens (From tokens k) p fun a pos => From tokens k' pos ∧ P a

/-- What lies further on lies from an earlier position on, too. -/
theorem From.sooner {pos : Nat} (h : From tokens k pos) (le : k' ≤ k) : From tokens k' pos :=
  ⟨Nat.le_trans le h.1, h.2⟩

/-- A token is before the position that is reached. -/
theorem token_steps {kind : TokenKind} : Brings tokens (From tokens k) (token kind) fun t stop =>
    From tokens (k + 1) stop ∧ ∃ i, stop = i + 1 ∧ tokens[i]? = some t ∧ t.kind = kind := by
  intro pos t stop ⟨after, _⟩ found
  obtain ⟨there, isKind, rfl⟩ := finds_token_iff.mp found
  have inside : pos < tokens.size := (Array.getElem?_eq_some_iff.mp there).1
  exact ⟨⟨Nat.succ_le_succ after, inside⟩, pos, rfl, there, isKind⟩

namespace Moves

variable {p q : Descent α} {f : α → Descent β} {P Q : α → Prop} {R : β → Nat → Prop}
  {kind : TokenKind}

/-- A reader that gets far with strong results gets less far with weaker ones. -/
theorem mono (h : Moves tokens k k' p P) (le : k'' ≤ k') (weaker : ∀ a, P a → Q a) :
    Moves tokens k k'' p Q :=
  Brings.mono h fun a _ ⟨reached, ha⟩ => ⟨reached.sooner le, weaker a ha⟩

theorem pure {a : α} (h : P a) : Moves tokens k k (Pure.pure a : Descent α) P :=
  Brings.pure fun _ here => ⟨here, h⟩

/-- Taking what was computed takes no token; its result is what the computation comes to. -/
theorem accept {start : Nat} {computed : Except ActionError α} (h : ∀ a, computed = .ok a → P a) :
    Moves tokens k k (Descent.accept start computed) P :=
  Brings.accept fun a same _ here => ⟨here, h a same⟩

/-- A token is one position further on, and of the kind that was asked for. -/
theorem token : Moves tokens k (k + 1) (Descent.token kind) fun t => t.kind = kind :=
  token_steps.mono fun _ _ ⟨further, _, _, _, isKind⟩ => ⟨further, isKind⟩

/-- A reader is followed from where it stops, with what is known of its result. -/
theorem bind (h : Moves tokens k k' p P) (h' : ∀ a, P a → Brings tokens (From tokens k') (f a) R) :
    Brings tokens (From tokens k) (p >>= f) R :=
  Brings.bind h fun a pos b stop ⟨start, ha⟩ found => h' a ha pos b stop start found

/-- The first token of a part. -/
theorem take {f : Token → Descent β} (h : ∀ t, Brings tokens (From tokens (k + 1)) (f t) R) :
    Brings tokens (From tokens k) (Descent.token kind >>= f) R :=
  token.bind fun t _ => h t

/-- A further token of a part. -/
theorem pass {f : Token → Descent β} (h : ∀ t, Brings tokens (From tokens k) (f t) R) :
    Brings tokens (From tokens k) (Descent.token kind >>= f) R :=
  (token.mono (Nat.le_succ k) fun _ => id).bind fun t _ => h t

/-- Asking for the position takes no token. -/
theorem here {f : Nat → Descent β} (h : ∀ start, Brings tokens (From tokens k) (f start) R) :
    Brings tokens (From tokens k) (Descent.here >>= f) R :=
  Brings.here h

/-- A computation between two readers takes no token and may only stop the reading. -/
theorem accept_bind {start : Nat} {computed : Except ActionError α}
    (h : ∀ a, Brings tokens (From tokens k) (f a) R) :
    Brings tokens (From tokens k) (Descent.accept start computed >>= f) R :=
  Brings.accept_bind fun a _ => h a

/-- An alternative gets as far as both of its readers do. -/
theorem orElse (h : Moves tokens k k' p P) (h' : Moves tokens k k' q P) :
    Moves tokens k k' (p <|> q) P :=
  Brings.orElse h h'

/-- A part that may be missing starts and stops where the part does, and its result is one of the
part if there is one. -/
theorem optional (h : Moves tokens k k p P) :
    Moves tokens k k (Descent.optional p) fun a? => ∀ a ∈ a?, P a :=
  orElse (h.bind fun _ ha => pure fun _ same => Option.some.inj same ▸ ha) (pure (by simp))

/-- In a list each element is a result of one of the two readers. -/
theorem listOf (first : Moves tokens k k' p P) (further : Moves tokens k' k' q P) :
    Moves tokens k k' (Descent.listOf p q) fun l => ∀ a ∈ l, P a := by
  refine Brings.listOf (Brings.mono first fun a pos ⟨here, ha⟩ => ⟨here, by simpa using ha⟩)
    fun before pos a stop ⟨start, hbefore⟩ found => ?_
  obtain ⟨here, ha⟩ := further pos a stop start found
  exact ⟨here, by simpa [or_imp, forall_and] using ⟨hbefore, ha⟩⟩

/-- In a list with separators each element is a result of the reader. -/
theorem listWith {between : TokenKind} (h : Moves tokens k k p P) :
    Moves tokens k k (Descent.listWith between p) fun l => ∀ a ∈ l, P a :=
  h.listOf (pass fun _ => h)

end Moves

/-! ## Parts that need no other parts -/

/-- Separators stay from where they start on. -/
theorem separator_moves : Moves tokens k k separator fun _ => True := by
  have mark : Moves tokens k k mark fun _ => True :=
    .orElse (Moves.token.mono (Nat.le_succ k) fun _ _ => trivial)
      (Moves.token.mono (Nat.le_succ k) fun _ _ => trivial)
  exact (mark.listOf mark).mono (Nat.le_refl k) fun _ _ => trivial

/-- A list of parameters takes at least a parenthesis. -/
theorem parameterList_moves : Moves tokens k (k + 1) parameterList fun _ => True :=
  Moves.here fun _ => Moves.take fun _ =>
  (Moves.listWith (Moves.token.mono (Nat.le_succ _) fun _ => id)).bind fun _ _ =>
  Moves.pass fun _ => Moves.accept fun _ _ => trivial

/-- A token with a text takes that token, and the tree is the one built from some text. -/
theorem textNode_moves {kind : TokenKind} {build : String → Node} {P : Node → Prop}
    (h : ∀ text, P (build text)) : Moves tokens k (k + 1) (textNode kind build) P :=
  Moves.here fun _ => Moves.take fun _ => Moves.accept_bind fun text => Moves.pure (h text)

/-- The name of an attribute stays from where it starts on. -/
theorem attributeName_moves : Moves tokens k k attributeName fun _ => True := by
  have keyword {kind : TokenKind} {name : String} :
      Moves tokens k k (constant kind name) fun _ => True :=
    Moves.pass fun _ => Moves.pure trivial
  exact .orElse (Moves.here fun _ => Moves.pass fun _ => Moves.accept fun _ _ => trivial) <|
    .orElse keyword <| .orElse keyword <| .orElse keyword <| .orElse keyword <|
    .orElse keyword <| .orElse keyword keyword

end Descent

end ClosureLang
