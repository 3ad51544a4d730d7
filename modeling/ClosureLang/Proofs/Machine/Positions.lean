import ClosureLang.Proofs.Machine.Evaluator

/-!
# Positions

The value of an evaluation is what was last yielded in its position, and positions before it keep
what was yielded there. So the values of operands are all still there when the last operand has its
value.

An evaluation hands its value on directly, while the code that goes with it leaves the value in a
register and comes back to it later. This module is what lets the one be read as the other: when a
receiver and its arguments have been evaluated, the values that the evaluation has bound are those
in the positions of the receiver and of the arguments (`Yields`, `YieldsAll`), and a position is a
register. An empty list of trees has nothing to yield, and a comment or a step yields nothing of its
own; for these the value is what the position held before.
-/

set_option autoImplicit false

namespace ClosureLang

variable {V W : Type}

/-- A sequence of two evaluations comes to a value only if the first one does and the second one
does from there. -/
theorem bind_ok {α β : Type} {x : Except Stop α} {f : α → Except Stop β} {b : β}
    (h : (x >>= f) = .ok b) : ∃ a, x = .ok a ∧ f a = .ok b := by
  cases x with
  | error e => cases h
  | ok a => exact ⟨a, rfl, h⟩

/-- The value is the last one in position `d`, and the positions before `d` are unchanged. -/
structure Yields (d : Nat) (st : Store V W) (v : V) (st' : Store V W) : Prop where
  value : st'.last d = v
  kept : ∀ k < d, st'.last k = st.last k

/-- The values are the last ones in the `n` positions after `d`, and the positions up to `d` are
unchanged. -/
structure YieldsAll (d n : Nat) (st : Store V W) (vs : List V) (st' : Store V W) : Prop where
  values : vs = (List.range n).map fun i => st'.last (d + 1 + i)
  kept : ∀ k ≤ d, st'.last k = st.last k

namespace Store

variable {d : Nat} {st st' : Store V W} {v v' : V}

/-- Yielding a value puts it in its position and leaves all others alone. -/
theorem yields_of_yield (h : st.yield d v = .ok (v', st')) : Yields d st v' st' := by
  cases h
  exact ⟨by simp, fun k hk => by simp [Nat.ne_of_lt hk]⟩

end Store

/-- An answer changes variables and the world, but no position. -/
theorem last_of_answered {s : Scope} {st st' : Store V W} {a : Option (Answer V W)} {v : V}
    (h : answered s st a = .ok (v, st')) : st'.last = st.last := by
  cases a with
  | none => cases h
  | some a =>
    cases h
    rfl

/-- What one evaluation keeps before its position and the next one keeps, both keep; the value is
that of the last. -/
theorem Yields.trans {d : Nat} {st st₁ st' : Store V W} {v v' : V} (h : Yields d st v st₁)
    (h' : Yields d st₁ v' st') : Yields d st v' st' :=
  ⟨h'.value, fun k hk => (h'.kept k hk).trans (h.kept k hk)⟩

/-- Yielding the value of an answer. -/
theorem yields_of_reply {s : Scope} {d : Nat} {st st' : Store V W} {a : Option (Answer V W)} {v : V}
    (h : (do
      let (v, st) ← answered s st a
      st.yield d v) = .ok (v, st')) : Yields d st v st' := by
  obtain ⟨⟨v₁, st₁⟩, replied, yielded⟩ := bind_ok h
  have last := last_of_answered replied
  have yields := Store.yields_of_yield yielded
  exact ⟨yields.value, fun k hk => (yields.kept k hk).trans (congrFun last k)⟩

/-- A loop yields in the position of its condition and its body, however often it is passed. The
induction is on the fuel, one passage at a time. -/
theorem repeatWhile_yields {holds : V → Bool}
    {condition body : Store V W → Except Stop (V × Store V W)} {d : Nat}
    (hc : ∀ {st v st'}, condition st = .ok (v, st') → Yields d st v st')
    (hb : ∀ {st v st'}, body st = .ok (v, st') → Yields d st v st') {fuel : Nat}
    {st st' : Store V W} {v : V}
    (h : repeatWhile holds condition body fuel st = .ok (v, st')) : Yields d st v st' := by
  induction fuel generalizing st with
  | zero => cases h
  | succ fuel ih =>
    rw [repeatWhile] at h
    obtain ⟨⟨v₁, st₁⟩, first, rest⟩ := bind_ok h
    have yields := hc first
    simp only at rest
    split at rest
    · obtain ⟨⟨v₂, st₂⟩, second, again⟩ := bind_ok rest
      exact (yields.trans (hb second)).trans (ih again)
    · cases rest
      exact yields

section evaluate

variable (host : Host V W) (s : Scope) (fuel : Nat)

mutual

/-- An evaluation yields its value in its position. -/
theorem evaluate_yields : ∀ (n : Node) {d : Nat} {st st' : Store V W} {v : V},
    evaluate host s fuel n d st = .ok (v, st') → Yields d st v st'
  | .integer _, _, _, _, _, h | .string _, _, _, _, _, h | .atom _, _, _, _, _, h
  | .boolean _, _, _, _, _, h | .nil, _, _, _, _, h | .var .., _, _, _, _, h
  | .block [], _, _, _, _, h => Store.yields_of_yield h
  | .lambda .., _, _, _, _, h => by
    have yields := Store.yields_of_yield h
    exact ⟨yields.value, yields.kept⟩
  | .operator name left right, d, st, st', v, h => by
    rw [evaluate] at h
    obtain ⟨⟨a, st₁⟩, first, h⟩ := bind_ok h
    obtain ⟨⟨b, st₂⟩, second, h⟩ := bind_ok h
    have hl := evaluate_yields left first
    have hr := evaluate_yields right second
    have reply := yields_of_reply h
    refine ⟨reply.value, fun k hk => ?_⟩
    rw [reply.kept k hk, hr.kept k (by omega), hl.kept k hk]
  | .call method receiver args, d, st, st', v, h => by
    rw [evaluate] at h
    obtain ⟨⟨a, st₁⟩, first, h⟩ := bind_ok h
    obtain ⟨⟨bs, st₂⟩, second, h⟩ := bind_ok h
    have hr := evaluate_yields receiver first
    have ha := evaluateArguments_yields args second
    have reply := yields_of_reply h
    refine ⟨reply.value, fun k hk => ?_⟩
    rw [reply.kept k hk, ha.kept k (by omega), hr.kept k hk]
  | .invoke name args _, d, st, st', v, h => by
    rw [evaluate] at h
    obtain ⟨⟨a, st₁⟩, first, h⟩ := bind_ok h
    obtain ⟨⟨bs, st₂⟩, second, h⟩ := bind_ok h
    have hr := Store.yields_of_yield first
    have ha := evaluateArguments_yields args second
    have reply := yields_of_reply h
    refine ⟨reply.value, fun k hk => ?_⟩
    rw [reply.kept k hk, ha.kept k (by omega), hr.kept k hk]
  | .block (item :: items), d, st, st', v, h => by
    rw [evaluate] at h
    obtain ⟨⟨a, st₁⟩, first, h⟩ := bind_ok h
    have hi := evaluate_yields item first
    exact hi.trans (evaluateAll_yields items hi.value h)
  | .conditional condition body, d, st, st', v, h => by
    rw [evaluate] at h
    obtain ⟨⟨a, st₁⟩, first, h⟩ := bind_ok h
    have hc := evaluate_yields condition first
    simp only at h
    split at h
    · exact hc.trans (evaluate_yields body h)
    · cases h
      exact hc
  | .loop condition body, d, st, st', v, h => by
    rw [evaluate] at h
    exact repeatWhile_yields (evaluate_yields condition) (evaluate_yields body) h
  | .step direction operand, d, st, st', v, h => by
    cases operand with
    | var name binding =>
      rw [evaluate] at h
      obtain ⟨⟨a, st₁⟩, replied, h⟩ := bind_ok h
      cases h
      exact ⟨rfl, fun k _ => congrFun (last_of_answered replied) k⟩
    | _ => cases h
  | .assign name value _, d, st, st', v, h => by
    rw [evaluate] at h
    obtain ⟨⟨a, st₁⟩, first, h⟩ := bind_ok h
    have hv := evaluate_yields value first
    cases h
    exact ⟨hv.value, hv.kept⟩
  | .comment _, _, _, _, _, h => by
    cases h
    exact ⟨rfl, fun _ _ => rfl⟩
  | .instanceVar _, _, _, _, _, h | .attr .., _, _, _, _, h | .attrAssign .., _, _, _, _, h
  | .importPath _, _, _, _, _, h | .definition .., _, _, _, _, h | .classDef .., _, _, _, _, h
  | .has .., _, _, _, _, h => by cases h

/-- The trees of a list all use one position; the value that stands there when an empty list begins
is what it yields. -/
theorem evaluateAll_yields : ∀ (ns : List Node) {d : Nat} {st st' : Store V W} {v v' : V},
    st.last d = v → evaluateAll host s fuel ns d v st = .ok (v', st') → Yields d st v' st'
  | [], _, _, _, _, _, last, h => by
    cases h
    exact ⟨last, fun _ _ => rfl⟩
  | n :: ns, d, st, st', v, v', _, h => by
    rw [evaluateAll] at h
    obtain ⟨⟨a, st₁⟩, first, h⟩ := bind_ok h
    have hn := evaluate_yields n first
    exact hn.trans (evaluateAll_yields ns hn.value h)

/-- Arguments stand in the positions after `d`, each in its own, so none is lost when the next one
is evaluated. -/
theorem evaluateArguments_yields : ∀ (args : List Node) {d : Nat} {st st' : Store V W}
    {vs : List V}, evaluateArguments host s fuel args d st = .ok (vs, st') →
      YieldsAll d args.length st vs st'
  | [], _, _, _, _, h => by
    cases h
    exact ⟨rfl, fun _ _ => rfl⟩
  | arg :: args, d, st, st', vs, h => by
    rw [evaluateArguments] at h
    obtain ⟨⟨a, st₁⟩, first, h⟩ := bind_ok h
    obtain ⟨⟨bs, st₂⟩, second, h⟩ := bind_ok h
    cases h
    have ha := evaluate_yields arg first
    have hs := evaluateArguments_yields args second
    refine ⟨?_, fun k hk => ?_⟩
    · have here : a = st'.last (d + 1) := (hs.kept (d + 1) (Nat.le_refl _)).trans ha.value |>.symm
      have there := hs.values
      rw [List.length_cons, List.range_succ_eq_map, List.map_cons, List.map_map, Nat.add_zero,
        ← here]
      refine congrArg (a :: ·) (there.trans ?_)
      refine List.map_congr_left fun i _ => ?_
      exact congrArg st'.last (by omega)
    · rw [hs.kept k (by omega), ha.kept k (by omega)]

end

end evaluate

end ClosureLang
