import Mathlib.Tactic.Ring
import ClosureLang.Proofs.Rule.Fuel
import ClosureLang.Proofs.Rule.Termination
import ClosureLang.Rule.Workshop

/-!
# Reading returns

The fuel that goes with a set of rules is enough to read every token list, unless there is left
recursion in which no forward is sure to find its seed when it is tried again. Rule sets may name
forwards of other builders that somebody still holds, so all builders of a workshop count, and not
only the one of the rule set.

The condition is the one that `Definitions.Anchored` states. A grammar in which only one forward is
left-recursive meets it, and so do layered grammars, where a sum begins with a sum or a product, a
product with a product or a call, and a call with a product again: products are what calls go
through, and the seed of a product stays.

There is a price for dropping what may have been built on an outgrown seed. A forward `a` that
starts with a left-recursive forward, and only then with itself, does not find its seed: growing the
other one has dropped it. So `a` is tried from the beginning in the midst of its own growth, plants
the same seed, comes to the same place again, and never returns. The second half of this module has
such a grammar with two forwards and a single token, and shows for every amount of fuel that reading
runs out of it.
-/

set_option autoImplicit false

namespace ClosureLang

/-! ## The fuel is enough -/

/-- Every rule has a size. -/
theorem Rule.size_pos (rule : Rule) : 0 < rule.size := by
  cases rule <;> simp [Rule.size]

/-- There are no more rules in a list than their sizes add up to. -/
theorem Rule.length_le_sizes (rules : List Rule) : rules.length ≤ Rule.sizes rules := by
  induction rules with
  | nil => exact Nat.le_refl 0
  | cons rule rules ih =>
    have := rule.size_pos
    rw [List.length_cons, Rule.sizes]
    omega

/-- `matchingFuel` covers every place twice and every rule there, where `count` forwards are
defined. -/
theorem lt_matchingFuel {rules : List Rule} {count bound size : Nat} (length : Nat)
    (few : count ≤ Rule.sizes rules) (small : bound ≤ Rule.sizes rules)
    (root : size ≤ Rule.sizes rules) :
    2 * (count * (length + 1)) * (bound + 1) + size + length + 1 < matchingFuel rules length := by
  unfold matchingFuel
  generalize Rule.sizes rules = total at *
  have covered := Nat.mul_le_mul (Nat.mul_le_mul_left 2 (Nat.mul_le_mul_right (length + 1) few))
    (Nat.succ_le_succ small)
  simp only [Nat.succ_eq_add_one] at covered
  have square : total + 1 ≤ (total + 1) * (total + 1) := Nat.le_mul_of_pos_right _ (Nat.succ_pos _)
  have wide : length + 1 ≤ (length + 1) * (total + 1) := Nat.le_mul_of_pos_right _ (Nat.succ_pos _)
  calc 2 * (count * (length + 1)) * (bound + 1) + size + length + 1
      < 2 * (total * (length + 1)) * (total + 1) + (total + 1) * (total + 1) +
          2 * ((length + 1) * (total + 1)) := by omega
    _ ≤ 2 * (total * (length + 1)) * (total + 1) + (total + 1) * (total + 1) +
          2 * ((length + 1) * (total + 1)) +
          (total + 1) * (total + 1) * ((length + 1) * (length + 1)) := Nat.le_add_right ..
    _ = (total + 1) * (length + 2) * ((total + 1) * (length + 2)) := by ring

/-- The numbers of the forwards that stand for something. -/
def Builder.defined (b : Builder) : List Nat :=
  (List.range b.cells.length).filter fun id => (b.definition? id).isSome

/-- A forward that stands for something has a cell. -/
theorem Builder.mem_defined {b : Builder} {id : Nat} {body : Rule}
    (found : b.definition? id = some body) : id ∈ b.defined := by
  refine List.mem_filter.mpr ⟨List.mem_range.mpr ?_, by rw [found]; rfl⟩
  by_contra outside
  rw [definition?, List.getElem?_eq_none (Nat.le_of_not_lt outside)] at found
  cases found

/-- What a forward stands for is one of the definitions. -/
theorem Builder.mem_definitions {b : Builder} {id : Nat} {body : Rule}
    (found : b.definition? id = some body) : body ∈ b.definitions := by
  rw [definition?, Option.join_eq_some_iff] at found
  exact List.mem_filterMap.mpr ⟨some body, List.mem_of_getElem? found, rfl⟩

/-- As many forwards are defined as there are definitions. -/
theorem Builder.length_defined (b : Builder) : b.defined.length = b.definitions.length := by
  have cells : (List.range b.cells.length).map b.definition? = b.cells := by
    refine List.ext_getElem (by simp) fun id _ inside => ?_
    simp [definition?, inside]
  rw [defined, definitions, ← List.countP_eq_length_filter, List.length_filterMap_eq_countP]
  conv_rhs => rw [← cells, List.countP_map]
  rfl

namespace Workshop

variable {w : Workshop} {root : Rule}

/-- What a forward stands for in a workshop comes from one of its builders. -/
theorem definition?_eq_some {target : Forward} {body : Rule}
    (found : w.definition? target = some body) :
    ∃ owned ∈ w.builders, owned.builder.definition? target.id = some body := by
  unfold definition? at found
  split at found
  · obtain ⟨owned, here, found⟩ := Option.bind_eq_some_iff.mp found
    exact ⟨owned, List.mem_of_getElem? here, found⟩
  · cases found

/-- The definitions of all builders are finitely many, and no larger than all rules together. -/
theorem definitions_bounded (w : Workshop) (rules : List Rule) : ∃ ids : Finset Nat,
    let total := Rule.sizes (rules ++ w.builders.flatMap (·.builder.definitions))
    w.definition?.Bounded ids total ∧ ids.card ≤ total := by
  refine ⟨(w.builders.flatMap (·.builder.defined)).toFinset, ⟨fun target body found => ?_,
    fun target body found => ?_⟩, ?_⟩
  · obtain ⟨owned, mem, found⟩ := definition?_eq_some found
    exact List.mem_toFinset.mpr (List.mem_flatMap.mpr ⟨owned, mem, Builder.mem_defined found⟩)
  · obtain ⟨owned, mem, found⟩ := definition?_eq_some found
    refine Rule.size_le_sizes (List.mem_append_right _ ?_)
    exact List.mem_flatMap.mpr ⟨owned, mem, Builder.mem_definitions found⟩
  · refine (List.toFinset_card_le _).trans ?_
    have lengths : (w.builders.flatMap (·.builder.defined)).length =
        (w.builders.flatMap (·.builder.definitions)).length := by
      simp only [List.length_flatMap, Builder.length_defined]
    rw [lengths]
    refine Nat.le_trans ?_ (Rule.length_le_sizes _)
    rw [List.length_append]
    exact Nat.le_add_left ..

/-- The forwards of a workshop are finitely many, and no larger than all definitions together. -/
theorem definition?_bounded (w : Workshop) (root : Rule) : ∃ ids : Finset Nat,
    let total := Rule.sizes (root :: w.builders.flatMap (·.builder.definitions))
    w.definition?.Bounded ids total ∧ ids.card ≤ total :=
  w.definitions_bounded [root]

/-- A rule set reads every token list to an answer, if all left recursion goes through forwards
whose seeds stay: with its own fuel it does not run out of it, and more fuel would not change the
answer. -/
theorem read_returns (w : Workshop) (number : Nat) (set : OwnedSet) (tokens : List Token)
    (empty : Nat → Bool) (found : w.set? number = some set)
    (within : w.definition?.EmptyWithin empty) (anchored : w.definition?.Anchored empty) :
    ∃ outcome, w.read number tokens = some outcome ∧ outcome ≠ .error .outOfFuel ∧
      ∀ fuel ≥ w.fuel [set.root] tokens.length,
        readAll w.definition? fuel set.root tokens = outcome := by
  obtain ⟨ids, finite, few⟩ := w.definition?_bounded set.root
  have enough := lt_matchingFuel tokens.length few (Nat.le_refl _)
    (Rule.size_le_sizes List.mem_cons_self)
  have ends := readAll_ends finite within anchored enough
  refine ⟨_, ?_, ends, fun fuel le => readAll_of_le le ends⟩
  rw [read, found]
  rfl

/-- Sums of products. A sum starts with itself before it starts with a product, and a product with
itself before it starts with a call, which starts with a product again. -/
def layered : Workshop where
  builders := [⟨⟨0, [
    some (.alternation [
      .sequence [.forward ⟨0, 0⟩, .terminal .comma, .forward ⟨0, 1⟩], .forward ⟨0, 1⟩]),
    some (.alternation [
      .sequence [.forward ⟨0, 1⟩, .terminal .dot, .terminal .word], .forward ⟨0, 2⟩,
      .terminal .word]),
    some (.sequence [.forward ⟨0, 1⟩, .terminal .openParen, .terminal .closeParen])]⟩,
    .ruleSet 0⟩]
  handles := [⟨⟨0, 0⟩, true⟩, ⟨⟨0, 1⟩, true⟩, ⟨⟨0, 2⟩, true⟩]
  sets := [⟨0, .forward ⟨0, 0⟩, true⟩]

/-- What sums, products and calls may start with. -/
theorem layered_definition {target : Forward} {body : Rule}
    (found : layered.definition? target = some body) :
    body.nullable (fun _ => false) = false ∧
      (target.id = 0 ∧ body.starts (fun _ => false) = [0, 1] ∨
        target.id = 1 ∧ body.starts (fun _ => false) = [1, 2] ∨
        target.id = 2 ∧ body.starts (fun _ => false) = [1]) := by
  obtain ⟨owned, mem, found⟩ := definition?_eq_some found
  cases List.mem_singleton.mp mem
  match target.id, found with
  | 0, found => cases found; exact ⟨rfl, .inl ⟨rfl, rfl⟩⟩
  | 1, found => cases found; exact ⟨rfl, .inr (.inl ⟨rfl, rfl⟩)⟩
  | 2, found => cases found; exact ⟨rfl, .inr (.inr ⟨rfl, rfl⟩)⟩
  | id + 3, found => cases found

/-- Products and calls do not lead to sums. -/
theorem layered_product {a b c : Nat}
    (leads : layered.definition?.Leads (fun _ => false) a b c) (product : 1 ≤ b) : 1 ≤ c := by
  refine leads.mem_of_closed (1 ≤ ·) (fun target body found _ product d hd => ?_) product
  rcases (layered_definition found).2 with ⟨sum, -⟩ | ⟨-, starts⟩ | ⟨-, starts⟩
  · omega
  · rw [starts] at hd
    simp only [List.mem_cons, List.not_mem_nil, or_false] at hd
    omega
  · rw [starts, List.mem_singleton] at hd
    omega

/-- All left recursion of a call goes through a product. -/
theorem layered_call : ¬ layered.definition?.RecursiveWithout (fun _ => false) 1 2 := by
  rintro ⟨target, body, c, call, found, hc, leads⟩
  rcases (layered_definition found).2 with ⟨sum, -⟩ | ⟨product, -⟩ | ⟨-, starts⟩
  · omega
  · omega
  · rw [starts, List.mem_singleton] at hc
    subst hc
    exact absurd leads.self (by decide)

/-- The seed of a sum stays: products and calls do not get to a sum at all. -/
theorem layered_sumStays : layered.definition?.SeedStays (fun _ => false) 0 := by
  intro target body sum found
  have unled : ∀ c, 1 ≤ c → ¬ layered.definition?.Leads (fun _ => false) 0 c 0 :=
    fun c product leads => absurd (layered_product leads product) (by decide)
  have starts : body.starts (fun _ => false) = [0, 1] := by
    rcases (layered_definition found).2 with ⟨-, starts⟩ | ⟨product, -⟩ | ⟨call, -⟩
    · exact starts
    · omega
    · omega
  rw [starts]
  refine ⟨List.pairwise_pair.mpr fun _ => unled 1 (Nat.le_refl 1), ?_⟩
  intro b hb inner innerBody innerFound apart leads
  have within : ∀ c ∈ innerBody.starts fun _ => false, 1 ≤ c := by
    intro c hc
    rcases (layered_definition innerFound).2 with ⟨same, -⟩ | ⟨-, starts⟩ | ⟨-, starts⟩
    · exact absurd same apart
    · rw [starts] at hc
      simp only [List.mem_cons, List.not_mem_nil, or_false] at hc
      omega
    · rw [starts, List.mem_singleton] at hc
      omega
  refine ⟨List.pairwise_iff_forall_sublist.mpr fun {x y} pair _ => ?_,
    fun _ c hc => unled c (within c hc)⟩
  exact unled y (within y (pair.subset (List.mem_cons_of_mem x List.mem_cons_self)))

/-- The seed of a product stays: a call gets to a product at once. -/
theorem layered_productStays : layered.definition?.SeedStays (fun _ => false) 1 := by
  intro target body product found
  have starts : body.starts (fun _ => false) = [1, 2] := by
    rcases (layered_definition found).2 with ⟨sum, -⟩ | ⟨-, starts⟩ | ⟨call, -⟩
    · omega
    · exact starts
    · omega
  rw [starts]
  refine ⟨List.pairwise_pair.mpr fun ⟨c, leads, apart, _⟩ => absurd leads.self apart, ?_⟩
  intro b hb inner innerBody innerFound apart leads
  have positive : 1 ≤ inner.id := by
    refine layered_product leads ?_
    simp only [List.mem_cons, List.not_mem_nil, or_false] at hb
    omega
  rcases (layered_definition innerFound).2 with ⟨sum, -⟩ | ⟨same, -⟩ | ⟨call, starts⟩
  · omega
  · exact absurd same apart
  · rw [starts, call]
    exact ⟨List.pairwise_singleton .., fun recursive => absurd recursive layered_call⟩

/-- In the layered grammar all left recursion goes through forwards whose seeds stay. -/
theorem layered_anchored : layered.definition?.Anchored fun _ => false := by
  intro target body found
  rcases (layered_definition found).2 with ⟨sum, -⟩ | ⟨product, -⟩ | ⟨call, -⟩
  · exact .inl (sum ▸ layered_sumStays)
  · exact .inl (product ▸ layered_productStays)
  · exact .inr ⟨1, layered_productStays, call ▸ layered_call⟩

/-- A sum of a call and a word. -/
theorem layered_returns :
    let word : Token := ⟨.word, .text "a", ⟨0, 1⟩⟩
    let mark (kind : TokenKind) : Token := ⟨kind, .none, ⟨1, 2⟩⟩
    let tokens := [word, mark .openParen, mark .closeParen, mark .comma, word]
    ∃ outcome, layered.read 0 tokens = some outcome ∧ outcome ≠ .error .outOfFuel ∧
      ∀ fuel ≥ layered.fuel [.forward ⟨0, 0⟩] tokens.length,
        readAll layered.definition? fuel (.forward ⟨0, 0⟩) tokens = outcome :=
  read_returns layered 0 ⟨0, .forward ⟨0, 0⟩, true⟩ _ (fun _ => false) rfl
    (fun target body found nullable => by
      rw [(layered_definition found).1] at nullable
      cases nullable)
    layered_anchored

end Workshop

/-! ## A grammar that is not read to an end -/

namespace Entangled

/-- Starts with the left-recursive `inner`, and only then with itself. -/
def outer : Rule := .alternation [
  .sequence [.forward ⟨0, 1⟩, .terminal .dot], .sequence [.forward ⟨0, 0⟩, .terminal .comma],
  .terminal .word]

/-- Starts with itself. -/
def inner : Rule := .alternation [
  .sequence [.forward ⟨0, 1⟩, .terminal .semicolon], .terminal .word]

/-- The two rules refer to each other through forwards of one builder. -/
def builder : Builder := ⟨0, [some outer, some inner]⟩

/-- The rule set that starts with `outer`. -/
def set : RuleSet := ⟨builder, .forward ⟨0, 0⟩⟩

/-- The only token that is read. -/
def word : Token := ⟨.word, .text "a", ⟨0, 0⟩⟩

/-- What both of them match. -/
def found : Match := ⟨.token word, 1⟩

/-- The seed of `outer` is planted. -/
def planted : Progress := ⟨⟨[(⟨0, 0⟩, .resolved (some found))], by simp⟩, 1⟩

/-- `inner` has grown, and the seed of `outer` is gone. -/
def dropped : Progress := ⟨⟨[(⟨1, 0⟩, .resolved (some found))], by simp⟩, 1⟩

/-- The body of `outer` was tried and met `outer`. -/
def marked : Progress :=
  ⟨⟨[(⟨0, 0⟩, .pending true), (⟨1, 0⟩, .resolved (some found))], by simp⟩, 1⟩

section

variable {fuel : Nat} {s : Progress}

/-- If the body of `outer` starves once its seed is planted, `outer` starves wherever its body meets
it. -/
theorem outer_starves
    (again : ∀ less < fuel, (outer.match? set.definition? #[word] less 0).Starves planted)
    (absent : s.memo.find? ⟨0, 0⟩ = none)
    (run : outer.match? set.definition? #[word] 7 0
      { s with memo := s.memo.insert ⟨0, 0⟩ (.pending false) } = .ok (some found) marked) :
    (Rule.match? set.definition? #[word] fuel (.forward ⟨0, 0⟩) 0).Starves s := by
  cases fuel with
  | zero => exact ⟨s, rfl⟩
  | succ fuel =>
    refine .bind_of_ok (congrArg (EStateM.Result.ok · s) absent) ?_
    refine .bind_of_ok rfl ?_
    rcases Rule.match?_starves_or_eq run fuel with starves | same
    · exact starves.bind
    refine .bind_of_ok same (.bind_of_ok rfl (.bind (.map ?_)))
    cases fuel with
    | zero => exact ⟨marked, rfl⟩
    | succ rounds =>
      have planting : Matching.plant ⟨0, 0⟩ found marked = .ok () planted := rfl
      exact .bind_of_ok planting (.bind (again (rounds + 1) (Nat.lt_succ_self _)))

/-- Growing `outer` gets to `outer` with its seed gone. -/
theorem body_starves : ∀ fuel, (outer.match? set.definition? #[word] fuel 0).Starves planted := by
  intro fuel
  induction fuel using Nat.strong_induction_on with
  | _ fuel again =>
    have first : Rule.match? set.definition? #[word] 7
        (.sequence [.forward ⟨0, 1⟩, .terminal .dot]) 0 planted = .ok none dropped := rfl
    match fuel with
    | 0 => exact ⟨planted, rfl⟩
    | 1 => exact ⟨planted, rfl⟩
    | fuel + 2 =>
      rcases Rule.match?_starves_or_eq first (fuel + 1) with starves | same
      · exact starves.bind
      · refine .bind_of_ok same (.bind (.bind (outer_starves (fun less lt => ?_) rfl rfl)))
        exact again less (by omega)

end

end Entangled

/-- A finished set of rules on which reading never ends, whatever the fuel. -/
theorem entangled_starves : Entangled.builder.finish (.forward ⟨0, 0⟩) = .ok Entangled.set ∧
    ∀ fuel, readAll Entangled.set.definition? fuel Entangled.set.root [Entangled.word] =
      .error .outOfFuel := by
  refine ⟨rfl, fun fuel => ?_⟩
  have starves : (Entangled.set.root.match? Entangled.set.definition?
      [Entangled.word].toArray fuel 0).Starves .start :=
    Entangled.outer_starves (fun less _ => Entangled.body_starves less) rfl rfl
  obtain ⟨s', starved⟩ := starves
  rw [readAll, starved]

end ClosureLang
