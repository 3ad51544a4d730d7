import ClosureLang.Proofs.Grammar.Parsed
import ClosureLang.Proofs.Scope.Resolution

/-!
# The registers of a unit

A unit gives registers to its names while it declares them one by one: a name gets the number of
names that have a register so far. Arguments arrive in the registers from 0 on, so this is right as
long as every parameter is new when it is declared. A parameter that is listed twice is not: it
keeps its place in the table, and the registers after it fall behind the arguments.

The main result says that this is the only thing that can go wrong. Where it does, registers may
reach up to the first temporary, but never further (`Scope.Bounded`), which is enough for the
capacity of a frame.

In the one direction there is nothing but the closed form of the tables. For the other one it is
enough to look at the last parameter. If it was listed before, it gets the number that the next name
gets as well, or, if no name comes after it, a number that is not below the temporaries
(`shared_of_repeated`). If it was not, but some other parameter was repeated, it gets a number below
its own position, and the argument for it arrives elsewhere.
-/

set_option autoImplicit false

namespace ClosureLang

/-- The registers of a unit are in order: each name has one of its own, below the temporaries, and a
parameter has the one in which the last argument for it arrives. -/
structure Scope.LaidOut (s : Scope) (params : List String) : Prop where
  register_lt : ∀ {name : String} {r : Nat}, s.register? name = some r → r < s.numLocals
  register_inj : ∀ {name other : String} {r : Nat},
    s.register? name = some r → s.register? other = some r → name = other
  arrives : ∀ name ∈ params, ∃ r, s.register? name = some r ∧ params[r]? = some name ∧
    ∀ k, params[k]? = some name → k ≤ r

/-- No register of the unit is above the first temporary, and the parameters that are moved are
moved to cells of the unit. -/
structure Scope.Bounded (s : Scope) : Prop where
  locals : ∀ row ∈ s.locals, row.2 ≤ s.numLocals
  boxed : ∀ row ∈ s.boxedParams, row.1 ≤ s.numLocals ∧ row.2 < s.numRefs

/-! ## One register -/

section assignRegister

variable {name other : String} {register : Nat} {rows : List (String × Nat)}

/-- Giving a register makes one more row, unless the name had one. -/
theorem length_assignRegister : (assignRegister name register rows).length =
    if name ∈ rows.map Prod.fst then rows.length else rows.length + 1 := by
  induction rows with
  | nil => rfl
  | cons row rows ih =>
    unfold assignRegister
    by_cases same : row.1 = name
    · simp [same]
    · have apart : name ≠ row.1 := Ne.symm same
      simp only [same, if_false, List.length_cons, ih, List.map_cons, List.mem_cons, apart,
        false_or]
      split <;> rfl

/-- A row after giving a register is the new one or was there before. -/
theorem mem_assignRegister {row : String × Nat} (h : row ∈ assignRegister name register rows) :
    row = (name, register) ∨ row ∈ rows := by
  induction rows with
  | nil => exact .inl (List.mem_singleton.mp h)
  | cons first rows ih =>
    unfold assignRegister at h
    split at h
    · exact (List.mem_cons.mp h).imp_right (List.mem_cons_of_mem first)
    · rcases List.mem_cons.mp h with rfl | h
      · exact .inr List.mem_cons_self
      · exact (ih h).imp_right (List.mem_cons_of_mem first)

/-- The name has its new register, and the others keep theirs. -/
theorem lookup_assignRegister : (assignRegister name register rows).lookup other =
    if other = name then some register else rows.lookup other := by
  induction rows with
  | nil =>
    by_cases here : other = name
    · simp [assignRegister, here]
    · have different : (other == name) = false := beq_eq_false_iff_ne.mpr here
      simp [assignRegister, List.lookup_cons, here, different]
  | cons row rows ih =>
    obtain ⟨first, place⟩ := row
    unfold assignRegister
    by_cases same : first = name
    · subst same
      by_cases here : other = first
      · simp [here]
      · have different : (other == first) = false := beq_eq_false_iff_ne.mpr here
        simp [List.lookup_cons, here, different]
    · rw [if_neg same]
      by_cases here : other = first
      · subst here
        simp [same]
      · have different : (other == first) = false := beq_eq_false_iff_ne.mpr here
        simp [List.lookup_cons, different, ih]

end assignRegister

/-! ## No register is above the first temporary -/

/-- Declaring a name keeps the bounds: its register is at most the number of names before it. -/
theorem Scope.Bounded.declare {u : Usage} {params : List String} {s : Scope} (h : s.Bounded)
    (name : String) : (u.declare params s name).Bounded := by
  have grows : s.numLocals ≤ (u.declare params s name).numLocals := by
    rw [Scope.numLocals, Scope.numLocals, u.locals_declare params]
    split
    · rw [length_assignRegister]
      split <;> omega
    · exact Nat.le_refl _
  have slots : s.numRefs ≤ (u.declare params s name).numRefs := by
    have continues : (u.declare params s name).refs.Continues s.refs :=
      u.refs_declare params s name ▸ NameTable.continues_insertAll ..
    exact continues.length_le
  constructor
  · intro row hrow
    rw [u.locals_declare params] at hrow
    split at hrow
    · rcases mem_assignRegister hrow with rfl | old
      · exact grows
      · exact Nat.le_trans (h.locals row old) grows
    · exact Nat.le_trans (h.locals row hrow) grows
  · intro row hrow
    rw [u.boxedParams_declare params] at hrow
    split at hrow
    · next boxed =>
      rcases List.mem_append.mp hrow with old | new
      · exact ⟨Nat.le_trans (h.boxed row old).1 grows, Nat.lt_of_lt_of_le (h.boxed row old).2 slots⟩
      · obtain rfl := List.mem_singleton.mp new
        have lent := (Bool.and_eq_true_iff.mp boxed).1
        have interned : (u.declare params s name).refs = (s.refs.intern name).2 := by
          rw [u.refs_declare, List.filter_cons_of_pos lent]
          rfl
        refine ⟨grows, ?_⟩
        rw [Scope.numRefs, interned]
        exact NameTable.index?_lt (s.refs.index?_intern name)
    · exact ⟨Nat.le_trans (h.boxed row hrow).1 grows, Nat.lt_of_lt_of_le (h.boxed row hrow).2 slots⟩

/-- Declaring names keeps the registers bounded: each gets the number of rows there are so far. -/
theorem Scope.Bounded.declareAll {u : Usage} {params : List String} {s : Scope} (h : s.Bounded)
    (names : List String) : (u.declareAll params s names).Bounded := by
  induction names generalizing s with
  | nil => exact h
  | cons name names ih => exact ih (h.declare name)

/-- Whatever the parameters are, the registers of a unit reach up to the first temporary at most. -/
theorem bounded_ofUnit (params : List String) (body : Node) : (Scope.ofUnit params body).Bounded :=
  Scope.Bounded.declareAll ⟨fun _ h => by simp at h, fun _ h => by simp at h⟩ _

/-- In a bounded scope no register is above the first temporary. -/
theorem Scope.Bounded.register?_le {s : Scope} (h : s.Bounded) {name : String} {r : Nat}
    (found : s.register? name = some r) : r ≤ s.numLocals := by
  obtain ⟨before, after, rows, -⟩ := List.lookup_eq_some_iff.mp found
  exact h.locals (name, r) (by simp [rows])

/-! ## Parameters that are listed twice -/

namespace Usage

variable {u : Usage} {params : List String}

/-- Names may be declared in two parts. -/
theorem declareAll_append (s : Scope) (names more : List String) :
    u.declareAll params s (names ++ more) =
      u.declareAll params (u.declareAll params s names) more :=
  List.foldl_append ..

/-- Names that are declared later do not change a name's register. -/
theorem register?_declareAll {s : Scope} {names : List String} {name : String}
    (other : name ∉ names) : (u.declareAll params s names).register? name = s.register? name := by
  induction names generalizing s with
  | nil => rfl
  | cons first names ih =>
    rw [List.mem_cons, not_or] at other
    have step : (u.declare params s first).register? name = s.register? name := by
      rw [Scope.register?, u.locals_declare params]
      split
      · rw [lookup_assignRegister, if_neg other.1, Scope.register?]
      · rfl
    exact (ih other.2).trans step

/-- Parameters take at most one register each, and if they take no less, they are new and none is
listed twice. -/
theorem numLocals_declareAll {s : Scope} {names : List String}
    (listed : ∀ name ∈ names, name ∈ params) :
    (u.declareAll params s names).numLocals ≤ s.numLocals + names.length ∧
      ((u.declareAll params s names).numLocals = s.numLocals + names.length →
        names.Nodup ∧ ∀ name ∈ names, name ∉ s.locals.map Prod.fst) := by
  induction names generalizing s with
  | nil => exact ⟨Nat.le_refl _, fun _ => by simp⟩
  | cons name names ih =>
    have param : u.inRegister params name = true := by
      simp [inRegister, listed name List.mem_cons_self]
    have locals := u.locals_declare params s name
    rw [if_pos param] at locals
    have length : (u.declare params s name).numLocals =
        if name ∈ s.locals.map Prod.fst then s.numLocals else s.numLocals + 1 := by
      rw [Scope.numLocals, locals, length_assignRegister]
      rfl
    obtain ⟨bound, full⟩ :
        (u.declareAll params (u.declare params s name) names).numLocals ≤ _ ∧ _ :=
      ih fun other h => listed other (List.mem_cons_of_mem name h)
    have rest : u.declareAll params s (name :: names) =
        u.declareAll params (u.declare params s name) names := rfl
    rw [rest, List.length_cons]
    refine ⟨by split at length <;> omega, fun eq => ?_⟩
    -- an old name would leave a register less than there are parameters, whatever comes after
    have new : name ∉ s.locals.map Prod.fst := by
      intro old
      rw [if_pos old] at length
      omega
    rw [if_neg new] at length
    obtain ⟨distinct, later⟩ := full (by omega)
    refine ⟨List.nodup_cons.mpr ⟨fun again => ?_, distinct⟩, fun other mem => ?_⟩
    · exact later name again (by rw [locals, mem_names_assignRegister]; exact .inl rfl)
    · rcases List.mem_cons.mp mem with rfl | mem
      · exact new
      · intro old
        exact later other mem (by rw [locals, mem_names_assignRegister]; exact .inr old)

section repeated

variable (u : Usage) (front : List String) (last : String)

/-- The scope of a unit when all its parameters but the last one are declared. -/
def beforeLast : Scope :=
  u.declareAll (front ++ [last])
    ⟨[], u.free (front ++ [last]), (u.free (front ++ [last])).size, []⟩ front

/-- The names that a unit declares after its parameters. -/
def furtherNames (params : List String) : List String :=
  u.assigned.entries.filter fun name => !params.contains name

/-- No name that is declared after the parameters is declared twice. -/
theorem nodup_furtherNames (params : List String) : (u.furtherNames params).Nodup :=
  u.assigned.nodup.sublist List.filter_sublist

/-- No name that is declared after the parameters is a parameter. -/
theorem not_param_of_furtherNames {params : List String} {name : String}
    (h : name ∈ u.furtherNames params) : name ∉ params := by
  simpa using (List.mem_filter.mp h).2

/-- Closing a usage declares the last parameter after the others, and then the further names. -/
theorem close_eq_further : u.close (front ++ [last]) =
    u.declareAll (front ++ [last]) (u.declare (front ++ [last]) (u.beforeLast front last) last)
      (u.furtherNames (front ++ [last])) := by
  rw [close_eq, declared, List.append_assoc, declareAll_append]
  rfl

/-- The last parameter gets the next register, or keeps its place with that number. -/
theorem locals_declare_last :
    (u.declare (front ++ [last]) (u.beforeLast front last) last).locals =
      assignRegister last (u.beforeLast front last).numLocals (u.beforeLast front last).locals := by
  rw [u.locals_declare (front ++ [last]), if_pos (by simp [inRegister])]

/-- The last parameter gets the number of names before it. -/
theorem register?_last :
    (u.close (front ++ [last])).register? last = some (u.beforeLast front last).numLocals := by
  have other : last ∉ u.furtherNames (front ++ [last]) := fun h =>
    u.not_param_of_furtherNames h (by simp)
  rw [close_eq_further, register?_declareAll other, Scope.register?, locals_declare_last,
    lookup_assignRegister, if_pos rfl]

/-- If as many registers were given as there are parameters, none of these is repeated. -/
theorem nodup_of_numLocals_beforeLast (h : (u.beforeLast front last).numLocals = front.length) :
    front.Nodup := by
  refine ((numLocals_declareAll fun name mem => ?_).2 (h.trans (Nat.zero_add _).symm)).1
  exact List.mem_append_left _ mem

/-- The names that have registers before the last parameter is declared are the other parameters. -/
theorem mem_locals_beforeLast {name : String} :
    name ∈ (u.beforeLast front last).locals.map Prod.fst ↔ name ∈ front := by
  have param (h : name ∈ front) : u.inRegister (front ++ [last]) name = true := by
    simp [inRegister, h]
  rw [beforeLast, mem_names_declareAll]
  exact ⟨fun h => (h.resolve_left List.not_mem_nil).1, fun h => .inr ⟨h, param h⟩⟩

/-- If the last parameter was listed before, it takes no register of its own: what is declared next
gets the same one, and if nothing is, its register is not below the temporaries. -/
theorem shared_of_repeated (repeated : last ∈ front) :
    (u.close (front ++ [last])).numLocals = (u.beforeLast front last).numLocals ∨
      ∃ next, next ∉ front ++ [last] ∧
        (u.close (front ++ [last])).register? next = some (u.beforeLast front last).numLocals := by
  have length : (u.declare (front ++ [last]) (u.beforeLast front last) last).numLocals =
      (u.beforeLast front last).numLocals := by
    rw [Scope.numLocals, locals_declare_last, length_assignRegister,
      if_pos ((u.mem_locals_beforeLast front last).mpr repeated)]
    rfl
  have new : ∀ name ∈ u.furtherNames (front ++ [last]),
      name ∉ (u.declare (front ++ [last]) (u.beforeLast front last) last).locals.map Prod.fst := by
    intro name mem old
    rw [locals_declare_last, mem_names_assignRegister, mem_locals_beforeLast] at old
    exact u.not_param_of_furtherNames mem (by simp [old.symm])
  have table := @locals_declareAll u (front ++ [last]) _ _
    (u.nodup_furtherNames (front ++ [last])) new
  rw [close_eq_further]
  cases further : (u.furtherNames (front ++ [last])).filter (u.inRegister (front ++ [last])) with
  | nil =>
    left
    rw [Scope.numLocals, table, further, List.zipIdx_nil, List.append_nil]
    exact length
  | cons next names =>
    have mem : next ∈ u.furtherNames (front ++ [last]) :=
      (List.mem_filter.mp (further ▸ List.mem_cons_self)).1
    refine .inr ⟨next, u.not_param_of_furtherNames mem, ?_⟩
    rw [Scope.register?, table, further, List.lookup_append, List.lookup_eq_none_iff.mpr,
      List.zipIdx_cons, length]
    · simp
    · intro row hrow
      have apart : next ≠ row.1 := fun same =>
        new next mem (List.mem_map.mpr ⟨row, hrow, same.symm⟩)
      simpa using apart

end repeated

/-- If the registers are in order, no parameter is listed twice. -/
theorem nodup_of_laidOut (h : (u.close params).LaidOut params) : params.Nodup := by
  rcases List.eq_nil_or_concat params with rfl | ⟨front, last, eq⟩
  · exact List.nodup_nil
  obtain rfl : params = front ++ [last] := eq.trans List.concat_eq_append
  obtain ⟨r, register, argument, latest⟩ := h.arrives last (by simp)
  -- The last argument for the last parameter is the last argument of all.
  have arrival : r = front.length := by
    have bound := (List.getElem?_eq_some_iff.mp argument).1
    have := latest front.length (by simp)
    simp only [List.length_append, List.length_singleton] at bound
    omega
  have place := u.register?_last front last
  have count : (u.beforeLast front last).numLocals = front.length :=
    arrival ▸ (Option.some.inj (register.symm.trans place)).symm
  have distinct := u.nodup_of_numLocals_beforeLast front last count
  have new : last ∉ front := by
    intro repeated
    rcases u.shared_of_repeated front last repeated with full | ⟨next, other, same⟩
    · have below := h.register_lt place
      omega
    · exact other (by simp [h.register_inj same place])
  exact List.nodup_append.mpr ⟨distinct, by simp, fun a ha b hb same =>
    new (List.mem_singleton.mp hb ▸ same ▸ ha)⟩

/-- If no parameter is listed twice, the registers are in order. -/
theorem laidOut_of_nodup (distinct : params.Nodup) : (u.close params).LaidOut params where
  register_lt := (tidy_close distinct).register_lt
  register_inj := (tidy_close distinct).register_inj
  arrives name mem := by
    obtain ⟨r, bound, rfl⟩ := List.mem_iff_getElem.mp mem
    have kept : (u.declared params).filter (u.inRegister params) =
        params ++ (u.assigned.entries.filter fun name => !params.contains name).filter
          (u.inRegister params) := by
      rw [declared, List.filter_append, List.filter_eq_self.mpr fun name mem => by
        simp [inRegister, mem]]
    refine ⟨r, ?_, List.getElem?_eq_getElem bound, fun k hk => ?_⟩
    · rw [register?_close distinct, kept, List.getElem?_append_left bound,
        List.getElem?_eq_getElem bound]
    · rw [← List.getElem?_eq_getElem bound] at hk
      exact Nat.le_of_eq ((List.getElem?_inj bound distinct).mp hk.symm).symm

/-- The registers of a unit are in order exactly if no parameter is listed twice. -/
theorem laidOut_iff_nodup : (u.close params).LaidOut params ↔ params.Nodup :=
  ⟨nodup_of_laidOut, laidOut_of_nodup⟩

end Usage

/-! ## The lambdas of a tree -/

/-- The lambda stands in the tree, directly or in the body of another one that does. -/
inductive Node.Encloses : Node → Lambda → Prop where
  | direct {n : Node} {l : Lambda} : l ∈ n.lambdas → n.Encloses l
  | inside {n : Node} {l inner : Lambda} :
      l ∈ n.lambdas → l.body.Encloses inner → n.Encloses inner

/-- If the lambdas directly in a tree are resolved, all its lambdas are. -/
theorem Node.Encloses.resolved {n : Node} {l : Lambda} (h : n.Encloses l)
    (outer : ∀ l ∈ n.lambdas, ∃ l₀ : Lambda, l = l₀.resolve) : ∃ l₀ : Lambda, l = l₀.resolve := by
  induction h with
  | direct mem => exact outer _ mem
  | inside mem _ ih =>
    obtain ⟨l₀, rfl⟩ := outer _ mem
    exact ih (l₀.body.resolved_bindNames l₀.ownScope).lambdas

/-- Resolving a program resolves its lambdas, whether or not a name in it is undefined. -/
theorem Node.resolved_of_encloses {program : Node} {l : Lambda}
    (h : program.resolveProgram.1.Encloses l) : ∃ l₀ : Lambda, l = l₀.resolve := by
  refine h.resolved fun l mem => ?_
  have same : program.resolveProgram.1.lambdas = program.resolveLambdas.lambdas := by
    simp only [resolveProgram]
    split
    · exact lambdas_bindNames _ _
    · rfl
  rw [same, lambdas_resolveLambdas, List.mem_map] at mem
  obtain ⟨l₀, -, rfl⟩ := mem
  exact ⟨l₀, rfl⟩

/-- **Registers of names.** The registers of a lambda are in order exactly if no parameter is listed
twice, whether the lambda is resolved on its own or stands anywhere in a program that is resolved.
The registers of a program are always in order. -/
theorem registers_laidOut (program : Node) (l : Lambda) :
    (∃ s, l.resolve.scope = some s ∧ (s.LaidOut l.params ↔ l.params.Nodup)) ∧
    (program.resolveProgram.1.Encloses l →
      ∃ s, l.scope = some s ∧ (s.LaidOut l.params ↔ l.params.Nodup)) ∧
    ∀ s, program.resolveProgram.2 = .ok s → s.LaidOut [] := by
  have alone (l : Lambda) :
      ∃ s, l.resolve.scope = some s ∧ (s.LaidOut l.params ↔ l.params.Nodup) :=
    ⟨l.ownScope, rfl, Usage.laidOut_iff_nodup⟩
  refine ⟨alone l, fun h => ?_, fun s h => ?_⟩
  · obtain ⟨l₀, rfl⟩ := Node.resolved_of_encloses h
    exact alone l₀
  · obtain ⟨rfl, -, -⟩ := Node.resolveProgram_ok (Prod.ext rfl h)
    exact Usage.laidOut_of_nodup List.nodup_nil

/-- `f = (a, b) => b`: the registers of the lambda are in order. -/
theorem distinctParameters_laidOut :
    let program : Node := .assign "f" (.lambda ["a", "b"] (.var "b" none) none) none
    ∃ l s, program.resolveProgram.1.Encloses l ∧ l.params = ["a", "b"] ∧ l.scope = some s ∧
      s.LaidOut ["a", "b"] := by
  intro program
  have inside :
      program.resolveProgram.1.Encloses (Lambda.resolve ⟨["a", "b"], .var "b" none, none⟩) :=
    .direct List.mem_cons_self
  obtain ⟨s, scope, order⟩ := (registers_laidOut program _).2.1 inside
  exact ⟨_, s, inside, rfl, scope, order.mpr (by decide)⟩

/-- `(x, x, y) => y` can be read. Its names have one register, and the argument for `y` arrives in
another one. -/
theorem repeatedParameter_shared :
    let word (text : String) : Token := ⟨.word, .text text, ⟨0, 0⟩⟩
    let mark (kind : TokenKind) : Token := ⟨kind, .none, ⟨0, 0⟩⟩
    let l : Lambda := ⟨["x", "x", "y"], .var "y" none, none⟩
    parse .default [mark .openParen, word "x", mark .comma, word "x", mark .comma, word "y",
        mark .closeParen, mark .arrow, word "y", mark .terminator] = .ok l.toNode ∧
      l.ownScope.register? "x" = some 1 ∧ l.ownScope.register? "y" = some 1 ∧
        ¬ l.ownScope.LaidOut l.params := by
  intro word mark l
  have x : l.ownScope.register? "x" = some 1 := rfl
  have y : l.ownScope.register? "y" = some 1 := rfl
  exact ⟨Grammar.parse_ok_iff.mpr rfl, x, y, fun laidOut =>
    absurd (laidOut.register_inj x y) (by decide)⟩

end ClosureLang
