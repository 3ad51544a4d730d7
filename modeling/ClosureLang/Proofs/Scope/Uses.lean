import ClosureLang.Proofs.Scope.Resolution

/-!
# Undeclared names

A name may be used in a unit if the unit, or a unit around it, declares it. The uses of a tree are
listed in the order of the walk, each with the units around it, and what a program would receive
from outside are the names of its undeclared uses. So the name with which resolving fails is that of
the first undeclared use.

The resolver never sees these uses as such. It finds the free names of each lambda, adds them to
what is used in the unit around it, and goes on outward; the order in which names come out at the
outermost unit is that of their first uses, because each table keeps names where they were first
entered. `undeclaredIn` follows this for any number of units around a tree: a name stays undeclared
if none of them declares it. Reading the uses of a lambda's body with one unit more around them
(`undeclared_uses`) is then the same as taking the names that the lambda receives.
-/

set_option autoImplicit false

namespace ClosureLang

/-- A place where a name is read or called, with the units around it from the inside out. -/
structure Use where
  name : String
  units : List Lambda

/-- Some unit around the use declares its name. -/
def Use.Declared (use : Use) : Prop :=
  ∃ l ∈ use.units, l.body.Declares l.params use.name

/-- A program is the body of a unit without parameters. -/
def Node.asUnit (program : Node) : Lambda := ⟨[], program, none⟩

namespace Node

mutual

/-- The uses of names in a tree that stands in the given units, from left to right. Definitions and
classes are left out. -/
def uses (units : List Lambda) : Node → List Use
  | .var name _ => [⟨name, units⟩]
  | .invoke name args _ => ⟨name, units⟩ :: usesAll units args
  | .assign _ value _ => value.uses units
  | .lambda params body scope => body.uses (⟨params, body, scope⟩ :: units)
  | .operator _ left right => left.uses units ++ right.uses units
  | .call _ receiver args => receiver.uses units ++ usesAll units args
  | .block items => usesAll units items
  | .conditional condition body => condition.uses units ++ body.uses units
  | .loop condition body => condition.uses units ++ body.uses units
  | .step _ operand => operand.uses units
  | .attr _ receiver => receiver.uses units
  | .attrAssign _ receiver value => receiver.uses units ++ value.uses units
  | _ => []

/-- The uses of names in the trees of a list. -/
def usesAll (units : List Lambda) : List Node → List Use
  | [] => []
  | n :: ns => n.uses units ++ usesAll units ns

end

/-- Whether a unit declares a name can be seen from the walk over it. -/
instance (params : List String) (body : Node) (name : String) :
    Decidable (body.Declares params name) := decidable_of_iff _ declares_walk

end Node

instance (use : Use) : Decidable use.Declared :=
  inferInstanceAs (Decidable (∃ l ∈ use.units, l.body.Declares l.params use.name))

/-- The names that no unit around their use declares, in the order of their uses. -/
def undeclared (uses : List Use) : List String :=
  (uses.filter fun use => ¬ use.Declared).map Use.name

/-- The undeclared names of two lists of uses are those of the one and then those of the other. -/
theorem undeclared_append (uses more : List Use) :
    undeclared (uses ++ more) = undeclared uses ++ undeclared more := by
  simp [undeclared]

/-- The undeclared names of a list begin with those of its first use. -/
theorem undeclared_cons (use : Use) (uses : List Use) :
    undeclared (use :: uses) = undeclared [use] ++ undeclared uses :=
  undeclared_append [use] uses

/-! ## What a unit would receive -/

namespace NameTable

/-- Adding some of the entries of a table is adding those of the names from which the table was
made, in their order. -/
theorem insertAll_filter (u t : NameTable) (keep : String → Bool) (names : List String) :
    u.insertAll ((t.insertAll names).entries.filter keep) =
      (u.insertAll (t.entries.filter keep)).insertAll (names.filter keep) := by
  induction names generalizing t with
  | nil => rfl
  | cons name names ih =>
    rw [insertAll_cons, ih, List.filter_cons, entries_insert]
    by_cases present : name ∈ t.entries
    · rw [if_pos present]
      split
      · next kept =>
        have mem : name ∈ u.insertAll (t.entries.filter keep) :=
          mem_insertAll.mpr (.inr (List.mem_filter.mpr ⟨present, kept⟩))
        have same : (u.insertAll (t.entries.filter keep)).insert name = _ := dif_pos mem
        rw [insertAll_cons, same]
      · rfl
    · rw [if_neg present, List.filter_append, insertAll_append]
      by_cases kept : keep name = true
      · rw [if_pos kept, List.filter_cons_of_pos kept, List.filter_nil, insertAll_cons,
          insertAll_cons, insertAll_nil]
      · rw [if_neg kept, List.filter_cons_of_neg kept, List.filter_nil, insertAll_nil]

/-- The first name that is added to the empty table is its first entry. -/
theorem head?_insertAll_empty (names : List String) :
    ((∅ : NameTable).insertAll names).entries.head? = names.head? := by
  cases names with
  | nil => rfl
  | cons name names =>
    obtain ⟨more, eq⟩ := continues_insertAll ((∅ : NameTable).insert name) names
    rw [insertAll_cons, ← eq]
    rfl

end NameTable

namespace Node

/-- The names that none of the given units declares. -/
def undeclaredIn (units : List Lambda) (names : List String) : List String :=
  names.filter fun name => ¬ Use.Declared ⟨name, units⟩

/-- The names that no unit declares are found part by part. -/
theorem undeclaredIn_append (units : List Lambda) (names more : List String) :
    undeclaredIn units (names ++ more) = undeclaredIn units names ++ undeclaredIn units more :=
  List.filter_append ..

/-- A use is undeclared in more units if it is in the inner ones and its name is in the others. -/
theorem undeclared_single (name : String) (units more : List Lambda) :
    undeclared [⟨name, units ++ more⟩] = undeclaredIn more (undeclared [⟨name, units⟩]) := by
  have declared : Use.Declared ⟨name, units ++ more⟩ ↔
      Use.Declared ⟨name, units⟩ ∨ Use.Declared ⟨name, more⟩ := by
    simp only [Use.Declared, List.mem_append, or_and_right, exists_or]
  by_cases inner : Use.Declared ⟨name, units⟩ <;> by_cases outer : Use.Declared ⟨name, more⟩ <;>
    simp [undeclared, undeclaredIn, declared, inner, outer]

mutual

/-- The uses that stay undeclared if there are more units around the tree. -/
theorem undeclared_uses (units more : List Lambda) : ∀ n : Node,
    undeclared (n.uses (units ++ more)) = undeclaredIn more (undeclared (n.uses units))
  | .var name _ => undeclared_single name units more
  | .invoke name args _ => by
    rw [uses, uses, undeclared_cons, undeclared_cons ⟨name, units⟩, undeclaredIn_append,
      undeclared_single name units more, undeclared_usesAll units more args]
  | .assign _ value _ => undeclared_uses units more value
  | .lambda params body scope => undeclared_uses (⟨params, body, scope⟩ :: units) more body
  | .operator _ left right => by
    simp only [uses, undeclared_append, undeclaredIn_append, undeclared_uses units more left,
      undeclared_uses units more right]
  | .call _ receiver args => by
    simp only [uses, undeclared_append, undeclaredIn_append, undeclared_uses units more receiver,
      undeclared_usesAll units more args]
  | .block items => undeclared_usesAll units more items
  | .conditional condition body => by
    simp only [uses, undeclared_append, undeclaredIn_append, undeclared_uses units more condition,
      undeclared_uses units more body]
  | .loop condition body => by
    simp only [uses, undeclared_append, undeclaredIn_append, undeclared_uses units more condition,
      undeclared_uses units more body]
  | .step _ operand => undeclared_uses units more operand
  | .attr _ receiver => undeclared_uses units more receiver
  | .attrAssign _ receiver value => by
    simp only [uses, undeclared_append, undeclaredIn_append, undeclared_uses units more receiver,
      undeclared_uses units more value]
  | .integer _ | .string _ | .atom _ | .boolean _ | .nil | .instanceVar _ => rfl
  | .importPath _ | .definition .. | .classDef .. | .has .. | .comment _ => rfl

/-- The undeclared names of trees in nested units are those of the inner units that the outer ones
do not declare either. -/
theorem undeclared_usesAll (units more : List Lambda) : ∀ ns : List Node,
    undeclared (usesAll (units ++ more) ns) = undeclaredIn more (undeclared (usesAll units ns))
  | [] => rfl
  | n :: ns => by
    simp only [usesAll, undeclared_append, undeclaredIn_append, undeclared_uses units more n,
      undeclared_usesAll units more ns]

end

end Node

/-- A unit receives the undeclared names of its body, if they are among `used`. -/
theorem free_eq_undeclaredIn (l : Lambda) {names : List String}
    (used : (Usage.walk ∅ l.body).used = (∅ : NameTable).insertAll names) (t : NameTable) :
    t.insertAll l.ownScope.capturedNames = t.insertAll (Node.undeclaredIn [l] names) := by
  have keep (name : String) : (!(Usage.walk ∅ l.body).declares l.params name) =
      decide (¬ Use.Declared ⟨name, [l]⟩) := by
    have declared : Use.Declared ⟨name, [l]⟩ ↔
        (Usage.walk ∅ l.body).declares l.params name = true := by
      simp [Use.Declared, declares_walk]
    simp [declared]
  rw [Lambda.ownScope, Scope.ofUnit, Usage.capturedNames_close, Usage.free,
    NameTable.entries_filter, used, NameTable.insertAll_filter, Node.undeclaredIn]
  simp only [keep]
  rfl

mutual

/-- The walk meets the uses that the lambdas in the tree leave undeclared. -/
theorem used_walk : ∀ (n : Node) (u : Usage),
    (u.walk n).used = u.used.insertAll (undeclared (n.uses []))
  | .var name _, u => rfl
  | .invoke name args _, u => by
    rw [Node.uses, undeclared_cons, NameTable.insertAll_append]
    exact usedAll_walk args (u.use name)
  | .assign name value _, u => used_walk value (u.assign name)
  | .lambda params body scope, u => by
    have inner := free_eq_undeclaredIn ⟨params, body, scope⟩ (used_walk body ∅) u.used
    rw [← Node.undeclared_uses [] [⟨params, body, scope⟩] body] at inner
    exact inner
  | .operator _ left right, u => by
    rw [Node.uses, undeclared_append, NameTable.insertAll_append, ← used_walk left]
    exact used_walk right _
  | .call _ receiver args, u => by
    rw [Node.uses, undeclared_append, NameTable.insertAll_append, ← used_walk receiver]
    exact usedAll_walk args _
  | .block items, u => usedAll_walk items u
  | .conditional condition body, u => by
    rw [Node.uses, undeclared_append, NameTable.insertAll_append, ← used_walk condition]
    exact used_walk body _
  | .loop condition body, u => by
    rw [Node.uses, undeclared_append, NameTable.insertAll_append, ← used_walk condition]
    exact used_walk body _
  | .step _ operand, u => used_walk operand u
  | .attr _ receiver, u => used_walk receiver u
  | .attrAssign _ receiver value, u => by
    rw [Node.uses, undeclared_append, NameTable.insertAll_append, ← used_walk receiver]
    exact used_walk value _
  | .integer _, u | .string _, u | .atom _, u | .boolean _, u | .nil, u | .instanceVar _, u => rfl
  | .importPath _, u | .definition .., u | .classDef .., u | .has .., u | .comment _, u => rfl

/-- Walking over trees uses their undeclared names, in the order in which they come. -/
theorem usedAll_walk : ∀ (ns : List Node) (u : Usage),
    (u.walkAll ns).used = u.used.insertAll (undeclared (Node.usesAll [] ns))
  | [], u => rfl
  | n :: ns, u => by
    rw [Node.usesAll, undeclared_append, NameTable.insertAll_append, ← used_walk n]
    exact usedAll_walk ns _

end

/-- The first name that a unit would receive is that of the first use in it that it leaves
undeclared. -/
theorem head?_capturedNames (l : Lambda) :
    l.ownScope.capturedNames.head? = (undeclared (l.body.uses [l])).head? := by
  have same := free_eq_undeclaredIn l (used_walk l.body ∅) ∅
  rw [← NameTable.head?_insertAll_empty l.ownScope.capturedNames, same,
    NameTable.head?_insertAll_empty]
  exact congrArg List.head? (Node.undeclared_uses [] [l] l.body).symm

end ClosureLang
