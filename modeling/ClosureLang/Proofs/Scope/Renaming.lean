import Mathlib.Logic.Embedding.Basic
import Mathlib.Data.List.Nodup
import ClosureLang.Proofs.NameTable
import ClosureLang.Scope.Usage

/-!
# Renaming variables

Renaming replaces the names of the variables of a tree, different names by different ones, and
leaves everything else as it is: operators, methods, attributes and literals, and also what was
attached to the tree before.

The scope of a unit follows its names. In the scope of the renamed unit the new name lives where the
old name lives in the scope of the unit. What names look like makes no difference, because they are
numbered in the order in which the walk meets them, and all that is ever asked about two names is
whether they are equal.
-/

set_option autoImplicit false

namespace ClosureLang

variable (r : String ↪ String)

/-! ## Tables -/

namespace NameTable

/-- The table with its names renamed. -/
def rename (t : NameTable) : NameTable := ⟨t.entries.map r, t.nodup.map r.injective⟩

@[simp] theorem entries_rename (t : NameTable) : (t.rename r).entries = t.entries.map r := rfl

@[simp] theorem size_rename (t : NameTable) : (t.rename r).size = t.size := List.length_map _

/-- A renamed name has the number that the name has. -/
@[simp] theorem index?_rename (t : NameTable) (name : String) :
    (t.rename r).index? (r name) = t.index? name := by
  refine Option.ext fun i => ?_
  rw [index?_eq_some_iff, index?_eq_some_iff, entries_rename, List.getElem?_map]
  simp

/-- A new name enters the renamed table as the old one enters the table. -/
theorem rename_insert (t : NameTable) (name : String) :
    (t.insert name).rename r = (t.rename r).insert (r name) := by
  have known : r name ∈ (t.rename r).entries ↔ name ∈ t.entries :=
    List.mem_map_of_injective r.injective
  apply eq_of_entries
  rw [entries_rename, entries_insert, entries_insert]
  simp only [known]
  split <;> simp

/-- New names enter the renamed table as the old ones enter the table. -/
theorem rename_insertAll (t : NameTable) (names : List String) :
    (t.insertAll names).rename r = (t.rename r).insertAll (names.map r) := by
  induction names generalizing t with
  | nil => rfl
  | cons name names ih => rw [insertAll_cons, ih, rename_insert, List.map_cons, insertAll_cons]

/-- The entries that are kept are the renamed ones, if what is asked of the new names has the same
answers. -/
theorem rename_filter {keep keep' : String → Bool} (same : ∀ name, keep' (r name) = keep name)
    (t : NameTable) : (t.filter keep).rename r = (t.rename r).filter keep' := by
  apply eq_of_entries
  simp [List.filter_map, Function.comp_def, same]

end NameTable

/-! ## Scopes -/

namespace Scope

/-- The scope with its names renamed. -/
def rename (s : Scope) : Scope :=
  { s with locals := s.locals.map fun row => (r row.1, row.2), refs := s.refs.rename r }

/-- The renamed scope has as many registers. -/
@[simp] theorem numLocals_rename (s : Scope) : (s.rename r).numLocals = s.numLocals :=
  List.length_map _

/-- The renamed scope has as many cells. -/
@[simp] theorem numRefs_rename (s : Scope) : (s.rename r).numRefs = s.numRefs :=
  s.refs.size_rename r

/-- The names that the renamed scope receives are the new ones. -/
@[simp] theorem capturedNames_rename (s : Scope) :
    (s.rename r).capturedNames = s.capturedNames.map r := List.map_take.symm

/-- The new name has the cell of the old one. -/
@[simp] theorem slot?_rename (s : Scope) (name : String) :
    (s.rename r).slot? (r name) = s.slot? name := s.refs.index?_rename r name

/-- The new name is found with the number of the old one. -/
theorem lookup_rename (rows : List (String × Nat)) (name : String) :
    (rows.map fun row => (r row.1, row.2)).lookup (r name) = rows.lookup name := by
  induction rows with
  | nil => rfl
  | cons row rows ih =>
    rw [List.map_cons, List.lookup_cons, List.lookup_cons, ih]
    by_cases same : name = row.1
    · simp [same]
    · simp [same, beq_eq_false_iff_ne.mpr]

/-- The new name has the register of the old one. -/
@[simp] theorem register?_rename (s : Scope) (name : String) :
    (s.rename r).register? (r name) = s.register? name := lookup_rename r s.locals name

/-- A renamed name lives where the name lives. -/
@[simp] theorem binding?_rename (s : Scope) (name : String) :
    (s.rename r).binding? (r name) = s.binding? name := by
  rw [binding?, slot?_rename, register?_rename, binding?]

end Scope

/-- Giving a register to the new name is giving it to the old one. -/
theorem assignRegister_rename (name : String) (register : Nat) (rows : List (String × Nat)) :
    assignRegister (r name) register (rows.map fun row => (r row.1, row.2)) =
      (assignRegister name register rows).map fun row => (r row.1, row.2) := by
  induction rows with
  | nil => rfl
  | cons row rows ih =>
    rw [List.map_cons, assignRegister, assignRegister, ih]
    simp only [r.injective.eq_iff]
    split <;> rfl

/-! ## Trees -/

namespace Node

mutual

/-- The tree with its variables renamed. The names of definitions and of their parameters are not
those of variables. -/
def rename : Node → Node
  | .var name binding => .var (r name) binding
  | .invoke name args binding => .invoke (r name) (renameAll args) binding
  | .assign name value binding => .assign (r name) value.rename binding
  | .lambda params body scope => .lambda (params.map r) body.rename scope
  | .operator name left right => .operator name left.rename right.rename
  | .call method receiver args => .call method receiver.rename (renameAll args)
  | .block items => .block (renameAll items)
  | .conditional condition body => .conditional condition.rename body.rename
  | .loop condition body => .loop condition.rename body.rename
  | .step direction operand => .step direction operand.rename
  | .attr name receiver => .attr name receiver.rename
  | .attrAssign name receiver value => .attrAssign name receiver.rename value.rename
  | .definition name params body => .definition name params body.rename
  | .classDef name body => .classDef name body.rename
  | node => node

/-- The trees of a list with their variables renamed. -/
def renameAll : List Node → List Node
  | [] => []
  | node :: nodes => node.rename :: renameAll nodes

end

/-- Renaming keeps how many trees there are. -/
@[simp] theorem length_renameAll (ns : List Node) : (renameAll r ns).length = ns.length := by
  induction ns with
  | nil => rfl
  | cons n ns ih => simp [renameAll, ih]

end Node

/-! ## The walk -/

namespace Usage

/-- What a walk over the renamed unit meets. -/
def rename (u : Usage) : Usage := ⟨u.assigned.rename r, u.used.rename r, u.lent.rename r⟩

/-- The new name is assigned as the old one. -/
theorem rename_assign (u : Usage) (name : String) :
    (u.assign name).rename r = (u.rename r).assign (r name) := by
  simp [rename, assign, NameTable.rename_insert]

/-- The new name is used as the old one. -/
theorem rename_use (u : Usage) (name : String) :
    (u.use name).rename r = (u.rename r).use (r name) := by
  simp [rename, use, NameTable.rename_insert]

/-- The new names are lent as the old ones. -/
theorem rename_lend (u : Usage) (names : List String) :
    (u.lend names).rename r = (u.rename r).lend (names.map r) := by
  simp [rename, lend, NameTable.rename_insertAll]

/-- The new name is one of the new names exactly if the old one is one of the old. -/
theorem contains_map_rename (names : List String) (name : String) :
    (names.map r).contains (r name) = names.contains name := by
  rw [Bool.eq_iff_iff]
  simp

/-- The renamed unit declares the new name exactly if the unit declares the old one. -/
theorem declares_rename (u : Usage) (params : List String) (name : String) :
    (u.rename r).declares (params.map r) (r name) = u.declares params name :=
  congrArg₂ or (contains_map_rename r params name) (contains_map_rename r u.assigned.entries name)

/-- The free names of the renamed unit are the new ones, in the same order. -/
theorem free_rename (u : Usage) (params : List String) :
    (u.rename r).free (params.map r) = (u.free params).rename r :=
  .symm <| NameTable.rename_filter r (fun name => by rw [declares_rename]) u.used

/-- The declared names of the renamed unit are the new ones, in the same order. -/
theorem declared_rename (u : Usage) (params : List String) :
    (u.rename r).declared (params.map r) = (u.declared params).map r := by
  have others (name : String) : (!(params.map r).contains (r name)) = !params.contains name := by
    rw [contains_map_rename]
  rw [declared, declared, List.map_append]
  refine congrArg _ ?_
  rw [show (u.rename r).assigned.entries = u.assigned.entries.map r from rfl, List.filter_map]
  simp only [Function.comp_def, others]

/-- Declaring a renamed name. -/
theorem declare_rename (u : Usage) (params : List String) (s : Scope) (name : String) :
    (u.rename r).declare (params.map r) (s.rename r) (r name) =
      (u.declare params s name).rename r := by
  have param := contains_map_rename r params name
  have boxed : (u.rename r).lent.entries.contains (r name) = u.lent.entries.contains name :=
    contains_map_rename r u.lent.entries name
  have slot : (s.refs.rename r).intern (r name) =
      ((s.refs.intern name).1, (s.refs.intern name).2.rename r) := by
    simp [NameTable.intern, NameTable.rename_insert]
  have locals : (s.rename r).locals = s.locals.map fun row => (r row.1, row.2) := rfl
  have refs : (s.rename r).refs = s.refs.rename r := rfl
  have boxedParams : (s.rename r).boxedParams = s.boxedParams := rfl
  have captured : (s.rename r).captured = s.captured := rfl
  simp only [declare, param, boxed, locals, refs, boxedParams, captured, slot,
    Scope.numLocals_rename, assignRegister_rename]
  simp only [Scope.rename]
  split <;> split <;> rfl

/-- The scope of a renamed unit is the renamed scope. -/
theorem close_rename (u : Usage) (params : List String) :
    (u.rename r).close (params.map r) = (u.close params).rename r := by
  have declaring (names : List String) (s : Scope) :
      (names.map r).foldl ((u.rename r).declare (params.map r)) (s.rename r) =
        (names.foldl (u.declare params) s).rename r := by
    induction names generalizing s with
    | nil => rfl
    | cons name names ih => rw [List.map_cons, List.foldl_cons, declare_rename, ih, List.foldl_cons]
  rw [close, close, free_rename, declared_rename, NameTable.size_rename]
  exact declaring _ ⟨[], u.free params, (u.free params).size, []⟩

mutual

/-- The walk over a renamed tree meets the renamed names. -/
theorem walk_rename : ∀ (n : Node) (u : Usage),
    (u.rename r).walk (n.rename r) = (u.walk n).rename r
  | .var name _, u => (rename_use r u name).symm
  | .invoke name args _, u => by
    rw [Node.rename, walk, ← rename_use, walkAll_rename args, walk]
  | .assign name value _, u => by
    rw [Node.rename, walk, ← rename_assign, walk_rename value, walk]
  | .lambda params body _, u => by
    have empty : rename r ∅ = ∅ := rfl
    have inner := walk_rename body ∅
    rw [empty] at inner
    rw [Node.rename, walk, walk, inner, close_rename, Scope.capturedNames_rename, rename_lend]
  | .operator _ left right, u => by
    rw [Node.rename, walk, walk_rename left, walk_rename right, walk]
  | .call _ receiver args, u => by
    rw [Node.rename, walk, walk_rename receiver, walkAll_rename args, walk]
  | .block items, u => by rw [Node.rename, walk, walkAll_rename items, walk]
  | .conditional condition body, u => by
    rw [Node.rename, walk, walk_rename condition, walk_rename body, walk]
  | .loop condition body, u => by
    rw [Node.rename, walk, walk_rename condition, walk_rename body, walk]
  | .step _ operand, u => by rw [Node.rename, walk, walk_rename operand, walk]
  | .attr _ receiver, u => by rw [Node.rename, walk, walk_rename receiver, walk]
  | .attrAssign _ receiver value, u => by
    rw [Node.rename, walk, walk_rename receiver, walk_rename value, walk]
  | .integer _, _ | .string _, _ | .atom _, _ | .boolean _, _ | .nil, _ | .instanceVar _, _ => rfl
  | .importPath _, _ | .definition .., _ | .classDef .., _ | .has .., _ | .comment _, _ => rfl

/-- The walk over renamed trees meets the new names as the walk over the trees meets the old
ones. -/
theorem walkAll_rename : ∀ (ns : List Node) (u : Usage),
    (u.rename r).walkAll (Node.renameAll r ns) = (u.walkAll ns).rename r
  | [], _ => rfl
  | n :: ns, u => by rw [Node.renameAll, walkAll, walk_rename n, walkAll_rename ns, walkAll]

end

end Usage

/-- The scope of a renamed unit is the renamed scope of the unit. -/
theorem ofUnit_rename (params : List String) (body : Node) :
    Scope.ofUnit (params.map r) (body.rename r) = (Scope.ofUnit params body).rename r := by
  rw [Scope.ofUnit, Scope.ofUnit, ← Usage.close_rename, ← Usage.walk_rename]
  rfl

end ClosureLang
