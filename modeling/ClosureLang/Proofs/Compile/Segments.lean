import ClosureLang.Proofs.Compile.Addressing
import ClosureLang.Proofs.Machine.Operands

/-!
# Segments of code

A segment is a part of a unit's code that can stand where it stands: what its instructions name is
there, branches lead forward and jumps back, and neither leads out of the segment or to one of the
operands after the making of a closure. It does not return, so a run that enters it at the beginning
leaves it at the end. Segments that follow one another are one segment.

A loop is built from parts that lead to its beginning and to its end, which the parts do not know.
So a segment may have exits, places to which it leads although they are not its own. A single branch
or jump is such a segment. When the parts of a loop or of a condition are put together, the exits
are the beginning and the end of the whole, and these are its own (`enclosed`).

An operand after the making of a closure is told by where it stands and not by what it looks like
(`Spans`). A segment has all the operands of the closures that are made in it, so neither its end
nor what follows it is one of them.
-/

set_option autoImplicit false

namespace ClosureLang

/-- Whether an instruction ends the unit. -/
def Instruction.isReturn : Instruction → Bool
  | .ret _ => true
  | _ => false

/-- Whether the run goes on with the next instruction, whatever happens. -/
def Instruction.isPlain : Instruction → Bool
  | .branchUnless .. | .jump _ | .createLambda .. | .ret _ => false
  | _ => true

/-- What the instruction names is there, in a unit with so many registers, cells and literals. -/
structure Instruction.Within (registers refs literals : Nat) (i : Instruction) : Prop where
  register_lt : ∀ r ∈ i.registers, r < registers
  slot_lt : ∀ slot ∈ i.slot?, slot < refs
  literal_lt : ∀ literal ∈ i.literal?, literal < literals

/-- At position `pos` of the instructions there is an operand of the making of a closure. -/
def Spans (is : List Instruction) (pos : Nat) : Prop :=
  ∃ maker dst arity refs unit, is[maker]? = some (.createLambda dst arity refs unit) ∧
    maker < pos ∧ pos ≤ maker + refs

/-- The instructions can stand at `start` in a unit with so many registers, cells and literals, and
lead nowhere else but to the exits. -/
structure Segment (registers refs literals : Nat) (exits : Nat → Prop) (start : Nat)
    (is : List Instruction) : Prop where
  within : ∀ i ∈ is, i.Within registers refs literals
  runs : ∀ i ∈ is, i.isReturn = false
  forward : ∀ k cond t, is[k]? = some (.branchUnless cond t) → start + k < t
  backward : ∀ k t, is[k]? = some (.jump t) → t < start + k
  lands : ∀ i ∈ is, ∀ t ∈ i.target?, exits t ∨ ∃ j ≤ is.length, t = start + j ∧ ¬ Spans is j
  operands : ∀ k dst arity refs unit, is[k]? = some (.createLambda dst arity refs unit) →
    k + refs < is.length ∧ ∀ j < refs, ∃ slot, is[k + 1 + j]? = some (.readCell 0 slot)

section

variable {is is' : List Instruction} {pos : Nat}

/-- The first position is never an operand: the making would have to stand before it. -/
theorem not_spans_zero : ¬ Spans is 0 :=
  fun ⟨_, _, _, _, _, _, before, _⟩ => Nat.not_lt_zero _ before

/-- An operand in a list of two parts belongs to a making in one of them. That a making in the first
part has its operands there, too, is not said here; segments see to it. -/
theorem spans_append : Spans (is ++ is') pos ↔
    Spans is pos ∨ ∃ pos', pos = is.length + pos' ∧ Spans is' pos' := by
  constructor
  · rintro ⟨maker, dst, arity, refs, unit, made, before, until_⟩
    rcases Nat.lt_or_ge maker is.length with first | second
    · rw [List.getElem?_append_left first] at made
      exact .inl ⟨maker, dst, arity, refs, unit, made, before, until_⟩
    · rw [List.getElem?_append_right second] at made
      exact .inr ⟨pos - is.length, by omega, maker - is.length, dst, arity, refs, unit, made,
        by omega, by omega⟩
  · rintro (⟨maker, dst, arity, refs, unit, made, before, until_⟩ |
      ⟨pos', rfl, maker, dst, arity, refs, unit, made, before, until_⟩)
    · have first := (List.getElem?_eq_some_iff.mp made).1
      rw [← List.getElem?_append_left first] at made
      exact ⟨maker, dst, arity, refs, unit, made, before, until_⟩
    · refine ⟨is.length + maker, dst, arity, refs, unit, ?_, by omega, by omega⟩
      rw [List.getElem?_append_right (Nat.le_add_right ..), Nat.add_sub_cancel_left, made]

end

namespace Segment

variable {registers refs literals : Nat} {exits : Nat → Prop} {start : Nat}
  {is is' : List Instruction}

/-- The operands of a segment end before it does. -/
theorem not_spans_of_length_le (h : Segment registers refs literals exits start is) {pos : Nat}
    (le : is.length ≤ pos) : ¬ Spans is pos := by
  rintro ⟨maker, dst, arity, refs, unit, made, -, until_⟩
  have := (h.operands maker dst arity refs unit made).1
  omega

/-- The operands of a closure end where its making says. -/
theorem not_spans_after (h : Segment registers refs literals exits start is)
    {k dst arity count unit : Nat} (making : is[k]? = some (.createLambda dst arity count unit)) :
    ¬ Spans is (k + 1 + count) := by
  rintro ⟨maker, dst', arity', count', unit', made, before, until_⟩
  -- Of two makings, the later one would stand among the operands of the earlier one.
  rcases Nat.lt_trichotomy maker k with earlier | rfl | later
  · obtain ⟨slot, cell⟩ := (h.operands maker dst' arity' count' unit' made).2 (k - maker - 1)
      (by omega)
    rw [show maker + 1 + (k - maker - 1) = k by omega, making] at cell
    cases cell
  · cases making.symm.trans made
    omega
  · obtain ⟨slot, cell⟩ := (h.operands k dst arity count unit making).2 (maker - k - 1) (by omega)
    rw [show k + 1 + (maker - k - 1) = maker by omega, made] at cell
    cases cell

/-- No instructions are a segment. -/
theorem nil : Segment registers refs literals exits start [] where
  within i h := by simp at h
  runs i h := by simp at h
  forward k cond t h := by simp at h
  backward k t h := by simp at h
  lands i h := by simp at h
  operands k dst arity refs unit h := by simp at h

/-- One instruction that leads to exits only. -/
theorem single {i : Instruction} (within : i.Within registers refs literals)
    (runs : i.isReturn = false) (made : i.madeUnit? = none) (exit : ∀ t ∈ i.target?, exits t)
    (later : ∀ cond t, i = .branchUnless cond t → start < t)
    (earlier : ∀ t, i = .jump t → t < start) :
    Segment registers refs literals exits start [i] where
  within i' h := List.mem_singleton.mp h ▸ within
  runs i' h := List.mem_singleton.mp h ▸ runs
  forward k cond t h := by
    obtain ⟨bound, eq⟩ := List.getElem?_eq_some_iff.mp h
    obtain rfl : k = 0 := Nat.lt_one_iff.mp bound
    exact later cond t eq
  backward k t h := by
    obtain ⟨bound, eq⟩ := List.getElem?_eq_some_iff.mp h
    obtain rfl : k = 0 := Nat.lt_one_iff.mp bound
    exact earlier t eq
  lands i' h t ht := by
    obtain rfl := List.mem_singleton.mp h
    exact .inl (exit t ht)
  operands k dst arity refs unit h := by
    cases List.mem_singleton.mp (List.mem_of_getElem? h)
    cases made

/-- One instruction that goes on to the next is a segment if what it names is there. -/
theorem plain {i : Instruction} (within : i.Within registers refs literals)
    (plain : i.isPlain = true) : Segment registers refs literals exits start [i] := by
  have facts : i.isReturn = false ∧ i.madeUnit? = none ∧ i.target? = none := by
    cases i <;> first | exact ⟨rfl, rfl, rfl⟩ | cases plain
  obtain ⟨runs, made, target⟩ := facts
  refine single within runs made (fun t ht => ?_) (fun cond t eq => ?_) fun t eq => ?_
  · rw [target] at ht
    cases ht
  · subst eq
    cases plain
  · subst eq
    cases plain

/-- A branch to an exit. -/
theorem branch {cond t : Nat} (register : cond < registers) (exit : exits t) (later : start < t) :
    Segment registers refs literals exits start [.branchUnless cond t] :=
  single ⟨fun r h => List.mem_singleton.mp h ▸ register, nofun, nofun⟩ rfl rfl
    (fun t' h => Option.some.inj h ▸ exit) (fun cond' t' eq => by cases eq; exact later)
    (fun t' eq => by cases eq)

/-- A jump to an exit. -/
theorem jump {t : Nat} (exit : exits t) (earlier : t < start) :
    Segment registers refs literals exits start [.jump t] :=
  single ⟨nofun, nofun, nofun⟩ rfl rfl
    (fun t' h => Option.some.inj h ▸ exit) (fun cond' t' eq => by cases eq)
    (fun t' eq => by cases eq; exact earlier)

/-- The making of a closure with its operands. -/
theorem closure {dst arity unit : Nat} {slots : List Nat} (register : dst < registers)
    (cells : ∀ slot ∈ slots, slot < refs) :
    Segment registers refs literals exits start
      (.createLambda dst arity slots.length unit :: slots.map (.readCell 0)) where
  within i h := by
    rcases List.mem_cons.mp h with rfl | h
    · exact ⟨fun r h => List.mem_singleton.mp h ▸ register, nofun, nofun⟩
    · obtain ⟨slot, mem, rfl⟩ := List.mem_map.mp h
      have first : 0 < registers := Nat.lt_of_le_of_lt (Nat.zero_le dst) register
      exact ⟨fun r h => List.mem_singleton.mp h ▸ first,
        fun _ h => Option.some.inj h ▸ cells slot mem, nofun⟩
  runs i h := by
    rcases List.mem_cons.mp h with rfl | h
    · rfl
    · obtain ⟨slot, -, rfl⟩ := List.mem_map.mp h
      rfl
  forward k cond t h := by
    rcases List.mem_cons.mp (List.mem_of_getElem? h) with h | h
    · cases h
    · obtain ⟨slot, -, h⟩ := List.mem_map.mp h
      cases h
  backward k t h := by
    rcases List.mem_cons.mp (List.mem_of_getElem? h) with h | h
    · cases h
    · obtain ⟨slot, -, h⟩ := List.mem_map.mp h
      cases h
  lands i h t ht := by
    rcases List.mem_cons.mp h with rfl | h
    · cases ht
    · obtain ⟨slot, -, rfl⟩ := List.mem_map.mp h
      cases ht
  operands k dst' arity' refs' unit' h := by
    cases k with
    | zero =>
      cases h
      refine ⟨by simp, fun j hj => ⟨slots[j], ?_⟩⟩
      rw [Nat.zero_add, Nat.add_comm, List.getElem?_cons_succ, List.getElem?_map,
        List.getElem?_eq_getElem hj, Option.map_some]
    | succ k =>
      rw [List.getElem?_cons_succ] at h
      obtain ⟨slot, -, h⟩ := List.mem_map.mp (List.mem_of_getElem? h)
      cases h

/-- One segment after another. -/
theorem append (h : Segment registers refs literals exits start is)
    (h' : Segment registers refs literals exits (start + is.length) is') :
    Segment registers refs literals exits start (is ++ is') where
  within i hi := (List.mem_append.mp hi).elim (h.within i) (h'.within i)
  runs i hi := (List.mem_append.mp hi).elim (h.runs i) (h'.runs i)
  forward k cond t hk := by
    rcases Nat.lt_or_ge k is.length with first | second
    · rw [List.getElem?_append_left first] at hk
      exact h.forward k cond t hk
    · rw [List.getElem?_append_right second] at hk
      have := h'.forward _ cond t hk
      omega
  backward k t hk := by
    rcases Nat.lt_or_ge k is.length with first | second
    · rw [List.getElem?_append_left first] at hk
      exact h.backward k t hk
    · rw [List.getElem?_append_right second] at hk
      have := h'.backward _ t hk
      omega
  lands i hi t ht := by
    rw [List.length_append]
    rcases List.mem_append.mp hi with hi | hi
    · refine (h.lands i hi t ht).imp_right fun ⟨j, le, eq, free⟩ => ⟨j, by omega, eq, ?_⟩
      rw [spans_append]
      rintro (spans | ⟨j', rfl, spans⟩)
      · exact free spans
      · obtain rfl : j' = 0 := by omega
        exact not_spans_zero spans
    · refine (h'.lands i hi t ht).imp_right fun ⟨j, le, eq, free⟩ =>
        ⟨is.length + j, by omega, by omega, ?_⟩
      rw [spans_append]
      rintro (spans | ⟨j', same, spans⟩)
      · exact h.not_spans_of_length_le (Nat.le_add_right ..) spans
      · obtain rfl : j = j' := by omega
        exact free spans
  operands k dst arity refs unit hk := by
    rw [List.length_append]
    rcases Nat.lt_or_ge k is.length with first | second
    · rw [List.getElem?_append_left first] at hk
      obtain ⟨inside, cells⟩ := h.operands k dst arity refs unit hk
      refine ⟨by omega, fun j hj => ?_⟩
      rw [List.getElem?_append_left (by omega)]
      exact cells j hj
    · rw [List.getElem?_append_right second] at hk
      obtain ⟨inside, cells⟩ := h'.operands _ dst arity refs unit hk
      refine ⟨by omega, fun j hj => ?_⟩
      obtain ⟨slot, cell⟩ := cells j hj
      refine ⟨slot, ?_⟩
      rw [List.getElem?_append_right (by omega), ← cell]
      exact congrArg (is'[·]?) (by omega)

/-- So are any number of them, one after the other. -/
theorem plains (h : ∀ i ∈ is, i.Within registers refs literals ∧ i.isPlain = true) :
    Segment registers refs literals exits start is := by
  induction is generalizing start with
  | nil => exact nil
  | cons i is ih =>
    obtain ⟨within, plain⟩ := h i List.mem_cons_self
    exact (Segment.plain within plain).append (ih fun i' hi => h i' (List.mem_cons_of_mem i hi))

/-- A segment may have more exits than it uses. -/
theorem mono {exits' : Nat → Prop} (h : Segment registers refs literals exits start is)
    (imp : ∀ t, exits t → exits' t) : Segment registers refs literals exits' start is :=
  ⟨h.within, h.runs, h.forward, h.backward,
    fun i hi t ht => (h.lands i hi t ht).imp_left (imp t), h.operands⟩

/-- The beginning and the end of a segment are no exits: they are its own. -/
theorem enclosed
    (h : Segment registers refs literals (fun t => t = start ∨ t = start + is.length) start is) :
    Segment registers refs literals (fun _ => False) start is :=
  ⟨h.within, h.runs, h.forward, h.backward, fun i hi t ht => .inr <| by
    rcases h.lands i hi t ht with (rfl | rfl) | inside
    · exact ⟨0, Nat.zero_le _, rfl, not_spans_zero⟩
    · exact ⟨is.length, Nat.le_refl _, rfl, h.not_spans_of_length_le (Nat.le_refl _)⟩
    · exact inside, h.operands⟩

end Segment

end ClosureLang
