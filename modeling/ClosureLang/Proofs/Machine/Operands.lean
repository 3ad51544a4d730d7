import ClosureLang.Proofs.Machine.Basic

/-!
# What instructions use

The registers that an instruction reads and the one that it writes, the cell and the literal that it
names, and where the run goes on after it. The operands after the making of a closure are skipped:
they are instructions by their form only.

These are definitions on instructions, made for facts about code. What gives them their meaning is
that the machine keeps to them. A step changes no register but the one that is written, and the run
goes on at one of the successors (`execute_running`). What a step does depends on no register but
those that are read: from frames that agree on these it leads to frames that agree on them and on
the register that was written, or to the same end (`execute_agree`).

`Frame.Agree` is stated for any set of known registers, and for everything else in the frame without
exception. Cells and the world are therefore always the same in both frames, and whatever the host
does with them is done alike.
-/

set_option autoImplicit false

namespace ClosureLang

namespace Instruction

/-- The registers that an instruction reads, with all the registers of its arguments. -/
def reads : Instruction → List Nat
  | .callOperator _ recv _ => List.range' recv 2
  | .callMethod _ recv argc _ => List.range' recv (argc + 1)
  | .callPlain _ recv _ => [recv]
  | .invoke _ target argc => List.range' target (argc + 1)
  | .branchUnless cond _ => [cond]
  | .storeRegister _ src | .storeCell _ src | .ret src => [src]
  | .readRegister _ register => [register]
  | .store .. | .jump _ | .readCell .. | .createLambda .. => []

/-- The register that an instruction writes. -/
def written? : Instruction → Option Nat
  | .store dst _ | .callOperator dst _ _ | .callMethod dst _ _ _ | .callPlain dst _ _
  | .readRegister dst _ | .readCell dst _ | .invoke dst _ _ | .createLambda dst _ _ _ => some dst
  | .storeRegister register _ => some register
  | .branchUnless .. | .jump _ | .storeCell .. | .ret _ => none

/-- All registers that an instruction names. -/
def registers (i : Instruction) : List Nat := i.reads ++ i.written?.toList

/-- The cell of its own unit that an instruction names. -/
def slot? : Instruction → Option Nat
  | .storeCell slot _ | .readCell _ slot => some slot
  | _ => none

/-- The literal that an instruction names. -/
def literal? : Instruction → Option Nat
  | .store _ (.string literal) | .store _ (.atom literal) => some literal
  | .callOperator _ _ literal | .callMethod _ _ _ literal | .callPlain _ _ literal => some literal
  | _ => none

/-- Where a branch or a jump leads. -/
def target? : Instruction → Option Nat
  | .branchUnless _ target | .jump target => some target
  | _ => none

/-- Where the run can go on after the instruction at `pos`. -/
def successors (pos : Nat) : Instruction → List Nat
  | .branchUnless _ target => [pos + 1, target]
  | .jump target => [target]
  | .createLambda _ _ refs _ => [pos + 1 + refs]
  | .ret _ => []
  | _ => [pos + 1]

end Instruction

namespace Code

variable {V W : Type} {c : Code} {host : Host V W} {f f' g : Frame V W}

/-! ## A step -/

/-- If an answer lets the run go on, it goes on at the next instruction, and of the registers at
most `dst` has changed. -/
theorem resume_running {dst : Nat} {a : Option (Answer V W)}
    (h : f.resume dst a = .running f') :
    f'.pc = f.pc + 1 ∧ ∀ r, r ≠ dst → f'.registers r = f.registers r := by
  cases a with
  | none => cases h
  | some a =>
    cases h
    exact ⟨rfl, fun r apart => if_neg apart⟩

/-- The same for a send: it writes the register of the result and no other. -/
theorem send_running {dst recv argc literal : Nat}
    (h : c.send host f dst recv argc literal = .running f') :
    f'.pc = f.pc + 1 ∧ ∀ r, r ≠ dst → f'.registers r = f.registers r := by
  unfold send at h
  split at h
  · cases h
  · exact resume_running h

/-- A step goes on at a successor, and changes no register but the one that is written. -/
theorem execute_running {i : Instruction} (h : c.execute host f i = .running f') :
    f'.pc ∈ i.successors f.pc ∧ ∀ r, i.written? ≠ some r → f'.registers r = f.registers r := by
  have answered {dst : Nat}
      (goes : f'.pc = f.pc + 1 ∧ ∀ r, r ≠ dst → f'.registers r = f.registers r) :
      f'.pc ∈ [f.pc + 1] ∧ ∀ r, some dst ≠ some r → f'.registers r = f.registers r :=
    ⟨List.mem_singleton.mpr goes.1,
      fun r apart => goes.2 r fun same => apart (congrArg some same.symm)⟩
  have wrote {dst : Nat} {v : V} :
      ∀ r, some dst ≠ some r → (f.put dst v).registers r = f.registers r :=
    fun r apart => if_neg fun same => apart (congrArg some same.symm)
  cases i with
  | callOperator | callMethod | callPlain => exact answered (send_running h)
  | invoke => exact answered (resume_running h)
  | store dst value =>
    simp only [execute] at h
    split at h
    · cases h
    · cases h
      exact ⟨List.mem_singleton.mpr rfl, wrote⟩
  | branchUnless cond target =>
    cases h
    split
    · exact ⟨List.mem_cons_self, fun _ _ => rfl⟩
    · exact ⟨List.mem_cons_of_mem _ List.mem_cons_self, fun _ _ => rfl⟩
  | jump | storeCell =>
    cases h
    exact ⟨List.mem_singleton.mpr rfl, fun _ _ => rfl⟩
  | storeRegister | readRegister | readCell =>
    cases h
    exact ⟨List.mem_singleton.mpr rfl, wrote⟩
  | createLambda dst arity refs unit =>
    simp only [execute] at h
    split at h
    · cases h
      exact ⟨List.mem_singleton.mpr rfl, wrote⟩
    · cases h
  | ret => cases h

end Code

/-! ## Frames that differ in some registers -/

/-- The frames stand at one place, and hold the same in the cells, in the world and in the registers
of which `known` is true. -/
structure Frame.Agree {V W : Type} (known : Nat → Prop) (f g : Frame V W) : Prop where
  pc : f.pc = g.pc
  cells : f.cells = g.cells
  world : f.world = g.world
  registers : ∀ r, known r → f.registers r = g.registers r

/-- Two runs are at the same point, with frames that agree. -/
inductive Outcome.Agree {V W : Type} (known : Nat → Prop) : Outcome V W → Outcome V W → Prop where
  | running {f g : Frame V W} : f.Agree known g → Agree known (.running f) (.running g)
  | returned {v : V} {f g : Frame V W} :
      f.Agree known g → Agree known (.returned v f) (.returned v g)
  | stuck : Agree known .stuck .stuck

section agree

variable {V W : Type} {c : Code} {host : Host V W} {f g : Frame V W} {known : Nat → Prop}

namespace Frame.Agree

/-- Frames that agree on some registers agree on fewer. -/
theorem mono {known' : Nat → Prop} (h : f.Agree known g) (imp : ∀ r, known' r → known r) :
    f.Agree known' g :=
  ⟨h.pc, h.cells, h.world, fun r hr => h.registers r (imp r hr)⟩

/-- Frames that agree still do after the same move to the next instruction. -/
theorem next (h : f.Agree known g) : f.next.Agree known g.next :=
  ⟨congrArg (· + 1) h.pc, h.cells, h.world, h.registers⟩

/-- Frames that agree still do after the same jump. -/
theorem goto (h : f.Agree known g) (pc : Nat) :
    Frame.Agree known { f with pc } { g with pc } :=
  ⟨rfl, h.cells, h.world, h.registers⟩

/-- A register that is written in both frames is known. -/
theorem put (h : f.Agree known g) (dst : Nat) (v : V) :
    (f.put dst v).Agree (fun r => known r ∨ some dst = some r) (g.put dst v) := by
  refine ⟨h.pc, h.cells, h.world, fun r hr => ?_⟩
  by_cases here : r = dst
  · simp [Frame.put, here]
  · have old : known r := hr.resolve_right fun same => here (Option.some.inj same).symm
    simp [Frame.put, here, h.registers r old]

/-- Frames that agree still do after the same value is put in the same cell. -/
theorem putCell (h : f.Agree known g) (slot : Nat) (v : V) :
    (f.putCell slot v).Agree known (g.putCell slot v) :=
  ⟨h.pc, by simp only [Frame.putCell, h.cells], h.world, h.registers⟩

/-- Arguments that are taken from known registers are the same in both frames. -/
theorem arguments (h : f.Agree known g) {first argc : Nat}
    (reads : ∀ r ∈ List.range' first argc, known r) :
    f.arguments first argc = g.arguments first argc := by
  refine List.map_congr_left fun i hi => h.registers _ (reads _ ?_)
  have := List.mem_range.mp hi
  exact List.mem_range'_1.mpr ⟨by omega, by omega⟩

/-- Frames that agree hold the same in their cells, whatever registers are known. -/
theorem contents (h : f.Agree known g) (refs : Nat) : f.contents refs = g.contents refs := by
  rw [Frame.contents, Frame.contents, h.cells]

/-- The same answer keeps the agreement, and the register of the result becomes known. -/
theorem resume (h : f.Agree known g) (dst : Nat) (a : Option (Answer V W)) :
    (f.resume dst a).Agree (fun r => known r ∨ some dst = some r) (g.resume dst a) := by
  cases a with
  | none => exact .stuck
  | some a =>
    have put := (h.put dst a.value).next
    exact .running ⟨put.pc, by simp only [Frame.receive, Frame.next, h.cells], rfl, put.registers⟩

/-- Sending from frames that agree on the receiver and the arguments. -/
theorem send (h : f.Agree known g) {dst recv argc literal : Nat}
    (reads : ∀ r ∈ List.range' recv (argc + 1), known r) :
    (c.send host f dst recv argc literal).Agree (fun r => known r ∨ some dst = some r)
      (c.send host g dst recv argc literal) := by
  rw [List.range'_succ, List.forall_mem_cons] at reads
  unfold Code.send
  split
  · exact .stuck
  · rw [h.registers recv reads.1, h.arguments reads.2, h.contents, h.world]
    exact h.resume dst _

end Frame.Agree

/-- What a step does depends on no register but those that are read: frames that agree on these go
on to frames that agree on the register that is written, too. -/
theorem Code.execute_agree {i : Instruction} (h : f.Agree known g)
    (reads : ∀ r ∈ i.reads, known r) :
    (c.execute host f i).Agree (fun r => known r ∨ i.written? = some r) (c.execute host g i) := by
  have wrote {dst : Nat} (v : V) : Outcome.Agree (fun r => known r ∨ some dst = some r)
      (.running (f.put dst v).next) (.running (g.put dst v).next) := .running (h.put dst v).next
  have kept {f' g' : Frame V W} (h' : f'.Agree known g') : Outcome.Agree
      (fun r => known r ∨ none = some r) (.running f') (.running g') :=
    .running (h'.mono fun r hr => hr.resolve_right nofun)
  have first {r : Nat} (hr : r ∈ i.reads) : f.registers r = g.registers r :=
    h.registers r (reads r hr)
  -- an instruction writes a register, or changes something else that is the same in both frames
  cases i with
  | store dst value =>
    simp only [execute]
    split
    · exact .stuck
    · exact wrote _
  | callOperator | callMethod => exact h.send reads
  | callPlain dst recv literal =>
    have receiver : ∀ r ∈ List.range' recv (0 + 1), known r := reads
    exact h.send receiver
  | invoke dst target argc =>
    simp only [Instruction.reads, List.range'_succ, List.forall_mem_cons] at reads
    simp only [execute]
    rw [h.registers target reads.1, h.arguments reads.2, h.contents, h.world]
    exact h.resume dst _
  | branchUnless cond target =>
    simp only [execute, first List.mem_cons_self]
    split
    · exact kept h.next
    · exact kept (h.goto target)
  | jump target => exact kept (h.goto target)
  | storeRegister register src =>
    simp only [execute, first List.mem_cons_self]
    exact wrote _
  | storeCell slot src =>
    simp only [execute, first List.mem_cons_self]
    exact kept (h.putCell slot _).next
  | readRegister dst register =>
    simp only [execute, first List.mem_cons_self]
    exact wrote _
  | readCell dst slot =>
    simp only [execute, h.cells]
    exact wrote _
  | createLambda dst arity refs unit =>
    simp only [execute, h.pc, h.world]
    split
    · next inner slots _ _ =>
      have made := h.put dst (host.closure inner arity slots g.world).1
      exact .running ⟨rfl, made.cells, rfl, made.registers⟩
    · exact .stuck
  | ret src =>
    simp only [execute, first List.mem_cons_self]
    exact .returned (h.mono fun r hr => hr.resolve_right nofun)

end agree

end ClosureLang
