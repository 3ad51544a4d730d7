import ClosureLang.Proofs.Machine.Operands

/-!
# Registers that are written before they are read

A path through a unit follows the successors of instructions, whatever the outcome of a branch is. A
unit writes its temporaries first if no path comes to an instruction that reads one of them before
an instruction on the path has written it. Then a run does not depend on what the temporaries held
when it began (`WritesFirst.run_agree`): two runs whose frames agree on everything else are at the
same point after any number of steps.

To prove of a unit that it writes its temporaries first, it is enough to look at so many steps at a
time (`Safe`), which turns a statement about all paths into one that can be unfolded from the
beginning. Parts of the code are put together by what is written when a path leaves them. `Leads`
says this of a part: whatever was written before, if that includes what the part needs, nothing is
read too early on the way to its end, and there what it gives has been written as well. Parts follow
one another if the first gives what the second needs (`trans`); a part that may be skipped gives
nothing (`skip`); a part that is run again and again has to get along with what it is given the
first time (`repeated`).

`Passes` is for the opposite. It says that some path goes through a part without writing a
temporary, which is how a unit is shown not to write one first.
-/

set_option autoImplicit false

namespace ClosureLang.Code

variable {c : Code} {base : Nat}

/-- A path leads from the beginning of the unit to `pos`, and its instructions have written the
registers `written`. -/
inductive Reaches (c : Code) : Nat → List Nat → Prop where
  | start : c.Reaches 0 []
  | step {pos next : Nat} {written : List Nat} {i : Instruction} :
      c.Reaches pos written → c.instructions[pos]? = some i → next ∈ i.successors pos →
        c.Reaches next (i.written?.toList ++ written)

/-- Whenever a path comes to an instruction that reads a register from `base` on, an instruction on
the path has written it. -/
def WritesFirst (c : Code) (base : Nat) : Prop :=
  ∀ pos written i, c.Reaches pos written → c.instructions[pos]? = some i →
    ∀ r ∈ i.reads, base ≤ r → r ∈ written

/-! ## What writing first means for a run -/

/-- If a unit writes its temporaries first, two runs whose frames agree on all other registers are
at the same point after any number of steps, and return the same value. -/
theorem WritesFirst.run_agree {V W : Type} {host : Host V W} (h : c.WritesFirst base)
    {f g : Frame V W} (begin : f.pc = 0) (agree : f.Agree (· < base) g) (n : Nat) :
    (c.run host n f).Agree (· < base) (c.run host n g) := by
  have path {written : List Nat} {f g : Frame V W} (reaches : c.Reaches f.pc written)
      (agree : f.Agree (fun r => r < base ∨ r ∈ written) g) :
      (c.run host n f).Agree (· < base) (c.run host n g) := by
    induction n generalizing written f g with
    | zero => exact .running (agree.mono fun r hr => .inl hr)
    | succ n ih =>
      simp only [run, step, ← agree.pc]
      cases here : c.instructions[f.pc]? with
      | none => exact .stuck
      | some i =>
        have reads : ∀ r ∈ i.reads, r < base ∨ r ∈ written := fun r hr =>
          (Nat.lt_or_ge r base).imp_right (h f.pc written i reaches here r hr)
        have outcome : (c.execute host f i).Agree _ (c.execute host g i) :=
          execute_agree agree reads
        simp only
        generalize left : c.execute host f i = x at outcome ⊢
        generalize c.execute host g i = y at outcome ⊢
        cases outcome with
        | stuck => exact .stuck
        | returned agree' => exact .returned (agree'.mono fun r hr => .inl (.inl hr))
        | running agree' =>
          refine ih (reaches.step here (execute_running left).1) (agree'.mono fun r hr => ?_)
          rw [List.mem_append, Option.mem_toList, ← or_assoc, or_right_comm] at hr
          exact hr
  exact path (begin ▸ .start) (agree.mono fun r hr => hr.resolve_right List.not_mem_nil)

/-! ## So many steps -/

/-- On the next `n` steps from `pos`, registers from `base` on are written before they are read, if
`written` have been written already. -/
def Safe (c : Code) (base : Nat) : Nat → Nat → List Nat → Prop
  | 0, _, _ => True
  | n + 1, pos, written => ∀ i, c.instructions[pos]? = some i →
      (∀ r ∈ i.reads, base ≤ r → r ∈ written) ∧
        ∀ next ∈ i.successors pos, c.Safe base n next (i.written?.toList ++ written)

/-- To write the temporaries first is to be safe for every number of steps. Paths are extended at
their end and safety is unfolded from the beginning, so each direction goes by induction on its
own. -/
theorem writesFirst_iff_safe : c.WritesFirst base ↔ ∀ n, c.Safe base n 0 [] := by
  constructor
  · intro h n
    have path {pos : Nat} {written : List Nat} (reaches : c.Reaches pos written) :
        c.Safe base n pos written := by
      induction n generalizing pos written with
      | zero => trivial
      | succ n ih =>
        exact fun i here => ⟨h pos written i reaches here, fun next hn => ih (reaches.step here hn)⟩
    exact path .start
  · intro h pos written i reaches here
    have safe : ∀ n, c.Safe base n pos written := by
      clear here
      induction reaches with
      | start => exact h
      | step _ here hn ih => exact fun n => (ih (n + 1) _ here).2 _ hn
    exact (safe 1 i here).1

/-! ## Parts of the code -/

/-- Whatever was written before, if that includes `needs`: paths from `start` read nothing too early
until they come to `stop`, and there `gives` have been written, too. -/
def Leads (c : Code) (base : Nat) (needs gives : Nat → Prop) (start stop : Nat) : Prop :=
  ∀ n written, (∀ r, needs r → r ∈ written) →
    (∀ m ≤ n, ∀ written', written ⊆ written' → (∀ r, gives r → r ∈ written') →
      c.Safe base m stop written') → c.Safe base n start written

namespace Leads

variable {needs gives gives' : Nat → Prop} {start mid stop : Nat}

/-- The empty part of the code leads where it is and writes nothing. -/
theorem refl (c : Code) (base : Nat) (needs : Nat → Prop) (start : Nat) :
    c.Leads base needs needs start start :=
  fun n written had rest => rest n (Nat.le_refl n) written (List.Subset.refl _) had

/-- A part may be said to need more and to write less, and what was needed counts as written behind
it. -/
theorem mono {needs' : Nat → Prop} (h : c.Leads base needs gives start stop)
    (imp : ∀ r, needs r → needs' r) (imp' : ∀ r, gives' r → gives r ∨ needs' r) :
    c.Leads base needs' gives' start stop := by
  intro n written had rest
  refine h n written (fun r hr => had r (imp r hr)) fun m le written' more gave => ?_
  refine rest m le written' more fun r hr => ?_
  exact (imp' r hr).elim (gave r) fun old => more (had r old)

/-- Of what a part has written, some may be forgotten. -/
theorem weaken (h : c.Leads base needs gives start stop) (imp : ∀ r, gives' r → gives r) :
    c.Leads base needs gives' start stop :=
  h.mono (fun _ hr => hr) fun r hr => .inl (imp r hr)

/-- One part after another, which can rely on what is written in the first. -/
theorem trans (h : c.Leads base needs gives start mid)
    (h' : c.Leads base (fun r => gives r ∨ needs r) gives' mid stop) :
    c.Leads base needs (fun r => gives r ∨ gives' r) start stop := by
  intro n written had rest
  refine h n written had fun m le written' more gave => ?_
  refine h' m written' (fun r hr => hr.elim (gave r) fun old => more (had r old)) ?_
  intro k le' written'' more' gave'
  refine rest k (Nat.le_trans le' le) written'' (List.Subset.trans more more') fun r hr => ?_
  exact hr.elim (fun first => more' (gave r first)) (gave' r)

/-- An instruction after which there is one way only. -/
theorem instruction {i : Instruction} (here : c.instructions[start]? = some i)
    (next : i.successors start = [stop]) (reads : ∀ r ∈ i.reads, base ≤ r → needs r) :
    c.Leads base needs (fun r => i.written? = some r) start stop := by
  intro n written had rest
  cases n with
  | zero => trivial
  | succ n =>
    intro i' here'
    obtain rfl := Option.some.inj (here.symm.trans here')
    refine ⟨fun r hr le => had r (reads r hr le), fun pos hpos => ?_⟩
    rw [next, List.mem_singleton] at hpos
    subst hpos
    refine rest n (Nat.le_succ n) _ (List.subset_append_right _ _) fun r hr => ?_
    exact List.mem_append_left _ (Option.mem_toList.mpr hr)

/-- Such an instruction, if it writes a register. -/
theorem writes {i : Instruction} {dst : Nat} (here : c.instructions[start]? = some i)
    (next : i.successors start = [stop]) (reads : ∀ r ∈ i.reads, base ≤ r → needs r)
    (written : i.written? = some dst) : c.Leads base needs (· = dst) start stop :=
  (instruction here next reads).weaken fun _ hr => hr ▸ written

/-- What needs nothing can stand anywhere. -/
theorem anywhere (h : c.Leads base (fun _ => False) gives start stop) :
    c.Leads base needs gives start stop :=
  h.mono nofun fun _ => .inl

/-- One part after another, the first of which needs nothing. -/
theorem seq (h : c.Leads base (fun _ => False) gives start mid)
    (h' : c.Leads base gives gives' mid stop) :
    c.Leads base (fun _ => False) (fun r => gives r ∨ gives' r) start stop :=
  h.trans (h'.mono (fun _ => .inl) fun _ => .inl)

/-- A part that may be skipped. -/
theorem skip {cond : Nat} (here : c.instructions[start]? = some (.branchUnless cond stop))
    (known : needs cond) (h : c.Leads base needs gives (start + 1) stop) :
    c.Leads base needs needs start stop := by
  intro n written had rest
  cases n with
  | zero => trivial
  | succ n =>
    intro i here'
    obtain rfl := Option.some.inj (here.symm.trans here')
    refine ⟨fun r hr _ => List.mem_singleton.mp hr ▸ had cond known, fun pos hpos => ?_⟩
    have after (m : Nat) (le : m ≤ n) (written' : List Nat) (more : written ⊆ written') :
        c.Safe base m stop written' :=
      rest m (Nat.le_succ_of_le le) written' more fun r hr => more (had r hr)
    rcases List.mem_cons.mp hpos with rfl | hpos
    · exact h n written had fun m le written' more _ => after m le written' more
    · obtain rfl := List.mem_singleton.mp hpos
      exact after n (Nat.le_refl n) written (List.Subset.refl _)

/-- A part that is run again and again, as long as the register `cond` says so. -/
theorem repeated {cond branch back : Nat} (h : c.Leads base needs (· = cond) start branch)
    (skips : c.instructions[branch]? = some (.branchUnless cond stop))
    (h' : c.Leads base (fun r => r = cond ∨ needs r) gives (branch + 1) back)
    (jumps : c.instructions[back]? = some (.jump start)) :
    c.Leads base needs (· = cond) start stop := by
  -- by the steps that are left: each time round takes two at least, the branch and the jump back
  intro n
  induction n using Nat.strongRecOn with
  | ind n again =>
    intro written had rest
    refine h n written had fun m le written₁ more gave => ?_
    cases m with
    | zero => trivial
    | succ m =>
      intro i here
      obtain rfl := Option.some.inj (skips.symm.trans here)
      refine ⟨fun r hr _ => List.mem_singleton.mp hr ▸ gave cond rfl, fun pos hpos => ?_⟩
      have had₁ (r : Nat) (hr : needs r) : r ∈ written₁ := more (had r hr)
      rcases List.mem_cons.mp hpos with rfl | hpos
      · refine h' m written₁ (fun r hr => hr.elim (gave r) (had₁ r)) fun k le' written₂ more' _ =>
          ?_
        cases k with
        | zero => trivial
        | succ k =>
          intro i' here'
          obtain rfl := Option.some.inj (jumps.symm.trans here')
          refine ⟨nofun, fun pos hpos => ?_⟩
          obtain rfl := List.mem_singleton.mp hpos
          refine again k (by omega) written₂ (fun r hr => more' (had₁ r hr)) ?_
          intro j le'' written₃ more'' gave''
          exact rest j (by omega) written₃
            (List.Subset.trans more (List.Subset.trans more' more'')) gave''
      · obtain rfl := List.mem_singleton.mp hpos
        exact rest m (by omega) written₁ more gave

end Leads

/-! ## Parts that write no temporary -/

/-- A path that comes to `start` goes on to `stop` without writing a register from `base` on. -/
def Passes (c : Code) (base start stop : Nat) : Prop :=
  ∀ written, c.Reaches start written → (∀ r ∈ written, r < base) →
    ∃ written', c.Reaches stop written' ∧ ∀ r ∈ written', r < base

namespace Passes

variable {start mid stop : Nat}

/-- The empty part passes. -/
theorem refl (c : Code) (base start : Nat) : c.Passes base start start :=
  fun written reaches low => ⟨written, reaches, low⟩

/-- Parts that can be passed one after the other can be passed together. -/
theorem trans (h : c.Passes base start mid) (h' : c.Passes base mid stop) :
    c.Passes base start stop := by
  intro written reaches low
  obtain ⟨written', reaches', low'⟩ := h written reaches low
  exact h' written' reaches' low'

/-- One instruction that writes to no temporary can be passed on the way to one of its
successors. -/
theorem instruction {i : Instruction} (here : c.instructions[start]? = some i)
    (next : stop ∈ i.successors start) (low : ∀ r ∈ i.written?, r < base) :
    c.Passes base start stop := by
  intro written reaches old
  refine ⟨_, reaches.step here next, fun r hr => ?_⟩
  rcases List.mem_append.mp hr with hr | hr
  · exact low r (Option.mem_toList.mp hr)
  · exact old r hr

end Passes

end ClosureLang.Code
