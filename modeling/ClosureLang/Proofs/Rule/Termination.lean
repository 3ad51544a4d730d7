import Mathlib.Data.Finset.Prod
import ClosureLang.Proofs.Rule.Growth
import ClosureLang.Rule.Builder

/-!
# Matching terminates

Rules are tried inside one another to a bounded depth. Between two forwards the rules get smaller,
and every forward whose body is tried opens a place that was not open, or grows one that was not
grown. So the places that are not open yet and those that are not grown yet, each as often as the
largest body allows, bound the fuel that a rule takes.

That places are opened and grown at most once is what the modules before this one are about. It
holds of anchored grammars, and it fails of others: then a forward can be grown inside its own
growth, without end. What is shown here is that the depth is all there is to bound. The rounds of
growing a seed are bounded by the tokens, since each is longer than the one before (`grow_ends`),
and so are the rounds of a repetition.

The induction is on the fuel (`Rule.match?_tries`). The bound counts the places that are left, so it
has to be stated for all sets of open and grown places at once; entering a forward takes one place
out (`Place.card_left_insert`). For the rule that is tried first no place is open or grown
(`Ready.start`), and the number of all places is the number of forwards for every position
(`Place.card_within_le`).
-/

set_option autoImplicit false

namespace ClosureLang

namespace Matching

section

variable {definitions : Definitions} {empty : Nat → Bool} {n : Nat}
  {opened grown wider more : Finset Place} {pos : Nat} {target : Forward} {body : Rule}
  {t : MemoTable} {attempt : Nat → Matching (Option Match)}

/-- Growing a seed ends, with a match of the forward, if the body can be tried whenever a seed was
planted. -/
theorem grow_ends (defined : definitions target = some body)
    (within : definitions.EmptyWithin empty) (sub : opened ⊆ wider)
    (each : Tries definitions empty n wider more attempt (body.starts empty) (body.nullable empty))
    (closed : ⟨target.id, pos⟩ ∉ opened)
    (recursive : ∀ place ∈ opened, place.position = pos →
      definitions.RecursiveWithout empty place.id target.id)
    (ready : ∀ (t₁ : MemoTable) (seed : Match), Kept definitions empty n opened pos [target.id] t
        ((t₁.insert ⟨target.id, pos⟩ (.resolved (some seed))).forget ⟨target.id, pos⟩) →
      Ready definitions empty n wider more pos (body.starts empty)
        ((t₁.insert ⟨target.id, pos⟩ (.resolved (some seed))).forget ⟨target.id, pos⟩))
    {fuel : Nat} {seed : Match} {s : Progress} (enough : n < fuel + seed.stop)
    (inside : seed.Within n pos (empty target.id))
    (kept : Kept definitions empty n opened pos [target.id] t s.memo) :
    (grow (attempt pos) ⟨target.id, pos⟩ fuel seed).Ends s fun m s' =>
      Kept definitions empty n opened pos [target.id] t s'.memo ∧
        m.Within n pos (empty target.id) := by
  induction fuel generalizing seed s with
  | zero =>
    have stop := inside.stop
    omega
  | succ fuel ih =>
    have planted := kept.trans (.plant kept.sound closed inside recursive)
    have le : pos ≤ n := Nat.le_trans inside.start inside.stop
    refine (ends_plant ?_).bind
    refine ((each pos _ le (ready s.memo seed planted)).mono ?_).bind
    rintro (_ | grown) s₁ ⟨kept₁, within₁⟩
    · exact ends_pure ⟨planted.trans ((kept₁.narrow sub).enter defined closed), inside⟩
    have here := within₁ grown rfl
    have kept' := planted.trans ((kept₁.narrow sub).enter defined closed)
    have inside' : grown.Within n pos (empty target.id) :=
      ⟨here.start, here.stop, fun same => within target body defined (here.empty same)⟩
    simp only
    split
    · next longer =>
      exact ih (by omega) inside' kept'
    · exact ends_pure ⟨kept', inside⟩

/-- Growing a seed ends: the place stays open, or it is grown from then on. -/
theorem grow_ends_of_anchored (defined : definitions target = some body)
    (within : definitions.EmptyWithin empty) (anchored : definitions.Anchored empty)
    (eachOpen : Tries definitions empty n (insert ⟨target.id, pos⟩ opened) grown attempt
      (body.starts empty) (body.nullable empty))
    (eachGrown : ⟨target.id, pos⟩ ∉ grown → Tries definitions empty n opened
      (insert ⟨target.id, pos⟩ grown) attempt (body.starts empty) (body.nullable empty))
    (ready : Ready definitions empty n opened grown pos [target.id] t)
    (closed : ⟨target.id, pos⟩ ∉ opened)
    (recursive : ∀ place ∈ opened, place.position = pos →
      definitions.RecursiveWithout empty place.id target.id) {fuel : Nat} {seed : Match}
    {s : Progress} (enough : n < fuel + seed.stop) (inside : seed.Within n pos (empty target.id))
    (kept : Kept definitions empty n opened pos [target.id] t s.memo) :
    (grow (attempt pos) ⟨target.id, pos⟩ fuel seed).Ends s fun m s' =>
      Kept definitions empty n opened pos [target.id] t s'.memo ∧
        m.Within n pos (empty target.id) := by
  by_cases stays : definitions.SeedStays empty target.id
  · refine grow_ends defined within (Finset.subset_insert ..) eachOpen closed recursive ?_ enough
      inside kept
    intro t₁ seed planted
    exact ready.plant_open defined stays closed recursive planted
  · obtain ⟨a, held, through⟩ := (anchored target body defined).resolve_left stays
    refine grow_ends defined within (Finset.Subset.refl _) (eachGrown (ready.not_grown recursive))
      closed recursive ?_ enough inside kept
    intro t₁ seed planted
    exact ready.plant_grown defined stays held through closed recursive planted

/-- Trying a forward for the first time at a position. -/
theorem enter_ends {fuel : Nat} {s : Progress} (defined : definitions target = some body)
    (within : definitions.EmptyWithin empty) (anchored : definitions.Anchored empty)
    (eachOpen : Tries definitions empty n (insert ⟨target.id, pos⟩ opened) grown attempt
      (body.starts empty) (body.nullable empty))
    (eachGrown : ⟨target.id, pos⟩ ∉ grown → Tries definitions empty n opened
      (insert ⟨target.id, pos⟩ grown) attempt (body.starts empty) (body.nullable empty))
    (enough : n < fuel) (le : pos ≤ n)
    (ready : Ready definitions empty n opened grown pos [target.id] s.memo)
    (closed : ⟨target.id, pos⟩ ∉ opened) :
    (enter (attempt pos) fuel ⟨target.id, pos⟩).Ends s
      (Tried definitions empty n opened [target.id] (empty target.id) pos s) := by
  have pending : Kept definitions empty n opened pos [target.id] s.memo
      (s.memo.insert ⟨target.id, pos⟩ (.pending false)) :=
    .remember ready.sound closed fun m hm => by cases hm
  -- the forward's result is remembered, whichever way it came about
  have remembered : ∀ (result : Option Match) (s' : Progress),
      Kept definitions empty n opened pos [target.id] s.memo s'.memo →
      (∀ m, result = some m → m.Within n pos (empty target.id)) →
      (do remember ⟨target.id, pos⟩ (.resolved result); return result : Matching _).Ends s'
        (Tried definitions empty n opened [target.id] (empty target.id) pos s) := by
    intro result s' kept inside
    refine (ends_remember ?_).bind
    refine ends_pure ⟨kept.trans (.remember kept.sound closed fun m hm => ?_), inside⟩
    exact inside m (Memo.resolved.inj hm)
  refine (ends_remember ?_).bind
  refine ((eachOpen pos _ le (ready.enter defined closed)).mono ?_).bind
  intro first s₁ ⟨kept₁, within₁⟩
  have kept := pending.trans ((kept₁.narrow (Finset.subset_insert ..)).enter defined closed)
  have inside : ∀ m, first = some m → m.Within n pos (empty target.id) := fun m hm =>
    have here := within₁ m hm
    ⟨here.start, here.stop, fun same => within target body defined (here.empty same)⟩
  refine (ends_remembered? ?_).bind
  split
  · next seed marked =>
    have recursive := kept₁.recursive defined closed marked
    have room : n < fuel + seed.stop := by omega
    refine (Ends.map ?_).bind
    refine (grow_ends_of_anchored defined within anchored eachOpen eachGrown ready closed recursive
      room (inside seed rfl) kept).mono ?_
    rintro grown s₂ ⟨kept₂, within₂⟩
    exact remembered (some grown) s₂ kept₂ fun m hm => by cases hm; exact within₂
  · refine (ends_pure ?_).bind
    exact remembered _ s₁ kept inside

/-- A forward whose bodies are tried to an end. -/
theorem forward_tries {attempt : Rule → Nat → Matching (Option Match)} {fuel : Nat}
    (within : definitions.EmptyWithin empty) (anchored : definitions.Anchored empty)
    (enough : n < fuel)
    (eachOpen : ∀ body pos, definitions target = some body → pos ≤ n → ⟨target.id, pos⟩ ∉ opened →
      Tries definitions empty n (insert ⟨target.id, pos⟩ opened) grown (attempt body)
        (body.starts empty) (body.nullable empty))
    (eachGrown : ∀ body pos, definitions target = some body → pos ≤ n → ⟨target.id, pos⟩ ∉ grown →
      Tries definitions empty n opened (insert ⟨target.id, pos⟩ grown) (attempt body)
        (body.starts empty) (body.nullable empty)) :
    Tries definitions empty n opened grown (forward definitions attempt fuel target) [target.id]
      (empty target.id) := by
  intro pos s le ready
  refine (ends_remembered? ?_).bind
  split
  · next found =>
    refine (ends_remember ?_).bind
    exact ends_pure ⟨.mark ready.sound found, fun m hm => by cases hm⟩
  · next found =>
    exact ends_pure ⟨.refl ready.sound, fun m hm => ready.sound _ m (hm ▸ found)⟩
  · next absent =>
    split
    · exact ends_failed
    · next body defined =>
      have closed := ready.not_opened absent
      exact enter_ends defined within anchored (eachOpen body pos defined le closed)
        (eachGrown body pos defined le) enough le ready closed

end

end Matching

/-! ## Enough fuel -/

/-- There are finitely many definitions: `ids` are the numbers of the forwards that are defined, and
no body is larger than `bound`. -/
structure Definitions.Bounded (definitions : Definitions) (ids : Finset Nat) (bound : Nat) :
    Prop where
  id_mem : ∀ target body, definitions target = some body → target.id ∈ ids
  size_le : ∀ target body, definitions target = some body → body.size ≤ bound

/-- The places at which a body can be tried when there are `n` tokens. -/
def Place.within (ids : Finset Nat) (n : Nat) : Finset Place :=
  (ids ×ˢ Finset.range (n + 1)).image fun pair => ⟨pair.1, pair.2⟩

/-- The places at which a body can be tried are those of the given forwards at positions up to the
end of the tokens. -/
theorem Place.mem_within {ids : Finset Nat} {n : Nat} {place : Place} :
    place ∈ Place.within ids n ↔ place.id ∈ ids ∧ place.position ≤ n := by
  simp only [Place.within, Finset.mem_image, Finset.mem_product, Finset.mem_range, Prod.exists]
  constructor
  · rintro ⟨id, position, ⟨known, lt⟩, rfl⟩
    exact ⟨known, Nat.le_of_lt_succ lt⟩
  · rintro ⟨known, le⟩
    exact ⟨place.id, place.position, ⟨known, Nat.lt_succ_of_le le⟩, rfl⟩

/-- There are at most as many such places as forwards for every position. -/
theorem Place.card_within_le (ids : Finset Nat) (n : Nat) :
    (Place.within ids n).card ≤ ids.card * (n + 1) := by
  refine Finset.card_image_le.trans ?_
  rw [Finset.card_product, Finset.card_range]

/-- A rule of a list is no larger than the list. -/
theorem Rule.size_le_sizes {rule : Rule} : ∀ {rules : List Rule}, rule ∈ rules →
    rule.size ≤ Rule.sizes rules
  | other :: rules, mem => by
    rw [Rule.sizes]
    rcases List.mem_cons.mp mem with rfl | mem
    · exact Nat.le_add_right ..
    · exact Nat.le_trans (size_le_sizes mem) (Nat.le_add_left ..)

section

variable {definitions : Definitions} {empty : Nat → Bool} {ids : Finset Nat} {bound n : Nat}
  {tokens : Array Token}

/-- A place that is opened, or grown, was one of those left. -/
theorem Place.card_left_insert {target : Forward} {body : Rule} {pos : Nat} {taken : Finset Place}
    (finite : definitions.Bounded ids bound) (defined : definitions target = some body)
    (le : pos ≤ n) (untaken : ⟨target.id, pos⟩ ∉ taken) :
    (Place.within ids n \ insert ⟨target.id, pos⟩ taken).card + 1 =
      (Place.within ids n \ taken).card := by
  have left : (⟨target.id, pos⟩ : Place) ∈ Place.within ids n \ taken :=
    Finset.mem_sdiff.mpr ⟨Place.mem_within.mpr ⟨finite.id_mem target body defined, le⟩, untaken⟩
  rw [Finset.sdiff_insert, Finset.card_erase_add_one left]

/-- Every rule is tried to an end, with fuel for the places that are not open or not grown yet and
for the rule itself. -/
theorem Rule.match?_tries (finite : definitions.Bounded ids bound)
    (within : definitions.EmptyWithin empty) (anchored : definitions.Anchored empty)
    (size : tokens.size = n) : ∀ (fuel : Nat) (rule : Rule) (opened grown : Finset Place),
      ((Place.within ids n \ opened).card + (Place.within ids n \ grown).card) * (bound + 1) +
          rule.size + n + 1 < fuel →
        Matching.Tries definitions empty n opened grown (rule.match? definitions tokens fuel)
          (rule.starts empty) (rule.nullable empty)
  | 0, _, _, _, enough => by omega
  | fuel + 1, .terminal kind, opened, grown, _ => Matching.terminal_tries size
  | fuel + 1, .sequence rules, opened, grown, enough => by
    refine Matching.sequence_tries (fun rule mem => ?_) []
    refine match?_tries finite within anchored size fuel rule opened grown ?_
    have smaller := Rule.size_le_sizes mem
    simp only [Rule.size] at enough
    omega
  | fuel + 1, .alternation rules, opened, grown, enough => by
    refine Matching.alternation_tries fun rule mem => ?_
    refine match?_tries finite within anchored size fuel rule opened grown ?_
    have smaller := Rule.size_le_sizes mem
    simp only [Rule.size] at enough
    omega
  | fuel + 1, .repetition rule least most, opened, grown, enough => by
    simp only [Rule.size] at enough
    refine Matching.repetition_tries (by omega) ?_
    exact match?_tries finite within anchored size fuel rule opened grown (by omega)
  | fuel + 1, .map rule action, opened, grown, enough => by
    simp only [Rule.size] at enough
    refine Matching.map_tries ?_
    exact match?_tries finite within anchored size fuel rule opened grown (by omega)
  | fuel + 1, .forward target, opened, grown, enough => by
    refine Matching.forward_tries within anchored (by omega) (fun body pos defined le closed => ?_)
      fun body pos defined le apart => ?_
    -- the body is tried once with its place opened and then with its place grown
    · refine match?_tries finite within anchored size fuel body _ grown ?_
      have smaller := finite.size_le target body defined
      have fewer := Place.card_left_insert finite defined le closed
      rw [← fewer, Nat.add_right_comm (Finset.card _), Nat.add_mul, Nat.one_mul] at enough
      simp only [Rule.size] at enough
      omega
    · refine match?_tries finite within anchored size fuel body opened _ ?_
      have smaller := finite.size_le target body defined
      have fewer := Place.card_left_insert finite defined le apart
      rw [← fewer, ← Nat.add_assoc (Finset.card _), Nat.add_mul, Nat.one_mul] at enough
      simp only [Rule.size] at enough
      omega

/-- Where matching starts, no place is open or grown. -/
theorem Ready.start {pos : Nat} {forwards : List Nat} :
    Ready definitions empty n ∅ ∅ pos forwards Progress.start.memo where
  sound place m found := by cases found
  within place held := absurd held (Finset.notMem_empty place)
  found place isOpen := absurd isOpen (Finset.notMem_empty place)
  anchored place isGrown := absurd isGrown (Finset.notMem_empty place)

/-- Every rule that is tried first is tried to an end, whatever position it is tried at. -/
theorem Rule.match?_ends {rule : Rule} {pos fuel : Nat} {halt : Halt} {s : Progress}
    (finite : definitions.Bounded ids bound) (within : definitions.EmptyWithin empty)
    (anchored : definitions.Anchored empty) (inside : pos ≤ tokens.size)
    (enough : 2 * (ids.card * (tokens.size + 1)) * (bound + 1) + rule.size + tokens.size + 1 < fuel)
    (run : rule.match? definitions tokens fuel pos .start = .error halt s) : halt ≠ .outOfFuel := by
  have places := Nat.mul_le_mul_right (bound + 1)
    (Nat.mul_le_mul_left 2 (Place.card_within_le ids tokens.size))
  have tries := Rule.match?_tries (n := tokens.size) finite within anchored rfl fuel rule ∅ ∅
    (by rw [Finset.sdiff_empty, ← Nat.two_mul]; omega)
  have ends := tries pos .start inside .start
  unfold Matching.Ends at ends
  rwa [run] at ends

/-- A whole token list is read to an end. -/
theorem readAll_ends {root : Rule} {list : List Token} {fuel : Nat}
    (finite : definitions.Bounded ids bound) (within : definitions.EmptyWithin empty)
    (anchored : definitions.Anchored empty)
    (enough : 2 * (ids.card * (list.length + 1)) * (bound + 1) + root.size + list.length + 1 <
      fuel) : readAll definitions fuel root list ≠ .error .outOfFuel := by
  unfold readAll
  split
  · next run =>
    simpa using Rule.match?_ends finite within anchored (Nat.zero_le _) enough run
  · simp
  · split <;> simp

end

end ClosureLang
