import ClosureLang.Proofs.Bytecode.Instructions
import ClosureLang.Proofs.Text.Quoted

/-!
# A listing determines its unit

Every line of a listing says where it belongs: its indentation is the depth of the unit, and its
first word tells whether an instruction, a literal or a heading follows. A unit therefore ends where
the heading of a unit further out begins, so the lines of nested units can be told apart, and two
units with the same listing are the same unit.

The way back goes through rows. A `Row` is what a line says, and it can be read off the line: the
indentation is all blanks and the first word is not, the first word is a position, the label of a
literal or the mark of a heading, and these are different; the rest of an instruction are words that
determine it, the rest of a literal is a quoted text. No line contains a line break, whatever the
literals contain, since they are quoted; so the lines can be read off the listing.

From the rows the unit is put together again by recursion on the unit. Instructions come first, then
the literals under a heading of their own, which is missing if there are none, then the inner units.
What has to be known is where each part ends. Instructions and literals end where the first word is
another one. An inner unit ends before the heading of the next one, of a unit further out, or at the
end of the listing: `Closes` says that of the lines that follow, with the depth of the unit. Each
part is shown to be determined together with the place where it ends, so the parts can be taken off
one after the other.
-/

set_option autoImplicit false

namespace ClosureLang

open Text

namespace Listing

/-! ## What a line says -/

/-- The words after the name of a unit in its heading. -/
def capacityWords (numRegisters numRefs : Nat) : List String :=
  ["CODE", "regs", toString numRegisters ++ ",", "refs", toString numRefs, "=="]

/-- The capacities are shown in words without blanks and line breaks. -/
theorem isWord_of_mem_capacityWords {numRegisters numRefs : Nat} :
    ∀ word ∈ capacityWords numRegisters numRefs, IsWord word := by
  simp +decide only [capacityWords, List.forall_mem_cons, isWord_append, isWord_toString]

/-- The capacities can be read off their words. -/
theorem capacityWords_inj {numRegisters numRefs numRegisters' numRefs' : Nat} :
    capacityWords numRegisters numRefs = capacityWords numRegisters' numRefs' ↔
      numRegisters = numRegisters' ∧ numRefs = numRefs' := by
  simp [capacityWords]

/-- The words after the first one in the heading of an inner unit. -/
def unitWords (index numRegisters numRefs : Nat) : List String :=
  "(id:" :: (toString index ++ ")") :: capacityWords numRegisters numRefs

/-- The heading of an inner unit consists of words. -/
theorem isWord_of_mem_unitWords {index numRegisters numRefs : Nat} :
    ∀ word ∈ unitWords index numRegisters numRefs, IsWord word := by
  simp +decide only [unitWords, List.forall_mem_cons, isWord_append, isWord_toString, true_and]
  exact isWord_of_mem_capacityWords

/-- What a line of a listing says, below the first. -/
inductive Row where
  | instruction (pos : Nat) (i : Instruction)
  /-- The heading of the literals. -/
  | literals
  | literal (index : Nat) (text : String)
  /-- The heading of an inner unit. -/
  | unit (index numRegisters numRefs : Nat)

namespace Row

/-- The first word of a line. -/
def key : Row → String
  | instruction pos _ => positionText pos
  | literal index _ => toString index ++ ":"
  | literals | unit .. => "=="

/-- What a line shows after its first word. -/
def content : Row → String
  | instruction _ i => i.render
  | literals => "LITERALS =="
  | literal _ text => quote text
  | unit index numRegisters numRefs =>
    " ".intercalate (unitWords index numRegisters numRefs)

/-- A line without its indentation. -/
def text (row : Row) : String :=
  row.key ++ " " ++ row.content

/-- The first word of a line is one. -/
theorem isWord_key (row : Row) : IsWord row.key := by
  cases row with
  | instruction pos => exact isWord_positionText pos
  | literal index => exact isWord_append.mpr ⟨isWord_toString index, by decide⟩
  | literals | unit => exact (by decide : IsWord "==")

/-- The first word of a line is not empty, so the indentation before it ends there. -/
theorem key_ne_nil (row : Row) : row.key.toList ≠ [] := by
  cases row with
  | instruction pos => simp [key, toList_positionText]
  | literal index => simp [key]
  | literals | unit => exact (by decide : "==".toList ≠ [])

/-- Whatever a line shows, it shows on one line: texts are quoted, and quoting escapes line
breaks. -/
theorem no_lineBreak_content (row : Row) : '\n' ∉ row.content.toList := by
  cases row with
  | instruction _ i => exact i.no_lineBreak_render
  | literals => exact (by decide : '\n' ∉ "LITERALS ==".toList)
  | literal _ text => exact no_lineBreak_quote text
  | unit => exact no_lineBreak_intercalate isWord_of_mem_unitWords

/-- The number and the capacities of an inner unit can be read off its heading. -/
theorem unit_content_inj {index numRegisters numRefs index' numRegisters' numRefs' : Nat}
    (h : (unit index numRegisters numRefs).content = (unit index' numRegisters' numRefs').content) :
    index = index' ∧ numRegisters = numRegisters' ∧ numRefs = numRefs' := by
  have words : unitWords index numRegisters numRefs = unitWords index' numRegisters' numRefs' :=
    intercalate_words_inj isWord_of_mem_unitWords isWord_of_mem_unitWords
      (List.cons_ne_nil _ _) (List.cons_ne_nil _ _) h
  simpa [unitWords, capacityWords_inj] using words

/-- A position consists of digits, so it is different from everything with another character in
it. -/
theorem positionText_ne {pos : Nat} {s : String} {c : Char} (mem : c ∈ s.toList)
    (h : ¬ c.isDigit) : positionText pos ≠ s := by
  rintro rfl
  exact h (isDigit_of_mem_positionText mem)

/-- A position is no label of a literal, which ends with a colon. -/
theorem positionText_ne_label {pos index : Nat} : positionText pos ≠ toString index ++ ":" :=
  positionText_ne (c := ':') (by simp) (by decide)

/-- A position is no heading. -/
theorem positionText_ne_heading {pos : Nat} : positionText pos ≠ "==" :=
  positionText_ne (c := '=') (by decide) (by decide)

/-- The label of a literal is no heading. -/
theorem label_ne_heading {index : Nat} : toString index ++ ":" ≠ "==" := by
  intro same
  have colon : ':' ∈ (toString index ++ ":").toList := by simp
  exact absurd (same ▸ colon) (by decide : ':' ∉ "==".toList)

/-- The heading of the literals and that of an inner unit, which begin with the same word, differ in
the next. -/
theorem literals_content_ne {index numRegisters numRefs : Nat} :
    literals.content ≠ (unit index numRegisters numRefs).content := by
  intro same
  have chars := congrArg String.toList same
  simp [content, unitWords, capacityWords] at chars

/-- A line is determined by its text, apart from its indentation. -/
theorem text_injective : Function.Injective text := by
  intro row row' eq
  obtain ⟨key, content⟩ : row.key.toList = row'.key.toList ∧
      row.content.toList = row'.content.toList :=
    append_cons_inj row.isWord_key.1 row'.isWord_key.1
      (by simpa [text, String.append_assoc] using congrArg String.toList eq)
  rw [String.toList_inj] at key content
  cases row with
  | instruction pos i =>
    cases row' with
    | instruction pos' i' =>
      rw [positionText_inj.mp key, Instruction.render_injective content]
    | literal => exact absurd key positionText_ne_label
    | literals | unit => exact absurd key positionText_ne_heading
  | literal index literal =>
    cases row' with
    | instruction => exact absurd key.symm positionText_ne_label
    | literal index' literal' =>
      have same : index = index' := by simpa [Row.key] using key
      rw [same, quote_injective content]
    | literals | unit => exact absurd key label_ne_heading
  | literals =>
    cases row' with
    | instruction => exact absurd key.symm positionText_ne_heading
    | literal => exact absurd key.symm label_ne_heading
    | literals => rfl
    | unit => exact absurd content literals_content_ne
  | unit index numRegisters numRefs =>
    cases row' with
    | instruction => exact absurd key.symm positionText_ne_heading
    | literal => exact absurd key.symm label_ne_heading
    | literals => exact absurd content.symm literals_content_ne
    | unit index' numRegisters' numRefs' =>
      obtain ⟨rfl, rfl, rfl⟩ := unit_content_inj content
      rfl

end Row

/-- A line below the first: how far in it stands and what it says. -/
structure Line where
  depth : Nat
  row : Row

/-- The blanks in front of the lines of a unit. -/
def indentation : Nat → String
  | 0 => ""
  | depth + 1 => indentation depth ++ "  "

/-- The indentation is two blanks for each level. -/
theorem toList_indentation (depth : Nat) :
    (indentation depth).toList = List.replicate (2 * depth) ' ' := by
  induction depth with
  | zero => rfl
  | succ depth ih =>
    rw [indentation, String.toList_append, ih, Nat.mul_succ, ← List.replicate_append_replicate]
    rfl

namespace Line

/-- The line as it is printed. -/
def text (line : Line) : String :=
  indentation line.depth ++ line.row.text

/-- No line contains a line break. -/
theorem no_lineBreak_text (line : Line) : '\n' ∉ line.text.toList := by
  simp [text, Row.text, toList_indentation, line.row.isWord_key.2, line.row.no_lineBreak_content]

/-- The blanks in front of a line tell its depth, since its first word begins with another
character. -/
theorem text_injective : Function.Injective text := by
  have blanks : ∀ line : Line,
      line.text.toList.takeWhile (· == ' ') = List.replicate (2 * line.depth) ' ' := by
    intro line
    obtain ⟨c, rest, split⟩ := List.exists_cons_of_ne_nil line.row.key_ne_nil
    have notBlank : c ≠ ' ' := by
      rintro rfl
      exact line.row.isWord_key.1 (by simp [split])
    rw [text, String.toList_append, toList_indentation, List.takeWhile_append_of_pos (by simp)]
    simp [Row.text, split, notBlank]
  intro line line' eq
  have depth : line.depth = line'.depth := by
    have lengths := congrArg List.length ((blanks line).symm.trans (eq ▸ blanks line'))
    simpa using lengths
  have row : line.row = line'.row := by
    rw [text, text, depth] at eq
    exact Row.text_injective ((String.append_right_inj _).mp eq)
  cases line
  cases line'
  simp_all

end Line

/-! ## The lines of a unit -/

/-- The lines of a unit's instructions. -/
def instructionRows (depth : Nat) (instructions : List Instruction) : List Line :=
  instructions.zipIdx.map fun (i, pos) => ⟨depth, .instruction pos i⟩

/-- The lines of a unit's literals. -/
def literalRows (depth : Nat) : List String → List Line
  | [] => []
  | literals => ⟨depth, .literals⟩ :: literals.zipIdx.map fun (text, i) => ⟨depth, .literal i text⟩

end Listing

open Listing

namespace Code

mutual

/-- The lines of a unit below its heading. -/
def rows (depth : Nat) : Code → List Line
  | ⟨_, _, instructions, literals, units⟩ =>
    instructionRows depth instructions.toList ++
      (literalRows depth literals ++ unitRows depth 0 units)

/-- The lines of inner units, numbered from `i` on. -/
def unitRows (depth i : Nat) : List Code → List Line
  | [] => []
  | unit :: units =>
    ⟨depth, .unit i unit.numRegisters unit.numRefs⟩ ::
      (unit.rows (depth + 1) ++ unitRows depth (i + 1) units)

end

/-- The lines of a unit's instructions and literals are the texts of its rows. -/
theorem ownLines_eq (c : Code) (depth : Nat) : c.ownLines (indentation depth) =
    (instructionRows depth c.instructions.toList ++
      literalRows depth c.literals).map Line.text := by
  rw [ownLines, List.map_append]
  congr 1
  · simp [instructionRows, Line.text, Row.text, Row.key, Row.content, String.append_assoc]
  · cases c.literals with
    | nil => rfl
    | cons literal literals =>
      simp [literalRows, Line.text, Row.text, Row.key, Row.content, ← String.toList_inj]

/-- The heading of an inner unit is the text of its row. -/
theorem heading_eq (depth i : Nat) (unit : Code) :
    indentation depth ++ "== (id: " ++ toString i ++ ") " ++ unit.capacityText ++ " ==" =
      Line.text ⟨depth, .unit i unit.numRegisters unit.numRefs⟩ := by
  rw [← String.toList_inj]
  simp [capacityText, Line.text, Row.text, Row.key, Row.content, unitWords, capacityWords]

mutual

/-- The listing of a unit, below the heading, consists of the texts of its rows. -/
theorem lines_eq (depth : Nat) :
    ∀ c : Code, c.lines (indentation depth) = (c.rows depth).map Line.text
  | ⟨_, _, _, _, units⟩ => by
    rw [lines, rows, ownLines_eq, unitLines_eq depth 0 units, ← List.map_append, List.append_assoc]

/-- The same for inner units, numbered from `i` on. -/
theorem unitLines_eq (depth i : Nat) : ∀ units : List Code,
    unitLines (indentation depth) i units = (unitRows depth i units).map Line.text
  | [] => rfl
  | unit :: units => by
    rw [unitLines, unitRows, ← indentation, lines_eq (depth + 1) unit,
      unitLines_eq depth (i + 1) units, heading_eq, List.map_cons, List.map_append]
    rfl

end

end Code

/-! ## Where a unit ends -/

namespace Listing

/-- The first of the lines, if there are any, is the heading of an inner unit. -/
def StartsUnit (rest : List Line) : Prop :=
  ∀ line ∈ rest.head?, ∃ i numRegisters numRefs, line.row = .unit i numRegisters numRefs

/-- A unit at `depth` has ended before the lines `rest`: they are none, or they begin with the
heading of a unit further out. -/
structure Closes (depth : Nat) (rest : List Line) : Prop where
  startsUnit : StartsUnit rest
  further_out : ∀ line ∈ rest.head?, line.depth < depth

/-- A run of numbered lines ends where another form of line follows. -/
theorem run_append_inj {α : Type} {line : α × Nat → Line} {OfRun : Line → Prop}
    (run : ∀ x, OfRun (line x)) (inj : ∀ {x y n}, line (x, n) = line (y, n) → x = y) :
    ∀ {xs ys : List α} {n : Nat} {rest rest' : List Line},
      (∀ first ∈ rest.head?, ¬ OfRun first) → (∀ first ∈ rest'.head?, ¬ OfRun first) →
      (xs.zipIdx n).map line ++ rest = (ys.zipIdx n).map line ++ rest' → xs = ys ∧ rest = rest'
  | [], [], _, _, _, _, _, eq => ⟨rfl, eq⟩
  | [], y :: ys, n, rest, rest', other, _, eq => by
    obtain rfl : rest = line (y, n) :: ((ys.zipIdx (n + 1)).map line ++ rest') := eq
    exact absurd (run (y, n)) (other _ rfl)
  | x :: xs, [], n, rest, rest', _, other, eq => by
    obtain rfl : line (x, n) :: ((xs.zipIdx (n + 1)).map line ++ rest) = rest' := eq
    exact absurd (run (x, n)) (other _ rfl)
  | x :: xs, y :: ys, n, _, _, other, other', eq => by
    obtain ⟨head, tail⟩ := List.cons.inj eq
    obtain ⟨items, rests⟩ := run_append_inj run inj other other' tail
    exact ⟨by rw [inj head, items], rests⟩

/-- Before the end or the heading of a unit, the rows of the literals determine the literals, and so
does the place where they end. -/
theorem literalRows_append_inj {depth : Nat} {rest rest' : List Line} (h : StartsUnit rest)
    (h' : StartsUnit rest') : ∀ {literals literals' : List String},
      literalRows depth literals ++ rest = literalRows depth literals' ++ rest' →
      literals = literals' ∧ rest = rest'
  | [], [], eq => ⟨rfl, eq⟩
  | [], literal :: literals, eq => by
    obtain ⟨_, _, _, unit⟩ := h ⟨depth, .literals⟩ (by rw [show rest = _ from eq]; rfl)
    cases unit
  | literal :: literals, [], eq => by
    obtain ⟨_, _, _, unit⟩ := h' ⟨depth, .literals⟩ (by rw [← show _ = rest' from eq]; rfl)
    cases unit
  | literal :: literals, literal' :: literals', eq => by
    have other : ∀ {rest}, StartsUnit rest → ∀ first ∈ rest.head?, ¬ ∃ i text,
        first.row = .literal i text := by
      rintro rest starts first mem ⟨_, _, literal⟩
      obtain ⟨_, _, _, unit⟩ := starts first mem
      cases literal.symm.trans unit
    exact run_append_inj (fun _ => ⟨_, _, rfl⟩) (by simp) (other h) (other h') (List.cons.inj eq).2

/-- Instructions and literals are determined by their rows together, and so is what follows them:
each kind of row has its own first word. -/
theorem instructionRows_append_inj {depth : Nat} {instructions instructions' : List Instruction}
    {literals literals' : List String} {rest rest' : List Line} (h : StartsUnit rest)
    (h' : StartsUnit rest')
    (eq : instructionRows depth instructions ++ (literalRows depth literals ++ rest) =
      instructionRows depth instructions' ++ (literalRows depth literals' ++ rest')) :
    instructions = instructions' ∧ literals = literals' ∧ rest = rest' := by
  have other : ∀ {literals rest}, StartsUnit rest →
      ∀ first ∈ (literalRows depth literals ++ rest).head?, ¬ ∃ pos i,
        first.row = .instruction pos i := by
    rintro literals rest starts first mem ⟨_, _, instruction⟩
    cases literals with
    | nil =>
      obtain ⟨_, _, _, unit⟩ := starts first mem
      cases instruction.symm.trans unit
    | cons =>
      obtain rfl := Option.some.inj mem
      cases instruction
  obtain ⟨same, tail⟩ := run_append_inj (fun _ => ⟨_, _, rfl⟩) (by simp) (other h) (other h') eq
  exact ⟨same, literalRows_append_inj h h' tail⟩

end Listing

namespace Code

/-- Rows of inner units begin with the heading of a unit, or are none. -/
theorem startsUnit_unitRows {depth i : Nat} {units : List Code} {rest : List Line}
    (h : StartsUnit rest) : StartsUnit (unitRows depth i units ++ rest) := by
  cases units with
  | nil => exact h
  | cons unit units =>
    rintro _ ⟨⟩
    exact ⟨_, _, _, rfl⟩

/-- The units inside a unit are closed by whatever closes it, and by the heading of each other. -/
theorem closes_unitRows {depth i : Nat} {units : List Code} {rest : List Line}
    (h : Closes depth rest) : Closes (depth + 1) (unitRows depth i units ++ rest) := by
  refine ⟨startsUnit_unitRows h.startsUnit, ?_⟩
  cases units with
  | nil => exact fun line mem => Nat.lt_succ_of_lt (h.further_out line mem)
  | cons unit units =>
    rintro _ ⟨⟩
    exact Nat.lt_succ_self depth

mutual

/-- The lines of a unit and its heading determine it, and where its lines end. -/
theorem rows_append_inj : ∀ {c c' : Code} {depth : Nat} {rest rest' : List Line},
    Closes depth rest → Closes depth rest' → c.numRegisters = c'.numRegisters →
    c.numRefs = c'.numRefs → c.rows depth ++ rest = c'.rows depth ++ rest' → c = c' ∧ rest = rest'
  | ⟨_, _, _, _, _⟩, ⟨_, _, _, _, _⟩, _, _, _, closes, closes', registers, refs, eq => by
    simp only [rows, List.append_assoc] at eq registers refs
    obtain ⟨instructions, literals, tail⟩ := instructionRows_append_inj
      (startsUnit_unitRows closes.startsUnit) (startsUnit_unitRows closes'.startsUnit) eq
    obtain ⟨inner, rests⟩ := unitRows_append_inj closes closes' tail
    exact ⟨by rw [registers, refs, Array.toList_inj.mp instructions, literals, inner], rests⟩

/-- Inner units are determined by their rows, and so is what follows them. By recursion on the
units: each one ends at the heading of the next or of a unit further out. -/
theorem unitRows_append_inj : ∀ {units units' : List Code} {depth i : Nat} {rest rest' : List Line},
    Closes depth rest → Closes depth rest' →
    unitRows depth i units ++ rest = unitRows depth i units' ++ rest' →
    units = units' ∧ rest = rest'
  | [], [], _, _, _, _, _, _, eq => ⟨rfl, eq⟩
  | [], unit :: units, depth, i, rest, rest', closes, _, eq => by
    have outer := closes.further_out ⟨depth, .unit i unit.numRegisters unit.numRefs⟩
      (by rw [show rest = _ from eq]; rfl)
    exact absurd outer (Nat.lt_irrefl depth)
  | unit :: units, [], depth, i, rest, rest', _, closes, eq => by
    have outer := closes.further_out ⟨depth, .unit i unit.numRegisters unit.numRefs⟩
      (by rw [← show _ = rest' from eq]; rfl)
    exact absurd outer (Nat.lt_irrefl depth)
  | unit :: units, unit' :: units', depth, i, rest, rest', closes, closes', eq => by
    simp only [unitRows, List.cons_append, List.append_assoc] at eq
    obtain ⟨heading, tail⟩ := List.cons.inj eq
    simp only [Line.mk.injEq, Row.unit.injEq, true_and] at heading
    obtain ⟨same, others⟩ := rows_append_inj (closes_unitRows closes) (closes_unitRows closes')
      heading.1 heading.2 tail
    obtain ⟨inner, rests⟩ := unitRows_append_inj closes closes' others
    exact ⟨by rw [same, inner], rests⟩

end

/-! ## Listings -/

/-- The words of the first line of a listing. -/
def titleWords (c : Code) : List String :=
  "==" :: capacityWords c.numRegisters c.numRefs

/-- The first line of a listing, word for word. -/
theorem title_eq (c : Code) : "== " ++ c.capacityText ++ " ==" = " ".intercalate c.titleWords := by
  rw [← String.toList_inj]
  simp [capacityText, titleWords, capacityWords]

/-- The first line of a listing consists of words. -/
theorem isWord_of_mem_titleWords (c : Code) : ∀ word ∈ c.titleWords, IsWord word := by
  simp +decide only [titleWords, List.forall_mem_cons, true_and]
  exact isWord_of_mem_capacityWords

/-- The first line of a listing shows the capacities of the unit. -/
theorem title_inj {c c' : Code}
    (h : "== " ++ c.capacityText ++ " ==" = "== " ++ c'.capacityText ++ " ==") :
    c.numRegisters = c'.numRegisters ∧ c.numRefs = c'.numRefs := by
  rw [title_eq, title_eq] at h
  have words := intercalate_words_inj c.isWord_of_mem_titleWords c'.isWord_of_mem_titleWords
    (List.cons_ne_nil _ _) (List.cons_ne_nil _ _) h
  exact capacityWords_inj.mp (List.cons.inj words).2

/-- A unit is determined by its listing. -/
theorem listing_injective : Function.Injective listing := by
  intro c c' eq
  have single : ∀ c : Code, ∀ line ∈ ("== " ++ c.capacityText ++ " ==") :: c.lines "",
      '\n' ∉ line.toList := by
    intro c
    rw [List.forall_mem_cons, title_eq, ← indentation, lines_eq, List.forall_mem_map]
    exact ⟨no_lineBreak_intercalate c.isWord_of_mem_titleWords,
      fun line _ => line.no_lineBreak_text⟩
  obtain ⟨title, below⟩ := List.cons.inj (join_lines_inj (single c) (single c') eq)
  obtain ⟨registers, refs⟩ := title_inj title
  rw [← indentation, lines_eq, lines_eq] at below
  have rows : c.rows 0 ++ [] = c'.rows 0 ++ [] := by
    simpa using List.map_injective_iff.mpr Line.text_injective below
  -- nothing follows the lines of the unit
  have closes : Closes 0 [] := ⟨nofun, nofun⟩
  exact (rows_append_inj closes closes registers refs rows).1

end Code

end ClosureLang
