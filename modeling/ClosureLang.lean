import ClosureLang.Bytecode.Listing
import ClosureLang.Compile.Draft
import ClosureLang.Compile.Program
import ClosureLang.Rule.Render
import ClosureLang.Rule.Workshop
import ClosureLang.Proofs.Compile.Layout
import ClosureLang.Proofs.Compile.Emission
import ClosureLang.Proofs.Scope.Resolution
import ClosureLang.Proofs.Compile.Nesting
import ClosureLang.Proofs.Compile.Addressing
import ClosureLang.Proofs.Machine.Basic
import ClosureLang.Proofs.Machine.Evaluator
import ClosureLang.Proofs.Machine.Placement
import ClosureLang.Proofs.Machine.Positions
import ClosureLang.Proofs.Machine.Simulation
import ClosureLang.Proofs.Machine.Correctness
import ClosureLang.Proofs.Rule.Open
import ClosureLang.Proofs.Rule.Ends
import ClosureLang.Proofs.Rule.Growth
import ClosureLang.Proofs.Rule.Termination
import ClosureLang.Proofs.Rule.Congruence
import ClosureLang.Proofs.Rule.Bounds
import ClosureLang.Proofs.Rule.Furthest
import ClosureLang.Proofs.Rule.Fuel
import ClosureLang.Proofs.Rule.Reading
import ClosureLang.Proofs.Rule.Plain
import ClosureLang.Proofs.Rule.Transparency
import ClosureLang.Proofs.Grammar.Descent
import ClosureLang.Proofs.Grammar.Agreement
import ClosureLang.Proofs.Grammar.Following
import ClosureLang.Proofs.Grammar.Combining
import ClosureLang.Proofs.Grammar.Parts
import ClosureLang.Proofs.Grammar.Expressions
import ClosureLang.Proofs.Grammar.Statements
import ClosureLang.Proofs.Grammar.Growth
import ClosureLang.Proofs.Grammar.Forwards
import ClosureLang.Proofs.Grammar.Reading
import ClosureLang.Proofs.Scope.Registers
import ClosureLang.Proofs.Grammar.Parsed
import ClosureLang.Proofs.Machine.Operands
import ClosureLang.Proofs.Compile.Segments
import ClosureLang.Proofs.Compile.WellFormed
import ClosureLang.Proofs.Machine.Written
import ClosureLang.Proofs.Compile.Temporaries
import ClosureLang.Proofs.Scope.Uses
import ClosureLang.Proofs.Compile.Acceptance
import ClosureLang.Proofs.Operators.Chain
import ClosureLang.Proofs.Operators.Levels
import ClosureLang.Proofs.Operators.Binding
import ClosureLang.Proofs.Grammar.Finding
import ClosureLang.Proofs.Grammar.Chains
import ClosureLang.Proofs.Grammar.Lexemes
import ClosureLang.Proofs.Grammar.Spelling
import ClosureLang.Proofs.Grammar.Depth
import ClosureLang.Proofs.Grammar.Moving
import ClosureLang.Proofs.Grammar.Operands
import ClosureLang.Proofs.Grammar.Unexpected
import ClosureLang.Proofs.Grammar.Separating
import ClosureLang.Proofs.Grammar.Mirroring
import ClosureLang.Proofs.Grammar.Correspondence
import ClosureLang.Proofs.Grammar.Respacing
import ClosureLang.Proofs.Grammar.Stretches
import ClosureLang.Proofs.Grammar.Composition
import ClosureLang.Proofs.Grammar.Failing
import ClosureLang.Proofs.Grammar.Refusals
import ClosureLang.Proofs.Scope.FreeNames
import ClosureLang.Proofs.Scope.Placing
import ClosureLang.Proofs.Scope.Erasure
import ClosureLang.Proofs.Compile.OwnCells
import ClosureLang.Proofs.Compile.Annotations
import ClosureLang.Proofs.Compile.Destinations
import ClosureLang.Proofs.Compile.Standalone
import ClosureLang.Proofs.Scope.Renaming
import ClosureLang.Proofs.Compile.Renaming
import ClosureLang.Proofs.Rule.Forwardless
import ClosureLang.Proofs.Rule.LeftFold
import ClosureLang.Proofs.Compile.Capacity
import ClosureLang.Proofs.Compile.Literals
import ClosureLang.Proofs.Text.Delimited
import ClosureLang.Proofs.Text.Quoted
import ClosureLang.Proofs.Bytecode.Instructions
import ClosureLang.Proofs.Bytecode.Listing
import ClosureLang.Proofs.Rule.Everywhere
import ClosureLang.Proofs.Rule.Numbering
import ClosureLang.Proofs.Rule.Ownership
import ClosureLang.Proofs.Rule.History
import ClosureLang.Proofs.Rule.Sealed
import ClosureLang.Proofs.Rule.Marks
