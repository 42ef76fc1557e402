import TokenWalk.Command
import TokenWalk.Cursor
import TokenWalk.Expression
import TokenWalk.Fault
import TokenWalk.Fragment
import TokenWalk.Journal
import TokenWalk.Machine
import TokenWalk.Main
import TokenWalk.Number.Double
import TokenWalk.Number.Numeral
import TokenWalk.Number.Shortest
import TokenWalk.Operator
import TokenWalk.Proofs.BlockEnd
import TokenWalk.Proofs.Braces
import TokenWalk.Proofs.Composition
import TokenWalk.Proofs.CopyDown
import TokenWalk.Proofs.Frames
import TokenWalk.Proofs.Kept
import TokenWalk.Proofs.Lockstep
import TokenWalk.Proofs.Onward
import TokenWalk.Proofs.Outcome
import TokenWalk.Proofs.Pairing
import TokenWalk.Proofs.Program
import TokenWalk.Proofs.Simulation
import TokenWalk.Repl
import TokenWalk.Scopes
import TokenWalk.Session
import TokenWalk.Settings
import TokenWalk.Statement
import TokenWalk.Text.Blank
import TokenWalk.Text.Digit
import TokenWalk.Text.Printable
import TokenWalk.Text.Quoted
import TokenWalk.Text.Utf8
import TokenWalk.Text.Word
import TokenWalk.Token
import TokenWalk.Token.Piece
import TokenWalk.Token.Source
import TokenWalk.Transcript
import TokenWalk.Value
import TokenWalk.Value.Arithmetic
import TokenWalk.Value.Comparison
import TokenWalk.Proofs.MaximalMunch
import TokenWalk.Proofs.Lexemes
import TokenWalk.Proofs.Positions
import TokenWalk.Proofs.Joining
import TokenWalk.Proofs.Rendering
import TokenWalk.Proofs.BlockScope
import TokenWalk.Proofs.Course
import TokenWalk.Proofs.FragmentBraces
import TokenWalk.Proofs.Holdings
import TokenWalk.Proofs.Literals
import TokenWalk.Proofs.Containment
import TokenWalk.Proofs.Provenance
import TokenWalk.Proofs.Layout
import TokenWalk.Proofs.Halting
import TokenWalk.Proofs.Inert
import TokenWalk.Proofs.Blame
import TokenWalk.Proofs.WordArithmetic
import TokenWalk.Proofs.Dialogue
import TokenWalk.Proofs.Logging
import TokenWalk.Proofs.Atomicity
import TokenWalk.Proofs.Declarators
import TokenWalk.Proofs.ExactOrder
import TokenWalk.Proofs.LeftFold
import TokenWalk.Proofs.MatchingBrace
import TokenWalk.Proofs.Locality
import TokenWalk.Proofs.LastLine
import TokenWalk.Proofs.WordEnds
import TokenWalk.Proofs.FragmentWords
