import TinyScript.Main
import TinyScript.Tree.Guard
import TinyScript.Proofs.Grammar.Nesting
import TinyScript.Proofs.Grammar.Exactness
import TinyScript.Proofs.Grammar.Contract
import TinyScript.Proofs.Grammar.Blame
import TinyScript.Proofs.Grammar.Unclosed
import TinyScript.Proofs.Grammar.Sequence
import TinyScript.Proofs.Grammar.Step
import TinyScript.Proofs.Grammar.Respelling
import TinyScript.Proofs.Grammar.Final
import TinyScript.Proofs.Grammar.Body
import TinyScript.Proofs.Grammar.Matching
import TinyScript.Proofs.Grammar.Forward
import TinyScript.Proofs.Grammar.Visible
import TinyScript.Proofs.Grammar.Trace
import TinyScript.Proofs.Grammar.Progress
import TinyScript.Proofs.Command.Reporting
import TinyScript.Proofs.Command.TokenList
import TinyScript.Proofs.Scan.Lexeme
import TinyScript.Proofs.Scan.Factoring
import TinyScript.Proofs.Scan.Failing
import TinyScript.Proofs.Scan.Stopping
import TinyScript.Proofs.Scan.Concat
import TinyScript.Proofs.Scan.Rescan
import TinyScript.Proofs.Scan.Newlines
import TinyScript.Proofs.Scan.Tracking
import TinyScript.Proofs.Scan.Rebuild
import TinyScript.Proofs.Scan.FloatLiteral
import TinyScript.Proofs.Scan.StringLiteral
import TinyScript.Proofs.Number.Nearest
import TinyScript.Proofs.Number.Widening
import TinyScript.Proofs.Number.Numeral
import TinyScript.Proofs.Number.ReadBack
import TinyScript.Proofs.Number.Layout
import TinyScript.Proofs.Number.Fewest
import TinyScript.Proofs.Tree.Image
import TinyScript.Proofs.Tree.Words
import TinyScript.Proofs.Tree.Legible
import TinyScript.Proofs.Tree.Shown
import TinyScript.Proofs.Tree.Faithful
import TinyScript.Proofs.Tree.Guard
import TinyScript.Proofs.Tree.Layout
import TinyScript.Proofs.Text.Encoding
import TinyScript.Proofs.Text.Lines
import TinyScript.Proofs.Tree.File
