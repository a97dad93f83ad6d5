import Vimlet.Main
import Vimlet.Proofs.Expr.Grammar
import Vimlet.Proofs.Statement.BigStep
import Vimlet.Proofs.Interpreter.Signal
import Vimlet.Proofs.Session.Attribution
import Vimlet.Proofs.Session.Builtins
import Vimlet.Proofs.Session.Silence
import Vimlet.Proofs.Session.Reports
import Vimlet.Proofs.Line.Family
import Vimlet.Proofs.Expr.Literal
import Vimlet.Proofs.Json.Values
import Vimlet.Proofs.Session.Containment
import Vimlet.Proofs.Statement.Assignment
import Vimlet.Proofs.Session.Recursion
import Vimlet.Proofs.Namespace.Reading
import Vimlet.Proofs.Value.Printing
import Vimlet.Proofs.Value.Separation
import Vimlet.Proofs.Value.Agreement
import Vimlet.Proofs.Value.Positions
import Vimlet.Proofs.Value.Slices
import Vimlet.Proofs.Value.Splitting
import Vimlet.Proofs.Value.Flattening
import Vimlet.Proofs.Sorting.Values
import Vimlet.Proofs.Number.Radix
import Vimlet.Proofs.Expr.Blanks
