import Lox.Main
import Lox.Proofs.Run.Control
import Lox.Proofs.Scope.Occurrence
import Lox.Proofs.Scope.Resolving
import Lox.Proofs.Syntax.Cursor
import Lox.Proofs.Syntax.Numbering
import Lox.Proofs.Syntax.Grammar
import Lox.Proofs.Syntax.Sound
import Lox.Proofs.Syntax.Complete
import Lox.Proofs.Syntax.Orderly
import Lox.Proofs.Scope.Places
import Lox.Proofs.Scope.Activation
import Lox.Proofs.Scope.Rooted
import Lox.Proofs.Scope.Ready
import Lox.Proofs.Scope.Carried
import Lox.Proofs.Scope.Session
import Lox.Proofs.Run.Fault
import Lox.Proofs.Scope.Addressing
import Lox.Proofs.Renaming.Scopes
import Lox.Proofs.Renaming.Resolving
import Lox.Proofs.Renaming.Stores
import Lox.Proofs.Renaming.Machines
import Lox.Proofs.Renaming.Running
import Lox.Proofs.Renaming.Behaviour
import Lox.Proofs.Token.Lossless
import Lox.Proofs.Matching.Limits
import Lox.Proofs.Matching.Sessions
import Lox.Proofs.Matching.Concatenation
import Lox.Proofs.Run.Course
import Lox.Proofs.Scope.Permitted
import Lox.Proofs.Run.Return
import Lox.Proofs.Run.Sink
import Lox.Proofs.Run.Code
import Lox.Proofs.Run.Halting
import Lox.Proofs.Syntax.Targets
import Lox.Proofs.Scope.Lexical
import Lox.Proofs.Syntax.Roles
import Lox.Proofs.Scope.Binding
import Lox.Proofs.Scope.Receiver
import Lox.Proofs.Run.Declaring
import Lox.Proofs.Scope.Identity
import Lox.Proofs.Scope.Scoped
import Lox.Proofs.Syntax.Contract
import Lox.Proofs.Syntax.Ending
import Lox.Proofs.Run.Diagnostics
import Lox.Proofs.Token.Layout
import Lox.Proofs.Scope.Merging
import Lox.Proofs.Syntax.Isolation
import Lox.Proofs.Syntax.Semicolon
import Lox.Proofs.Token.Quoting
import Lox.Proofs.Forest
import Lox.Proofs.Loop.Meaning
import Lox.Proofs.Heap.WellFounded
import Lox.Proofs.Syntax.ReadingBack
import Lox.Proofs.Echo.Exact
import Lox.Proofs.Echo.Accepted
import Lox.Proofs.Number.Numerals
import Lox.Proofs.Syntax.ErrorOrder
