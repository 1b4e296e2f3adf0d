import SqlStatements.Main
import SqlStatements.Proofs.Boundaries
import SqlStatements.Proofs.ByteReading
import SqlStatements.Proofs.Calls
import SqlStatements.Proofs.Canonical
import SqlStatements.Proofs.Failing
import SqlStatements.Proofs.FixedPoints
import SqlStatements.Proofs.Keywords
import SqlStatements.Proofs.LetterCase
import SqlStatements.Proofs.LineEndings
import SqlStatements.Proofs.Lines
import SqlStatements.Proofs.Lossless
import SqlStatements.Proofs.Nesting
import SqlStatements.Proofs.Occurrences
import SqlStatements.Proofs.Openers
import SqlStatements.Proofs.Pieces
import SqlStatements.Proofs.Places
import SqlStatements.Proofs.Progress
import SqlStatements.Proofs.Quoting
import SqlStatements.Proofs.Recursion
import SqlStatements.Proofs.Tracing
import SqlStatements.Proofs.TrailingSeparator
import SqlStatements.Proofs.Verbatim
import SqlStatements.Proofs.Closers
import SqlStatements.Proofs.Drafting
import SqlStatements.Proofs.Layering
import SqlStatements.Proofs.Unquoting
import SqlStatements.Proofs.Dumping
