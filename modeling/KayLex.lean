import KayLex.Command.Survey
import KayLex.Main
import KayLex.Proofs.Opening
import KayLex.Grammar.Spelling
import KayLex.Proofs.Grammar.Spelling
import KayLex.Proofs.Printing
import KayLex.Proofs.Cursor.Walk
import KayLex.Proofs.Places
import KayLex.Proofs.Cursor.Lookahead
import KayLex.Proofs.Session.Walks
import KayLex.Proofs.Lookahead
import KayLex.Proofs.Truncation
import KayLex.Proofs.Grammar.Boundaries
import KayLex.Proofs.Moving
import KayLex.Proofs.Appending
import KayLex.Proofs.Memoryless
import KayLex.Proofs.FileScan
import KayLex.Proofs.LineBreaks
import KayLex.Proofs.Cursor.Handling
import KayLex.Proofs.Release
import KayLex.Proofs.Resting
import KayLex.Proofs.Listing
import KayLex.Proofs.Accounting
import KayLex.Proofs.Rereading
import KayLex.Proofs.Survey
import KayLex.Proofs.Interruptions
import KayLex.Proofs.Touching
import KayLex.Proofs.Progress
import KayLex.Proofs.Journal
import KayLex.Proofs.Answering
