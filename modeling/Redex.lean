import Redex.Evaluation.Playback
import Redex.Evaluation.Step.Json
import Redex.Session.Consumer
import Redex.Syntax.Estree
import Redex.Text.Edit.Json
import Redex.Text.Edit.Word
import Redex.Proofs.Text.Position
import Redex.Proofs.Text.Transport
import Redex.Proofs.Text.Runs
import Redex.Proofs.Text.Lookup
import Redex.Proofs.Session.Action
import Redex.Proofs.Session.Calls
import Redex.Proofs.Text.Provenance
import Redex.Proofs.Evaluation.Script
import Redex.Proofs.Evaluation.Meaning
import Redex.Proofs.Evaluation.Visits
import Redex.Proofs.Evaluation.Delivery
import Redex.Proofs.Evaluation.Offence
import Redex.Proofs.Evaluation.Pieces
import Redex.Proofs.Evaluation.Resumption
import Redex.Proofs.Stepping.Exchange
import Redex.Proofs.Stepping.Phases
import Redex.Proofs.Stepping.Accounts
import Redex.Proofs.Stepping.Waiting
import Redex.Proofs.Stepping.Protocol
import Redex.Proofs.Text.Rewriting
import Redex.Proofs.Text.Quoting
import Redex.Proofs.Text.WellFormed
import Redex.Proofs.Text.Enclosing
import Redex.Proofs.Session.Performing
import Redex.Proofs.Session.Merging
import Redex.Proofs.Session.Operations
import Redex.Proofs.Session.Reachable
import Redex.Proofs.Session.Reading
import Redex.Proofs.Session.Atomicity
import Redex.Proofs.Number.Characters
import Redex.Proofs.Program.Written
import Redex.Proofs.Program.Denoting
import Redex.Proofs.Program.Evaluation
import Redex.Proofs.Evaluation.Nesting
import Redex.Proofs.Session.Evaluating
import Redex.Proofs.Text.Undoing
import Redex.Proofs.Text.Balance
import Redex.Proofs.Session.Joining
import Redex.Proofs.Session.SingleLine
import Redex.Proofs.Session.Balance
import Redex.Proofs.Text.Delimiting
import Redex.Proofs.Session.Replacing
import Redex.Proofs.Session.Literal
import Redex.Proofs.Session.Denotation
import Redex.Proofs.Session.Addressing
import Redex.Proofs.Session.Misordered
import Redex.Proofs.Json.Members
import Redex.Proofs.Json.Same
import Redex.Proofs.Syntax.Document
import Redex.Proofs.Syntax.Decoding
import Redex.Proofs.Syntax.Unread
import Redex.Proofs.Number.Radix
import Redex.Proofs.Number.Numeric
import Redex.Proofs.Number.Laying
import Redex.Proofs.Number.ReadingBack
import Redex.Proofs.Program.Mixed
import Redex.Proofs.Text.Commuting
import Redex.Proofs.Evaluation.Composition
import Redex.Proofs.Session.Underflow
import Redex.Proofs.Text.Tightest
import Redex.Proofs.Text.Scanning
