import Enroll.Main
import Enroll.Proofs.Exchange.Frame
import Enroll.Proofs.Exchange.Unranked
import Enroll.Proofs.Exchange.Invariant
import Enroll.Proofs.Exchange.Run
import Enroll.Proofs.Exchange.Projection
import Enroll.Proofs.Exchange.Solo
import Enroll.Proofs.Client.Independence
import Enroll.Proofs.Exchange.Agenda
import Enroll.Proofs.Exchange.Waiting
import Enroll.Proofs.Exchange.Reacting
import Enroll.Proofs.Exchange.Verdict
import Enroll.Proofs.Exchange.Classification
import Enroll.Proofs.Logging
import Enroll.Proofs.Client.Deadline
import Enroll.Proofs.Client.Status
import Enroll.Proofs.Exchange.Overrun
import Enroll.Proofs.Exchange.Delivery
import Enroll.Proofs.Client.Rejection
import Enroll.Proofs.Client.Trace
import Enroll.Proofs.Config.Job
import Enroll.Proofs.Config.DotEnv
import Enroll.Proofs.Command.Run
import Enroll.Proofs.Command.Process
import Enroll.Proofs.Text.Units
import Enroll.Proofs.Text.Utf8
import Enroll.Proofs.Text.Blank
import Enroll.Proofs.Number.Rounding
import Enroll.Proofs.Number.Decimal
import Enroll.Proofs.Number.Digits
import Enroll.Proofs.Json.Numeral
import Enroll.Proofs.Json.Members
import Enroll.Proofs.Json.Grammar
import Enroll.Proofs.Json.Lexing
import Enroll.Proofs.Json.Reading
import Enroll.Proofs.Json.Printing
import Enroll.Proofs.Registration.Body
import Enroll.Proofs.Registration.Diagnostic
import Enroll.Proofs.Config.Key
import Enroll.Proofs.Exchange.Hiding
import Enroll.Proofs.Command.Secrecy
import Enroll.Proofs.Account
import Enroll.Proofs.Command.Account
import Enroll.Proofs.Exchange.Apart
import Enroll.Proofs.Interruption
import Enroll.Proofs.Command.Interruption
import Enroll.Proofs.Number.Place
import Enroll.Proofs.Number.Whole
import Enroll.Proofs.Number.Shortest
import Enroll.Proofs.Json.NumeralText
import Enroll.Proofs.Json.Order
import Enroll.Proofs.Json.RoundTrip
import Enroll.Proofs.Registration.Line
import Enroll.Proofs.Check
import Enroll.Proofs.Config.Decision
import Enroll.Proofs.Config.Fallback
import Enroll.Proofs.Config.Reported
import Enroll.Proofs.Config.KeyFile
import Enroll.Proofs.Command.KeyFile
import Enroll.Proofs.Command.Downstream
import Enroll.Proofs.Registration.Readable
import Enroll.Proofs.Logging.Line
import Enroll.Proofs.Exchange.Timer
import Enroll.Proofs.Client.Limit
import Enroll.Proofs.Number.Reading
import Enroll.Proofs.Command.Port
import Enroll.Proofs.Client.Agreement
import Enroll.Proofs.Logging.Layout
