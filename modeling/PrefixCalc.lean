import PrefixCalc.Main
import PrefixCalc.Editor.Workspace
import PrefixCalc.Server.Connection
import PrefixCalc.Value.Foreign
import PrefixCalc.Proofs.Expression.Evaluation
import PrefixCalc.Proofs.Machine.Bracket
import PrefixCalc.Proofs.Token.OnePass
import PrefixCalc.Proofs.Machine.Frame
import PrefixCalc.Proofs.Token.Line
import PrefixCalc.Proofs.Session.Split
import PrefixCalc.Proofs.Machine.Constants
import PrefixCalc.Proofs.OrderedMap
import PrefixCalc.Proofs.Session.History
import PrefixCalc.Proofs.Session.Watch
import PrefixCalc.Proofs.Text.Decimal
import PrefixCalc.Proofs.Binary64.Rounding
import PrefixCalc.Proofs.Binary64.Shortest
import PrefixCalc.Proofs.Binary64.Layout
import PrefixCalc.Proofs.Value.Display
import PrefixCalc.Proofs.Machine.Call
import PrefixCalc.Proofs.Machine.Promise
import PrefixCalc.Proofs.Token.Literal
import PrefixCalc.Proofs.Value.Written
import PrefixCalc.Proofs.Builtin
import PrefixCalc.Proofs.Machine.Ending
import PrefixCalc.Proofs.Session.Failure
import PrefixCalc.Proofs.Text.Characters
import PrefixCalc.Proofs.Value.Shape
import PrefixCalc.Proofs.Server.Framing
import PrefixCalc.Proofs.Server.Connection
import PrefixCalc.Proofs.Machine.Blame
import PrefixCalc.Proofs.Editor.Index
import PrefixCalc.Proofs.Editor.Heads
import PrefixCalc.Proofs.Editor.Alarm
import PrefixCalc.Proofs.Token.Overlap
import PrefixCalc.Proofs.Machine.Place
import PrefixCalc.Proofs.Token.Trim
import PrefixCalc.Proofs.Json.Quoted
import PrefixCalc.Proofs.Server.Request
import PrefixCalc.Proofs.Server.Agreement
import PrefixCalc.Proofs.Server.Sharing
import PrefixCalc.Proofs.Json.Limit
import PrefixCalc.Proofs.Json.Fuel
import PrefixCalc.Proofs.Server.Unanswered
import PrefixCalc.Proofs.Machine.Elements
import PrefixCalc.Proofs.Machine.Final
import PrefixCalc.Proofs.Machine.Culprit
import PrefixCalc.Proofs.Numeral
import PrefixCalc.Proofs.Binary64.ReadBack
import PrefixCalc.Proofs.Value.Reduced
import PrefixCalc.Proofs.Value.Canonical
import PrefixCalc.Proofs.Value.Equality
import PrefixCalc.Proofs.Token.Spacing
import PrefixCalc.Proofs.Machine.Visit
import PrefixCalc.Proofs.Numeral.Grammar
import PrefixCalc.Proofs.Cast
import PrefixCalc.Proofs.Text.Longest
import PrefixCalc.Proofs.Position
import PrefixCalc.Proofs.Position.Offset
import PrefixCalc.Proofs.Editor.Transition
import PrefixCalc.Proofs.Editor.Finding
import PrefixCalc.Proofs.Token.Matching
import PrefixCalc.Proofs.Editor.Balance
import PrefixCalc.Proofs.Editor.Constants
import PrefixCalc.Proofs.Editor.Lines
import PrefixCalc.Proofs.Editor.Word
import PrefixCalc.Proofs.Editor.OpenCall
import PrefixCalc.Proofs.Editor.Argument
import PrefixCalc.Proofs.Editor.Quote
import PrefixCalc.Proofs.Value.Color
