import NetTrace.Binary64.Basic
import NetTrace.Binary64.Read
import NetTrace.Binary64.Shortest
import NetTrace.Command
import NetTrace.Failure
import NetTrace.Input.Basic
import NetTrace.Input.Delivery
import NetTrace.Input.Stream
import NetTrace.Lexing
import NetTrace.Netlist.Association
import NetTrace.Netlist.BitRange
import NetTrace.Netlist.Enclosed
import NetTrace.Netlist.Literal
import NetTrace.Netlist.Name
import NetTrace.Netlist.Operand
import NetTrace.Netlist.Phrase
import NetTrace.Netlist.Radix
import NetTrace.Netlist.Selection
import NetTrace.Netlist.Token
import NetTrace.Rule
import NetTrace.Scan
import NetTrace.Signal.Escaped
import NetTrace.Signal.Whitelist
import NetTrace.Text.Basic
import NetTrace.Text.Excerpt
import NetTrace.Text.Numeral
import NetTrace.Text.Printable
import NetTrace.Text.Quoted
import NetTrace.Text.Utf8
import NetTrace.Token
import NetTrace.Vcd.Command
import NetTrace.Vcd.Header
import NetTrace.Vcd.Phrase
import NetTrace.Vcd.Token
import NetTrace.Vcd.ValueChange
import NetTrace.Vcd.Variable
import NetTrace.Vcd.Word
import NetTrace.Proofs.Input.View
import NetTrace.Proofs.Scan.Limits
import NetTrace.Proofs.Scan.OnText
import NetTrace.Proofs.Text.Utf8
import NetTrace.Main
import NetTrace.Proofs.Netlist.Grammar
import NetTrace.Proofs.Netlist.Soundness
import NetTrace.Proofs.Netlist.Lexemes
import NetTrace.Proofs.Netlist.Operands
import NetTrace.Proofs.Netlist.Completeness
import NetTrace.Proofs.Netlist.Language
import NetTrace.Proofs.Netlist.Retry
import NetTrace.Proofs.Netlist.RoundTrip
import NetTrace.Proofs.Netlist.Follows
import NetTrace.Proofs.Vcd.OnText
import NetTrace.Proofs.Vcd.Follows
import NetTrace.Proofs.Input.Reading
import NetTrace.Proofs.Lexing.Rules
import NetTrace.Proofs.Lexing.Refusal
import NetTrace.Proofs.Input.Cursor
import NetTrace.Proofs.Scan.Words
import NetTrace.Proofs.Input.Pending
import NetTrace.Proofs.Vcd.Header
import NetTrace.Proofs.Binary64.Nearest
import NetTrace.Proofs.Binary64.RoundTrip
import NetTrace.Proofs.Vcd.Simulation
import NetTrace.Proofs.Vcd.Wire
import NetTrace.Proofs.Vcd.Rereading
import NetTrace.Proofs.Vcd.Relexing
import NetTrace.Proofs.Lexing.Reports
import NetTrace.Proofs.Lexing.Exhaust
import NetTrace.Proofs.Signal.Whitelist
import NetTrace.Proofs.Text.Ascii
import NetTrace.Proofs.Text.Cut
import NetTrace.Proofs.Vcd.Truncation
import NetTrace.Proofs.Lexing.ReadFailure
import NetTrace.Proofs.Text.Order
import NetTrace.Proofs.Signal.Listing
import NetTrace.Proofs.Vcd.Layout
import NetTrace.Proofs.Command.Printed
import NetTrace.Proofs.Signal.Layout
import NetTrace.Proofs.Signal.Views
import NetTrace.Proofs.Netlist.Balance
import NetTrace.Proofs.Netlist.Braces
import NetTrace.Proofs.Netlist.Items
import NetTrace.Proofs.Netlist.Leaves
import NetTrace.Proofs.Netlist.Refusals
import NetTrace.Proofs.Netlist.Numbers
import NetTrace.Proofs.Netlist.Iteration
import NetTrace.Proofs.Netlist.Ranges
import NetTrace.Proofs.Vcd.Changes
import NetTrace.Proofs.Vcd.Decoding
import NetTrace.Proofs.Vcd.Lines
import NetTrace.Proofs.Signal.Escaping
import NetTrace.Proofs.Scan.Account
import NetTrace.Proofs.Netlist.Accounts
import NetTrace.Proofs.Vcd.Accounts
import NetTrace.Proofs.Text.Excerpt
import NetTrace.Proofs.Lexing.Quotations
import NetTrace.Proofs.Lexing.Trail
import NetTrace.Proofs.Text.Rows
import NetTrace.Proofs.Command.Lines
import NetTrace.Proofs.Netlist.Radices
import NetTrace.Proofs.Vcd.Numbers
import NetTrace.Proofs.Lexing.Progress
import NetTrace.Proofs.Lexing.Termination
