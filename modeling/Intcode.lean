import Intcode.Activity
import Intcode.Amplifier.Chain
import Intcode.Amplifier.Failure
import Intcode.Amplifier.Ordering
import Intcode.Amplifier.Phases
import Intcode.Amplifier.Ring
import Intcode.Amplifier.Search
import Intcode.Command.Amplify
import Intcode.Command.Execute
import Intcode.Command.Gravity
import Intcode.Command.Program
import Intcode.Command.Report
import Intcode.CommandLine.Choice
import Intcode.CommandLine.Invocation
import Intcode.CommandLine.UsageError
import Intcode.CommandLine.Words
import Intcode.Console
import Intcode.Decimal.Binary64
import Intcode.Decimal.Layout
import Intcode.Decimal.Shortest
import Intcode.Event
import Intcode.Fault
import Intcode.File.Directory
import Intcode.File.Path
import Intcode.File.View
import Intcode.Gravity
import Intcode.Instruction
import Intcode.Listing
import Intcode.Machine
import Intcode.Machine.Effect
import Intcode.Machine.Run
import Intcode.Machine.State
import Intcode.Machine.Status
import Intcode.Main
import Intcode.Memory
import Intcode.Operation
import Intcode.Program
import Intcode.Proofs.Activity
import Intcode.Proofs.Amplifier.Agreement
import Intcode.Proofs.Amplifier.Arrangement
import Intcode.Proofs.Amplifier.Delivery
import Intcode.Proofs.Amplifier.Maximum
import Intcode.Proofs.Amplifier.Relay
import Intcode.Proofs.Amplifier.Search
import Intcode.Proofs.Listing.Grammar
import Intcode.Proofs.Listing.Layout
import Intcode.Proofs.Listing.Printing
import Intcode.Proofs.Listing.Reading
import Intcode.Proofs.Machine.Atomicity
import Intcode.Proofs.Machine.Cycle
import Intcode.Proofs.Machine.Effect
import Intcode.Proofs.Machine.Extension
import Intcode.Proofs.Machine.Finality
import Intcode.Proofs.Machine.History
import Intcode.Proofs.Machine.Invariant
import Intcode.Proofs.Machine.Run
import Intcode.Proofs.Machine.Session
import Intcode.Proofs.Machine.Table
import Intcode.Proofs.Machine.Unread
import Intcode.Settings
import Intcode.Settings.Document
import Intcode.Text.Blank
import Intcode.Text.DecimalDigit
import Intcode.Text.Fields
import Intcode.Text.File
import Intcode.Text.Numeral
import Intcode.Text.Place
import Intcode.Text.Printable
import Intcode.Text.Quoted
import Intcode.Text.Sequence
import Intcode.Toml.Date
import Intcode.Toml.Document
import Intcode.Toml.Entries
import Intcode.Toml.Lexeme.Basic
import Intcode.Toml.Lexeme.Number
import Intcode.Toml.Lexeme.Text
import Intcode.Toml.Marks
import Intcode.Toml.Mistake
import Intcode.Toml.Value
import Intcode.Proofs.Gravity.Trial
import Intcode.Proofs.Gravity.Search
import Intcode.Proofs.Machine.Driving
import Intcode.Proofs.Machine.Draining
import Intcode.Proofs.Machine.Tracing
import Intcode.Proofs.Command.Loading
import Intcode.Proofs.Console
import Intcode.Proofs.Command.Configuration
import Intcode.Proofs.Command.Exit
import Intcode.Proofs.Command.Options
import Intcode.Proofs.Command.Verbosity
import Intcode.Proofs.Command.Escape
import Intcode.Proofs.Instruction.Encoding
import Intcode.Proofs.Machine.Precedence
import Intcode.Proofs.Listing.Mistake
import Intcode.Proofs.Listing.Joining
import Intcode.Proofs.Amplifier.Phases
import Intcode.Proofs.Gravity.Outcome
import Intcode.Proofs.Machine.Termination
import Intcode.Proofs.Settings.Table
import Intcode.Proofs.Settings.Loading
