import RouteVolume.Backtrack
import RouteVolume.Box
import RouteVolume.Command.Arguments
import RouteVolume.Command.Help
import RouteVolume.Command.Options
import RouteVolume.Command.Session
import RouteVolume.Cover
import RouteVolume.Diagnostic
import RouteVolume.Fault
import RouteVolume.Files
import RouteVolume.Interval
import RouteVolume.Main
import RouteVolume.Network
import RouteVolume.Network.Wiring
import RouteVolume.Path
import RouteVolume.Place
import RouteVolume.Proofs.Box.Domain
import RouteVolume.Proofs.Box.Narrow
import RouteVolume.Proofs.Box.Narrowings
import RouteVolume.Proofs.Box.Points
import RouteVolume.Proofs.Cover.Active
import RouteVolume.Proofs.Cover.Cells
import RouteVolume.Proofs.Cover.Division
import RouteVolume.Proofs.Cover.Overlap
import RouteVolume.Proofs.Cover.Sweep
import RouteVolume.Proofs.Cover.Union
import RouteVolume.Proofs.Network.Adjacency
import RouteVolume.Proofs.Network.Assembly
import RouteVolume.Proofs.Network.Counts
import RouteVolume.Proofs.Network.Dot
import RouteVolume.Proofs.Network.Exploration
import RouteVolume.Proofs.Network.Failures
import RouteVolume.Proofs.Network.Order
import RouteVolume.Proofs.Network.Renumbering
import RouteVolume.Proofs.Network.Replay
import RouteVolume.Proofs.Network.Routes
import RouteVolume.Proofs.Network.Safety
import RouteVolume.Proofs.Network.Tally
import RouteVolume.Proofs.Network.Trails
import RouteVolume.Proofs.Network.Turns
import RouteVolume.Proofs.Network.Validity
import RouteVolume.Proofs.Network.Violations
import RouteVolume.Proofs.Network.Visits
import RouteVolume.Proofs.Record.Grammar
import RouteVolume.Proofs.Record.Lines
import RouteVolume.Proofs.Record.Marks
import RouteVolume.Proofs.Record.Printing
import RouteVolume.Proofs.Record.Zeros
import RouteVolume.Proofs.RuleBook.Columns
import RouteVolume.Proofs.RuleBook.Ends
import RouteVolume.Proofs.RuleBook.Evaluation
import RouteVolume.Proofs.RuleBook.Extension
import RouteVolume.Proofs.RuleBook.Reading
import RouteVolume.Proofs.RuleBook.Recasting
import RouteVolume.Proofs.RuleBook.Stages
import RouteVolume.Proofs.Survey.Additions
import RouteVolume.Proofs.Survey.Complement
import RouteVolume.Proofs.Survey.Cycles
import RouteVolume.Proofs.Survey.Loops
import RouteVolume.Proofs.Survey.Regions
import RouteVolume.Proofs.Survey.Renaming
import RouteVolume.Proofs.Wiring.Arrivals
import RouteVolume.Proofs.Wiring.Drawing
import RouteVolume.Proofs.Wiring.Image
import RouteVolume.Proofs.Wiring.Junctions
import RouteVolume.Proofs.Wiring.Layout
import RouteVolume.Proofs.Wiring.Meaning
import RouteVolume.Proofs.Wiring.Naming
import RouteVolume.Proofs.Wiring.Recovery
import RouteVolume.Proofs.Wiring.Renaming
import RouteVolume.Proofs.Wiring.Rendering
import RouteVolume.Proofs.Wiring.Reports
import RouteVolume.Record
import RouteVolume.Record.Scanner
import RouteVolume.Report
import RouteVolume.Report.Json
import RouteVolume.RuleBook
import RouteVolume.Settings
import RouteVolume.Survey
import RouteVolume.Text.Blank
import RouteVolume.Text.Numeral
import RouteVolume.Text.Quoted
import RouteVolume.Text.Utf8
import RouteVolume.Workflow
import RouteVolume.Proofs.Network.Changes
import RouteVolume.Proofs.Network.Histories
import RouteVolume.Proofs.RuleBook.Origin
import RouteVolume.Proofs.Session.Loading
import RouteVolume.Proofs.Session.Arguments
import RouteVolume.Proofs.Session.Reports
import RouteVolume.Proofs.Session.Codes
import RouteVolume.Proofs.Box.Order
import RouteVolume.Proofs.RuleBook.Rearranging
import RouteVolume.Proofs.Wiring.Rearranging
import RouteVolume.Proofs.Survey.Listing
import RouteVolume.Proofs.Session.Surveys
import RouteVolume.Proofs.Session.Listing
