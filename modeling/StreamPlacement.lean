import StreamPlacement.Arithmetic.Binary64
import StreamPlacement.Arithmetic.Duration
import StreamPlacement.Arithmetic.Quantity
import StreamPlacement.Arithmetic.Room
import StreamPlacement.Arithmetic.Rounding
import StreamPlacement.Audience.Directory
import StreamPlacement.Audience.Group
import StreamPlacement.Audience.Registry
import StreamPlacement.Backhaul.AddressBook
import StreamPlacement.Backhaul.Link
import StreamPlacement.Backhaul.Listing
import StreamPlacement.Backhaul.LoadTable
import StreamPlacement.Backhaul.Node
import StreamPlacement.Backhaul.Route
import StreamPlacement.Backhaul.ShortestRoute
import StreamPlacement.Backhaul.Topology
import StreamPlacement.Cache.Server
import StreamPlacement.CommandLine.Arguments
import StreamPlacement.CommandLine.Complaint
import StreamPlacement.CommandLine.LogLevel
import StreamPlacement.CommandLine.Program
import StreamPlacement.Container.OrderedMap
import StreamPlacement.Container.Pairing
import StreamPlacement.Container.Sorting
import StreamPlacement.Decimal.Layout
import StreamPlacement.Decimal.Numeral
import StreamPlacement.Decimal.Shortest
import StreamPlacement.Documents.Configuration
import StreamPlacement.Documents.Document
import StreamPlacement.Documents.Exchange
import StreamPlacement.Documents.Trace
import StreamPlacement.Documents.Uuid
import StreamPlacement.Fault
import StreamPlacement.Files.Journal
import StreamPlacement.Files.Memory
import StreamPlacement.Files.Path
import StreamPlacement.Files.Reader
import StreamPlacement.Ident
import StreamPlacement.Json.Parse
import StreamPlacement.Json.Record
import StreamPlacement.Json.Render
import StreamPlacement.Json.Value
import StreamPlacement.Monitor
import StreamPlacement.Placement.Admission
import StreamPlacement.Placement.Escalation
import StreamPlacement.Placement.Plan
import StreamPlacement.Placement.Redirection
import StreamPlacement.Placement.Relief
import StreamPlacement.Placement.State
import StreamPlacement.Settings
import StreamPlacement.Severity
import StreamPlacement.Simulation.Agenda
import StreamPlacement.Simulation.Engine
import StreamPlacement.Simulation.Event
import StreamPlacement.Simulation.Report
import StreamPlacement.Simulation.Setup
import StreamPlacement.Solver.Answer
import StreamPlacement.Solver.Program
import StreamPlacement.Solver.Request
import StreamPlacement.Solver.Worker
import StreamPlacement.Text.Blank
import StreamPlacement.Text.Utf8
import StreamPlacement.Workload.KeyStream
import StreamPlacement.Workload.Scenario
import StreamPlacement.Main
import StreamPlacement.Proofs.Backhaul.Distance
import StreamPlacement.Proofs.Backhaul.BestRoute
import StreamPlacement.Proofs.Backhaul.RouteChoice
import StreamPlacement.Proofs.Backhaul.RouteCursor
import StreamPlacement.Proofs.Backhaul.Addresses
import StreamPlacement.Proofs.Container.OrderedMap
import StreamPlacement.Proofs.Backhaul.Booking
import StreamPlacement.Proofs.Audience.Registry
import StreamPlacement.Proofs.Placement.Coherence
import StreamPlacement.Proofs.Placement.Plan
import StreamPlacement.Proofs.Placement.Rehoming
import StreamPlacement.Proofs.Placement.Operations
import StreamPlacement.Proofs.Placement.Lookup
import StreamPlacement.Proofs.Cache.ServerPool
import StreamPlacement.Proofs.Placement.Bookings
import StreamPlacement.Proofs.Placement.Skipping
import StreamPlacement.Proofs.Backhaul.Dotted
import StreamPlacement.Proofs.Backhaul.Addressed
import StreamPlacement.Proofs.Placement.Partition
import StreamPlacement.Proofs.Placement.Relocation
import StreamPlacement.Proofs.Placement.Relief
import StreamPlacement.Proofs.Backhaul.Crossing
import StreamPlacement.Proofs.Placement.Settled
import StreamPlacement.Proofs.Placement.Repetition
import StreamPlacement.Proofs.Simulation.Turns
import StreamPlacement.Proofs.Simulation.Launch
import StreamPlacement.Proofs.Simulation.Provisioning
import StreamPlacement.Proofs.Simulation.Agenda
import StreamPlacement.Proofs.Simulation.Ending
import StreamPlacement.Proofs.Placement.Remainder
import StreamPlacement.Proofs.Placement.Descent
import StreamPlacement.Proofs.Placement.Exchange
import StreamPlacement.Proofs.Simulation.Session
import StreamPlacement.Proofs.Simulation.Conversation
import StreamPlacement.Proofs.Simulation.Timing
import StreamPlacement.Proofs.Placement.Frame
import StreamPlacement.Proofs.Placement.Membership
import StreamPlacement.Proofs.Placement.Cursor
import StreamPlacement.Proofs.Placement.Stranding
import StreamPlacement.Proofs.Backhaul.LinkAddresses
import StreamPlacement.Proofs.Simulation.Counting
import StreamPlacement.Proofs.Simulation.Measurement
import StreamPlacement.Proofs.Simulation.AfterRelief
import StreamPlacement.Proofs.Placement.FirstFit
import StreamPlacement.Proofs.Placement.Servers
import StreamPlacement.Proofs.Simulation.Ledger
import StreamPlacement.Proofs.Simulation.Moments
import StreamPlacement.Proofs.Simulation.Switching
import StreamPlacement.Proofs.Simulation.Fleet
import StreamPlacement.Proofs.Simulation.Origin
import StreamPlacement.Proofs.Arithmetic.Double
import StreamPlacement.Proofs.Simulation.Activations
import StreamPlacement.Proofs.Placement.Commands
import StreamPlacement.Proofs.Placement.Admitting
import StreamPlacement.Proofs.Placement.Outcome
import StreamPlacement.Proofs.Placement.Capacity
import StreamPlacement.Proofs.Arithmetic.NotANumber
import StreamPlacement.Proofs.Decimal.Numeral
import StreamPlacement.Proofs.Files.Memory
import StreamPlacement.Proofs.Backhaul.Listing
import StreamPlacement.Proofs.Container.Failing
import StreamPlacement.Proofs.Backhaul.Rows
import StreamPlacement.Proofs.Backhaul.Numbering
import StreamPlacement.Proofs.Backhaul.Padding
import StreamPlacement.Proofs.Backhaul.Header
import StreamPlacement.Proofs.Backhaul.Building
import StreamPlacement.Proofs.Text.Fields
import StreamPlacement.Proofs.Solver.Output
import StreamPlacement.Proofs.Monitor.Interval
import StreamPlacement.Proofs.Backhaul.Attaching
import StreamPlacement.Proofs.Backhaul.Interfaces
import StreamPlacement.Proofs.Backhaul.Viewers
import StreamPlacement.Proofs.Backhaul.DistinctAddresses
import StreamPlacement.Proofs.Backhaul.AddressBlocks
import StreamPlacement.Proofs.Solver.Arguments
import StreamPlacement.Proofs.Arithmetic.Bits
import StreamPlacement.Proofs.Arithmetic.Duration
import StreamPlacement.Proofs.Settings.Ranges
import StreamPlacement.Proofs.Container.Sorting
import StreamPlacement.Proofs.Workload.Scenario
import StreamPlacement.Proofs.Json.Grammar
import StreamPlacement.Proofs.Json.Rendering
import StreamPlacement.Proofs.Documents.RoundTrip
import StreamPlacement.Proofs.Json.Rearranged
import StreamPlacement.Proofs.Documents.Rearranged
import StreamPlacement.Proofs.Ident
