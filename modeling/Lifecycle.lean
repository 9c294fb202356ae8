import Lifecycle.Bus
import Lifecycle.Debouncer
import Lifecycle.Debouncer.Scenario
import Lifecycle.Demo.Program
import Lifecycle.Demo.World
import Lifecycle.Event
import Lifecycle.Executor
import Lifecycle.Executor.Foreground
import Lifecycle.Executor.Probe
import Lifecycle.Failure
import Lifecycle.Gate.Hosting
import Lifecycle.Gate.Plain
import Lifecycle.Gate.Scenario
import Lifecycle.Gate.State
import Lifecycle.Gate.Step
import Lifecycle.Journal
import Lifecycle.Outcome
import Lifecycle.Proofs.Bus
import Lifecycle.Proofs.Debouncer.Refinement
import Lifecycle.Proofs.Debouncer.Run
import Lifecycle.Proofs.Debouncer.Slot
import Lifecycle.Proofs.Debouncer.Spacing
import Lifecycle.Proofs.Debouncer.Turn
import Lifecycle.Proofs.Debouncer.Upkeep
import Lifecycle.Proofs.Executor.Sleep
import Lifecycle.Proofs.Executor.Turns
import Lifecycle.Proofs.Gate.Alternation
import Lifecycle.Proofs.Gate.Chronicle
import Lifecycle.Proofs.Gate.Consistency
import Lifecycle.Proofs.Gate.Consumers
import Lifecycle.Proofs.Gate.Counting
import Lifecycle.Proofs.Gate.Currency
import Lifecycle.Proofs.Gate.Errands
import Lifecycle.Proofs.Gate.Failures
import Lifecycle.Proofs.Gate.Grace
import Lifecycle.Proofs.Gate.Leases
import Lifecycle.Proofs.Gate.Pace
import Lifecycle.Proofs.Gate.Phases
import Lifecycle.Proofs.Gate.Roster
import Lifecycle.Proofs.Gate.Row
import Lifecycle.Proofs.Gate.Run
import Lifecycle.Proofs.Gate.Telling
import Lifecycle.Proofs.Hosting.Crew
import Lifecycle.Proofs.Hosting.Effects
import Lifecycle.Proofs.Hosting.Frame
import Lifecycle.Proofs.Hosting.Grace
import Lifecycle.Proofs.Hosting.Path
import Lifecycle.Proofs.Hosting.Rest
import Lifecycle.Proofs.Hosting.Run
import Lifecycle.Proofs.Hosting.Steady
import Lifecycle.Proofs.Hosting.Tasks
import Lifecycle.Proofs.Hosting.Timer
import Lifecycle.Proofs.Hosting.Turn
import Lifecycle.Proofs.Hosting.Window
import Lifecycle.Proofs.Hosting.Worlds
import Lifecycle.Proofs.Receivers
import Lifecycle.Proofs.Relay.Acting
import Lifecycle.Proofs.Relay.Apart
import Lifecycle.Proofs.Relay.Asking
import Lifecycle.Proofs.Relay.Beside
import Lifecycle.Proofs.Relay.Currency
import Lifecycle.Proofs.Relay.Delivery
import Lifecycle.Proofs.Relay.Leases
import Lifecycle.Proofs.Relay.Letters
import Lifecycle.Proofs.Relay.Opening
import Lifecycle.Proofs.Relay.Orphans
import Lifecycle.Proofs.Relay.Places
import Lifecycle.Proofs.Relay.Pumping
import Lifecycle.Proofs.Relay.Relaying
import Lifecycle.Proofs.Relay.Run
import Lifecycle.Proofs.Relay.Standing
import Lifecycle.Proofs.Relay.Staying
import Lifecycle.Proofs.Relay.Streaming
import Lifecycle.Proofs.Relay.Streams
import Lifecycle.Proofs.Relay.Turning
import Lifecycle.Proofs.Relay.Upkeep
import Lifecycle.Proofs.Resource.Aside
import Lifecycle.Proofs.Resource.Crew
import Lifecycle.Proofs.Resource.Diary
import Lifecycle.Proofs.Resource.Forwarding
import Lifecycle.Proofs.Resource.History
import Lifecycle.Proofs.Resource.Protocol
import Lifecycle.Proofs.Resource.Rounds
import Lifecycle.Proofs.Resource.Run
import Lifecycle.Proofs.Resource.Seeding
import Lifecycle.Proofs.Resource.Turn
import Lifecycle.Proofs.Resource.Upkeep
import Lifecycle.Proofs.Script
import Lifecycle.Proofs.Subscribers.Accounting
import Lifecycle.Proofs.Subscribers.Crew
import Lifecycle.Proofs.Subscribers.Desk
import Lifecycle.Proofs.Subscribers.Duties
import Lifecycle.Proofs.Subscribers.FanOut
import Lifecycle.Proofs.Subscribers.Frame
import Lifecycle.Proofs.Subscribers.Habits
import Lifecycle.Proofs.Subscribers.Isolation
import Lifecycle.Proofs.Subscribers.Listening
import Lifecycle.Proofs.Subscribers.Moments
import Lifecycle.Proofs.Subscribers.Quiescence
import Lifecycle.Proofs.Subscribers.Rounds
import Lifecycle.Proofs.Subscribers.Runs
import Lifecycle.Proofs.Subscribers.Seat
import Lifecycle.Proofs.Subscribers.Seclusion
import Lifecycle.Proofs.Subscribers.Shutdown
import Lifecycle.Proofs.Subscribers.Turns
import Lifecycle.Proofs.Subscribers.Workers
import Lifecycle.Proofs.Subscribers.Worlds
import Lifecycle.Proofs.Supervisor.Attendance
import Lifecycle.Proofs.Supervisor.Cancellation
import Lifecycle.Proofs.Supervisor.Closing
import Lifecycle.Proofs.Supervisor.Events
import Lifecycle.Proofs.Supervisor.Exclusion
import Lifecycle.Proofs.Supervisor.Joining
import Lifecycle.Proofs.Supervisor.Registry
import Lifecycle.Proofs.Supervisor.Resolving
import Lifecycle.Proofs.Supervisor.Run
import Lifecycle.Proofs.Supervisor.Stages
import Lifecycle.Proofs.Supervisor.Stretches
import Lifecycle.Proofs.Supervisor.Trace
import Lifecycle.Proofs.Supervisor.Turns
import Lifecycle.Relay.Hosting
import Lifecycle.Relay.Scenario
import Lifecycle.Relay.State
import Lifecycle.Report
import Lifecycle.Resource.Cell
import Lifecycle.Script
import Lifecycle.Settings
import Lifecycle.Span
import Lifecycle.Subscribers.Hosting
import Lifecycle.Subscribers.Scenario
import Lifecycle.Subscribers.State
import Lifecycle.Subscribers.Step
import Lifecycle.Supervisor.Hosting
import Lifecycle.Supervisor.Scenario
import Lifecycle.Supervisor.State
import Lifecycle.Supervisor.Step
import Lifecycle.Text.Hidden
import Lifecycle.Text.Quoted
import Lifecycle.Value
