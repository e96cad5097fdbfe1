import Outbox.Clock
import Outbox.CommandLine
import Outbox.Config
import Outbox.Describe
import Outbox.Endpoint
import Outbox.Failure
import Outbox.Fleet
import Outbox.Hall
import Outbox.Handle
import Outbox.InFlight
import Outbox.Job.Basic
import Outbox.Job.Message
import Outbox.Job.Payload
import Outbox.Job.Trial
import Outbox.JobId
import Outbox.Json.Pretty
import Outbox.Json.Token
import Outbox.Json.Tree
import Outbox.Json.Value
import Outbox.KeepAlive
import Outbox.LogFormat
import Outbox.Logging
import Outbox.Loopback
import Outbox.Mailbox
import Outbox.Main
import Outbox.MessageUri
import Outbox.Notice
import Outbox.Pending
import Outbox.Proofs.Addresses.Endpoints
import Outbox.Proofs.Addresses.Uris
import Outbox.Proofs.Cancellation.Checks
import Outbox.Proofs.Clock.Deadlines
import Outbox.Proofs.Delivery.Course
import Outbox.Proofs.Delivery.Life
import Outbox.Proofs.Delivery.Once
import Outbox.Proofs.Delivery.Order
import Outbox.Proofs.Delivery.Steps
import Outbox.Proofs.Dispatch.Frame
import Outbox.Proofs.Dispatch.Verdict
import Outbox.Proofs.Executors.Balance
import Outbox.Proofs.Executors.Roster
import Outbox.Proofs.Footprint
import Outbox.Proofs.Hall.Calls
import Outbox.Proofs.Hall.Nesting
import Outbox.Proofs.Idle.Inbox
import Outbox.Proofs.Idle.Late
import Outbox.Proofs.Idle.Steps
import Outbox.Proofs.Idle.Stop
import Outbox.Proofs.Idle.Timer
import Outbox.Proofs.Idle.Vigil
import Outbox.Proofs.Idle.Window
import Outbox.Proofs.InFlight.Admission
import Outbox.Proofs.InFlight.Ledger
import Outbox.Proofs.InFlight.Ownership
import Outbox.Proofs.InFlight.Resend
import Outbox.Proofs.InFlight.Retry
import Outbox.Proofs.Inversion
import Outbox.Proofs.Listeners.Overheard
import Outbox.Proofs.Listeners.Roll
import Outbox.Proofs.Listeners.Standing
import Outbox.Proofs.Reach
import Outbox.Proofs.Registry.Roster
import Outbox.Proofs.Replay.First
import Outbox.Proofs.Replay.Handout
import Outbox.Proofs.Replay.Next
import Outbox.Proofs.Replay.Order
import Outbox.Proofs.Rest.Burden
import Outbox.Proofs.Rest.Rounds
import Outbox.Proofs.Rest.Spin
import Outbox.Proofs.Retries.Begun
import Outbox.Proofs.Retries.Count
import Outbox.Proofs.Retries.Exact
import Outbox.Proofs.Retries.Resubmission
import Outbox.Proofs.Rotation.RoundRobin
import Outbox.Proofs.Runs.Broadcast
import Outbox.Proofs.Runs.Finish
import Outbox.Proofs.Runs.Follow
import Outbox.Proofs.Runs.Protocol
import Outbox.Proofs.Runs.Tally
import Outbox.Proofs.Runs.Walk
import Outbox.Proofs.Session.Drain
import Outbox.Proofs.Session.Hand
import Outbox.Proofs.Session.Lines
import Outbox.Proofs.Session.Progress
import Outbox.Proofs.Session.Queue
import Outbox.Proofs.Session.Schedule
import Outbox.Proofs.Session.Sent
import Outbox.Proofs.Settings.Faults
import Outbox.Proofs.Settings.Written
import Outbox.Proofs.Shutdown.Aftermath
import Outbox.Proofs.Shutdown.Silence
import Outbox.Proofs.Shutdown.Startup
import Outbox.Proofs.Shutdown.Uploads
import Outbox.Proofs.Submission.Looks
import Outbox.Proofs.TimerQueue.Listing
import Outbox.Proofs.TimerQueue.Order
import Outbox.Proofs.Turns
import Outbox.Proofs.Wire.Records
import Outbox.Proofs.Wire.RoundTrip
import Outbox.Proofs.Wire.Texts
import Outbox.Proofs.Wire.Trees
import Outbox.Proofs.Wire.Values
import Outbox.Registry
import Outbox.Rehearsal.Play
import Outbox.Rehearsal.Script
import Outbox.Rehearsal.World
import Outbox.Request
import Outbox.Rotation
import Outbox.Session
import Outbox.Stats
import Outbox.Store
import Outbox.Text.Blank
import Outbox.Text.Extending
import Outbox.Text.Invisible
import Outbox.Text.Numeral
import Outbox.Text.Quoted
import Outbox.Text.Ranges
import Outbox.Text.Split
import Outbox.Text.Unassigned
import Outbox.Tickets
import Outbox.TimerQueue
import Outbox.Timestamp
import Outbox.Transport
import Outbox.Worker.Advance
import Outbox.Worker.Basic
import Outbox.Worker.Dispatch
import Outbox.Worker.Loop
import Outbox.Worker.Producer
import Outbox.Worker.Step
