import ReadThrough.Coalescing
import ReadThrough.Script
import ReadThrough.Session
import ReadThrough.Proofs.Flights.Operations
import ReadThrough.Proofs.Flights.Keeps
import ReadThrough.Proofs.Flights.Departures
import ReadThrough.Proofs.Coalescing.Invariant
import ReadThrough.Proofs.Coalescing.Registry
import ReadThrough.Proofs.Coalescing.Invocations
import ReadThrough.Proofs.Coalescing.Independence
import ReadThrough.Proofs.Coalescing.Outcomes
import ReadThrough.Proofs.Load.Course
import ReadThrough.Proofs.Load.Books
import ReadThrough.Proofs.Load.Deliveries
import ReadThrough.Proofs.Load.Lives
import ReadThrough.Proofs.Store.Arrivals
import ReadThrough.Proofs.Store.Contents
import ReadThrough.Proofs.Call.Course
import ReadThrough.Proofs.Session.Conformance
import ReadThrough.Proofs.Session.Tasks
import ReadThrough.Proofs.Session.Moves
import ReadThrough.Proofs.Session.Runs
import ReadThrough.Proofs.Session.Effects
import ReadThrough.Proofs.Session.Contents
import ReadThrough.Proofs.Session.Attendance
import ReadThrough.Proofs.Session.Failures
import ReadThrough.Proofs.Session.Deliveries
import ReadThrough.Proofs.Session.Endings
import ReadThrough.Proofs.Session.Addresses
import ReadThrough.Proofs.Session.Provenance
import ReadThrough.Proofs.Session.Chronicle
import ReadThrough.Proofs.Flights.Callers
import ReadThrough.Proofs.Flights.Copies
import ReadThrough.Proofs.Coalescing.Cancellations
import ReadThrough.Proofs.Coalescing.Unfolding
import ReadThrough.Proofs.Coalescing.Steadiness
import ReadThrough.Proofs.Coalescing.Mirrors
import ReadThrough.Proofs.Coalescing.Isolation
import ReadThrough.Proofs.Session.LoadPaths
import ReadThrough.Proofs.Session.Aims
import ReadThrough.Proofs.Session.Occupancy
import ReadThrough.Proofs.Session.Serial
import ReadThrough.Proofs.Session.Forward
import ReadThrough.Proofs.Channel
import ReadThrough.Proofs.Session.Publications
import ReadThrough.Proofs.Session.UpToDate
import ReadThrough.Proofs.Session.Listeners
import ReadThrough.Proofs.Session.Convergence
import ReadThrough.Proofs.Channel.Lag
import ReadThrough.Proofs.Load.Outputs
import ReadThrough.Proofs.Session.Ledger
import ReadThrough.Proofs.Session.Topics
import ReadThrough.Proofs.Session.Streams
import ReadThrough.Proofs.Channel.Comparison
import ReadThrough.Proofs.Session.Sharing
import ReadThrough.Proofs.Session.Unfolding
import ReadThrough.Proofs.Session.Meetings
import ReadThrough.Proofs.Session.Seclusion
import ReadThrough.Proofs.Session.Invisibility
import ReadThrough.Proofs.Session.Attempts
import ReadThrough.Proofs.Session.Diaries
import ReadThrough.Proofs.Session.Watches
import ReadThrough.Proofs.Session.Retries
import ReadThrough.Proofs.Session.Merging
import ReadThrough.Proofs.Load.Lockstep
import ReadThrough.Proofs.Call.Lockstep
import ReadThrough.Proofs.Table
import ReadThrough.Proofs.Call.Judging
import ReadThrough.Proofs.Call.Collecting
import ReadThrough.Proofs.Session.SideBySide
import ReadThrough.Proofs.Session.Sparing
import ReadThrough.Proofs.Session.Judging
import ReadThrough.Proofs.Session.Agreement
import ReadThrough.Proofs.Session.Genuine
import ReadThrough.Proofs.Session.Collecting
import ReadThrough.Proofs.Session.LastValue
import ReadThrough.Proofs.Freshness
import ReadThrough.Proofs.Store.Forgetting
import ReadThrough.Proofs.Flights.WithoutRegistry
import ReadThrough.Proofs.Coalescing.Closing
import ReadThrough.Proofs.Session.Unread
import ReadThrough.Proofs.Session.Clearing
import ReadThrough.Proofs.Builder
import ReadThrough.Proofs.Store.Evictions
import ReadThrough.Proofs.Store.Recording
import ReadThrough.Proofs.Session.Recording
import ReadThrough.Proofs.Session.Handles
