import Skein.Log
import Skein.Decimal.Layout
import Skein.Text.Quoted
import Skein.Json.Decode
import Skein.Json.Write
import Skein.Failure.Dispatch
import Skein.Retry.Policy
import Skein.Operation
import Skein.Run.Detached
import Skein.Identifier
import Skein.Fiber.Config
import Skein.Retry.Settings
import Skein.Session.Operations
import Skein.Session.WorkItems
import Skein.Session.Queues
import Skein.Session.Crowd
import Skein.Session.Fibers
import Skein.Session.Actors
import Skein.Demo.Run
import Skein.Main
import Skein.Proofs.Run.Elapse
import Skein.Proofs.Run.Attempt
import Skein.Proofs.Run.WholeRun
import Skein.Proofs.Run.Signal
import Skein.Queue.Race
import Skein.Queue.Calls
import Skein.Proofs.Queue.Alone
import Skein.Proofs.Queue.Conservation
import Skein.Proofs.Queue.Wakeup
import Skein.Proofs.Queue.Locked
import Skein.Fiber.Race
import Skein.Proofs.Fiber.Steps
import Skein.Proofs.Fiber.Story
import Skein.Proofs.Fiber.Settlement
import Skein.Proofs.Fiber.Disposal
import Skein.Proofs.Fiber.Sequence
import Skein.Proofs.Fiber.Alone
import Skein.Proofs.Run.Agreement
import Skein.Proofs.Run.Accounting
import Skein.Proofs.Run.Provenance
import Skein.Proofs.Run.Flatten
import Skein.Proofs.Run.Ageing
import Skein.Proofs.Run.Arrivals
import Skein.Proofs.Run.Disposal
import Skein.Fiber.Watch
import Skein.Proofs.Fiber.Reports
import Skein.Proofs.Queue.PlainList
import Skein.Actor.Race
import Skein.Proofs.Actor.Serial
import Skein.Proofs.Json.RoundTrip
import Skein.Proofs.Failure.Containment
import Skein.Proofs.WorkItem.Life
import Skein.Proofs.Run.Counting
import Skein.Proofs.Run.Timing
import Skein.Proofs.Operation.Transparency
import Skein.Proofs.WorkItem.Looks
import Skein.Proofs.Run.Detached
import Skein.Run.Layer
import Skein.Proofs.Failure.Sources
import Skein.Proofs.Retry.Matching
import Skein.Proofs.Run.Telling
import Skein.Proofs.Json.Partial
import Skein.Proofs.Retry.Settings
import Skein.Proofs.Identifier.Digits
import Skein.Proofs.Demo.Fiber
import Skein.Proofs.Demo.Run
import Skein.Proofs.Demo.Sections
