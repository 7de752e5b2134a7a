import StreamLayers.Bytes
import StreamLayers.Log
import StreamLayers.Payload
import StreamLayers.Fault
import StreamLayers.Source
import StreamLayers.Sink
import StreamLayers.Guard
import StreamLayers.Reader
import StreamLayers.Writer
import StreamLayers.Mock
import StreamLayers.Store
import StreamLayers.Replay
import StreamLayers.Tee
import StreamLayers.Marker
import StreamLayers.Probe
import StreamLayers.Digits
import StreamLayers.Decimal
import StreamLayers.Scenario.Directories
import StreamLayers.Scenario.Store
import StreamLayers.Pipe
import StreamLayers.Pipe.Copy
import StreamLayers.Pipe.Script
import StreamLayers.Stack
import StreamLayers.Scenario.Base
import StreamLayers.Scenario.Sink
import StreamLayers.Scenario.Stack
import StreamLayers.Word
import StreamLayers.Value
import StreamLayers.Json.Printer
import StreamLayers.Json.Parser
import StreamLayers.Toml.Printer
import StreamLayers.Probe.Summary
import StreamLayers.Settings
import StreamLayers.Environment
import StreamLayers.Toml.Scalar
import StreamLayers.Toml.Parser
import StreamLayers.Text
import StreamLayers.Settings.Environment
import StreamLayers.Settings.Load
import StreamLayers.Style
import StreamLayers.Command.Failure
import StreamLayers.Command.Input
import StreamLayers.Command.Extract
import StreamLayers.Command.Duplicate
import StreamLayers.Command.Measure
import StreamLayers.Command.Report
import StreamLayers.Command.Arguments
import StreamLayers.Command.Files
import StreamLayers.Command.Host
import StreamLayers.Command.Run
import StreamLayers.Main
import StreamLayers.Proofs.Store.LogView
import StreamLayers.Proofs.Replay
import StreamLayers.Proofs.Replay.Run
import StreamLayers.Proofs.Replay.FailedRead
import StreamLayers.Proofs.Sink
import StreamLayers.Proofs.Tee
import StreamLayers.Proofs.Tee.Ledger
import StreamLayers.Proofs.Tee.Run
import StreamLayers.Proofs.Pipe.Flow
import StreamLayers.Proofs.Pipe.Reads
import StreamLayers.Proofs.Pipe.Outcome
import StreamLayers.Proofs.Marker.Regions
import StreamLayers.Proofs.Marker.Reads
import StreamLayers.Proofs.Pipe.Calls
import StreamLayers.Proofs.Pipe.Contract
import StreamLayers.Proofs.Pipe.Cancellation
import StreamLayers.Proofs.Reads
import StreamLayers.Proofs.Replay.Twins
import StreamLayers.Proofs.Replay.Spilling
import StreamLayers.Proofs.Replay.Traced
import StreamLayers.Proofs.Yields
import StreamLayers.Proofs.Layers
import StreamLayers.Proofs.Stack
import StreamLayers.Proofs.Replay.Cursor
import StreamLayers.Proofs.Replay.Holdings
import StreamLayers.Proofs.Stack.Fresh
import StreamLayers.Proofs.Stack.Cursors
import StreamLayers.Proofs.Stack.Closing
import StreamLayers.Proofs.Serving
import StreamLayers.Proofs.Marker.Serving
import StreamLayers.Proofs.Pipe.Refusal
import StreamLayers.Proofs.Pipe.Copy
import StreamLayers.Proofs.Command.Extract
import StreamLayers.Proofs.Store.FailedPut
import StreamLayers.Proofs.Replay.Rewind
import StreamLayers.Proofs.Replay.Kept
import StreamLayers.Proofs.Replay.Seek
import StreamLayers.Proofs.Replay.Limit
import StreamLayers.Proofs.Store.Boundary
import StreamLayers.Proofs.Exhaustion
import StreamLayers.Proofs.Tee.Calls
import StreamLayers.Proofs.Tee.Closing
import StreamLayers.Proofs.Tee.Isolation
import StreamLayers.Proofs.Probe.Calls
import StreamLayers.Proofs.Probe.Rollback
import StreamLayers.Proofs.Probe.Aggregation
import StreamLayers.Proofs.Probe.Lookup
import StreamLayers.Proofs.Pipe.Bridge
import StreamLayers.Proofs.Pump
import StreamLayers.Proofs.Marker.Enclosed
import StreamLayers.Proofs.Marker.FirstRegion
import StreamLayers.Proofs.Tee.Serving
import StreamLayers.Proofs.Command.Duplicate
import StreamLayers.Proofs.Pipe.Capacity
import StreamLayers.Proofs.BrokenPipe
import StreamLayers.Proofs.Replay.Recording
import StreamLayers.Proofs.Command.Measure
import StreamLayers.Proofs.Toml.Strings
import StreamLayers.Proofs.Toml.Scalars
import StreamLayers.Proofs.Toml.Document
import StreamLayers.Proofs.Settings.Saved
