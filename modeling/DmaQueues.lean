import DmaQueues.Access
import DmaQueues.Allocation.FreeList
import DmaQueues.Allocation.Group
import DmaQueues.Allocation.Range
import DmaQueues.Allocation.Registry
import DmaQueues.Capability
import DmaQueues.Card
import DmaQueues.Command
import DmaQueues.Engine
import DmaQueues.Error
import DmaQueues.Fault
import DmaQueues.Hex
import DmaQueues.Identification
import DmaQueues.Image
import DmaQueues.Notice
import DmaQueues.Packing.Descriptor
import DmaQueues.Packing.Function
import DmaQueues.Packing.Layout
import DmaQueues.Packing.Stream
import DmaQueues.Queue.Config
import DmaQueues.Queue.Device
import DmaQueues.Queue.Manager
import DmaQueues.Record.Basic
import DmaQueues.Record.Descriptor
import DmaQueues.Record.Function
import DmaQueues.Record.Kind
import DmaQueues.Record.Stream
import DmaQueues.Register
import DmaQueues.Script
import DmaQueues.Selector
import DmaQueues.Trace
import DmaQueues.Trigger
import DmaQueues.Variant
import DmaQueues.Version
import DmaQueues.Window
import DmaQueues.Word.Mask
import DmaQueues.Word.Segment
import DmaQueues.Proofs.Allocation.Range
import DmaQueues.Proofs.Allocation.FreeList
import DmaQueues.Proofs.Allocation.BestFit
import DmaQueues.Proofs.Allocation.Group
import DmaQueues.Proofs.Allocation.Valid
import DmaQueues.Proofs.Allocation.Operation
import DmaQueues.Proofs.Allocation.History
import DmaQueues.Proofs.Allocation.Soundness
import DmaQueues.Proofs.Allocation.Entry
import DmaQueues.Proofs.Allocation.Held
import DmaQueues.Proofs.Allocation.Policy
import DmaQueues.Proofs.Allocation.Assignment
import DmaQueues.Proofs.Allocation.Request
import DmaQueues.Proofs.Allocation.Refusal
import DmaQueues.Proofs.Allocation.Active
import DmaQueues.Proofs.Allocation.Overflow
import DmaQueues.Proofs.Allocation.Local
import DmaQueues.Proofs.Allocation.Handle
import DmaQueues.Proofs.Script
import DmaQueues.Proofs.Queue.Table
import DmaQueues.Proofs.Queue.Desk
import DmaQueues.Proofs.Queue.Site
import DmaQueues.Proofs.Word.Mask
import DmaQueues.Proofs.Word.Segment
import DmaQueues.Proofs.Packing.Layout
import DmaQueues.Proofs.Packing.Tables
import DmaQueues.Proofs.Packing.Unpack
import DmaQueues.Proofs.Command
import DmaQueues.Proofs.Run
import DmaQueues.Proofs.Card
import DmaQueues.Proofs.Trace
import DmaQueues.Proofs.Engine
import DmaQueues.Proofs.Engine.Call
import DmaQueues.Proofs.Engine.Flight
import DmaQueues.Proofs.Engine.Polling
import DmaQueues.Proofs.Access.Memory
import DmaQueues.Proofs.Access.Rejection
import DmaQueues.Proofs.Engine.Contexts
import DmaQueues.Proofs.Access.Records
import DmaQueues.Proofs.Queue.Validation
import DmaQueues.Proofs.Queue.Contexts
import DmaQueues.Proofs.Queue.Frame
import DmaQueues.Proofs.Queue.Ownership
import DmaQueues.Proofs.Queue.FunctionMap
import DmaQueues.Proofs.Identification
import DmaQueues.Proofs.Queue.Isolation
import DmaQueues.Proofs.Packing.Extension
import DmaQueues.Proofs.Queue.Start
import DmaQueues.Proofs.Allocation.Rollback
import DmaQueues.Proofs.Engine.Writes
import DmaQueues.Proofs.Queue.SetRange
import DmaQueues.Proofs.Access.Writes
import DmaQueues.Proofs.Queue.Writes
import DmaQueues.Proofs.Queue.Shutdown
import DmaQueues.Proofs.Engine.Commands
import DmaQueues.Proofs.Queue.Bringup
import DmaQueues.Proofs.Queue.Commands
import DmaQueues.Proofs.Engine.History
import DmaQueues.Proofs.Queue.Enable
import DmaQueues.Proofs.Queue.Teardown
import DmaQueues.Proofs.Queue.SetMap
import DmaQueues.Proofs.Queue.Attach
import DmaQueues.Proofs.Queue.MappedFunctions
import DmaQueues.Proofs.Allocation.FreeSet
import DmaQueues.Proofs.Allocation.Splitting
import DmaQueues.Proofs.Command.Codec
import DmaQueues.Proofs.Word.Scatter
