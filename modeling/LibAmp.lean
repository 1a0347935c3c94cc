import LibAmp.Lib.Loop
import LibAmp.Lib.Buckets
import LibAmp.Lib.Wire
import LibAmp.Lib.Ledger
import LibAmp.Lib.Guarded
import LibAmp.Lib.Decimal
import LibAmp.Lib.Fraction
import LibAmp.Lib.Custody
import LibAmp.Lib.Heap
import LibAmp.Lib.Separation
import LibAmp.Lib.Linked
import LibAmp.Runtime
import LibAmp.Lists
import LibAmp.Blocks
import LibAmp.BoxOnHeap
import LibAmp.BoxRefines
import LibAmp.BoxesOnHeap
import LibAmp.Box
import LibAmp.BoxMap
import LibAmp.BoxHistory
import LibAmp.BoxesEqual
import LibAmp.Allocations
import LibAmp.Buftoll
import LibAmp.Integers
import LibAmp.Codecs
import LibAmp.Datetime
import LibAmp.GetDouble
import LibAmp.PutDouble
import LibAmp.Table
import LibAmp.Proto
import LibAmp.Parser
import LibAmp.Decoder
import LibAmp.ParserSpec
import LibAmp.ConsumeSpec
import LibAmp.Chunking
import LibAmp.AllocFailure
import LibAmp.ParserInvariant
import LibAmp.Items
import LibAmp.ParseProgress
import LibAmp.RoundTrip
import LibAmp.SerializedSize
import LibAmp.WireFormat
import LibAmp.Delivery
import LibAmp.Dispatch
import LibAmp.DispatchSpec
import LibAmp.CallSpec
import LibAmp.CallFailure
import LibAmp.Packets
import LibAmp.Responding
import LibAmp.Reuse
import LibAmp.Completion
import LibAmp.CommandDispatch
import LibAmp.Session
import LibAmp.Lifecycle
import LibAmp.Faults
import LibAmp.Unhandled
import LibAmp.UnsetWrite
import LibAmp.Ownership
import LibAmp.SingleOwner
import LibAmp.Endpoints
import LibAmp.Exchange
import LibAmp.Agreement
import LibAmp.TableOnHeap
import LibAmp.TableRefines
import LibAmp.CallbacksOnHeap
import LibAmp.RecordsOnHeap
import LibAmp.PacketsOnHeap
import LibAmp.ProtoOnHeap
import LibAmp.ParserOnHeap
import LibAmp.DispatchOnHeap
import LibAmp.Resumption
import LibAmp.ConsumeOnHeap
import LibAmp.CallsOnHeap
import LibAmp.Usage
import LibAmp.UsageOnHeap
import LibAmp.LeakFree
