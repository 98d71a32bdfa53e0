import PsPayload.Core.Http.Request
import PsPayload.Core.Http.ReadRequest
import PsPayload.Core.Http.RoundTrip
import PsPayload.Core.Http.Segmentation
import PsPayload.Core.Http.ContentLength
import PsPayload.Core.Http.Encode
import PsPayload.Lib.Transition
import PsPayload.Ps5.Thread.HandOff
import PsPayload.Core.Http.Serve
import PsPayload.Core.Http.Connection
import PsPayload.Core.Http.Lifecycle
import PsPayload.Core.Http.AcceptLoop
import PsPayload.Lib.Loop
import PsPayload.Ps5.Fs
import PsPayload.Ps5.WriteAll
import PsPayload.Core.Http.Grammar
import PsPayload.Core.Http.Bounds
import PsPayload.Core.Http.Interrupt
import PsPayload.Ps5.Thread.InitDestroy
import PsPayload.Ps5.Thread.Mutex
import PsPayload.Lib.Ledger
import PsPayload.Lib.Ownership
import PsPayload.Ps5.Thread.Guards
import PsPayload.Ps5.Http.Client
import PsPayload.Ps5.Http.Handles
import PsPayload.Ps5.Addr
import PsPayload.Ps5.Fd.Wrapper
import PsPayload.Ps5.Fd.Ownership
import PsPayload.Lib.Environment
import PsPayload.Ps5.Http.Outcome
import PsPayload.Ps5.LookupHost
import PsPayload.Core.Http.ContentType
import PsPayload.Ps5.Fs.File
import PsPayload.Ps5.Fs.RoundTrip
import PsPayload.Lib.Lossy
import PsPayload.Ps5.Fs.ReadDir
import PsPayload.Lib.Sections
import PsPayload.Ps5.Thread.Data
import PsPayload.Ps5.Thread.Notify
import PsPayload.Core.Http.Descriptors
import PsPayload.Core.Http.Exchange
import PsPayload.Core.Http.Work
import PsPayload.Lib.Parallel
import PsPayload.Lib.Refinement
import PsPayload.Ps5.Fs.Path
import PsPayload.Ps5.Fs.Volume
import PsPayload.Ps5.Fs.Threads
import PsPayload.Ps5.Fs.Append
import PsPayload.Ps5.Fs.Replace
import PsPayload.Ps5.Fs.Store
import PsPayload.Ps5.Fs.Cursor
import PsPayload.Lib.Atomic
import PsPayload.Ps5.Net.Udp
import PsPayload.Ps5.Net.Post
