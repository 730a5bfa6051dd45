import OcamlTemporal.Lib.History
import OcamlTemporal.Lib.StackMachine
import OcamlTemporal.Lib.Transitions
import OcamlTemporal.Lib.Ledger
import OcamlTemporal.Lib.Protocol
import OcamlTemporal.Lib.SelfDelimiting
import OcamlTemporal.Lib.Decimal
import OcamlTemporal.Lib.Keyed
import OcamlTemporal.Lib.Json
import OcamlTemporal.Lib.Base64
import OcamlTemporal.Lib.Blocks
import OcamlTemporal.Lib.Buffer
import OcamlTemporal.Lib.Frames
import OcamlTemporal.Lib.Outcome
import OcamlTemporal.Lib.Paging
import OcamlTemporal.Lib.Signed64
import OcamlTemporal.Lib.Triple
import OcamlTemporal.Lib.Utf8
import OcamlTemporal.Lib.XorLinear
import OcamlTemporal.Base.Error
import OcamlTemporal.Base.Codec
import OcamlTemporal.Base.OrderedRegistry
import OcamlTemporal.Runtime.Activation
import OcamlTemporal.Runtime.Random
import OcamlTemporal.Runtime.Program
import OcamlTemporal.Runtime.Scheduler
import OcamlTemporal.Runtime.Context
import OcamlTemporal.Runtime.Tables
import OcamlTemporal.Runtime.Operations
import OcamlTemporal.Runtime.Resolutions
import OcamlTemporal.Runtime.Execution
import OcamlTemporal.Runtime.Changes
import OcamlTemporal.Runtime.Continuations
import OcamlTemporal.Runtime.Progress
import OcamlTemporal.Runtime.Script
import OcamlTemporal.Runtime.Conditions
import OcamlTemporal.Protocol.Values
import OcamlTemporal.Protocol.Workflow
import OcamlTemporal.Protocol.Control
import OcamlTemporal.Protocol.Base64
import OcamlTemporal.Protocol.ClientRequests
import OcamlTemporal.Protocol.Codec
import OcamlTemporal.Protocol.Durations
import OcamlTemporal.Protocol.ErrorType
import OcamlTemporal.Protocol.Retryability
import OcamlTemporal.Protocol.Translation
import OcamlTemporal.Protocol.Truncation
import OcamlTemporal.Protocol.Completions
import OcamlTemporal.Bridge.Control
import OcamlTemporal.Bridge.ClientCalls
import OcamlTemporal.Bridge.CoreFailure
import OcamlTemporal.Bridge.CoreLog
import OcamlTemporal.Bridge.Completions
import OcamlTemporal.Bridge.Submissions
import OcamlTemporal.Mailbox.ClientAwait
import OcamlTemporal.Mailbox.SharedRuntime
import OcamlTemporal.Activity.Request
import OcamlTemporal.Activity.AsyncHandle
import OcamlTemporal.Activity.Adapter
import OcamlTemporal.Activity.Books
import OcamlTemporal.Worker.Adapter
import OcamlTemporal.Worker.Ownership
import OcamlTemporal.Worker.Processing
import OcamlTemporal.Worker.Watchdog
import OcamlTemporal.Worker.Idle
import OcamlTemporal.Worker.Shutdown
import OcamlTemporal.Worker.Discard
import OcamlTemporal.Mock.Service
import OcamlTemporal.Mock.Visibility
import OcamlTemporal.Sound.Terminal
import OcamlTemporal.Sound.Patches
import OcamlTemporal.Sound.Queue
import OcamlTemporal.Sound.Tables
import OcamlTemporal.Sound.LocalActivities
import OcamlTemporal.Sound.LocalRetries
import OcamlTemporal.Sound.OperationKey
import OcamlTemporal.Sound.Adapter
import OcamlTemporal.Sound.Worker
import OcamlTemporal.Sound.Json
import OcamlTemporal.Sound.Base64
import OcamlTemporal.Sound.ClientAwait
import OcamlTemporal.Sound.ClientCalls
import OcamlTemporal.Sound.ClientIsolation
import OcamlTemporal.Sound.Conditions
import OcamlTemporal.Sound.Completions
import OcamlTemporal.Sound.Utf8
import OcamlTemporal.Sound.CoreLog
import OcamlTemporal.Sound.Discard
import OcamlTemporal.Sound.Durations
import OcamlTemporal.Sound.ErrorType
import OcamlTemporal.Sound.FailureChain
import OcamlTemporal.Sound.Idle
import OcamlTemporal.Sound.MockService
import OcamlTemporal.Sound.MockVisibility
import OcamlTemporal.Sound.OptionCodec
import OcamlTemporal.Sound.OrderedRegistry
import OcamlTemporal.Sound.Random
import OcamlTemporal.Sound.SharedRuntime
import OcamlTemporal.Sound.Submissions
import OcamlTemporal.Sound.Translation
import OcamlTemporal.Sound.Truncation
import OcamlTemporal.Sound.Uint64
import OcamlTemporal.Sound.Watchdog
import OcamlTemporal.Sound.WorkerShutdown
