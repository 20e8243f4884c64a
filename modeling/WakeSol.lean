import WakeSol.Lib.Text
import WakeSol.Lib.Radix
import WakeSol.Lib.Rose
import WakeSol.Lib.Endian
import WakeSol.Lib.Wire
import WakeSol.Lib.Dict
import WakeSol.Address
import WakeSol.Codec.Value
import WakeSol.Codec.Node
import WakeSol.Codec.Wire
import WakeSol.Trace.Tree
import WakeSol.Trace.AttachLogs
import WakeSol.Trace.Loop
import WakeSol.Trace.Lines
import WakeSol.Trace.Frames
import WakeSol.Trace.Attribution
import WakeSol.Trace.Divergence
import WakeSol.Trace.Insertion
import WakeSol.Trace.Forgery
import WakeSol.Trace.Sites
import WakeSol.Trace.Resolve
import WakeSol.Codec.Read
import WakeSol.Codec.Write
import WakeSol.Codec.Accept
import WakeSol.Codec.Compile
import WakeSol.Codec.Cache
import WakeSol.Codec.Complete
import WakeSol.Codec.Struct
import WakeSol.Gen.Emit
import WakeSol.Gen.Load
import WakeSol.Gen.Canonical
import WakeSol.Gen.RoundTrip
import WakeSol.Interface.Dispatch
import WakeSol.Interface.Build
import WakeSol.Codec.Layout
import WakeSol.Gen.Layout
import WakeSol.Gen.Faithful
import WakeSol.Gen.Call
import WakeSol.Gen.Body
import WakeSol.Gen.Hygiene
import WakeSol.Errors.Registry
import WakeSol.Trace.Events
import WakeSol.Trace.Failing
import WakeSol.Errors.Raise
import WakeSol.Interface.Returns
import WakeSol.Lib.Cache
import WakeSol.Forking.Store
import WakeSol.Forking.Hydrate
import WakeSol.Forking.Stages
import WakeSol.Forking.Run
import WakeSol.Forking.Local
import WakeSol.Forking.Chain
import WakeSol.Forking.Enable
import WakeSol.Forking.Exclusion
import WakeSol.Forking.Resolved
import WakeSol.Forking.Balance
import WakeSol.Forking.Replay
import WakeSol.Coverage.Elf
import WakeSol.Coverage.Resolve
import WakeSol.Coverage.Lines
import WakeSol.Coverage.RowCache
import WakeSol.Coverage.Builds
import WakeSol.Coverage.Lcov
import WakeSol.Coverage.Workers
import WakeSol.Forking.Listed
import WakeSol.Harness.Isolation
import WakeSol.Forking.Complete
import WakeSol.Forking.Waves
import WakeSol.Lib.Interleave
import WakeSol.Parallel.Server
import WakeSol.Parallel.Lossless
import WakeSol.Parallel.Attach
import WakeSol.Parallel.Handshake
import WakeSol.Lib.Decimal
import WakeSol.Units
import WakeSol.Lib.Fallible
import WakeSol.Harness.Signing
import WakeSol.Harness.Duplicates
import WakeSol.Lib.Packed
import WakeSol.Precompile.Assemble
import WakeSol.Precompile.Runtime
import WakeSol.Precompile.RoundTrip
import WakeSol.Lib.Binary
import WakeSol.Codec.Emission
import WakeSol.Codec.Agree
import WakeSol.Codec.Machine
import WakeSol.Codec.Safety
import WakeSol.Interface.Events
import WakeSol.Gen.Events
import WakeSol.Lib.Heap
import WakeSol.Coverage.InPlace
import WakeSol.Coverage.Merging
import WakeSol.Coverage.Live
import WakeSol.Gen.Reflect
import WakeSol.Gen.Align
import WakeSol.Gen.Attributes
import WakeSol.Gen.Names
import WakeSol.Codec.Floor
import WakeSol.Forking.Fetch
import WakeSol.Lib.Utf8
import WakeSol.Lib.Lines
import WakeSol.Errors.Rendered
import WakeSol.Coverage.Counts
import WakeSol.Coverage.Roots
import WakeSol.Coverage.Sidecar
import WakeSol.Coverage.LcovText
import WakeSol.Coverage.LcovMerge
import WakeSol.Lib.Effects
import WakeSol.Fuzz.Stats
import WakeSol.Fuzz.Engine
import WakeSol.Fuzz.Steps
import WakeSol.Fuzz.Schedule
import WakeSol.Fuzz.Runs
import WakeSol.Fuzz.Culprit
import WakeSol.Gen.Modules
import WakeSol.Gen.Package
import WakeSol.Errors.Shown
import WakeSol.Precompile.Pack
import WakeSol.Programs.Builtin
