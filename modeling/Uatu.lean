import Uatu.Cli.Output
import Uatu.Cli.Session
import Uatu.Cli.Main
import Uatu.Foundations.Words
import Uatu.Cli.CommandLine
import Uatu.Cli.Readability
import Uatu.Cli.Parameters
import Uatu.Foundations.Separation
import Uatu.Foundations.Outline
import Uatu.Cli.Formatter
import Uatu.Foundations.Rounding
import Uatu.Foundations.Lazy
import Uatu.Engine.Caches
import Uatu.Foundations.Hexadecimal
import Uatu.Elf.Bytes
import Uatu.Elf.Maps
import Uatu.Foundations.LittleEndian
import Uatu.Foundations.Structs
import Uatu.Foundations.Lockstep
import Uatu.Engine.Restore
import Uatu.Engine.Signals
import Uatu.Engine.StackFaults
import Uatu.Engine.TraceFaults
import Uatu.Engine.Transparency
import Uatu.Engine.Invocations
import Uatu.Engine.LostRecords
import Uatu.Engine.ProbePoints
import Uatu.Engine.Slide
import Uatu.Engine.Files
import Uatu.Ebpf.Watch
import Uatu.Ebpf.Trace
import Uatu.Ebpf.Records
import Uatu.Ebpf.Durations
import Uatu.Ebpf.Depths
import Uatu.Ebpf.Crowds
import Uatu.Dwarf.Lookup
import Uatu.Cli.Repl
import Uatu.Engine.Isolation
import Uatu.Engine.WatchChecked
import Uatu.Engine.Releases
import Uatu.Engine.Escapes
import Uatu.Engine.SampleOrder
import Uatu.Engine.Truncation
import Uatu.Engine.Events
import Uatu.Engine.Leftovers
import Uatu.Engine.Samples
import Uatu.Engine.EventBound
import Uatu.Engine.CallConv
import Uatu.Engine.FallbackTargets
import Uatu.Engine.Firings
import Uatu.Engine.Together
import Uatu.Engine.StopRequests
import Uatu.Dwarf.Die
import Uatu.Engine.Symbols
import Uatu.Engine.FrameChain
import Uatu.Dwarf.Names
import Uatu.Dwarf.Forest
import Uatu.Engine.Rendering
import Uatu.Engine.Integers
import Uatu.Engine.TypeKinds
import Uatu.Dwarf.Parameters
import Uatu.Foundations.Registers
import Uatu.Engine.Arguments
import Uatu.Engine.Abi
import Uatu.Engine.ReturnValues
import Uatu.Foundations.PrefixCode
import Uatu.Engine.CharPointers
import Uatu.Engine.Walks
import Uatu.Engine.Unescape
import Uatu.Foundations.Readers
import Uatu.Protocol.JsonCodec
import Uatu.Protocol.FlatJson
import Uatu.Protocol.Encoding
