import TapeNet.Numeral
import TapeNet.Stop
import TapeNet.Extension
import TapeNet.Opcode
import TapeNet.Code
import TapeNet.Tape
import TapeNet.Source
import TapeNet.Sink
import TapeNet.Report
import TapeNet.Outline
import TapeNet.Report.Table
import TapeNet.Options
import TapeNet.Report.Json
import TapeNet.Network
import TapeNet.Machine.Outline
import TapeNet.Loopback.Transport
import TapeNet.Loopback.Guest
import TapeNet.CommandLine.Invocation
import TapeNet.Main
import TapeNet.Proofs.Machine.Run
import TapeNet.Proofs.Machine.Guarded
import TapeNet.Proofs.Tape.Repetition
import TapeNet.Proofs.Tape.Cell
import TapeNet.Proofs.Code.Pop
import TapeNet.Proofs.Code.Guarded
import TapeNet.Proofs.Tape.Guarded
import TapeNet.Proofs.Code.Balance
import TapeNet.Proofs.Code.Jump
import TapeNet.Proofs.Machine.Folding
import TapeNet.Proofs.Block.Nesting
import TapeNet.Proofs.Block.Scan
import TapeNet.Proofs.Block.Evaluation
import TapeNet.Proofs.Block.Realization
import TapeNet.Proofs.Block.Interpretation
import TapeNet.Proofs.Network.Parallel
import TapeNet.Proofs.Network.Recording
import TapeNet.Proofs.Network.Telling
import TapeNet.Proofs.Network.Moves
import TapeNet.Proofs.Network.Calls
import TapeNet.Proofs.Network.Sending
import TapeNet.Proofs.Network.Agreement
import TapeNet.Proofs.Machine.Life
import TapeNet.Proofs.Machine.Budget
import TapeNet.Proofs.Machine.Output
import TapeNet.Proofs.Block.Lasting
import TapeNet.Proofs.CommandLine.Limit
import TapeNet.Proofs.Network.Chronicle
import TapeNet.Proofs.Network.Medium
import TapeNet.Proofs.Network.Delivery
import TapeNet.Proofs.Machine.Isolation
import TapeNet.Proofs.Network.Closing
import TapeNet.Proofs.Network.Attempts
import TapeNet.Proofs.Network.Streams
import TapeNet.Proofs.Threads.Section
import TapeNet.Proofs.Threads.System
import TapeNet.Proofs.Threads.Custody
import TapeNet.Proofs.Threads.Publication
import TapeNet.Proofs.Threads.Release
import TapeNet.Proofs.Code.Pairing
import TapeNet.Proofs.Machine.Brackets
import TapeNet.Proofs.Machine.Actions
import TapeNet.Proofs.Machine.Account
import TapeNet.Proofs.Code.Written
import TapeNet.Proofs.Machine.Program
import TapeNet.Proofs.Machine.Renewal
import TapeNet.Proofs.Block.Composition
import TapeNet.Proofs.Machine.Effect
import TapeNet.Proofs.Machine.Progress
import TapeNet.Proofs.Machine.Locality
import TapeNet.Proofs.Machine.Resumption
import TapeNet.Proofs.Machine.Flushing
import TapeNet.Proofs.Machine.Loading
import TapeNet.Proofs.Tape.Bulk
import TapeNet.Proofs.Json.Document
import TapeNet.Proofs.Tape.Snapshot
import TapeNet.Proofs.Json.Reading
import TapeNet.Proofs.Json.Writing
import TapeNet.Proofs.Report.Defects
import TapeNet.Proofs.Report.RoundTrip
import TapeNet.Proofs.Report.Table
import TapeNet.Proofs.Report.Dealing
import TapeNet.Proofs.Network.Chunks
