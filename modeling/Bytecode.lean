import Bytecode.ClassFile.Access
import Bytecode.ClassFile.Assembly
import Bytecode.ClassFile.Basic
import Bytecode.ClassFile.Constant
import Bytecode.ClassFile.Decode
import Bytecode.ClassFile.Descriptor
import Bytecode.ClassFile.Encode
import Bytecode.ClassFile.FormatError
import Bytecode.ClassFile.Pool
import Bytecode.ClassFile.Symbols
import Bytecode.Classpath
import Bytecode.Code.Instruction
import Bytecode.Code.Opcode
import Bytecode.CommandLine
import Bytecode.CommandLine.Options
import Bytecode.Listing
import Bytecode.Machine.ClassTable
import Bytecode.Machine.Effect
import Bytecode.Machine.Event
import Bytecode.Machine.Frame
import Bytecode.Machine.Heap
import Bytecode.Machine.Native
import Bytecode.Machine.Run
import Bytecode.Machine.RunError
import Bytecode.Machine.Value
import Bytecode.Main
import Bytecode.Octets.BigEndian
import Bytecode.Octets.Cursor
import Bytecode.Octets.Reader
import Bytecode.Octets.Reading
import Bytecode.Proofs.ClassFile.Arguments
import Bytecode.Proofs.ClassFile.Bodies
import Bytecode.Proofs.ClassFile.Interning
import Bytecode.Proofs.ClassFile.Legible
import Bytecode.Proofs.ClassFile.Linking
import Bytecode.Proofs.ClassFile.Listable
import Bytecode.Proofs.ClassFile.Lookup
import Bytecode.Proofs.ClassFile.PoolSize
import Bytecode.Proofs.ClassFile.Range
import Bytecode.Proofs.ClassFile.Resolution
import Bytecode.Proofs.ClassFile.RoundTrip
import Bytecode.Proofs.ClassFile.Truncation
import Bytecode.Proofs.Classpath
import Bytecode.Proofs.Code.Decoding
import Bytecode.Proofs.Code.Disassembly
import Bytecode.Proofs.Code.Encoding
import Bytecode.Proofs.Code.Linear
import Bytecode.Proofs.Machine.Agreement
import Bytecode.Proofs.Machine.Alignment
import Bytecode.Proofs.Machine.Allocation
import Bytecode.Proofs.Machine.Blame
import Bytecode.Proofs.Machine.Contract
import Bytecode.Proofs.Machine.Counting
import Bytecode.Proofs.Machine.EmptyText
import Bytecode.Proofs.Machine.Fetches
import Bytecode.Proofs.Machine.Fibonacci
import Bytecode.Proofs.Machine.Flow
import Bytecode.Proofs.Machine.Forward
import Bytecode.Proofs.Machine.Forwarding
import Bytecode.Proofs.Machine.Fuel
import Bytecode.Proofs.Machine.Growth
import Bytecode.Proofs.Machine.Heap
import Bytecode.Proofs.Machine.HeapHistory
import Bytecode.Proofs.Machine.Heights
import Bytecode.Proofs.Machine.Indifference
import Bytecode.Proofs.Machine.Isolation
import Bytecode.Proofs.Machine.Loading
import Bytecode.Proofs.Machine.Logs
import Bytecode.Proofs.Machine.Lookup
import Bytecode.Proofs.Machine.Moves
import Bytecode.Proofs.Machine.Paths
import Bytecode.Proofs.Machine.Points
import Bytecode.Proofs.Machine.Policies
import Bytecode.Proofs.Machine.Postfix
import Bytecode.Proofs.Machine.Printing
import Bytecode.Proofs.Machine.Range
import Bytecode.Proofs.Machine.References
import Bytecode.Proofs.Machine.Relocation
import Bytecode.Proofs.Machine.Store
import Bytecode.Proofs.Machine.Tables
import Bytecode.Proofs.Machine.Unset
import Bytecode.Proofs.Machine.Values
import Bytecode.Proofs.Machine.Worlds
import Bytecode.Proofs.Octets.Confined
import Bytecode.Proofs.Octets.Delimited
import Bytecode.Proofs.Octets.Grammar
import Bytecode.Proofs.Octets.Range
import Bytecode.Proofs.Outcome
import Bytecode.Proofs.Sessions
import Bytecode.Proofs.Text.ModifiedUtf8
import Bytecode.Proofs.Text.Range
import Bytecode.Proofs.Text.Rejection
import Bytecode.Text.Column
import Bytecode.Text.Hidden
import Bytecode.Text.ModifiedUtf8
import Bytecode.Text.Quoted
import Bytecode.Text.Style
