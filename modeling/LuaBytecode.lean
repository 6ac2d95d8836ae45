import LuaBytecode.Comparison
import LuaBytecode.Main
import LuaBytecode.Scan.Operation
import LuaBytecode.Proofs.CommandLine.Run
import LuaBytecode.Proofs.Decoder.DepthLimit
import LuaBytecode.Proofs.Decoder.Discarded
import LuaBytecode.Proofs.Grammar.Canonical
import LuaBytecode.Proofs.Configuration
import LuaBytecode.Proofs.Files.Directories
import LuaBytecode.Proofs.Text.Printable
import LuaBytecode.Proofs.Log.Slot
import LuaBytecode.Proofs.CommandLine.Endings
import LuaBytecode.Proofs.Files.Beside
import LuaBytecode.Proofs.CommandLine.Tracing
import LuaBytecode.Proofs.Log.Decoded
import LuaBytecode.Proofs.Prototype.Sets
import LuaBytecode.Proofs.Decoder.Annotation
import LuaBytecode.Proofs.Decoder.RefusedStrings
import LuaBytecode.Proofs.Scan.Header
import LuaBytecode.Proofs.Scan.PassedStrings
import LuaBytecode.Proofs.Scan.Cursor
import LuaBytecode.Proofs.Scan.SubFields
import LuaBytecode.Proofs.Overrides
import LuaBytecode.Proofs.Instruction
import LuaBytecode.Proofs.Scan.Bounds
