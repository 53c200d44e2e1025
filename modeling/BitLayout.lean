import BitLayout.CommandLine.Directory
import BitLayout.CommandLine.Program
import BitLayout.Instruction.Strict
import BitLayout.InstructionSet
import BitLayout.Json.Reader
import BitLayout.Json.Writer
import BitLayout.Log.Filter
import BitLayout.Log.Loading
import BitLayout.Main
import BitLayout.Proofs.Acceptance
import BitLayout.Proofs.Assembly
import BitLayout.Proofs.Bits
import BitLayout.Proofs.Instruction
import BitLayout.Proofs.InstructionSet
import BitLayout.Proofs.Json.Numeral
import BitLayout.Proofs.Json.Quoted
import BitLayout.Proofs.Json.RoundTrip
import BitLayout.Proofs.Offsets
import BitLayout.Proofs.Parameter
import BitLayout.Proofs.PieceText
import BitLayout.Proofs.Record
import BitLayout.Proofs.Reload
import BitLayout.Proofs.Tiling
import BitLayout.Proofs.Token
import BitLayout.WordText
import BitLayout.Proofs.Strict
import BitLayout.Proofs.Loading
import BitLayout.Proofs.StrictLoading
import BitLayout.Proofs.Edits
import BitLayout.Proofs.Wiring
import BitLayout.Proofs.Encodable
import BitLayout.Proofs.Influence
import BitLayout.Proofs.Checked
import BitLayout.Proofs.Session
import BitLayout.Proofs.Decoding
import BitLayout.Proofs.Json.Grammar
import BitLayout.Proofs.DecodedDocument
import BitLayout.Proofs.Presentation
import BitLayout.Proofs.Printing
import BitLayout.Proofs.Digits
import BitLayout.Proofs.TokenFault
import BitLayout.Proofs.WordText
import BitLayout.Proofs.WordWriting
import BitLayout.Proofs.Pushing
import BitLayout.Proofs.Reordering
import BitLayout.Proofs.Joining
import BitLayout.Proofs.Splitting
import BitLayout.Proofs.RecordOrder
import BitLayout.Proofs.Json.Nesting
import BitLayout.Proofs.SingleRecord
import BitLayout.Proofs.Slice
import BitLayout.Proofs.Display
import BitLayout.Proofs.Separators
