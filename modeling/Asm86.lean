import Asm86.Command.Folder
import Asm86.Main
import Asm86.Proofs.Assembly.Geometry
import Asm86.Proofs.Assembly.References
import Asm86.Proofs.Assembly.Relocation
import Asm86.Proofs.Assembly.Session
import Asm86.Proofs.Encoding.RoundTrip
import Asm86.Proofs.Assembly.Independence
import Asm86.Proofs.Text.Decimal
import Asm86.Proofs.Source.Spelling
import Asm86.Proofs.Source.Sums
import Asm86.Proofs.Source.Operands
import Asm86.Proofs.Source.RoundTrip
import Asm86.Proofs.Assembly.SplitPasses
import Asm86.Proofs.Assembly.Verified
import Asm86.Proofs.Assembly.Instructions
import Asm86.Proofs.Assembly.Addressing
import Asm86.Proofs.Assembly.Placeholders
import Asm86.Proofs.Source.Leads
import Asm86.Proofs.Assembly.Leads
import Asm86.Proofs.Assembly.Data
import Asm86.Proofs.Source.Pieces
import Asm86.Proofs.Source.Signs
import Asm86.Proofs.Source.Brackets
import Asm86.Proofs.Source.QuotedCharacter
import Asm86.Proofs.Assembly.DataLines
import Asm86.Proofs.Source.QuotedOperands
import Asm86.Proofs.Assembly.FullSink
import Asm86.Proofs.Assembly.Rows
import Asm86.Proofs.Assembly.Listing
import Asm86.Proofs.Source.Expansion
import Asm86.Proofs.Assembly.Expansion
import Asm86.Proofs.Source.SpacedLines
import Asm86.Proofs.Source.Definitions
import Asm86.Proofs.Encoding.Verdict
import Asm86.Proofs.Text.Numerals
import Asm86.Proofs.Command.Files
import Asm86.Proofs.Command.Temporary
