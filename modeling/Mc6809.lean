import Mc6809.Assembly.Part
import Mc6809.Main
import Mc6809.Token.Cursor
import Mc6809.Proofs.Passes
import Mc6809.Proofs.Decoding
import Mc6809.Proofs.Session
import Mc6809.Proofs.Widths
import Mc6809.Proofs.Layout
import Mc6809.Proofs.LineByLine
import Mc6809.Proofs.UndefinedSymbols
import Mc6809.Proofs.Refusal
import Mc6809.Proofs.Relocation
import Mc6809.Proofs.WriteOnce
import Mc6809.Proofs.Translation.Basic
import Mc6809.Proofs.Translation.Reading
import Mc6809.Proofs.Translation.Run
import Mc6809.Proofs.Renaming
import Mc6809.Proofs.Lexing.Lexemes
import Mc6809.Proofs.Places
import Mc6809.Proofs.Spacing
import Mc6809.Proofs.MoreSymbols
import Mc6809.Proofs.Continuation
import Mc6809.Proofs.LetterCase
import Mc6809.Proofs.Printing
import Mc6809.Proofs.Lowering
import Mc6809.Proofs.Predefined
import Mc6809.Proofs.Lexing.Moved
import Mc6809.Proofs.Prepending
import Mc6809.Proofs.Distances
import Mc6809.Proofs.Ending
import Mc6809.Proofs.Histories
import Mc6809.Proofs.SignedSums
import Mc6809.Proofs.OperandShapes
import Mc6809.Proofs.Sizes
import Mc6809.Proofs.OwnWidths
import Mc6809.Proofs.Lexing.Marks
import Mc6809.Proofs.FailingLine
import Mc6809.Proofs.Quoting
import Mc6809.Proofs.DataItems
import Mc6809.Proofs.Numerals
import Mc6809.Proofs.SymbolFile
import Mc6809.Proofs.ListingText
import Mc6809.Proofs.Command
