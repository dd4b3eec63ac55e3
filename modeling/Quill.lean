import Quill.Main
import Quill.Proofs.Grammar
import Quill.Proofs.Reading
import Quill.Proofs.Derivable
import Quill.Proofs.Spelling
import Quill.Proofs.ViablePrefix
import Quill.Proofs.Printing
import Quill.Proofs.Lossless
import Quill.Proofs.Frame
import Quill.Proofs.Session
import Quill.Proofs.Plan
import Quill.Proofs.Changes
import Quill.Proofs.CallLimit
import Quill.Proofs.EmptyScope
import Quill.Proofs.WellFormed
import Quill.Proofs.Code
import Quill.Proofs.Shadowing
import Quill.Proofs.Halting
import Quill.Proofs.Phases
import Quill.Proofs.Renaming
import Quill.Proofs.Names
import Quill.Proofs.Lines
import Quill.Proofs.FirstMatch
import Quill.Proofs.Writing
import Quill.Proofs.LineByLine
import Quill.Proofs.Binding
import Quill.Proofs.Untouched
import Quill.Proofs.ShownText
import Quill.Proofs.Arithmetic
import Quill.Proofs.Acceptance
import Quill.Proofs.Cutting
import Quill.Proofs.LineEnds
import Quill.Proofs.FinalNewline
import Quill.Proofs.OpenBlocks
import Quill.Proofs.BlockEnds
import Quill.Proofs.ScopeStack
import Quill.Proofs.Messages
import Quill.Proofs.Decimals
import Quill.Proofs.RunArguments
import Quill.Proofs.Productions
import Quill.Proofs.Following
import Quill.Proofs.Descent
