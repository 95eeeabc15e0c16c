import Triangle.Compiler.Workspace
import Triangle.Main
import Triangle.Proofs.Compiler.FailFast
import Triangle.Proofs.Encoding.Addressing
import Triangle.Proofs.Encoding.Counting
import Triangle.Proofs.Encoding.Passing
import Triangle.Proofs.Encoding.Reach
import Triangle.Proofs.Encoding.WellFormed
import Triangle.Proofs.Folding.NormalForm
import Triangle.Proofs.Folding.Preservation
import Triangle.Proofs.Folding.Recheck
import Triangle.Proofs.Folding.Refolding
import Triangle.Proofs.Machine.CodeStore
import Triangle.Proofs.Machine.Correctness
import Triangle.Proofs.Machine.ObjectFormat
import Triangle.Proofs.Parsing.Termination
import Triangle.Proofs.Source.Cursors
import Triangle.Proofs.Syntax.Forests
import Triangle.Proofs.Typing.Display
import Triangle.Proofs.Typing.Equivalence
import Triangle.Proofs.Typing.Exactness
import Triangle.Proofs.Typing.LexicalScoping
import Triangle.Proofs.Typing.Records
