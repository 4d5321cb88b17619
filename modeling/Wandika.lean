import Wandika.Generator
import Wandika.Main
import Wandika.Proofs.Machine.Extent
import Wandika.Proofs.Machine.LocalVariables
import Wandika.Proofs.Scope.Lexical
import Wandika.Proofs.Session.Joined
import Wandika.Proofs.Token.Partition
import Wandika.Proofs.Machine.Endings
import Wandika.Proofs.Machine.Registers
import Wandika.Proofs.Machine.CallDepth
import Wandika.Proofs.Session.TopLevel
import Wandika.Proofs.Session.Rejection
import Wandika.Proofs.Parser.Numbering
import Wandika.Proofs.Machine.OverloadSets
import Wandika.Proofs.Machine.Joining
import Wandika.Proofs.Tree.Printing
import Wandika.Proofs.Machine.Chains
import Wandika.Proofs.Machine.Soundness
import Wandika.Proofs.Machine.Writes
import Wandika.Proofs.Session.Echo
import Wandika.Proofs.Token.Positions
import Wandika.Proofs.Machine.Dispatch
import Wandika.Proofs.Parser.Bounds
import Wandika.Proofs.Parser.Lookahead
import Wandika.Proofs.Tree.Viable
import Wandika.Proofs.Parser.Blame
import Wandika.Proofs.Parser.Localisation
import Wandika.Proofs.Token.Layout
import Wandika.Proofs.Scope.Appended
import Wandika.Proofs.Machine.Variables
import Wandika.Proofs.Scope.Stack
import Wandika.Proofs.Command.Status
