import Regexp.Regex.Settings
import Regexp.Suite
import Regexp.Unicode.Printable
import Regexp.Proofs.CaseBlind
import Regexp.Proofs.CaseClosure
import Regexp.Proofs.Commitment
import Regexp.Proofs.Cursor.Total
import Regexp.Proofs.Custody
import Regexp.Proofs.EscapedText
import Regexp.Proofs.FirstRegion
import Regexp.Proofs.Genuine
import Regexp.Proofs.Halting
import Regexp.Proofs.Height
import Regexp.Proofs.Hiding
import Regexp.Proofs.Likeness
import Regexp.Proofs.Loading
import Regexp.Proofs.Lookbehind
import Regexp.Proofs.Membership
import Regexp.Proofs.ModifierText
import Regexp.Proofs.Necessity
import Regexp.Proofs.NormalForm
import Regexp.Proofs.OptionGroup
import Regexp.Proofs.PlainSearch
import Regexp.Proofs.Restoration
import Regexp.Proofs.SchemaSearch
import Regexp.Proofs.SchemaText
import Regexp.Proofs.Shape
import Regexp.Proofs.Shortcuts
import Regexp.Proofs.Traversal
import Regexp.Proofs.Unrolling
import Regexp.Proofs.Window
import Regexp.Proofs.WordEdge
