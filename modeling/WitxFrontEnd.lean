import WitxFrontEnd.Cursor.Script
import WitxFrontEnd.Main
import WitxFrontEnd.Node
import WitxFrontEnd.Proofs.Attribution
import WitxFrontEnd.Proofs.Concatenation
import WitxFrontEnd.Proofs.Exactness
import WitxFrontEnd.Proofs.LayoutIndependence
import WitxFrontEnd.Proofs.Lossless
import WitxFrontEnd.Proofs.Reading
import WitxFrontEnd.Proofs.View.Uncommented
import WitxFrontEnd.Proofs.ViablePrefix
import WitxFrontEnd.Proofs.Decoding
import WitxFrontEnd.Proofs.Reclosing
import WitxFrontEnd.Proofs.Conversion
import WitxFrontEnd.Proofs.Place
import WitxFrontEnd.Proofs.RoundTrip
import WitxFrontEnd.Proofs.Script
import WitxFrontEnd.Proofs.Script.Pruning
import WitxFrontEnd.Proofs.Script.Accounting
import WitxFrontEnd.Proofs.Documented
import WitxFrontEnd.Proofs.Comparison
import WitxFrontEnd.Proofs.Interleaving
import WitxFrontEnd.Proofs.Modes
import WitxFrontEnd.Proofs.Caret
import WitxFrontEnd.Proofs.QuotedNames
import WitxFrontEnd.Proofs.Faithful
import WitxFrontEnd.Proofs.Aliases
import WitxFrontEnd.Proofs.TokenListing
import WitxFrontEnd.Proofs.WellFormed
import WitxFrontEnd.Proofs.Alignment
import WitxFrontEnd.Proofs.Loop
