import DeclOrder.Config.Schema
import DeclOrder.Main
import DeclOrder.Proofs.Layout.Meaning
import DeclOrder.Proofs.Layout.WhiteSpace
import DeclOrder.Proofs.Layout.Counterpart
import DeclOrder.Proofs.Layout.Columns
import DeclOrder.Proofs.Layout.Locality
import DeclOrder.Proofs.Scanned.Document
import DeclOrder.Proofs.Limit
import DeclOrder.Proofs.ByteOrder
import DeclOrder.Proofs.Ignoring
import DeclOrder.Proofs.Recommendation
import DeclOrder.Proofs.OutputOrder
import DeclOrder.Proofs.History
import DeclOrder.Proofs.Registration
import DeclOrder.Proofs.Union
import DeclOrder.Proofs.Independence
import DeclOrder.Proofs.Path.Below
import DeclOrder.Proofs.Path.Meaning
import DeclOrder.Proofs.Source.Position
import DeclOrder.Proofs.Disk.Following
import DeclOrder.Proofs.Loading.Files
import DeclOrder.Proofs.Loading.Fidelity
import DeclOrder.Proofs.Rejoining
import DeclOrder.Proofs.Report.RoundTrip
import DeclOrder.Proofs.Config.Resolution
import DeclOrder.Proofs.View.Annotation
import DeclOrder.Proofs.View.Fence
import DeclOrder.Proofs.Fingerprint
import DeclOrder.Proofs.Command.Checking
import DeclOrder.Proofs.Layout.Bytes
import DeclOrder.Proofs.MissingLocation
import DeclOrder.Proofs.Layout.Width
