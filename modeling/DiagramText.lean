import DiagramText.Main
import DiagramText.Proofs.Classes.Membership
import DiagramText.Proofs.Classes.Mirror
import DiagramText.Proofs.Classes.Reformatting
import DiagramText.Proofs.Completeness
import DiagramText.Proofs.Containment
import DiagramText.Proofs.Editor.Adoption
import DiagramText.Proofs.Editor.Connecting
import DiagramText.Proofs.Editor.Patching
import DiagramText.Proofs.Editor.Replica
import DiagramText.Proofs.Entities.Inline
import DiagramText.Proofs.Exchange
import DiagramText.Proofs.Flattening
import DiagramText.Proofs.Flowchart.Bracketing
import DiagramText.Proofs.Flowchart.Hops
import DiagramText.Proofs.Flowchart.Naming
import DiagramText.Proofs.Flowchart.Separation
import DiagramText.Proofs.Flowchart.Styling
import DiagramText.Proofs.Relabelling
import DiagramText.Proofs.Sequence.Ordering
import DiagramText.Proofs.Source.Body
import DiagramText.Proofs.Source.Respacing
import DiagramText.Proofs.States.Formatting
import DiagramText.Proofs.Validation.Mending
import DiagramText.Proofs.Validation.Nesting
import DiagramText.Proofs.Validation.Quotation
import DiagramText.Proofs.Validity
