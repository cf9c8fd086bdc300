import FontScaffold.Proofs.Chunk.Measure
import FontScaffold.Proofs.File.Exact
import FontScaffold.Proofs.Font.Announced
import FontScaffold.Proofs.Font.Source
import FontScaffold.Proofs.Index.Identity
import FontScaffold.Proofs.Layout.Alias
import FontScaffold.Proofs.Layout.Specifier
import FontScaffold.Proofs.Merge.Accounting
import FontScaffold.Proofs.Merge.FirstFit
import FontScaffold.Proofs.Merge.Itself
import FontScaffold.Proofs.Merge.LineEnds
import FontScaffold.Proofs.Merge.Order
import FontScaffold.Proofs.Merge.Repeated
import FontScaffold.Proofs.Merge.Survival
import FontScaffold.Proofs.Merge.Undone
import FontScaffold.Proofs.Project.LayoutOnce
import FontScaffold.Proofs.Project.Remembering
import FontScaffold.Proofs.Project.Unlisted
