import BindingDocs.Main
import BindingDocs.Proofs.Scan.EnumGroups
import BindingDocs.Proofs.Scan.Capture
import BindingDocs.Proofs.Scan.CommentBlocks
import BindingDocs.Proofs.Scan.ClassBody
import BindingDocs.Proofs.Scan.Declarations
import BindingDocs.Proofs.Scan.TableStubs
import BindingDocs.Proofs.Scan.StaticTables
import BindingDocs.Proofs.Scan.ClassOpening
import BindingDocs.Proofs.Scan.CommentClose
import BindingDocs.Proofs.Scan.Concatenation
import BindingDocs.Proofs.Scan.CommentContent
import BindingDocs.Proofs.Scan.Refusal
import BindingDocs.Proofs.Workspace.Location
import BindingDocs.Proofs.Glob.Escape
import BindingDocs.Proofs.Run.ClassPages
import BindingDocs.Proofs.Page.Repetition
import BindingDocs.Proofs.Markup.References
import BindingDocs.Proofs.Markup.Nesting
import BindingDocs.Proofs.Markup.Chunk
import BindingDocs.Proofs.Page.HeapRefinement
import BindingDocs.Proofs.Page.Forest
import BindingDocs.Proofs.Page.Labelled
import BindingDocs.Proofs.Page.Consistency
import BindingDocs.Proofs.Page.DocumentOrder
import BindingDocs.Proofs.Page.MarkerTraces
import BindingDocs.Proofs.Page.InheritedTables
import BindingDocs.Proofs.Page.MarkerRemoval
import BindingDocs.Proofs.Page.DisclosureLinks
import BindingDocs.Proofs.Page.Insertion
import BindingDocs.Proofs.Page.Copies
import BindingDocs.Proofs.Page.MarkerDocumentation
import BindingDocs.Proofs.Page.MarkerListing
import BindingDocs.Proofs.Page.TypeCells
import BindingDocs.Proofs.Page.Substitution
import BindingDocs.Proofs.Page.InheritedLabels
import BindingDocs.Proofs.Page.SettledLabels
import BindingDocs.Proofs.Page.NodeChanges
import BindingDocs.Proofs.Page.SummaryRow
import BindingDocs.Proofs.Page.Reduction
import BindingDocs.Proofs.Page.SignatureTables
import BindingDocs.Proofs.Page.SettledSignatures
import BindingDocs.Proofs.Page.QualifiedNames
import BindingDocs.Proofs.Page.ReturnTypes
import BindingDocs.Proofs.Workspace.Writing
import BindingDocs.Proofs.Run.HeaderNames
import BindingDocs.Proofs.Run.Headers
import BindingDocs.Proofs.Scan.Productive
import BindingDocs.Proofs.Scan.Progress
import BindingDocs.Proofs.EnumTable.Row
import BindingDocs.Proofs.EnumTable.Widened
import BindingDocs.Proofs.EnumTable.Columns
import BindingDocs.Proofs.EnumTable.Tag
import BindingDocs.Proofs.Scan.EnumRows
import BindingDocs.Proofs.Scan.MacroLines
import BindingDocs.Proofs.Scan.FreeText
import BindingDocs.Proofs.Scan.LeadingText
import BindingDocs.Proofs.Scan.CommentOpen
import BindingDocs.Proofs.Text.Word
import BindingDocs.Proofs.Text.Trim
import BindingDocs.Proofs.Signature.Printing
import BindingDocs.Proofs.Signature.Citation
import BindingDocs.Proofs.Signature.Spacing
