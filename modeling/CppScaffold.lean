import CppScaffold.Cursor.Library
import CppScaffold.Proofs.AccessRanges
import CppScaffold.Proofs.Addresses
import CppScaffold.Proofs.BareNames
import CppScaffold.Proofs.CanonicalSpacing
import CppScaffold.Proofs.ComparisonOrders
import CppScaffold.Proofs.Counterparts
import CppScaffold.Proofs.CursorRuns
import CppScaffold.Proofs.DefaultRemoval
import CppScaffold.Proofs.Deletion
import CppScaffold.Proofs.DigitSeparators
import CppScaffold.Proofs.DirectoryDistance
import CppScaffold.Proofs.HeadEdits
import CppScaffold.Proofs.HeaderGuards
import CppScaffold.Proofs.InitializerLists
import CppScaffold.Proofs.LineBreaks
import CppScaffold.Proofs.MovedBodies
import CppScaffold.Proofs.ParameterGroups
import CppScaffold.Proofs.PartnerRuns
import CppScaffold.Proofs.ProjectChanges
import CppScaffold.Proofs.ProjectFiles
import CppScaffold.Proofs.ReportedOrder
import CppScaffold.Proofs.SiblingOrder
import CppScaffold.Proofs.TemplateStatements
import CppScaffold.Proofs.TrailingUpdates
import CppScaffold.Proofs.LineDecomposition
import CppScaffold.Proofs.DamagedCache
import CppScaffold.Proofs.Partners
