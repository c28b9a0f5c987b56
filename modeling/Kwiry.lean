import Kwiry.Preimages
import Kwiry.Splitting
import Kwiry.Ownership
import Kwiry.Runtime.Audit
import Kwiry.Runtime.Reuse
import Kwiry.Runtime.Failure
import Kwiry.Generation.CrashSafety
import Kwiry.Ranking.PropertyAgreement
import Kwiry.Runtime.Semantic
import Kwiry.Plugin.Coalescing
import Kwiry.Plugin.WorkerProtocol
import Kwiry.Plugin.TypoPrototype
import Kwiry.Plugin.Fts5Expressions
import Kwiry.Plugin.FlatWorld
import Kwiry.Plugin.ReconciliationRuns
import Kwiry.Cache.WriterLock
import Kwiry.Cache.CheckpointSafety
import Kwiry.Cache.CacheRoot
import Kwiry.Ranking.TopHits
import Kwiry.Query.Controls
import Kwiry.Ranking.EarlyStop
import Kwiry.Pdf.WidthTables
import Kwiry.Pdf.SplitAcceptance
import Kwiry.Pdf.SplitOperands
import Kwiry.Pdf.LayoutTables
import Kwiry.Pdf.Charsets
import Kwiry.Runtime.Rotation
import Kwiry.Ranking.Fusion
import Kwiry.Runtime.Histories
import Kwiry.Docx.PartNames
import Kwiry.Docx.Policy
import Kwiry.Docx.StoryRoles
import Kwiry.Excel.Conservation
import Kwiry.Service.Readers
import Kwiry.Service.Setup
import Kwiry.Plugin.ExactIdentifiers
import Kwiry.Plugin.Excerpts
import Kwiry.Plugin.SearchSession
import Kwiry.Plugin.BackendSwitching
import Kwiry.Plugin.LexicalRuns
import Kwiry.Plugin.CheckpointRuns
import Kwiry.Plugin.HighlightTruth
