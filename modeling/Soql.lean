import Soql.Main
import Soql.Proofs.FirstMeeting
import Soql.Proofs.QueryShape
import Soql.Session
import Soql.Proofs.Accounts
import Soql.Proofs.CyclePath
import Soql.Proofs.Recompile
import Soql.Proofs.RuleTable
import Soql.Proofs.Verdicts
import Soql.Proofs.DeclarationOrder
import Soql.Proofs.KeyIsolation
import Soql.Proofs.PlanText
import Soql.Proofs.EmptySelection
import Soql.Proofs.Entries
import Soql.Proofs.ExitStatus
import Soql.Proofs.MemoGrowth
import Soql.Proofs.Guard
import Soql.Proofs.CallDepth
import Soql.Proofs.Rebuild
import Soql.Proofs.UniqueReading
import Soql.Proofs.Lookups
import Soql.Proofs.LostMembers
import Soql.Proofs.Metadata
import Soql.Proofs.ManifestFormat
import Soql.Proofs.ReportText
import Soql.Proofs.Insertions
