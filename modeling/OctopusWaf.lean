import OctopusWaf.Detectors
import OctopusWaf.BlockedRequests
import OctopusWaf.Segmentation
import OctopusWaf.Coverage
import OctopusWaf.StreamIntegrity
import OctopusWaf.InspectionReads
import OctopusWaf.TableSubscripts
import OctopusWaf.SearchReads
import OctopusWaf.VerbatimRules
import OctopusWaf.AutomatonTable
import OctopusWaf.MemOps
import OctopusWaf.AttackLog
import OctopusWaf.StartUp
import OctopusWaf.SqliQuoting
import OctopusWaf.SqliDetector
import OctopusWaf.SqliNumberComment
import OctopusWaf.SqliShiftFold
