import Rpstir.Casn.ObjId
import Rpstir.Casn.SizePass
import Rpstir.Chaser.Bounds
import Rpstir.Chaser.Reduction
import Rpstir.Chaser.Sections
import Rpstir.Daemon.CxnWakeup
import Rpstir.Daemon.DbWakeup
import Rpstir.Daemon.ErrorReports
import Rpstir.Daemon.Notify
import Rpstir.Daemon.Outgoing
import Rpstir.Daemon.RequestOwnership
import Rpstir.Garbage.Capacity
import Rpstir.Garbage.StaleManifest
import Rpstir.Lta.ASNumbers
import Rpstir.Lta.Conflict
import Rpstir.Lta.Expand
import Rpstir.Lta.IPAddrOrRange
import Rpstir.Lta.Proofreader
import Rpstir.Lta.SkiBlock
import Rpstir.Lta.TrustAnchors
import Rpstir.Query.Validity
import Rpstir.Query.Where
import Rpstir.Rcli.Lines
import Rpstir.Rcli.Paths
import Rpstir.Rcli.SaveRestore
import Rpstir.Roa.Containment
import Rpstir.Roa.FileHash
import Rpstir.Roa.FileNames
import Rpstir.Rtr.LatestSerial
import Rpstir.Rtr.PageSize
import Rpstir.Rtr.Progress
import Rpstir.Sqhl.ManifestFrame
import Rpstir.Sqhl.ObjectTypes
import Rpstir.Sqhl.ParentSearch
import Rpstir.Sqhl.PrefixBatches
import Rpstir.Sqhl.PropagationCoverage
import Rpstir.Sqhl.PropagationSound
import Rpstir.Sqhl.SerialNumbers
import Rpstir.Sqhl.SigCache
import Rpstir.Sqhl.WalkTermination
import Rpstir.Util.Scrub
import Rpstir.Util.Strings
