import Structor.Ats.GetDags
import Structor.Ats.StatsReport
import Structor.Profile.OfflineView
import Structor.Profile.YarnLocalTop
import Structor.Profile.DrawnGraph
import Structor.Profile.ThreadTimes
import Structor.Benchmetrics.ReadBack
import Structor.Benchmetrics.ComparisonTable
import Structor.Benchmetrics.JmeterColumns
import Structor.Benchmetrics.QuerySet
import Structor.Generator.Workloads
import Structor.Generator.Weblog
import Structor.Generator.AccountDates
import Structor.Generator.JourneyTimes
import Structor.Cluster.Llap
import Structor.Cluster.Closure
import Structor.Cluster.Identities
import Structor.Cluster.Keytabs
import Structor.Cluster.Duplicates
import Structor.Cluster.XmlDistinct
import Structor.Hive.AddPartition
import Structor.Merge.AccumulatingRerun
import Structor.Merge.HiveMergeRates
import Structor.Merge.Type2Keys
import Structor.Dbgen.Random
import Structor.Dbgen.Updates
import Structor.Dbgen.FlatFiles
import Structor.Dbgen.SsbQueries
