import Structor.Cluster.Profile
import Structor.Puppet

/-!
# The node catalog (`site.pp` and the manifests of the modules)

The site manifest declares classes by the roles of the node, and orders some of them. The
manifests of the classes declare further classes. Of a manifest this module keeps the
statements that declare or order classes.

## Main definitions

* `Cls` -- the classes
* `manifest` -- what a class declares
* `site` -- the site manifest
* `Declares` -- the catalog of a node has a class
-/
namespace Structor.Cluster
open Puppet

-- The manifests are long lists, and `decide` walks through them.
set_option maxRecDepth 20000

/-- The classes, each after the classes that its manifest declares. -/
inductive Cls where
  | atscale | certification | druidFlighttracker | hbaseAuthorization | hive2 | hiveBrickhouseUdf
  | hiveKeytab | hiveLlap | hiveSsl | httpd | ipSetup | jdk | maven | mysqlConnector | ntp
  | odbcClient | odbcPhoenix | osPerformance | reposSetup | selinux | superset | vmUsers
  | ambariAgent | ambariServer | ambariViews | hdpSelect | flumeServer | hiveDb | hive2Meta
  | hive2Server2 | jvmtopClient | kerberosClient | kerberosKdc | knoxGateway | loadHiveKeytab
  | oozieClient | postgresServer | rangerServer | sampleHiveData | slider | hive2Llap | sparkClient
  | sparkThriftserver | sqoopClient | sslCa | weakRandom | yarnlocaltopClient | hdfsClient
  | hueServer | yarnClient | hadoopServer | kerberosHttp | hdfsDatanode | hdfsNamenode | hiveClient
  | hiveMeta | hiveServer2 | loadHdfsKeytab | oozieServer | pigClient | sampleAirlineData
  | tezClient | installHdfsTarballs | tezUi | yarnNodeManager | yarnResourceManager
  | yarnTimelineserver | zookeeperClient | druidBase | druidBroker | druidCoordinator
  | druidHistorical | druidMiddlemanager | druidOverlord | hbaseClient | hbaseServer
  | hbaseRegionserver | phoenixQueryServer | samplePhoenixData | wildfly | zookeeperServer
  | hbaseMaster | kafkaServer
deriving DecidableEq

/-- The classes that the manifest of a class declares and orders. Two of the classes that the
site manifest declares have no manifest. -/
def manifest : Cls → Option (Block Cond Cls)
  | .druidFlighttracker => none
  | .hiveLlap => none
  | .ambariAgent => some (declare [.reposSetup])
  | .ambariServer => some (declare [.reposSetup, .jdk])
  | .ambariViews => some (declare [.ambariServer])
  | .druidBase => some (declare [.zookeeperClient, .mysqlConnector])
  | .druidBroker => some (declare [.druidBase])
  | .druidCoordinator => some (declare [.druidBase])
  | .druidHistorical => some (declare [.druidBase])
  | .druidMiddlemanager => some (declare [.druidBase, .yarnClient])
  | .druidOverlord => some (declare [.druidBase])
  | .flumeServer => some (declare [.reposSetup, .hdpSelect, .jdk])
  | .hadoopServer => some (declare [.hdfsClient, .yarnClient])
  | .hbaseClient => some (declare [.hdfsClient, .zookeeperClient])
  | .hbaseMaster => some (declare [.hbaseServer, .zookeeperServer])
  | .hbaseRegionserver => some (declare [.hbaseServer])
  | .hbaseServer => some (declare [.hdfsClient, .zookeeperClient, .hbaseClient] ++
      when [.security] (declare [.kerberosHttp]))
  | .hdfsClient => some (declare [.reposSetup, .hdpSelect, .jdk] ++
      when [.security] (declare [.kerberosClient, .sslCa]))
  | .hdfsDatanode => some (declare [.hdfsClient, .hadoopServer] ++
      when [.security] (declare [.kerberosHttp]))
  | .hdfsNamenode => some (declare [.hdfsClient, .hadoopServer] ++
      when [.security] (declare [.kerberosHttp]))
  | .hdpSelect => some (declare [.reposSetup])
  | .hive2Llap => some (declare [.hive2, .slider] ++
      when [.security] (declare [.loadHiveKeytab]))
  | .hive2Meta => some (declare [.hive2, .hiveDb] ++ when [.security] (declare [.hiveKeytab]))
  | .hive2Server2 => some (declare [.hive2, .osPerformance])
  | .hiveClient => some (declare [.yarnClient, .mysqlConnector])
  | .hiveDb => some (declare [.mysqlConnector])
  | .hiveMeta => some (declare [.hiveClient, .hiveDb] ++ when [.security] (declare [.hiveKeytab]))
  | .hiveServer2 => some (declare [.hiveClient, .osPerformance] ++
      when [.security] (declare [.hiveKeytab]))
  | .hueServer => some (declare [.reposSetup] ++ when [.security] (declare [.hdfsClient]))
  | .installHdfsTarballs => some (declare [.hdfsDatanode] ++
      when [.security] (declare [.loadHdfsKeytab]) ++
      when [.client .yarn] (declare [.yarnClient]) ++
      when [.client .tez] (declare [.tezClient]) ++
      when [.client .hive2] (declare [.hive2]))
  | .jvmtopClient => some (declare [.jdk])
  | .kafkaServer => some (declare [.reposSetup, .zookeeperServer, .jdk])
  | .kerberosClient => some (declare [.ntp])
  | .kerberosHttp => some (declare [.hadoopServer, .kerberosClient, .sslCa] ++
      when [.role .kdc] (arrow .kerberosKdc .kerberosHttp))
  | .kerberosKdc => some (declare [.kerberosClient])
  | .knoxGateway => some (declare [.reposSetup, .jdk])
  | .loadHdfsKeytab => some (declare [.hdfsDatanode])
  | .loadHiveKeytab => some (declare [.hiveKeytab])
  | .oozieClient => some (declare [.reposSetup, .hdpSelect])
  | .oozieServer => some (declare [.reposSetup, .hdpSelect, .hdfsClient, .hiveClient] ++
      when [.security] (declare [.kerberosHttp]))
  | .phoenixQueryServer => some (declare [.hbaseClient] ++
      when [.security] (declare [.hbaseAuthorization]))
  | .pigClient => some (declare [.yarnClient])
  | .postgresServer => some (declare [.reposSetup])
  | .rangerServer => some (declare [.reposSetup, .jdk])
  | .sampleAirlineData => some (declare [.hdfsClient, .hiveClient] ++
      when [.security] (declare [.kerberosClient]))
  | .sampleHiveData => some (when [.security] (declare [.kerberosClient]))
  | .samplePhoenixData => some (declare [.hbaseClient] ++
      when [.security] (declare [.kerberosClient]))
  | .slider => some (declare [.reposSetup, .jdk])
  | .sparkClient => some (declare [.reposSetup, .hdpSelect, .jdk])
  | .sparkThriftserver => some (declare [.sparkClient] ++ when [.security] (declare [.hiveKeytab]))
  | .sqoopClient => some (declare [.reposSetup, .jdk])
  | .sslCa => some (declare [.jdk])
  | .tezClient => some (declare [.yarnClient])
  | .tezUi => some (declare [.httpd, .tezClient])
  | .weakRandom => some (declare [.reposSetup])
  | .wildfly => some (declare [.jdk, .hbaseClient])
  | .yarnClient => some (declare [.reposSetup, .jdk, .hdfsClient])
  | .yarnNodeManager => some (declare [.yarnClient, .hadoopServer] ++
      when [.security] (declare [.kerberosHttp]))
  | .yarnResourceManager => some (declare [.yarnClient, .hadoopServer] ++
      when [.security] (declare [.kerberosHttp]))
  | .yarnTimelineserver => some (declare [.yarnClient] ++
      when [.security] (declare [.kerberosHttp, .hdfsClient]))
  | .yarnlocaltopClient => some (declare [.jdk])
  | .zookeeperClient => some (declare [.reposSetup, .hdpSelect, .jdk])
  | .zookeeperServer => some (declare [.zookeeperClient])
  | _ => some []

/-! ## The site manifest -/

/-- The classes of the role `client`. -/
def siteClients : Block Cond Cls := List.flatten [
  when [.client .hbase] (declare [.hbaseClient]),
  when [.client .hdfs] (declare [.hdfsClient]),
  when [.client .hive] (declare [.hiveClient]),
  when [.client .jvmtop] (declare [.jvmtopClient]),
  when [.client .maven] (declare [.maven]),
  when [.client .odbc] (declare [.odbcClient]),
  when [.client .odbcPhoenix] (declare [.odbcPhoenix]),
  when [.client .oozie] (declare [.oozieClient]),
  when [.client .pig] (declare [.pigClient]),
  when [.client .slider] (declare [.slider]),
  when [.client .spark] (declare [.sparkClient]),
  when [.client .sqoop] (declare [.sqoopClient]),
  when [.client .tez] (declare [.tezClient]),
  when [.client .yarn] (declare [.yarnClient]),
  when [.client .yarnlocaltop] (declare [.yarnlocaltopClient]),
  when [.client .zk] (declare [.zookeeperClient])]

/-- The classes that the site manifest declares by the roles. -/
def siteRoles : Block Cond Cls := List.flatten [
  when [.security] (declare [.kerberosClient]),
  when [.security, .role .kdc] (declare [.kerberosKdc]),
  when [.role .ambariAgent] (declare [.ambariAgent]),
  when [.role .ambariServer] (declare [.ambariServer]),
  when [.role .ambariViews] (declare [.ambariViews]),
  when [.role .atscale] (declare [.atscale]),
  when [.role .cert] (declare [.certification]),
  when [.role .client] siteClients,
  when [.role .druidBroker] (declare [.druidBroker]),
  when [.role .druidCoordinator] (declare [.druidCoordinator]),
  when [.role .druidFlighttracker] (declare [.druidFlighttracker]),
  when [.role .druidHistorical] (declare [.druidHistorical]),
  when [.role .druidMiddlemanager] (declare [.druidMiddlemanager]),
  when [.role .druidOverlord] (declare [.druidOverlord]),
  when [.role .flumeServer] (declare [.flumeServer]),
  when [.role .hbaseMaster] (declare [.hbaseMaster]),
  when [.role .hbaseRegionserver] (declare [.hbaseRegionserver]),
  when [.role .hiveDb] (declare [.hiveDb]),
  when [.role .hiveMeta] (declare [.hiveMeta]),
  when [.role .hiveServer2] (declare [.hiveServer2]),
  when [.role .hiveSsl] (declare [.hiveSsl]),
  when [.role .hive2] (declare [.hive2]),
  when [.role .hive2Llap] (declare [.hive2Llap]),
  when [.role .hive2Meta] (declare [.hive2Meta]),
  when [.role .hive2Server2] (declare [.hive2Server2]),
  when [.role .hue] (declare [.hueServer]),
  when [.role .kafka] (declare [.kafkaServer]),
  when [.role .knox] (declare [.knoxGateway]),
  when [.role .hiveLlap] (declare [.hiveLlap]),
  when [.role .httpd] (declare [.httpd]),
  when [.role .nn] (declare [.hdfsNamenode]),
  when [.role .oozie] (declare [.oozieServer]),
  when [.role .phoenixQueryServer] (declare [.phoenixQueryServer]),
  when [.role .postgres] (declare [.postgresServer]),
  when [.role .rangerServer] (declare [.rangerServer]),
  when [.role .sparkThriftserver] (declare [.sparkThriftserver]),
  when [.role .slave] (declare [.hdfsDatanode, .yarnNodeManager]),
  when [.role .superset] (declare [.superset]),
  when [.role .tezUi] (declare [.tezUi]),
  when [.role .wildfly] (declare [.wildfly]),
  when [.role .yarn] (declare [.yarnResourceManager]),
  when [.role .yarnTimelineserver] (declare [.yarnTimelineserver]),
  when [.role .zk] (declare [.zookeeperServer])]

/-- What the last slave declares. -/
def siteLastSlave : Block Cond Cls := List.flatten [
  declare [.installHdfsTarballs],
  when [.extrasGiven] (List.flatten [
    when [.extra .hiveBrickhouseUdf] (declare [.hiveBrickhouseUdf]),
    when [.extra .sampleHiveData]
      (declare [.sampleHiveData] ++ arrow .installHdfsTarballs .sampleHiveData),
    when [.extra .sampleAirlineData]
      (declare [.sampleAirlineData] ++ arrow .installHdfsTarballs .sampleAirlineData),
    when [.extra .samplePhoenixData]
      (declare [.samplePhoenixData] ++ arrow .hbaseRegionserver .samplePhoenixData)])]

/-- The order of the classes. -/
def siteOrder : Block Cond Cls := List.flatten [
  when [.security, .role .kdc] (List.flatten [
    when [.role .ambariServer] (arrow .kerberosKdc .ambariServer),
    when [.role .hbaseMaster] (arrow .kerberosKdc .hbaseMaster),
    when [.role .hiveMeta] (arrow .kerberosKdc .hiveMeta),
    when [.role .hbaseRegionserver] (arrow .kerberosKdc .hbaseRegionserver),
    when [.role .nn] (arrow .kerberosKdc .hdfsNamenode)]),
  when [.role .nn] (List.flatten [
    when [.role .slave] (arrow .hdfsNamenode .hdfsDatanode),
    when [.role .yarn] (arrow .hdfsNamenode .yarnResourceManager),
    when [.role .hiveMeta] (arrow .hdfsNamenode .hiveMeta),
    when [.role .oozie] (arrow .hdfsNamenode .oozieServer),
    when [.role .hbaseMaster] (arrow .hdfsNamenode .hbaseMaster),
    when [.role .hbaseRegionserver] (arrow .hdfsNamenode .hbaseRegionserver)]),
  when [.role .hiveDb] (List.flatten [
    when [.role .hiveMeta] (arrow .hiveDb .hiveMeta),
    when [.role .oozie] (arrow .hiveDb .oozieServer)]),
  when [.role .hiveServer2] (List.flatten [
    when [.role .hiveMeta] (arrow .hiveMeta .hiveServer2),
    when [.role .hiveLlap] (arrow .hiveMeta .hiveLlap)]),
  when [.role .kafka] (when [.role .zk] (arrow .zookeeperServer .kafkaServer)),
  when [.role .slave, .role .oozie] (arrow .hdfsDatanode .oozieServer),
  when [.role .slave, .role .hiveServer2] (arrow .hdfsDatanode .hiveServer2),
  when [.role .slave, .role .hive2Server2] (arrow .hdfsDatanode .hive2Server2),
  when [.client .druid, .role .druidBase] (arrow .hdfsDatanode .druidBase),
  when [.role .slave, .role .atscale] (arrow .hdfsDatanode .atscale),
  when [.role .hive2Llap] (arrow .installHdfsTarballs .hive2Llap),
  when [.role .phoenixQueryServer]
    (when [.role .hbaseRegionserver] (arrow .hbaseRegionserver .phoenixQueryServer)),
  when [.role .hbaseMaster] (List.flatten [
    when [.role .hbaseRegionserver] (arrow .hbaseMaster .hbaseRegionserver),
    when [.role .slave] (arrow .hdfsDatanode .hbaseMaster)])]

def site : Block Cond Cls :=
  declare [.reposSetup, .vmUsers, .ipSetup, .selinux, .weakRandom, .ntp] ++
    siteRoles ++ when [.lastSlave] siteLastSlave ++ siteOrder

/-! ## The catalog of a node -/

/-- The catalog of a node. No class is deeper in the catalog than there are classes. -/
def catalog (p : Profile) (node : Node) : Except (Failure Error Cls) (List Cls) :=
  compile (eval (p.facts node)) manifest 100 site

/-- The site manifest includes the class, or it is reached through the classes it includes. -/
def Declares (p : Profile) (node : Node) (c : Cls) : Prop :=
  Executes (eval (p.facts node)) manifest site (.declare c)

theorem ranked_manifest : Ranked Cls.ctorIdx manifest := by
  intro c b hb
  cases c <;> cases hb <;> decide

theorem below_site : Below Cls.ctorIdx 99 site := by decide

/-- The conditions under which a class is declared. -/
def ways (c : Cls) : List (List Cond) :=
  ((derive manifest 100 site).filter fun g => g.stmt = .declare c).map Guarded.given

/-- A class is declared if all conditions of one of its ways hold. -/
theorem declares_iff_ways {p : Profile} {node : Node} {c : Cls} :
    Declares p node c ↔ ∃ w ∈ ways c, ∀ k ∈ w, eval (p.facts node) k = .ok true := by
  rw [Declares, executes_iff_derive ranked_manifest below_site]
  simp only [ways, List.mem_map, List.mem_filter, decide_eq_true_eq, holds_eq_true_iff]
  constructor
  · intro h
    obtain ⟨g, hg, hholds, hstmt⟩ := h
    exact ⟨g.given, ⟨g, ⟨hg, hstmt⟩, rfl⟩, hholds⟩
  · rintro ⟨w, ⟨g, ⟨hg, hstmt⟩, rfl⟩, hholds⟩
    exact ⟨g, hg, hholds, hstmt⟩

/-- A class that only one role declares. -/
theorem declares_iff_role {p : Profile} {node : Node} {c : Cls} {r : Role}
    (h : ways c = [[.role r]]) : Declares p node c ↔ r ∈ node.roles := by
  rw [declares_iff_ways, h]
  simp [Profile.facts]

end Structor.Cluster
