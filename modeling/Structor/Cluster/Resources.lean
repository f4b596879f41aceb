import Structor.Cluster.Site

/-!
# Resources (the manifests of the modules)

A manifest declares resources, some of them under conditions. The title of a resource is put
together from literal text and from facts. Of a resource this module keeps its type and title.

## Main definitions

* `Machine` -- what the resources depend on besides the profile
* `resources` -- the resources of a class, each with its conditions
* `declared` -- the types and titles that a class declares for a node
* `NoDuplicates` -- two classes of a catalog never declare one resource
-/
namespace Structor.Cluster

inductive Os where
  | centos6 | centos7 | ubuntu14
deriving DecidableEq

def Os.isUbuntu : Os → Bool
  | .ubuntu14 => true
  | _ => false

/-- The packages of a JDK, as `java_version` names them. -/
def java : Str := "java-"

/-- The facts that the manifests read besides those of the profile. The version of HDP is
found in the repository file, as `[-0-9.]*`. -/
structure Machine where
  os : Os
  hdpVersion : Str
  hdpVersion_digits : ∀ c ∈ hdpVersion, c = '-' ∨ c = '.' ∨ c.isDigit = true
  hdpVersionMajor : ℕ
  hdpVersionMinor : ℕ
  hdpVersionPatch : ℕ
  javaVersion : Str
  javaVersion_java : java <+: javaVersion
  ambariUnstable : Bool
  hiveOptions : Option Str
  /-- The variables of `hdfs_client` are empty in a class that is evaluated before it. -/
  hdfsClientBefore : Cls → Bool

/-- The mark before the version in a package, and the version with that mark throughout. -/
def Machine.packageVersion (m : Machine) : Str :=
  let mark := if m.os.isUbuntu then '-' else '_'
  mark :: m.hdpVersion.map fun c => if c = '.' ∨ c = '-' then mark else c

def Machine.platformStartScriptPath (m : Machine) : String :=
  if m.os.isUbuntu then "init.d" else "rc.d/init.d"

/-! ## Conditions -/

/-- The comparisons of the version of HDP. -/
inductive Band where
  | upTo2 | only2 | upTo22 | only22 | before23 | upTo23 | upTo232 | only232 | exactly232
deriving DecidableEq

def Band.contains (major minor patch : ℕ) : Band → Bool
  | .upTo2 => major ≤ 2
  | .only2 => major = 2
  | .upTo22 => major ≤ 2 ∧ minor ≤ 2
  | .only22 => major = 2 ∧ minor ≤ 2
  | .before23 => major ≤ 2 ∧ minor < 3
  | .upTo23 => major ≤ 2 ∧ minor ≤ 3
  | .upTo232 => major ≤ 2 ∧ minor ≤ 3 ∧ patch ≤ 2
  | .only232 => major = 2 ∧ minor ≤ 3 ∧ patch ≤ 2
  | .exactly232 => major = 2 ∧ minor = 3 ∧ patch = 2

inductive Fact where
  | security | centos | ubuntu | centos6 | centos7 | hdp (b : Band) | client (c : Client)
  | hiveOptions | ambariUnstable | hdpUnstable | hdfsClientBefore (c : Cls)
deriving DecidableEq

/-- No Vagrantfile sets `hdp_unstable`. Without a list of clients there is no catalog. -/
def Fact.given (m : Machine) (f : Facts) : Fact → Bool
  | .security => f.security
  | .centos => !m.os.isUbuntu
  | .ubuntu => m.os.isUbuntu
  | .centos6 => m.os = .centos6
  | .centos7 => m.os = .centos7
  | .hdp b => b.contains m.hdpVersionMajor m.hdpVersionMinor m.hdpVersionPatch
  | .client c => (f.clients.getD []).contains c
  | .hiveOptions => m.hiveOptions.isSome
  | .ambariUnstable => m.ambariUnstable
  | .hdpUnstable => false
  | .hdfsClientBefore c => m.hdfsClientBefore c

inductive Test where
  | is (f : Fact)
  | isNot (f : Fact)
deriving DecidableEq

def Test.passes (m : Machine) (f : Facts) : Test → Bool
  | .is x => x.given m f
  | .isNot x => !x.given m f

/-! ## Titles -/

inductive Kind where
  | exec | file | group | package | service | tidy | user
deriving DecidableEq

inductive Piece where
  | text (s : String)
  | domain | hdpVersion | hiveOptions | hostname | javaVersion | packageVersion | startScriptPath

instance : Coe String Piece := ⟨.text⟩

def Piece.value (m : Machine) (f : Facts) : Piece → Str
  | .text s => s
  | .domain => f.domain
  | .hdpVersion => m.hdpVersion
  | .hiveOptions => m.hiveOptions.getD []
  | .hostname => f.hostname
  | .javaVersion => m.javaVersion
  | .packageVersion => m.packageVersion
  | .startScriptPath => m.platformStartScriptPath

structure Resource where
  kind : Kind
  title : List Piece

def exec (title : List Piece) : Resource := ⟨.exec, title⟩
def file (title : List Piece) : Resource := ⟨.file, title⟩
def group (title : List Piece) : Resource := ⟨.group, title⟩
def package (title : List Piece) : Resource := ⟨.package, title⟩
def service (title : List Piece) : Resource := ⟨.service, title⟩
def tidy (title : List Piece) : Resource := ⟨.tidy, title⟩
def user (title : List Piece) : Resource := ⟨.user, title⟩

/-- A resource and the conditions of the `if`s and cases around it. -/
structure Declaration where
  tests : List Test
  resource : Resource

def given (tests : List Test) (rs : List Resource) : List Declaration :=
  rs.map (Declaration.mk tests)

def always : List Resource → List Declaration := given []

/-! ## The manifests -/

/-- The resources of a class. -/
def resources : Cls → List Declaration
  | .ambariAgent => always [package ["ambari-agent"], file ["/tmp/ambari-agent"],
      file ["/etc/ambari-agent/conf/ambari-agent.ini"], exec ["ambari-agent-start"]]
  | .ambariServer => List.flatten [
      given [.is .security] [exec ["groupadd hadoop"], file ["/etc/security/hadoop/"],
        file ["/etc/security/hadoop/ambari.keytab"], file ["/tmp/setup-ambari-security.sh"],
        exec ["/tmp/setup-ambari-security.sh"]],
      always [user ["ambari"], exec ["Set up SSH"], package ["ambari-server"],
        exec ["ambari-server-setup"], exec ["Fix startup script"], exec ["ambari-server-start"],
        exec ["Fix Ambari's embedded Postgres to survive reboot"]]]
  | .ambariViews => always [file ["/tmp/create_views.sh"], exec ["/tmp/create_views.sh"]]
  | .atscale => always [package ["rsync"], exec ["AtScale Unzip"], exec ["Add AtScale User"],
      exec ["AtScale HDFS Directory"], exec ["AtScale HDFS Mode"], file ["/usr/local/atscale"],
      exec ["Extract AtScale Bundle"], exec ["Fix AtScale Ownership"],
      exec ["Link to AtScale version"], tidy ["/tmp/custom.yaml"], exec ["Install AtScale"]]
  | .certification => always [package ["pytest"], exec ["known hosts"], exec ["get cert repo"]]
  | .druidBase => always [package ["druid", .packageVersion], file ["/var/lib/druid"],
      file ["/usr/hdp/", .hdpVersion, "/druid/conf/_common/common.runtime.properties"],
      file ["/usr/hdp/", .hdpVersion, "/druid/extensions/druid-hdfs-storage/hadoop-lzo.jar"],
      file ["/usr/hdp/", .hdpVersion,
        "/druid/extensions/mysql-metadata-storage/mysql-connector-java.jar"],
      file ["/etc/druid/conf/_common/core-site.xml"],
      file ["/etc/druid/conf/_common/hdfs-site.xml"],
      file ["/etc/druid/conf/_common/mapred-site.xml"],
      file ["/etc/druid/conf/_common/yarn-site.xml"], file ["/etc/druid/conf/_common/log4j2.xml"]]
  | .druidBroker => List.flatten [
      always [file ["/etc/druid/conf/broker/jvm.config"],
        exec ["hdp-select set druid-broker ", .hdpVersion]],
      given [.is .centos7] [file ["/etc/systemd/system/druid-broker.service"]],
      always [service ["druid-broker"]]]
  | .druidCoordinator => List.flatten [
      always [file ["/etc/druid/conf/coordinator/jvm.config"],
        exec ["hdp-select set druid-coordinator ", .hdpVersion]],
      given [.is .centos7] [file ["/etc/systemd/system/druid-coordinator.service"]],
      always [service ["druid-coordinator"]]]
  | .druidHistorical => List.flatten [
      always [file ["/etc/druid/conf/historical/jvm.config"],
        file ["/etc/druid/conf/historical/runtime.properties"],
        exec ["hdp-select set druid-historical ", .hdpVersion]],
      given [.is .centos7] [file ["/etc/systemd/system/druid-historical.service"]],
      always [service ["druid-historical"]]]
  | .druidMiddlemanager => List.flatten [
      always [file ["/etc/druid/conf/middleManager/jvm.config"],
        file ["/etc/druid/conf/middleManager/runtime.properties"],
        exec ["hdp-select set druid-middlemanager ", .hdpVersion]],
      given [.is .centos7] [file ["/etc/systemd/system/druid-middleManager.service"]],
      always [service ["druid-middleManager"]]]
  | .druidOverlord => List.flatten [
      always [file ["/etc/druid/conf/overlord/jvm.config"],
        exec ["hdp-select set druid-overlord ", .hdpVersion]],
      given [.is .centos7] [file ["/etc/systemd/system/druid-overlord.service"]],
      always [service ["druid-overlord"], file ["/home/vagrant/wikiticker-hdfs"],
        file ["/home/vagrant/wikiticker-hdfs/wikitickerHdfsIndex.sh"],
        file ["/home/vagrant/wikiticker-hdfs/wikiticker-index-hdfs.json"],
        file ["/home/vagrant/wikiticker-hdfs/sampleDruidQuery.sh"],
        file ["/home/vagrant/wikiticker-hdfs/TimeBoundaryQuery.json"],
        file ["/home/vagrant/wikiticker-hdfs/TimeSeriesQuery.json"],
        file ["/home/vagrant/druid-tpch"], file ["/home/vagrant/druid-tpch/indexTpch.sh"],
        file ["/home/vagrant/druid-tpch/tpch-index-hdfs.json"],
        file ["/home/vagrant/sampleWeblog.sh"], file ["/home/vagrant/wikiticker-kafka"],
        file ["/home/vagrant/wikiticker-kafka/wikiticker-kafka-supervisor-spec.json"],
        file ["/home/vagrant/wikiticker-kafka/wikitickerKafkaDemo.sh"],
        file ["/home/vagrant/wikiticker-kafka/hive_integration_setup.sh"]]]
  | .flumeServer => always [package ["flume", .packageVersion],
      exec ["hdp-select set flume-server ", .hdpVersion]]
  | .hadoopServer => always [group ["hadoop"], group ["mapred"], group ["yarn"], group ["oozie"],
      user ["hdfs"], user ["mapred"], user ["yarn"], user ["hive"], user ["oozie"], user ["hbase"],
      file ["/var/lib/hadoop"], file ["/var/lib/hadoop/hdfs"], file ["/var/lib/hadoop/yarn"],
      file ["/var/run/pid"], file ["/var/run/pid/hdfs"], file ["/var/run/pid/mapred"],
      file ["/var/run/pid/yarn"], file ["/var/log/hadoop"], file ["/var/log/hadoop/hdfs"],
      file ["/var/log/hadoop/mapred"], file ["/var/log/hadoop/yarn"],
      file ["/var/log/hadoop/hbase"], file ["/var/run/pid/hbase"]]
  | .hbaseAuthorization => List.flatten [
      given [.is .security] [
        exec ["kinit -k -t /etc/security/hadoop/hbase.keytab hbase/", .hostname, ".", .domain],
        exec ["Wait for HBase to settle"],
        exec ["hbase shell -n /vagrant/modules/hbase_authorization/files/grants.txt"]]]
  | .hbaseClient => List.flatten [
      always [file ["/etc/profile.d/hbase.sh"]],
      given [.is .security] [file ["/etc/hbase"], file ["/etc/hbase/conf"],
        file ["/etc/hbase/conf/zk-jaas.conf"]],
      always [package ["hbase", .packageVersion], package ["phoenix", .packageVersion],
        file ["/etc/hbase/conf/hbase-env.sh"], file ["/etc/hbase/conf/hbase-site.xml"],
        file ["/etc/hbase/conf/log4j.properties"], file ["/etc/hbase/conf/regionservers"]],
      given [.is (.hdp .only2)] [file ["/usr/hdp/current/phoenix-client/bin/psql.py"],
        file ["/usr/hdp/current/phoenix-client/bin/sqlline.py"],
        file ["/usr/hdp/current/phoenix-client/bin/phoenix_utils.py"]]]
  | .hbaseMaster => List.flatten [
      given [.is .centos] [package ["hbase", .packageVersion, "-master"]],
      given [.is .ubuntu, .is (.hdp .before23)] [
        exec ["apt-get download hbase", .packageVersion, "-master"],
        exec ["dpkg -i --force-overwrite hbase", .packageVersion, "*master*.deb"]],
      given [.is .ubuntu, .isNot (.hdp .before23)] [package ["hbase", .packageVersion, "-master"]],
      always [exec ["hdp-select set hbase-master ", .hdpVersion], service ["hbase-master"]],
      given [.is .centos7] [file ["/etc/systemd/system/hbase-master.service"],
        file ["/etc/systemd/system/hbase-master.service.d"],
        file ["/etc/systemd/system/hbase-master.service.d/default.conf"]],
      given [.isNot .centos7, .is (.hdp .only232)] [file ["/etc/init.d/hbase-master"]],
      given [.isNot .centos7, .isNot (.hdp .only232)] [file ["/etc/init.d/hbase-master"]]]
  | .hbaseRegionserver => List.flatten [
      given [.is .centos] [package ["hbase", .packageVersion, "-regionserver"]],
      given [.is .ubuntu, .is (.hdp .before23)] [
        exec ["apt-get download hbase", .packageVersion, "-regionserver"],
        exec ["dpkg -i --force-overwrite hbase", .packageVersion, "*.deb"]],
      given [.is .ubuntu, .is (.hdp .before23), .is (.hdp .upTo22)] [
        file ["/usr/hdp/", .hdpVersion, "/etc/", .startScriptPath, "/hbase-regionserver"]],
      given [.is .ubuntu, .is (.hdp .before23), .isNot (.hdp .upTo22)] [
        file ["/usr/hdp/", .hdpVersion, "/hbase/etc/", .startScriptPath, "/hbase-regionserver"]],
      given [.is .ubuntu, .isNot (.hdp .before23)] [
        package ["hbase", .packageVersion, "-regionserver"]],
      always [exec ["hdp-select set hbase-regionserver ", .hdpVersion],
        service ["hbase-regionserver"]],
      given [.is .centos7] [file ["/etc/systemd/system/hbase-regionserver.service"],
        file ["/etc/systemd/system/hbase-regionserver.service.d"],
        file ["/etc/systemd/system/hbase-regionserver.service.d/default.conf"]],
      given [.isNot .centos7, .is (.hdp .only232)] [file ["/etc/init.d/hbase-regionserver"]],
      given [.isNot .centos7, .isNot (.hdp .only232)] [file ["/etc/init.d/hbase-regionserver"]]]
  | .hbaseServer => List.flatten [
      given [.is .security] [file ["/etc/security/hadoop/hbase.keytab"]]]
  | .hdfsClient => List.flatten [
      always [package ["hadoop", .packageVersion],
        exec ["hdp-select set hadoop-client ", .hdpVersion]],
      given [.is .centos] [package ["hadoop", .packageVersion, "-libhdfs"]],
      given [.is .ubuntu] [package ["libhdfs0", .packageVersion]],
      always [package ["hadoop", .packageVersion, "-client"],
        package ["hadooplzo", .packageVersion], package ["hadooplzo", .packageVersion, "-native"],
        package ["openssl"], package ["snappy"]],
      given [.is .centos] [package ["lzo"]],
      given [.is .ubuntu] [package ["liblzo2-2"]],
      always [file ["/etc/hadoop"], file ["/etc/hadoop/hdp"], file ["/etc/hadoop/conf"],
        file ["/etc/hadoop/hdp/commons-logging.properties"],
        file ["/etc/hadoop/hdp/configuration.xsl"], file ["/etc/hadoop/hdp/core-site.xml"],
        file ["/etc/hadoop/hdp/dfs.exclude"], file ["/etc/hadoop/hdp/hadoop-env.sh"],
        file ["/etc/hadoop/hdp/hadoop-metrics2.properties"],
        file ["/etc/hadoop/hdp/hadoop-policy.xml"], file ["/etc/hadoop/hdp/hdfs-site.xml"],
        file ["/etc/hadoop/hdp/log4j.properties"]],
      given [.is .security] [
        exec ["keytool -importcert -noprompt -alias horton-ca -keystore /usr/lib/jvm/java/",
          "jre/lib/security/cacerts -storepass changeit -file ca.crt"],
        file ["/etc/hadoop/hdp/ssl-client.xml"]]]
  | .hdfsDatanode => List.flatten [
      given [.is .security] [file ["/etc/security/hadoop/dn.keytab"]],
      always [package ["hadoop", .packageVersion, "-hdfs-datanode"],
        exec ["hdp-select set hadoop-hdfs-datanode ", .hdpVersion],
        service ["hadoop-hdfs-datanode"]],
      given [.is .centos7] [file ["/etc/systemd/system/hadoop-hdfs-datanode.service"],
        file ["/etc/systemd/system/hadoop-hdfs-datanode.service.d"],
        file ["/etc/systemd/system/hadoop-hdfs-datanode.service.d/default.conf"]],
      given [.isNot .centos7] [file ["/etc/init.d/hadoop-hdfs-datanode"]]]
  | .hdfsNamenode => List.flatten [
      given [.is .security] [file ["/etc/security/hadoop/nn.keytab"],
        exec ["kinit -k -t /etc/security/hadoop/nn.keytab nn/", .hostname, ".", .domain]],
      always [package ["hadoop", .packageVersion, "-hdfs-namenode"],
        exec ["hdp-select set hadoop-hdfs-namenode ", .hdpVersion], exec ["namenode-format"],
        service ["hadoop-hdfs-namenode"], exec ["make-all-dirs"], exec ["yarn-home-chown"],
        exec ["yarn-history-chown"], exec ["yarn-app-logs-chown"], exec ["vagrant-home-chown"],
        exec ["oozie-home-chown"], exec ["hbase-warehouse-chown"], exec ["hive-chown"],
        exec ["druid-chown"], exec ["ambari-chown"], exec ["admin-home-chown"],
        exec ["spark-home-chown"], exec ["chmod-177"], exec ["yarn-home-chmod"],
        exec ["yarn-history-chmod"], exec ["tarball-chmod"]],
      given [.is .centos7] [file ["/etc/systemd/system/hadoop-hdfs-namenode.service"],
        file ["/etc/systemd/system/hadoop-hdfs-namenode.service.d"],
        file ["/etc/systemd/system/hadoop-hdfs-namenode.service.d/default.conf"]],
      given [.isNot .centos7] [file ["/etc/init.d/hadoop-hdfs-namenode"]]]
  | .hdpSelect => always [package ["hdp-select"]]
  | .hive2 => List.flatten [
      always [package ["hive2", .packageVersion], package ["tez_hive2", .packageVersion],
        file ["/etc/hive2/conf/hive-site.xml"], file ["/etc/hive2/conf/hive-env.sh"],
        file ["/etc/hive2/conf/hive-log4j2.properties"], file ["/etc/tez_hive2/conf/tez-site.xml"]],
      given [.is .hiveOptions] [
        exec ["python /vagrant/files/xmlcombine.py /etc/hive2/conf/hive-site.xml hive_client ",
          .hiveOptions]],
      always [file ["/usr/hdp/current/hive-server2-hive2/bin/hive.distro"], file ["/usr/bin/hive2"],
        file ["/usr/bin/hive"], file ["/usr/bin/beeline"], file ["/usr/bin/hplsql"]]]
  | .hive2Llap => List.flatten [
      always [file ["/home/vagrant/start_llap.sh"]],
      given [.is .security] [exec ["Create headless Hive principal for Slider"],
        exec ["Generate extra keytab for slider"],
        file ["/etc/security/hadoop/hive.headless.keytab"], exec ["Install extra slider keytab"]],
      always [exec ["Eliminate old Slider package"], exec ["Build LLAP package"],
        exec ["Rename LLAP package output to something guessable"],
        exec ["Make run.sh executable"]]]
  | .hive2Meta => List.flatten [
      given [.is .centos7] [file ["/etc/systemd/system/hive2-metastore.service"]],
      given [.isNot .centos7] [file ["/etc/init.d/hive2-metastore"]],
      always [exec ["Hive 2 Schema"], file ["/usr/hdp/current/hive-server2-hive2/hive2-metastore"],
        service ["hive2-metastore"]]]
  | .hive2Server2 => List.flatten [
      always [service ["hive2-server2"]],
      given [.is .centos7] [file ["/etc/systemd/system/hive2-server2.service"],
        file ["/etc/systemd/system/hive2-server2.service.d"],
        file ["/etc/systemd/system/hive2-server2.service.d/default.conf"],
        file ["/usr/hdp/current/hive-server2-hive2/hive2-server2"]],
      given [.isNot .centos7] [file ["/usr/hdp/", .hdpVersion, "/etc/default/hive2-server2"],
        file ["/etc/init.d/hive2-server2"]]]
  | .hiveBrickhouseUdf => always [file ["/home/vagrant/brickhouse.jar"]]
  | .hiveClient => List.flatten [
      always [package ["hive", .packageVersion], exec ["Add hive to hive"],
        package ["hive", .packageVersion, "-hcatalog"], file ["/etc/hive"], file ["/etc/hive/hdp"],
        file ["/etc/hive/conf"], file ["/etc/hive/hdp/hive-env.sh"],
        file ["/etc/hive/hdp/hive-site.xml"]],
      given [.is .hiveOptions] [
        exec ["python /vagrant/files/xmlcombine.py /etc/hive/hdp/hive-site.xml hive_client ",
          .hiveOptions]],
      always [file ["/etc/hive/hdp/hive-log4j.properties"],
        file ["/usr/hdp/", .hdpVersion, "/hive/lib/mysql-connector-java.jar"]]]
  | .hiveDb => List.flatten [
      given [.is .centos, .is .centos7] [package ["mariadb-server"]],
      given [.is .centos, .isNot .centos7] [package ["mysql-server"]],
      given [.is .centos, .is .centos7] [service ["mariadb"]],
      given [.is .centos, .isNot .centos7] [service ["mysqld"]],
      given [.is .ubuntu] [package ["mysql-server"], file ["/etc/mysql/my.cnf"], service ["mysql"]],
      always [exec ["secure-mysqld"], exec ["add-remote-root"],
        file ["/root/.mysql_setup_complete"], exec ["create-hivedb"], exec ["create-druiddb"]]]
  | .hiveKeytab => List.flatten [
      given [.is .security] [file ["Hiveserver2 Keytab"]]]
  | .hiveMeta => List.flatten [
      always [package ["hive", .packageVersion, "-metastore"],
        exec ["hdp-select set hive-metastore ", .hdpVersion], exec ["Hive 2 Schema"],
        exec ["Hive 1 Schema"], service ["hive-metastore"]],
      given [.is .centos7] [file ["/etc/systemd/system/hive-metastore.service"],
        file ["/etc/systemd/system/hive-metastore.service.d"],
        file ["/etc/systemd/system/hive-metastore.service.d/default.conf"]],
      given [.isNot .centos7, .is (.hdp .only22), .is (.hdp .upTo22)] [
        file ["/usr/hdp/", .hdpVersion, "/etc/", .startScriptPath, "/hive-metastore"]],
      given [.isNot .centos7, .is (.hdp .only22), .isNot (.hdp .upTo22)] [
        file ["/usr/hdp/", .hdpVersion, "/hive/etc/", .startScriptPath, "/hive-metastore"]],
      given [.isNot .centos7] [file ["/etc/init.d/hive-metastore"]]]
  | .hiveServer2 => List.flatten [
      always [package ["hive", .packageVersion, "-server2"],
        exec ["hdp-select set hive-server2 ", .hdpVersion], service ["hive-server2"],
        file ["/home/vagrant/extractHiveServer2Queries.py"]],
      given [.is .centos7] [file ["/etc/systemd/system/hive-server2.service"],
        file ["/etc/systemd/system/hive-server2.service.d"],
        file ["/etc/systemd/system/hive-server2.service.d/default.conf"]],
      given [.isNot .centos7, .is (.hdp .only22), .is (.hdp .upTo22)] [
        file ["/usr/hdp/", .hdpVersion, "/etc/", .startScriptPath, "/hive-server2"]],
      given [.isNot .centos7, .is (.hdp .only22), .isNot (.hdp .upTo22)] [
        file ["/usr/hdp/", .hdpVersion, "/hive/etc/", .startScriptPath, "/hive-server2"]],
      given [.isNot .centos7] [file ["/etc/init.d/hive-server2"]]]
  | .hiveSsl => always [exec ["Generate self-signed cert"], file ["/usr/bin/beeline_secure"]]
  | .httpd => always [package ["httpd"], service ["httpd"], file ["/var/www/html/index.html"]]
  | .hueServer => List.flatten [
      given [.is .security] [file ["/etc/security/hadoop/hue.keytab"]],
      always [package ["hue"], file ["/etc/hue/conf/hue.ini"], service ["hue"]]]
  | .installHdfsTarballs => List.flatten [
      given [.is (.client .yarn)] [exec ["install-mr-tarball"]],
      given [.is (.client .tez)] [exec ["install-tez-tarball"]],
      given [.is (.client .hive2)] [exec ["install-tez2-tarball"]]]
  | .ipSetup => List.flatten [
      given [.is .centos6] [service ["iptables"], service ["ip6tables"]],
      given [.is .centos7] [service ["firewalld"]],
      always [file ["/etc/hosts"]]]
  | .jdk => List.flatten [
      given [.is .centos] [package [.javaVersion], package [.javaVersion, "-devel"]],
      given [.is .ubuntu] [package ["openjdk-7-jdk"], file ["/usr/lib/jvm/java"],
        file ["/usr/java"], file ["/usr/java/default"]],
      always [file ["/etc/profile.d/java.sh"]]]
  | .jvmtopClient => always [file ["/usr/bin/jvmtop.jar"], file ["/usr/bin/jvmtop.sh"]]
  | .kafkaServer => List.flatten [
      always [package ["kafka"], service ["kafka"], file ["/etc/kafka/conf/consumer.properties"],
        file ["/etc/kafka/conf/producer.properties"], file ["/etc/kafka/conf/server.properties"],
        file ["/tmp/create_test_topic.sh"]],
      given [.is .centos7] [file ["/etc/systemd/system/kafka.service"],
        file ["/etc/systemd/system/kafka.service.d"],
        file ["/etc/systemd/system/kafka.service.d/default.conf"]],
      given [.isNot .centos7] [file ["/etc/init.d/kafka"]]]
  | .kerberosClient => List.flatten [
      given [.is .centos6] [package ["krb5-auth-dialog"]],
      given [.is .centos] [package ["krb5-workstation"], package ["krb5-libs"]],
      given [.is .ubuntu] [package ["krb5-user"], package ["krb5-config"]],
      always [file ["/etc/krb5.conf"]]]
  | .kerberosHttp => always [file ["/etc/security/hadoop"],
      file ["/etc/security/hadoop/http-secret"], file ["/etc/security/hadoop/http.keytab"],
      file ["/tmp/create-cert"], exec ["/tmp/create-cert"], file ["/etc/hadoop/hdp/ssl-server.xml"]]
  | .kerberosKdc => List.flatten [
      given [.is .centos] [package ["krb5-server"]],
      given [.is .ubuntu] [package ["krb5-kdc"], package ["krb5-admin-server"]],
      given [.is .centos] [file ["/var/kerberos/krb5kdc/kdc.conf"]],
      given [.is .ubuntu] [file ["/etc/krb5kdc/kdc.conf"]],
      always [file ["/vagrant/generated"], file ["/vagrant/generated/create-kerberos-db"],
        exec ["kdc-init"]],
      given [.is .centos] [service ["krb5kdc"]],
      given [.is .ubuntu] [service ["krb5-kdc"]]]
  | .knoxGateway => always [package ["knox.noarch"], file ["/etc/init.d/knox-gateway"],
      exec ["start-ldap"], exec ["setup-gateway"], service ["knox-gateway"]]
  | .loadHdfsKeytab => always [
      exec ["kinit -k -t /etc/security/hadoop/dn.keytab dn/", .hostname, ".", .domain]]
  | .loadHiveKeytab => List.flatten [
      given [.is (.hdfsClientBefore .loadHiveKeytab)] [
        exec ["kinit -k -t /etc/security/hadoop/hive.keytab hive/", .hostname, ".", .domain]],
      given [.isNot (.hdfsClientBefore .loadHiveKeytab)] [
        exec ["kinit -k -t /hive.keytab hive/", .hostname, ".", .domain]]]
  | .maven => always [exec ["Install Maven"],
      exec ["tar -C /usr/local/share -xvf apache-maven-3.3.9-bin.tar.gz"],
      file ["/usr/local/share/maven"], file ["/etc/profile.d/maven.sh"], exec ["Add Vendor Repos"]]
  | .mysqlConnector => always [package ["mysql-connector-java"]]
  | .ntp => List.flatten [
      always [package ["ntp"]],
      given [.is .centos] [service ["ntp"]],
      given [.is .ubuntu] [service ["ntp"]]]
  | .odbcClient => List.flatten [
      given [.is .centos] [package ["unixODBC"], package ["unixODBC-devel"],
        package ["cyrus-sasl-gssapi"], package ["cyrus-sasl-plain"], package ["postgresql-odbc"]],
      given [.isNot .centos] [package ["unixodbc"], package ["unixodbc-dev"],
        package ["libsasl2-modules-gssapi-mit"]],
      always [exec ["Download ODBC"]],
      given [.is .centos] [exec ["Install ODBC"]],
      given [.isNot .centos] [exec ["Install ODBC"]],
      always [file ["/usr/local/odbc"], file ["/usr/local/odbc/odbc.ini"],
        file ["/usr/local/odbc/odbcinst.ini"],
        file ["/usr/lib/hive/lib/native/Linux-amd64-64/hortonworks.hiveodbc.ini"],
        file ["/etc/profile.d/odbc.sh"]],
      given [.is .centos] [package ["epel-release"], package ["python-pip"],
        package ["python-devel"], package ["gcc-c++"], exec ["Install pyodbc"]],
      given [.isNot .centos] [package ["python-pyodbc"]],
      always [file ["/home/vagrant/sampleSQLQuery.py"]]]
  | .odbcPhoenix => List.flatten [
      given [.is .centos] [package ["unixODBC"], package ["unixODBC-devel"],
        package ["cyrus-sasl-gssapi"], package ["cyrus-sasl-plain"],
        file ["/tmp/expected_sums_odbc.txt"], exec ["Download ODBC"], exec ["Install ODBC"],
        file ["/opt/hortonworks/phoenixodbc/Setup"],
        file ["/opt/hortonworks/phoenixodbc/Setup/odbc.ini"],
        file ["/opt/hortonworks/phoenixodbc/Setup/odbcinst.ini"],
        file ["/etc/profile.d/odbc_phoenix.sh"], package ["epel-release"], package ["python-pip"],
        package ["python-devel"], package ["gcc-c++"], exec ["Install pyodbc"],
        file ["/home/vagrant/samplePythonODBCQuery.py"]]]
  | .oozieClient => always [package ["oozie", .packageVersion, "-client"],
      file ["/etc/profile.d/oozie.sh"]]
  | .oozieServer => List.flatten [
      given [.is .security] [file ["/etc/security/hadoop/oozie.keytab"],
        exec ["kinit -k -t /etc/security/hadoop/oozie.keytab oozie/", .hostname, ".", .domain]],
      given [.is .ubuntu] [package ["zip"], package ["unzip"]],
      always [package ["oozie", .packageVersion]],
      given [.is .ubuntu] [file ["/var/run/oozie"], file ["/var/tmp/oozie"]],
      always [file ["/etc/oozie"], file ["/etc/oozie/conf/adminusers.txt"],
        file ["/etc/oozie/conf/oozie-site.xml"], file ["/etc/oozie/conf/oozie-env.sh"],
        file ["/etc/init.d/oozie"], package ["extjs"],
        file ["/usr/hdp/", .hdpVersion, "/oozie/libext/ext-2.2.zip"],
        file ["/usr/hdp/", .hdpVersion, "/oozie/libext/hadoop-lzo.jar"],
        file ["/usr/hdp/", .hdpVersion, "/oozie/libext/mysql-connector-java.jar"],
        exec ["oozie-prepare-war"], file ["/tmp/create-oozie-db-user.sh"], exec ["oozie-db-user"],
        exec ["oozie-createdb"], exec ["untar-oozie-sharelib"],
        file ["/tmp/share/lib/hive/mysql-connector-java.jar"], exec ["install-oozie-sharelib"],
        service ["oozie"]]]
  | .osPerformance => List.flatten [
      always [file ["/etc/security/limits.conf"]],
      given [.is .centos] [file ["/etc/rc.d/rc.local"]],
      given [.is .ubuntu] [file ["/etc/rc.local"]]]
  | .phoenixQueryServer => List.flatten [
      given [.is .security] [file ["/etc/security/hadoop/phoenix.keytab"]],
      given [.is (.hdp .upTo23)] [file ["/usr/hdp/", .hdpVersion, "/phoenix/bin/queryserver.py"]],
      always [service ["phoenix-query-server"],
        file ["/home/vagrant/sample-phoenix-query-server-query.py"]],
      given [.is .centos7] [file ["/etc/systemd/system/phoenix-query-server.service"],
        file ["/etc/systemd/system/phoenix-query-server.service.d"],
        file ["/etc/systemd/system/phoenix-query-server.service.d/default.conf"]],
      given [.isNot .centos7, .is (.hdp .upTo2)] [file ["/etc/init.d/phoenix-query-server"]]]
  | .pigClient => always [package ["pig", .packageVersion], file ["/etc/pig"],
      file ["/etc/pig/hdp"], file ["/etc/pig/conf"], file ["/etc/pig/hdp/pig-env.sh"],
      file ["/etc/pig/hdp/log4j.properties"], file ["/etc/pig/hdp/pig.properties"]]
  | .postgresServer => always [package ["postgresql"], package ["postgresql-server"],
      exec ["service postgresql initdb"], file ["/var/lib/pgsql/data/pg_hba.conf"],
      file ["/var/lib/pgsql/data/postgresql.conf"], service ["postgresql"], exec ["Create User"],
      exec ["createdb vagrant"]]
  | .rangerServer => always [package ["ranger", .packageVersion, "-admin"],
      file ["/usr/hdp/", .hdpVersion, "/ranger-admin/install.properties"],
      exec ["/usr/hdp/", .hdpVersion, "/ranger-admin/setup.sh"],
      file ["/usr/hdp/", .hdpVersion, "/ranger-hdfs-plugin/install.properties"],
      exec ["/usr/hdp/", .hdpVersion, "/ranger-hdfs-plugin/enable-hdfs-plugin.sh"],
      file ["/usr/hdp/", .hdpVersion, "/ranger-hive-plugin/install.properties"],
      exec ["/usr/hdp/", .hdpVersion, "/ranger-hive-plugin/enable-hive-plugin.sh"],
      service ["ranger-admin"]]
  | .reposSetup => List.flatten [
      given [.is .centos, .is .ambariUnstable] [exec ["Download unstable Ambari repo"]],
      given [.is .centos, .isNot .ambariUnstable] [file ["/etc/yum.repos.d/ambari.repo"]],
      given [.is .centos, .is .hdpUnstable] [exec ["Download unstable HDP repo"]],
      given [.is .centos, .isNot .hdpUnstable] [file ["/etc/yum.repos.d/hdp.repo"]],
      given [.is .ubuntu] [file ["/etc/apt/sources.list.d/hdp.list"], exec ["gpg-updates-import"],
        exec ["gpg-updates-aptkey"], exec ["refresh-apt-cache"]]]
  | .sampleAirlineData => List.flatten [
      given [.is .security] [exec ["kinit vagrant"]],
      always [exec ["Add Airline Data"]]]
  | .sampleHiveData => List.flatten [
      given [.is .security] [exec ["kinit vagrant"]],
      always [exec ["Add sample data (ORCFile)"], exec ["Load sample data (ORCFile)"],
        exec ["Add sample data (Parquet)"], exec ["Load sample data (Parquet)"]]]
  | .samplePhoenixData => List.flatten [
      given [.is .security] [
        exec ["kinit -k -t /etc/security/hadoop/hbase.keytab hbase/", .hostname, ".", .domain]],
      always [exec ["Add sample data (Phoenix)"], file ["/tmp/create_tables.sh"],
        file ["/tmp/count_rows.sh"], exec ["Create Phoenix Tables"],
        exec ["Load sample data (Phoenix, Takes ~30 minutes)"]]]
  | .selinux => List.flatten [
      given [.is .centos] [file ["/etc/selinux/config"]]]
  | .slider => always [package ["slider", .packageVersion], file ["/etc/slider/conf/slider-env.sh"]]
  | .sparkClient => always [package ["spark2", .packageVersion, "-python"],
      package ["spark2", .packageVersion], exec ["hdp-select set spark2-client ", .hdpVersion]]
  | .sparkThriftserver => List.flatten [
      always [file ["/usr/hdp/current/spark2-thriftserver/conf/hive-site.xml"],
        file ["/usr/hdp/current/spark2-thriftserver/conf/spark2-defaults.conf"],
        file ["/usr/hdp/current/spark2-thriftserver/conf/java-opts"],
        file ["/usr/hdp/current/spark2-thriftserver/conf/log4j.properties"],
        file ["/usr/hdp/current/spark2-thriftserver/conf/metrics.properties"],
        file ["/usr/hdp/current/spark2-thriftserver/conf/spark2-env.sh"],
        file ["/usr/hdp/current/spark2-thriftserver/conf/spark2-thrift-fairscheduler.xml"],
        file ["/usr/hdp/current/spark2-thriftserver/conf/spark2-thrift-sparkconf.conf"],
        file ["/usr/hdp/current/spark2-thriftserver/conf/spark2-thriftserver"],
        file ["/var/log/spark"], service ["spark-thriftserver"]],
      given [.is .centos7] [file ["/etc/systemd/system/spark-thriftserver.service"]],
      given [.isNot .centos7] [file ["/etc/init.d/spark2-thriftserver"]]]
  | .sqoopClient => always [package ["sqoop"]]
  | .sslCa => always [file ["/vagrant/generated/ssl-ca"], exec ["openssl genrsa -out ca.key 4096"],
      exec ["openssl req -new -x509 -days 36525 -key ca.key -out ca.crt < /vagrant/",
        "modules/ssl_ca/files/ca-info.txt"], file ["/vagrant/generated/ssl-ca/ca.srl"],
      file ["/vagrant/generated/ssl-ca/ca.ser"]]
  | .superset => List.flatten [
      always [package ["epel-release"], package ["superset", .packageVersion],
        file ["/usr/hdp/current/superset"],
        exec ["/usr/hdp/current/superset/bin/fabmanager create-admin --app superset ",
          "--username admin --password password --firstname admin --lastname user ",
          "--email nobody@example.com"], exec ["/usr/hdp/current/superset/bin/superset db upgrade"],
        exec ["/usr/hdp/current/superset/bin/superset load_examples"],
        exec ["/usr/hdp/current/superset/bin/superset init"]],
      given [.is .centos7] [file ["/etc/systemd/system/superset.service"]],
      always [service ["superset"]]]
  | .tezClient => always [package ["tez", .packageVersion], file ["/etc/tez"],
      file ["/etc/tez/hdp"], file ["/etc/tez/conf"], file ["/etc/tez/hdp/tez-env.sh"],
      file ["/etc/tez/hdp/tez-site.xml"]]
  | .tezUi => always [package ["unzip"], file ["/var/www/html/tez-ui"],
      exec ["Extract the Tez UI WAR"], file ["/var/www/html/tez-ui/scripts"],
      file ["/var/www/html/tez-ui/scripts/configs.js"], file ["/var/www/html/tez-ui/config"],
      file ["/var/www/html/tez-ui/config/configs.env"], file ["/var/www/html/tez-ui2"],
      file ["/var/www/html/tez-ui2/scripts"], exec ["Extract the Tez2 UI WAR"],
      file ["/var/www/html/tez-ui2/scripts/configs.js"]]
  | .vmUsers => always [user ["veewee"], user ["vagrant"]]
  | .weakRandom => always [exec ["/dev/random"]]
  | .wildfly => List.flatten [
      always [package ["curl"],
        exec ["curl -o http://download.jboss.org/wildfly/9.0.1.final/",
          "wildfly-9.0.1.final.tar.gz"], exec ["tar -xzf wildfly-9.0.1.final.tar.gz -c /usr/share"],
        exec ["adduser wildfly"],
        exec ["chown -fr wildfly:wildfly /usr/share/wildfly-9.0.1.final/"],
        file ["/usr/share/wildfly-9.0.1.final/modules/system/layers/base/org"],
        file ["/usr/share/wildfly-9.0.1.final/modules/system/layers/base/org/apache"],
        file ["/usr/share/wildfly-9.0.1.final/modules/system/layers/base/org/apache/phoenix"],
        file ["/usr/share/wildfly-9.0.1.final/modules/system/layers/base/org/apache/",
          "phoenix/jdbc"],
        file ["/usr/share/wildfly-9.0.1.final/modules/system/layers/base/org/apache/",
          "phoenix/jdbc/PhoenixDriver"],
        file ["/usr/share/wildfly-9.0.1.final/modules/system/layers/base/org/apache/",
          "phoenix/jdbc/PhoenixDriver/phoenix-client.jar"],
        file ["/usr/share/wildfly-9.0.1.final/modules/system/layers/base/org/apache/",
          "phoenix/jdbc/PhoenixDriver/module.xml"],
        exec ["/usr/share/wildfly-9.0.1.final/bin/jboss-cli.sh --connect --user=wildfly ",
          "--password=password --command='module add ",
          "--name=org.apache.phoenix.jdbc.PhoenixDriver --resources=/usr/share/",
          "wildfly-9.0.1.final/modules/system/layers/base/org/apache/phoenix/jdbc/",
          "PhoenixDriver/phoenix-client.jar'"],
        exec ["/usr/share/wildfly-9.0.1.final/bin/jboss-cli.sh --connect --user=wildfly ",
          "--password=password --command=\"/subsystem=datasources/",
          "jdbc-driver=PhoenixDriver:add(driver-name=PhoenixDriver,",
          "driver-module-name=org.apache.phoenix.jdbc.PhoenixDriver)\""],
        exec ["/usr/share/wildfly-9.0.1.final/bin/add-user.sh wildfly password"]],
      given [.is .centos] [file ["/etc/init.d/wildfly"]],
      given [.is .ubuntu] [file ["/etc/init.d/wildfly"]],
      always [service ["wildfly"], file ["/etc/profile.d/wildfly.sh"],
        file ["/etc/default/wildfly.conf"]]]
  | .yarnClient => always [package ["hadoop", .packageVersion, "-yarn"],
      file ["/usr/hdp/", .hdpVersion, "/hadoop-yarn/libexec"],
      package ["hadoop", .packageVersion, "-mapreduce"],
      file ["/usr/hdp/", .hdpVersion, "/hadoop-mapreduce/libexec"],
      file ["/etc/hadoop/hdp/capacity-scheduler.xml"], file ["/etc/hadoop/hdp/mapred-env.sh"],
      file ["/etc/hadoop/hdp/mapred-site.xml"], file ["/etc/hadoop/hdp/task-log4j.properties"],
      file ["/etc/hadoop/hdp/yarn.exclude"], file ["/etc/hadoop/hdp/yarn-env.sh"],
      file ["/etc/hadoop/hdp/yarn-site.xml"]]
  | .yarnNodeManager => List.flatten [
      given [.is .security] [file ["/etc/security/hadoop/nm.keytab"],
        file ["/etc/hadoop/hdp/container-executor.cfg"]],
      always [package ["hadoop", .packageVersion, "-yarn-nodemanager"],
        exec ["hdp-select set hadoop-yarn-nodemanager ", .hdpVersion]],
      given [.is (.hdp .upTo232)] [
        exec ["chgrp yarn /usr/hdp/", .hdpVersion, "/hadoop-yarn/bin/container-executor"],
        exec ["chmod 6050 /usr/hdp/", .hdpVersion, "/hadoop-yarn/bin/container-executor"]],
      always [service ["hadoop-yarn-nodemanager"]],
      given [.is .centos7] [file ["/etc/systemd/system/hadoop-yarn-nodemanager.service"],
        file ["/etc/systemd/system/hadoop-yarn-nodemanager.service.d"],
        file ["/etc/systemd/system/hadoop-yarn-nodemanager.service.d/default.conf"]],
      given [.isNot .centos7] [file ["/etc/init.d/hadoop-yarn-nodemanager"]]]
  | .yarnResourceManager => List.flatten [
      given [.is .security] [file ["/etc/security/hadoop/rm.keytab"],
        exec ["kinit -k -t /etc/security/hadoop/rm.keytab rm/", .hostname, ".", .domain],
        file ["/etc/security/hadoop/jhs.keytab"]],
      always [package ["hadoop", .packageVersion, "-yarn-resourcemanager"],
        exec ["hdp-select set hadoop-yarn-resourcemanager ", .hdpVersion],
        exec ["hdfs dfs -mkdir -p /tmp/entity-file-history"],
        exec ["hdfs dfs -touchz /tmp/entity-file-history/active"],
        service ["hadoop-yarn-resourcemanager"],
        package ["hadoop", .packageVersion, "-mapreduce-historyserver"],
        exec ["hdp-select set hadoop-mapreduce-historyserver ", .hdpVersion],
        service ["hadoop-mapreduce-historyserver"]],
      given [.is .centos7] [file ["/etc/systemd/system/hadoop-yarn-resourcemanager.service"],
        file ["/etc/systemd/system/hadoop-yarn-resourcemanager.service.d"],
        file ["/etc/systemd/system/hadoop-yarn-resourcemanager.service.d/default.conf"]],
      given [.isNot .centos7] [file ["/etc/init.d/hadoop-yarn-resourcemanager"]],
      given [.is .centos7] [file ["/etc/systemd/system/hadoop-mapreduce-historyserver.service"],
        file ["/etc/systemd/system/hadoop-mapreduce-historyserver.service.d"],
        file ["/etc/systemd/system/hadoop-mapreduce-historyserver.service.d/default.conf"]],
      given [.isNot .centos7] [file ["/etc/init.d/hadoop-mapreduce-historyserver"]]]
  | .yarnTimelineserver => List.flatten [
      given [.is .security] [file ["/etc/security/hadoop/ats.keytab"]],
      always [package ["hadoop", .packageVersion, "-yarn-timelineserver"],
        exec ["hdp-select set hadoop-yarn-timelineserver ", .hdpVersion],
        service ["hadoop-yarn-timelineserver"]],
      given [.is .centos7] [file ["/etc/systemd/system/hadoop-yarn-timelineserver.service"],
        file ["/etc/systemd/system/hadoop-yarn-timelineserver.service.d"],
        file ["/etc/systemd/system/hadoop-yarn-timelineserver.service.d/default.conf"]],
      given [.isNot .centos7] [file ["/etc/init.d/hadoop-yarn-timelineserver"]]]
  | .yarnlocaltopClient => always [file ["/usr/bin/yarnlocaltop.jar"],
      file ["/usr/bin/yarnlocaltop"]]
  | .zookeeperClient => List.flatten [
      always [package ["zookeeper", .packageVersion],
        exec ["hdp-select set zookeeper-client ", .hdpVersion], file ["/etc/zookeeper"],
        file ["/etc/zookeeper/hdp"], file ["/etc/zookeeper/conf"],
        file ["/etc/zookeeper/hdp/log4j.properties"], file ["/etc/zookeeper/hdp/zoo.cfg"],
        file ["/etc/zookeeper/hdp/zookeeper-env.sh"]],
      given [.is .security] [file ["/etc/zookeeper/hdp/zookeeper-client.jaas"]]]
  | .zookeeperServer => List.flatten [
      given [.is .security] [file ["/etc/zookeeper/hdp/zookeeper-server.jaas"]],
      given [.is .security, .is (.hdfsClientBefore .zookeeperServer)] [
        file ["/etc/security/hadoop/zookeeper.keytab"]],
      given [.is .security, .isNot (.hdfsClientBefore .zookeeperServer)] [
        file ["/zookeeper.keytab"]],
      given [.is .centos] [package ["zookeeper", .packageVersion, "-server"]],
      given [.is .centos, .is (.hdp .exactly232), .is (.hdp .upTo22)] [
        file ["/usr/hdp/", .hdpVersion, "/etc/", .startScriptPath, "/zookeeper-server"]],
      given [.is .centos, .is (.hdp .exactly232), .isNot (.hdp .upTo22)] [
        file ["/usr/hdp/", .hdpVersion, "/zookeeper/etc/", .startScriptPath, "/zookeeper-server"]],
      given [.is .ubuntu, .is (.hdp .before23)] [
        exec ["apt-get download zookeeper", .packageVersion, "-server"],
        exec ["dpkg -i --force-overwrite zookeeper", .packageVersion, "*.deb"],
        file ["/usr/hdp/", .hdpVersion, "/etc/init.d/zookeeper-server"]],
      given [.is .ubuntu, .isNot (.hdp .before23)] [
        package ["zookeeper", .packageVersion, "-server"]],
      always [exec ["hdp-select set zookeeper-server ", .hdpVersion],
        file ["/etc/zookeeper/hdp/configuration.xsl"], file ["/var/lib/zookeeper"],
        file ["/var/lib/zookeeper/myid"], file ["/var/log/zookeeper"],
        file ["/var/run/pid/zookeeper"], exec ["usermod -a -G hadoop zookeeper"],
        service ["zookeeper-server"]],
      given [.is .centos7] [file ["/etc/systemd/system/zookeeper-server.service"],
        file ["/etc/systemd/system/zookeeper-server.service.d"],
        file ["/etc/systemd/system/zookeeper-server.service.d/default.conf"]],
      given [.isNot .centos7] [file ["/etc/init.d/zookeeper-server"]]]
  | _ => []

/-! ## The resources of a node -/

/-- The type and title of a resource. -/
def Resource.name (m : Machine) (f : Facts) (r : Resource) : Kind × Str :=
  (r.kind, r.title.flatMap (Piece.value m f))

/-- The resources that a class declares for a node. -/
def declared (m : Machine) (f : Facts) (c : Cls) : List (Kind × Str) :=
  ((resources c).filter fun d => d.tests.all (Test.passes m f)).map fun d => d.resource.name m f

/-- No two different classes in the catalog declare a resource of the same type and title. -/
def NoDuplicates (m : Machine) (p : Profile) (node : Node) : Prop :=
  ∀ c d, Declares p node c → Declares p node d → c ≠ d →
    ∀ x ∈ declared m (p.facts node) c, x ∉ declared m (p.facts node) d

end Structor.Cluster
