import Structor.Text

/-!
# Profiles and facts (`Vagrantfile`, `hasrole.rb`)

A profile lists the nodes of a cluster. Puppet compiles the catalog of a node from the facts
that the Vagrantfile makes of the profile. A fact that the profile does not give is the empty
string, which is not a list.

## Main definitions

* `Profile.facts` -- the facts of a node
* `hasrole`, `islastslave` -- the functions that the manifests call
* `eval` -- the conditions of the manifests
-/
namespace Structor.Cluster

/-- The roles that the manifests and templates mention. -/
inductive Role where
  | ambariAgent | ambariServer | ambariViews | atscale | cert | client | druidBase | druidBroker
  | druidCoordinator | druidFlighttracker | druidHistorical | druidMiddlemanager | druidOverlord
  | flume | flumeServer | hbaseMaster | hbaseRegionserver | hive2 | hive2Llap | hive2Meta
  | hive2Server2 | hiveDb | hiveLlap | hiveMeta | hiveServer2 | hiveSsl | httpd | hue | kafka | kdc
  | knox | nn | oozie | phoenixQueryServer | postgres | rangerServer | slave | sparkThriftserver
  | superset | tezUi | wildfly | yarn | yarnTimelineserver | zk
  | other (name : String)
deriving DecidableEq

/-- The clients that the manifests mention. -/
inductive Client where
  | druid | hbase | hdfs | hive | hive2 | jvmtop | maven | odbc | odbcPhoenix | oozie | pig | slider
  | spark | sqoop | tez | yarn | yarnlocaltop | zk
  | other (name : String)
deriving DecidableEq

/-- The extras that the manifests mention. -/
inductive Extra where
  | hiveBrickhouseUdf | sampleAirlineData | sampleHiveData | samplePhoenixData
  | other (name : String)
deriving DecidableEq

structure Node where
  hostname : Str
  roles : List Role

structure Profile where
  domain : Str
  security : Bool
  clients : Option (List Client)
  extras : Option (List Extra)
  nodes : List Node

structure Facts where
  domain : Str
  security : Bool
  clients : Option (List Client)
  extras : Option (List Extra)
  nodes : List Node
  hostname : Str
  roles : List Role

def Profile.facts (p : Profile) (node : Node) : Facts where
  domain := p.domain
  security := p.security
  clients := p.clients
  extras := p.extras
  nodes := p.nodes
  hostname := node.hostname
  roles := node.roles

/-- What the Ruby code raises. -/
inductive Error where
  | parseError
  | noMethodError

/-- `none` is the empty string, which `eval` makes `nil` of. -/
def hasrole {α : Type} [DecidableEq α] (list : Option (List α)) (item : α) :
    Except Error Bool :=
  match list with
  | none => .error .parseError
  | some array => .ok (array.contains item)

def withRole (role : Role) (nodes : List Node) : List Node :=
  nodes.filter fun node => node.roles.contains role

def islastslave (nodes : List Node) (host : Str) : Except Error Bool :=
  if host.isEmpty then .error .parseError
  else .ok (((withRole .slave nodes).map Node.hostname).getLast? == some host)

/-- The conditions of the manifests. `extrasGiven` is `!("" in [$extras])`. -/
inductive Cond where
  | security
  | role (r : Role)
  | client (c : Client)
  | lastSlave
  | extrasGiven
  | extra (e : Extra)
deriving DecidableEq

def eval (f : Facts) : Cond → Except Error Bool
  | .security => .ok f.security
  | .role r => hasrole (some f.roles) r
  | .client c => hasrole f.clients c
  | .lastSlave => islastslave f.nodes f.hostname
  | .extrasGiven => .ok f.extras.isSome
  | .extra e => hasrole f.extras e

/-! ## When a condition holds -/

/-- The fact is a list with the item. -/
def Lists {α : Type} (list : Option (List α)) (item : α) : Prop := ∃ l, list = some l ∧ item ∈ l

/-- The node that the facts are of is the last one with the role `slave`. -/
def LastSlave (nodes : List Node) (host : Str) : Prop :=
  ((withRole .slave nodes).map Node.hostname).getLast? = some host

variable {f : Facts}

@[simp] theorem eval_security : eval f .security = .ok true ↔ f.security = true := by
  simp [eval]

@[simp] theorem eval_role {r : Role} : eval f (.role r) = .ok true ↔ r ∈ f.roles := by
  simp [eval, hasrole]

@[simp] theorem eval_client {c : Client} :
    eval f (.client c) = .ok true ↔ Lists f.clients c := by
  cases h : f.clients <;> simp [eval, hasrole, Lists, h]

@[simp] theorem eval_lastSlave :
    eval f .lastSlave = .ok true ↔ f.hostname ≠ [] ∧ LastSlave f.nodes f.hostname := by
  by_cases h : f.hostname = [] <;> simp [eval, islastslave, LastSlave, h]

@[simp] theorem eval_extrasGiven : eval f .extrasGiven = .ok true ↔ f.extras.isSome = true := by
  simp [eval]

@[simp] theorem eval_extra {e : Extra} :
    eval f (.extra e) = .ok true ↔ Lists f.extras e := by
  cases h : f.extras <;> simp [eval, hasrole, Lists, h]

theorem LastSlave.exists_node {nodes : List Node} {host : Str} (h : LastSlave nodes host) :
    ∃ node ∈ nodes, node.hostname = host ∧ .slave ∈ node.roles := by
  obtain ⟨node, hnode, rfl⟩ := List.mem_map.mp (List.mem_of_getLast? h)
  obtain ⟨hmem, hslave⟩ := List.mem_filter.mp hnode
  exact ⟨node, hmem, rfl, by simpa using hslave⟩

end Structor.Cluster
