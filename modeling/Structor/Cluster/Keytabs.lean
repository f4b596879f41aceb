import Structor.Cluster.Site

/-!
# Keytabs (`create-kerberos-kdc.erb` and the manifests that copy keytabs)

In a secure cluster the script of the KDC creates a keytab of every user that the roles of a
node stand for. The manifests of the classes copy keytabs from the directory of their node.

## Main definitions

* `users` -- the users of a role
* `createKerberosKdc` -- the script, and `execute` what it leaves in the directory
* `copied` -- the keytabs that a class copies
* `KeytabsCreated` -- every keytab that is copied was created
-/
namespace Structor.Cluster

set_option maxRecDepth 20000

/-- The users that own a keytab, as it is named. -/
inductive User where
  | ambari | ats | dn | flume | hbase | hive | http | hue | jhs | nm | nn | oozie | phoenix | rm
  | zookeeper
deriving DecidableEq

/-- `generated/keytabs/<host>/<user>.keytab` -/
structure Keytab where
  host : Str
  user : User
deriving DecidableEq

/-! ## The script of the KDC -/

/-- The users of a role, none for a role that the table does not have. -/
def users : Role → List User
  | .ambariServer => [.ambari]
  | .flume => [.flume, .http]
  | .hbaseMaster => [.hbase, .http]
  | .hbaseRegionserver => [.hbase, .http]
  | .hiveMeta => [.hive]
  | .hiveServer2 => [.hive]
  | .hue => [.hue]
  | .hive2 => [.hive]
  | .nn => [.nn, .http]
  | .oozie => [.oozie, .http]
  | .phoenixQueryServer => [.phoenix]
  | .slave => [.nm, .dn, .http]
  | .yarn => [.rm, .jhs, .http]
  | .yarnTimelineserver => [.ats]
  | .zk => [.zookeeper]
  | _ => []

/-- The commands of the script. `xst` writes the key of a user of a host to a keytab. -/
inductive Command where
  | removeKeydir
  | mkdir (host : Str)
  | addprinc (user : User) (host : Str)
  | xst (keytab : Keytab)

/-- The commands for the keytabs of a node, each user once. -/
def nodeCommands (node : Node) : List Command :=
  (node.roles.flatMap users).eraseDups.flatMap fun user =>
    [.addprinc user node.hostname, .xst ⟨node.hostname, user⟩]

def createKerberosKdc (nodelist : List Node) : List Command :=
  .removeKeydir :: nodelist.map (fun node => .mkdir node.hostname) ++
    nodelist.flatMap nodeCommands

/-- The directories and keytabs, and the principals that the KDC knows. -/
structure Kdc where
  dirs : List Str
  principals : List (User × Str)
  keytabs : List Keytab

/-- The key of an unknown principal is not written, nor a keytab without its directory. -/
def Kdc.step (s : Kdc) : Command → Kdc
  | .removeKeydir => { s with dirs := [], keytabs := [] }
  | .mkdir host => { s with dirs := host :: s.dirs }
  | .addprinc user host => { s with principals := (user, host) :: s.principals }
  | .xst keytab =>
      if s.dirs.contains keytab.host && s.principals.contains (keytab.user, keytab.host) then
        { s with keytabs := keytab :: s.keytabs }
      else s

def Kdc.execute (script : List Command) (s : Kdc) : Kdc := script.foldl Kdc.step s

/-! ## The manifests -/

/-- The keytabs that a class copies. -/
def copied (security : Bool) : Cls → List User
  | .kerberosHttp => [.http]
  | c =>
      if security then
        match c with
        | .ambariServer => [.ambari]
        | .hbaseServer => [.hbase]
        | .hdfsDatanode => [.dn]
        | .hdfsNamenode => [.nn]
        | .hiveKeytab => [.hive]
        | .hueServer => [.hue]
        | .oozieServer => [.oozie]
        | .phoenixQueryServer => [.phoenix]
        | .yarnNodeManager => [.nm]
        | .yarnResourceManager => [.rm, .jhs]
        | .yarnTimelineserver => [.ats]
        | .zookeeperServer => [.zookeeper]
        | _ => []
      else []

/-- Every keytab that a class in the catalog of a node copies was created, whatever the KDC and
the directory held before. -/
def KeytabsCreated (p : Profile) : Prop :=
  ∀ s : Kdc, ∀ node ∈ p.nodes, ∀ c, Declares p node c → ∀ user ∈ copied p.security c,
    ⟨node.hostname, user⟩ ∈ (s.execute (createKerberosKdc p.nodes)).keytabs

/-! ## What the script creates -/

variable {p : Profile} {node : Node} {s : Kdc} {k : Keytab}

theorem execute_append (l l' : List Command) (s : Kdc) :
    s.execute (l ++ l') = (s.execute l).execute l' := List.foldl_append

theorem execute_cons (c : Command) (l : List Command) (s : Kdc) :
    s.execute (c :: l) = (s.step c).execute l := rfl

theorem execute_mkdirs (nodes : List Node) (s : Kdc) :
    s.execute (nodes.map fun node => .mkdir node.hostname) =
      { s with dirs := (nodes.map Node.hostname).reverse ++ s.dirs } := by
  induction nodes generalizing s with
  | nil => rfl
  | cons node nodes ih =>
      rw [List.map_cons, execute_cons, ih, List.map_cons, List.reverse_cons, List.append_assoc]
      rfl

/-- The commands of one keytab write it. -/
theorem execute_keytab {host : Str} (user : User) (h : host ∈ s.dirs) :
    s.execute [.addprinc user host, .xst ⟨host, user⟩] =
      { s with
        principals := (user, host) :: s.principals
        keytabs := ⟨host, user⟩ :: s.keytabs } := by
  simp [Kdc.execute, Kdc.step, h]

theorem execute_users {host : Str} (us : List User) (h : host ∈ s.dirs) :
    let s' := s.execute (us.flatMap fun user => [.addprinc user host, .xst ⟨host, user⟩])
    s'.dirs = s.dirs ∧
      ∀ k, k ∈ s'.keytabs ↔ k ∈ s.keytabs ∨ k.host = host ∧ k.user ∈ us := by
  induction us generalizing s with
  | nil => simp [Kdc.execute]
  | cons user us ih =>
      rw [List.flatMap_cons, execute_append, execute_keytab user h]
      obtain ⟨hdirs, hkeytabs⟩ := ih (s := { s with
        principals := (user, host) :: s.principals
        keytabs := ⟨host, user⟩ :: s.keytabs }) h
      refine ⟨hdirs, fun k => ?_⟩
      rw [hkeytabs, List.mem_cons, List.mem_cons]
      have hk : k = ⟨host, user⟩ ↔ k.host = host ∧ k.user = user := by
        cases k
        simp
      rw [hk]
      tauto

theorem execute_nodes (nodes : List Node) (h : ∀ node ∈ nodes, node.hostname ∈ s.dirs) :
    k ∈ (s.execute (nodes.flatMap nodeCommands)).keytabs ↔
      k ∈ s.keytabs ∨ ∃ node ∈ nodes, k.host = node.hostname ∧
        k.user ∈ node.roles.flatMap users := by
  induction nodes generalizing s with
  | nil => simp [Kdc.execute]
  | cons node nodes ih =>
      rw [List.forall_mem_cons] at h
      obtain ⟨hdirs, hkeytabs⟩ := execute_users (node.roles.flatMap users).eraseDups h.1
      rw [List.flatMap_cons, execute_append, nodeCommands, ih (by rw [hdirs]; exact h.2), hkeytabs,
        List.mem_eraseDups, List.exists_mem_cons_iff, or_assoc]

/-- The script creates the keytabs of the users of the roles of each node. -/
theorem mem_createKerberosKdc {nodes : List Node} :
    k ∈ (s.execute (createKerberosKdc nodes)).keytabs ↔
      ∃ node ∈ nodes, node.hostname = k.host ∧ ∃ role ∈ node.roles, k.user ∈ users role := by
  rw [createKerberosKdc, List.cons_append, execute_cons, execute_append, execute_mkdirs,
    execute_nodes]
  · simp [Kdc.step, eq_comm]
  · intro node hnode
    simpa using .inl ⟨node, hnode, rfl⟩

/-! ## Which roles a keytab depends on -/

/-- A role that leads to a class which copies a keytab that the role itself does not stand for,
and the roles that stand for it. -/
structure Borrowed where
  role : Role
  cls : Cls
  user : User
  lenders : List Role

def borrowed : List Borrowed := [
  ⟨.ambariViews, .ambariServer, .ambari, [.ambariServer]⟩,
  ⟨.hbaseMaster, .zookeeperServer, .zookeeper, [.zk]⟩,
  ⟨.kafka, .zookeeperServer, .zookeeper, [.zk]⟩,
  ⟨.hive2Llap, .hiveKeytab, .hive, [.hiveMeta, .hiveServer2, .hive2]⟩,
  ⟨.hive2Meta, .hiveKeytab, .hive, [.hiveMeta, .hiveServer2, .hive2]⟩,
  ⟨.sparkThriftserver, .hiveKeytab, .hive, [.hiveMeta, .hiveServer2, .hive2]⟩,
  ⟨.yarnTimelineserver, .kerberosHttp, .http,
    [.flume, .hbaseMaster, .hbaseRegionserver, .nn, .oozie, .slave, .yarn]⟩]

theorem mem_users_iff_lenders {b : Borrowed} (hb : b ∈ borrowed) (role : Role) :
    b.user ∈ users role ↔ role ∈ b.lenders := by
  revert b
  simp only [borrowed, List.forall_mem_cons]
  cases role <;> simp [users]

/-- One of the conditions stands for the user. The last slave has the role `slave`. -/
def covered (w : List Cond) (user : User) : Bool :=
  w.any fun k =>
    match k with
    | .role role => (users role).contains user
    | .lastSlave => (users .slave).contains user
    | _ => false

theorem covered_or_borrowed (c : Cls) : ∀ user ∈ copied true c, ∀ w ∈ ways c,
    covered w user = true ∨ ∃ b ∈ borrowed, b.user = user ∧ .role b.role ∈ w := by
  cases c <;> decide

theorem ways_borrowed : ∀ b ∈ borrowed, b.user ∈ copied true b.cls ∧
    ∃ w ∈ ways b.cls, ∀ k ∈ w, k = .role b.role ∨ k = .security := by
  decide

/-- The users that stand on the node for one of its conditions. -/
theorem exists_role_of_covered {w : List Cond} {user : User} (hnode : node ∈ p.nodes)
    (hw : ∀ k ∈ w, eval (p.facts node) k = .ok true) (h : covered w user = true) :
    ∃ other ∈ p.nodes, other.hostname = node.hostname ∧
      ∃ role ∈ other.roles, user ∈ users role := by
  obtain ⟨k, hk, huser⟩ := List.any_eq_true.mp h
  have heval := hw k hk
  cases k with
  | role role =>
      exact ⟨node, hnode, rfl, role, eval_role.mp heval, by simpa using huser⟩
  | lastSlave =>
      obtain ⟨other, hother, hhost, hslave⟩ := (eval_lastSlave.mp heval).2.exists_node
      exact ⟨other, hother, hhost, .slave, hslave, by simpa using huser⟩
  | security => cases huser
  | client c => cases huser
  | extrasGiven => cases huser
  | extra e => cases huser

theorem declares_borrowed (hsecurity : p.security = true) {b : Borrowed} (hb : b ∈ borrowed)
    (hrole : b.role ∈ node.roles) : Declares p node b.cls := by
  obtain ⟨-, w, hw, hk⟩ := ways_borrowed b hb
  refine declares_iff_ways.mpr ⟨w, hw, fun k hmem => ?_⟩
  rcases hk k hmem with rfl | rfl
  · exact eval_role.mpr hrole
  · exact eval_security.mpr hsecurity

/-- Every keytab is created if every role that borrows a keytab is on a host that also has a
role whose keytab it is. -/
theorem keytabsCreated_iff (p : Profile) (hsecurity : p.security = true) :
    KeytabsCreated p ↔ ∀ node ∈ p.nodes, ∀ b ∈ borrowed, b.role ∈ node.roles →
      ∃ other ∈ p.nodes, other.hostname = node.hostname ∧
        ∃ role ∈ other.roles, role ∈ b.lenders := by
  simp only [KeytabsCreated, mem_createKerberosKdc, hsecurity]
  constructor
  · intro h node hnode b hb hrole
    obtain ⟨other, hother, hhost, role, hmem, huser⟩ := h ⟨[], [], []⟩ node hnode b.cls
      (declares_borrowed hsecurity hb hrole) b.user (ways_borrowed b hb).1
    exact ⟨other, hother, hhost, role, hmem, (mem_users_iff_lenders hb role).mp huser⟩
  · intro h _ node hnode c hc user huser
    obtain ⟨w, hw, hholds⟩ := declares_iff_ways.mp hc
    rcases covered_or_borrowed c user huser w hw with hcovered | ⟨b, hb, rfl, hrole⟩
    · exact exists_role_of_covered hnode hholds hcovered
    · obtain ⟨other, hother, hhost, role, hmem, hlender⟩ :=
        h node hnode b hb (eval_role.mp (hholds _ hrole))
      exact ⟨other, hother, hhost, role, hmem, (mem_users_iff_lenders hb role).mpr hlender⟩

/-- A timeline server beside the resource manager. -/
def timelineWithYarn : Profile where
  domain := ['d']
  security := true
  clients := some []
  extras := none
  nodes := [⟨['a'], [.kdc, .yarn, .yarnTimelineserver]⟩]

theorem keytabsCreated_timelineWithYarn : KeytabsCreated timelineWithYarn :=
  (keytabsCreated_iff timelineWithYarn rfl).mpr (by decide)

/-- A timeline server on a node of its own. -/
def timelineAlone : Profile where
  domain := ['d']
  security := true
  clients := some []
  extras := none
  nodes := [⟨['a'], [.kdc]⟩, ⟨['b'], [.yarnTimelineserver]⟩]

theorem timelineAlone_not_keytabsCreated : ¬ KeytabsCreated timelineAlone := by
  intro h
  have hborrowed : ∃ b ∈ borrowed, b.role = .yarnTimelineserver ∧ b.cls = .kerberosHttp := by
    decide
  obtain ⟨b, hb, hrole, hcls⟩ := hborrowed
  have hdeclares : Declares timelineAlone ⟨['b'], [.yarnTimelineserver]⟩ b.cls :=
    declares_borrowed rfl hb (hrole ▸ List.mem_cons_self)
  rw [hcls] at hdeclares
  have hcreated := h ⟨[], [], []⟩ ⟨['b'], [.yarnTimelineserver]⟩ (by simp [timelineAlone])
    .kerberosHttp hdeclares .http List.mem_cons_self
  revert hcreated
  decide

end Structor.Cluster
