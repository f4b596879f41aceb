import Structor.Cluster.Site

/-!
# ZooKeeper and Kafka identities (`myid.erb`, `zoo.erb`, `server.properties.erb`)

The id of a ZooKeeper server is written to `myid` on its node and listed in the `zoo.cfg` of
every node. Both number the nodes with the role `zk`. The id of a Kafka broker is the position
of its node among all nodes.

## Main definitions

* `myid`, `zooServers`, `brokerId` -- what the templates render
* `IdentitiesAgree` -- the ids are defined, name their hosts and differ
-/
namespace Structor.Cluster

set_option maxRecDepth 20000

/-! ## The templates -/

/-- The hosts with the role `zk`. -/
def zkHosts (f : Facts) : List Str := (withRole .zk f.nodes).map Node.hostname

/-- What is written to `myid`. The position of a host that is not in the list is `nil`. -/
def myid (f : Facts) : Except Error ℕ :=
  match (zkHosts f).idxOf? f.hostname with
  | none => .error .noMethodError
  | some i => .ok (i + 1)

def address (f : Facts) (host : Str) : Str := host ++ '.' :: f.domain

def server : Str := "server."
def ports : Str := ":2888:3888"

/-- `server.<id>=` -/
def serverKey (id : ℕ) : Str := server ++ (decimal id ++ ['='])

def serverLine (id : ℕ) (node : Str) : Str := serverKey id ++ (node ++ ports)

/-- The lines of `zoo.cfg` that list the servers. -/
def zooServers (f : Facts) : List Str :=
  (((zkHosts f).map (address f)).zipIdx 1).map fun p => serverLine p.2 p.1

/-- The `broker.id`, which is empty for a host that is not in the list. -/
def brokerId (f : Facts) : Option ℕ := (f.nodes.map Node.hostname).idxOf? f.hostname

/-! ## Positions -/

variable {f : Facts} {p : Profile} {node : Node}

theorem getElem?_of_idxOf? {l : List Str} {a : Str} {i : ℕ} (h : l.idxOf? a = some i) :
    l[i]? = some a := by
  obtain ⟨hi, ha, -⟩ := List.idxOf?_eq_some_iff.mp h
  rw [List.getElem?_eq_getElem hi, ha]

theorem exists_idxOf? {l : List Str} {a : Str} (h : a ∈ l) : ∃ i, l.idxOf? a = some i :=
  Option.isSome_iff_exists.mp (List.isSome_idxOf?.mpr h)

/-- A text up to the first mark is known from what begins with it. -/
theorem eq_of_concat_prefix {mark : Char} {s t r : Str} (hs : mark ∉ s) (ht : mark ∉ t)
    (h : s ++ [mark] <+: t ++ mark :: r) : s = t := by
  induction s generalizing t with
  | nil =>
      cases t with
      | nil => rfl
      | cons d t =>
          have heq : mark = d := (List.cons_prefix_cons.mp h).1
          exact absurd (heq ▸ List.mem_cons_self) ht
  | cons c s ih =>
      rw [List.mem_cons, not_or] at hs
      cases t with
      | nil => exact absurd (List.cons_prefix_cons.mp h).1.symm hs.1
      | cons d t =>
          obtain ⟨heq, hrest⟩ := List.cons_prefix_cons.mp h
          rw [List.mem_cons, not_or] at ht
          rw [heq, ih hs.2 ht.2 hrest]

/-- The line of one server does not begin like the line of another. -/
theorem eq_of_serverKey_prefix {i j : ℕ} {node : Str} (h : serverKey i <+: serverLine j node) :
    i = j := by
  have hmark : ∀ k : ℕ, '=' ∉ decimal k := fun k => not_mem_decimal (by decide) (by decide)
  rw [serverLine, serverKey, serverKey, List.append_assoc, List.append_assoc,
    List.prefix_append_right_inj, List.singleton_append] at h
  have heq : decimal i = decimal j := eq_of_concat_prefix (hmark i) (hmark j) h
  have hcast : (i : ℤ) = j := decimal_injective heq
  omega

theorem mem_zooServers {line : Str} : line ∈ zooServers f ↔
    ∃ i host, (zkHosts f)[i]? = some host ∧ line = serverLine (i + 1) (address f host) := by
  simp only [zooServers, List.mem_map, Prod.exists, List.mk_mem_zipIdx_iff_le_and_getElem?_sub]
  constructor
  · intro h
    obtain ⟨node, k, ⟨hk, hget⟩, rfl⟩ := h
    rw [List.getElem?_map, Option.map_eq_some_iff] at hget
    obtain ⟨host, hhost, rfl⟩ := hget
    exact ⟨k - 1, host, hhost, by rw [Nat.sub_add_cancel hk]⟩
  · intro h
    obtain ⟨i, host, hhost, rfl⟩ := h
    refine ⟨address f host, i + 1, ⟨Nat.le_add_left 1 i, ?_⟩, rfl⟩
    rw [Nat.add_sub_cancel, List.getElem?_map, hhost, Option.map_some]

theorem getElem?_of_myid {k : ℕ} (h : myid f = .ok k) :
    ∃ i, k = i + 1 ∧ (zkHosts f)[i]? = some f.hostname := by
  rw [myid] at h
  cases hi : (zkHosts f).idxOf? f.hostname with
  | none => simp [hi] at h
  | some i =>
      simp only [hi, Except.ok.injEq] at h
      exact ⟨i, h.symm, getElem?_of_idxOf? hi⟩

/-- A host with the role `zk` has an id. -/
theorem exists_myid (h : f.hostname ∈ zkHosts f) : ∃ k, myid f = .ok k := by
  obtain ⟨i, hi⟩ := exists_idxOf? h
  exact ⟨i + 1, by rw [myid, hi]⟩

theorem myid_of_not_mem (h : f.hostname ∉ zkHosts f) : myid f = .error .noMethodError := by
  rw [myid, List.idxOf?_eq_none_iff.mpr h]

/-! ## The catalogs -/

theorem declares_zookeeperServer : Declares p node .zookeeperServer ↔
    .zk ∈ node.roles ∨ .hbaseMaster ∈ node.roles ∨ .kafka ∈ node.roles := by
  have hways : ways .zookeeperServer = [[.role .zk], [.role .hbaseMaster], [.role .kafka]] := by
    decide
  rw [declares_iff_ways, hways]
  simp [Profile.facts]

/-! ## The identities of a cluster -/

/-- What the ids are for. -/
structure IdentitiesAgree (p : Profile) : Prop where
  /-- Every ZooKeeper node has an id, under which every `zoo.cfg` lists this node alone. -/
  listed : ∀ node ∈ p.nodes, Declares p node .zookeeperServer →
    ∃ k, myid (p.facts node) = .ok k ∧ ∀ other ∈ p.nodes,
      serverLine k (address (p.facts node) node.hostname) ∈ zooServers (p.facts other) ∧
        ∀ line ∈ zooServers (p.facts other), serverKey k <+: line →
          line = serverLine k (address (p.facts node) node.hostname)
  /-- Two ZooKeeper nodes have different ids. -/
  separate : ∀ node ∈ p.nodes, ∀ node' ∈ p.nodes, Declares p node .zookeeperServer →
    Declares p node' .zookeeperServer →
      ∀ k, myid (p.facts node) = .ok k → myid (p.facts node') = .ok k → node = node'
  /-- Every Kafka node has a broker id. -/
  broker : ∀ node ∈ p.nodes, Declares p node .kafkaServer →
    ∃ b, brokerId (p.facts node) = some b
  /-- Two Kafka nodes have different broker ids. -/
  brokers : ∀ node ∈ p.nodes, ∀ node' ∈ p.nodes, Declares p node .kafkaServer →
    Declares p node' .kafkaServer →
      ∀ b, brokerId (p.facts node) = some b → brokerId (p.facts node') = some b → node = node'

theorem Profile.mem_zkHosts (h : (p.nodes.map Node.hostname).Nodup) (hnode : node ∈ p.nodes) :
    node.hostname ∈ zkHosts (p.facts node) ↔ .zk ∈ node.roles := by
  rw [zkHosts, withRole, List.mem_map]
  constructor
  · intro hhost
    obtain ⟨other, hother, heq⟩ := hhost
    obtain ⟨hmem, hzk⟩ := List.mem_filter.mp hother
    rw [← List.inj_on_of_nodup_map h hmem hnode heq]
    simpa using hzk
  · intro hzk
    exact ⟨node, List.mem_filter.mpr ⟨hnode, by simpa using hzk⟩, rfl⟩

/-- The line of a ZooKeeper node in the `zoo.cfg` of any node. -/
theorem listed_of_myid (other : Node) {k : ℕ} (h : myid (p.facts node) = .ok k) :
    serverLine k (address (p.facts node) node.hostname) ∈ zooServers (p.facts other) ∧
      ∀ line ∈ zooServers (p.facts other), serverKey k <+: line →
        line = serverLine k (address (p.facts node) node.hostname) := by
  obtain ⟨i, rfl, hi⟩ := getElem?_of_myid h
  constructor
  · exact mem_zooServers.mpr ⟨i, node.hostname, hi, rfl⟩
  · intro line hline hprefix
    obtain ⟨j, host, hj, rfl⟩ := mem_zooServers.mp hline
    have hij : i + 1 = j + 1 := eq_of_serverKey_prefix hprefix
    obtain rfl : i = j := Nat.succ.inj hij
    have hhost : some host = some node.hostname := hj.symm.trans hi
    rw [Option.some.inj hhost]
    rfl

/-- The identities agree if every node that a ZooKeeper server is required on has the role
`zk` too. -/
theorem identitiesAgree_iff (p : Profile) (h : (p.nodes.map Node.hostname).Nodup) :
    IdentitiesAgree p ↔
      ∀ node ∈ p.nodes, .kafka ∈ node.roles ∨ .hbaseMaster ∈ node.roles → .zk ∈ node.roles := by
  constructor
  · intro hagree node hnode hroles
    have hdeclares : Declares p node .zookeeperServer := by
      rw [declares_zookeeperServer]
      exact .inr hroles.symm
    obtain ⟨k, hk, -⟩ := hagree.listed node hnode hdeclares
    by_contra hzk
    rw [← p.mem_zkHosts h hnode] at hzk
    have herror := myid_of_not_mem (f := p.facts node) hzk
    rw [hk] at herror
    cases herror
  · intro hroles
    have hzk : ∀ node ∈ p.nodes, Declares p node .zookeeperServer →
        node.hostname ∈ zkHosts (p.facts node) := by
      intro node hnode hdeclares
      rw [p.mem_zkHosts h hnode]
      rcases declares_zookeeperServer.mp hdeclares with hzk | hserver
      · exact hzk
      · exact hroles node hnode hserver.symm
    constructor
    · intro node hnode hdeclares
      obtain ⟨k, hk⟩ := exists_myid (f := p.facts node) (hzk node hnode hdeclares)
      exact ⟨k, hk, fun other _ => listed_of_myid other hk⟩
    · intro node hnode node' hnode' _ _ k hk hk'
      obtain ⟨i, rfl, hi⟩ := getElem?_of_myid hk
      obtain ⟨j, hj, hi'⟩ := getElem?_of_myid hk'
      obtain rfl : i = j := Nat.succ.inj hj
      have hhost : some node.hostname = some node'.hostname := hi.symm.trans hi'
      exact List.inj_on_of_nodup_map h hnode hnode' (Option.some.inj hhost)
    · intro node hnode _
      exact exists_idxOf? (List.mem_map_of_mem hnode)
    · intro node hnode node' hnode' _ _ b hb hb'
      have hhost : some node.hostname = some node'.hostname :=
        (getElem?_of_idxOf? hb).symm.trans (getElem?_of_idxOf? hb')
      exact List.inj_on_of_nodup_map h hnode hnode' (Option.some.inj hhost)

/-- Two nodes with the role `zk`, one of them a Kafka broker. -/
def kafkaOnZk : Profile where
  domain := ['d']
  security := false
  clients := some []
  extras := none
  nodes := [⟨['a'], [.zk]⟩, ⟨['b'], [.kafka, .zk]⟩]

theorem identitiesAgree_kafkaOnZk : IdentitiesAgree kafkaOnZk :=
  (identitiesAgree_iff kafkaOnZk (by decide)).mpr (by decide)

/-- A Kafka broker on a node of its own. -/
def kafkaAlone : Profile where
  domain := ['d']
  security := false
  clients := some []
  extras := none
  nodes := [⟨['a'], [.zk]⟩, ⟨['b'], [.kafka]⟩]

theorem kafkaAlone_not_identitiesAgree :
    (kafkaAlone.nodes.map Node.hostname).Nodup ∧ ¬ IdentitiesAgree kafkaAlone := by
  refine ⟨by decide, fun hagree => ?_⟩
  have hdeclares : Declares kafkaAlone ⟨['b'], [.kafka]⟩ .zookeeperServer := by
    rw [declares_zookeeperServer]
    simp
  obtain ⟨k, hk, -⟩ := hagree.listed ⟨['b'], [.kafka]⟩ (by simp [kafkaAlone]) hdeclares
  cases hk

end Structor.Cluster
