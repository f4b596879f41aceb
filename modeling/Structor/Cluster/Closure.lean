import Structor.Cluster.Site

/-!
# When a node has a catalog

The site manifest compiles for a node if no function raises, if every class that is declared
has a manifest, and if the arrows are between classes that are declared.

## Main definitions

* `Closed` -- the condition on the profile and the node
* `undirected` -- the arrows whose conditions do not declare both classes
-/
namespace Structor.Cluster
open Puppet

-- The manifests are long lists, and `decide` walks through them.
set_option maxRecDepth 20000

variable {p : Profile} {node : Node} {f : Facts}

/-! ## Conditions that do not raise -/

/-- The extras are only asked for where they are given. -/
def guarded : List Cond → Bool
  | [] => true
  | .extrasGiven :: _ => true
  | .extra _ :: _ => false
  | _ :: ks => guarded ks

theorem exists_eval (hclients : f.clients.isSome = true) (hhost : f.hostname ≠ [])
    (k : Cond) (hk : (∃ e, k = .extra e) → f.extras.isSome = true) :
    ∃ t, eval f k = .ok t := by
  obtain ⟨cs, hcs⟩ := Option.isSome_iff_exists.mp hclients
  cases k with
  | security => exact ⟨_, rfl⟩
  | role r => exact ⟨_, rfl⟩
  | client c => exact ⟨_, by rw [eval, hcs]; rfl⟩
  | lastSlave => exact ⟨_, by rw [eval, islastslave, if_neg (by simpa using hhost)]⟩
  | extrasGiven => exact ⟨_, rfl⟩
  | extra e =>
      obtain ⟨es, hes⟩ := Option.isSome_iff_exists.mp (hk ⟨e, rfl⟩)
      exact ⟨_, by rw [eval, hes]; rfl⟩

theorem exists_holds_of_guarded (hclients : f.clients.isSome = true) (hhost : f.hostname ≠ [])
    {ks : List Cond} (h : guarded ks = true) : ∃ t, holds (eval f) ks = .ok t := by
  induction ks with
  | nil => exact ⟨true, rfl⟩
  | cons k ks ih =>
      by_cases hextras : f.extras.isSome = true
      · exact exists_holds fun k _ => exists_eval hclients hhost k fun _ => hextras
      · have hgiven : eval f .extrasGiven = .ok false := by
          simpa [eval] using hextras
        have hcons : guarded ks = true → (¬ ∃ e, k = .extra e) →
            ∃ t, holds (eval f) (k :: ks) = .ok t := by
          intro hks hk
          obtain ⟨t, ht⟩ := exists_eval hclients hhost k fun he => absurd he hk
          cases t with
          | false => exact ⟨false, holds_cons_of_false ht ks⟩
          | true => exact holds_cons_of_true ht ks ▸ ih hks
        cases k with
        | extrasGiven => exact ⟨false, holds_cons_of_false hgiven ks⟩
        | extra e => cases h
        | security => exact hcons h (by simp)
        | role r => exact hcons h (by simp)
        | client c => exact hcons h (by simp)
        | lastSlave => exact hcons h (by simp)

theorem guarded_site : ∀ g ∈ site, guarded g.given = true := by decide

theorem guarded_manifest {c : Cls} {b : Block Cond Cls} (hb : manifest c = some b) :
    ∀ g ∈ b, guarded g.given = true := by
  cases c <;> cases hb <;> decide

/-! ## The classes that arrows mention -/

theorem declares_hiveLlap : Declares p node .hiveLlap ↔ .hiveLlap ∈ node.roles :=
  declares_iff_role (by decide)

theorem declares_druidFlighttracker :
    Declares p node .druidFlighttracker ↔ .druidFlighttracker ∈ node.roles :=
  declares_iff_role (by decide)

theorem declares_hbaseRegionserver :
    Declares p node .hbaseRegionserver ↔ .hbaseRegionserver ∈ node.roles :=
  declares_iff_role (by decide)

theorem declares_installHdfsTarballs : Declares p node .installHdfsTarballs ↔
    node.hostname ≠ [] ∧ LastSlave p.nodes node.hostname := by
  have hways : ways .installHdfsTarballs = [[.lastSlave]] := by decide
  rw [declares_iff_ways, hways]
  simp [Profile.facts]

theorem declares_hdfsDatanode : Declares p node .hdfsDatanode ↔
    .slave ∈ node.roles ∨ node.hostname ≠ [] ∧ LastSlave p.nodes node.hostname := by
  have hways : ways .hdfsDatanode = [[.role .slave], [.lastSlave], [.lastSlave, .security]] := by
    decide
  rw [declares_iff_ways, hways]
  simp only [Profile.facts, List.mem_cons, List.not_mem_nil, or_false, exists_eq_or_imp,
    forall_eq_or_imp, exists_eq_left, forall_eq, eval_role, eval_lastSlave]
  exact or_congr_right (or_iff_left_of_imp And.left)

/-- The roles of the Druid processes. -/
def druidRoles : List Role :=
  [.druidBroker, .druidCoordinator, .druidHistorical, .druidMiddlemanager, .druidOverlord]

theorem declares_druidBase : Declares p node .druidBase ↔ ∃ r ∈ druidRoles, r ∈ node.roles := by
  have hways : ways .druidBase = druidRoles.map fun r => [.role r] := by decide
  rw [declares_iff_ways, hways]
  simp [Profile.facts]

/-- The arrows of the site manifest whose conditions do not themselves declare a class that the
arrow mentions. -/
def undirected : List (Cls × List Cond) := [
  (.hbaseRegionserver, [.lastSlave, .extrasGiven, .extra .samplePhoenixData]),
  (.hiveMeta, [.role .hiveServer2, .role .hiveLlap]),
  (.hdfsDatanode, [.client .druid, .role .druidBase]),
  (.druidBase, [.client .druid, .role .druidBase]),
  (.installHdfsTarballs, [.role .hive2Llap])]

/-- The classes that a statement orders. -/
def mentioned : Stmt Cls → List Cls
  | .declare _ => []
  | .arrow a b => [a, b]

theorem declared_or_undirected : ∀ g ∈ site, ∀ c ∈ mentioned g.stmt,
    (∃ g' ∈ site, g'.stmt = .declare c ∧ ∀ k ∈ g'.given, k ∈ g.given) ∨
      (c, g.given) ∈ undirected := by
  decide

theorem site_of_undirected : ∀ u ∈ undirected, ∃ g ∈ site, g.given = u.2 ∧
    u.1 ∈ mentioned g.stmt := by
  decide

/-- Only one class orders classes. -/
theorem manifest_arrow {c : Cls} {b : Block Cond Cls} (hb : manifest c = some b) :
    ∀ g ∈ b, ∀ d ∈ mentioned g.stmt, c = .kerberosHttp ∧ (d = .kerberosHttp ∨ d = .kerberosKdc) ∧
      .role .kdc ∈ g.given := by
  cases c <;> cases hb <;> decide

theorem ways_kerberosHttp : ∀ w ∈ ways .kerberosHttp, .security ∈ w := by decide

theorem declares_kerberosKdc : Declares p node .kerberosKdc ↔
    p.security = true ∧ .kdc ∈ node.roles := by
  have hways : ways .kerberosKdc = [[.security, .role .kdc]] := by decide
  rw [declares_iff_ways, hways]
  simp [Profile.facts]

/-- A class that an arrow mentions is declared, or the arrow is one of those that do not see
to it. -/
theorem declares_or_undirected {c : Cls} {s : Stmt Cls}
    (hs : Executes (eval (p.facts node)) manifest site s) (hc : c ∈ mentioned s) :
    Declares p node c ∨ ∃ u ∈ undirected, u.1 = c ∧
      ∀ k ∈ u.2, eval (p.facts node) k = .ok true := by
  rcases hs.inversion with ⟨g, hg, hholds, rfl⟩ | ⟨d, b, hd, hb, g, hg, hholds, rfl⟩
  · rw [holds_eq_true_iff] at hholds
    rcases declared_or_undirected g hg c hc with ⟨g', hg', hstmt, hsub⟩ | hmem
    · exact .inl (.of_stmt hg' (holds_eq_true_iff.mpr fun k hk => hholds k (hsub k hk)) hstmt)
    · exact .inr ⟨_, hmem, rfl, hholds⟩
  · rw [holds_eq_true_iff] at hholds
    obtain ⟨rfl, hcs, hkdc⟩ := manifest_arrow hb g hg c hc
    rcases hcs with rfl | rfl
    · exact .inl hd
    · obtain ⟨w, hw, hall⟩ := declares_iff_ways.mp hd
      exact .inl (declares_kerberosKdc.mpr ⟨eval_security.mp (hall _ (ways_kerberosHttp w hw)),
        eval_role.mp (hholds _ hkdc)⟩)

/-! ## The catalog -/

/-- The condition under which the site manifest compiles for a node. -/
structure Closed (p : Profile) (node : Node) : Prop where
  clients : p.clients.isSome = true
  hostname : node.hostname ≠ []
  hiveLlap : .hiveLlap ∉ node.roles
  druidFlighttracker : .druidFlighttracker ∉ node.roles
  hive2Llap : .hive2Llap ∈ node.roles → LastSlave p.nodes node.hostname
  samplePhoenixData : LastSlave p.nodes node.hostname → Lists p.extras .samplePhoenixData →
    .hbaseRegionserver ∈ node.roles
  druid : Lists p.clients .druid → .druidBase ∈ node.roles →
    (.slave ∈ node.roles ∨ LastSlave p.nodes node.hostname) ∧ ∃ r ∈ druidRoles, r ∈ node.roles

/-- The classes that the arrows do not see to are declared. -/
theorem Closed.declares_undirected (h : Closed p node) :
    ∀ u ∈ undirected, (∀ k ∈ u.2, eval (p.facts node) k = .ok true) → Declares p node u.1 := by
  simp only [undirected, List.forall_mem_cons]
  refine ⟨?_, ?_, ?_, ?_, ?_, by simp⟩
  · rintro ⟨hlast, -, hextra, -⟩
    exact declares_hbaseRegionserver.mpr
      (h.samplePhoenixData (eval_lastSlave.mp hlast).2 (eval_extra.mp hextra))
  · rintro ⟨-, hllap, -⟩
    exact absurd (eval_role.mp hllap) h.hiveLlap
  · rintro ⟨hclient, hbase, -⟩
    obtain ⟨hslave, -⟩ := h.druid (eval_client.mp hclient) (eval_role.mp hbase)
    exact declares_hdfsDatanode.mpr (hslave.imp_right fun hlast => ⟨h.hostname, hlast⟩)
  · rintro ⟨hclient, hbase, -⟩
    exact declares_druidBase.mpr (h.druid (eval_client.mp hclient) (eval_role.mp hbase)).2
  · rintro ⟨hllap, -⟩
    exact declares_installHdfsTarballs.mpr ⟨h.hostname, h.hive2Llap (eval_role.mp hllap)⟩

theorem Closed.exists_run (h : Closed p node) :
    ∃ out, run (eval (p.facts node)) manifest 100 site = .ok out := by
  have hholds : ∀ g : Guarded Cond Cls, guarded g.given = true →
      ∃ t, holds (eval (p.facts node)) g.given = .ok t := fun g hg =>
    exists_holds_of_guarded (f := p.facts node) h.clients h.hostname hg
  refine Puppet.exists_run ranked_manifest below_site (fun g hg => hholds g (guarded_site g hg)) ?_
  intro c hc
  cases hb : manifest c with
  | some b => exact ⟨b, rfl, fun g hg => hholds g (guarded_manifest hb g hg)⟩
  | none =>
      exfalso
      have hmissing : c = .hiveLlap ∨ c = .druidFlighttracker := by
        revert hb
        cases c <;> decide
      rcases hmissing with rfl | rfl
      · exact h.hiveLlap (declares_hiveLlap.mp hc)
      · exact h.druidFlighttracker (declares_druidFlighttracker.mp hc)

/-- In a catalog whose arrows are satisfied the classes that the arrows do not see to are
declared too. -/
theorem declares_of_arrows
    (harrows : ∀ a b, Executes (eval (p.facts node)) manifest site (.arrow a b) →
      Declares p node a ∧ Declares p node b) {u : Cls × List Cond} (hu : u ∈ undirected)
    (hall : ∀ k ∈ u.2, eval (p.facts node) k = .ok true) : Declares p node u.1 := by
  obtain ⟨g, hg, hgiven, hmentioned⟩ := site_of_undirected u hu
  have hs : Executes (eval (p.facts node)) manifest site g.stmt :=
    .here hg (holds_eq_true_iff.mpr (hgiven ▸ hall))
  cases hstmt : g.stmt with
  | declare c => simp [hstmt, mentioned] at hmentioned
  | arrow a b =>
      obtain ⟨ha, hb⟩ := harrows a b (hstmt ▸ hs)
      simp only [hstmt, mentioned, List.mem_cons, List.not_mem_nil, or_false] at hmentioned
      rcases hmentioned with heq | heq
      · exact heq ▸ ha
      · exact heq ▸ hb

/-- Where the site manifest runs, the first conditions of these arrows do not raise. -/
theorem exists_eval_of_run {out : List (Stmt Cls)}
    (h : run (eval (p.facts node)) manifest 100 site = .ok out) {k : Cond}
    (hk : ∃ u ∈ undirected, u.2.head? = some k) : ∃ t, eval (p.facts node) k = .ok t := by
  obtain ⟨u, hu, hhead⟩ := hk
  obtain ⟨ks, hks⟩ := List.head?_eq_some_iff.mp hhead
  obtain ⟨g, hg, hgiven, -⟩ := site_of_undirected u hu
  obtain ⟨t, ht⟩ := exists_holds_of_run h g hg
  rw [hgiven, hks] at ht
  exact exists_eval_of_holds ht

/-- The site manifest compiles for a node exactly under the condition. -/
theorem exists_catalog_iff (p : Profile) (node : Node) :
    (∃ cs, catalog p node = .ok cs) ↔ Closed p node := by
  rw [catalog, exists_compile_iff]
  constructor
  · rintro ⟨⟨out, hrun⟩, harrows⟩
    have hhost : node.hostname ≠ [] := by
      obtain ⟨t, ht⟩ := exists_eval_of_run hrun (k := .lastSlave) (by decide)
      intro hnil
      simp [eval, islastslave, Profile.facts, hnil] at ht
    have hlast : LastSlave p.nodes node.hostname →
        eval (p.facts node) .lastSlave = .ok true := fun hlast =>
      eval_lastSlave.mpr ⟨hhost, hlast⟩
    constructor
    · obtain ⟨t, ht⟩ := exists_eval_of_run hrun (k := .client .druid) (by decide)
      cases hclients : p.clients with
      | none => simp [eval, hasrole, Profile.facts, hclients] at ht
      | some cs => rfl
    · exact hhost
    · intro hrole
      obtain ⟨b, hb⟩ := exists_manifest_of_run hrun (declares_hiveLlap.mpr hrole)
      cases hb
    · intro hrole
      obtain ⟨b, hb⟩ := exists_manifest_of_run hrun (declares_druidFlighttracker.mpr hrole)
      cases hb
    · intro hrole
      have hdeclares := declares_of_arrows harrows
        (u := (.installHdfsTarballs, [.role .hive2Llap])) (by simp [undirected])
        (by simpa using eval_role.mpr hrole)
      exact (declares_installHdfsTarballs.mp hdeclares).2
    · intro hslave hextra
      have hgiven : eval (p.facts node) .extrasGiven = .ok true := by
        obtain ⟨es, hes, -⟩ := hextra
        exact eval_extrasGiven.mpr (Option.isSome_iff_exists.mpr ⟨es, hes⟩)
      have hall : ∀ k ∈ [Cond.lastSlave, .extrasGiven, .extra .samplePhoenixData],
          eval (p.facts node) k = .ok true := by
        simp only [List.forall_mem_cons]
        exact ⟨hlast hslave, hgiven, eval_extra.mpr hextra, by simp⟩
      have hdeclares := declares_of_arrows harrows
        (u := (.hbaseRegionserver, [.lastSlave, .extrasGiven, .extra .samplePhoenixData]))
        (by simp [undirected]) hall
      exact declares_hbaseRegionserver.mp hdeclares
    · intro hclient hbase
      have hall : ∀ k ∈ [Cond.client .druid, .role .druidBase],
          eval (p.facts node) k = .ok true := by
        simp only [List.forall_mem_cons]
        exact ⟨eval_client.mpr hclient, eval_role.mpr hbase, by simp⟩
      have hdatanode := declares_of_arrows harrows
        (u := (.hdfsDatanode, [.client .druid, .role .druidBase])) (by simp [undirected]) hall
      have hdruid := declares_of_arrows harrows
        (u := (.druidBase, [.client .druid, .role .druidBase])) (by simp [undirected]) hall
      exact ⟨(declares_hdfsDatanode.mp hdatanode).imp_right And.right,
        declares_druidBase.mp hdruid⟩
  · intro h
    refine ⟨h.exists_run, fun a b hab => ?_⟩
    have hdeclares : ∀ c ∈ mentioned (.arrow a b), Declares p node c := by
      intro c hc
      rcases declares_or_undirected hab hc with hdeclares | ⟨u, hu, rfl, hall⟩
      · exact hdeclares
      · exact h.declares_undirected u hu hall
    exact ⟨hdeclares a (by simp [mentioned]), hdeclares b (by simp [mentioned])⟩

/-- A node with the role `hive-llap`, whose class no module defines. -/
def hiveLlapNode : Node := ⟨['a'], [.client, .hiveLlap]⟩

def hiveLlapProfile : Profile where
  domain := ['d']
  security := false
  clients := some [.hdfs]
  extras := none
  nodes := [hiveLlapNode]

theorem hiveLlap_no_catalog : ¬ ∃ cs, catalog hiveLlapProfile hiveLlapNode = .ok cs := by
  rw [catalog, exists_compile_iff]
  rintro ⟨⟨out, hrun⟩, -⟩
  have hdeclares : Declares hiveLlapProfile hiveLlapNode .hiveLlap :=
    declares_hiveLlap.mpr (by decide)
  obtain ⟨b, hb⟩ := exists_manifest_of_run hrun hdeclares
  cases hb

end Structor.Cluster
