import Structor.Cluster.Titles

/-!
# Duplicate resources

Puppet rejects a catalog in which two resources have one type and title. Some classes declare
the same package or command, and no manifest keeps them apart.

## Main definitions

* `Clash.Occurs` -- both classes of a clash are in the catalog
* `Separate` -- no two classes that share a resource are declared together
-/
namespace Structor.Cluster

set_option maxRecDepth 20000

variable {m : Machine} {p : Profile} {node : Node}

/-! ## Shared resources -/

theorem mem_declared {f : Facts} {c : Cls} {x : Kind × Str} :
    x ∈ declared m f c ↔ ∃ d ∈ resources c, d.tests.all (Test.passes m f) = true ∧
      d.resource.name m f = x := by
  simp only [declared, List.mem_map, List.mem_filter, and_assoc]

/-- Both classes of a clash are in the catalog, and its tests pass. -/
def Clash.Occurs (m : Machine) (p : Profile) (node : Node) (x : Clash) : Prop :=
  Declares p node x.first ∧ Declares p node x.second ∧
    ∀ t ∈ x.tests, t.passes m (p.facts node) = true

/-- The class declares the resource of the clash where the tests of the clash pass. -/
def Clash.Shares (x : Clash) (c : Cls) : Prop :=
  ∃ d ∈ resources c, d.tests ⊆ x.tests ∧ d.resource = x.resource

/-- Both classes of a clash declare its resource. -/
theorem shares_of_mem_clashes : ∀ x ∈ clashes, x.Shares x.first ∧ x.Shares x.second := by
  simp only [clashes, List.forall_mem_cons]
  refine ⟨⟨?_, ?_⟩, ⟨?_, ?_⟩, ⟨?_, ?_⟩, ⟨?_, ?_⟩, ⟨?_, ?_⟩, ⟨?_, ?_⟩, ⟨?_, ?_⟩, by simp⟩ <;>
    simp [Clash.Shares, resources, given, always, exec, package, file, service]

/-- There are duplicates exactly where a clash occurs. -/
theorem noDuplicates_iff_clashes : NoDuplicates m p node ↔ ∀ x ∈ clashes, ¬ x.Occurs m p node := by
  constructor
  · intro h x hx hoccurs
    obtain ⟨hfirst, hsecond, htests⟩ := hoccurs
    have hne : ∀ x ∈ clashes, x.first ≠ x.second := by decide
    have hdeclared : ∀ c, x.Shares c →
        x.resource.name m (p.facts node) ∈ declared m (p.facts node) c := by
      rintro c ⟨d, hd, hsubset, hresource⟩
      rw [mem_declared]
      refine ⟨d, hd, ?_, by rw [hresource]⟩
      rw [List.all_eq_true]
      intro t ht
      exact htests t (hsubset ht)
    obtain ⟨hshares, hshares'⟩ := shares_of_mem_clashes x hx
    exact h x.first x.second hfirst hsecond (hne x hx) _ (hdeclared _ hshares)
      (hdeclared _ hshares')
  · intro h c c' hc hc' hne name hname hname'
    obtain ⟨d, hd, hpass, rfl⟩ := mem_declared.mp hname
    obtain ⟨d', hd', hpass', hsame⟩ := mem_declared.mp hname'
    obtain ⟨x, hx, hclasses, htests⟩ := exists_clash hne hd hd' hpass hpass' hsame.symm
    apply h x hx
    rcases hclasses with ⟨rfl, rfl⟩ | ⟨rfl, rfl⟩
    · exact ⟨hc, hc', htests⟩
    · exact ⟨hc', hc, htests⟩

/-! ## When classes are declared together -/

theorem declares_iff_way {c : Cls} {w : List Cond} (h : ways c = [w]) :
    Declares p node c ↔ ∀ k ∈ w, eval (p.facts node) k = .ok true := by
  simp only [declares_iff_ways, h, List.mem_singleton, exists_eq_left]

/-- The classes with one resource are not declared together. -/
structure Separate (m : Machine) (p : Profile) (node : Node) : Prop where
  hiveMeta : ¬ (.hiveMeta ∈ node.roles ∧ .hive2Meta ∈ node.roles)
  tezUi : m.os.isUbuntu = true → ¬ (.tezUi ∈ node.roles ∧ .oozie ∈ node.roles)
  odbc : m.os.isUbuntu = false → .client ∈ node.roles →
    ¬ (Lists p.clients .odbc ∧ Lists p.clients .odbcPhoenix)
  superset : m.os.isUbuntu = false → .client ∈ node.roles → .superset ∈ node.roles →
    ¬ Lists p.clients .odbc ∧ ¬ Lists p.clients .odbcPhoenix
  samples : p.security = true → islastslave p.nodes node.hostname = .ok true →
    ¬ (Lists p.extras .sampleAirlineData ∧ Lists p.extras .sampleHiveData)
  phoenix : p.security = true → islastslave p.nodes node.hostname = .ok true →
    Lists p.extras .samplePhoenixData → .phoenixQueryServer ∉ node.roles

theorem declares_odbcClient :
    Declares p node .odbcClient ↔ .client ∈ node.roles ∧ Lists p.clients .odbc := by
  rw [declares_iff_way (w := [.role .client, .client .odbc]) (by decide)]
  simp [Profile.facts]

theorem declares_odbcPhoenix :
    Declares p node .odbcPhoenix ↔ .client ∈ node.roles ∧ Lists p.clients .odbcPhoenix := by
  rw [declares_iff_way (w := [.role .client, .client .odbcPhoenix]) (by decide)]
  simp [Profile.facts]

theorem declares_hbaseAuthorization :
    Declares p node .hbaseAuthorization ↔
      .phoenixQueryServer ∈ node.roles ∧ p.security = true := by
  rw [declares_iff_way (w := [.role .phoenixQueryServer, .security]) (by decide)]
  simp [Profile.facts]

/-- The classes of the extras, on the last slave. -/
theorem declares_iff_extra {c : Cls} {e : Extra}
    (h : ways c = [[.lastSlave, .extrasGiven, .extra e]]) :
    Declares p node c ↔ islastslave p.nodes node.hostname = .ok true ∧ Lists p.extras e := by
  rw [declares_iff_way h]
  have hgiven : Lists p.extras e → p.extras.isSome = true := by
    intro hlists
    obtain ⟨l, hl, -⟩ := hlists
    rw [hl]
    rfl
  simp only [List.forall_mem_cons, List.not_mem_nil, false_implies, implies_true, and_true,
    eval_extrasGiven, eval_extra]
  exact ⟨fun h => ⟨h.1, h.2.2⟩, fun h => ⟨h.1, hgiven h.2, h.2⟩⟩

/-- No two classes of a catalog declare one resource exactly under the condition. -/
theorem noDuplicates_iff (m : Machine) (p : Profile) (node : Node) :
    NoDuplicates m p node ↔ Separate m p node := by
  rw [noDuplicates_iff_clashes]
  simp only [clashes, List.forall_mem_cons, List.not_mem_nil, false_implies, implies_true,
    and_true, Clash.Occurs, Test.passes, Fact.given, Bool.not_eq_true',
    declares_iff_role (c := .hiveMeta) (r := .hiveMeta) (by decide),
    declares_iff_role (c := .hive2Meta) (r := .hive2Meta) (by decide),
    declares_iff_role (c := .tezUi) (r := .tezUi) (by decide),
    declares_iff_role (c := .oozieServer) (r := .oozie) (by decide),
    declares_iff_role (c := .superset) (r := .superset) (by decide),
    declares_iff_extra (c := .sampleAirlineData) (e := .sampleAirlineData) (by decide),
    declares_iff_extra (c := .sampleHiveData) (e := .sampleHiveData) (by decide),
    declares_iff_extra (c := .samplePhoenixData) (e := .samplePhoenixData) (by decide),
    declares_odbcClient, declares_odbcPhoenix, declares_hbaseAuthorization]
  constructor
  · intro h
    obtain ⟨hmeta, htez, hodbc, hsuperset, hsuperset', hsamples, hphoenix⟩ := h
    constructor
    · exact hmeta
    · intro hos h
      exact htez ⟨h.1, h.2, hos⟩
    · intro hos hclient h
      exact hodbc ⟨⟨hclient, h.1⟩, ⟨hclient, h.2⟩, hos⟩
    · intro hos hclient hrole
      exact ⟨fun h => hsuperset ⟨⟨hclient, h⟩, hrole, hos⟩,
        fun h => hsuperset' ⟨⟨hclient, h⟩, hrole, hos⟩⟩
    · intro hsecurity hlast h
      exact hsamples ⟨⟨hlast, h.1⟩, ⟨hlast, h.2⟩, hsecurity⟩
    · intro hsecurity hlast h hrole
      exact hphoenix ⟨⟨hlast, h⟩, ⟨hrole, hsecurity⟩, hsecurity⟩
  · intro h
    refine ⟨h.hiveMeta, ?_, ?_, ?_, ?_, ?_, ?_⟩
    · rintro ⟨hrole, hrole', hos⟩
      exact h.tezUi hos ⟨hrole, hrole'⟩
    · rintro ⟨⟨hclient, hodbc⟩, ⟨-, hphoenix⟩, hos⟩
      exact h.odbc hos hclient ⟨hodbc, hphoenix⟩
    · rintro ⟨⟨hclient, hodbc⟩, hrole, hos⟩
      exact (h.superset hos hclient hrole).1 hodbc
    · rintro ⟨⟨hclient, hphoenix⟩, hrole, hos⟩
      exact (h.superset hos hclient hrole).2 hphoenix
    · rintro ⟨⟨hlast, hairline⟩, ⟨-, hhive⟩, hsecurity⟩
      exact h.samples hsecurity hlast ⟨hairline, hhive⟩
    · rintro ⟨⟨hlast, hextra⟩, ⟨hrole, hsecurity⟩, -⟩
      exact h.phoenix hsecurity hlast hextra hrole

/-- Both metastores on one node. -/
theorem bothMetastores_duplicates :
    ¬ NoDuplicates
      { os := .centos6, hdpVersion := ['2', '.', '6', '.', '3'], hdpVersion_digits := by simp,
        hdpVersionMajor := 2, hdpVersionMinor := 6, hdpVersionPatch := 3,
        javaVersion := java ++ "1.8.0-openjdk".toList, javaVersion_java := List.prefix_append _ _,
        ambariUnstable := false, hiveOptions := none, hdfsClientBefore := fun _ => false }
      ⟨"example.com", false, some [], some [], [⟨"nn", [.hiveMeta, .hive2Meta]⟩]⟩
      ⟨"nn", [.hiveMeta, .hive2Meta]⟩ := by
  rw [noDuplicates_iff_clashes]
  intro h
  apply h _ List.mem_cons_self
  refine ⟨?_, ?_, by simp⟩
  · rw [declares_iff_role (r := .hiveMeta) (by decide)]
    decide
  · rw [declares_iff_role (r := .hive2Meta) (by decide)]
    decide

end Structor.Cluster
