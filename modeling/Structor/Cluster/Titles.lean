import Structor.Cluster.Resources
import Structor.SymbolicText

/-!
# The titles of all classes

A title is a symbolic text whose variables stand for the facts. The titles of all resources of
all classes are sorted, once for every machine and profile: only the resources of a few pairs of
classes can have one title.

## Main definitions

* `Resource.shape` -- the symbolic text of a type and title
* `items` -- the resources of all classes
* `clashes` -- the pairs of classes that declare one resource
-/
namespace Structor.Cluster
open SymbolicText

/-! ## Titles as symbolic texts -/

/-- The facts in titles. A release is what follows the beginning that is known. -/
inductive Variable where
  | domain | hdpVersion | hiveOptions | hostname | javaRelease | packageRelease
deriving DecidableEq

def Variable.value (m : Machine) (f : Facts) : Variable → Str
  | .domain => f.domain
  | .hdpVersion => m.hdpVersion
  | .hiveOptions => m.hiveOptions.getD []
  | .hostname => f.hostname
  | .javaRelease => m.javaVersion.drop java.length
  | .packageRelease => m.packageVersion.tail

def letter (c : Char) : Symbol Variable := .letter c.toNat

/-- The symbolic text of a part of a title, on Ubuntu or elsewhere. -/
def Piece.shape (ubuntu : Bool) : Piece → Symbolic Variable
  | .text s => letters s
  | .domain => [.var .domain]
  | .hdpVersion => [.var .hdpVersion]
  | .hiveOptions => [.var .hiveOptions]
  | .hostname => [.var .hostname]
  | .javaVersion => letters "java-" ++ [.var .javaRelease]
  | .packageVersion => [.letter (bif ubuntu then '-' else '_').toNat, .var .packageRelease]
  | .startScriptPath => letters (bif ubuntu then "init.d" else "rc.d/init.d")

def Piece.dependsOnOs : Piece → Bool
  | .packageVersion => true
  | .startScriptPath => true
  | _ => false

/-- The type is the first letter. -/
def Resource.shape (ubuntu : Bool) (r : Resource) : Symbolic Variable :=
  .letter r.kind.ctorIdx :: r.title.flatMap (Piece.shape ubuntu)

/-- Versions consist of digits, dots, hyphens and underscores. -/
def limit : Variable → Option ℕ
  | .hdpVersion => some '9'.toNat
  | .packageRelease => some '_'.toNat
  | _ => none

variable {m : Machine} {f : Facts}

/-- The letters of the facts. -/
def valuation (m : Machine) (f : Facts) (v : Variable) : List ℕ := encode (v.value m f)

theorem Machine.javaVersion_eq (m : Machine) :
    m.javaVersion = java ++ m.javaVersion.drop java.length :=
  (List.prefix_iff_eq_append.mp m.javaVersion_java).symm

/-- The mark of a package version. -/
theorem Machine.packageVersion_eq (m : Machine) :
    m.packageVersion = (bif m.os.isUbuntu then '-' else '_') :: m.packageVersion.tail := by
  cases h : m.os.isUbuntu <;> simp [Machine.packageVersion, h]

theorem Machine.toNat_le_of_mem_hdpVersion (m : Machine) {c : Char} (hc : c ∈ m.hdpVersion) :
    c.toNat ≤ '9'.toNat := by
  rcases m.hdpVersion_digits c hc with rfl | rfl | hdigit
  · decide
  · decide
  · exact (Char.isDigit_iff_toNat.mp hdigit).2

theorem Machine.toNat_le_of_mem_packageVersion (m : Machine) {c : Char}
    (hc : c ∈ m.packageVersion.tail) : c.toNat ≤ '_'.toNat := by
  obtain ⟨c', hc', rfl⟩ := List.mem_map.mp hc
  have hle : c'.toNat ≤ 57 := m.toNat_le_of_mem_hdpVersion hc'
  split
  · cases m.os.isUbuntu <;> decide
  · exact Nat.le_trans hle (by decide)

theorem limited_valuation : Limited limit (valuation m f) := by
  intro v b hb
  cases v with
  | hdpVersion =>
      cases hb
      apply le_of_mem_encode (by decide)
      intro c hc
      exact m.toNat_le_of_mem_hdpVersion hc
  | packageRelease =>
      cases hb
      apply le_of_mem_encode (by decide)
      intro c hc
      exact m.toNat_le_of_mem_packageVersion hc
  | _ => cases hb

theorem Piece.encode_value (x : Piece) :
    encode (x.value m f) = render (valuation m f) (x.shape m.os.isUbuntu) := by
  cases x with
  | text s => rw [Piece.value, Piece.shape, render_letters]
  | javaVersion =>
      rw [Piece.value, Piece.shape, m.javaVersion_eq, encode_append, render_append, render_letters]
      simp [render, Symbol.render, valuation, Variable.value, java]
  | packageVersion =>
      rw [Piece.value, Piece.shape, m.packageVersion_eq, encode_cons]
      · simp [render, Symbol.render, valuation, Variable.value]
      · cases m.os.isUbuntu <;> decide
  | startScriptPath =>
      rw [Piece.value, Piece.shape, render_letters, Machine.platformStartScriptPath]
      cases m.os.isUbuntu <;> rfl
  | _ => simp [Piece.value, Piece.shape, render, Symbol.render, valuation, Variable.value]

theorem Resource.encode_title (r : Resource) :
    r.kind.ctorIdx :: encode (r.name m f).2 =
      render (valuation m f) (r.shape m.os.isUbuntu) := by
  rw [Resource.shape, render_cons, Resource.name, encode_flatMap]
  simp only [Piece.encode_value, render, Symbol.render, List.flatMap_assoc, List.singleton_append]

/-- Resources of one type and title have texts that are rendered alike. -/
theorem render_shape_eq {r r' : Resource} (h : r.name m f = r'.name m f) :
    render (valuation m f) (r.shape m.os.isUbuntu) =
      render (valuation m f) (r'.shape m.os.isUbuntu) := by
  have hkind : r.kind = r'.kind := congrArg Prod.fst h
  rw [← r.encode_title, ← r'.encode_title, h, hkind]

/-! ## The resources of all classes -/

structure Owner where
  cls : Cls
  tests : List Test

/-- A resource with a title that depends on the operating system stands for two. -/
def Declaration.items (c : Cls) (d : Declaration) : List (Symbolic Variable × Owner) :=
  bif d.resource.title.any Piece.dependsOnOs then
    [(d.resource.shape false, ⟨c, .is .centos :: d.tests⟩),
      (d.resource.shape true, ⟨c, .is .ubuntu :: d.tests⟩)]
  else [(d.resource.shape false, ⟨c, d.tests⟩)]

def allClasses : List Cls := (List.range 88).map Cls.ofNat

def items : List (Symbolic Variable × Owner) :=
  allClasses.flatMap fun c => (resources c).flatMap (Declaration.items c)

/-- Two classes that declare one resource where the tests pass. -/
structure Clash where
  first : Cls
  second : Cls
  tests : List Test
  resource : Resource

def clashes : List Clash := [
  ⟨.hiveMeta, .hive2Meta, [], exec ["Hive 2 Schema"]⟩,
  ⟨.tezUi, .oozieServer, [.is .ubuntu], package ["unzip"]⟩,
  ⟨.odbcClient, .odbcPhoenix, [.is .centos], package ["unixODBC"]⟩,
  ⟨.odbcClient, .superset, [.is .centos], package ["epel-release"]⟩,
  ⟨.odbcPhoenix, .superset, [.is .centos], package ["epel-release"]⟩,
  ⟨.sampleAirlineData, .sampleHiveData, [.is .security], exec ["kinit vagrant"]⟩,
  ⟨.samplePhoenixData, .hbaseAuthorization, [.is .security],
    exec ["kinit -k -t /etc/security/hadoop/hbase.keytab hbase/", .hostname, ".", .domain]⟩]

/-- The clash is between the two classes, one way or the other, under tests that they have. -/
def Clash.covers (x : Clash) (a b : Owner) : Bool :=
  (decide (x.first = a.cls ∧ x.second = b.cls) || decide (x.first = b.cls ∧ x.second = a.cls)) &&
    x.tests.all fun t => a.tests.contains t || b.tests.contains t

def related (a b : Owner) : Bool := decide (a.cls = b.cls) || clashes.any fun x => x.covers a b

/-! ## Clashes -/

theorem mem_allClasses (c : Cls) : c ∈ allClasses := by
  refine List.mem_map.mpr ⟨c.ctorIdx, ?_, Cls.ofNat_ctorIdx c⟩
  cases c <;> decide

theorem Piece.shape_of_not_dependsOnOs {x : Piece} (h : x.dependsOnOs = false) (ubuntu : Bool) :
    x.shape ubuntu = x.shape false := by
  cases x <;> first | rfl | cases h

theorem Resource.shape_of_not_dependsOnOs {r : Resource}
    (h : r.title.any Piece.dependsOnOs = false) (ubuntu : Bool) :
    r.shape ubuntu = r.shape false := by
  rw [Resource.shape, Resource.shape]
  congr 1
  rw [List.any_eq_false] at h
  apply List.flatMap_congr
  intro x hx
  exact Piece.shape_of_not_dependsOnOs (by simpa using h x hx) ubuntu

/-- A resource that a class declares is an item, with tests that pass. -/
theorem exists_item {c : Cls} {d : Declaration} (hd : d ∈ resources c)
    (hpass : d.tests.all (Test.passes m f) = true) :
    ∃ o : Owner, (d.resource.shape m.os.isUbuntu, o) ∈ items ∧ o.cls = c ∧
      ∀ t ∈ o.tests, t.passes m f = true := by
  rw [List.all_eq_true] at hpass
  have hitems : ∀ x ∈ d.items c, x ∈ items := fun x hx =>
    List.mem_flatMap.mpr ⟨c, mem_allClasses c, List.mem_flatMap.mpr ⟨d, hd, hx⟩⟩
  cases hos : d.resource.title.any Piece.dependsOnOs with
  | false =>
      refine ⟨⟨c, d.tests⟩, hitems _ ?_, rfl, hpass⟩
      rw [d.resource.shape_of_not_dependsOnOs hos, Declaration.items, hos]
      exact List.mem_singleton_self _
  | true =>
      rw [Declaration.items, hos] at hitems
      cases hubuntu : m.os.isUbuntu with
      | false =>
          refine ⟨⟨c, .is .centos :: d.tests⟩, hitems _ List.mem_cons_self, rfl, ?_⟩
          rw [List.forall_mem_cons]
          exact ⟨by simp [Test.passes, Fact.given, hubuntu], hpass⟩
      | true =>
          refine ⟨⟨c, .is .ubuntu :: d.tests⟩, hitems _ ?_, rfl, ?_⟩
          · exact List.mem_cons_of_mem _ List.mem_cons_self
          · rw [List.forall_mem_cons]
            exact ⟨by simp [Test.passes, Fact.given, hubuntu], hpass⟩

/-- The titles of all classes are sorted. -/
theorem apart_items : Apart limit related items = true := by decide +kernel

/-- Two classes that declare one resource are a clash whose tests pass. -/
theorem exists_clash {c c' : Cls} (hne : c ≠ c') {d d' : Declaration} (hd : d ∈ resources c)
    (hd' : d' ∈ resources c') (hpass : d.tests.all (Test.passes m f) = true)
    (hpass' : d'.tests.all (Test.passes m f) = true)
    (hname : d.resource.name m f = d'.resource.name m f) :
    ∃ x ∈ clashes, (x.first = c ∧ x.second = c' ∨ x.first = c' ∧ x.second = c) ∧
      ∀ t ∈ x.tests, t.passes m f = true := by
  obtain ⟨o, ho, rfl, htests⟩ := exists_item hd hpass
  obtain ⟨o', ho', rfl, htests'⟩ := exists_item hd' hpass'
  have hrelated : related o o' = true :=
    related_of_render_eq limited_valuation apart_items ho ho' (render_shape_eq hname)
  rw [related, Bool.or_eq_true, decide_eq_true_eq, List.any_eq_true] at hrelated
  obtain ⟨x, hx, hcovers⟩ := hrelated.resolve_left hne
  simp only [Clash.covers, Bool.and_eq_true, Bool.or_eq_true, decide_eq_true_eq, List.all_eq_true,
    List.contains_iff_mem] at hcovers
  refine ⟨x, hx, hcovers.1, ?_⟩
  intro t ht
  rcases hcovers.2 t ht with hmem | hmem
  · exact htests t hmem
  · exact htests' t hmem

end Structor.Cluster
