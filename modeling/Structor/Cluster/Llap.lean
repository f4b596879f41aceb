import Mathlib.Data.Int.Notation
import Mathlib.Tactic.Common

/-!
# The memory of the LLAP container (`hive2_llap`, `yarn-site.erb`)

The manifest of `hive2_llap` sizes the LLAP container from the memory of the machine. The
template of `yarn-site.xml` says on its own how much memory the NodeManager hands out.

## Main definitions

* `sizing` -- the sizes that the manifest builds the LLAP package with
* `resourceMemory`, `maximumAllocation` -- the settings of `yarn-site.xml`
* `spare` -- how far the two may differ before LLAP is larger than YARN
* `Usable`, `Roomy` -- the sizes that make a working LLAP, and the machines that get them
-/
namespace Structor.Llap

/-- The part of a profile that the sizes are computed from. -/
structure Profile where
  vmMem : ℕ
  vmCpus : Option ℕ
  amMem : Option ℕ
  clientMem : Option ℕ
  extraOsMem : Option ℕ

/-- The facts of a machine. -/
structure Facts where
  vmMem : ℤ
  vmCpus : ℤ
  amMem : ℤ
  clientMem : ℤ
  extraOsMem : Option ℕ

/-- The facts that the Vagrantfile makes of a profile, with its defaults. `extraOsMem` has
no default. -/
def facts (p : Profile) : Facts where
  vmMem := p.vmMem
  vmCpus := p.vmCpus.getD 2
  amMem := p.amMem.getD 512
  clientMem := p.clientMem.getD 1024
  extraOsMem := p.extraOsMem

/-! ## The manifest -/

/-- What the manifest computes before it builds the package. -/
structure Sizing where
  yarnTotal : ℤ
  numExecutors : ℤ
  totalAmOverhead : ℤ
  fullExecutorAllotment : ℤ
  llapYarnSize : ℤ
  cacheSize : ℤ
  xmxSize : ℤ

def maxQueries : ℤ := 2

def sliderAmOverhead : ℤ := 512

def extraAllowance : ℤ := 512

def gcAntiSlop : ℤ := 512

def yarnTotal (f : Facts) : ℤ :=
  if f.vmMem ≤ 2048 then f.vmMem - 1024
  else if f.vmMem ≤ 8192 then f.vmMem - 2048
  else f.vmMem - 4096

def numExecutors (f : Facts) : ℤ := if f.vmCpus = 8 then f.vmCpus - 3 else f.vmCpus - 2

def totalAmOverhead (f : Facts) : ℤ := f.amMem * maxQueries + sliderAmOverhead

def fullExecutorAllotment (f : Facts) : ℤ := f.clientMem * numExecutors f

def llapYarnSize (f : Facts) : ℤ := yarnTotal f - totalAmOverhead f

/-- The sizing, or the message of `fail`. -/
def sizing (f : Facts) : Except String Sizing :=
  if fullExecutorAllotment f > llapYarnSize f then
    .error "Can't satisfy this VM configuration, need more memory"
  else
    .ok {
      yarnTotal := yarnTotal f
      numExecutors := numExecutors f
      totalAmOverhead := totalAmOverhead f
      fullExecutorAllotment := fullExecutorAllotment f
      llapYarnSize := llapYarnSize f
      cacheSize := llapYarnSize f - fullExecutorAllotment f - extraAllowance
      xmxSize := fullExecutorAllotment f - gcAntiSlop }

/-! ## The template -/

/-- `@extra_os_mem.to_i`: an absent fact is the empty string, which is 0. -/
def Facts.extra (f : Facts) : ℤ := f.extraOsMem.getD 0

/-- `yarn.nodemanager.resource.memory-mb` -/
def resourceMemory (f : Facts) : ℤ :=
  if f.vmMem ≤ 4096 then f.vmMem - 1024 - f.extra
  else if f.vmMem ≤ 8192 then f.vmMem - 2048 - f.extra
  else f.vmMem - 4096 - f.extra

/-- `yarn.scheduler.maximum-allocation-mb` -/
def maximumAllocation (f : Facts) : ℤ :=
  if f.vmMem ≤ 4096 then f.vmMem - 1024 - f.extra
  else if f.vmMem ≤ 8192 then f.vmMem - 2048 - f.extra
  else f.vmMem - 4096 - f.extra

/-! ## The two together -/

/-- The memory that the sizing distributes is there, and the container can be allocated. -/
structure Fits (f : Facts) (z : Sizing) : Prop where
  distributed : z.llapYarnSize + maxQueries * f.amMem + sliderAmOverhead ≤ resourceMemory f
  allocatable : z.llapYarnSize ≤ maximumAllocation f

/-- Between 2 GB and 4 GB the manifest keeps more memory back than the template does. -/
def spare (vmMem : ℕ) : ℕ := if 2048 < vmMem ∧ vmMem ≤ 4096 then 1024 else 0

theorem maximumAllocation_eq (f : Facts) : maximumAllocation f = resourceMemory f := rfl

/-- The manifest fails if the executors need more than the size of the container. -/
theorem sizing_eq_ok {f : Facts} {z : Sizing} (h : sizing f = .ok z) :
    fullExecutorAllotment f ≤ llapYarnSize f ∧ z.llapYarnSize = llapYarnSize f := by
  rw [sizing] at h
  by_cases hfail : fullExecutorAllotment f > llapYarnSize f
  · rw [if_pos hfail] at h
    cases h
  · rw [if_neg hfail] at h
    obtain rfl := Except.ok.inj h
    exact ⟨Int.not_lt.mp hfail, rfl⟩

/-- The YARN memory of the manifest exceeds that of the template by the memory kept for the
operating system, less what the manifest has to spare. -/
theorem yarnTotal_eq (p : Profile) : yarnTotal (facts p) =
    resourceMemory (facts p) + (p.extraOsMem.getD 0 : ℕ) - spare p.vmMem := by
  rw [yarnTotal, resourceMemory, spare, Facts.extra]
  simp only [facts]
  grind

/-- LLAP fits the NodeManager exactly if the memory kept for the operating system is not
more than what the manifest has to spare. -/
theorem fits_iff (p : Profile) {z : Sizing} (h : sizing (facts p) = .ok z) :
    Fits (facts p) z ↔ p.extraOsMem.getD 0 ≤ spare p.vmMem := by
  have hsize := (sizing_eq_ok h).2
  have htotal := yarnTotal_eq p
  have ham : 0 ≤ (facts p).amMem := Int.natCast_nonneg _
  rw [llapYarnSize, totalAmOverhead, maxQueries, sliderAmOverhead] at hsize
  constructor
  · intro hfits
    have hdistributed := hfits.distributed
    rw [maxQueries, sliderAmOverhead] at hdistributed
    omega
  · intro hspare
    constructor
    · rw [maxQueries, sliderAmOverhead]
      omega
    · rw [maximumAllocation_eq]
      omega

/-- The sizes of the shipped LLAP profile. -/
theorem fits_llap_profile : Fits (facts ⟨12288, some 8, some 512, some 1024, none⟩)
    { yarnTotal := 8192, numExecutors := 5, totalAmOverhead := 1536
      fullExecutorAllotment := 5120, llapYarnSize := 6656, cacheSize := 1024, xmxSize := 4608 } ↔
      0 ≤ spare 12288 :=
  fits_iff ⟨12288, some 8, some 512, some 1024, none⟩ (by rfl)

/-- The same machine with memory kept for the operating system, as the Druid profile asks. -/
theorem not_fits_extra_os_mem : ¬ ∀ p : Profile, ∀ z, sizing (facts p) = .ok z →
    Fits (facts p) z := by
  intro hall
  have hfits := hall ⟨12288, some 8, some 512, some 1024, some 4096⟩ _ rfl
  have hdistributed := hfits.distributed
  revert hdistributed
  decide

/-! ## The sizes themselves -/

/-- LLAP has an executor and a heap, and both memories are inside the container. -/
structure Usable (z : Sizing) : Prop where
  executors : 1 ≤ z.numExecutors
  cache : 0 ≤ z.cacheSize
  heap : 0 < z.xmxSize
  inside : z.cacheSize + z.xmxSize ≤ z.llapYarnSize

/-- The memory of the machine that YARN does not get. -/
def keptMem (vmMem : ℕ) : ℕ :=
  if vmMem ≤ 2048 then 1024 else if vmMem ≤ 8192 then 2048 else 4096

/-- The CPUs that are left for executors. -/
def spareCpus (vmCpus : ℕ) : ℕ := if vmCpus = 8 then 5 else vmCpus - 2

/-- The CPUs and the memory that the sizes need. The guard of the manifest asks for neither an
executor nor the two allowances of 512 MB. -/
structure Roomy (p : Profile) : Prop where
  cpus : 3 ≤ p.vmCpus.getD 2
  heap : 512 < p.clientMem.getD 1024 * spareCpus (p.vmCpus.getD 2)
  memory : p.clientMem.getD 1024 * spareCpus (p.vmCpus.getD 2) + 512 +
    (2 * p.amMem.getD 512 + 512) + keptMem p.vmMem ≤ p.vmMem

theorem yarnTotal_facts (p : Profile) : yarnTotal (facts p) = p.vmMem - keptMem p.vmMem := by
  rw [yarnTotal, keptMem]
  simp only [facts]
  grind

theorem numExecutors_facts (p : Profile) :
    1 ≤ numExecutors (facts p) ↔ 3 ≤ p.vmCpus.getD 2 := by
  rw [numExecutors]
  simp only [facts]
  grind

/-- With three CPUs or more the numbers of executors agree. -/
theorem numExecutors_eq {p : Profile} (h : 3 ≤ p.vmCpus.getD 2) :
    numExecutors (facts p) = spareCpus (p.vmCpus.getD 2) := by
  rw [numExecutors, spareCpus]
  simp only [facts]
  grind

/-- The container is divided into the cache, the heap and the two allowances. -/
theorem sizing_divides {f : Facts} {z : Sizing} (h : sizing f = .ok z) :
    z.numExecutors = numExecutors f ∧ z.llapYarnSize = llapYarnSize f ∧
      z.xmxSize = fullExecutorAllotment f - 512 ∧
      z.cacheSize + z.xmxSize = llapYarnSize f - 1024 := by
  rw [sizing] at h
  by_cases hfail : fullExecutorAllotment f > llapYarnSize f
  · rw [if_pos hfail] at h
    cases h
  · rw [if_neg hfail] at h
    obtain rfl := Except.ok.inj h
    refine ⟨rfl, rfl, rfl, ?_⟩
    simp only [extraAllowance, gcAntiSlop]
    omega

/-- The sizes are usable exactly if the machine has three CPUs, more than 512 MB for the
executors, and memory for the executors, the AMs and the allowances together. -/
theorem usable_iff (p : Profile) {z : Sizing} (h : sizing (facts p) = .ok z) :
    Usable z ↔ Roomy p := by
  obtain ⟨hexecutors, hyarn, hxmx, hsum⟩ := sizing_divides h
  have hcpus := numExecutors_facts p
  have hclient : (facts p).clientMem = p.clientMem.getD 1024 := rfl
  have ham : (facts p).amMem = p.amMem.getD 512 := rfl
  have htotal : llapYarnSize (facts p) =
      p.vmMem - keptMem p.vmMem - (p.amMem.getD 512 * 2 + 512) := by
    rw [llapYarnSize, yarnTotal_facts, totalAmOverhead, ham, maxQueries, sliderAmOverhead]
  have hallotment : 3 ≤ p.vmCpus.getD 2 → fullExecutorAllotment (facts p) =
      (p.clientMem.getD 1024 * spareCpus (p.vmCpus.getD 2) : ℕ) := by
    intro h3
    rw [fullExecutorAllotment, numExecutors_eq h3, hclient, Int.natCast_mul]
  constructor
  · rintro ⟨hone, hcache, hheap, -⟩
    rw [hexecutors, hcpus] at hone
    have hfull := hallotment hone
    refine ⟨hone, ?_, ?_⟩
    · omega
    · omega
  · rintro ⟨h3, hheap, hmemory⟩
    have hfull := hallotment h3
    refine ⟨?_, ?_, ?_, ?_⟩
    · rw [hexecutors]
      exact hcpus.mpr h3
    · omega
    · omega
    · omega

/-- The shipped LLAP profile. -/
theorem usable_llap_profile : Usable
    { yarnTotal := 8192, numExecutors := 5, totalAmOverhead := 1536
      fullExecutorAllotment := 5120, llapYarnSize := 6656, cacheSize := 1024, xmxSize := 4608 } ↔
      Roomy ⟨12288, some 8, some 512, some 1024, none⟩ :=
  usable_iff ⟨12288, some 8, some 512, some 1024, none⟩ (by rfl)

/-- The same memory on two CPUs, as is the default, leaves no executor and a negative heap. -/
theorem not_usable_two_cpus : ¬ ∀ p : Profile, 1 ≤ p.vmCpus.getD 2 → 1 ≤ p.clientMem.getD 1024 →
    ∀ z, sizing (facts p) = .ok z → Usable z := by
  intro hall
  have husable := hall ⟨12288, none, some 512, some 1024, none⟩ (by decide) (by decide) _ rfl
  have hheap := husable.heap
  revert hheap
  decide

end Structor.Llap
