import Mathlib.Algebra.Order.Field.Rat
import Mathlib.Data.List.Chain
import Mathlib.Tactic.Linarith
import Mathlib.Tactic.FieldSimp
import Structor.Profile.OfflineView

/-!
# Utilisation of the threads (`VMOfflineView`)

A call of `printView` reads the uptime of the JVM and the CPU times of its threads. `VMInfo`
keeps how much the uptime has grown, the view keeps the CPU times of the previous call, and
the utilisation of a thread is the quotient of the two differences.

## Main definitions

* `Sample` -- what a call reads from the JVM
* `updateInternal`, `printTopThreads`, `printView` -- a call
* `measured` -- the CPU time that each thread has used between two calls
* `OwnInterval`, `TopReported` -- what a call should compute and report
* `MeasuredOver` -- the interval that the uptime was last measured over
-/
namespace Structor.Profile

structure StackTraceElement where
  className : Str
  methodName : Str
  lineNumber : ℤ

structure ThreadInfo where
  threadName : Str
  blockedCount : ℤ
  inNative : Bool
  stackTrace : List StackTraceElement

/-- What the JVM tells at one moment. The threads have different ids. -/
structure Sample where
  uptime : ℤ
  processCpuTime : ℤ
  collectionTimes : List ℤ
  /-- The id and the CPU time of each thread. -/
  threads : List (ℤ × ℤ)
  threads_nodup : (threads.map Prod.fst).Nodup
  threadInfo : ℤ → Option ThreadInfo

/-! ## The metrics of the JVM -/

structure VMInfo where
  lastUpTime : ℤ
  lastCPUTime : ℤ
  lastGcTime : ℤ
  deltaUptime : ℤ
  deltaCpuTime : ℤ
  deltaGcTime : ℤ

def VMInfo.new : VMInfo where
  lastUpTime := -1
  lastCPUTime := -1
  lastGcTime := 0
  deltaUptime := 0
  deltaCpuTime := 0
  deltaGcTime := 0

def sumGCTimes (s : Sample) : ℤ := s.collectionTimes.sum

def updateInternal (v : VMInfo) (s : Sample) : VMInfo :=
  let gcTime := sumGCTimes s
  let v :=
    if v.lastUpTime > 0 ∧ v.lastCPUTime > 0 ∧ gcTime > 0 then
      { v with
        deltaUptime := s.uptime - v.lastUpTime
        deltaCpuTime := (s.processCpuTime - v.lastCPUTime).tdiv 1000000
        deltaGcTime := gcTime - v.lastGcTime }
    else v
  { v with lastUpTime := s.uptime, lastCPUTime := s.processCpuTime, lastGcTime := gcTime }

/-! ## The threads -/

/-- The view of a JVM, with the CPU times of the previous call. -/
structure View where
  vmInfo : VMInfo
  previousThreadCPUMillis : List (ℤ × ℤ)

def numberOfDisplayedThreads : ℕ := 16

/-- A thread in the map of differences, if it was there at the previous call, and in the map
of CPU times. -/
def addThread (previousThreadCPUMillis : List (ℤ × ℤ)) (maps : List (ℤ × ℤ) × List (ℤ × ℤ))
    (thread : ℤ × ℤ) : List (ℤ × ℤ) × List (ℤ × ℤ) :=
  let cpuTimeMap :=
    match Keyed.get Prod.fst thread.1 previousThreadCPUMillis with
    | some previous => Keyed.put Prod.fst (thread.1, thread.2 - previous.2) maps.1
    | none => maps.1
  (cpuTimeMap, Keyed.put Prod.fst thread maps.2)

/-- The entries of a `TreeMap`. -/
def entrySet (map : List (ℤ × ℤ)) : List (ℤ × ℤ) := map.mergeSort fun a b => a.1 ≤ b.1

def sortByValue (map : List (ℤ × ℤ)) (reverse : Bool) : List (ℤ × ℤ) :=
  let list := map.mergeSort fun a b => a.2 ≤ b.2
  if reverse then list.reverse else list

/-- In per cent, of nanoseconds and milliseconds. -/
def getThreadCPUUtilization (deltaThreadCpuTime totalTime : ℤ) : ℚ :=
  if totalTime = 0 then 0 else deltaThreadCpuTime / 1000000 / totalTime * 100

/-- What is printed for a thread: the parts of its header, and the lines of its stack. -/
structure Report where
  tid : ℤ
  threadName : Str
  currentUtilization : ℚ
  blockedCount : ℤ
  inNative : Bool
  stack : List Str

/-- The report of a thread that is alive, busy enough and not a connection of the profiler. -/
def reportOf (minUtilization : ℚ) (s : Sample) (totalTime : ℤ) (entry : ℤ × ℤ) : Option Report :=
  let currentUtilization := getThreadCPUUtilization entry.2 totalTime
  match s.threadInfo entry.1 with
  | none => none
  | some info =>
      if currentUtilization > minUtilization ∧
          ¬ "RMI TCP Connection".toList <+: info.threadName then
        some
          { tid := entry.1
            threadName := info.threadName
            currentUtilization
            blockedCount := info.blockedCount
            inNative := info.inNative
            stack := info.stackTrace.map fun t =>
              printFrame info.threadName t.className t.methodName t.lineNumber }
      else none

/-- The loop over the sorted map, up to the limit of threads. -/
def displayThreads (minUtilization : ℚ) (s : Sample) (totalTime : ℤ) :
    ℕ → List (ℤ × ℤ) → List Report
  | _, [] => []
  | displayedThreads, entry :: rest =>
      if displayedThreads + 1 > numberOfDisplayedThreads then []
      else
        (reportOf minUtilization s totalTime entry).toList ++
          displayThreads minUtilization s totalTime (displayedThreads + 1) rest

/-- The map of differences, the largest first. -/
def cpuTimeMap (previousThreadCPUMillis : List (ℤ × ℤ)) (s : Sample) : List (ℤ × ℤ) :=
  sortByValue (entrySet (s.threads.foldl (addThread previousThreadCPUMillis) ([], [])).1) true

/-- The reports, and the CPU times for the next call. -/
def printTopThreads (minUtilization : ℚ) (view : View) (s : Sample) : View × List Report :=
  let newThreadCPUMillis := (s.threads.foldl (addThread view.previousThreadCPUMillis) ([], [])).2
  ({ view with previousThreadCPUMillis := newThreadCPUMillis },
    displayThreads minUtilization s view.vmInfo.deltaUptime 0
      (cpuTimeMap view.previousThreadCPUMillis s))

/-- A call, where the JVM is attached and measures CPU times. -/
def printView (minUtilization : ℚ) (view : View) (s : Sample) : View × List Report :=
  printTopThreads minUtilization { view with vmInfo := updateInternal view.vmInfo s } s

/-- The constructor of `VMInfo` updates it once. -/
def View.start (s : Sample) : View := ⟨updateInternal VMInfo.new s, []⟩

/-- The view after some calls. -/
def viewAfter (minUtilization : ℚ) (first : Sample) (calls : List Sample) : View :=
  calls.foldl (fun view s => (printView minUtilization view s).1) (View.start first)

/-! ## What a call should do -/

/-- The difference to the previous call, for a thread that was there. -/
def difference (previousThreadCPUMillis : List (ℤ × ℤ)) (t : ℤ × ℤ) : Option (ℤ × ℤ) :=
  (Keyed.get Prod.fst t.1 previousThreadCPUMillis).map fun previous => (t.1, t.2 - previous.2)

/-- The threads of two calls, with the CPU time that they used between them. -/
def measured (before now : Sample) : List (ℤ × ℤ) :=
  now.threads.filterMap (difference before.threads)

/-- Every thread of two calls gets its CPU time divided by the time between them. -/
def OwnInterval (view : View) (before now : Sample) : Prop :=
  ∀ tid c c', (tid, c) ∈ before.threads → (tid, c') ∈ now.threads →
    ∃ delta, (tid, delta) ∈ cpuTimeMap view.previousThreadCPUMillis now ∧
      getThreadCPUUtilization delta (updateInternal view.vmInfo now).deltaUptime =
        ((c' - c : ℤ) : ℚ) / 1000000 / (now.uptime - before.uptime : ℤ) * 100

/-- The busiest threads of two calls are reported, each once. -/
structure TopReported (minUtilization : ℚ) (before now : Sample) (reports : List Report) :
    Prop where
  busiest : ∃ top rest : List (ℤ × ℤ), (top ++ rest).Perm (measured before now) ∧
    top.length = min numberOfDisplayedThreads (measured before now).length ∧
    (∀ a ∈ top, ∀ b ∈ rest, b.2 ≤ a.2) ∧
    reports = top.filterMap (reportOf minUtilization now (now.uptime - before.uptime))
  once : (reports.map Report.tid).Nodup

/-! ## The two maps -/

theorem fst_of_difference {previous : List (ℤ × ℤ)} {t entry : ℤ × ℤ}
    (h : difference previous t = some entry) : entry.1 = t.1 := by
  obtain ⟨p, -, rfl⟩ := Option.map_eq_some_iff.mp h
  rfl

theorem get_none_of_not_mem {k : ℤ} {map : List (ℤ × ℤ)} (h : k ∉ map.map Prod.fst) :
    Keyed.get Prod.fst k map = none := by
  rw [← Option.not_isSome_iff_eq_none, Keyed.get_isSome_iff]
  exact h

/-- With different ids both maps list the threads in order. -/
theorem foldl_addThread (previous : List (ℤ × ℤ)) (threads : List (ℤ × ℤ))
    (h : (threads.map Prod.fst).Nodup) : threads.foldl (addThread previous) ([], []) =
      (threads.filterMap (difference previous), threads) := by
  induction threads using List.reverseRecOn with
  | nil => rfl
  | append_singleton threads t ih =>
      rw [List.map_append, List.map_singleton, List.nodup_append] at h
      obtain ⟨hthreads, -, hnew⟩ := h
      have ht : t.1 ∉ threads.map Prod.fst := fun hmem => hnew _ hmem _ List.mem_cons_self rfl
      have hdiff : t.1 ∉ (threads.filterMap (difference previous)).map Prod.fst := by
        intro hmem
        obtain ⟨entry, hentry, hkey⟩ := List.mem_map.mp hmem
        obtain ⟨u, hu, hsome⟩ := List.mem_filterMap.mp hentry
        rw [fst_of_difference hsome] at hkey
        exact ht (List.mem_map.mpr ⟨u, hu, hkey⟩)
      rw [List.foldl_append, ih hthreads, List.foldl_cons, List.foldl_nil, addThread,
        Keyed.put_of_get_none (get_none_of_not_mem ht), List.filterMap_append]
      cases hget : Keyed.get Prod.fst t.1 previous with
      | none => simp [difference, hget]
      | some p =>
          have hput : Keyed.put Prod.fst (t.1, t.2 - p.2)
              (threads.filterMap (difference previous)) = _ :=
            Keyed.put_of_get_none (get_none_of_not_mem hdiff)
          simp [difference, hget, hput]

theorem cpuTimeMap_perm (previous : List (ℤ × ℤ)) (s : Sample) :
    (cpuTimeMap previous s).Perm (s.threads.filterMap (difference previous)) := by
  rw [cpuTimeMap, foldl_addThread previous s.threads s.threads_nodup]
  exact (List.reverse_perm _).trans ((List.mergeSort_perm _ _).trans (List.mergeSort_perm _ _))

/-- The largest difference comes first. -/
theorem cpuTimeMap_sorted (previous : List (ℤ × ℤ)) (s : Sample) :
    (cpuTimeMap previous s).Pairwise fun a b => b.2 ≤ a.2 := by
  have hsorted := @List.pairwise_mergeSort (ℤ × ℤ) (fun a b => decide (a.2 ≤ b.2))
    (by intro a b c hab hbc; simp only [decide_eq_true_eq] at *; omega)
    (by intro a b; simp only [Bool.or_eq_true, decide_eq_true_eq]; omega)
    (entrySet (s.threads.foldl (addThread previous) ([], [])).1)
  rw [cpuTimeMap, sortByValue, if_pos rfl, List.pairwise_reverse]
  exact hsorted.imp (by simp)

theorem nodup_cpuTimeMap (previous : List (ℤ × ℤ)) (s : Sample) :
    ((cpuTimeMap previous s).map Prod.fst).Nodup := by
  rw [((cpuTimeMap_perm previous s).map Prod.fst).nodup_iff]
  have hkeys : (s.threads.filterMap (difference previous)).map Prod.fst =
      (s.threads.filter fun t => (difference previous t).isSome).map Prod.fst := by
    induction s.threads with
    | nil => rfl
    | cons t threads ih =>
        cases hdiff : difference previous t with
        | none => simp [hdiff, ih]
        | some entry => simp [hdiff, ih, fst_of_difference hdiff]
  rw [hkeys]
  exact s.threads_nodup.sublist (List.filter_sublist.map _)

/-! ## The reports -/

/-- Only the first threads of the map are displayed. -/
theorem displayThreads_eq (minUtilization : ℚ) (s : Sample) (totalTime : ℤ)
    (displayedThreads : ℕ) (entries : List (ℤ × ℤ)) :
    displayThreads minUtilization s totalTime displayedThreads entries =
      (entries.take (numberOfDisplayedThreads - displayedThreads)).filterMap
        (reportOf minUtilization s totalTime) := by
  induction entries generalizing displayedThreads with
  | nil => simp [displayThreads]
  | cons entry rest ih =>
      rw [displayThreads]
      by_cases hlimit : displayedThreads + 1 > numberOfDisplayedThreads
      · have hnone : numberOfDisplayedThreads - displayedThreads = 0 := by omega
        rw [if_pos hlimit, hnone]
        rfl
      · obtain ⟨n, hn⟩ : ∃ n, numberOfDisplayedThreads - displayedThreads = n + 1 :=
          ⟨numberOfDisplayedThreads - (displayedThreads + 1), by omega⟩
        have hrest : numberOfDisplayedThreads - (displayedThreads + 1) = n := by omega
        rw [if_neg hlimit, ih, hn, hrest, List.take_succ_cons, List.filterMap_cons]
        cases reportOf minUtilization s totalTime entry <;> rfl

theorem tid_of_reportOf {minUtilization : ℚ} {s : Sample} {totalTime : ℤ} {entry : ℤ × ℤ}
    {report : Report} (h : reportOf minUtilization s totalTime entry = some report) :
    report.tid = entry.1 := by
  simp only [reportOf] at h
  split at h
  · cases h
  · split at h
    · rw [← Option.some.inj h]
    · cases h

theorem nodup_reports {minUtilization : ℚ} {s : Sample} {totalTime : ℤ} {entries : List (ℤ × ℤ)}
    (h : (entries.map Prod.fst).Nodup) :
    ((entries.filterMap (reportOf minUtilization s totalTime)).map Report.tid).Nodup := by
  induction entries with
  | nil => exact List.nodup_nil
  | cons entry rest ih =>
      rw [List.map_cons, List.nodup_cons] at h
      rw [List.filterMap_cons]
      cases hreport : reportOf minUtilization s totalTime entry with
      | none => exact ih h.2
      | some report =>
          rw [List.map_cons, List.nodup_cons]
          refine ⟨?_, ih h.2⟩
          intro hmem
          obtain ⟨other, hother, htid⟩ := List.mem_map.mp hmem
          obtain ⟨e, he, hsome⟩ := List.mem_filterMap.mp hother
          rw [tid_of_reportOf hsome, tid_of_reportOf hreport] at htid
          exact h.1 (List.mem_map.mpr ⟨e, he, htid⟩)

/-! ## The interval of the uptime -/

/-- The guard of `updateInternal`, for two samples in a row. -/
def Timed (before now : Sample) : Prop :=
  0 < before.uptime ∧ 0 < before.processCpuTime ∧ 0 < sumGCTimes now

/-- The last two samples in a row that pass the guard lie `d` apart. -/
def MeasuredOver (samples : List Sample) (d : ℤ) : Prop :=
  ∃ older before now later, samples = older ++ before :: now :: later ∧ Timed before now ∧
    (now :: later).IsChain (fun a b => ¬ Timed a b) ∧ now.uptime - before.uptime = d

/-- `VMInfo` after some samples. -/
def vmInfoAfter (samples : List Sample) : VMInfo := samples.foldl updateInternal VMInfo.new

theorem vmInfoAfter_concat (samples : List Sample) (s : Sample) :
    vmInfoAfter (samples ++ [s]) = updateInternal (vmInfoAfter samples) s := by
  rw [vmInfoAfter, List.foldl_append]
  rfl

theorem deltaUptime_of_timed {before now : Sample} (h : Timed before now) (v : VMInfo) :
    (updateInternal (updateInternal v before) now).deltaUptime = now.uptime - before.uptime := by
  have hguard : (updateInternal v before).lastUpTime > 0 ∧
      (updateInternal v before).lastCPUTime > 0 ∧ sumGCTimes now > 0 := h
  rw [updateInternal, if_pos hguard]
  rfl

theorem deltaUptime_of_not_timed {before now : Sample} (h : ¬ Timed before now) (v : VMInfo) :
    (updateInternal (updateInternal v before) now).deltaUptime =
      (updateInternal v before).deltaUptime := by
  have hguard : ¬ ((updateInternal v before).lastUpTime > 0 ∧
      (updateInternal v before).lastCPUTime > 0 ∧ sumGCTimes now > 0) := h
  rw [updateInternal, if_neg hguard]

theorem deltaUptime_of_chain {now : Sample} {later : List Sample}
    (h : (now :: later).IsChain fun a b => ¬ Timed a b) (v : VMInfo) :
    (later.foldl updateInternal (updateInternal v now)).deltaUptime =
      (updateInternal v now).deltaUptime := by
  induction later generalizing now v with
  | nil => rfl
  | cons s later ih =>
      rw [List.isChain_cons_cons] at h
      rw [List.foldl_cons, ih h.2, deltaUptime_of_not_timed h.1]

theorem deltaUptime_of_measuredOver {samples : List Sample} {d : ℤ} (h : MeasuredOver samples d) :
    (vmInfoAfter samples).deltaUptime = d := by
  obtain ⟨older, before, now, later, rfl, htimed, hchain, hd⟩ := h
  rw [vmInfoAfter, List.foldl_append, List.foldl_cons, List.foldl_cons,
    deltaUptime_of_chain hchain, deltaUptime_of_timed htimed, hd]

/-- The uptime is measured over an interval, or not yet. -/
theorem measuredOver_or_zero (samples : List Sample) :
    MeasuredOver samples (vmInfoAfter samples).deltaUptime ∨
      (vmInfoAfter samples).deltaUptime = 0 := by
  induction samples using List.reverseRecOn with
  | nil => exact .inr rfl
  | append_singleton samples now ih =>
      rcases List.eq_nil_or_concat' samples with rfl | ⟨older, before, rfl⟩
      · exact .inr rfl
      · rw [vmInfoAfter_concat, vmInfoAfter_concat]
        by_cases htimed : Timed before now
        · rw [deltaUptime_of_timed htimed]
          exact .inl ⟨older, before, now, [], by simp, htimed, List.isChain_singleton now, rfl⟩
        · rw [deltaUptime_of_not_timed htimed, ← vmInfoAfter_concat]
          refine ih.imp_left ?_
          rintro ⟨first, b, n, later, hsplit, hb, hchain, hd⟩
          refine ⟨first, b, n, later ++ [now], by rw [hsplit]; simp, hb, ?_, hd⟩
          have hlast : ∀ x ∈ (n :: later).getLast?, x = before := by
            intro x hx
            have hend := congrArg List.getLast? hsplit
            rw [List.getLast?_append, List.getLast?_append] at hend
            simp only [List.getLast?_singleton, Option.some_or, List.getLast?_cons_cons] at hend
            rw [Option.mem_def] at hx
            rw [hx, Option.some_or] at hend
            exact (Option.some.inj hend).symm
          have happend : ((n :: later) ++ [now]).IsChain fun a b => ¬ Timed a b := by
            rw [List.isChain_append]
            refine ⟨hchain, List.isChain_singleton now, ?_⟩
            intro x hx y hy
            simp only [List.head?_cons, Option.mem_some_iff] at hy
            rw [hlast x hx, ← hy]
            exact htimed
          exact happend

/-! ## A call -/

/-- The view after some calls, the last of them on `before`. -/
theorem viewAfter_concat (minUtilization : ℚ) (first : Sample) (earlier : List Sample)
    (before : Sample) : viewAfter minUtilization first (earlier ++ [before]) =
      ⟨vmInfoAfter (first :: earlier ++ [before]), before.threads⟩ := by
  have hinfo : ∀ calls, (viewAfter minUtilization first calls).vmInfo =
      vmInfoAfter (first :: calls) := by
    intro calls
    induction calls using List.reverseRecOn with
    | nil => rfl
    | append_singleton calls s ih =>
        rw [viewAfter, List.foldl_append, ← List.cons_append, vmInfoAfter_concat, ← ih]
        rfl
  have hview : viewAfter minUtilization first (earlier ++ [before]) =
      (printView minUtilization (viewAfter minUtilization first earlier) before).1 := by
    rw [viewAfter, List.foldl_append]
    rfl
  rw [hview, printView, printTopThreads, hinfo, foldl_addThread _ _ before.threads_nodup,
    List.cons_append, ← List.cons_append, vmInfoAfter_concat]

/-- The samples of a run: time goes on, and the process has used CPU time. -/
structure Observed (calls : List Sample) : Prop where
  uptime : calls.Pairwise fun a b => a.uptime < b.uptime
  positive : ∀ s ∈ calls, 0 < s.uptime ∧ 0 < s.processCpuTime

/-- There is a garbage collection time, or no thread has used CPU time, or the uptime was last
measured over an interval of the same length. -/
def Current (first : Sample) (earlier : List Sample) (before now : Sample) : Prop :=
  0 < sumGCTimes now ∨ (∀ entry ∈ measured before now, entry.2 = 0) ∨
    MeasuredOver (first :: earlier ++ [before]) (now.uptime - before.uptime)

/-- The utilisation is that of the interval for a thread that used CPU time exactly if the
uptime was measured over it. -/
theorem utilization_eq_iff {delta used interval : ℤ} (h : interval ≠ 0) :
    getThreadCPUUtilization delta used = (delta : ℚ) / 1000000 / interval * 100 ↔
      delta = 0 ∨ used = interval := by
  have hinterval : (interval : ℚ) ≠ 0 := by exact_mod_cast h
  rw [getThreadCPUUtilization]
  by_cases hused : used = 0
  · rw [if_pos hused]
    constructor
    · intro heq
      left
      by_contra hdelta
      have hne : (delta : ℚ) ≠ 0 := by exact_mod_cast hdelta
      have hprod : (delta : ℚ) / 1000000 / interval * 100 ≠ 0 := by positivity
      exact hprod heq.symm
    · rintro (hdelta | heq)
      · simp [hdelta]
      · exact absurd (heq.symm.trans hused) h
  · have hne : (used : ℚ) ≠ 0 := by exact_mod_cast hused
    rw [if_neg hused]
    constructor
    · intro heq
      by_cases hdelta : delta = 0
      · exact .inl hdelta
      · right
        have hdelta' : (delta : ℚ) ≠ 0 := by exact_mod_cast hdelta
        field_simp at heq
        exact_mod_cast heq.symm
    · rintro (hdelta | heq)
      · simp [hdelta]
      · rw [heq]

section
variable {before now : Sample} {view : View}

/-- Two threads of the same id make an entry. -/
theorem mem_measured (before now : Sample) {tid c c' : ℤ} (h : (tid, c) ∈ before.threads)
    (h' : (tid, c') ∈ now.threads) : (tid, c' - c) ∈ measured before now := by
  have hget : Keyed.get Prod.fst tid before.threads = some (tid, c) :=
    Keyed.get_of_mem before.threads_nodup h
  exact List.mem_filterMap.mpr ⟨(tid, c'), h', by rw [difference, hget]; rfl⟩

theorem exists_threads_of_mem {entry : ℤ × ℤ} (h : entry ∈ measured before now) :
    ∃ c c', (entry.1, c) ∈ before.threads ∧ (entry.1, c') ∈ now.threads ∧ entry.2 = c' - c := by
  obtain ⟨t, ht, hdiff⟩ := List.mem_filterMap.mp h
  obtain ⟨p, hget, rfl⟩ := Option.map_eq_some_iff.mp hdiff
  have hkey := Keyed.key_of_get hget
  refine ⟨p.2, t.2, ?_, ht, rfl⟩
  rw [← hkey]
  exact Keyed.mem_of_get hget

theorem ownInterval_iff_used (hview : view.previousThreadCPUMillis = before.threads)
    (hinterval : now.uptime - before.uptime ≠ 0) : OwnInterval view before now ↔
      ∀ entry ∈ measured before now, entry.2 = 0 ∨
        (updateInternal view.vmInfo now).deltaUptime = now.uptime - before.uptime := by
  have hmem : ∀ entry, entry ∈ cpuTimeMap view.previousThreadCPUMillis now ↔
      entry ∈ measured before now := by
    intro entry
    rw [hview]
    exact (cpuTimeMap_perm before.threads now).mem_iff
  constructor
  · intro hown entry hentry
    obtain ⟨c, c', hc, hc', hdelta⟩ := exists_threads_of_mem hentry
    obtain ⟨delta, hmap, hutil⟩ := hown entry.1 c c' hc hc'
    have hsame : (entry.1, delta) = entry := by
      refine List.inj_on_of_nodup_map (nodup_cpuTimeMap view.previousThreadCPUMillis now) hmap
        ((hmem entry).mpr hentry) rfl
    have hvalue : delta = entry.2 := congrArg Prod.snd hsame
    rw [← hdelta, hvalue] at hutil
    exact (utilization_eq_iff hinterval).mp hutil
  · intro hall tid c c' hc hc'
    have hentry := mem_measured before now hc hc'
    exact ⟨c' - c, (hmem _).mpr hentry, (utilization_eq_iff hinterval).mpr (hall _ hentry)⟩

/-- With the right utilisations the busiest threads are reported. -/
theorem topReported (minUtilization : ℚ) (hview : view.previousThreadCPUMillis = before.threads)
    (hutil : ∀ entry ∈ measured before now,
      getThreadCPUUtilization entry.2 (updateInternal view.vmInfo now).deltaUptime =
        getThreadCPUUtilization entry.2 (now.uptime - before.uptime)) :
    TopReported minUtilization before now (printView minUtilization view now).2 := by
  have hreports : (printView minUtilization view now).2 =
      ((cpuTimeMap before.threads now).take numberOfDisplayedThreads).filterMap
        (reportOf minUtilization now (updateInternal view.vmInfo now).deltaUptime) := by
    rw [printView, printTopThreads, displayThreads_eq, hview]
    rfl
  have hperm : (cpuTimeMap before.threads now).Perm (measured before now) :=
    cpuTimeMap_perm before.threads now
  have hsplit := List.take_append_drop numberOfDisplayedThreads (cpuTimeMap before.threads now)
  refine ⟨⟨(cpuTimeMap before.threads now).take numberOfDisplayedThreads,
    (cpuTimeMap before.threads now).drop numberOfDisplayedThreads, ?_, ?_, ?_, ?_⟩, ?_⟩
  · rw [hsplit]
    exact hperm
  · rw [List.length_take, hperm.length_eq]
  · have hsorted := cpuTimeMap_sorted before.threads now
    rw [← hsplit, List.pairwise_append] at hsorted
    exact hsorted.2.2
  · rw [hreports]
    refine List.filterMap_congr fun entry hentry => ?_
    have hentry' := hperm.mem_iff.mp (List.mem_of_mem_take hentry)
    simp only [reportOf, hutil entry hentry']
  · rw [hreports]
    refine nodup_reports ?_
    rw [List.map_take]
    exact (nodup_cpuTimeMap before.threads now).sublist (List.take_sublist _ _)

end

/-- At every call but the first, the utilisations are those of the interval since the call
before and the busiest threads are reported, exactly if the uptime is measured over that
interval or no thread has used CPU time. -/
theorem printView_current_iff (minUtilization : ℚ) (first : Sample) {calls : List Sample}
    (h : Observed calls) {earlier later : List Sample} {before now : Sample}
    (hcalls : calls = earlier ++ before :: now :: later) :
    (OwnInterval (viewAfter minUtilization first (earlier ++ [before])) before now ∧
        TopReported minUtilization before now (printView minUtilization
          (viewAfter minUtilization first (earlier ++ [before])) now).2) ↔
      Current first earlier before now := by
  subst hcalls
  have huptime : before.uptime < now.uptime := by
    have hpair := (List.pairwise_append.mp h.uptime).2.1
    exact (List.pairwise_cons.mp hpair).1 now List.mem_cons_self
  have hinterval : now.uptime - before.uptime ≠ 0 := by omega
  obtain ⟨hup, hcpu⟩ := h.positive before (by simp)
  have hview := viewAfter_concat minUtilization first earlier before
  have hprevious : (viewAfter minUtilization first (earlier ++ [before])).previousThreadCPUMillis =
      before.threads := by rw [hview]
  have hinfo : (viewAfter minUtilization first (earlier ++ [before])).vmInfo =
      vmInfoAfter (first :: earlier ++ [before]) := by rw [hview]
  have hused : (updateInternal (vmInfoAfter (first :: earlier ++ [before])) now).deltaUptime =
      now.uptime - before.uptime ↔ 0 < sumGCTimes now ∨
        MeasuredOver (first :: earlier ++ [before]) (now.uptime - before.uptime) := by
    by_cases hgc : 0 < sumGCTimes now
    · have htimed : Timed before now := ⟨hup, hcpu, hgc⟩
      rw [vmInfoAfter_concat, deltaUptime_of_timed htimed]
      exact iff_of_true rfl (.inl hgc)
    · have htimed : ¬ Timed before now := fun ht => hgc ht.2.2
      rw [vmInfoAfter_concat, deltaUptime_of_not_timed htimed, ← vmInfoAfter_concat]
      constructor
      · intro heq
        rcases measuredOver_or_zero (first :: earlier ++ [before]) with hmeasured | hzero
        · exact .inr (heq ▸ hmeasured)
        · exact absurd (heq.symm.trans hzero) hinterval
      · intro hor
        exact deltaUptime_of_measuredOver (hor.resolve_left hgc)
  rw [Current, or_left_comm, ← hused, ← hinfo]
  constructor
  · rintro ⟨hown, -⟩
    rw [ownInterval_iff_used hprevious hinterval] at hown
    by_cases heq : (updateInternal (viewAfter minUtilization first
        (earlier ++ [before])).vmInfo now).deltaUptime = now.uptime - before.uptime
    · exact .inr heq
    · exact .inl fun entry hentry => (hown entry hentry).resolve_right heq
  · intro hor
    have hown : ∀ entry ∈ measured before now, entry.2 = 0 ∨ (updateInternal (viewAfter
        minUtilization first (earlier ++ [before])).vmInfo now).deltaUptime =
          now.uptime - before.uptime := by
      intro entry hentry
      exact hor.imp_left fun hzero => hzero entry hentry
    refine ⟨(ownInterval_iff_used hprevious hinterval).mpr hown, ?_⟩
    refine topReported minUtilization hprevious fun entry hentry => ?_
    rw [(utilization_eq_iff hinterval).mpr (hown entry hentry)]
    exact ((utilization_eq_iff hinterval).mpr (.inr rfl)).symm

/-- A JVM whose main thread does nothing but compute. -/
def busy (seconds : ℤ) (collectionTimes : List ℤ) : Sample where
  uptime := 1000 * seconds
  processCpuTime := 1000000000 * seconds
  collectionTimes
  threads := [(1, 1000000000 * seconds)]
  threads_nodup := List.nodup_singleton _
  threadInfo tid := if tid = 1 then some ⟨"main", 0, false, []⟩ else none

theorem observed_busy (collectionTimes : List ℤ) :
    Observed [busy 2 collectionTimes, busy 3 collectionTimes] := by
  constructor
  · simp [busy]
  · simp [busy]

/-- Two calls after a garbage collection. -/
theorem current_busy_iff : (OwnInterval (viewAfter 10 (busy 1 [7]) ([] ++ [busy 2 [7]]))
      (busy 2 [7]) (busy 3 [7]) ∧
    TopReported 10 (busy 2 [7]) (busy 3 [7]) (printView 10
      (viewAfter 10 (busy 1 [7]) ([] ++ [busy 2 [7]])) (busy 3 [7])).2) ↔
      Current (busy 1 [7]) [] (busy 2 [7]) (busy 3 [7]) :=
  printView_current_iff 10 (busy 1 [7]) (observed_busy [7]) rfl

/-- Without a garbage collection so far the thread has no utilisation. -/
theorem not_current_before_collection : ¬ ∀ minUtilization first calls, Observed calls →
    ∀ earlier before now later, calls = earlier ++ before :: now :: later →
      OwnInterval (viewAfter minUtilization first (earlier ++ [before])) before now ∧
        TopReported minUtilization before now (printView minUtilization
          (viewAfter minUtilization first (earlier ++ [before])) now).2 := by
  intro hall
  have hown := (hall 10 (busy 1 [0]) _ (observed_busy [0]) [] _ _ [] rfl).1
  have hview := viewAfter_concat 10 (busy 1 [0]) [] (busy 2 [0])
  rw [hview, ownInterval_iff_used rfl (by decide)] at hown
  rcases hown (1, 1000000000) (by decide) with hzero | hused
  · simp at hzero
  · revert hused
    decide

end Structor.Profile
