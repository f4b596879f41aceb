import Mathlib.Data.List.Perm.Basic
import Structor.Paging

/-!
# Paging through the timeline server

`getDags` asks for the DAGs of a time window, a page at a time: as long as pages are
full it asks again, up to the start time of the last DAG that it has seen.

## Main definitions

* `toMs` -- the time stamp of a date
* `getDags` -- the paging loop, with fuel
* `Answers` -- what the server guarantees
-/
namespace Structor.Ats
variable {δ : Type} {starttime : δ → ℤ} {dags : List δ} {server : ℕ → ℤ → ℤ → List δ}

/-- A difference of dates, normalised. -/
structure Timedelta where
  days : ℤ
  seconds : ℤ
  microseconds : ℤ

/-- The difference of a date to the epoch. Dates count microseconds. -/
def sinceEpoch (t : ℤ) : Timedelta where
  days := t.fdiv (24 * 3600 * 10 ^ 6)
  seconds := (t.fmod (24 * 3600 * 10 ^ 6)).fdiv (10 ^ 6)
  microseconds := t.fmod (10 ^ 6)

def toMs (t : ℤ) : ℤ :=
  let td := sinceEpoch t
  (td.microseconds + (td.seconds + td.days * 24 * 3600) * 10 ^ 6).fdiv (10 ^ 6) * 1000

/-- The loop, before its request number `request`. The entities that the server sends
may depend on the request. -/
def getDagsLoop (starttime : δ → ℤ) (server : ℕ → ℤ → ℤ → List δ) (windowStart : ℤ) :
    ℕ → ℕ → ℤ → List δ → Option (List δ)
  | 0, _, _, _ => none
  | fuel + 1, request, windowEnd, dags =>
      let newDags := server request windowStart windowEnd
      let retrieved := newDags.length
      match newDags.getLast? with
      | none => some dags
      | some last =>
          if retrieved = 100 then
            getDagsLoop starttime server windowStart fuel (request + 1) (starttime last)
              (dags ++ newDags)
          else some (dags ++ newDags)

def getDags (starttime : δ → ℤ) (server : ℕ → ℤ → ℤ → List δ) (start stop : ℤ) (fuel : ℕ) :
    Option (List δ) :=
  getDagsLoop starttime server (toMs start) fuel 0 (toMs stop) []

/-- The DAGs of a window. -/
def inWindow (starttime : δ → ℤ) (dags : List δ) (windowStart windowEnd : ℤ) : List δ :=
  dags.filter fun d => windowStart < starttime d ∧ starttime d ≤ windowEnd

/-- The server answers every request with the newest 100 DAGs of the window. -/
def Answers (starttime : δ → ℤ) (dags : List δ) (server : ℕ → ℤ → ℤ → List δ) : Prop :=
  ∀ request windowStart windowEnd,
    IsPage starttime 100 (inWindow starttime dags windowStart windowEnd)
      (server request windowStart windowEnd)

/-- Start times are milliseconds, the requested dates microseconds. -/
def Requested (starttime : δ → ℤ) (start stop : ℤ) (d : δ) : Prop :=
  start < starttime d * 1000 ∧ starttime d * 1000 ≤ stop

instance (start stop : ℤ) : DecidablePred (Requested starttime start stop) :=
  fun _ => inferInstanceAs (Decidable (_ ∧ _))

/-- Whenever the loop ends, it returns each requested DAG once and no other. -/
def ReturnsEachOnce (starttime : δ → ℤ) (dags : List δ) (start stop : ℤ) : Prop :=
  ∀ server, Answers starttime dags server → ∀ fuel result,
    getDags starttime server start stop fuel = some result →
      result.Perm (dags.filter (Requested starttime start stop))

/-- The loop ends after some number of requests. -/
def Ends (starttime : δ → ℤ) (server : ℕ → ℤ → ℤ → List δ) (start stop : ℤ) : Prop :=
  ∃ fuel result, getDags starttime server start stop fuel = some result

/-- As many DAGs as fit on a page start at one time in the window. -/
def Crowded (starttime : δ → ℤ) (dags : List δ) (windowStart windowEnd : ℤ) : Prop :=
  ∃ t, windowStart < t ∧ t ≤ windowEnd ∧ 100 ≤ dags.countP fun d => starttime d = t

/-! ## One page -/

theorem mem_inWindow {windowStart windowEnd : ℤ} {d : δ} :
    d ∈ inWindow starttime dags windowStart windowEnd ↔
      d ∈ dags ∧ windowStart < starttime d ∧ starttime d ≤ windowEnd := by
  simp [inWindow]

/-- The DAGs of a window are those above a time in it and those of the rest. -/
theorem length_inWindow (starttime : δ → ℤ) (dags : List δ) (windowStart : ℤ)
    {windowEnd t : ℤ} (ht : t ≤ windowEnd) :
    (inWindow starttime dags windowStart windowEnd).length =
      (inWindow starttime dags windowStart windowEnd).countP (fun d => t < starttime d) +
        (inWindow starttime dags windowStart t).length := by
  rw [List.length_eq_countP_add_countP (fun d => decide (t < starttime d))]
  congr 1
  simp only [inWindow, List.countP_filter, ← List.countP_eq_length_filter]
  refine List.countP_congr fun d _ => ?_
  simp only [Bool.and_eq_true, decide_eq_true_eq]
  omega

section Page
variable {windowStart windowEnd : ℤ} {page : List δ} {last : δ}

/-- The next window ends in the current one. -/
theorem starttime_last (hpage : IsPage starttime 100 (inWindow starttime dags windowStart windowEnd)
    page) (hlast : page.getLast? = some last) :
    windowStart < starttime last ∧ starttime last ≤ windowEnd :=
  (mem_inWindow.mp (hpage.subset (List.mem_of_getLast? hlast))).2

/-- The next window holds fewer DAGs, unless the current one is crowded. -/
theorem length_next_lt (hpage : IsPage starttime 100 (inWindow starttime dags windowStart windowEnd)
    page) (hlast : page.getLast? = some last) (hfull : page.length = 100)
    (h : ¬ Crowded starttime dags windowStart windowEnd) :
    (inWindow starttime dags windowStart (starttime last)).length <
      (inWindow starttime dags windowStart windowEnd).length := by
  obtain ⟨hstart, hend⟩ := starttime_last hpage hlast
  have hsplit := length_inWindow starttime dags windowStart hend
  have habove : (inWindow starttime dags windowStart windowEnd).countP
      (fun d => starttime last < starttime d) ≠ 0 := by
    intro hzero
    refine h ⟨starttime last, hstart, hend, ?_⟩
    have hties := hpage.length_le_countP_ties hlast hzero
    have hsub : (inWindow starttime dags windowStart windowEnd).countP
        (fun d => starttime d = starttime last) ≤
          dags.countP fun d => starttime d = starttime last :=
      List.filter_sublist.countP_le
    omega
  omega

/-- A time of 100 DAGs is never left behind. -/
theorem le_starttime_last (hpage : IsPage starttime 100
    (inWindow starttime dags windowStart windowEnd) page) (hlast : page.getLast? = some last)
    {t : ℤ} (ht : windowStart < t) (ht' : t ≤ windowEnd)
    (hcrowd : 100 ≤ dags.countP fun d => starttime d = t) : t ≤ starttime last := by
  by_contra hlt
  have habove := hpage.countP_above_lt hlast
  have hlength := hpage.length_eq
  have hcount : dags.countP (fun d => starttime d = t) ≤
      (inWindow starttime dags windowStart windowEnd).countP
        (fun d => starttime last < starttime d) := by
    rw [inWindow, List.countP_filter]
    refine List.countP_mono_left fun d _ hd => ?_
    simp only [decide_eq_true_eq, Bool.and_eq_true] at hd ⊢
    omega
  omega

end Page

/-! ## The loop -/

section Loop
variable {windowStart windowEnd : ℤ} {fuel request : ℕ} {seen result : List δ}

/-- One turn: a short page ends the loop, a full one moves the end of the window. -/
theorem getDagsLoop_succ (h : Answers starttime dags server) (windowStart windowEnd : ℤ)
    (fuel request : ℕ) (seen : List δ) :
    (inWindow starttime dags windowStart windowEnd).length < 100 ∧
      getDagsLoop starttime server windowStart (fuel + 1) request windowEnd seen =
        some (seen ++ server request windowStart windowEnd) ∨
    100 ≤ (inWindow starttime dags windowStart windowEnd).length ∧
      ∃ last, (server request windowStart windowEnd).getLast? = some last ∧
        (server request windowStart windowEnd).length = 100 ∧
        getDagsLoop starttime server windowStart (fuel + 1) request windowEnd seen =
          getDagsLoop starttime server windowStart fuel (request + 1) (starttime last)
            (seen ++ server request windowStart windowEnd) := by
  have hlength := (h request windowStart windowEnd).length_eq
  cases hlast : (server request windowStart windowEnd).getLast? with
  | none =>
      have hnil := List.getLast?_eq_none_iff.mp hlast
      rw [hnil, List.length_nil] at hlength
      refine .inl ⟨by omega, ?_⟩
      simp only [getDagsLoop, hlast]
      rw [hnil, List.append_nil]
  | some last =>
      by_cases hfull : (server request windowStart windowEnd).length = 100
      · refine .inr ⟨by omega, last, rfl, hfull, ?_⟩
        simp only [getDagsLoop, hlast, hfull, if_true]
      · refine .inl ⟨by omega, ?_⟩
        simp only [getDagsLoop, hlast, hfull, if_false]

/-- Only DAGs of the window are returned. -/
theorem mem_of_getDagsLoop (h : Answers starttime dags server)
    (hresult : getDagsLoop starttime server windowStart fuel request windowEnd seen = some result) :
    ∀ d ∈ result, d ∈ seen ∨ windowStart < starttime d ∧ starttime d ≤ windowEnd := by
  induction fuel generalizing request windowEnd seen with
  | zero => cases hresult
  | succ fuel ih =>
      have hpage : ∀ d ∈ server request windowStart windowEnd,
          windowStart < starttime d ∧ starttime d ≤ windowEnd :=
        fun d hd => (mem_inWindow.mp ((h request windowStart windowEnd).subset hd)).2
      rcases getDagsLoop_succ h windowStart windowEnd fuel request seen with
        ⟨-, hdone⟩ | ⟨-, last, hlast, -, hnext⟩
      · rw [hdone, Option.some.injEq] at hresult
        subst hresult
        intro d hd
        exact (List.mem_append.mp hd).imp_right (hpage d)
      · rw [hnext] at hresult
        have hend := (starttime_last (h request windowStart windowEnd) hlast).2
        intro d hd
        rcases ih hresult d hd with hd | hd
        · exact (List.mem_append.mp hd).imp_right (hpage d)
        · exact .inr ⟨hd.1, Int.le_trans hd.2 hend⟩

/-- The result is as long as the window, and longer if there was a second request. -/
theorem le_length_getDagsLoop (h : Answers starttime dags server)
    (hresult : getDagsLoop starttime server windowStart fuel request windowEnd seen = some result) :
    seen.length + (inWindow starttime dags windowStart windowEnd).length ≤ result.length ∧
      (100 ≤ (inWindow starttime dags windowStart windowEnd).length →
        seen.length + (inWindow starttime dags windowStart windowEnd).length < result.length) := by
  induction fuel generalizing request windowEnd seen with
  | zero => cases hresult
  | succ fuel ih =>
      rcases getDagsLoop_succ h windowStart windowEnd fuel request seen with
        ⟨hshort, hdone⟩ | ⟨-, last, hlast, hfull, hnext⟩
      · rw [hdone, Option.some.injEq] at hresult
        subst hresult
        have hlength := (h request windowStart windowEnd).length_eq
        rw [List.length_append]
        omega
      · rw [hnext] at hresult
        have hrest := (ih hresult).1
        have habove := (h request windowStart windowEnd).countP_above_lt hlast
        have hsplit := length_inWindow starttime dags windowStart
          (starttime_last (h request windowStart windowEnd) hlast).2
        rw [List.length_append] at hrest
        omega

/-- Without a crowded time the loop ends. -/
theorem exists_getDagsLoop (h : Answers starttime dags server)
    (hcrowd : ¬ Crowded starttime dags windowStart windowEnd) (request : ℕ) (seen : List δ) :
    ∃ fuel result,
      getDagsLoop starttime server windowStart fuel request windowEnd seen = some result := by
  generalize hn : (inWindow starttime dags windowStart windowEnd).length = n
  induction n using Nat.strongRecOn generalizing request windowEnd seen with
  | ind n ih =>
      rcases getDagsLoop_succ h windowStart windowEnd 0 request seen with
        ⟨-, hdone⟩ | ⟨-, last, hlast, hfull, -⟩
      · exact ⟨1, _, hdone⟩
      · have hpage := h request windowStart windowEnd
        have hless := length_next_lt hpage hlast hfull hcrowd
        have hcrowd' : ¬ Crowded starttime dags windowStart (starttime last) := by
          rintro ⟨t, ht, ht', hmany⟩
          exact hcrowd ⟨t, ht, Int.le_trans ht' (starttime_last hpage hlast).2, hmany⟩
        obtain ⟨fuel, result, hresult⟩ := ih _ (hn ▸ hless) hcrowd' (request + 1)
          (seen ++ server request windowStart windowEnd) rfl
        refine ⟨fuel + 1, result, ?_⟩
        rcases getDagsLoop_succ h windowStart windowEnd fuel request seen with
          ⟨hshort, -⟩ | ⟨-, last', hlast', -, hnext⟩
        · have hlength := hpage.length_eq
          omega
        · obtain rfl : last = last' := Option.some.inj (hlast.symm.trans hlast')
          rw [hnext, hresult]

/-- At a crowded time the loop asks for the same window again and again. -/
theorem getDagsLoop_crowded (h : Answers starttime dags server)
    (hcrowd : Crowded starttime dags windowStart windowEnd) (fuel request : ℕ) (seen : List δ) :
    getDagsLoop starttime server windowStart fuel request windowEnd seen = none := by
  induction fuel generalizing request windowEnd seen with
  | zero => rfl
  | succ fuel ih =>
      obtain ⟨t, ht, ht', hmany⟩ := hcrowd
      have hpage := h request windowStart windowEnd
      rcases getDagsLoop_succ h windowStart windowEnd fuel request seen with
        ⟨hshort, -⟩ | ⟨-, last, hlast, -, hnext⟩
      · have hle : dags.countP (fun d => starttime d = t) ≤
            (inWindow starttime dags windowStart windowEnd).length := by
          rw [inWindow, ← List.countP_eq_length_filter]
          refine List.countP_mono_left fun d _ hd => ?_
          simp only [decide_eq_true_eq] at hd ⊢
          omega
        omega
      · rw [hnext]
        exact ih ⟨t, ht, le_starttime_last hpage hlast ht ht' hmany, hmany⟩ _ _

end Loop

/-! ## The result -/

theorem exists_answers (starttime : δ → ℤ) (dags : List δ) :
    ∃ server, Answers starttime dags server := by
  choose page hpage using fun windowStart windowEnd =>
    exists_isPage starttime 100 (inWindow starttime dags windowStart windowEnd)
  exact ⟨fun _ => page, fun _ => hpage⟩

/-- A window of less than a page is returned as it is. -/
theorem perm_of_getDags (h : Answers starttime dags server) {start stop : ℤ} {fuel : ℕ}
    {result : List δ} (hshort : (inWindow starttime dags (toMs start) (toMs stop)).length < 100)
    (hresult : getDags starttime server start stop fuel = some result) :
    result.Perm (inWindow starttime dags (toMs start) (toMs stop)) := by
  cases fuel with
  | zero => cases hresult
  | succ fuel =>
      rcases getDagsLoop_succ h (toMs start) (toMs stop) fuel 0 [] with
        ⟨-, hdone⟩ | ⟨hlong, -⟩
      · rw [getDags, hdone, List.nil_append, Option.some.injEq] at hresult
        subst hresult
        exact (h 0 (toMs start) (toMs stop)).perm (Nat.le_of_lt hshort)
      · omega

/-- A result that starts a second request repeats a DAG. -/
theorem not_perm_of_getDags (h : Answers starttime dags server) {start stop : ℤ} {fuel : ℕ}
    {result : List δ} (hlong : 100 ≤ (inWindow starttime dags (toMs start) (toMs stop)).length)
    (hresult : getDags starttime server start stop fuel = some result) (p : δ → Bool) :
    ¬ result.Perm (dags.filter p) := by
  intro hperm
  have hlt := (le_length_getDagsLoop h hresult).2 hlong
  have hwindow : result.filter (fun d => toMs start < starttime d ∧ starttime d ≤ toMs stop) =
      result := by
    rw [List.filter_eq_self]
    intro d hd
    simpa using mem_of_getDagsLoop h hresult d hd
  have hle : result.length ≤ (inWindow starttime dags (toMs start) (toMs stop)).length := by
    rw [← hwindow, (hperm.filter _).length_eq, inWindow]
    exact (List.filter_sublist.filter _).length_le
  rw [List.length_nil] at hlt
  omega

/-- `getDags` returns each requested DAG once exactly if it never returns, as 100 DAGs start
at one time, or if it needs one request and no DAG starts in a second that is cut off. -/
theorem returnsEachOnce_iff (starttime : δ → ℤ) (dags : List δ) (start stop : ℤ) :
    ReturnsEachOnce starttime dags start stop ↔
      Crowded starttime dags (toMs start) (toMs stop) ∨
        (inWindow starttime dags (toMs start) (toMs stop)).length < 100 ∧
          ∀ d ∈ dags, (toMs start < starttime d ∧ starttime d ≤ toMs stop) ↔
            Requested starttime start stop d := by
  constructor
  · intro h
    by_cases hcrowd : Crowded starttime dags (toMs start) (toMs stop)
    · exact .inl hcrowd
    · obtain ⟨server, hserver⟩ := exists_answers starttime dags
      obtain ⟨fuel, result, hresult⟩ := exists_getDagsLoop hserver hcrowd 0 []
      have hperm := h server hserver fuel result hresult
      by_cases hlong : 100 ≤ (inWindow starttime dags (toMs start) (toMs stop)).length
      · exact absurd hperm (not_perm_of_getDags hserver hlong hresult _)
      · refine .inr ⟨by omega, ?_⟩
        have hshort := perm_of_getDags hserver (by omega) hresult
        intro d hd
        have hmem := (hshort.symm.trans hperm).mem_iff (a := d)
        simpa [mem_inWindow, hd] using hmem
  · rintro (hcrowd | ⟨hshort, hagree⟩) server hserver fuel result hresult
    · rw [getDags, getDagsLoop_crowded hserver hcrowd] at hresult
      cases hresult
    · have hsame : inWindow starttime dags (toMs start) (toMs stop) =
          dags.filter (Requested starttime start stop) := by
        refine List.filter_congr fun d hd => ?_
        simp only [hagree d hd]
      rw [← hsame]
      exact perm_of_getDags hserver hshort hresult

/-- A hundred DAGs, a second apart. -/
def hundred : List ℤ := (List.range 100).map fun i : ℕ => ((i : ℤ) + 1) * 1000

theorem answers_hundred : Answers id hundred fun _ windowStart windowEnd =>
    (inWindow id hundred windowStart windowEnd).reverse.take 100 := by
  intro _ windowStart windowEnd
  refine ⟨_, List.reverse_perm _, ?_, rfl⟩
  rw [List.pairwise_reverse]
  refine List.Pairwise.filter _ ?_
  rw [hundred, List.pairwise_map]
  refine List.pairwise_lt_range.imp ?_
  intro i j hij
  simp only [id_eq]
  omega

/-- The last DAG of the full first page is returned twice. -/
theorem hundred_not_each_once : ¬ ReturnsEachOnce id hundred 0 200000000 := by
  have hlength : (getDags id (fun _ windowStart windowEnd =>
      (inWindow id hundred windowStart windowEnd).reverse.take 100) 0 200000000 2).map
        List.length = some 101 := by
    decide
  intro h
  obtain ⟨result, hresult, hcount⟩ := Option.map_eq_some_iff.mp hlength
  have hperm := (h _ answers_hundred 2 result hresult).length_eq
  have hrequested : (hundred.filter (Requested id 0 200000000)).length = 100 := by
    decide
  omega

/-! ## Termination -/

/-- Whatever the server sends, the loop ends exactly if no time of the window is crowded. -/
theorem ends_iff (h : Answers starttime dags server) (start stop : ℤ) :
    Ends starttime server start stop ↔ ¬ Crowded starttime dags (toMs start) (toMs stop) := by
  constructor
  · intro hends hcrowd
    obtain ⟨fuel, result, hresult⟩ := hends
    rw [getDags, getDagsLoop_crowded h hcrowd] at hresult
    cases hresult
  · intro hcrowd
    exact exists_getDagsLoop h hcrowd 0 []

/-- A full page of different times is no obstacle. -/
theorem hundred_ends : Ends id (fun _ windowStart windowEnd =>
    (inWindow id hundred windowStart windowEnd).reverse.take 100) 0 200000000 := by
  refine (ends_iff answers_hundred 0 200000000).mpr ?_
  intro hcrowd
  obtain ⟨t, -, -, hmany⟩ := hcrowd
  have hnodup : hundred.Nodup := by
    refine List.nodup_range.map ?_
    intro i j hij
    simp only at hij
    omega
  have hone : hundred.count t ≤ 1 := List.nodup_iff_count_le_one.mp hnodup t
  have hcount : hundred.countP (fun d => id d = t) = hundred.count t := by
    rw [List.count]
    refine List.countP_congr fun d _ => ?_
    simp
  rw [hcount] at hmany
  omega

/-- A hundred DAGs of one second. -/
def tied : List ℤ := List.replicate 100 1000

/-- The page ends at the time that the whole page has, and is asked for again for ever. -/
theorem tied_not_ends : ¬ ∀ server, Answers id tied server → Ends id server 0 200000000 := by
  intro h
  have hserver : Answers id tied fun _ windowStart windowEnd =>
      (inWindow id tied windowStart windowEnd).take 100 := by
    intro _ windowStart windowEnd
    refine ⟨_, List.Perm.refl _, ?_, rfl⟩
    refine List.Pairwise.filter _ ?_
    rw [tied, List.pairwise_replicate]
    exact .inr le_rfl
  have hcrowd : Crowded id tied (toMs 0) (toMs 200000000) :=
    ⟨1000, by decide, by decide, by simp [tied]⟩
  obtain ⟨fuel, result, hresult⟩ := h _ hserver
  rw [getDags, getDagsLoop_crowded hserver hcrowd] at hresult
  cases hresult

end Structor.Ats
