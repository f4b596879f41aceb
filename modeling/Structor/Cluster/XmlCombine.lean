import Mathlib.Data.List.Perm.Basic
import Structor.Keyed
import Structor.Overwrite
import Structor.Python

/-!
# Combining Hadoop configuration files (`xmlcombine.py`)

The properties of a base file are kept as a list of elements, with a dictionary from each
name to one element of the list. Every property of every option file takes the element of
its name out of the list and puts itself before the last element.

## Main definitions

* `run` -- the combination of a base file with the option files
* `effective` -- how Hadoop reads a file: the last property of a name counts
* `overridden` -- what the combination is for: the last option file that has a name decides
-/
namespace Structor.XmlCombine
variable {κ α : Type}

/-- A `property` element. Elements are objects: `ident` tells two of them apart whose name
and value are the same. -/
structure Element (κ α : Type) where
  ident : ℕ
  tag : κ
  value : α

namespace Element

/-- The property that an element is written as. -/
def property (e : Element κ α) : κ × α := (e.tag, e.value)

end Element

/-- `first.insert(-1, d)`: before the last element, or alone. -/
def insert (xs : List (Element κ α)) (d : Element κ α) : List (Element κ α) :=
  xs.dropLast ++ d :: xs.getLast?.toList

/-- `first.remove(e)`: takes out the element that is the object `e`. -/
def remove (xs : List (Element κ α)) (e : Element κ α) :
    Except Python.Error (List (Element κ α)) :=
  if xs.any fun x => x.ident == e.ident then .ok (xs.eraseP fun x => x.ident == e.ident)
  else .error .valueError

/-- The variables of the loop, and how many elements were parsed so far. -/
structure Combining (κ α : Type) where
  first : List (Element κ α)
  elements : List (Element κ α)
  keys : List κ
  parsed : ℕ

variable [DecidableEq κ]

/-- The elements of the base file and the dictionary of the last one of each name. -/
def start (base : List (κ × α)) : Combining κ α :=
  let first := base.zipIdx.map fun p => { ident := p.2, tag := p.1.1, value := p.1.2 }
  let elements := first.foldl (fun elements c => Keyed.put Element.tag c elements) []
  { first, elements, keys := elements.map Element.tag, parsed := base.length }

/-- One turn of the loop over the properties of an option file. -/
def combine (s : Combining κ α) (p : κ × α) : Except Python.Error (Combining κ α) :=
  let d : Element κ α := { ident := s.parsed, tag := p.1, value := p.2 }
  if d.tag ∉ s.keys then
    .ok {
      first := insert s.first d
      elements := Keyed.put Element.tag d s.elements
      keys := s.keys ++ [d.tag]
      parsed := s.parsed + 1 }
  else
    match Keyed.get Element.tag d.tag s.elements with
    | none => .error .keyError
    | some old => do
        let first ← remove s.first old
        pure {
          first := insert first d
          elements := Keyed.put Element.tag d s.elements
          keys := s.keys
          parsed := s.parsed + 1 }

/-- The properties that are written back over the base file. -/
def run (base : List (κ × α)) (options : List (List (κ × α))) :
    Except Python.Error (List (κ × α)) := do
  let s ← options.foldlM (fun s data => data.foldlM combine s) (start base)
  pure (s.first.map Element.property)

/-- How a configuration file is read: the last property of a name counts. -/
def effective (file : List (κ × α)) : κ → Option α := writeAll file

/-- The last option file that has the name decides, else the base file. -/
def overridden (base : List (κ × α)) (options : List (List (κ × α))) (name : κ) : Option α :=
  (options.reverse.findSome? fun file => effective file name).or (effective base name)

/-- The base file ends in two properties of one name, the options begin with that name, and
what they make of it in the end is not what the last but one property of the base file says. -/
def Shadowed (base : List (κ × α)) (options : List (List (κ × α))) : Prop :=
  ∃ earlier u last d later, base = earlier ++ [u, last] ∧ u.1 = last.1 ∧
    options.flatten = d :: later ∧ d.1 = last.1 ∧ overridden base options last.1 ≠ some u.2

/-! ## The list read from its end -/

omit [DecidableEq κ] in
theorem reverse_insert (xs : List (Element κ α)) (d : Element κ α) :
    (insert xs d).reverse = xs.reverse.take 1 ++ d :: xs.reverse.drop 1 := by
  induction xs using List.reverseRecOn with
  | nil => rfl
  | append_singleton xs last => simp [insert]

omit [DecidableEq κ] in
theorem insert_perm (xs : List (Element κ α)) (d : Element κ α) : (insert xs d).Perm (d :: xs) := by
  have h : (insert xs d).reverse.Perm (d :: xs.reverse) := by
    rw [reverse_insert]
    conv_rhs => rw [← List.take_append_drop 1 xs.reverse]
    exact List.perm_middle
  calc
    (insert xs d).Perm (insert xs d).reverse := (List.reverse_perm _).symm
    (insert xs d).reverse.Perm (d :: xs.reverse) := h
    (d :: xs.reverse).Perm (d :: xs) := (List.reverse_perm xs).cons d

omit [DecidableEq κ] in
/-- Only the object itself is taken out. -/
theorem remove_eq_ok {xs : List (Element κ α)} (hnodup : (xs.map Element.ident).Nodup)
    {old : Element κ α} (hold : old ∈ xs) :
    remove xs old = .ok (xs.filter fun x => x.ident ≠ old.ident) := by
  have hany : (xs.any fun x => x.ident == old.ident) = true :=
    List.any_eq_true.mpr ⟨old, hold, by simp⟩
  rw [remove, if_pos hany]
  congr 1
  clear hold hany
  induction xs with
  | nil => rfl
  | cons x xs ih =>
      rw [List.map_cons, List.nodup_cons] at hnodup
      by_cases hx : x.ident = old.ident
      · have hrest : xs.filter (fun y => y.ident ≠ old.ident) = xs := by
          rw [List.filter_eq_self]
          intro y hy
          have hne : y.ident ≠ old.ident := fun h => hnodup.1 (hx ▸ h ▸ List.mem_map_of_mem hy)
          simpa using hne
        rw [List.eraseP_cons_of_pos (by simpa using hx),
          List.filter_cons_of_neg (by simpa using hx), hrest]
      · rw [List.eraseP_cons_of_neg (by simpa using hx),
          List.filter_cons_of_pos (by simpa using hx), ih hnodup.2]

/-- What is read under a name is the value of the last element of that name. -/
theorem effective_map_property (xs : List (Element κ α)) (k : κ) :
    effective (xs.map Element.property) k =
      (Keyed.get Element.tag k xs.reverse).map Element.value := by
  induction xs using List.reverseRecOn with
  | nil => rfl
  | append_singleton xs x ih =>
      rw [effective] at ih ⊢
      rw [List.map_append, List.map_singleton, writeAll_concat, List.reverse_append]
      by_cases hx : x.tag = k
      · subst hx
        simp [Element.property, Keyed.get]
      · have hname : k ≠ x.property.1 := Ne.symm hx
        rw [Function.update_of_ne hname, ih]
        simp [Keyed.get, hx]

/-! ## One turn of the loop -/

/-- The list is a list of different objects, and the dictionary points into it. -/
structure Tracks (s : Combining κ α) : Prop where
  keys : ∀ k, k ∈ s.keys ↔ (Keyed.get Element.tag k s.elements).isSome = true
  mem : ∀ k e, Keyed.get Element.tag k s.elements = some e → e ∈ s.first
  nodup : (s.first.map Element.ident).Nodup
  lt : ∀ e ∈ s.first, e.ident < s.parsed

/-- The elements that a property of name `k` leaves in place. -/
def others (s : Combining κ α) (k : κ) : List (Element κ α) :=
  s.first.filter fun e => (Keyed.get Element.tag k s.elements).map Element.ident ≠ some e.ident

/-- The state after a turn. -/
def turn (s : Combining κ α) (p : κ × α) : Combining κ α :=
  let d : Element κ α := { ident := s.parsed, tag := p.1, value := p.2 }
  { first := insert (others s p.1) d
    elements := Keyed.put Element.tag d s.elements
    keys := if p.1 ∈ s.keys then s.keys else s.keys ++ [p.1]
    parsed := s.parsed + 1 }

variable {s : Combining κ α}

theorem combine_eq_ok (h : Tracks s) (p : κ × α) : combine s p = .ok (turn s p) := by
  by_cases hk : p.1 ∈ s.keys
  · obtain ⟨old, hold⟩ := Option.isSome_iff_exists.mp ((h.keys p.1).mp hk)
    have hothers : others s p.1 = s.first.filter fun x => x.ident ≠ old.ident := by
      refine List.filter_congr fun x _ => ?_
      simp [hold, eq_comm]
    rw [combine, if_neg (not_not_intro hk), hold]
    simp only [remove_eq_ok h.nodup (h.mem _ _ hold), turn, hothers, if_pos hk]
    rfl
  · have hnone : Keyed.get Element.tag p.1 s.elements = none := by
      simpa [h.keys] using hk
    have hothers : others s p.1 = s.first := by
      simp [others, hnone]
    rw [combine, if_pos hk]
    simp only [turn, hothers, if_neg hk]

theorem mem_others {k : κ} {e : Element κ α} : e ∈ others s k ↔
    e ∈ s.first ∧ (Keyed.get Element.tag k s.elements).map Element.ident ≠ some e.ident := by
  simp [others]

/-- The object that the dictionary points to is known by its `ident`. -/
theorem Tracks.eq_of_ident (h : Tracks s) {k : κ} {old e : Element κ α}
    (hold : Keyed.get Element.tag k s.elements = some old) (he : e ∈ s.first)
    (hident : e.ident = old.ident) : e = old :=
  List.inj_on_of_nodup_map h.nodup he (h.mem k old hold) hident

theorem tracks_turn (h : Tracks s) (p : κ × α) : Tracks (turn s p) := by
  have hperm := insert_perm (others s p.1) { ident := s.parsed, tag := p.1, value := p.2 }
  constructor
  · intro k
    simp only [turn, Keyed.get_put]
    by_cases hk : p.1 = k
    · subst hk
      by_cases hp : p.1 ∈ s.keys <;> simp [hp]
    · rw [if_neg hk, ← h.keys]
      by_cases hp : p.1 ∈ s.keys
      · simp [hp]
      · simp [hp, Ne.symm hk]
  · intro k e he
    simp only [turn, Keyed.get_put] at he ⊢
    rw [hperm.mem_iff, List.mem_cons, mem_others]
    by_cases hk : p.1 = k
    · rw [if_pos hk] at he
      exact .inl (Option.some.inj he).symm
    · rw [if_neg hk] at he
      refine .inr ⟨h.mem k e he, ?_⟩
      intro hident
      obtain ⟨old, hold, hsame⟩ := Option.map_eq_some_iff.mp hident
      have heq := h.eq_of_ident hold (h.mem k e he) hsame.symm
      apply hk
      rw [← Keyed.key_of_get hold, ← Keyed.key_of_get he, heq]
  · have hnodup : ((others s p.1).map Element.ident).Nodup :=
      h.nodup.sublist (List.filter_sublist.map _)
    rw [turn, (hperm.map Element.ident).nodup_iff, List.map_cons, List.nodup_cons]
    refine ⟨?_, hnodup⟩
    intro hmem
    obtain ⟨e, he, hident⟩ := List.mem_map.mp hmem
    have hlt := h.lt e (mem_others.mp he).1
    simp only at hident
    omega
  · intro e he
    simp only [turn] at he ⊢
    rw [hperm.mem_iff, List.mem_cons, mem_others] at he
    rcases he with rfl | he
    · simp
    · have hlt := h.lt e he.1
      omega

/-! ## Which element of a name is the last one -/

/-- The dictionary holds the last element of each name. -/
def Current (s : Combining κ α) : Prop :=
  ∀ k, Keyed.get Element.tag k s.elements = Keyed.get Element.tag k s.first.reverse

/-- The last two elements have different names. -/
def EndsApart (s : Combining κ α) : Prop :=
  ∀ last u front, s.first.reverse = last :: u :: front → u.tag ≠ last.tag

/-- The dictionary has lost the last element, which no turn takes out any more. -/
def Stuck (u : Element κ α) (s : Combining κ α) : Prop :=
  ∃ front, s.first.reverse = u :: front ∧
    ∀ k, Keyed.get Element.tag k s.elements = Keyed.get Element.tag k front

/-- Names other than that of the property are not touched. -/
theorem get_others (h : Tracks s) {xs : List (Element κ α)} (hxs : ∀ e ∈ xs, e ∈ s.first)
    {k name : κ} (hk : name ≠ k) :
    Keyed.get Element.tag k (xs.filter fun e =>
      (Keyed.get Element.tag name s.elements).map Element.ident ≠ some e.ident) =
      Keyed.get Element.tag k xs := by
  refine Keyed.get_filter fun e he htag => ?_
  have hkeep : (Keyed.get Element.tag name s.elements).map Element.ident ≠ some e.ident := by
    intro hident
    obtain ⟨old, hold, hsame⟩ := Option.map_eq_some_iff.mp hident
    have heq := h.eq_of_ident hold (hxs e he) hsame.symm
    exact hk ((Keyed.key_of_get hold).symm.trans (heq ▸ htag))
  simpa using hkeep

/-- An element whose name is another one stays where it is. -/
theorem reverse_others_cons (h : Tracks s) {k : κ} {last : Element κ α}
    {front : List (Element κ α)} (hfirst : s.first.reverse = last :: front)
    (hkeep : Keyed.get Element.tag k s.elements ≠ some last) :
    (others s k).reverse = last :: front.filter fun e =>
      (Keyed.get Element.tag k s.elements).map Element.ident ≠ some e.ident := by
  have hlast : last ∈ s.first := by
    rw [← List.mem_reverse, hfirst]
    exact List.mem_cons_self
  have hident : (Keyed.get Element.tag k s.elements).map Element.ident ≠ some last.ident := by
    intro hident
    obtain ⟨old, hold, hsame⟩ := Option.map_eq_some_iff.mp hident
    rw [hold, h.eq_of_ident hold hlast hsame.symm] at hkeep
    exact hkeep rfl
  rw [others, ← List.filter_reverse, hfirst, List.filter_cons_of_pos (by simpa using hident)]

theorem reverse_turn (s : Combining κ α) (p : κ × α) : (turn s p).first.reverse =
    (others s p.1).reverse.take 1 ++
      { ident := s.parsed, tag := p.1, value := p.2 } :: (others s p.1).reverse.drop 1 :=
  reverse_insert _ _

theorem elements_turn (s : Combining κ α) (p : κ × α) (k : κ) :
    Keyed.get Element.tag k (turn s p).elements =
      if p.1 = k then some { ident := s.parsed, tag := p.1, value := p.2 }
      else Keyed.get Element.tag k s.elements :=
  Keyed.get_put _ _ _

/-- A turn that puts its element before one of another name. -/
theorem current_turn (h : Tracks s) (hcurrent : Current s) {p : κ × α}
    (hlast : ∀ last front, (others s p.1).reverse = last :: front → last.tag ≠ p.1) :
    Current (turn s p) ∧ EndsApart (turn s p) := by
  have hother : ∀ k, p.1 ≠ k → Keyed.get Element.tag k s.elements =
      Keyed.get Element.tag k (others s p.1).reverse := by
    intro k hk
    rw [hcurrent, others, ← List.filter_reverse]
    exact (get_others h (fun e he => List.mem_reverse.mp he) hk).symm
  constructor
  · intro k
    rw [elements_turn, reverse_turn]
    cases hrev : (others s p.1).reverse with
    | nil =>
        by_cases hk : p.1 = k
        · simp [Keyed.get, hk]
        · rw [if_neg hk, hother k hk, hrev]
          simp [Keyed.get, hk]
    | cons last front =>
        have hne := hlast last front hrev
        by_cases hk : p.1 = k
        · subst hk
          simp [Keyed.get, hne]
        · rw [if_neg hk, hother k hk, hrev]
          by_cases htag : last.tag = k <;> simp [Keyed.get, hk, htag]
  · intro last u front hfirst
    rw [reverse_turn] at hfirst
    cases hrev : (others s p.1).reverse with
    | nil => simp [hrev] at hfirst
    | cons last' front' =>
        simp only [hrev, List.take_succ_cons, List.take_zero, List.drop_succ_cons, List.drop_zero,
          List.singleton_append, List.cons.injEq] at hfirst
        obtain ⟨rfl, rfl, -⟩ := hfirst
        exact (hlast last' front' hrev).symm

/-- The last element has the name of the property exactly where the dictionary points to it. -/
theorem Current.get_eq (hcurrent : Current s) {last : Element κ α} {front : List (Element κ α)}
    (hfirst : s.first.reverse = last :: front) :
    Keyed.get Element.tag last.tag s.elements = some last := by
  rw [hcurrent, hfirst]
  simp [Keyed.get]

/-- Nothing that stays at the end has the name of the property. -/
theorem tag_last_others (h : Tracks s) (hcurrent : Current s) {k : κ}
    (happart : ∀ last u front, s.first.reverse = last :: u :: front → last.tag = k → u.tag ≠ k)
    {last : Element κ α} {front : List (Element κ α)}
    (hothers : (others s k).reverse = last :: front) : last.tag ≠ k := by
  cases hfirst : s.first.reverse with
  | nil => simp [others, ← List.filter_reverse, hfirst] at hothers
  | cons last' front' =>
      by_cases htag : last'.tag = k
      · -- The last element is the one taken out, so the one before it is the last one now.
        subst htag
        have hget := hcurrent.get_eq hfirst
        cases front' with
        | nil => simp [others, ← List.filter_reverse, hfirst, hget] at hothers
        | cons u front' =>
            have hne : last'.ident ≠ u.ident := by
              have hnodup := h.nodup
              rw [← List.nodup_reverse, ← List.map_reverse, hfirst] at hnodup
              simp only [List.map_cons, List.nodup_cons, List.mem_cons, not_or] at hnodup
              exact hnodup.1.1
            have heq : last = u := by
              have hhead := congrArg List.head? hothers
              simpa [others, ← List.filter_reverse, hfirst, hget, hne] using hhead.symm
            exact heq ▸ happart last' u front' hfirst rfl
      · have hkeep : Keyed.get Element.tag k s.elements ≠ some last' :=
          fun hget => htag (Keyed.key_of_get hget)
        rw [reverse_others_cons h hfirst hkeep] at hothers
        exact (List.cons.inj hothers).1 ▸ htag

theorem stuck_turn (h : Tracks s) {u : Element κ α} (hstuck : Stuck u s) (p : κ × α) :
    Stuck u (turn s p) := by
  obtain ⟨front, hfirst, hget⟩ := hstuck
  have hnodup := h.nodup
  rw [← List.nodup_reverse, ← List.map_reverse, hfirst, List.map_cons, List.nodup_cons] at hnodup
  have hfront : ∀ e ∈ front, e ∈ s.first := by
    intro e he
    rw [← List.mem_reverse, hfirst]
    exact List.mem_cons_of_mem u he
  have hkeep : Keyed.get Element.tag p.1 s.elements ≠ some u := by
    intro hu
    rw [hget] at hu
    exact hnodup.1 (List.mem_map_of_mem (Keyed.mem_of_get hu))
  refine ⟨{ ident := s.parsed, tag := p.1, value := p.2 } :: front.filter fun e =>
    (Keyed.get Element.tag p.1 s.elements).map Element.ident ≠ some e.ident, ?_, ?_⟩
  · rw [reverse_turn, reverse_others_cons h hfirst hkeep]
    rfl
  · intro k
    rw [elements_turn]
    by_cases hk : p.1 = k
    · simp [Keyed.get, hk]
    · rw [if_neg hk, hget, ← get_others h hfront hk]
      simp [Keyed.get, hk]

/-! ## The run -/

/-- Each name of the dictionary has the value it was given last. -/
def Holds (s : Combining κ α) (seen : List (κ × α)) : Prop :=
  ∀ k, (Keyed.get Element.tag k s.elements).map Element.value = effective seen k

theorem holds_turn {seen : List (κ × α)} (h : Holds s seen) (p : κ × α) :
    Holds (turn s p) (seen ++ [p]) := by
  intro k
  rw [elements_turn, effective, writeAll_concat]
  by_cases hk : p.1 = k
  · subst hk
    simp
  · rw [if_neg hk, Function.update_of_ne (Ne.symm hk)]
    exact h k

theorem current_start (base : List (κ × α)) : Current (start base) := by
  intro k
  exact Keyed.get_foldl_put k _

theorem start_property (base : List (κ × α)) : (start base).first.map Element.property = base := by
  simp [start, Element.property, Function.comp_def]

theorem tracks_start (base : List (κ × α)) : Tracks (start base) := by
  constructor
  · intro k
    rw [Keyed.get_isSome_iff]
    rfl
  · intro k e he
    rw [current_start] at he
    exact List.mem_reverse.mp (Keyed.mem_of_get he)
  · have hidents : (start base).first.map Element.ident = List.range base.length := by
      simp [start, Function.comp_def, List.zipIdx_map_snd, List.range_eq_range']
    rw [hidents]
    exact List.nodup_range
  · intro e he
    simp only [start, List.mem_map] at he ⊢
    obtain ⟨p, hp, rfl⟩ := he
    simpa using (List.mem_zipIdx hp).2.1

theorem Current.holds (hcurrent : Current s) : Holds s (s.first.map Element.property) := by
  intro k
  rw [effective_map_property, hcurrent]

/-- The turns keep what is known of the state. -/
theorem foldl_turn {I : Combining κ α → Prop} (hI : ∀ s p, Tracks s → I s → I (turn s p))
    (h : Tracks s) (hs : I s) {seen : List (κ × α)} (hholds : Holds s seen) (ps : List (κ × α)) :
    Tracks (ps.foldl turn s) ∧ I (ps.foldl turn s) ∧ Holds (ps.foldl turn s) (seen ++ ps) := by
  induction ps generalizing s seen with
  | nil => exact ⟨h, hs, by simpa using hholds⟩
  | cons p ps ih =>
      have hrest := ih (tracks_turn h p) (hI s p h hs) (holds_turn hholds p)
      simpa using hrest

theorem run_eq_ok (base : List (κ × α)) (options : List (List (κ × α))) :
    run base options =
      .ok ((options.flatten.foldl turn (start base)).first.map Element.property) := by
  have hfile : ∀ (data : List (κ × α)) (s : Combining κ α), Tracks s →
      data.foldlM combine s = .ok (data.foldl turn s) ∧ Tracks (data.foldl turn s) := by
    intro data
    induction data with
    | nil => exact fun s h => ⟨rfl, h⟩
    | cons p data ih =>
        intro s h
        rw [List.foldlM_cons, combine_eq_ok h]
        exact ih (turn s p) (tracks_turn h p)
  have hfiles : ∀ (files : List (List (κ × α))) (s : Combining κ α), Tracks s →
      files.foldlM (fun s data => data.foldlM combine s) s =
        .ok (files.flatten.foldl turn s) := by
    intro files
    induction files with
    | nil => exact fun s _ => rfl
    | cons data files ih =>
        intro s h
        obtain ⟨hdata, htracks⟩ := hfile data s h
        rw [List.foldlM_cons, hdata, List.flatten_cons, List.foldl_append]
        exact ih _ htracks
  rw [run, hfiles options _ (tracks_start base)]
  rfl

theorem overridden_eq (base : List (κ × α)) (options : List (List (κ × α))) (k : κ) :
    overridden base options k = effective (base ++ options.flatten) k := by
  rw [effective, writeAll_append, writeAll_flatten]
  rfl

/-- While the dictionary is current it is what is read. -/
theorem effective_of_current (hcurrent : Current s) {seen : List (κ × α)} (h : Holds s seen)
    (k : κ) : effective (s.first.map Element.property) k = effective seen k := by
  rw [← hcurrent.holds k, h k]

/-- Once stuck, the last element is read for its name and the dictionary for the others. -/
theorem effective_of_stuck {u : Element κ α} (hstuck : Stuck u s) {seen : List (κ × α)}
    (h : Holds s seen) (k : κ) : effective (s.first.map Element.property) k =
      if u.tag = k then some u.value else effective seen k := by
  obtain ⟨front, hfirst, hget⟩ := hstuck
  rw [effective_map_property, hfirst, ← h k, hget]
  by_cases hk : u.tag = k <;> simp [Keyed.get, hk]

theorem good_turn (p : κ × α) (h : Tracks s) (hgood : Current s ∧ EndsApart s) :
    Current (turn s p) ∧ EndsApart (turn s p) := by
  refine current_turn h hgood.1 fun last front hothers => tag_last_others h hgood.1 ?_ hothers
  intro last' u front' hfirst htag
  exact htag ▸ hgood.2 last' u front' hfirst

/-- From a state whose end does not get in the way, the properties win one after the other. -/
theorem effective_foldl_of_good (h : Tracks s) (hgood : Current s ∧ EndsApart s)
    {seen : List (κ × α)} (hholds : Holds s seen) (ps : List (κ × α)) (k : κ) :
    effective ((ps.foldl turn s).first.map Element.property) k = effective (seen ++ ps) k := by
  obtain ⟨-, hrun, hholds⟩ := foldl_turn (fun s p h hI => good_turn p h hI) h hgood hholds ps
  exact effective_of_current hrun.1 hholds k

theorem effective_foldl_of_stuck (h : Tracks s) {u : Element κ α} (hstuck : Stuck u s)
    {seen : List (κ × α)} (hholds : Holds s seen) (ps : List (κ × α)) (k : κ) :
    effective ((ps.foldl turn s).first.map Element.property) k =
      if u.tag = k then some u.value else effective (seen ++ ps) k := by
  obtain ⟨-, hrun, hholds⟩ := foldl_turn (fun s p h hI => stuck_turn h hI p) h hstuck hholds ps
  exact effective_of_stuck hrun hholds k

/-- A property of the name of the last two elements takes out the last one only. -/
theorem stuck_of_first (h : Tracks s) (hcurrent : Current s) {last u : Element κ α}
    {front : List (Element κ α)} (hfirst : s.first.reverse = last :: u :: front)
    (htag : u.tag = last.tag) {p : κ × α} (hp : p.1 = last.tag) : Stuck u (turn s p) := by
  have hget := hcurrent.get_eq hfirst
  have hkeep : ∀ e ∈ u :: front,
      decide ((Keyed.get Element.tag p.1 s.elements).map Element.ident ≠ some e.ident) = true := by
    intro e he
    have hnodup := h.nodup
    rw [← List.nodup_reverse, ← List.map_reverse, hfirst, List.map_cons, List.nodup_cons] at hnodup
    have hne : last.ident ≠ e.ident := fun heq => hnodup.1 (heq ▸ List.mem_map_of_mem he)
    simpa [hp, hget] using hne
  have hothers : (others s p.1).reverse = u :: front := by
    rw [others, ← List.filter_reverse, hfirst, List.filter_cons_of_neg (by simp [hp, hget]),
      List.filter_eq_self.mpr hkeep]
  refine ⟨{ ident := s.parsed, tag := p.1, value := p.2 } :: front, ?_, ?_⟩
  · rw [reverse_turn, hothers]
    rfl
  · intro k
    rw [elements_turn]
    by_cases hk : p.1 = k
    · simp [Keyed.get, hk]
    · have hlast : last.tag ≠ k := hp ▸ hk
      have hu : u.tag ≠ k := htag ▸ hlast
      rw [if_neg hk, hcurrent, hfirst]
      simp [Keyed.get, hlast, hu, hk]

/-- The elements of a base file that ends in two given properties. -/
theorem start_reverse {base earlier : List (κ × α)} {u last : κ × α}
    (hbase : base = earlier ++ [u, last]) : ∃ eₗ eᵤ front,
      (start base).first.reverse = eₗ :: eᵤ :: front ∧ eₗ.property = last ∧ eᵤ.property = u := by
  have hproperty : (start base).first.reverse.map Element.property =
      last :: u :: earlier.reverse := by
    rw [List.map_reverse, start_property, hbase, List.reverse_append]
    rfl
  obtain ⟨eₗ, rest, hfirst, hlast, hrest⟩ := List.map_eq_cons_iff.mp hproperty
  obtain ⟨eᵤ, front, rfl, hu, -⟩ := List.map_eq_cons_iff.mp hrest
  exact ⟨eₗ, eᵤ, front, hfirst, hlast, hu⟩

/-- The first property does not meet its own name at the end of the base file. -/
theorem good_first {base : List (κ × α)} {d : κ × α}
    (happart : ∀ earlier u last, base = earlier ++ [u, last] → u.1 = last.1 → d.1 ≠ last.1) :
    Current (turn (start base) d) ∧ EndsApart (turn (start base) d) := by
  have h := tracks_start base
  refine current_turn h (current_start base) fun last front hothers =>
    tag_last_others h (current_start base) ?_ hothers
  rintro eₗ eᵤ front' hfirst htag hsame
  have hbase : base = (front'.reverse.map Element.property) ++ [eᵤ.property, eₗ.property] := by
    rw [← start_property base, ← List.reverse_reverse (start base).first, hfirst]
    simp
  exact happart _ _ _ hbase (hsame.trans htag.symm) htag.symm

/-- Every name is read as the last option file that has it says, else as the base file does,
unless the end of the base file shadows it. -/
theorem effective_run_iff (base : List (κ × α)) (options : List (List (κ × α))) :
    (∃ combined, run base options = .ok combined ∧
      ∀ name, effective combined name = overridden base options name) ↔
        ¬ Shadowed base options := by
  have h := tracks_start base
  have hholds := (current_start base).holds
  rw [start_property] at hholds
  simp only [run_eq_ok, Except.ok.injEq, exists_eq_left', overridden_eq, Shadowed]
  cases options.flatten with
  | nil => simp [start_property]
  | cons d later =>
      have hseen : base ++ [d] ++ later = base ++ d :: later := by simp
      rw [List.foldl_cons]
      by_cases hshadow : ∃ earlier u last, base = earlier ++ [u, last] ∧ u.1 = last.1 ∧ d.1 = last.1
      · obtain ⟨earlier, u, last, hbase, hu, hd⟩ := hshadow
        obtain ⟨eₗ, eᵤ, front, hfirst, rfl, rfl⟩ := start_reverse hbase
        have hstuck := stuck_of_first h (current_start base) hfirst hu hd
        have hread := effective_foldl_of_stuck (tracks_turn h d) hstuck (holds_turn hholds d) later
        simp only [hseen] at hread
        constructor
        · rintro hall ⟨earlier', u', last', d', later', hbase', -, -, -, hne⟩
          have hends : [eᵤ.property, eₗ.property] = [u', last'] :=
            (List.append_inj' (hbase.symm.trans hbase') rfl).2
          simp only [List.cons.injEq, and_true] at hends
          obtain ⟨rfl, rfl⟩ := hends
          have hname := (hread eₗ.tag).symm.trans (hall eₗ.tag)
          rw [if_pos (show eᵤ.tag = eₗ.tag from hu)] at hname
          exact hne hname.symm
        · intro hnot name
          rw [hread]
          by_cases hname : eᵤ.tag = name
          · rw [if_pos hname]
            by_contra hne
            refine hnot ⟨earlier, _, _, d, later, hbase, hu, rfl, hd, fun heq => hne ?_⟩
            rw [← hname, show eᵤ.tag = eₗ.tag from hu]
            exact heq.symm
          · rw [if_neg hname]
      · have hgood := good_first fun earlier u last hbase hu hd =>
          hshadow ⟨earlier, u, last, hbase, hu, hd⟩
        have hread :=
          effective_foldl_of_good (tracks_turn h d) hgood (holds_turn hholds d) later
        simp only [hseen] at hread
        refine iff_of_true hread ?_
        rintro ⟨earlier, u, last, d', later', hbase, hu, hd, hname, -⟩
        obtain ⟨rfl, rfl⟩ := List.cons.inj hd
        exact hshadow ⟨earlier, u, last, hbase, hu, hname⟩

/-- A base file that gives one name twice at its end, and an option that sets it. -/
theorem run_txn_timeout :
    ¬ ∃ combined, run [(("txn.timeout" : Str), ("30" : Str)), ("txn.timeout", "60")]
        [[("txn.timeout", "300")]] = .ok combined ∧
      ∀ name, effective combined name =
        overridden [(("txn.timeout" : Str), ("30" : Str)), ("txn.timeout", "60")]
          [[("txn.timeout", "300")]] name := by
  rintro ⟨combined, hrun, hread⟩
  rw [run_eq_ok, Except.ok.injEq] at hrun
  subst hrun
  have hname := hread "txn.timeout"
  revert hname
  decide

end Structor.XmlCombine
