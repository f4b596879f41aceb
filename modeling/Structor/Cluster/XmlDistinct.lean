import Structor.Cluster.XmlCombine

/-!
# Combining into a base file with distinct names

With distinct names in the base file the dictionary always points at the only element of
a name, so that every property replaces the one of its name and the others stay in order.
The base file is written once all option files are read.

## Main definitions

* `script` -- the command, on the files of the machine
* `Merges` -- what it makes of a base file with distinct names
* `RoundTrips` -- what is written is read back

## Main results

* `script_distinct` -- what the base file holds after the command, and after it is run again
-/
namespace Structor.XmlCombine
variable {κ α : Type} [DecidableEq κ] {s : Combining κ α}

/-- The names are distinct, and the dictionary holds their elements. -/
structure Apart (s : Combining κ α) : Prop where
  tracks : Tracks s
  current : Current s
  distinct : (s.first.map Element.tag).Nodup

/-! ## One turn -/

/-- A turn takes out the elements of its name. -/
theorem Apart.others_eq (h : Apart s) (k : κ) : others s k = s.first.filter fun e => e.tag ≠ k := by
  refine List.filter_congr fun e he => decide_eq_decide.mpr (not_congr ?_)
  constructor
  · intro hident
    obtain ⟨old, hold, hsame⟩ := Option.map_eq_some_iff.mp hident
    rw [h.tracks.eq_of_ident hold he hsame.symm]
    exact Keyed.key_of_get hold
  · intro htag
    have hdistinct : (s.first.reverse.map Element.tag).Nodup := by
      rw [List.map_reverse, List.nodup_reverse]
      exact h.distinct
    have hget : Keyed.get Element.tag e.tag s.first.reverse = some e :=
      Keyed.get_of_mem hdistinct (List.mem_reverse.mpr he)
    rw [h.current, ← htag, hget, Option.map_some]

theorem Apart.tag_ne (h : Apart s) {k : κ} {e : Element κ α} (he : e ∈ others s k) : e.tag ≠ k := by
  rw [h.others_eq] at he
  exact of_decide_eq_true (List.mem_filter.mp he).2

theorem apart_turn (h : Apart s) (p : κ × α) : Apart (turn s p) where
  tracks := tracks_turn h.tracks p
  current := by
    refine (current_turn h.tracks h.current ?_).1
    intro last front hothers
    refine h.tag_ne ?_
    rw [← List.mem_reverse, hothers]
    exact List.mem_cons_self
  distinct := by
    have hperm := insert_perm (others s p.1) { ident := s.parsed, tag := p.1, value := p.2 }
    rw [turn, (hperm.map Element.tag).nodup_iff, List.map_cons, List.nodup_cons]
    constructor
    · intro hmem
      obtain ⟨e, he, htag⟩ := List.mem_map.mp hmem
      exact h.tag_ne he htag
    · exact h.distinct.sublist (List.filter_sublist.map _)

/-- A turn adds its name to those of the list. -/
theorem Apart.mem_turn (h : Apart s) (p : κ × α) (k : κ) :
    k ∈ (turn s p).first.map Element.tag ↔ k = p.1 ∨ k ∈ s.first.map Element.tag := by
  have hperm := insert_perm (others s p.1) { ident := s.parsed, tag := p.1, value := p.2 }
  rw [turn, (hperm.map Element.tag).mem_iff, List.map_cons, List.mem_cons, h.others_eq]
  refine or_congr_right' fun hk => ?_
  constructor
  · intro hmem
    exact (List.filter_sublist.map Element.tag).subset hmem
  · intro hmem
    obtain ⟨e, he, htag⟩ := List.mem_map.mp hmem
    refine List.mem_map.mpr ⟨e, List.mem_filter.mpr ⟨he, ?_⟩, htag⟩
    rw [htag]
    exact decide_eq_true hk

omit [DecidableEq κ] in
theorem filter_insert (q : Element κ α → Bool) (xs : List (Element κ α)) {d : Element κ α}
    (hd : q d = false) : (insert xs d).filter q = xs.filter q := by
  rw [insert, List.filter_append, List.filter_cons_of_neg (by simp [hd]), ← List.filter_append]
  cases hlast : xs.getLast? with
  | none => simp [List.getLast?_eq_none_iff.mp hlast]
  | some last => rw [Option.toList_some, List.dropLast_append_getLast? last hlast]

/-- A turn leaves the elements of other names where they are. -/
theorem Apart.filter_turn (h : Apart s) {p : κ × α} (q : κ → Bool) (hq : q p.1 = false) :
    (turn s p).first.filter (fun e => q e.tag) = s.first.filter fun e => q e.tag := by
  rw [turn, filter_insert _ _ hq, h.others_eq, List.filter_filter]
  refine List.filter_congr fun e _ => ?_
  by_cases htag : e.tag = p.1
  · simp [htag, hq]
  · simp [htag]

/-! ## The run -/

theorem Apart.foldl_turn (h : Apart s) (ps : List (κ × α)) : Apart (ps.foldl turn s) := by
  induction ps generalizing s with
  | nil => exact h
  | cons p ps ih => exact ih (apart_turn h p)

theorem Apart.mem_foldl_turn (h : Apart s) (ps : List (κ × α)) (k : κ) :
    k ∈ (ps.foldl turn s).first.map Element.tag ↔
      k ∈ s.first.map Element.tag ∨ k ∈ ps.map Prod.fst := by
  induction ps generalizing s with
  | nil => simp
  | cons p ps ih =>
      rw [List.foldl_cons, ih (apart_turn h p), h.mem_turn, List.map_cons, List.mem_cons]
      tauto

theorem Apart.filter_foldl_turn (h : Apart s) (q : κ → Bool) {ps : List (κ × α)}
    (hq : ∀ p ∈ ps, q p.1 = false) :
    (ps.foldl turn s).first.filter (fun e => q e.tag) = s.first.filter fun e => q e.tag := by
  induction ps generalizing s with
  | nil => rfl
  | cons p ps ih =>
      rw [List.foldl_cons, ih (apart_turn h p) fun p' hp' => hq p' (List.mem_cons_of_mem p hp')]
      exact h.filter_turn q (hq p List.mem_cons_self)

theorem start_tags (base : List (κ × α)) :
    (start base).first.map Element.tag = base.map Prod.fst := by
  conv_rhs => rw [← start_property base, List.map_map]
  rfl

theorem apart_start {base : List (κ × α)} (h : (base.map Prod.fst).Nodup) : Apart (start base) where
  tracks := tracks_start base
  current := current_start base
  distinct := by rwa [start_tags]

/-- The combination has each name of the base file and the options once, and the properties
that no option file mentions are those of the base file, in their order. -/
structure Merges (base : List (κ × α)) (options : List (List (κ × α)))
    (combined : List (κ × α)) : Prop where
  distinct : (combined.map Prod.fst).Nodup
  names : ∀ k, k ∈ combined.map Prod.fst ↔
    k ∈ base.map Prod.fst ∨ ∃ data ∈ options, k ∈ data.map Prod.fst
  kept : (combined.filter fun p => ∀ data ∈ options, p.1 ∉ data.map Prod.fst) =
    base.filter fun p => ∀ data ∈ options, p.1 ∉ data.map Prod.fst

omit [DecidableEq κ] in
theorem map_fst_property (xs : List (Element κ α)) :
    (xs.map Element.property).map Prod.fst = xs.map Element.tag := by
  rw [List.map_map]
  rfl

omit [DecidableEq κ] in
theorem filter_property (q : κ → Bool) (xs : List (Element κ α)) :
    (xs.map Element.property).filter (fun p => q p.1) =
      (xs.filter fun e => q e.tag).map Element.property := by
  rw [List.filter_map]
  rfl

theorem exists_run (base : List (κ × α)) (options : List (List (κ × α)))
    (h : (base.map Prod.fst).Nodup) :
    ∃ combined, run base options = .ok combined ∧ Merges base options combined := by
  have hstart := apart_start h
  refine ⟨_, run_eq_ok base options, ?_, ?_, ?_⟩
  · rw [map_fst_property]
    exact (hstart.foldl_turn options.flatten).distinct
  · intro k
    rw [map_fst_property, hstart.mem_foldl_turn, start_tags, List.map_flatten]
    simp [List.mem_flatten]
  · have hunmentioned : ∀ p ∈ options.flatten,
        decide (∀ data ∈ options, p.1 ∉ data.map Prod.fst) = false := by
      intro p hp
      obtain ⟨data, hdata, hp⟩ := List.mem_flatten.mp hp
      exact decide_eq_false fun hnone => hnone data hdata (List.mem_map_of_mem hp)
    have hfilter := hstart.filter_foldl_turn
      (fun k => decide (∀ data ∈ options, k ∉ data.map Prod.fst)) hunmentioned
    rw [filter_property fun k => decide (∀ data ∈ options, k ∉ data.map Prod.fst), hfilter,
      ← filter_property fun k => decide (∀ data ∈ options, k ∉ data.map Prod.fst), start_property]

/-- With distinct names a property is what is read under its name. -/
theorem mem_iff_effective {file : List (κ × α)} (h : (file.map Prod.fst).Nodup) (p : κ × α) :
    p ∈ file ↔ effective file p.1 = some p.2 := by
  constructor
  · intro hp
    obtain ⟨a, ha, hmem⟩ := exists_writeAll hp
    have heq : (p.1, a) = p := List.inj_on_of_nodup_map h hmem hp rfl
    rw [effective, ha, ← heq]
  · intro hp
    obtain ⟨earlier, later, hfile, -⟩ := writeAll_eq_some_iff.mp hp
    simp [hfile]

theorem effective_append (earlier later : List (κ × α)) (k : κ) :
    effective (earlier ++ later) k = (effective later k).or (effective earlier k) :=
  writeAll_append earlier later k

/-- The last two of distinct names differ. -/
theorem not_shadowed {base : List (κ × α)} (h : (base.map Prod.fst).Nodup)
    (options : List (List (κ × α))) : ¬ Shadowed base options := by
  intro hshadowed
  obtain ⟨earlier, u, last, -, -, rfl, htag, -⟩ := hshadowed
  simp [List.nodup_append, htag] at h

theorem effective_run {base : List (κ × α)} {options : List (List (κ × α))}
    {combined : List (κ × α)} (h : (base.map Prod.fst).Nodup)
    (hrun : run base options = .ok combined) (k : κ) :
    effective combined k = effective (base ++ options.flatten) k := by
  obtain ⟨combined', hrun', hread⟩ := (effective_run_iff base options).mpr (not_shadowed h options)
  rw [hrun, Except.ok.injEq] at hrun'
  rw [hrun', hread, overridden_eq]

theorem Merges.mem_iff {base : List (κ × α)} {options : List (List (κ × α))}
    {combined : List (κ × α)} (hmerges : Merges base options combined)
    (h : (base.map Prod.fst).Nodup) (hrun : run base options = .ok combined) (p : κ × α) :
    p ∈ combined ↔ effective (base ++ options.flatten) p.1 = some p.2 := by
  rw [mem_iff_effective hmerges.distinct, effective_run h hrun]

/-- What is written comes from one of the files. -/
theorem Merges.mem_of_mem {base : List (κ × α)} {options : List (List (κ × α))}
    {combined : List (κ × α)} (hmerges : Merges base options combined)
    (h : (base.map Prod.fst).Nodup) (hrun : run base options = .ok combined) {p : κ × α}
    (hp : p ∈ combined) : p ∈ base ++ options.flatten := by
  have hread := (hmerges.mem_iff h hrun p).mp hp
  obtain ⟨earlier, later, hall, -⟩ := writeAll_eq_some_iff.mp hread
  rw [hall]
  exact List.mem_append_right _ List.mem_cons_self

/-- Option files that are as before, or hold the combination, give a name the value that it
has in the combination. -/
theorem effective_flatten_again {base combined : List (κ × α)} {options again : List (List (κ × α))}
    (hagain : List.Forall₂ (fun data data' => data' = data ∨ data' = combined) options again)
    {k : κ} (h : effective combined k = effective (base ++ options.flatten) k) :
    effective again.flatten k = effective combined k ∨ effective again.flatten k = none := by
  induction options using List.reverseRecOn generalizing again with
  | nil =>
      obtain rfl := List.forall₂_nil_left_iff.mp hagain
      exact .inr rfl
  | append_singleton options data ih =>
      obtain ⟨front, last, rfl, hlast, hfront⟩ := forall₂_concat_left hagain
      rw [List.flatten_append, List.flatten_singleton, ← List.append_assoc,
        effective_append] at h
      rw [List.flatten_append, List.flatten_singleton, effective_append]
      rcases hlast with rfl | rfl
      · cases hdata : effective last k with
        | none =>
            rw [hdata] at h
            exact ih hfront h
        | some a =>
            rw [hdata] at h
            exact .inl h.symm
      · rcases Option.eq_none_or_eq_some (effective last k) with hnone | ⟨a, ha⟩
        · have hbefore := (Option.or_eq_none_iff.mp (h.symm.trans hnone)).2
          have hrest := ih hfront (hnone.trans hbefore.symm)
          rw [hnone] at hrest
          rw [hnone, Option.none_or]
          exact hrest
        · rw [ha]
          exact .inl rfl

/-- Combining once more changes no value, also when the base file is one of the options. -/
theorem perm_of_run_run {base : List (κ × α)} {options options' : List (List (κ × α))}
    {combined again : List (κ × α)} (h : (base.map Prod.fst).Nodup)
    (hrun : run base options = .ok combined) (hmerges : Merges base options combined)
    (hoptions : List.Forall₂ (fun data data' => data' = data ∨ data' = combined) options options')
    (hagain : run combined options' = .ok again) (hmerges' : Merges combined options' again) :
    again.Perm combined := by
  refine (List.perm_ext_iff_of_nodup hmerges'.distinct.of_map hmerges.distinct.of_map).mpr ?_
  intro p
  rw [hmerges'.mem_iff hmerges.distinct hagain, mem_iff_effective hmerges.distinct]
  have hlast : effective (combined ++ options'.flatten) p.1 = effective combined p.1 := by
    rw [effective_append]
    rcases effective_flatten_again hoptions (effective_run h hrun p.1) with hsame | hnone
    · rw [hsame, Option.or_self]
    · rw [hnone, Option.none_or]
  rw [hlast]

/-! ## The command -/

section Script
variable {τ : Type} {parse : τ → Except Python.Error (List (Option (κ × α)))}
  {print : List (κ × α) → τ} {files : Str → Option τ} {base module : Str} {options : List Str}

/-- The option file `config-x.xml` of a module. -/
def template (module x : Str) : Str :=
  "/vagrant/modules/" ++ module ++ "/templates/config-" ++ x ++ ".xml"

/-- The children of the root of a file. A child without children of its own is `none`. -/
def parseFile (parse : τ → Except Python.Error (List (Option (κ × α)))) (files : Str → Option τ)
    (path : Str) : Except Python.Error (List (Option (κ × α))) :=
  match files path with
  | none => .error .ioError
  | some text => parse text

/-- The name of a child is the text of its first child. -/
def named (child : Option (κ × α)) : Except Python.Error (κ × α) :=
  match child with
  | none => .error .indexError
  | some p => .ok p

/-- The loop over one option file. -/
def combineFile (parse : τ → Except Python.Error (List (Option (κ × α)))) (files : Str → Option τ)
    (module : Str) (s : Combining κ α) (x : Str) : Except Python.Error (Combining κ α) := do
  let data ← parseFile parse files (template module x)
  data.foldlM (fun s d => do combine s (← named d)) s

/-- What is written over the base file. -/
def output (parse : τ → Except Python.Error (List (Option (κ × α)))) (files : Str → Option τ)
    (base module : Str) (options : List Str) : Except Python.Error (List (κ × α)) := do
  let first ← parseFile parse files base
  let properties ← first.mapM named
  let s ← options.foldlM (combineFile parse files module) (start properties)
  pure (s.first.map Element.property)

/-- The name that the base file gets. -/
def renamed (base : Str) (pid : ℕ) : Str := base ++ '.' :: decimal pid

/-- The base file is renamed and written anew. -/
def overwrite (files : Str → Option τ) (base : Str) (pid : ℕ) (text : τ) : Str → Option τ :=
  Function.update (Function.update (Function.update files (renamed base pid) (files base))
    base none) base (some text)

/-- The command, and the files that it leaves. -/
def script (parse : τ → Except Python.Error (List (Option (κ × α)))) (print : List (κ × α) → τ)
    (files : Str → Option τ) (pid : ℕ) (base module : Str) (options : List Str) :
    Except Python.Error Unit × (Str → Option τ) :=
  match output parse files base module options with
  | .error e => (.error e, files)
  | .ok combined => (.ok (), overwrite files base pid (print combined))

/-- A file that is there, is well formed, and gives every property a name. -/
def Reads (parse : τ → Except Python.Error (List (Option (κ × α)))) (files : Str → Option τ)
    (path : Str) (properties : List (κ × α)) : Prop :=
  parseFile parse files path = .ok (properties.map some)

omit [DecidableEq κ] in
theorem mapM_named (properties : List (κ × α)) :
    (properties.map some).mapM named = .ok properties := by
  induction properties with
  | nil => rfl
  | cons p properties ih =>
      rw [List.map_cons, List.mapM_cons, ih]
      rfl

theorem combineFile_of_reads {x : Str} {data : List (κ × α)}
    (h : Reads parse files (template module x) data) (s : Combining κ α) :
    combineFile parse files module s x = data.foldlM combine s := by
  have hread : parseFile parse files (template module x) = .ok (data.map some) := h
  simp only [combineFile, hread, bind, Except.bind, List.foldlM_map]
  rfl

/-- Without a missing or malformed file the output is the combination. -/
theorem output_eq_run {properties : List (κ × α)} {datas : List (List (κ × α))}
    (hbase : Reads parse files base properties)
    (h : List.Forall₂ (fun x => Reads parse files (template module x)) options datas) :
    output parse files base module options = run properties datas := by
  have hfiles : ∀ s, options.foldlM (combineFile parse files module) s =
      datas.foldlM (fun s data => data.foldlM combine s) s := by
    induction h with
    | nil => exact fun s => rfl
    | cons hread _ ih =>
        intro s
        rw [List.foldlM_cons, List.foldlM_cons, combineFile_of_reads hread]
        exact bind_congr ih
  have hread : parseFile parse files base = .ok (properties.map some) := hbase
  simp only [output, hread, mapM_named, hfiles, bind, Except.bind]
  rfl

/-- A loop over an option file that does not raise has read all of it. -/
theorem reads_of_combineFile {x : Str} {s s' : Combining κ α}
    (h : combineFile parse files module s x = .ok s') :
    ∃ data, Reads parse files (template module x) data := by
  obtain ⟨data, hdata, hloop⟩ := Python.bind_eq_ok h
  have hnamed : ∃ properties : List (κ × α), data = properties.map some := by
    clear hdata h
    induction data generalizing s with
    | nil => exact ⟨[], rfl⟩
    | cons d data ih =>
        rw [List.foldlM_cons] at hloop
        obtain ⟨s₁, hd, hrest⟩ := Python.bind_eq_ok hloop
        obtain ⟨properties, rfl⟩ := ih hrest
        cases d with
        | none => cases hd
        | some p => exact ⟨p :: properties, rfl⟩
  obtain ⟨properties, rfl⟩ := hnamed
  exact ⟨properties, hdata⟩

/-- Option files that are combined without an exception have been read. -/
theorem reads_of_foldlM {s s' : Combining κ α}
    (h : options.foldlM (combineFile parse files module) s = .ok s') :
    ∀ x ∈ options, ∃ data, Reads parse files (template module x) data := by
  induction options generalizing s with
  | nil => simp
  | cons x options ih =>
      rw [List.foldlM_cons] at h
      obtain ⟨s₁, hx, hrest⟩ := Python.bind_eq_ok h
      intro y hy
      rcases List.mem_cons.mp hy with rfl | hy
      · exact reads_of_combineFile hx
      · exact ih hrest y hy

/-- There is an output only when every option file is read. -/
theorem reads_of_output {combined : List (κ × α)}
    (h : output parse files base module options = .ok combined) :
    ∀ x ∈ options, ∃ data, Reads parse files (template module x) data := by
  obtain ⟨first, -, h⟩ := Python.bind_eq_ok h
  obtain ⟨properties, -, h⟩ := Python.bind_eq_ok h
  obtain ⟨s', h, -⟩ := Python.bind_eq_ok h
  exact reads_of_foldlM h

/-! ## The files after the command -/

/-- What is written for some of the properties is read back. -/
def RoundTrips (parse : τ → Except Python.Error (List (Option (κ × α))))
    (print : List (κ × α) → τ) (properties : List (κ × α)) : Prop :=
  ∀ written, (∀ p ∈ written, p ∈ properties) → parse (print written) = .ok (written.map some)

theorem renamed_ne (base : Str) (pid : ℕ) : renamed base pid ≠ base := by
  intro h
  have hlength := congrArg List.length h
  rw [renamed, List.length_append, List.length_cons] at hlength
  omega

theorem getLast?_append_xml (s : Str) : (s ++ (".xml" : Str)).getLast? = some 'l' := by
  have hxml : (".xml" : Str).getLast? = some 'l' := by decide
  rw [List.getLast?_append, hxml, Option.some_or]

/-- The name of an option file ends in a letter. -/
theorem template_ne_renamed (module x base : Str) (pid : ℕ) :
    template module x ≠ renamed base pid := by
  intro h
  have htemplate : (template module x).getLast? = some 'l' := getLast?_append_xml _
  have hpid : decimal pid ≠ [] := decimal_ne_nil _
  rw [h, renamed, List.getLast?_append_cons, List.getLast?_cons_of_ne_nil hpid] at htemplate
  have hdecimal : 'l' ∈ decimal pid := List.mem_of_getLast? htemplate
  rcases mem_decimal hdecimal with h | h <;> revert h <;> decide

variable {pid : ℕ} {text : τ} {path : Str}

theorem overwrite_base : overwrite files base pid text base = some text :=
  Function.update_self _ _ _

theorem overwrite_renamed : overwrite files base pid text (renamed base pid) = files base := by
  rw [overwrite, Function.update_of_ne (renamed_ne base pid),
    Function.update_of_ne (renamed_ne base pid), Function.update_self]

theorem overwrite_of_ne (hbase : path ≠ base) (hrenamed : path ≠ renamed base pid) :
    overwrite files base pid text path = files path := by
  rw [overwrite, Function.update_of_ne hbase, Function.update_of_ne hbase,
    Function.update_of_ne hrenamed]

omit [DecidableEq κ] in
/-- After the command an option file reads as before, or it is the base file. -/
theorem reads_overwrite {datas : List (List (κ × α))} {combined : List (κ × α)}
    (hbase : Reads parse (overwrite files base pid text) base combined)
    (h : List.Forall₂ (fun x => Reads parse files (template module x)) options datas) :
    ∃ datas', List.Forall₂ (fun data data' => data' = data ∨ data' = combined) datas datas' ∧
      List.Forall₂ (fun x => Reads parse (overwrite files base pid text) (template module x))
        options datas' := by
  induction h with
  | nil => exact ⟨[], .nil, .nil⟩
  | @cons x data options datas hdata _ ih =>
      obtain ⟨datas', hsame, hreads⟩ := ih
      by_cases hx : template module x = base
      · exact ⟨combined :: datas', .cons (.inr rfl) hsame, .cons (by rwa [hx]) hreads⟩
      · refine ⟨data :: datas', .cons (.inl rfl) hsame, .cons ?_ hreads⟩
        rw [Reads, parseFile, overwrite_of_ne hx (template_ne_renamed module x base pid)]
        exact hdata

/-- What the command leaves when no file is missing or malformed. -/
theorem script_eq {properties : List (κ × α)} {datas : List (List (κ × α))}
    {combined : List (κ × α)} (hbase : Reads parse files base properties)
    (h : List.Forall₂ (fun x => Reads parse files (template module x)) options datas)
    (hrun : run properties datas = .ok combined) (pid : ℕ) :
    script parse print files pid base module options =
      (.ok (), overwrite files base pid (print combined)) := by
  rw [script, output_eq_run hbase h, hrun]

/-- On a base file with distinct names the command merges the option files into it and touches
no other file but the one that the base file is renamed to. Running it once more changes no
value. And if an option file is missing or malformed every file stays as it was. -/
theorem script_distinct (parse : τ → Except Python.Error (List (Option (κ × α))))
    (print : List (κ × α) → τ) (files : Str → Option τ) (pid : ℕ) (base module : Str)
    (options : List Str) {properties : List (κ × α)} (hbase : Reads parse files base properties)
    (hdistinct : (properties.map Prod.fst).Nodup) :
    (∀ datas, List.Forall₂ (fun x => Reads parse files (template module x)) options datas →
      RoundTrips parse print (properties ++ datas.flatten) →
      ∃ files' combined, script parse print files pid base module options = (.ok (), files') ∧
        Reads parse files' base combined ∧ Merges properties datas combined ∧
        files' (renamed base pid) = files base ∧
        (∀ path, path ≠ base → path ≠ renamed base pid → files' path = files path) ∧
        ∀ pid', ∃ files'' again,
          script parse print files' pid' base module options = (.ok (), files'') ∧
            Reads parse files'' base again ∧ again.Perm combined) ∧
    ((∃ x ∈ options, ∀ data, ¬ Reads parse files (template module x) data) →
      ∃ e, script parse print files pid base module options = (.error e, files)) := by
  constructor
  · intro datas hreads hprint
    obtain ⟨combined, hrun, hmerges⟩ := exists_run properties datas hdistinct
    have hread (files : Str → Option τ) (pid : ℕ) {written : List (κ × α)}
        (hwritten : ∀ p ∈ written, p ∈ properties ++ datas.flatten) :
        Reads parse (overwrite files base pid (print written)) base written := by
      rw [Reads, parseFile, overwrite_base]
      exact hprint written hwritten
    have hcombined := hread files pid fun p hp =>
      hmerges.mem_of_mem hdistinct hrun hp
    refine ⟨_, combined, script_eq hbase hreads hrun pid, hcombined, hmerges, overwrite_renamed,
      fun path hpath hrenamed => overwrite_of_ne hpath hrenamed, fun pid' => ?_⟩
    obtain ⟨datas', hsame, hreads'⟩ := reads_overwrite hcombined hreads
    obtain ⟨again, hagain, hmerges'⟩ := exists_run combined datas' hmerges.distinct
    have hperm := perm_of_run_run hdistinct hrun hmerges hsame hagain hmerges'
    exact ⟨_, again, script_eq hcombined hreads' hagain pid', hread _ pid' fun p hp =>
      hmerges.mem_of_mem hdistinct hrun (hperm.mem_iff.mp hp), hperm⟩
  · intro hunread
    obtain ⟨x, hx, hnone⟩ := hunread
    cases hout : output parse files base module options with
    | error e => exact ⟨e, by rw [script, hout]⟩
    | ok combined =>
        obtain ⟨data, hdata⟩ := reads_of_output hout x hx
        exact absurd hdata (hnone data)

end Script

def sampleSite : List (Str × Str) :=
  [("hive.execution.engine", "mr"), ("hive.cli.print.header", "true")]

def sampleTez : List (Str × Str) :=
  [("hive.execution.engine", "tez"), ("hive.cbo.enable", "true")]

/-- A base file, and one of two option files. Files hold their properties. -/
def sampleFiles (path : Str) : Option (List (Option (Str × Str))) :=
  if path = ("hive-site.xml" : Str) then some (sampleSite.map some)
  else if path = template "hive_client" "tez" then some (sampleTez.map some)
  else none

/-- One option file is merged, and a missing one leaves everything in place. -/
theorem script_sample :
    (∃ files' combined, script .ok (List.map some) sampleFiles 42 "hive-site.xml" "hive_client"
        ["tez"] = (.ok (), files') ∧
      files' "hive-site.xml" = some (combined.map some) ∧ Merges sampleSite [sampleTez] combined) ∧
    ∃ e, script .ok (List.map some) sampleFiles 42 "hive-site.xml" "hive_client"
      ["tez", "llap"] = (.error e, sampleFiles) := by
  have hbase : Reads .ok sampleFiles "hive-site.xml" sampleSite := rfl
  have htez : Reads .ok sampleFiles (template "hive_client" "tez") sampleTez := rfl
  have hllap : ∀ data, ¬ Reads .ok sampleFiles (template "hive_client" "llap") data := by
    intro data h
    cases h
  constructor
  · obtain ⟨files', combined, hscript, hread, hmerges, -⟩ := (script_distinct .ok (List.map some)
      sampleFiles 42 "hive-site.xml" "hive_client" ["tez"] hbase (by decide)).1 _
      (.cons htez .nil) fun written _ => rfl
    refine ⟨files', combined, hscript, ?_, hmerges⟩
    rw [Reads, parseFile] at hread
    cases hfile : files' "hive-site.xml" with
    | none =>
        rw [hfile] at hread
        cases hread
    | some text =>
        rw [hfile] at hread
        exact congrArg some (Except.ok.inj hread)
  · exact (script_distinct .ok (List.map some) sampleFiles 42 "hive-site.xml" "hive_client"
      ["tez", "llap"] hbase (by decide)).2 ⟨"llap", by simp, hllap⟩

end Structor.XmlCombine
