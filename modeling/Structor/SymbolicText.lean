import Mathlib.Data.List.Nodup
import Mathlib.Tactic.Common

/-!
# Texts with variables

A symbolic text is a list of letters and variables. A valuation renders it to a list of letters.
Symbolic texts are compared so that the answer holds of all their renderings, and a search tree
of the texts of some items tells which items have texts that can be rendered alike.

## Main definitions

* `render` -- the letters of a symbolic text under a valuation
* `precedes` -- every rendering of a text is before every rendering of another
* `Index` -- a search tree of symbolic texts, each with its owners
* `Apart` -- only items that are related may have one text
* `encode`, `letters` -- the letters of a string, for a string that is compared by its bytes
-/
namespace Structor.SymbolicText
variable {ν ω : Type}

inductive Symbol (ν : Type) where
  | letter (a : ℕ)
  | var (v : ν)
deriving DecidableEq

abbrev Symbolic (ν : Type) := List (Symbol ν)

def Symbol.render (val : ν → List ℕ) : Symbol ν → List ℕ
  | .letter a => [a]
  | .var v => val v

def render (val : ν → List ℕ) (s : Symbolic ν) : List ℕ := s.flatMap (Symbol.render val)

/-- The letters of the values of a variable are at most its limit. -/
def Limited (limit : ν → Option ℕ) (val : ν → List ℕ) : Prop :=
  ∀ v m, limit v = some m → ∀ a ∈ val v, a ≤ m

/-! ## Comparison -/

/-- Every rendering is empty or begins with a letter before `b`. -/
def headBelow (limit : ν → Option ℕ) (b : ℕ) : Symbolic ν → Bool
  | [] => true
  | .letter a :: _ => a.blt b
  | .var v :: s =>
      match limit v with
      | none => false
      | some m => m.blt b && headBelow limit b s

/-- With `lt` every rendering of the first text is before every rendering of the second one. With
`eq` they are one text. With `gt` the texts may render in any order. -/
def compare [DecidableEq ν] (limit : ν → Option ℕ) : Symbolic ν → Symbolic ν → Ordering
  | [], [] => .eq
  | [], .letter _ :: _ => .lt
  | .letter a :: s, .letter b :: t =>
      bif a.beq b then compare limit s t else bif a.blt b then .lt else .gt
  | .var v :: s, .var w :: t => if v = w then compare limit s t else .gt
  | .var v :: s, .letter b :: _ => bif headBelow limit b (.var v :: s) then .lt else .gt
  | _, _ => .gt

section
variable {limit : ν → Option ℕ} {val : ν → List ℕ}

theorem render_cons (x : Symbol ν) (s : Symbolic ν) :
    render val (x :: s) = x.render val ++ render val s := List.flatMap_cons

theorem render_append (s t : Symbolic ν) : render val (s ++ t) = render val s ++ render val t :=
  List.flatMap_append

theorem render_map_letter (l : List ℕ) : render val (l.map Symbol.letter) = l := by
  induction l with
  | nil => rfl
  | cons a l ih => rw [List.map_cons, render_cons, ih, Symbol.render, List.singleton_append]

theorem lt_of_headBelow (hval : Limited limit val) {b : ℕ} {s : Symbolic ν}
    (h : headBelow limit b s = true) (l : List ℕ) : render val s < b :: l := by
  induction s with
  | nil => exact List.nil_lt_cons b l
  | cons x s ih =>
      rw [render_cons]
      cases x with
      | letter a =>
          have hab : a < b := Nat.blt_eq.mp h
          exact List.cons_lt_cons_iff.mpr (.inl hab)
      | var v =>
          cases hm : limit v with
          | none => simp [headBelow, hm] at h
          | some m =>
              simp only [headBelow, hm, Bool.and_eq_true, Nat.blt_eq] at h
              cases hv : val v with
              | nil => simpa only [Symbol.render, hv, List.nil_append] using ih h.2
              | cons a as =>
                  have ham : a ≤ m := hval v m hm a (hv ▸ List.mem_cons_self)
                  simp only [Symbol.render, hv, List.cons_append]
                  exact List.cons_lt_cons_iff.mpr (.inl (by omega))

/-- The comparison is sound for every valuation that keeps the limits. -/
theorem lt_of_compare [DecidableEq ν] (hval : Limited limit val) {s t : Symbolic ν}
    (h : compare limit s t = .lt) : render val s < render val t := by
  fun_induction compare limit s t with
  | case1 => cases h
  | case2 b t => exact List.nil_lt_cons b (render val t)
  | case3 a s b t hab ih =>
      rw [render_cons, render_cons]
      exact List.cons_lt_cons_iff.mpr (.inr ⟨Nat.eq_of_beq_eq_true hab, ih h⟩)
  | case4 a s b t hne hab =>
      rw [render_cons, render_cons]
      exact List.cons_lt_cons_iff.mpr (.inl (Nat.blt_eq.mp hab))
  | case5 => cases h
  | case6 s v t ih =>
      rw [render_cons, render_cons]
      exact List.append_left_lt (ih h)
  | case7 => cases h
  | case8 v s b t hb => exact lt_of_headBelow hval hb (render val t)
  | case9 => cases h
  | case10 => cases h

theorem eq_of_compare [DecidableEq ν] {s t : Symbolic ν} (h : compare limit s t = .eq) :
    s = t := by
  fun_induction compare limit s t with
  | case1 => rfl
  | case3 a s b t hab ih => rw [Nat.eq_of_beq_eq_true hab, ih h]
  | case6 s v t ih => rw [ih h]
  | _ => cases h

end

/-! ## Strings -/

/-- The letters of a string are its bytes, which are cheap to compute for a literal. -/
def encode (l : List Char) : List ℕ := (l.flatMap String.utf8EncodeChar).map UInt8.toNat

def letters (s : String) : Symbolic ν :=
  (s.toByteArray.data.toList.map UInt8.toNat).map Symbol.letter

theorem encode_append (l l' : List Char) : encode (l ++ l') = encode l ++ encode l' := by
  simp only [encode, List.flatMap_append, List.map_append]

theorem encode_flatMap {α : Type} (l : List α) (g : α → List Char) :
    encode (l.flatMap g) = l.flatMap fun x => encode (g x) := by
  induction l with
  | nil => rfl
  | cons x l ih => rw [List.flatMap_cons, encode_append, ih, List.flatMap_cons]

theorem render_letters (val : ν → List ℕ) (s : String) :
    render val (letters s) = encode s.toList := by
  have hbytes : s.toByteArray.data.toList = s.toList.flatMap String.utf8EncodeChar := by
    conv_lhs => rw [← String.ofList_toList (s := s), String.toByteArray_ofList, List.utf8Encode]
    exact List.toList_data_toByteArray
  rw [letters, render_map_letter, hbytes, encode]

theorem encode_cons {c : Char} (h : c.toNat < 128) (l : List Char) :
    encode (c :: l) = c.toNat :: encode l := by
  have hc : String.utf8EncodeChar c = [UInt8.ofNat c.toNat] := by
    rw [String.utf8EncodeChar]
    exact if_pos (Nat.le_of_lt_succ h)
  rw [encode, List.flatMap_cons, hc, List.singleton_append, List.map_cons, encode,
    UInt8.toNat_ofNat_of_lt' (Nat.lt_trans h (by decide))]

/-- A bound of the characters is one of the letters. -/
theorem le_of_mem_encode {m : ℕ} (hm : m < 128) {l : List Char} (h : ∀ c ∈ l, c.toNat ≤ m) :
    ∀ a ∈ encode l, a ≤ m := by
  induction l with
  | nil => simp [encode]
  | cons c l ih =>
      rw [List.forall_mem_cons] at h
      rw [encode_cons (by omega), List.forall_mem_cons]
      exact ⟨h.1, ih h.2⟩

/-! ## The search tree -/

inductive Index (ν ω : Type) where
  | leaf
  | node (left : Index ν ω) (text : Symbolic ν) (owners : List ω) (right : Index ν ω)

namespace Index

def insert [DecidableEq ν] (limit : ν → Option ℕ) (item : Symbolic ν × ω) : Index ν ω → Index ν ω
  | leaf => node leaf item.1 [item.2] leaf
  | node left text owners right =>
      match compare limit item.1 text with
      | .lt => node (left.insert limit item) text owners right
      | .eq => node left text (item.2 :: owners) right
      | .gt => node left text owners (right.insert limit item)

/-- The texts and their owners, in order. -/
def entries : Index ν ω → List (Symbolic ν × List ω)
  | leaf => []
  | node left text owners right => left.entries ++ (text, owners) :: right.entries

def Owns (index : Index ν ω) (item : Symbolic ν × ω) : Prop :=
  ∃ owners, (item.1, owners) ∈ index.entries ∧ item.2 ∈ owners

variable [DecidableEq ν] {limit : ν → Option ℕ}

theorem owns_insert_self (item : Symbolic ν × ω) (index : Index ν ω) :
    (index.insert limit item).Owns item := by
  induction index with
  | leaf => exact ⟨[item.2], by simp [insert, entries]⟩
  | node left text owners right ihl ihr =>
      rw [insert]
      cases h : compare limit item.1 text with
      | lt =>
          obtain ⟨os, hmem, hos⟩ := ihl
          exact ⟨os, List.mem_append_left _ hmem, hos⟩
      | eq =>
          refine ⟨item.2 :: owners, ?_, List.mem_cons_self⟩
          rw [eq_of_compare h]
          exact List.mem_append_right _ List.mem_cons_self
      | gt =>
          obtain ⟨os, hmem, hos⟩ := ihr
          exact ⟨os, List.mem_append_right _ (List.mem_cons_of_mem _ hmem), hos⟩

theorem Owns.insert {x : Symbolic ν × ω} {index : Index ν ω} (h : index.Owns x)
    (item : Symbolic ν × ω) : (index.insert limit item).Owns x := by
  induction index with
  | leaf =>
      obtain ⟨os, hmem, -⟩ := h
      cases hmem
  | node left text owners right ihl ihr =>
      obtain ⟨os, hmem, hos⟩ := h
      rw [entries, List.mem_append, List.mem_cons] at hmem
      rw [Index.insert]
      cases hc : compare limit item.1 text with
      | lt =>
          rcases hmem with hleft | hhere
          · obtain ⟨os', hmem', hos'⟩ := ihl ⟨os, hleft, hos⟩
            exact ⟨os', List.mem_append_left _ hmem', hos'⟩
          · exact ⟨os, List.mem_append_right _ (List.mem_cons.mpr hhere), hos⟩
      | eq =>
          rcases hmem with hleft | hhere | hright
          · exact ⟨os, List.mem_append_left _ hleft, hos⟩
          · cases hhere
            exact ⟨item.2 :: owners, List.mem_append_right _ List.mem_cons_self,
              List.mem_cons_of_mem _ hos⟩
          · exact ⟨os, List.mem_append_right _ (List.mem_cons_of_mem _ hright), hos⟩
      | gt =>
          rcases hmem with hleft | hhere | hright
          · exact ⟨os, List.mem_append_left _ hleft, hos⟩
          · exact ⟨os, List.mem_append_right _ (List.mem_cons.mpr (.inl hhere)), hos⟩
          · obtain ⟨os', hmem', hos'⟩ := ihr ⟨os, hright, hos⟩
            exact ⟨os', List.mem_append_right _ (List.mem_cons_of_mem _ hmem'), hos'⟩

end Index

/-! ## Items that are apart -/

variable [DecidableEq ν] {limit : ν → Option ℕ} {val : ν → List ℕ}

def index (limit : ν → Option ℕ) (items : List (Symbolic ν × ω)) : Index ν ω :=
  items.foldr (Index.insert limit) .leaf

def ascending (limit : ν → Option ℕ) : List (Symbolic ν × List ω) → Bool
  | a :: b :: l => (compare limit a.1 b.1).isLT && ascending limit (b :: l)
  | _ => true

/-- The texts of the tree are in strict order, and the owners of one text are related. -/
def Apart (limit : ν → Option ℕ) (related : ω → ω → Bool) (items : List (Symbolic ν × ω)) : Bool :=
  ascending limit (index limit items).entries &&
    (index limit items).entries.all fun e => e.2.all fun a => e.2.all (related a)

theorem owns_index {items : List (Symbolic ν × ω)} {x : Symbolic ν × ω} (hx : x ∈ items) :
    (index limit items).Owns x := by
  induction items with
  | nil => cases hx
  | cons item items ih =>
      rw [index, List.foldr_cons]
      rcases List.mem_cons.mp hx with rfl | hx
      · exact Index.owns_insert_self x _
      · exact (ih hx).insert item

theorem pairwise_of_ascending (hval : Limited limit val) {l : List (Symbolic ν × List ω)}
    (h : ascending limit l = true) : (l.map fun e => render val e.1).Pairwise (· < ·) := by
  fun_induction ascending limit l with
  | case1 a b l ih =>
      rw [Bool.and_eq_true] at h
      have hab : render val a.1 < render val b.1 :=
        lt_of_compare hval (Ordering.isLT_iff_eq_lt.mp h.1)
      have hl := ih h.2
      rw [List.map_cons, List.pairwise_cons] at hl ⊢
      refine ⟨?_, List.pairwise_cons.mpr hl⟩
      intro x hx
      rcases List.mem_cons.mp hx with rfl | hx
      · exact hab
      · exact List.lt_trans hab (hl.1 x hx)
  | case2 l hl =>
      match l with
      | [] => exact .nil
      | [a] => exact List.pairwise_singleton _ _
      | a :: b :: l => exact absurd rfl (hl a b l)

/-- Items with texts that are rendered alike are related. -/
theorem related_of_render_eq (hval : Limited limit val) {related : ω → ω → Bool}
    {items : List (Symbolic ν × ω)} (h : Apart limit related items = true) {x y : Symbolic ν × ω}
    (hx : x ∈ items) (hy : y ∈ items) (heq : render val x.1 = render val y.1) :
    related x.2 y.2 = true := by
  rw [Apart, Bool.and_eq_true] at h
  have hnodup : ((index limit items).entries.map fun e => render val e.1).Nodup :=
    (pairwise_of_ascending hval h.1).imp fun {a b} (hlt : a < b) (hab : a = b) =>
      List.lt_irrefl b (hab ▸ hlt)
  obtain ⟨as, has, ha⟩ : (index limit items).Owns x := owns_index hx
  obtain ⟨bs, hbs, hb⟩ : (index limit items).Owns y := owns_index hy
  have hsame : (x.1, as) = (y.1, bs) := List.inj_on_of_nodup_map hnodup has hbs heq
  have hrelated := List.all_eq_true.mp (List.all_eq_true.mp h.2 _ has) _ ha
  rw [congrArg Prod.snd hsame] at hrelated
  exact List.all_eq_true.mp hrelated _ hb

end Structor.SymbolicText
