import Mathlib.Algebra.Group.Action.Defs
import Mathlib.Data.List.Forall2
import Mathlib.Tactic.Common

/-!
# Programs on a state that only moves

The effect of a program on its state is often only an amount: how far a stream is read, how
much is used. Amounts form a commutative monoid that acts on the states, and a program is
described by the amount it takes and its result together. The results of two runs are
compared by what their states agree on.

## Main definitions

* `Returns` -- what holds of the result, in whatever state the program starts
* `Metered` -- the state is moved by an amount that fits the result
* `Coupled` -- two programs on related states have related results, and keep the relation

## Main results

* `Coupled.shares` -- work that is done in shares has the results of the whole run
-/
namespace Structor

section Runs

variable {σ α ι : Type} {f : ι → StateM σ α}

/-- A result of a run over a list comes from an element, in some state. -/
theorem of_mem_mapM {l : List ι} {s : σ} {a : α} (ha : a ∈ (l.mapM f s).1) :
    ∃ i ∈ l, ∃ t, a = (f i t).1 := by
  induction l generalizing s with
  | nil => exact absurd ha List.not_mem_nil
  | cons i l ih =>
      rw [List.mapM_cons] at ha
      rcases List.mem_cons.mp ha with rfl | ha
      · exact ⟨i, List.mem_cons_self, s, rfl⟩
      · obtain ⟨j, hj, t, rfl⟩ := ih ha
        exact ⟨j, List.mem_cons_of_mem i hj, t, rfl⟩

/-- Each element has its result. -/
theorem exists_mem_mapM {l : List ι} (s : σ) {i : ι} (hi : i ∈ l) :
    ∃ t, (f i t).1 ∈ (l.mapM f s).1 := by
  induction l generalizing s with
  | nil => exact absurd hi List.not_mem_nil
  | cons j l ih =>
      rw [List.mapM_cons]
      rcases List.mem_cons.mp hi with rfl | hi
      · exact ⟨s, List.mem_cons_self⟩
      · obtain ⟨t, ht⟩ := ih (f j s).2 hi
        exact ⟨t, List.mem_cons_of_mem _ ht⟩

end Runs

section Returns

variable {σ α β ι : Type}

/-- Whatever the state is, `P` holds of the result. -/
def Returns (P : α → Prop) (p : StateM σ α) : Prop := ∀ s, P (p s).1

theorem Returns.pure {P : α → Prop} {a : α} (h : P a) : Returns P (pure a : StateM σ α) :=
  fun _ => h

theorem Returns.bind {P : α → Prop} {P' : β → Prop} {p : StateM σ α} {q : α → StateM σ β}
    (hp : Returns P p) (hq : ∀ a, P a → Returns P' (q a)) : Returns P' (p >>= q) :=
  fun s => hq _ (hp s) _

/-- Nothing is asked of the first result. -/
theorem Returns.bind_any {P' : β → Prop} {p : StateM σ α} {q : α → StateM σ β}
    (hq : ∀ a, Returns P' (q a)) : Returns P' (p >>= q) :=
  fun _ => hq _ _

theorem Returns.map {P : α → Prop} {P' : β → Prop} {p : StateM σ α} {f : α → β}
    (h : Returns P p) (hf : ∀ a, P a → P' (f a)) : Returns P' (f <$> p) :=
  fun s => hf _ (h s)

theorem Returns.mapM {P : β → Prop} {f : ι → StateM σ β} {l : List ι}
    (hf : ∀ i ∈ l, Returns P (f i)) : Returns (fun bs => ∀ b ∈ bs, P b) (l.mapM f) := by
  intro s b hb
  obtain ⟨i, hi, t, rfl⟩ := of_mem_mapM hb
  exact hf i hi t

/-- The results of a list, each with what holds of it. -/
theorem Returns.mapM_forall₂ {P : ι → β → Prop} {f : ι → StateM σ β} (l : List ι)
    (hf : ∀ i, Returns (P i) (f i)) : Returns (List.Forall₂ P l) (l.mapM f) := by
  induction l with
  | nil => exact Returns.pure .nil
  | cons i l ih =>
      rw [List.mapM_cons]
      refine (hf i).bind fun b hb => ?_
      exact ih.bind fun bs hbs => Returns.pure (hbs.cons hb)

end Returns

section Metered

variable {M σ α β ι : Type} [AddCommMonoid M] [AddAction M σ]

/-- The program moves its state by an amount `n`, and `Q` relates this amount to the result. -/
def Metered (Q : M → α → Prop) (p : StateM σ α) : Prop :=
  ∀ s, ∃ n : M, (p s).2 = n +ᵥ s ∧ Q n (p s).1

theorem Metered.pure {Q : M → α → Prop} {a : α} (h : Q 0 a) :
    Metered Q (pure a : StateM σ α) :=
  fun s => ⟨0, (zero_vadd M s).symm, h⟩

theorem Metered.returns {Q : M → α → Prop} {P : α → Prop} {p : StateM σ α} (h : Metered Q p)
    (hP : ∀ n a, Q n a → P a) : Returns P p := by
  intro s
  obtain ⟨n, _, hq⟩ := h s
  exact hP n _ hq

theorem Metered.mono {Q Q' : M → α → Prop} {p : StateM σ α} (h : Metered Q p)
    (hQ : ∀ n a, Q n a → Q' n a) : Metered Q' p := by
  intro s
  obtain ⟨n, hn, hq⟩ := h s
  exact ⟨n, hn, hQ n _ hq⟩

/-- Amounts add up. -/
theorem Metered.bind {Q : M → α → Prop} {Q' : M → β → Prop} {p : StateM σ α}
    {q : α → StateM σ β} (hp : Metered Q p)
    (hq : ∀ m a, Q m a → Metered (fun n b => Q' (m + n) b) (q a)) : Metered Q' (p >>= q) := by
  intro s
  obtain ⟨m, hm, hQ⟩ := hp s
  obtain ⟨n, hn, hQ'⟩ := hq m _ hQ (p s).2
  refine ⟨m + n, ?_, hQ'⟩
  calc ((p >>= q) s).2 = (q (p s).1 (p s).2).2 := rfl
    _ = (m + n) +ᵥ s := by rw [hn, hm, vadd_vadd, add_comm]

theorem Metered.map {Q : M → α → Prop} {Q' : M → β → Prop} {p : StateM σ α} {f : α → β}
    (h : Metered Q p) (hf : ∀ n a, Q n a → Q' n (f a)) : Metered Q' (f <$> p) := by
  intro s
  obtain ⟨n, hn, hq⟩ := h s
  exact ⟨n, hn, hf n _ hq⟩

/-- Each element of a list takes an amount for which `Q` holds. -/
theorem Metered.mapM {Q : M → β → Prop} {Q' : M → List β → Prop} {f : ι → StateM σ β}
    (l : List ι) (hf : ∀ i ∈ l, Metered Q (f i)) (hnil : Q' 0 [])
    (hcons : ∀ m n b bs, Q m b → Q' n bs → Q' (m + n) (b :: bs)) : Metered Q' (l.mapM f) := by
  induction l with
  | nil => exact Metered.pure hnil
  | cons i l ih =>
      rw [List.mapM_cons]
      refine (hf i List.mem_cons_self).bind fun m b hb => ?_
      refine (ih fun j hj => hf j (List.mem_cons_of_mem i hj)).bind fun n bs hbs => ?_
      exact Metered.pure (by simpa using hcons m n b bs hb hbs)

/-- A loop: `Q k` is kept about what the first `k` turns take and leave. -/
theorem Metered.foldlM {Q : ℕ → M → β → Prop} {f : β → ι → StateM σ β} (l : List ι) {k : ℕ}
    {m : M} {b : β} (hb : Q k m b)
    (hf : ∀ k m b, Q k m b → ∀ i ∈ l, Metered (fun n b' => Q (k + 1) (m + n) b') (f b i)) :
    Metered (fun n b' => Q (k + l.length) (m + n) b') (l.foldlM f b) := by
  induction l generalizing k m b with
  | nil => exact Metered.pure (by simpa using hb)
  | cons i l ih =>
      rw [List.foldlM_cons]
      refine (hf k m b hb i List.mem_cons_self).bind fun n b' hb' => ?_
      refine (ih hb' fun k m b hQ j hj => hf k m b hQ j (List.mem_cons_of_mem i hj)).mono ?_
      intro n' b'' hQ
      rw [List.length_cons, ← add_assoc m, Nat.add_comm l.length, ← Nat.add_assoc k]
      exact hQ

end Metered

section Coupled

variable {σ τ α β γ δ ι κ : Type} {I : σ → τ → Prop}

/-- From states that are related by `I` both programs end in such states, with results that
are related by `R`. -/
def Coupled (I : σ → τ → Prop) (R : α → β → Prop) (p : StateM σ α) (q : StateM τ β) : Prop :=
  ∀ s t, I s t → R (p s).1 (q t).1 ∧ I (p s).2 (q t).2

theorem Coupled.pure {R : α → β → Prop} {a : α} {b : β} (h : R a b) :
    Coupled I R (pure a) (pure b) :=
  fun _ _ hst => ⟨h, hst⟩

theorem Coupled.bind {R : α → β → Prop} {R' : γ → δ → Prop} {p : StateM σ α} {q : StateM τ β}
    {f : α → StateM σ γ} {g : β → StateM τ δ} (hpq : Coupled I R p q)
    (hfg : ∀ a b, R a b → Coupled I R' (f a) (g b)) : Coupled I R' (p >>= f) (q >>= g) := by
  intro s t hst
  obtain ⟨hR, hI⟩ := hpq s t hst
  exact hfg _ _ hR _ _ hI

/-- Results that are the same go on as one. -/
theorem Coupled.bind_eq {R : γ → δ → Prop} {p : StateM σ α} {q : StateM τ α}
    {f : α → StateM σ γ} {g : α → StateM τ δ} (hpq : Coupled I Eq p q)
    (hfg : ∀ a, Coupled I R (f a) (g a)) : Coupled I R (p >>= f) (q >>= g) :=
  hpq.bind fun a _ hab => hab ▸ hfg a

theorem Coupled.map {R : α → β → Prop} {R' : γ → δ → Prop} {p : StateM σ α} {q : StateM τ β}
    {f : α → γ} {g : β → δ} (hpq : Coupled I R p q) (hfg : ∀ a b, R a b → R' (f a) (g b)) :
    Coupled I R' (f <$> p) (g <$> q) := by
  intro s t hst
  obtain ⟨hR, hI⟩ := hpq s t hst
  exact ⟨hfg _ _ hR, hI⟩

/-- Two lists whose elements are related one by one. -/
theorem Coupled.mapM {S : ι → κ → Prop} {R : α → β → Prop} {f : ι → StateM σ α}
    {g : κ → StateM τ β} {l : List ι} {l' : List κ} (hl : List.Forall₂ S l l')
    (hfg : ∀ i j, S i j → Coupled I R (f i) (g j)) :
    Coupled I (List.Forall₂ R) (l.mapM f) (l'.mapM g) := by
  induction hl with
  | nil => exact Coupled.pure .nil
  | cons hij _ ih =>
      rw [List.mapM_cons, List.mapM_cons]
      refine (hfg _ _ hij).bind fun a b hab => ?_
      exact ih.bind fun as bs habs => Coupled.pure (habs.cons hab)

theorem Coupled.mapM_same {R : α → β → Prop} {f : ι → StateM σ α} {g : ι → StateM τ β}
    (l : List ι) (hfg : ∀ i, Coupled I R (f i) (g i)) :
    Coupled I (List.Forall₂ R) (l.mapM f) (l.mapM g) :=
  Coupled.mapM (S := Eq) (List.forall₂_same.mpr fun _ _ => rfl) fun i _ hij => hij ▸ hfg i

theorem Coupled.foldlM {f : β → ι → StateM σ β} {g : β → ι → StateM τ β} (l : List ι) (b : β)
    (hfg : ∀ b i, Coupled I Eq (f b i) (g b i)) :
    Coupled I Eq (l.foldlM f b) (l.foldlM g b) := by
  induction l generalizing b with
  | nil => exact Coupled.pure rfl
  | cons i l ih =>
      rw [List.foldlM_cons, List.foldlM_cons]
      exact (hfg b i).bind_eq ih

end Coupled

section Shares

variable {σ α ι : Type} {I : σ → σ → Prop} {R : α → α → Prop} {f : ι → StateM σ α}

/-- The work on a list, cut into shares that are done apart from each other: each starts in a
state that is related to the one in which the whole run comes to it. -/
theorem Coupled.shares (hf : ∀ i, Coupled I R (f i) (f i)) (shares : List (List ι × σ)) {s : σ}
    (hstart : ∀ before share after, shares = before ++ share :: after →
      I share.2 ((before.flatMap Prod.fst).mapM f s).2) :
    List.Forall₂ R (shares.flatMap fun share => (share.1.mapM f share.2).1)
      ((shares.flatMap Prod.fst).mapM f s).1 := by
  induction shares generalizing s with
  | nil => exact .nil
  | cons share rest ih =>
      have hshare := (Coupled.mapM_same share.1 hf) _ _ (hstart [] share rest rfl)
      rw [List.flatMap_cons, List.flatMap_cons, List.mapM_append]
      refine List.rel_append hshare.1 (ih fun before share' after hsplit => ?_)
      have hnext := hstart (share :: before) share' after (by rw [hsplit, List.cons_append])
      rwa [List.flatMap_cons, List.mapM_append] at hnext

end Shares

end Structor
