import Structor.Lists
import Structor.Python
import Structor.Range

/-!
# The accounts data set

Every customer has accounts and every account has transactions. Their ids are computed
from three nested counters: the customer's index `i`, the account's index `j` and the
transaction's index `k`.

The look-up tables are read by the row builders as global names, which may be missing.

## Main definitions

* `rowLoop` -- the tables that the loop over the customers writes
* `Collides` -- two customers are given the same transaction ids
-/
namespace Structor.Accounts
open Python

def maxAccounts : ℤ := 13
def maxTxns : ℤ := 20
def reseedSplit : ℤ := 100
def firstId : ℤ := 1000000000

/-- What `zipf(n, a).next()` can return. -/
def Zipf (n : ℤ) : Type := { r : ℤ // 2 ≤ r ∧ r ≤ n }

structure AccountType where
  accountCode : Str
  accountType : Str
  accountSubtype : Str
  accountSubtype2 : Str

structure TransactionType where
  transactionCode : Str
  transactionType : Str

/-! ## The rows, as far as they are not drawn by faker alone -/

structure Customer where
  customerId : ℤ
  customerType : Str
  effectiveDate : Str

structure Account where
  accountId : ℤ
  type : AccountType
  effectiveDate : Str

structure CustomerAccount where
  customerId : ℤ
  accountId : ℤ
  effectiveDate : Str

structure Transaction where
  transactionId : ℤ
  type : TransactionType
  accountId : ℤ
  effectiveDate : Str

/-- The tables that are written. -/
structure Tables where
  customers : List Customer
  accounts : List Account
  customerAccounts : List CustomerAccount
  transactions : List Transaction

/-- The global names that the row builders read. -/
structure Globals where
  accountTypes : Option (List AccountType)
  transactionTypes : Option (List TransactionType)
  customerTypes : Option (List Str)

/-- The look-up tables are there and are not empty. -/
def Globals.Visible (g : Globals) : Prop :=
  (∃ types, g.accountTypes = some types ∧ types ≠ []) ∧
    (∃ types, g.transactionTypes = some types ∧ types ≠ []) ∧
      ∃ types, g.customerTypes = some types ∧ types ≠ []

/-- The draws, by the counters of the row they are for. -/
structure Draws where
  edate : ℤ → Str
  customerType : ℤ → ℕ
  accounts : ℤ → Zipf maxAccounts
  accountType : ℤ → ℤ → ℕ
  accountDate : ℤ → ℤ → Str
  transactions : ℤ → Zipf maxTxns
  transactionType : ℤ → ℤ → ℤ → ℕ
  transactionDate : ℤ → ℤ → ℤ → Str

/-- A global name, which may not be defined. -/
def lookup {α : Type} (x : Option α) : Except Error α :=
  match x with
  | some a => .ok a
  | none => .error .nameError

def transaction (g : Globals) (i aid : ℤ) (r : ℕ) (effectiveDate : Str) :
    Except Error Transaction := do
  let transactionTypes ← lookup g.transactionTypes
  let tc ← choice transactionTypes r
  pure { transactionId := firstId + i, type := tc, accountId := aid, effectiveDate }

def account (g : Globals) (i : ℤ) (r : ℕ) (effectiveDate : Str) : Except Error Account := do
  let accountTypes ← lookup g.accountTypes
  let type ← choice accountTypes r
  pure { accountId := firstId + i, type, effectiveDate }

def customerAccounts (g : Globals) (i : ℤ) (r : ℕ) (edate : Str) : Except Error Customer := do
  let customerTypes ← lookup g.customerTypes
  let customerType ← choice customerTypes r
  pure { customerId := firstId + i, customerType, effectiveDate := edate }

/-- `[c_s[0], a[0], a[-1]]` -/
def reference (cs : Customer) (a : Account) : CustomerAccount where
  customerId := cs.customerId
  accountId := a.accountId
  effectiveDate := a.effectiveDate

/-- The rows of customer `i`. -/
def customerRows (g : Globals) (d : Draws) (i : ℤ) : Except Error Tables := do
  let cs ← customerAccounts g i (d.customerType i) (d.edate i)
  let as ← (xrange 0 ((d.accounts i).1 - 1)).mapM fun j =>
    account g (maxAccounts * i + j) (d.accountType i j) (d.accountDate i j)
  let acs := as.map (reference cs)
  let ts ← acs.zipIdx.mapM fun p : CustomerAccount × ℕ =>
    (xrange 0 ((d.transactions i).1 - 1)).mapM fun k =>
      transaction g (maxAccounts * i + maxTxns * p.2 + k) p.1.accountId
        (d.transactionType i p.2 k) (d.transactionDate i p.2 k)
  pure { customers := [cs], accounts := as, customerAccounts := acs, transactions := ts.flatten }

def Tables.append (t t' : Tables) : Tables where
  customers := t.customers ++ t'.customers
  accounts := t.accounts ++ t'.accounts
  customerAccounts := t.customerAccounts ++ t'.customerAccounts
  transactions := t.transactions ++ t'.transactions

def Tables.empty : Tables := ⟨[], [], [], []⟩

/-- The loop over the customers: the rows it has written, and what it raised. The generators
of the numbers of accounts and transactions are there (`seeded`) once a row was a multiple
of `reseedSplit`. -/
def rowLoop (g : Globals) (d : Draws) : Bool → List ℤ → Tables × Option Error
  | _, [] => (.empty, none)
  | seeded, i :: rows =>
      let seeded := seeded || i % reseedSplit = 0
      match if seeded then customerRows g d i else .error .attributeError with
      | .error e => (.empty, some e)
      | .ok t =>
          let rest := rowLoop g d seeded rows
          (t.append rest.1, rest.2)

/-- The keys of the tables are unique, and what refers to a customer or an account refers to
exactly one. -/
structure Tables.Keyed (t : Tables) : Prop where
  customers : (t.customers.map Customer.customerId).Nodup
  accounts : (t.accounts.map Account.accountId).Nodup
  transactions : (t.transactions.map Transaction.transactionId).Nodup
  customerOf : ∀ r ∈ t.customerAccounts,
    ∃! c, c ∈ t.customers ∧ c.customerId = r.customerId
  accountOf : ∀ r ∈ t.customerAccounts, ∃! a, a ∈ t.accounts ∧ a.accountId = r.accountId
  accountOfTransaction : ∀ r ∈ t.transactions,
    ∃! a, a ∈ t.accounts ∧ a.accountId = r.accountId

/-- The transactions of account `j` of customer `i` start at this index. -/
def block (i j : ℤ) : ℤ := maxAccounts * i + maxTxns * j

/-- An account of a customer and an account of a later customer have overlapping blocks of
transaction indexes. -/
def Collides (d : Draws) (start stop : ℤ) : Prop :=
  ∃ i i' j j', start ≤ i ∧ i < i' ∧ i' < stop ∧
    0 ≤ j ∧ j < (d.accounts i).1 - 1 ∧ 0 ≤ j' ∧ j' < (d.accounts i').1 - 1 ∧
      block i j < block i' j' + ((d.transactions i').1 - 1) ∧
        block i' j' < block i j + ((d.transactions i).1 - 1)

/-! ## The keys of the rows -/

variable {g : Globals} {d : Draws}

/-- The counters of the accounts. -/
def accountIndexes (d : Draws) (rows : List ℤ) : List (ℤ × ℤ) :=
  rows.flatMap fun i => (xrange 0 ((d.accounts i).1 - 1)).map (Prod.mk i)

/-- The counters of the transactions. -/
def transactionIndexes (d : Draws) (rows : List ℤ) : List (ℤ × ℤ × ℤ) :=
  rows.flatMap fun i => ((xrange 0 ((d.accounts i).1 - 1)).flatMap fun j =>
    (xrange 0 ((d.transactions i).1 - 1)).map (Prod.mk j)).map (Prod.mk i)

def accountIdOf (x : ℤ × ℤ) : ℤ := firstId + (maxAccounts * x.1 + x.2)

def transactionIdOf (x : ℤ × ℤ × ℤ) : ℤ := firstId + (block x.1 x.2.1 + x.2.2)

/-- What the counters say of the keys of the rows. -/
structure Tables.Counted (d : Draws) (rows : List ℤ) (t : Tables) : Prop where
  customers : t.customers.map Customer.customerId = rows.map fun i => firstId + i
  accounts : t.accounts.map Account.accountId = (accountIndexes d rows).map accountIdOf
  customerAccounts : (t.customerAccounts.map fun r => (r.customerId, r.accountId)) =
    (accountIndexes d rows).map fun x => (firstId + x.1, accountIdOf x)
  transactions : (t.transactions.map fun r => (r.transactionId, r.accountId)) =
    (transactionIndexes d rows).map fun x => (transactionIdOf x, accountIdOf (x.1, x.2.1))

theorem exists_transaction_ok (hg : g.Visible) (i aid : ℤ) (r : ℕ) (date : Str) :
    ∃ t, transaction g i aid r date = .ok t ∧
      (t.transactionId, t.accountId) = (firstId + i, aid) := by
  obtain ⟨types, htypes, hne⟩ := hg.2.1
  obtain ⟨type, -, htype⟩ := exists_choice_ok hne r
  exact ⟨_, by rw [transaction, htypes]; simp only [lookup, bind, Except.bind, htype]; rfl, rfl⟩

theorem exists_account_ok (hg : g.Visible) (i : ℤ) (r : ℕ) (date : Str) :
    ∃ a, account g i r date = .ok a ∧ a.accountId = firstId + i := by
  obtain ⟨types, htypes, hne⟩ := hg.1
  obtain ⟨type, -, htype⟩ := exists_choice_ok hne r
  exact ⟨_, by rw [account, htypes]; simp only [lookup, bind, Except.bind, htype]; rfl, rfl⟩

theorem exists_customerAccounts_ok (hg : g.Visible) (i : ℤ) (r : ℕ) (date : Str) :
    ∃ c, customerAccounts g i r date = .ok c ∧ c.customerId = firstId + i := by
  obtain ⟨types, htypes, hne⟩ := hg.2.2
  obtain ⟨type, -, htype⟩ := exists_choice_ok hne r
  exact ⟨_, by
    rw [customerAccounts, htypes]
    simp only [lookup, bind, Except.bind, htype]
    rfl, rfl⟩

theorem zipIdx_xrange {α : Type} (n : ℤ) (f : ℤ → α) :
    ((xrange 0 n).map f).zipIdx = (xrange 0 n).map fun j => (f j, j.toNat) := by
  simp only [xrange, Int.sub_zero, Int.zero_add, List.map_map]
  apply List.ext_getElem
  · simp
  · intro k h₁ h₂
    simp

/-- The transactions of a customer, by the ids of the accounts. -/
theorem exists_transactions_ok (hg : g.Visible) (d : Draws) (i : ℤ) (acs : List CustomerAccount) :
    ∃ ts, (acs.zipIdx.mapM fun p : CustomerAccount × ℕ =>
        (xrange 0 ((d.transactions i).1 - 1)).mapM fun k =>
          transaction g (maxAccounts * i + maxTxns * p.2 + k) p.1.accountId
            (d.transactionType i p.2 k) (d.transactionDate i p.2 k)) = .ok ts ∧
      (ts.flatten.map fun r => (r.transactionId, r.accountId)) =
        (acs.map CustomerAccount.accountId).zipIdx.flatMap fun p =>
          (xrange 0 ((d.transactions i).1 - 1)).map fun k =>
            (transactionIdOf (i, p.2, k), p.1) := by
  obtain ⟨ts, hts, hkeys⟩ := exists_mapM_ok acs.zipIdx (p := List.map fun r : Transaction =>
    (r.transactionId, r.accountId)) fun p _ => exists_mapM_ok (xrange 0 ((d.transactions i).1 - 1))
      fun k _ => exists_transaction_ok hg (maxAccounts * i + maxTxns * p.2 + k) p.1.accountId
        (d.transactionType i p.2 k) (d.transactionDate i p.2 k)
  refine ⟨ts, hts, ?_⟩
  rw [List.map_flatten, hkeys, List.zipIdx_map, List.flatMap_map]
  rfl

theorem customerRows_counted (hg : g.Visible) (d : Draws) (i : ℤ) :
    ∃ t, customerRows g d i = .ok t ∧ t.Counted d [i] := by
  obtain ⟨cs, hcs, hcustomer⟩ := exists_customerAccounts_ok hg i (d.customerType i) (d.edate i)
  obtain ⟨as, has, hids⟩ := exists_mapM_ok (xrange 0 ((d.accounts i).1 - 1))
    fun j _ => exists_account_ok hg (maxAccounts * i + j) (d.accountType i j) (d.accountDate i j)
  obtain ⟨ts, hts, htransactions⟩ := exists_transactions_ok hg d i (as.map (reference cs))
  replace hids : as.map Account.accountId =
    (xrange 0 ((d.accounts i).1 - 1)).map fun j => accountIdOf (i, j) := hids
  have hreferences : (as.map (reference cs)).map CustomerAccount.accountId =
      (xrange 0 ((d.accounts i).1 - 1)).map fun j => accountIdOf (i, j) := by
    rw [← hids, List.map_map]
    rfl
  have hpairs : ((as.map (reference cs)).map fun r => (r.customerId, r.accountId)) =
      (as.map Account.accountId).map fun aid => (cs.customerId, aid) := by
    rw [List.map_map, List.map_map]
    rfl
  refine ⟨_, by simp only [customerRows, hcs, has, hts, bind, Except.bind]; rfl, ?_⟩
  constructor
  · simp [hcustomer]
  · simp [accountIndexes, hids, Function.comp_def]
  · simp only [hpairs, hids, hcustomer]
    simp [accountIndexes, Function.comp_def]
  · have hindex : ∀ j ∈ xrange 0 ((d.accounts i).1 - 1), ((j.toNat : ℕ) : ℤ) = j := by
      intro j hj
      exact Int.toNat_of_nonneg (mem_xrange.mp hj).1
    simp only [htransactions, hreferences, zipIdx_xrange, List.flatMap_map, transactionIndexes,
      List.flatMap_singleton, List.map_flatMap, List.map_map]
    refine List.flatMap_congr fun j hj => ?_
    rw [hindex j hj]
    rfl

theorem Tables.Counted.append {rows rows' : List ℤ} {t t' : Tables} (h : t.Counted d rows)
    (h' : t'.Counted d rows') : (t.append t').Counted d (rows ++ rows') := by
  constructor
  · simp only [Tables.append, List.map_append, h.customers, h'.customers]
  · simp only [Tables.append, accountIndexes, List.flatMap_append, List.map_append, h.accounts,
      h'.accounts]
  · simp only [Tables.append, accountIndexes, List.flatMap_append, List.map_append,
      h.customerAccounts, h'.customerAccounts]
  · simp only [Tables.append, transactionIndexes, List.flatMap_append, List.map_append,
      h.transactions, h'.transactions]

theorem counted_empty (d : Draws) : Tables.empty.Counted d [] := ⟨rfl, rfl, rfl, rfl⟩

theorem rowLoop_seeded (hg : g.Visible) (d : Draws) (rows : List ℤ) :
    ∃ t, rowLoop g d true rows = (t, none) ∧ t.Counted d rows := by
  induction rows with
  | nil => exact ⟨.empty, rfl, counted_empty d⟩
  | cons i rows ih =>
      obtain ⟨t, ht, hcounted⟩ := customerRows_counted hg d i
      obtain ⟨rest, hrest, hcounted'⟩ := ih
      refine ⟨t.append rest, ?_, hcounted.append hcounted'⟩
      simp only [rowLoop, Bool.true_or, if_true, ht, hrest]

/-- A range that begins at a multiple of `reseedSplit` is written to its end. -/
theorem rowLoop_of_boundary (d : Draws) {i : ℤ} (hi : i % reseedSplit = 0)
    (rows : List ℤ) : rowLoop g d false (i :: rows) = rowLoop g d true (i :: rows) := by
  simp only [rowLoop, hi, decide_true, Bool.or_true]

/-- Any other range raises before its first row is written. -/
theorem rowLoop_of_not_boundary (d : Draws) {i : ℤ} (hi : i % reseedSplit ≠ 0) (rows : List ℤ) :
    rowLoop g d false (i :: rows) = (.empty, some .attributeError) := by
  simp [rowLoop, hi]

/-! ## Which keys are the same -/

theorem mem_accountIndexes {rows : List ℤ} {x : ℤ × ℤ} : x ∈ accountIndexes d rows ↔
    x.1 ∈ rows ∧ 0 ≤ x.2 ∧ x.2 < (d.accounts x.1).1 - 1 := by
  obtain ⟨i, j⟩ := x
  simp [accountIndexes]

theorem mem_transactionIndexes {rows : List ℤ} {x : ℤ × ℤ × ℤ} : x ∈ transactionIndexes d rows ↔
    (x.1, x.2.1) ∈ accountIndexes d rows ∧ 0 ≤ x.2.2 ∧ x.2.2 < (d.transactions x.1).1 - 1 := by
  obtain ⟨i, j, k⟩ := x
  simp only [mem_accountIndexes, transactionIndexes, List.mem_flatMap, List.mem_map,
    mem_xrange, Prod.mk.injEq]
  constructor
  · rintro ⟨i', hi, p, ⟨j', hj, k', hk, rfl⟩, rfl, hp⟩
    obtain ⟨rfl, rfl⟩ := Prod.mk.inj hp
    exact ⟨⟨hi, hj⟩, hk⟩
  · rintro ⟨⟨hi, hj⟩, hk⟩
    exact ⟨i, hi, (j, k), ⟨j, hj, k, hk, rfl⟩, rfl, rfl⟩

theorem nodup_accountIndexes (d : Draws) {rows : List ℤ} (h : rows.Nodup) :
    (accountIndexes d rows).Nodup :=
  nodup_flatMap_pair h fun _ _ => nodup_xrange _ _

theorem nodup_transactionIndexes (d : Draws) {rows : List ℤ} (h : rows.Nodup) :
    (transactionIndexes d rows).Nodup :=
  nodup_flatMap_pair h fun _ _ =>
    nodup_flatMap_pair (nodup_xrange _ _) fun _ _ => nodup_xrange _ _

/-- There are fewer accounts of a customer than the stride from one customer to the next. -/
theorem accountIdOf_inj {rows : List ℤ} {x y : ℤ × ℤ} (hx : x ∈ accountIndexes d rows)
    (hy : y ∈ accountIndexes d rows) (h : accountIdOf x = accountIdOf y) : x = y := by
  rw [mem_accountIndexes] at hx hy
  have hx' := (d.accounts x.1).2.2
  have hy' := (d.accounts y.1).2.2
  simp only [accountIdOf, maxAccounts] at h hx' hy'
  apply Prod.ext
  · omega
  · omega

/-- Transactions of two customers with the same id are in overlapping blocks. -/
theorem collides_of_eq {start stop : ℤ} {x y : ℤ × ℤ × ℤ}
    (hx : x ∈ transactionIndexes d (xrange start stop))
    (hy : y ∈ transactionIndexes d (xrange start stop)) (hlt : x.1 < y.1)
    (h : transactionIdOf x = transactionIdOf y) : Collides d start stop := by
  obtain ⟨i, j, k⟩ := x
  obtain ⟨i', j', k'⟩ := y
  simp only [mem_transactionIndexes, mem_accountIndexes, mem_xrange] at hx hy hlt
  simp only [transactionIdOf] at h
  obtain ⟨⟨hi, hj⟩, hk⟩ := hx
  obtain ⟨⟨hi', hj'⟩, hk'⟩ := hy
  exact ⟨i, i', j, j', hi.1, hlt, hi'.2, hj.1, hj.2, hj'.1, hj'.2, by omega, by omega⟩

/-- Overlapping blocks have an id in common. -/
theorem Collides.exists_eq {start stop : ℤ} (h : Collides d start stop) :
    ∃ x ∈ transactionIndexes d (xrange start stop),
      ∃ y ∈ transactionIndexes d (xrange start stop),
        transactionIdOf x = transactionIdOf y ∧ x ≠ y := by
  obtain ⟨i, i', j, j', hi, hlt, hi', hj, hj₂, hj', hj'₂, hblock, hblock'⟩ := h
  obtain ⟨k, k', hk, hk₂, hk', hk'₂, hsame⟩ : ∃ k k', 0 ≤ k ∧ k < (d.transactions i).1 - 1 ∧
      0 ≤ k' ∧ k' < (d.transactions i').1 - 1 ∧ block i j + k = block i' j' + k' := by
    have hpos := (d.transactions i).2.1
    have hpos' := (d.transactions i').2.1
    refine ⟨max 0 (block i' j' - block i j), max 0 (block i j - block i' j'), ?_⟩
    omega
  refine ⟨(i, j, k), ?_, (i', j', k'), ?_, ?_, ?_⟩
  · rw [mem_transactionIndexes, mem_accountIndexes, mem_xrange]
    exact ⟨⟨⟨hi, Int.lt_trans hlt hi'⟩, hj, hj₂⟩, hk, hk₂⟩
  · rw [mem_transactionIndexes, mem_accountIndexes, mem_xrange]
    exact ⟨⟨⟨Int.le_trans hi (Int.le_of_lt hlt), hi'⟩, hj', hj'₂⟩, hk', hk'₂⟩
  · simp only [transactionIdOf, hsame]
  · intro heq
    exact Int.ne_of_lt hlt (congrArg Prod.fst heq)

/-- The blocks of one customer do not overlap. -/
theorem eq_of_same_customer {rows : List ℤ} {x y : ℤ × ℤ × ℤ} (hx : x ∈ transactionIndexes d rows)
    (hy : y ∈ transactionIndexes d rows) (hi : x.1 = y.1)
    (h : transactionIdOf x = transactionIdOf y) : x = y := by
  obtain ⟨i, j, k⟩ := x
  obtain ⟨i', j', k'⟩ := y
  simp only at hi
  subst hi
  rw [mem_transactionIndexes] at hx hy
  have hle := (d.transactions i).2.2
  simp only [transactionIdOf, block, maxAccounts, maxTxns] at h hle hx hy
  have hj : j = j' := by omega
  have hk : k = k' := by omega
  rw [hj, hk]

/-- Transaction ids are unique exactly if no blocks overlap. -/
theorem nodup_transactionIds_iff {start stop : ℤ} :
    ((transactionIndexes d (xrange start stop)).map transactionIdOf).Nodup ↔
      ¬ Collides d start stop := by
  rw [List.nodup_map_iff_inj_on (nodup_transactionIndexes d (nodup_xrange start stop))]
  constructor
  · intro hinj hcollides
    obtain ⟨x, hx, y, hy, h, hne⟩ := hcollides.exists_eq
    exact hne (hinj x hx y hy h)
  · intro hnot x hx y hy h
    rcases Int.lt_trichotomy x.1 y.1 with hlt | heq | hgt
    · exact absurd (collides_of_eq hx hy hlt h) hnot
    · exact eq_of_same_customer hx hy heq h
    · exact absurd (collides_of_eq hy hx hgt h.symm) hnot

theorem keyed_empty : Tables.empty.Keyed := by
  constructor <;> simp [Tables.empty]

/-- Everything but the uniqueness of the transaction ids holds of every range. -/
theorem Tables.Counted.keyed_iff {start stop : ℤ} {t : Tables}
    (h : t.Counted d (xrange start stop)) : t.Keyed ↔ ¬ Collides d start stop := by
  have hcustomers : (t.customers.map Customer.customerId).Nodup := by
    rw [h.customers]
    exact (nodup_xrange start stop).map fun i j hij => by simpa using hij
  have haccounts : (t.accounts.map Account.accountId).Nodup := by
    rw [h.accounts]
    exact (nodup_accountIndexes d (nodup_xrange start stop)).map_on
      fun x hx y hy => accountIdOf_inj hx hy
  have htransactions : t.transactions.map Transaction.transactionId =
      (transactionIndexes d (xrange start stop)).map transactionIdOf := by
    have hfirst := congrArg (List.map Prod.fst) h.transactions
    rwa [List.map_map, List.map_map] at hfirst
  rw [← nodup_transactionIds_iff, ← htransactions]
  refine ⟨Tables.Keyed.transactions, fun hnodup => ⟨hcustomers, haccounts, hnodup, ?_, ?_, ?_⟩⟩
  · intro r hr
    apply existsUnique_of_mem_map hcustomers
    have hpair :=
      List.mem_map_of_mem (f := fun r : CustomerAccount => (r.customerId, r.accountId)) hr
    rw [h.customerAccounts] at hpair
    obtain ⟨x, hx, heq⟩ := List.mem_map.mp hpair
    rw [h.customers]
    exact List.mem_map.mpr ⟨x.1, (mem_accountIndexes.mp hx).1, (Prod.mk.inj heq).1⟩
  · intro r hr
    apply existsUnique_of_mem_map haccounts
    have hpair :=
      List.mem_map_of_mem (f := fun r : CustomerAccount => (r.customerId, r.accountId)) hr
    rw [h.customerAccounts] at hpair
    obtain ⟨x, hx, heq⟩ := List.mem_map.mp hpair
    rw [h.accounts]
    exact List.mem_map.mpr ⟨x, hx, (Prod.mk.inj heq).2⟩
  · intro r hr
    apply existsUnique_of_mem_map haccounts
    have hpair :=
      List.mem_map_of_mem (f := fun r : Transaction => (r.transactionId, r.accountId)) hr
    rw [h.transactions] at hpair
    obtain ⟨x, hx, heq⟩ := List.mem_map.mp hpair
    rw [h.accounts]
    exact List.mem_map.mpr ⟨_, (mem_transactionIndexes.mp hx).1, (Prod.mk.inj heq).2⟩

/-- The keys are unique and all references resolve, unless the range is written and two of
its customers collide. -/
theorem keyed_rowLoop_iff (hg : g.Visible) (d : Draws) (start stop : ℤ) :
    (rowLoop g d false (xrange start stop)).1.Keyed ↔
      ¬ (start % reseedSplit = 0 ∧ Collides d start stop) := by
  rcases Int.lt_or_le start stop with hlt | hle
  · by_cases hstart : start % reseedSplit = 0
    · obtain ⟨t, ht, hcounted⟩ := rowLoop_seeded hg d (xrange start stop)
      rw [xrange_of_lt hlt, rowLoop_of_boundary d hstart, ← xrange_of_lt hlt, ht]
      simpa [hstart] using hcounted.keyed_iff
    · rw [xrange_of_lt hlt, rowLoop_of_not_boundary d hstart]
      simp [hstart, keyed_empty]
  · have hnot : ¬ Collides d start stop := by
      rintro ⟨i, i', j, j', hi, hlt, hi', -⟩
      omega
    rw [xrange_of_le hle]
    simp [rowLoop, hnot, keyed_empty]

/-- Every customer has one account, which has fourteen transactions. -/
def oneAccount : Draws where
  edate := fun _ => "2014-03-05"
  customerType := fun i => i.toNat
  accounts := fun _ => ⟨2, by decide⟩
  accountType := fun _ _ => 0
  accountDate := fun _ _ => "2014-04-01"
  transactions := fun _ => ⟨15, by decide⟩
  transactionType := fun _ _ _ => 0
  transactionDate := fun _ _ _ => "2014-04-02"

/-- Look-up tables with an entry each. -/
def lookUpTables : Globals where
  accountTypes := some [⟨"10", "checking", "retail", "personal"⟩]
  transactionTypes := some [⟨"01", "deposit"⟩]
  customerTypes := some ["corporate", "individual"]

theorem visible_lookUpTables : lookUpTables.Visible :=
  ⟨⟨_, rfl, by simp⟩, ⟨_, rfl, by simp⟩, ⟨_, rfl, by simp⟩⟩

/-- Every account has thirteen transactions. -/
def thirteen : Draws := { oneAccount with transactions := fun _ => ⟨14, by decide⟩ }

/-- The ids of customer 0 end right before those of customer 1. -/
theorem keyed_two_customers : (rowLoop lookUpTables thirteen false (xrange 0 2)).1.Keyed := by
  have hblocks : ¬ (0 % reseedSplit = 0 ∧ Collides thirteen 0 2) := by
    rintro ⟨-, i, i', j, j', hi, hlt, hi', hj, hj₂, hj', hj'₂, -, hblock⟩
    have hone : j < 2 - 1 := hj₂
    have hone' : j' < 2 - 1 := hj'₂
    have hends : 13 * i' + 20 * j' < 13 * i + 20 * j + (14 - 1) := hblock
    omega
  exact (keyed_rowLoop_iff visible_lookUpTables thirteen 0 2).mpr hblocks

/-- The last transaction of customer 0 has the id of the first one of customer 1. -/
theorem not_keyed_two_customers :
    ¬ (rowLoop lookUpTables oneAccount false (xrange 0 2)).1.Keyed := by
  obtain ⟨t, ht, hcounted⟩ := rowLoop_seeded visible_lookUpTables oneAccount (xrange 0 2)
  rw [xrange_of_lt (by decide), rowLoop_of_boundary oneAccount (by decide),
    ← xrange_of_lt (by decide), ht]
  intro hkeyed
  refine hcounted.keyed_iff.mp hkeyed ⟨0, 1, 0, 0, ?_⟩
  decide

end Structor.Accounts
