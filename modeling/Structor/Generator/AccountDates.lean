import Structor.Generator.Accounts
import Structor.Python.Date

/-!
# The dates of the accounts data set

A customer's date is drawn first. The dates of the accounts, of the transactions and of their
tests are each drawn from a range that begins at the date before, which is passed on as a
text. A range ends at a fixed last date or, for a single account or transaction, at the end
of the month.

The end of the customer's own range is left to faker, which takes the current time.

## Main definitions

* `Pick`, `dateTimeBetween` -- a draw from a range, which may be empty
* `customerRows`, `rowLoop` -- the tables with their dates
* `Tables.Ordered` -- the order that the dates should have
-/
namespace Structor.AccountDates
open Python
open Accounts (Globals AccountType TransactionType Customer Account CustomerAccount Transaction
  Zipf maxAccounts maxTxns reseedSplit firstId lookup reference accountIndexes
  transactionIndexes accountIdOf)

/-! ## Draws -/

/-- What faker draws from a range of times. -/
structure Pick where
  choose : DateTime → DateTime → DateTime
  mem : ∀ {start stop}, start ≤ stop → start ≤ choose start stop ∧ choose start stop ≤ stop

/-- `faker.date_time_between(start, stop)` -/
def dateTimeBetween (p : Pick) (start stop : DateTime) : Except Error DateTime :=
  if start ≤ stop then .ok (p.choose start stop) else .error .valueError

def earliestDate : Date := ⟨2014, 1, 1, by decide, by decide, by decide⟩
def latestDate : Date := ⟨2015, 12, 31, by decide, by decide, by decide⟩

/-- The data set is generated after its last date. -/
def newYear : Date := ⟨2016, 1, 1, by decide, by decide, by decide⟩

/-- The draws, by the counters of the row they are for. -/
structure Draws where
  now : ℤ → DateTime
  now_ge : ∀ i, newYear.midnight ≤ now i
  customerDate : ℤ → Pick
  customerType : ℤ → ℕ
  /-- What faker takes `-50y` and `-20y` for. -/
  birthRange : ℤ → DateTime × DateTime
  birthRange_le : ∀ i, (birthRange i).1 ≤ (birthRange i).2
  birthRange_year : ∀ i, 1900 ≤ (birthRange i).1.date.year
  birth : ℤ → Pick
  accounts : ℤ → Zipf maxAccounts
  accountType : ℤ → ℤ → ℕ
  accountDate : ℤ → ℤ → Pick
  transactions : ℤ → Zipf maxTxns
  transactionType : ℤ → ℤ → ℤ → ℕ
  transactionDate : ℤ → ℤ → ℤ → Pick
  testDate : ℤ → ℤ → ℤ → Pick

/-! ## The rows -/

structure DatedCustomer extends Customer where
  dateOfBirth : Str

structure DatedTransaction extends Transaction where
  entryDate : Str
  postDate : Str
  testDate : Str

def endOfMonth (d : Str) : Except Error Date := do
  let d ← strptime d
  pure d.endOfMonth

/-- The last date of the range of an account or of a test. -/
def lastDateOf (sameMonth : Bool) (d : Str) : Except Error Date :=
  if sameMonth then endOfMonth d else .ok latestDate

def transaction (g : Globals) (p q : Pick) (i aid : ℤ) (r : ℕ) (edate : Str)
    (sameMonth : Bool) : Except Error DatedTransaction := do
  let start ← strptime edate
  let stop ← endOfMonth edate
  let effective ← dateTimeBetween p start.midnight stop.midnight
  let effectiveDate ← effective.date.strftime
  let transactionTypes ← lookup g.transactionTypes
  let tc ← choice transactionTypes r
  let lastDate ← lastDateOf sameMonth effectiveDate
  let start ← strptime effectiveDate
  let td ← dateTimeBetween q start.midnight lastDate.midnight
  let testDate ← td.date.strftime
  pure { transactionId := firstId + i, type := tc, accountId := aid, effectiveDate,
         entryDate := effectiveDate, postDate := effectiveDate, testDate }

def account (g : Globals) (p : Pick) (i : ℤ) (r : ℕ) (edate : Str) (sameMonth : Bool) :
    Except Error Account := do
  let accountTypes ← lookup g.accountTypes
  let type ← choice accountTypes r
  let lastDate ← lastDateOf sameMonth edate
  let start ← strptime edate
  let effective ← dateTimeBetween p start.midnight lastDate.midnight
  let effectiveDate ← effective.date.strftime
  pure { accountId := firstId + i, type, effectiveDate }

def customerAccounts (g : Globals) (d : Draws) (i : ℤ) (edate : Str) :
    Except Error DatedCustomer := do
  let customer ← Accounts.customerAccounts g i (d.customerType i) edate
  let birth ← dateTimeBetween (d.birth i) (d.birthRange i).1 (d.birthRange i).2
  let dateOfBirth ← birth.date.strftime
  pure { customer with dateOfBirth }

/-- The tables that are written. -/
structure Tables where
  customers : List DatedCustomer
  accounts : List Account
  customerAccounts : List CustomerAccount
  transactions : List DatedTransaction

def Tables.append (t t' : Tables) : Tables where
  customers := t.customers ++ t'.customers
  accounts := t.accounts ++ t'.accounts
  customerAccounts := t.customerAccounts ++ t'.customerAccounts
  transactions := t.transactions ++ t'.transactions

def Tables.empty : Tables := ⟨[], [], [], []⟩

/-- The rows of customer `i`. The rows are of a single month if the number that was drawn for
them is `single`; the script's test is `zv == 1`. -/
def customerRows (single : ℤ → Bool) (g : Globals) (d : Draws) (i : ℤ) :
    Except Error Tables := do
  let drawn ← dateTimeBetween (d.customerDate i) earliestDate.midnight (d.now i)
  let edate ← drawn.date.strftime
  let cs ← customerAccounts g d i edate
  let zv := (d.accounts i).1
  let as ← (xrange 0 (zv - 1)).mapM fun j =>
    account g (d.accountDate i j) (maxAccounts * i + j) (d.accountType i j) edate (single zv)
  let acs := as.map (reference cs.toCustomer)
  let zv := (d.transactions i).1
  let ts ← acs.zipIdx.mapM fun a : CustomerAccount × ℕ =>
    (xrange 0 (zv - 1)).mapM fun k =>
      transaction g (d.transactionDate i a.2 k) (d.testDate i a.2 k)
        (maxAccounts * i + maxTxns * a.2 + k) a.1.accountId (d.transactionType i a.2 k)
        a.1.effectiveDate (single zv)
  pure { customers := [cs], accounts := as, customerAccounts := acs, transactions := ts.flatten }

/-- The loop over the customers: the rows it has written, and what it raised. -/
def rowLoop (single : ℤ → Bool) (g : Globals) (d : Draws) :
    Bool → List ℤ → Tables × Option Error
  | _, [] => (.empty, none)
  | seeded, i :: rows =>
      let seeded := seeded || i % reseedSplit = 0
      match if seeded then customerRows single g d i else .error .attributeError with
      | .error e => (.empty, some e)
      | .ok t =>
          let rest := rowLoop single g d seeded rows
          (t.append rest.1, rest.2)

/-! ## What is expected of the dates -/

/-- The account is one of the customer's. -/
def Tables.Owns (t : Tables) (c : DatedCustomer) (a : Account) : Prop :=
  ∃ r ∈ t.customerAccounts, r.customerId = c.customerId ∧ r.accountId = a.accountId

/-- The texts are of dates in this order, and in one month if they should be. -/
def Follows (sameMonth : Bool) (s t : Str) : Prop :=
  ∃ d e, strptime s = .ok d ∧ strptime t = .ok e ∧ d ≤ e ∧ e ≤ latestDate ∧
    (sameMonth = true → d.SameMonth e)

/-- The number that was drawn for a customer asks for a single month. -/
def flag {n : ℤ} (single : ℤ → Bool) (counts : ℤ → Zipf n) (c : DatedCustomer) : Bool :=
  single (counts (c.customerId - firstId)).1

structure Tables.Ordered (single : ℤ → Bool) (d : Draws) (t : Tables) : Prop where
  customers : ∀ c ∈ t.customers, ∃ day, strptime c.effectiveDate = .ok day ∧ day ≤ latestDate
  accounts : ∀ c ∈ t.customers, ∀ a ∈ t.accounts, t.Owns c a →
    Follows (flag single d.accounts c) c.effectiveDate a.effectiveDate
  transactions : ∀ c ∈ t.customers, ∀ a ∈ t.accounts, t.Owns c a →
    ∀ r ∈ t.transactions, r.accountId = a.accountId →
      Follows false a.effectiveDate r.effectiveDate ∧
        Follows (flag single d.transactions c) r.effectiveDate r.testDate

/-! ## Days -/

/-- The day that is drawn from a range of days. -/
def Pick.day (p : Pick) (start stop : Date) : Date := (p.choose start.midnight stop.midnight).date

theorem Pick.day_mem (p : Pick) {start stop : Date} (h : start ≤ stop) :
    start ≤ p.day start stop ∧ p.day start stop ≤ stop := by
  have hmem := p.mem (Date.midnight_le h)
  have hstart : start.midnight.date ≤ (p.choose start.midnight stop.midnight).date :=
    DateTime.date_le hmem.1
  have hstop : (p.choose start.midnight stop.midnight).date ≤ stop.midnight.date :=
    DateTime.date_le hmem.2
  exact ⟨hstart, hstop⟩

theorem dateTimeBetween_eq (p : Pick) {start stop : DateTime} (h : start ≤ stop) :
    dateTimeBetween p start stop = .ok (p.choose start stop) := by
  rw [dateTimeBetween, if_pos h]

/-- The last day of a range. -/
def lastDay (sameMonth : Bool) (d : Date) : Date := if sameMonth then d.endOfMonth else latestDate

@[simp] theorem lastDay_true (d : Date) : lastDay true d = d.endOfMonth := rfl

@[simp] theorem lastDay_false (d : Date) : lastDay false d = latestDate := rfl

theorem le_lastDay {d : Date} (sameMonth : Bool) (h : d ≤ latestDate) :
    d ≤ lastDay sameMonth d := by
  cases sameMonth
  · rwa [lastDay_false]
  · rw [lastDay_true]
    exact d.le_endOfMonth

/-- The month of a day in the data set ends in the data set. -/
theorem lastDay_le {d : Date} (sameMonth : Bool) (h : d ≤ latestDate) :
    lastDay sameMonth d ≤ latestDate := by
  cases sameMonth
  · rw [lastDay_false]
    exact Date.le_refl latestDate
  · have hlast : latestDate.endOfMonth = latestDate := by decide
    have hle := Date.endOfMonth_le h
    rwa [hlast] at hle

theorem year_of_le {d : Date} (h : earliestDate ≤ d) : 1900 ≤ d.year := by
  have hyear : earliestDate.year = 2014 := rfl
  rw [Date.le_iff] at h
  omega

theorem endOfMonth_text (d : Date) : endOfMonth d.text = .ok d.endOfMonth := by
  rw [endOfMonth, strptime_text]
  rfl

theorem lastDateOf_text (sameMonth : Bool) (d : Date) :
    lastDateOf sameMonth d.text = .ok (lastDay sameMonth d) := by
  cases sameMonth
  · rfl
  · exact endOfMonth_text d

variable (single : ℤ → Bool) {g : Globals} (d : Draws)

def customerDay (i : ℤ) : Date := ((d.customerDate i).choose earliestDate.midnight (d.now i)).date

def accountDay (i j : ℤ) : Date :=
  (d.accountDate i j).day (customerDay d i) (lastDay (single (d.accounts i).1) (customerDay d i))

def effectiveDay (i j k : ℤ) : Date :=
  (d.transactionDate i j k).day (accountDay single d i j) (accountDay single d i j).endOfMonth

def testDay (i j k : ℤ) : Date :=
  (d.testDate i j k).day (effectiveDay single d i j k)
    (lastDay (single (d.transactions i).1) (effectiveDay single d i j k))

/-- The range of a customer's date is not empty, as the current time is after its start. -/
theorem earliestDate_le_now (i : ℤ) : earliestDate.midnight ≤ d.now i := by
  have hstart : earliestDate ≤ newYear := by decide
  exact DateTime.le_trans (Date.midnight_le hstart) (d.now_ge i)

theorem customerDay_ge (i : ℤ) : earliestDate ≤ customerDay d i := by
  have hmem := (d.customerDate i).mem (earliestDate_le_now d i)
  have hdate : earliestDate.midnight.date ≤ customerDay d i := DateTime.date_le hmem.1
  exact hdate

variable {d} {i : ℤ}

theorem accountDay_mem (h : customerDay d i ≤ latestDate) (j : ℤ) :
    customerDay d i ≤ accountDay single d i j ∧
      accountDay single d i j ≤ lastDay (single (d.accounts i).1) (customerDay d i) :=
  Pick.day_mem _ (le_lastDay _ h)

theorem accountDay_le (h : customerDay d i ≤ latestDate) (j : ℤ) :
    accountDay single d i j ≤ latestDate :=
  Date.le_trans (accountDay_mem single h j).2 (lastDay_le _ h)

theorem accountDay_ge (h : customerDay d i ≤ latestDate) (j : ℤ) :
    earliestDate ≤ accountDay single d i j :=
  Date.le_trans (customerDay_ge d i) (accountDay_mem single h j).1

theorem effectiveDay_mem (j k : ℤ) : accountDay single d i j ≤ effectiveDay single d i j k ∧
    effectiveDay single d i j k ≤ (accountDay single d i j).endOfMonth :=
  Pick.day_mem _ (Date.le_endOfMonth _)

theorem effectiveDay_le (h : customerDay d i ≤ latestDate) (j k : ℤ) :
    effectiveDay single d i j k ≤ latestDate :=
  Date.le_trans (effectiveDay_mem single j k).2 (lastDay_le true (accountDay_le single h j))

theorem testDay_mem (h : customerDay d i ≤ latestDate) (j k : ℤ) :
    effectiveDay single d i j k ≤ testDay single d i j k ∧ testDay single d i j k ≤
      lastDay (single (d.transactions i).1) (effectiveDay single d i j k) :=
  Pick.day_mem _ (le_lastDay _ (effectiveDay_le single h j k))

/-- A day of a range follows the day that the range begins with. -/
theorem follows_text {sameMonth : Bool} {d e : Date} (hd : d ≤ latestDate) (h : d ≤ e)
    (h' : e ≤ lastDay sameMonth d) : Follows sameMonth d.text e.text := by
  refine ⟨d, e, strptime_text d, strptime_text e, h, Date.le_trans h' (lastDay_le _ hd), ?_⟩
  intro hsame
  rw [hsame, lastDay_true] at h'
  exact Date.sameMonth_of_le h h'

/-! ## The rows of a customer -/

theorem account_eq (g : Globals) (p : Pick) (n : ℤ) (r : ℕ) (sameMonth : Bool) {day : Date}
    (h : earliestDate ≤ day) (h' : day ≤ latestDate) :
    account g p n r day.text sameMonth =
      Accounts.account g n r (p.day day (lastDay sameMonth day)).text := by
  have hmem := p.day_mem (le_lastDay sameMonth h')
  have hdraw := dateTimeBetween_eq p (Date.midnight_le (le_lastDay sameMonth h'))
  have hyear : (p.day day (lastDay sameMonth day)).strftime = .ok _ :=
    strftime_eq (year_of_le (Date.le_trans h hmem.1))
  rw [Pick.day] at hyear
  rw [account, Accounts.account]
  cases lookup g.accountTypes with
  | error e => rw [error_bind, error_bind]
  | ok types =>
      rw [ok_bind, ok_bind]
      cases choice types r with
      | error e => rw [error_bind, error_bind]
      | ok type =>
          rw [ok_bind, ok_bind, lastDateOf_text, ok_bind, strptime_text, ok_bind, hdraw, ok_bind,
            hyear, ok_bind]
          rfl

theorem transaction_eq (g : Globals) (p q : Pick) (n aid : ℤ) (r : ℕ) (sameMonth : Bool)
    {day effective test : Date} (h : earliestDate ≤ day) (h' : day ≤ latestDate)
    (heffective : p.day day day.endOfMonth = effective)
    (htest : q.day effective (lastDay sameMonth effective) = test) :
    transaction g p q n aid r day.text sameMonth =
      (Accounts.transaction g n aid r effective.text).map fun t =>
        { t with entryDate := effective.text, postDate := effective.text,
                 testDate := test.text } := by
  have hmem := p.day_mem day.le_endOfMonth
  rw [heffective] at hmem
  have hle : effective ≤ latestDate := Date.le_trans hmem.2 (lastDay_le true h')
  have hmem' := q.day_mem (le_lastDay sameMonth hle)
  rw [htest] at hmem'
  have hdraw := dateTimeBetween_eq p (Date.midnight_le day.le_endOfMonth)
  have hdraw' := dateTimeBetween_eq q (Date.midnight_le (le_lastDay sameMonth hle))
  have hyear := strftime_eq (year_of_le (Date.le_trans h hmem.1))
  have hyear' := strftime_eq (year_of_le (Date.le_trans h (Date.le_trans hmem.1 hmem'.1)))
  rw [Pick.day] at heffective htest
  rw [transaction, strptime_text, ok_bind, endOfMonth_text, ok_bind, hdraw, ok_bind, heffective,
    hyear, ok_bind, Accounts.transaction]
  cases lookup g.transactionTypes with
  | error e => rw [error_bind, error_bind, Except.map]
  | ok types =>
      rw [ok_bind, ok_bind]
      cases choice types r with
      | error e => rw [error_bind, error_bind, Except.map]
      | ok type =>
          rw [ok_bind, ok_bind, lastDateOf_text, ok_bind, strptime_text, ok_bind, hdraw', ok_bind,
            htest, hyear', ok_bind]
          rfl

def birthDay (d : Draws) (i : ℤ) : Date :=
  ((d.birth i).choose (d.birthRange i).1 (d.birthRange i).2).date

theorem customerAccounts_eq (g : Globals) (d : Draws) (i : ℤ) (edate : Str) :
    customerAccounts g d i edate =
      (Accounts.customerAccounts g i (d.customerType i) edate).map fun c =>
        { c with dateOfBirth := (birthDay d i).text } := by
  have hdraw := dateTimeBetween_eq (d.birth i) (d.birthRange_le i)
  have hbirth := DateTime.date_le ((d.birth i).mem (d.birthRange_le i)).1
  have hyear : 1900 ≤ (birthDay d i).year := by
    have hstart := d.birthRange_year i
    rw [Date.le_iff] at hbirth
    rw [birthDay]
    omega
  rw [customerAccounts]
  cases Accounts.customerAccounts g i (d.customerType i) edate with
  | error e => rw [error_bind, Except.map]
  | ok c =>
      rw [ok_bind, hdraw, ok_bind, ← birthDay, strftime_eq hyear, ok_bind]
      rfl

theorem exists_account (hg : g.Visible) (n : ℤ) (r : ℕ) (date : Str) :
    ∃ type, Accounts.account g n r date = .ok ⟨firstId + n, type, date⟩ := by
  obtain ⟨types, htypes, hne⟩ := hg.1
  obtain ⟨type, -, htype⟩ := exists_choice_ok hne r
  refine ⟨type, ?_⟩
  rw [Accounts.account, htypes, lookup, ok_bind, htype, ok_bind]
  rfl

theorem exists_transaction (hg : g.Visible) (n aid : ℤ) (r : ℕ) (date : Str) :
    ∃ type, Accounts.transaction g n aid r date = .ok ⟨firstId + n, type, aid, date⟩ := by
  obtain ⟨types, htypes, hne⟩ := hg.2.1
  obtain ⟨type, -, htype⟩ := exists_choice_ok hne r
  refine ⟨type, ?_⟩
  rw [Accounts.transaction, htypes, lookup, ok_bind, htype, ok_bind]
  rfl

theorem exists_customer (hg : g.Visible) (n : ℤ) (r : ℕ) (date : Str) :
    ∃ type, Accounts.customerAccounts g n r date = .ok ⟨firstId + n, type, date⟩ := by
  obtain ⟨types, htypes, hne⟩ := hg.2.2
  obtain ⟨type, -, htype⟩ := exists_choice_ok hne r
  refine ⟨type, ?_⟩
  rw [Accounts.customerAccounts, htypes, lookup, ok_bind, htype, ok_bind]
  rfl

/-- The draws with the texts of the days, for the tables without their test dates. -/
def Draws.texts (d : Draws) : Accounts.Draws where
  edate i := (customerDay d i).text
  customerType := d.customerType
  accounts := d.accounts
  accountType := d.accountType
  accountDate i j := (accountDay single d i j).text
  transactions := d.transactions
  transactionType := d.transactionType
  transactionDate i j k := (effectiveDay single d i j k).text

def Tables.erase (t : Tables) : Accounts.Tables where
  customers := t.customers.map DatedCustomer.toCustomer
  accounts := t.accounts
  customerAccounts := t.customerAccounts
  transactions := t.transactions.map DatedTransaction.toTransaction

/-- The dates of the rows, by the counters of the rows. -/
structure Tables.Dated (d : Draws) (rows : List ℤ) (t : Tables) : Prop where
  customers : t.customers.map (fun c => (c.customerId, c.effectiveDate)) =
    rows.map fun i => (firstId + i, (customerDay d i).text)
  accounts : t.accounts.map (fun a => (a.accountId, a.effectiveDate)) =
    (accountIndexes (d.texts single) rows).map fun x =>
      (accountIdOf x, (accountDay single d x.1 x.2).text)
  customerAccounts : t.customerAccounts.map (fun r => (r.customerId, r.accountId)) =
    (accountIndexes (d.texts single) rows).map fun x => (firstId + x.1, accountIdOf x)
  transactions : t.transactions.map (fun r => (r.accountId, r.effectiveDate, r.testDate)) =
    (transactionIndexes (d.texts single) rows).map fun x => (accountIdOf (x.1, x.2.1),
      (effectiveDay single d x.1 x.2.1 x.2.2).text, (testDay single d x.1 x.2.1 x.2.2).text)

/-- The accounts of a customer. -/
theorem exists_accounts (hg : g.Visible) (h : customerDay d i ≤ latestDate) (n : ℤ) :
    ∃ as, (xrange 0 n).mapM (fun j => account g (d.accountDate i j) (maxAccounts * i + j)
        (d.accountType i j) (customerDay d i).text (single (d.accounts i).1)) = .ok as ∧
      (xrange 0 n).mapM (fun j => Accounts.account g (maxAccounts * i + j) (d.accountType i j)
        (accountDay single d i j).text) = .ok as ∧
      as.map (fun a => (a.accountId, a.effectiveDate)) = (xrange 0 n).map fun j =>
        (accountIdOf (i, j), (accountDay single d i j).text) := by
  have hsame : (fun j => account g (d.accountDate i j) (maxAccounts * i + j)
        (d.accountType i j) (customerDay d i).text (single (d.accounts i).1)) =
      fun j => Accounts.account g (maxAccounts * i + j) (d.accountType i j)
        (accountDay single d i j).text := by
    funext j
    exact account_eq g _ _ _ _ (customerDay_ge d i) h
  rw [hsame]
  obtain ⟨as, has, hdates⟩ := exists_mapM_ok (xrange 0 n)
    (p := fun a : Account => (a.accountId, a.effectiveDate))
    (q := fun j => (accountIdOf (i, j), (accountDay single d i j).text))
    (f := fun j => Accounts.account g (maxAccounts * i + j) (d.accountType i j)
      (accountDay single d i j).text) fun j _ => by
      obtain ⟨type, htype⟩ := exists_account hg (maxAccounts * i + j) (d.accountType i j)
        (accountDay single d i j).text
      exact ⟨_, htype, rfl⟩
  exact ⟨as, has, has, hdates⟩

/-- The transaction with counters `i`, `j`, `k`, whose account has a given id. -/
theorem transaction_days (g : Globals) (h : customerDay d i ≤ latestDate) (j k n aid : ℤ)
    (r : ℕ) : transaction g (d.transactionDate i j k) (d.testDate i j k) n aid r
        (accountDay single d i j).text (single (d.transactions i).1) =
      (Accounts.transaction g n aid r (effectiveDay single d i j k).text).map fun t =>
        { t with entryDate := (effectiveDay single d i j k).text,
                 postDate := (effectiveDay single d i j k).text,
                 testDate := (testDay single d i j k).text } :=
  transaction_eq g _ _ n aid r _ (accountDay_ge single h j) (accountDay_le single h j) rfl rfl

/-- The transactions of an account. -/
theorem exists_transactions (hg : g.Visible) (h : customerDay d i ≤ latestDate) (j : ℕ) (n : ℤ)
    {r : CustomerAccount} (hid : r.accountId = accountIdOf (i, (j : ℤ)))
    (hdate : r.effectiveDate = (accountDay single d i j).text) :
    ∃ ts, (xrange 0 n).mapM (fun k => transaction g (d.transactionDate i j k) (d.testDate i j k)
        (maxAccounts * i + maxTxns * j + k) r.accountId (d.transactionType i j k)
        r.effectiveDate (single (d.transactions i).1)) = .ok ts ∧
      ts.map (fun t => (t.accountId, t.effectiveDate, t.testDate)) = (xrange 0 n).map fun k =>
        (accountIdOf (i, (j : ℤ)), (effectiveDay single d i j k).text,
          (testDay single d i j k).text) := by
  rw [hdate, hid]
  refine exists_mapM_ok (xrange 0 n) fun k _ => ?_
  obtain ⟨type, htype⟩ := exists_transaction hg (maxAccounts * i + maxTxns * j + k)
    (accountIdOf (i, (j : ℤ))) (d.transactionType i j k) (effectiveDay single d i j k).text
  have heq := transaction_days single g h j k (maxAccounts * i + maxTxns * j + k)
    (accountIdOf (i, (j : ℤ))) (d.transactionType i j k)
  rw [htype, Except.map] at heq
  exact ⟨_, heq, rfl⟩

/-- Without the test dates, the transactions of an account are those of the given dates. -/
theorem erase_transactions (h : customerDay d i ≤ latestDate) (j : ℕ) (n aid : ℤ) :
    (xrange 0 n).mapM (fun k => Accounts.transaction g (maxAccounts * i + maxTxns * j + k) aid
        (d.transactionType i j k) (effectiveDay single d i j k).text) =
      ((xrange 0 n).mapM fun k => transaction g (d.transactionDate i j k) (d.testDate i j k)
        (maxAccounts * i + maxTxns * j + k) aid (d.transactionType i j k)
        (accountDay single d i j).text (single (d.transactions i).1)).map
          (List.map DatedTransaction.toTransaction) := by
  refine mapM_map fun k _ => ?_
  rw [transaction_days single g h]
  cases Accounts.transaction g (maxAccounts * i + maxTxns * j + k) aid (d.transactionType i j k)
    (effectiveDay single d i j k).text with
  | error e => rfl
  | ok t => rfl

/-- The references and their indexes, as far as the transactions use them. -/
theorem zipIdx_references {n : ℤ} {acs : List CustomerAccount}
    (h : acs.map (fun r => (r.accountId, r.effectiveDate)) =
      (xrange 0 n).map fun j => (accountIdOf (i, j), (accountDay single d i j).text)) :
    acs.zipIdx.map (fun p => ((p.1.accountId, p.1.effectiveDate), p.2)) = (xrange 0 n).map
      fun j => ((accountIdOf (i, j), (accountDay single d i j).text), j.toNat) := by
  have hzip : acs.zipIdx.map (fun p => ((p.1.accountId, p.1.effectiveDate), p.2)) =
      (acs.map fun r => (r.accountId, r.effectiveDate)).zipIdx := by
    rw [List.zipIdx_map]
    rfl
  rw [hzip, h, Accounts.zipIdx_xrange]

/-- A reference at index `j` is to account `j`. -/
theorem dated_reference {n : ℤ} {acs : List CustomerAccount} {p : CustomerAccount × ℕ}
    (h : acs.map (fun r => (r.accountId, r.effectiveDate)) =
      (xrange 0 n).map fun j => (accountIdOf (i, j), (accountDay single d i j).text))
    (hp : p ∈ acs.zipIdx) : p.1.accountId = accountIdOf (i, (p.2 : ℤ)) ∧
      p.1.effectiveDate = (accountDay single d i p.2).text := by
  have hmem := List.mem_map_of_mem (f := fun p : CustomerAccount × ℕ =>
    ((p.1.accountId, p.1.effectiveDate), p.2)) hp
  rw [zipIdx_references single h] at hmem
  obtain ⟨j, hj, heq⟩ := List.mem_map.mp hmem
  obtain ⟨hpair, hindex⟩ := Prod.mk.inj heq
  obtain ⟨hid, hdate⟩ := Prod.mk.inj hpair
  have hj' : (p.2 : ℤ) = j := by
    rw [← hindex]
    exact Int.toNat_of_nonneg (mem_xrange.mp hj).1
  rw [hj']
  exact ⟨hid.symm, hdate.symm⟩

theorem flatMap_references {β : Type} {n : ℤ} {acs : List CustomerAccount} (f : ℤ → List β)
    (h : acs.map (fun r => (r.accountId, r.effectiveDate)) =
      (xrange 0 n).map fun j => (accountIdOf (i, j), (accountDay single d i j).text)) :
    (acs.zipIdx.flatMap fun p => f (p.2 : ℤ)) = (xrange 0 n).flatMap f := by
  have hmap := congrArg (List.flatMap fun p : (ℤ × Str) × ℕ => f (p.2 : ℤ))
    (zipIdx_references single h)
  rw [List.flatMap_map, List.flatMap_map] at hmap
  rw [hmap]
  refine List.flatMap_congr fun j hj => ?_
  rw [Int.toNat_of_nonneg (mem_xrange.mp hj).1]

/-- The transactions of a customer. -/
theorem exists_allTransactions (hg : g.Visible) (h : customerDay d i ≤ latestDate) (n : ℤ)
    {acs : List CustomerAccount} (hacs : acs.map (fun r => (r.accountId, r.effectiveDate)) =
      (xrange 0 n).map fun j => (accountIdOf (i, j), (accountDay single d i j).text)) :
    ∃ ts, (acs.zipIdx.mapM fun a : CustomerAccount × ℕ =>
        (xrange 0 ((d.transactions i).1 - 1)).mapM fun k =>
          transaction g (d.transactionDate i a.2 k) (d.testDate i a.2 k)
            (maxAccounts * i + maxTxns * a.2 + k) a.1.accountId (d.transactionType i a.2 k)
            a.1.effectiveDate (single (d.transactions i).1)) = .ok ts ∧
      ts.flatten.map (fun t => (t.accountId, t.effectiveDate, t.testDate)) =
        (xrange 0 n).flatMap fun j => (xrange 0 ((d.transactions i).1 - 1)).map fun k =>
          (accountIdOf (i, j), (effectiveDay single d i j k).text,
            (testDay single d i j k).text) := by
  obtain ⟨ts, hts, hdates⟩ := exists_mapM_ok acs.zipIdx
    (p := List.map fun t : DatedTransaction => (t.accountId, t.effectiveDate, t.testDate))
    fun p hp => exists_transactions single hg h p.2 ((d.transactions i).1 - 1)
      (dated_reference single hacs hp).1 (dated_reference single hacs hp).2
  refine ⟨ts, hts, ?_⟩
  rw [List.map_flatten, hdates, ← List.flatMap_def]
  exact flatMap_references single (fun j => (xrange 0 ((d.transactions i).1 - 1)).map fun k =>
    (accountIdOf (i, j), (effectiveDay single d i j k).text, (testDay single d i j k).text)) hacs

theorem exists_datedCustomer (hg : g.Visible) (d : Draws) (i : ℤ) (edate : Str) :
    ∃ c, customerAccounts g d i edate = .ok c ∧ c.customerId = firstId + i ∧
      c.effectiveDate = edate ∧
      Accounts.customerAccounts g i (d.customerType i) edate = .ok c.toCustomer := by
  obtain ⟨type, htype⟩ := exists_customer hg i (d.customerType i) edate
  have heq := customerAccounts_eq g d i edate
  rw [htype, Except.map] at heq
  exact ⟨_, heq, rfl, rfl, htype⟩

/-- Without the test dates, the transactions of a customer are those of the given dates. -/
theorem erase_allTransactions (h : customerDay d i ≤ latestDate) {n : ℤ}
    {acs : List CustomerAccount} (hacs : acs.map (fun r => (r.accountId, r.effectiveDate)) =
      (xrange 0 n).map fun j => (accountIdOf (i, j), (accountDay single d i j).text)) :
    (acs.zipIdx.mapM fun a : CustomerAccount × ℕ =>
        (xrange 0 ((d.transactions i).1 - 1)).mapM fun k =>
          Accounts.transaction g (maxAccounts * i + maxTxns * a.2 + k) a.1.accountId
            (d.transactionType i a.2 k) (effectiveDay single d i a.2 k).text) =
      (acs.zipIdx.mapM fun a : CustomerAccount × ℕ =>
        (xrange 0 ((d.transactions i).1 - 1)).mapM fun k =>
          transaction g (d.transactionDate i a.2 k) (d.testDate i a.2 k)
            (maxAccounts * i + maxTxns * a.2 + k) a.1.accountId (d.transactionType i a.2 k)
            a.1.effectiveDate (single (d.transactions i).1)).map
              (List.map (List.map DatedTransaction.toTransaction)) := by
  refine mapM_map fun p hp => ?_
  rw [(dated_reference single hacs hp).2]
  exact erase_transactions single h p.2 _ p.1.accountId

/-- A customer with a date in the data set is written, with the dates of its rows. -/
theorem customerRows_dated (hg : g.Visible) (h : customerDay d i ≤ latestDate) :
    ∃ t, customerRows single g d i = .ok t ∧ t.Dated single d [i] ∧
      Accounts.customerRows g (d.texts single) i = .ok t.erase := by
  have hdraw := dateTimeBetween_eq (d.customerDate i) (earliestDate_le_now d i)
  have hedate := strftime_eq (year_of_le (customerDay_ge d i))
  rw [customerDay] at hedate
  obtain ⟨cs, hcs, hid, hdate, hcs'⟩ := exists_datedCustomer hg d i (customerDay d i).text
  obtain ⟨as, has, has', hdates⟩ := exists_accounts single hg h ((d.accounts i).1 - 1)
  have hreferences : (as.map (reference cs.toCustomer)).map
      (fun r => (r.accountId, r.effectiveDate)) =
        (xrange 0 ((d.accounts i).1 - 1)).map fun j =>
          (accountIdOf (i, j), (accountDay single d i j).text) := by
    rw [← hdates, List.map_map]
    rfl
  have hids : as.map Account.accountId =
      (xrange 0 ((d.accounts i).1 - 1)).map fun j => accountIdOf (i, j) := by
    have hfirst := congrArg (List.map Prod.fst) hdates
    rwa [List.map_map, List.map_map] at hfirst
  obtain ⟨ts, hts, htransactions⟩ := exists_allTransactions single hg h _ hreferences
  have hrows : customerRows single g d i =
      .ok ⟨[cs], as, as.map (reference cs.toCustomer), ts.flatten⟩ := by
    rw [customerRows, hdraw, ok_bind, hedate, ok_bind, ← customerDay, hcs, ok_bind]
    dsimp only
    rw [has, ok_bind, hts, ok_bind]
    rfl
  have hrows' : Accounts.customerRows g (d.texts single) i =
      .ok (Tables.erase ⟨[cs], as, as.map (reference cs.toCustomer), ts.flatten⟩) := by
    have hts' := erase_allTransactions single (g := g) h hreferences
    rw [hts, Except.map] at hts'
    rw [Accounts.customerRows]
    dsimp only [Draws.texts]
    rw [hcs', ok_bind, has', ok_bind, hts', ok_bind, Tables.erase, List.map_singleton,
      List.map_flatten]
    rfl
  refine ⟨_, hrows, ⟨?_, ?_, ?_, ?_⟩, hrows'⟩
  · rw [List.map_singleton, List.map_singleton, hid, hdate]
  · rw [hdates, accountIndexes, List.flatMap_singleton, List.map_map]
    rfl
  · have hpairs : ((as.map (reference cs.toCustomer)).map fun r => (r.customerId, r.accountId)) =
        (as.map Account.accountId).map fun aid => (cs.customerId, aid) := by
      rw [List.map_map, List.map_map]
      rfl
    rw [hpairs, hids, hid, accountIndexes, List.flatMap_singleton, List.map_map, List.map_map]
    rfl
  · rw [htransactions, transactionIndexes, List.flatMap_singleton, List.map_map,
      List.map_flatMap]
    refine List.flatMap_congr fun j _ => ?_
    rw [List.map_map]
    rfl

theorem Tables.Dated.append {rows rows' : List ℤ} {t t' : Tables}
    (h : t.Dated single d rows) (h' : t'.Dated single d rows') :
    (t.append t').Dated single d (rows ++ rows') := by
  constructor
  · simp only [Tables.append, List.map_append, h.customers, h'.customers]
  · simp only [Tables.append, accountIndexes, List.flatMap_append, List.map_append]
    rw [h.accounts, h'.accounts]
    rfl
  · simp only [Tables.append, accountIndexes, List.flatMap_append, List.map_append]
    rw [h.customerAccounts, h'.customerAccounts]
    rfl
  · simp only [Tables.append, transactionIndexes, List.flatMap_append, List.map_append]
    rw [h.transactions, h'.transactions]
    rfl

theorem Tables.erase_append (t t' : Tables) :
    (t.append t').erase = t.erase.append t'.erase := by
  simp only [Tables.erase, Tables.append, Accounts.Tables.append, List.map_append]

/-! ## The loop -/

theorem rowLoop_ok {t : Tables} (h : customerRows single g d i = .ok t) (rows : List ℤ) :
    rowLoop single g d true (i :: rows) =
      (t.append (rowLoop single g d true rows).1, (rowLoop single g d true rows).2) := by
  rw [rowLoop, h]
  rfl

theorem rowLoop_error {e : Error} (h : customerRows single g d i = .error e) (rows : List ℤ) :
    rowLoop single g d true (i :: rows) = (.empty, some e) := by
  rw [rowLoop, h]
  rfl

/-- While all customers' dates are in the data set, the loop writes the tables that have the
days' texts for dates. -/
theorem rowLoop_dated (hg : g.Visible) {rows : List ℤ}
    (h : ∀ i ∈ rows, customerDay d i ≤ latestDate) :
    ∃ t, rowLoop single g d true rows = (t, none) ∧ t.Dated single d rows ∧
      Accounts.rowLoop g (d.texts single) true rows = (t.erase, none) := by
  induction rows with
  | nil => exact ⟨.empty, rfl, ⟨rfl, rfl, rfl, rfl⟩, rfl⟩
  | cons i rows ih =>
      obtain ⟨t, ht, hdated, herase⟩ := customerRows_dated single hg (h i List.mem_cons_self)
      obtain ⟨rest, hrest, hdated', herase'⟩ := ih fun k hk => h k (List.mem_cons_of_mem i hk)
      refine ⟨t.append rest, ?_, hdated.append single hdated', ?_⟩
      · rw [rowLoop_ok single ht, hrest]
      · simp only [Accounts.rowLoop, Bool.true_or, if_true, herase, herase',
          Tables.erase_append]

/-! ## The order of the dates -/

theorem Tables.Dated.customer {rows : List ℤ} {t : Tables} (h : t.Dated single d rows)
    {c : DatedCustomer} (hc : c ∈ t.customers) : ∃ i ∈ rows, c.customerId = firstId + i ∧
      c.effectiveDate = (customerDay d i).text := by
  have hmem := List.mem_map_of_mem
    (f := fun c : DatedCustomer => (c.customerId, c.effectiveDate)) hc
  rw [h.customers] at hmem
  obtain ⟨i, hi, heq⟩ := List.mem_map.mp hmem
  exact ⟨i, hi, (Prod.mk.inj heq).1.symm, (Prod.mk.inj heq).2.symm⟩

/-- The counters of an account that a customer owns are the customer's. -/
theorem Tables.Dated.account {rows : List ℤ} {t : Tables} (h : t.Dated single d rows)
    {c : DatedCustomer} {a : Account} (hc : c.customerId = firstId + i) (ha : a ∈ t.accounts)
    (howns : t.Owns c a) : ∃ j, (i, j) ∈ accountIndexes (d.texts single) rows ∧
      a.accountId = accountIdOf (i, j) ∧ a.effectiveDate = (accountDay single d i j).text := by
  obtain ⟨r, hr, hcustomer, haccount⟩ := howns
  have hmem := List.mem_map_of_mem (f := fun a : Account => (a.accountId, a.effectiveDate)) ha
  rw [h.accounts] at hmem
  obtain ⟨⟨i', j⟩, hx, heq⟩ := List.mem_map.mp hmem
  have hmem' := List.mem_map_of_mem
    (f := fun r : CustomerAccount => (r.customerId, r.accountId)) hr
  rw [h.customerAccounts] at hmem'
  obtain ⟨y, hy, heq'⟩ := List.mem_map.mp hmem'
  have hsame : y = (i', j) := by
    apply Accounts.accountIdOf_inj hy hx
    exact (Prod.mk.inj heq').2.trans (haccount.trans (Prod.mk.inj heq).1.symm)
  have hi : i' = i := by
    have hid := (Prod.mk.inj heq').1.trans (hcustomer.trans hc)
    rw [hsame] at hid
    exact Int.add_left_cancel hid
  subst hi
  exact ⟨j, hx, (Prod.mk.inj heq).1.symm, (Prod.mk.inj heq).2.symm⟩

/-- The counters of a transaction begin with those of its account. -/
theorem Tables.Dated.transaction {rows : List ℤ} {t : Tables} (h : t.Dated single d rows)
    {r : DatedTransaction} {x : ℤ × ℤ} (hx : x ∈ accountIndexes (d.texts single) rows)
    (hr : r ∈ t.transactions) (haccount : r.accountId = accountIdOf x) :
    ∃ k, r.effectiveDate = (effectiveDay single d x.1 x.2 k).text ∧
      r.testDate = (testDay single d x.1 x.2 k).text := by
  have hmem := List.mem_map_of_mem
    (f := fun r : DatedTransaction => (r.accountId, r.effectiveDate, r.testDate)) hr
  rw [h.transactions] at hmem
  obtain ⟨⟨i, j, k⟩, hz, heq⟩ := List.mem_map.mp hmem
  obtain ⟨hid, hdates⟩ := Prod.mk.inj heq
  have hsame : (i, j) = x := by
    apply Accounts.accountIdOf_inj (Accounts.mem_transactionIndexes.mp hz).1 hx
    exact hid.trans haccount
  rw [← hsame]
  exact ⟨k, (Prod.mk.inj hdates).1.symm, (Prod.mk.inj hdates).2.symm⟩

theorem Tables.Dated.ordered {rows : List ℤ} {t : Tables} (h : t.Dated single d rows)
    (hdays : ∀ i ∈ rows, customerDay d i ≤ latestDate) : t.Ordered single d := by
  have hflag {n : ℤ} (counts : ℤ → Zipf n) {c : DatedCustomer} {i : ℤ}
      (hid : c.customerId = firstId + i) : flag single counts c = single (counts i).1 := by
    have hsub : firstId + i - firstId = i := by omega
    rw [flag, hid, hsub]
  constructor
  · intro c hc
    obtain ⟨i, hi, -, hdate⟩ := h.customer single hc
    rw [hdate]
    exact ⟨_, strptime_text _, hdays i hi⟩
  · intro c hc a ha howns
    obtain ⟨i, hi, hid, hdate⟩ := h.customer single hc
    obtain ⟨j, -, -, hdate'⟩ := h.account single hid ha howns
    have hmem := accountDay_mem single (hdays i hi) j
    rw [hflag d.accounts hid, hdate, hdate']
    exact follows_text (hdays i hi) hmem.1 hmem.2
  · intro c hc a ha howns r hr haccount
    obtain ⟨i, hi, hid, -⟩ := h.customer single hc
    obtain ⟨j, hx, hid', hdate⟩ := h.account single hid ha howns
    obtain ⟨k, heffective, htest⟩ := h.transaction single hx hr (haccount.trans hid')
    have hmem := effectiveDay_mem single (d := d) (i := i) j k
    have hle := effectiveDay_le single (hdays i hi) j k
    have hmem' := testDay_mem single (hdays i hi) j k
    rw [hflag d.transactions hid, hdate, heffective, htest]
    constructor
    · exact follows_text (accountDay_le single (hdays i hi) j) hmem.1 hle
    · exact follows_text hle hmem'.1 hmem'.2

/-! ## Empty ranges -/

/-- Nothing but an invalid range or text is met. -/
def OnlyValueError {α : Type} (x : Except Error α) : Prop := ∀ e, x = .error e → e = .valueError

theorem onlyValueError_ok {α : Type} (a : α) : OnlyValueError (.ok a) := by
  intro e he
  cases he

theorem onlyValueError_error {α : Type} :
    OnlyValueError (.error .valueError : Except Error α) := by
  intro e he
  cases he
  rfl

theorem OnlyValueError.bind {α β : Type} {x : Except Error α} {f : α → Except Error β}
    (hx : OnlyValueError x) (hf : ∀ a, OnlyValueError (f a)) : OnlyValueError (x >>= f) := by
  intro e he
  cases x with
  | error e' =>
      rw [error_bind] at he
      exact hx e (congrArg Except.error (Except.error.inj he))
  | ok a => exact hf a e he

theorem onlyValueError_mapM {α β : Type} {f : α → Except Error β} (l : List α)
    (h : ∀ a, OnlyValueError (f a)) : OnlyValueError (l.mapM f) := by
  induction l with
  | nil => exact onlyValueError_ok []
  | cons a l ih =>
      rw [List.mapM_cons]
      exact (h a).bind fun b => ih.bind fun bs => onlyValueError_ok (b :: bs)

theorem onlyValueError_date (year month day : ℕ) : OnlyValueError (date year month day) := by
  unfold date
  split
  · exact onlyValueError_ok _
  · exact onlyValueError_error

theorem onlyValueError_strptime (s : Str) : OnlyValueError (strptime s) := by
  unfold strptime
  split
  · split
    · exact onlyValueError_date _ _ _
    · exact onlyValueError_error
  · exact onlyValueError_error

theorem onlyValueError_strftime (d : Date) : OnlyValueError d.strftime := by
  unfold Date.strftime
  split
  · exact onlyValueError_error
  · exact onlyValueError_ok _

theorem onlyValueError_dateTimeBetween (p : Pick) (start stop : DateTime) :
    OnlyValueError (dateTimeBetween p start stop) := by
  unfold dateTimeBetween
  split
  · exact onlyValueError_ok _
  · exact onlyValueError_error

theorem onlyValueError_endOfMonth (s : Str) : OnlyValueError (endOfMonth s) :=
  (onlyValueError_strptime s).bind fun d => onlyValueError_ok d.endOfMonth

theorem onlyValueError_lastDateOf (sameMonth : Bool) (s : Str) :
    OnlyValueError (lastDateOf sameMonth s) := by
  cases sameMonth
  · exact onlyValueError_ok _
  · exact onlyValueError_endOfMonth s

theorem onlyValueError_account (hg : g.Visible) (p : Pick) (n : ℤ) (r : ℕ) (edate : Str)
    (sameMonth : Bool) : OnlyValueError (account g p n r edate sameMonth) := by
  obtain ⟨types, htypes, hne⟩ := hg.1
  obtain ⟨type, -, htype⟩ := exists_choice_ok hne r
  rw [account, htypes, lookup, ok_bind, htype, ok_bind]
  refine (onlyValueError_lastDateOf sameMonth edate).bind fun lastDate => ?_
  refine (onlyValueError_strptime edate).bind fun start => ?_
  refine (onlyValueError_dateTimeBetween p _ _).bind fun effective => ?_
  exact (onlyValueError_strftime effective.date).bind fun _ => onlyValueError_ok _

theorem onlyValueError_transaction (hg : g.Visible) (p q : Pick) (n aid : ℤ) (r : ℕ)
    (edate : Str) (sameMonth : Bool) :
    OnlyValueError (transaction g p q n aid r edate sameMonth) := by
  obtain ⟨types, htypes, hne⟩ := hg.2.1
  obtain ⟨type, -, htype⟩ := exists_choice_ok hne r
  rw [transaction]
  refine (onlyValueError_strptime edate).bind fun start => ?_
  refine (onlyValueError_endOfMonth edate).bind fun stop => ?_
  refine (onlyValueError_dateTimeBetween p _ _).bind fun effective => ?_
  refine (onlyValueError_strftime effective.date).bind fun effectiveDate => ?_
  rw [htypes, lookup, ok_bind, htype, ok_bind]
  refine (onlyValueError_lastDateOf sameMonth effectiveDate).bind fun lastDate => ?_
  refine (onlyValueError_strptime effectiveDate).bind fun start => ?_
  refine (onlyValueError_dateTimeBetween q _ _).bind fun td => ?_
  exact (onlyValueError_strftime td.date).bind fun _ => onlyValueError_ok _

theorem account_late (hg : g.Visible) (p : Pick) (n : ℤ) (r : ℕ) {day : Date}
    (h : ¬ day ≤ latestDate) : account g p n r day.text false = .error .valueError := by
  obtain ⟨types, htypes, hne⟩ := hg.1
  obtain ⟨type, -, htype⟩ := exists_choice_ok hne r
  have hdraw : dateTimeBetween p day.midnight latestDate.midnight = .error .valueError := by
    rw [dateTimeBetween, if_neg (mt Date.midnight_le_iff.mp h)]
  rw [account, htypes, lookup, ok_bind, htype, ok_bind, lastDateOf_text, ok_bind, lastDay_false,
    strptime_text, ok_bind, hdraw, error_bind]

/-- Every customer has an account, so a date after the last one makes an empty range. -/
theorem customerRows_late (hg : g.Visible) (h : ¬ customerDay d i ≤ latestDate)
    (hsingle : single (d.accounts i).1 = false) :
    customerRows single g d i = .error .valueError := by
  have hdraw := dateTimeBetween_eq (d.customerDate i) (earliestDate_le_now d i)
  have hedate := strftime_eq (year_of_le (customerDay_ge d i))
  rw [customerDay] at hedate
  obtain ⟨cs, hcs, -⟩ := exists_datedCustomer hg d i (customerDay d i).text
  have hlt : 0 < (d.accounts i).1 - 1 := by
    have htwo := (d.accounts i).2.1
    omega
  rw [customerRows, hdraw, ok_bind, hedate, ok_bind, ← customerDay, hcs, ok_bind]
  dsimp only
  rw [hsingle, xrange_of_lt hlt, List.mapM_cons, account_late hg _ _ _ h, error_bind, error_bind]

theorem rowLoop_late (hg : g.Visible) (h : ¬ customerDay d i ≤ latestDate)
    (hsingle : single (d.accounts i).1 = false) (rows : List ℤ) :
    rowLoop single g d true (i :: rows) = (.empty, some .valueError) :=
  rowLoop_error single (customerRows_late single hg h hsingle) rows

theorem onlyValueError_customerRows (hg : g.Visible) (d : Draws) (i : ℤ) :
    OnlyValueError (customerRows single g d i) := by
  refine (onlyValueError_dateTimeBetween _ _ _).bind fun drawn => ?_
  refine (onlyValueError_strftime drawn.date).bind fun edate => ?_
  obtain ⟨cs, hcs, -⟩ := exists_datedCustomer hg d i edate
  rw [hcs, ok_bind]
  refine (onlyValueError_mapM _ fun j => onlyValueError_account hg _ _ _ _ _).bind fun as => ?_
  refine (onlyValueError_mapM _ fun a => onlyValueError_mapM _ fun k => ?_).bind fun ts => ?_
  · exact onlyValueError_transaction hg _ _ _ _ _ _ _
  · exact onlyValueError_ok _

/-- The customer is written, whatever its date. -/
theorem customer_of_customerRows (hg : g.Visible) {t : Tables}
    (h : customerRows single g d i = .ok t) :
    ∃ c ∈ t.customers, c.effectiveDate = (customerDay d i).text := by
  have hdraw := dateTimeBetween_eq (d.customerDate i) (earliestDate_le_now d i)
  have hedate := strftime_eq (year_of_le (customerDay_ge d i))
  rw [customerDay] at hedate
  obtain ⟨cs, hcs, -, hdate, -⟩ := exists_datedCustomer hg d i (customerDay d i).text
  rw [customerRows, hdraw, ok_bind, hedate, ok_bind, ← customerDay, hcs, ok_bind] at h
  dsimp only at h
  obtain ⟨as, -, h⟩ := bind_eq_ok h
  obtain ⟨ts, -, h⟩ := bind_eq_ok h
  cases h
  exact ⟨cs, List.mem_singleton_self cs, hdate⟩

/-- If no range was empty and the customers' dates that were written are in the data set, then
all customers' dates are. -/
theorem customerDay_le_of_rowLoop (hg : g.Visible) {rows : List ℤ}
    (hraised : (rowLoop single g d true rows).2 ≠ some .valueError)
    (hdates : ∀ c ∈ (rowLoop single g d true rows).1.customers,
      ∃ day, strptime c.effectiveDate = .ok day ∧ day ≤ latestDate) :
    ∀ i ∈ rows, customerDay d i ≤ latestDate := by
  induction rows with
  | nil => simp
  | cons i rows ih =>
      cases hrows : customerRows single g d i with
      | error e =>
          rw [rowLoop_error single hrows, onlyValueError_customerRows single hg d i e hrows]
            at hraised
          exact absurd rfl hraised
      | ok t =>
          rw [rowLoop_ok single hrows] at hraised hdates
          obtain ⟨c, hc, hdate⟩ := customer_of_customerRows single hg hrows
          obtain ⟨day, hday, hle⟩ := hdates c (List.mem_append_left _ hc)
          rw [hdate, strptime_text] at hday
          intro k hk
          rcases List.mem_cons.mp hk with rfl | hk
          · rw [Except.ok.inj hday]
            exact hle
          · exact ih hraised (fun c hc => hdates c (List.mem_append_right _ hc)) k hk

/-- A range that begins at a multiple of `reseedSplit` is written with seeded generators. -/
theorem rowLoop_of_boundary (g : Globals) (d : Draws) {i : ℤ} (hi : i % reseedSplit = 0)
    (rows : List ℤ) :
    rowLoop single g d false (i :: rows) = rowLoop single g d true (i :: rows) := by
  have hseeded : decide (i % reseedSplit = 0) = true := decide_eq_true hi
  rw [rowLoop, rowLoop, hseeded, Bool.false_or, Bool.true_or]

theorem rowLoop_of_not_boundary (g : Globals) (d : Draws) {i : ℤ} (hi : i % reseedSplit ≠ 0)
    (rows : List ℤ) :
    rowLoop single g d false (i :: rows) = (.empty, some .attributeError) := by
  have hseeded : decide (i % reseedSplit = 0) = false := decide_eq_false hi
  rw [rowLoop, hseeded]
  rfl

theorem ordered_empty (d : Draws) : Tables.empty.Ordered single d := by
  constructor <;> simp [Tables.empty]

/-- No range is empty and the dates are in order exactly if all customers' dates are in the
data set, in the ranges of customers that are written. -/
theorem rowLoop_ordered_iff (hg : g.Visible) (d : Draws) (start stop : ℤ) :
    ((rowLoop single g d false (xrange start stop)).2 ≠ some .valueError ∧
      (rowLoop single g d false (xrange start stop)).1.Ordered single d) ↔
      (start % reseedSplit = 0 → ∀ i ∈ xrange start stop, customerDay d i ≤ latestDate) := by
  rcases Int.lt_or_le start stop with hlt | hle
  · by_cases hstart : start % reseedSplit = 0
    · rw [xrange_of_lt hlt, rowLoop_of_boundary single g d hstart, ← xrange_of_lt hlt]
      constructor
      · intro h _
        exact customerDay_le_of_rowLoop single hg h.1 h.2.customers
      · intro h
        obtain ⟨t, ht, hdated, -⟩ := rowLoop_dated single hg (h hstart)
        rw [ht]
        exact ⟨by simp, hdated.ordered single (h hstart)⟩
    · rw [xrange_of_lt hlt, rowLoop_of_not_boundary single g d hstart]
      simp [hstart, ordered_empty]
  · rw [xrange_of_le hle]
    simp [rowLoop, ordered_empty]

/-- The first and the last time of a range. -/
def firstPick : Pick := ⟨fun start _ => start, fun h => ⟨DateTime.le_refl _, h⟩⟩
def lastPick : Pick := ⟨fun _ stop => stop, fun h => ⟨h, DateTime.le_refl _⟩⟩

theorem two_accounts : 2 ≤ (2 : ℤ) ∧ 2 ≤ maxAccounts := by decide

theorem fifteen_transactions : 2 ≤ (15 : ℤ) ∧ 15 ≤ maxTxns := by decide

/-- Draws on the first day of 2016, with the draws of the customers' dates. -/
def newYearDraws (customerDate : Pick) : Draws where
  now := fun _ => newYear.midnight
  now_ge := fun _ => DateTime.le_refl _
  customerDate := fun _ => customerDate
  customerType := fun i => i.toNat
  birthRange := fun _ => (Date.midnight ⟨1966, 1, 1, by decide, by decide, by decide⟩,
    Date.midnight ⟨1996, 1, 1, by decide, by decide, by decide⟩)
  birthRange_le := fun _ => by decide
  birthRange_year := fun _ => by decide
  birth := fun _ => firstPick
  accounts := fun _ => ⟨2, two_accounts⟩
  accountType := fun _ _ => 0
  accountDate := fun _ _ => lastPick
  transactions := fun _ => ⟨15, fifteen_transactions⟩
  transactionType := fun _ _ _ => 0
  transactionDate := fun _ _ _ => firstPick
  testDate := fun _ _ _ => lastPick

theorem ordered_first_dates :
    (rowLoop (fun zv => zv == 1) Accounts.lookUpTables (newYearDraws firstPick) false
      (xrange 0 100)).2 ≠ some .valueError ∧
    (rowLoop (fun zv => zv == 1) Accounts.lookUpTables (newYearDraws firstPick) false
      (xrange 0 100)).1.Ordered (fun zv => zv == 1) (newYearDraws firstPick) :=
  (rowLoop_ordered_iff _ Accounts.visible_lookUpTables (newYearDraws firstPick) 0 100).mpr
    fun _ _ _ => by
      have hle : earliestDate ≤ latestDate := by decide
      exact hle

/-- A customer of 2016 has no account that the data set could hold. -/
theorem not_ordered_last_dates :
    ¬ ((rowLoop (fun zv => zv == 1) Accounts.lookUpTables (newYearDraws lastPick) false
      (xrange 0 100)).2 ≠ some .valueError ∧
    (rowLoop (fun zv => zv == 1) Accounts.lookUpTables (newYearDraws lastPick) false
      (xrange 0 100)).1.Ordered (fun zv => zv == 1) (newYearDraws lastPick)) := by
  have hraised : (rowLoop (fun zv => zv == 1) Accounts.lookUpTables (newYearDraws lastPick) false
      (xrange 0 100)).2 = some .valueError := by
    have hlate : ¬ customerDay (newYearDraws lastPick) 0 ≤ latestDate := by
      have hnot : ¬ newYear ≤ latestDate := by decide
      exact hnot
    rw [xrange_of_lt (by decide), rowLoop_of_boundary _ _ _ (by decide),
      rowLoop_late _ Accounts.visible_lookUpTables hlate rfl]
  intro h
  exact h.1 hraised

end Structor.AccountDates
