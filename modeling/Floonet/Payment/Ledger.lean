import Mathlib.Data.List.Nodup
import Mathlib.Algebra.Order.BigOperators.Group.List
import Floonet.Payment.Processor

/-!
# Accounts and invoices

The `account` and `invoice` tables, with the keys and the foreign key the databases
enforce as fields. A balance is stored differently by the two databases, so its type
is a parameter.
-/

namespace Floonet.Payment

/-- A row of `account`. `tos_accepted_at` is never read. -/
structure Account (β : Type) where
  pubkey : String
  isAdmitted : Bool
  balance : β
  deriving DecidableEq

/-- A row of `invoice`. `confirmed_at` is never read. -/
structure Invoice where
  paymentHash : String
  pubkey : String
  invoice : String
  amount : Nat
  status : InvoiceStatus
  description : String
  createdAt : Nat
  deriving DecidableEq

/-- The two tables and their constraints. -/
structure Ledger (β : Type) where
  accounts : List (Account β)
  invoices : List Invoice
  /-- `account(pubkey)` is a primary key -/
  account_key : (accounts.map Account.pubkey).Nodup
  /-- `invoice(payment_hash)` is a primary key -/
  invoice_key : (invoices.map Invoice.paymentHash).Nodup
  /-- `invoice(pubkey) REFERENCES account(pubkey)` -/
  invoice_fkey : ∀ i ∈ invoices, i.pubkey ∈ accounts.map Account.pubkey

/-- Errors of a repository call. -/
inductive RepoError where
  /-- `QueryReturnedNoRows`, `RowNotFound` -/
  | noRows
  | other
  deriving DecidableEq

namespace Ledger

variable {β : Type} (l : Ledger β)

/-- No accounts and no invoices. -/
def empty : Ledger β := ⟨[], [], List.nodup_nil, List.nodup_nil, fun _ h => by cases h⟩

/-- The account of a key. -/
def account? (key : String) : Option (Account β) := l.accounts.find? fun a => a.pubkey == key

/-- The invoice with a payment hash. -/
def invoice? (hash : String) : Option Invoice := l.invoices.find? fun i => i.paymentHash == hash

/-- The account of a key is there, and admitted. -/
def Admitted (key : String) : Prop := ∃ a, l.account? key = some a ∧ a.isAdmitted = true

instance (key : String) : Decidable (l.Admitted key) :=
  decidable_of_iff ((l.account? key).any Account.isAdmitted = true) (Option.any_eq_true _ _)

/-- `UPDATE account SET … WHERE pubkey = key` on one row: `grant` sets `is_admitted`. -/
def adjustRow (key : String) (grant : Bool) (f : β → β) (a : Account β) : Account β :=
  if a.pubkey = key then { a with isAdmitted := a.isAdmitted || grant, balance := f a.balance }
  else a

/-- `UPDATE invoice SET status = … WHERE payment_hash = hash` on one row. -/
def statusRow (hash : String) (status : InvoiceStatus) (i : Invoice) : Invoice :=
  if i.paymentHash = hash then { i with status := status } else i

section Rows

variable {key hash : String} {grant : Bool} {f : β → β} {status : InvoiceStatus}

@[simp] theorem pubkey_adjustRow (a : Account β) : (adjustRow key grant f a).pubkey = a.pubkey := by
  rw [adjustRow]
  split_ifs <;> rfl

@[simp] theorem paymentHash_statusRow (i : Invoice) :
    (statusRow hash status i).paymentHash = i.paymentHash := by
  rw [statusRow]
  split_ifs <;> rfl

@[simp] theorem pubkey_statusRow (i : Invoice) : (statusRow hash status i).pubkey = i.pubkey := by
  rw [statusRow]
  split_ifs <;> rfl

@[simp] theorem amount_statusRow (i : Invoice) : (statusRow hash status i).amount = i.amount := by
  rw [statusRow]
  split_ifs <;> rfl

@[simp] theorem map_pubkey_adjust (as : List (Account β)) :
    (as.map (adjustRow key grant f)).map Account.pubkey = as.map Account.pubkey := by
  rw [List.map_map]
  exact List.map_congr_left fun a _ => pubkey_adjustRow a

@[simp] theorem map_paymentHash_status (is : List Invoice) :
    (is.map (statusRow hash status)).map Invoice.paymentHash = is.map Invoice.paymentHash := by
  rw [List.map_map]
  exact List.map_congr_left fun i _ => paymentHash_statusRow i

end Rows

/-! ## Writes

The constraints of the tables are fields, so a write carries their proofs: payment hashes and keys
are distinct, and each invoice belongs to an account. -/

/-- A new account, not admitted. -/
def addAccount (key : String) (zero : β) (h : l.account? key = none) : Ledger β where
  accounts := l.accounts ++ [⟨key, false, zero⟩]
  invoices := l.invoices
  account_key := by
    rw [List.map_append, List.map_singleton, List.nodup_append]
    refine ⟨l.account_key, List.nodup_singleton _, ?_⟩
    intro p hp q hq
    obtain ⟨a, ha, rfl⟩ := List.mem_map.mp hp
    rw [List.mem_singleton.mp hq]
    simpa using List.find?_eq_none.mp h a ha
  invoice_key := l.invoice_key
  invoice_fkey := by
    intro i hi
    rw [List.map_append]
    exact List.mem_append_left _ (l.invoice_fkey i hi)

/-- One account row rewritten. -/
def adjust (key : String) (grant : Bool) (f : β → β) : Ledger β where
  accounts := l.accounts.map (adjustRow key grant f)
  invoices := l.invoices
  account_key := by
    rw [map_pubkey_adjust]
    exact l.account_key
  invoice_key := l.invoice_key
  invoice_fkey := by
    rw [map_pubkey_adjust]
    exact l.invoice_fkey

/-- A new invoice of an existing account. -/
def addInvoice (inv : Invoice) (hnew : l.invoice? inv.paymentHash = none)
    (hacc : (l.account? inv.pubkey).isSome) : Ledger β where
  accounts := l.accounts
  invoices := l.invoices ++ [inv]
  account_key := l.account_key
  invoice_key := by
    rw [List.map_append, List.map_singleton, List.nodup_append]
    refine ⟨l.invoice_key, List.nodup_singleton _, ?_⟩
    intro p hp q hq
    obtain ⟨i, hi, rfl⟩ := List.mem_map.mp hp
    rw [List.mem_singleton.mp hq]
    simpa using List.find?_eq_none.mp hnew i hi
  invoice_fkey := by
    intro i hi
    rcases List.mem_append.mp hi with hi | hi
    · exact l.invoice_fkey i hi
    · obtain ⟨a, ha⟩ := Option.isSome_iff_exists.mp hacc
      rw [List.mem_singleton.mp hi]
      have hk : a.pubkey = inv.pubkey := by simpa using List.find?_some ha
      exact hk ▸ List.mem_map_of_mem (List.mem_of_find?_eq_some ha)

/-- One invoice row given a new status. -/
def setStatus (hash : String) (status : InvoiceStatus) : Ledger β where
  accounts := l.accounts
  invoices := l.invoices.map (statusRow hash status)
  account_key := l.account_key
  invoice_key := by
    rw [map_paymentHash_status]
    exact l.invoice_key
  invoice_fkey := by
    intro i hi
    obtain ⟨j, hj, rfl⟩ := List.mem_map.mp hi
    rw [pubkey_statusRow]
    exact l.invoice_fkey j hj

/-! ## Reading after a write -/

section Read

variable {l} {key k hash h : String} {a : Account β} {i inv : Invoice} {grant : Bool} {f : β → β}
  {status : InvoiceStatus} {zero : β}

/-- An account that is found is there. -/
theorem mem_of_account? (h : l.account? key = some a) : a ∈ l.accounts ∧ a.pubkey = key :=
  ⟨List.mem_of_find?_eq_some h, by simpa using List.find?_some h⟩

/-- An account that is there is found. -/
theorem account?_eq_some (ha : a ∈ l.accounts) (hk : a.pubkey = key) : l.account? key = some a := by
  rcases hf : l.account? key with _ | b
  · exact absurd (List.find?_eq_none.mp hf a ha) (by simp [hk])
  · obtain ⟨hb, hbk⟩ := mem_of_account? hf
    rw [List.inj_on_of_nodup_map l.account_key hb ha (hbk.trans hk.symm)]

/-- An invoice that is found is there. -/
theorem mem_of_invoice? (h : l.invoice? hash = some i) : i ∈ l.invoices ∧ i.paymentHash = hash :=
  ⟨List.mem_of_find?_eq_some h, by simpa using List.find?_some h⟩

/-- An invoice that is there is found. -/
theorem invoice?_eq_some (hi : i ∈ l.invoices) (hh : i.paymentHash = hash) :
    l.invoice? hash = some i := by
  rcases hf : l.invoice? hash with _ | j
  · exact absurd (List.find?_eq_none.mp hf i hi) (by simp [hh])
  · obtain ⟨hj, hjh⟩ := mem_of_invoice? hf
    rw [List.inj_on_of_nodup_map l.invoice_key hj hi (hjh.trans hh.symm)]

@[simp] theorem invoices_adjust : (l.adjust key grant f).invoices = l.invoices := rfl

@[simp] theorem accounts_setStatus : (l.setStatus hash status).accounts = l.accounts := rfl

@[simp] theorem account?_setStatus : (l.setStatus hash status).account? k = l.account? k := rfl

theorem account?_adjust : (l.adjust key grant f).account? k =
    (l.account? k).map (adjustRow key grant f) := by
  rw [account?, account?, adjust, List.find?_map]
  congr 2
  funext a
  simp

theorem account?_adjust_of_ne (hk : k ≠ key) :
    (l.adjust key grant f).account? k = l.account? k := by
  rw [account?_adjust]
  rcases hf : l.account? k with _ | a
  · rfl
  · rw [Option.map_some, adjustRow, if_neg]
    rw [(mem_of_account? hf).2]
    exact hk

theorem invoice?_setStatus : (l.setStatus hash status).invoice? h =
    (l.invoice? h).map (statusRow hash status) := by
  rw [invoice?, invoice?, setStatus, List.find?_map]
  congr 2
  funext i
  simp

@[simp] theorem invoice?_adjust : (l.adjust key grant f).invoice? h = l.invoice? h := rfl

@[simp] theorem invoice?_addAccount {hnew : l.account? key = none} :
    (l.addAccount key zero hnew).invoice? h = l.invoice? h := rfl

theorem invoice?_addInvoice {hnew : l.invoice? inv.paymentHash = none}
    {hacc : (l.account? inv.pubkey).isSome} : (l.addInvoice inv hnew hacc).invoice? h =
      if h = inv.paymentHash then some inv else l.invoice? h := by
  have hsplit : (l.addInvoice inv hnew hacc).invoice? h =
      (l.invoice? h).or (if inv.paymentHash = h then some inv else none) := by
    rw [invoice?, addInvoice, List.find?_append, List.find?_singleton]
    simp [invoice?]
  rw [hsplit]
  by_cases hh : h = inv.paymentHash
  · rw [hh, hnew, if_pos rfl]
    rfl
  · rw [if_neg hh, if_neg (fun h' => hh h'.symm), Option.or_none]

@[simp] theorem account?_addInvoice {hnew : l.invoice? inv.paymentHash = none}
    {hacc : (l.account? inv.pubkey).isSome} :
    (l.addInvoice inv hnew hacc).account? k = l.account? k := rfl

theorem account?_addAccount {hnew : l.account? key = none} : (l.addAccount key zero hnew).account? k =
    if k = key then some ⟨key, false, zero⟩ else l.account? k := by
  have hsplit : (l.addAccount key zero hnew).account? k =
      (l.account? k).or (if key = k then some ⟨key, false, zero⟩ else none) := by
    rw [account?, addAccount, List.find?_append, List.find?_singleton]
    simp [account?]
  rw [hsplit]
  by_cases hk : k = key
  · rw [hk, hnew, if_pos rfl]
    rfl
  · rw [if_neg hk, if_neg (fun h => hk h.symm), Option.or_none]

theorem Admitted.adjust (h : l.Admitted k) : (l.adjust key grant f).Admitted k := by
  obtain ⟨a, ha, hadm⟩ := h
  refine ⟨_, account?_adjust.trans (congrArg _ ha), ?_⟩
  rw [adjustRow]
  split_ifs
  · simp [hadm]
  · exact hadm

/-- A change that grants nothing admits nobody. -/
theorem Admitted.of_adjust (h : (l.adjust key false f).Admitted k) : l.Admitted k := by
  obtain ⟨a, ha, hadm⟩ := h
  rw [account?_adjust] at ha
  obtain ⟨b, hb, rfl⟩ := Option.map_eq_some_iff.mp ha
  refine ⟨b, hb, ?_⟩
  rw [adjustRow] at hadm
  split_ifs at hadm
  · simpa using hadm
  · exact hadm

theorem admitted_addAccount {hnew : l.account? key = none} :
    (l.addAccount key zero hnew).Admitted k ↔ l.Admitted k := by
  simp only [Admitted, account?_addAccount]
  split_ifs with hk
  · simp [hk, hnew]
  · rfl

end Read

end Ledger

/-! ## Sums -/

/-- What an invoice contributes to the paid invoices of a key. -/
def Invoice.paidTo (key : String) (i : Invoice) : Nat :=
  if i.pubkey = key ∧ i.status = .paid then i.amount else 0

namespace Ledger

variable {β : Type} (l : Ledger β)

/-- Sum of the amounts of the invoices of a key that are recorded as paid. -/
def paidSum (key : String) : Nat := (l.invoices.map (Invoice.paidTo key)).sum

section Sums

variable {l} {key hash : String} {inv : Invoice} {status : InvoiceStatus}

/-- A payment is part of the sum. -/
theorem paidTo_le_paidSum (key : String) (hi : inv ∈ l.invoices) : inv.paidTo key ≤ l.paidSum key :=
  List.single_le_sum (fun _ _ => Nat.zero_le _) _ (List.mem_map_of_mem hi)

/-- A key without account has no invoices. -/
theorem paidSum_eq_zero (h : l.account? key = none) : l.paidSum key = 0 := by
  rw [paidSum, List.sum_eq_zero_iff_forall_eq_nat]
  intro n hn
  obtain ⟨i, hi, rfl⟩ := List.mem_map.mp hn
  obtain ⟨a, ha, hk⟩ := List.mem_map.mp (l.invoice_fkey i hi)
  refine if_neg ?_
  rintro ⟨rfl, -⟩
  rw [account?_eq_some ha hk] at h
  cases h

theorem paidSum_addInvoice {hnew : l.invoice? inv.paymentHash = none}
    {hacc : (l.account? inv.pubkey).isSome} :
    (l.addInvoice inv hnew hacc).paidSum key = l.paidSum key + inv.paidTo key := by
  rw [paidSum, addInvoice, List.map_append, List.sum_append]
  simp [paidSum]

/-- Rows of other hashes are left alone. -/
theorem map_statusRow_of_notMem {is : List Invoice} (h : hash ∉ is.map Invoice.paymentHash) :
    is.map (statusRow hash status) = is := by
  refine (List.map_congr_left fun i hi => ?_).trans (List.map_id _)
  rw [statusRow, if_neg]
  · rfl
  · rintro rfl
    exact h (List.mem_map_of_mem hi)

/-- A new status changes one term of a sum over the rows. -/
theorem sum_map_statusRow (f : Invoice → Nat) {is : List Invoice}
    (hkey : (is.map Invoice.paymentHash).Nodup) (hmem : inv ∈ is) (hhash : inv.paymentHash = hash) :
    ((is.map (statusRow hash status)).map f).sum + f inv =
      (is.map f).sum + f { inv with status := status } := by
  induction is with
  | nil => cases hmem
  | cons j is ih =>
    rw [List.map_cons, List.nodup_cons] at hkey
    simp only [List.map_cons, List.sum_cons]
    rcases List.mem_cons.mp hmem with rfl | hmem
    · -- the row itself; the key keeps its hash out of the rest
      rw [map_statusRow_of_notMem (hhash ▸ hkey.1), statusRow, if_pos hhash]
      omega
    · have hne : j.paymentHash ≠ hash := by
        rintro rfl
        exact hkey.1 (hhash ▸ List.mem_map_of_mem hmem)
      have hrest := ih hkey.2 hmem
      rw [statusRow, if_neg hne]
      omega

theorem paidSum_setStatus (status : InvoiceStatus) (key : String) (hi : l.invoice? hash = some inv) :
    (l.setStatus hash status).paidSum key + inv.paidTo key =
      l.paidSum key + ({ inv with status := status } : Invoice).paidTo key := by
  obtain ⟨hmem, hhash⟩ := mem_of_invoice? hi
  exact sum_map_statusRow (Invoice.paidTo key) l.invoice_key hmem hhash

end Sums

end Ledger

end Floonet.Payment
