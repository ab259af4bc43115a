import Floonet.Lib.Sql
import Floonet.Lib.Column
import Floonet.Payment.Ledger

/-!
# Accounts and invoices in SQLite

The account and invoice operations of `SqliteRepo`, each one transaction. A key is
the text of the public key. Binding a `u64` that does not fit an `i64` is an error.
-/

namespace Floonet.Sqlite

open Payment

/-- The tables as SQLite stores them. -/
abbrev Accounts : Type := Ledger Sql.Cell

/-- The calls of the repository trait on accounts and invoices. -/
inductive RepoOp where
  | createAccount (key : String)
  | admitAccount (key : String) (admissionCost : Nat)
  | getAccountBalance (key : String)
  | updateAccountBalance (key : String) (positive : Bool) (newBalance : Nat)
  | createInvoiceRecord (key : String) (invoiceInfo : InvoiceInfo)
  | updateInvoice (paymentHash : String) (status : InvoiceStatus)
  | getUnpaidInvoice (key : String)
  deriving DecidableEq

/-- What each call returns. -/
@[reducible] def RepoOp.Res : RepoOp → Type
  | createAccount _ => Except RepoError Bool
  | admitAccount _ _ => Except RepoError Unit
  | getAccountBalance _ => Except RepoError (Bool × Nat)
  | updateAccountBalance _ _ _ => Except RepoError Unit
  | createInvoiceRecord _ _ => Except RepoError Unit
  | updateInvoice _ _ => Except RepoError String
  | getUnpaidInvoice _ => Except RepoError (Option InvoiceInfo)

/-- A call that fails in the database leaves it as it was. -/
def RepoOp.fail : (o : RepoOp) → o.Res
  | createAccount _ => .error .other
  | admitAccount _ _ => .error .other
  | getAccountBalance _ => .error .other
  | updateAccountBalance _ _ _ => .error .other
  | createInvoiceRecord _ _ => .error .other
  | updateInvoice _ _ => .error .other
  | getUnpaidInvoice _ => .error .other

namespace Accounts

variable (l : Accounts)

/-- Create account: `INSERT OR IGNORE`. -/
def createAccount (key : String) : Accounts × Except RepoError Bool :=
  if h : l.account? key = none then (l.addAccount key (.int 0) h, .ok true)
  else (l, .ok false)

/-- Admit account. -/
def admitAccount (key : String) (admissionCost : Nat) : Accounts × Except RepoError Unit :=
  if fitsI64 admissionCost then
    (l.adjust key true fun b => b.add (-(admissionCost : Int)), .ok ())
  else (l, .error .other)

/-- Gets if the account is admitted and balance. -/
def getAccountBalance (key : String) : Except RepoError (Bool × Nat) :=
  match l.account? key with
  | none => .error .noRows
  | some a =>
    match a.balance.toU64 with
    | some balance => .ok (a.isAdmitted, balance)
    | none => .error .other

/-- Update account balance. -/
def updateAccountBalance (key : String) (positive : Bool) (newBalance : Nat) :
    Accounts × Except RepoError Unit :=
  if fitsI64 newBalance then
    (l.adjust key false fun b => b.add (if positive then newBalance else -(newBalance : Int)),
      .ok ())
  else (l, .error .other)

/-- Create invoice record, at a clock reading in whole seconds. -/
def createInvoiceRecord (key : String) (info : InvoiceInfo) (now : Nat) :
    Accounts × Except RepoError Unit :=
  if fitsI64 info.amount then
    if hnew : l.invoice? info.paymentHash = none then
      if hacc : (l.account? key).isSome then
        (l.addInvoice ⟨info.paymentHash, key, info.bolt11, info.amount, info.status, info.memo, now⟩
          hnew hacc, .ok ())
      else (l, .error .other)
    else (l, .error .other)
  else (l, .error .other)

/-- Update invoice record. The balance is credited when the invoice goes from unpaid
to paid. -/
def updateInvoice (paymentHash : String) (status : InvoiceStatus) :
    Accounts × Except RepoError String :=
  match l.invoice? paymentHash with
  | none => (l, .error .noRows)
  | some inv =>
    let l' := l.setStatus paymentHash status
    if inv.status = .unpaid ∧ status = .paid then
      (l'.adjust inv.pubkey false fun b => b.add inv.amount, .ok inv.pubkey)
    else (l', .ok inv.pubkey)

/-- The rows `get_unpaid_invoice` chooses from. -/
def unpaidInvoices (key : String) : List Invoice :=
  l.invoices.filter fun i => i.pubkey == key && i.status == .unpaid

/-- Get the most recent invoice for a given pubkey; the invoice must be unpaid and not
expired. Without one the query fails for want of a row. -/
def getUnpaidInvoice (eng : Sql.Engine) (key : String) :
    Except RepoError (Option InvoiceInfo) :=
  match Sql.orderByDesc eng Invoice.createdAt (l.unpaidInvoices key) with
  | [] => .error .noRows
  | i :: _ => .ok (some ⟨key, i.paymentHash, i.invoice, i.amount, .unpaid, i.description⟩)

/-- One call. -/
def exec (eng : Sql.Engine) (now : Nat) : (o : RepoOp) → Accounts × o.Res
  | .createAccount key => l.createAccount key
  | .admitAccount key cost => l.admitAccount key cost
  | .getAccountBalance key => (l, l.getAccountBalance key)
  | .updateAccountBalance key positive amount => l.updateAccountBalance key positive amount
  | .createInvoiceRecord key info => l.createInvoiceRecord key info now
  | .updateInvoice hash status => l.updateInvoice hash status
  | .getUnpaidInvoice key => (l, l.getUnpaidInvoice eng key)

/-! ## What a call writes -/

/-- The writes of a call: `l` before, the last argument after. -/
inductive Writes (l : Accounts) : RepoOp → Accounts → Prop where
  | nothing {o : RepoOp} : Writes l o l
  | account {key : String} (hnew : l.account? key = none) :
    Writes l (.createAccount key) (l.addAccount key (.int 0) hnew)
  | grant {key : String} {cost : Nat} : fitsI64 cost = true →
    Writes l (.admitAccount key cost) (l.adjust key true fun b => b.add (-(cost : Int)))
  | balance {key : String} {positive : Bool} {amount : Nat} : fitsI64 amount = true →
    Writes l (.updateAccountBalance key positive amount)
      (l.adjust key false fun b => b.add (if positive then amount else -(amount : Int)))
  | invoice {key : String} {info : InvoiceInfo} {now : Nat} : fitsI64 info.amount = true →
    (hnew : l.invoice? info.paymentHash = none) → (hacc : (l.account? key).isSome) →
    Writes l (.createInvoiceRecord key info)
      (l.addInvoice ⟨info.paymentHash, key, info.bolt11, info.amount, info.status, info.memo, now⟩
        hnew hacc)
  | credit {hash : String} {inv : Invoice} : l.invoice? hash = some inv → inv.status = .unpaid →
    Writes l (.updateInvoice hash .paid)
      ((l.setStatus hash .paid).adjust inv.pubkey false fun b => b.add inv.amount)
  | status {hash : String} {inv : Invoice} {status : InvoiceStatus} :
    l.invoice? hash = some inv → ¬(inv.status = .unpaid ∧ status = .paid) →
    Writes l (.updateInvoice hash status) (l.setStatus hash status)

/-- A call of the repository makes one of the writes. -/
theorem writes_exec (eng : Sql.Engine) (now : Nat) (o : RepoOp) :
    l.Writes o (l.exec eng now o).1 := by
  cases o with
  | createAccount key =>
    simp only [exec, createAccount]
    split_ifs with h
    · exact .account h
    · exact .nothing
  | admitAccount key cost =>
    simp only [exec, admitAccount]
    split_ifs with h
    · exact .grant h
    · exact .nothing
  | getAccountBalance key => exact .nothing
  | updateAccountBalance key positive amount =>
    simp only [exec, updateAccountBalance]
    by_cases h : fitsI64 amount = true
    · rw [if_pos h]
      exact .balance h
    · rw [if_neg h]
      exact .nothing
  | createInvoiceRecord key info =>
    simp only [exec, createInvoiceRecord]
    split_ifs with h hnew hacc
    · exact .invoice h hnew hacc
    · exact .nothing
    · exact .nothing
    · exact .nothing
  | updateInvoice hash status =>
    simp only [exec, updateInvoice]
    rcases hinv : l.invoice? hash with _ | inv
    · exact .nothing
    · by_cases h : inv.status = .unpaid ∧ status = .paid
      · obtain ⟨hunpaid, rfl⟩ := h
        simp only [hunpaid, and_self, if_true]
        exact .credit hinv hunpaid
      · simp only [if_neg h]
        exact .status hinv h
  | getUnpaidInvoice key => exact .nothing

section Writes

variable {l} {l' : Accounts} {o : RepoOp} {key hash : String} {a : Account Sql.Cell} {inv : Invoice}

/-- An account stays admitted. -/
theorem Writes.admitted (h : l.Writes o l') (ha : l.Admitted key) : l'.Admitted key := by
  cases h with
  | nothing => exact ha
  | account hnew => exact Ledger.admitted_addAccount.mpr ha
  | grant => exact ha.adjust
  | balance => exact ha.adjust
  | invoice => exact ha
  | credit => exact Ledger.Admitted.adjust (l := l.setStatus _ .paid) ha
  | status => exact ha

/-- An invoice stays; only its status changes, by an update. -/
theorem Writes.invoice_mono (h : l.Writes o l') (hi : l.invoice? hash = some inv) :
    ∃ status, l'.invoice? hash = some { inv with status := status } ∧
      (status = inv.status ∨ o = .updateInvoice hash status) := by
  have hstatus : ∀ (k : String) (st : InvoiceStatus), ∃ status,
      (l.setStatus k st).invoice? hash = some { inv with status := status } ∧
        (status = inv.status ∨ RepoOp.updateInvoice k st = .updateInvoice hash status) := by
    intro k st
    rw [Ledger.invoice?_setStatus, hi, Option.map_some, Ledger.statusRow]
    split_ifs with hk
    · exact ⟨st, rfl, .inr (by rw [← hk, (Ledger.mem_of_invoice? hi).2])⟩
    · exact ⟨inv.status, rfl, .inl rfl⟩
  cases h with
  | nothing => exact ⟨_, hi, .inl rfl⟩
  | account hnew => exact ⟨_, hi, .inl rfl⟩
  | grant => exact ⟨_, hi, .inl rfl⟩
  | balance => exact ⟨_, hi, .inl rfl⟩
  | invoice hfit hnew hacc =>
    refine ⟨_, ?_, .inl rfl⟩
    rw [Ledger.invoice?_addInvoice, if_neg]
    · exact hi
    · rintro rfl
      rw [hi] at hnew
      cases hnew
  | credit hinv hunpaid => exact hstatus _ _
  | status hinv hne => exact hstatus _ _

/-- An account is admitted by `admit_account` only. -/
theorem Writes.admitted_inv (h : l.Writes o l') (ha : l'.Admitted key) :
    l.Admitted key ∨ ∃ cost, o = .admitAccount key cost := by
  cases h with
  | nothing => exact .inl ha
  | account hnew => exact .inl (Ledger.admitted_addAccount.mp ha)
  | @grant k cost hfit =>
    by_cases hk : key = k
    · exact .inr ⟨cost, by rw [hk]⟩
    · obtain ⟨a, ha, hadm⟩ := ha
      exact .inl ⟨a, (Ledger.account?_adjust_of_ne hk).symm.trans ha, hadm⟩
  | balance => exact .inl ha.of_adjust
  | invoice => exact .inl ha
  | credit => exact .inl (Ledger.Admitted.of_adjust (l := l.setStatus _ .paid) ha)
  | status => exact .inl ha

/-- An account is created by `create_account` only. -/
theorem Writes.account_inv (h : l.Writes o l') (ha : l'.account? key = some a) :
    (l.account? key).isSome ∨ o = .createAccount key := by
  have hold : ∀ (k : String) (grant : Bool) (f : Sql.Cell → Sql.Cell),
      (l.account? key).map (Ledger.adjustRow k grant f) = some a → (l.account? key).isSome := by
    intro k grant f hmap
    obtain ⟨b, hb, -⟩ := Option.map_eq_some_iff.mp hmap
    rw [hb]
    rfl
  have hsome : l.account? key = some a → (l.account? key).isSome := fun hk => by rw [hk]; rfl
  cases h with
  | nothing => exact .inl (hsome ha)
  | account hnew =>
    rw [Ledger.account?_addAccount] at ha
    split_ifs at ha with hk
    · exact .inr (by rw [hk])
    · exact .inl (hsome ha)
  | grant => exact .inl (hold _ _ _ (Ledger.account?_adjust.symm.trans ha))
  | balance => exact .inl (hold _ _ _ (Ledger.account?_adjust.symm.trans ha))
  | invoice => exact .inl (hsome ha)
  | credit => exact .inl (hold _ _ _ (Ledger.account?_adjust.symm.trans ha))
  | status => exact .inl (hsome ha)

/-- An invoice is created by `create_invoice_record` only. -/
theorem Writes.invoice_inv (h : l.Writes o l') (hi : l'.invoice? hash = some inv) :
    (∃ status, l.invoice? hash = some { inv with status := status } ∧
      (inv.status = status ∨ o = .updateInvoice hash inv.status)) ∨
    ∃ info, o = .createInvoiceRecord inv.pubkey info ∧ info.paymentHash = hash ∧
      inv.amount = info.amount ∧ inv.status = info.status ∧ l.invoice? hash = none ∧
      fitsI64 info.amount = true := by
  have hstatus : ∀ (k : String) (st : InvoiceStatus),
      (l.invoice? hash).map (Ledger.statusRow k st) = some inv →
      ∃ status, l.invoice? hash = some { inv with status := status } ∧
        (inv.status = status ∨ RepoOp.updateInvoice k st = .updateInvoice hash inv.status) := by
    intro k st hmap
    obtain ⟨j, hj, rfl⟩ := Option.map_eq_some_iff.mp hmap
    rw [hj, Ledger.statusRow]
    split_ifs with hk
    · exact ⟨j.status, rfl, .inr (by rw [← hk, (Ledger.mem_of_invoice? hj).2])⟩
    · exact ⟨j.status, rfl, .inl rfl⟩
  cases h with
  | nothing => exact .inl ⟨_, hi, .inl rfl⟩
  | account => exact .inl ⟨_, hi, .inl rfl⟩
  | grant => exact .inl ⟨_, hi, .inl rfl⟩
  | balance => exact .inl ⟨_, hi, .inl rfl⟩
  | invoice hfit hnew hacc =>
    rw [Ledger.invoice?_addInvoice] at hi
    split_ifs at hi with hk
    · cases hi
      exact .inr ⟨_, rfl, hk.symm, rfl, rfl, hk ▸ hnew, hfit⟩
    · exact .inl ⟨_, hi, .inl rfl⟩
  | credit hinv hunpaid => exact .inl (hstatus _ _ (Ledger.invoice?_setStatus.symm.trans hi))
  | status hinv hne => exact .inl (hstatus _ _ (Ledger.invoice?_setStatus.symm.trans hi))

end Writes

/-! ## What a call answers -/

section Answers

variable {l} {eng : Sql.Engine} {key hash : String}

/-- A reported balance is that of an account. -/
theorem of_getAccountBalance {admitted : Bool} {balance : Nat}
    (h : l.getAccountBalance key = .ok (admitted, balance)) :
    ∃ a, l.account? key = some a ∧ a.isAdmitted = admitted ∧ a.balance = .int balance := by
  rw [getAccountBalance] at h
  rcases ha : l.account? key with _ | a
  · rw [ha] at h
    cases h
  · simp only [ha] at h
    rcases hb : a.balance with z | z
    · rw [hb, Sql.Cell.toU64] at h
      split_ifs at h with hz
      cases h
      exact ⟨a, rfl, rfl, by rw [hb, Int.toNat_of_nonneg hz]⟩
    · rw [hb] at h
      cases h

/-- What `update_invoice` does, with its answer. -/
theorem updateInvoice_cases (l : Accounts) (hash : String) (status : InvoiceStatus) :
    (∃ err, l.updateInvoice hash status = (l, .error err)) ∨
    ∃ inv, l.invoice? hash = some inv ∧
      ((inv.status = .unpaid ∧ status = .paid ∧ l.updateInvoice hash status =
        ((l.setStatus hash .paid).adjust inv.pubkey false fun b => b.add inv.amount,
          .ok inv.pubkey)) ∨
      (¬(inv.status = .unpaid ∧ status = .paid) ∧
        l.updateInvoice hash status = (l.setStatus hash status, .ok inv.pubkey))) := by
  rw [updateInvoice]
  rcases hi : l.invoice? hash with _ | inv
  · exact .inl ⟨_, rfl⟩
  · refine .inr ⟨inv, rfl, ?_⟩
    by_cases h : inv.status = .unpaid ∧ status = .paid
    · obtain ⟨hunpaid, rfl⟩ := h
      exact .inl ⟨hunpaid, rfl, if_pos ⟨hunpaid, rfl⟩⟩
    · exact .inr ⟨h, if_neg h⟩

theorem of_updateInvoice {status : InvoiceStatus} {pubkey : String}
    (h : (l.updateInvoice hash status).2 = .ok pubkey) :
    ∃ inv, l.invoice? hash = some inv ∧ inv.pubkey = pubkey ∧
      (l.updateInvoice hash status).1.invoice? hash = some { inv with status := status } := by
  obtain ⟨err, heq⟩ | ⟨inv, hi, hcases⟩ := updateInvoice_cases l hash status
  · rw [heq] at h
    cases h
  · have hset : (l.setStatus hash status).invoice? hash = some { inv with status := status } := by
      rw [Ledger.invoice?_setStatus, hi, Option.map_some, Ledger.statusRow,
        if_pos (Ledger.mem_of_invoice? hi).2]
    obtain ⟨-, rfl, heq⟩ | ⟨-, heq⟩ := hcases
    · rw [heq] at h ⊢
      exact ⟨inv, hi, Except.ok.inj h, hset⟩
    · rw [heq] at h ⊢
      exact ⟨inv, hi, Except.ok.inj h, hset⟩

/-- A recorded invoice is updated, and its key returned. -/
theorem updateInvoice_ok {inv : Invoice} (h : l.invoice? hash = some inv) (status : InvoiceStatus) :
    (l.updateInvoice hash status).2 = .ok inv.pubkey := by
  simp only [updateInvoice, h]
  split_ifs <;> rfl

/-- The invoice handed out is a recorded one of the key, and unpaid. -/
theorem of_getUnpaidInvoice {info : InvoiceInfo}
    (h : l.getUnpaidInvoice eng key = .ok (some info)) :
    ∃ inv, l.invoice? info.paymentHash = some inv ∧ inv.pubkey = key ∧ inv.status = .unpaid ∧
      inv.amount = info.amount := by
  rw [getUnpaidInvoice] at h
  rcases hsort : Sql.orderByDesc eng Invoice.createdAt (l.unpaidInvoices key) with _ | ⟨i, rest⟩
  · rw [hsort] at h
    cases h
  · rw [hsort] at h
    cases h
    have hhead : i ∈ Sql.orderByDesc eng Invoice.createdAt (l.unpaidInvoices key) := by
      rw [hsort]
      exact List.mem_cons_self ..
    have hmem : i ∈ l.unpaidInvoices key := Sql.mem_orderByDesc.mp hhead
    rw [unpaidInvoices, List.mem_filter, Bool.and_eq_true, beq_iff_eq, beq_iff_eq] at hmem
    exact ⟨i, Ledger.invoice?_eq_some hmem.1 rfl, hmem.2.1, hmem.2.2, rfl⟩

/-- A key with one unpaid invoice is handed out that one. -/
theorem getUnpaidInvoice_of_single (eng : Sql.Engine) {inv : Invoice}
    (hinv : l.invoice? hash = some inv) (hkey : inv.pubkey = key) (hunpaid : inv.status = .unpaid)
    (hsingle : ∀ j ∈ l.unpaidInvoices key, j.paymentHash = hash) :
    ∃ info, l.getUnpaidInvoice eng key = .ok (some info) ∧ info.paymentHash = hash := by
  have hmem : inv ∈ Sql.orderByDesc eng Invoice.createdAt (l.unpaidInvoices key) := by
    rw [Sql.mem_orderByDesc, unpaidInvoices, List.mem_filter]
    exact ⟨(Ledger.mem_of_invoice? hinv).1, by simp [hkey, hunpaid]⟩
  rw [getUnpaidInvoice]
  rcases hsort : Sql.orderByDesc eng Invoice.createdAt (l.unpaidInvoices key) with _ | ⟨i, rest⟩
  · rw [hsort] at hmem
    cases hmem
  · have hi : i ∈ Sql.orderByDesc eng Invoice.createdAt (l.unpaidInvoices key) := by
      rw [hsort]
      exact List.mem_cons_self ..
    exact ⟨_, rfl, hsingle i (Sql.mem_orderByDesc.mp hi)⟩

end Answers

end Accounts

end Floonet.Sqlite
