import Floonet.Lib.Machine
import Floonet.Postgres.Account

/-!
# Two ledgers, one contract

The SQLite and the Postgres tables are compared call by call. They start equal, and as
long as both answer the same they stay equal up to the representation of balances and
clock readings (`Same`). They stop answering the same exactly at the calls that are not
`Compatible`: a look at a negative balance, a sum out of range, a latest invoice that is
not unpaid, an invoice that cannot be inserted, a text with a NUL character
(`ledgers_agree_iff`).
-/

namespace Floonet.Postgres

open Payment
open Sqlite (RepoOp)
open Sql (InI64)

/-! ## Calls and answers -/

/-- A call and its clock reading, in microseconds. -/
abbrev Timed : Type := RepoOp × Nat

/-- SQLite keeps whole seconds. -/
def seconds (now : Nat) : Nat := now / 1000000

/-- What the caller sees of an answer of SQLite: no row is `None`. -/
def observed : (o : RepoOp) → o.Res → Outcome RepoError (Ret o)
  | .createAccount _, r => .ofExcept r
  | .admitAccount _ _, r => .ofExcept r
  | .getAccountBalance _, r => .ofExcept r
  | .updateAccountBalance _ _ _, r => .ofExcept r
  | .createInvoiceRecord _ _, r => .ofExcept r
  | .updateInvoice _ _, r => .ofExcept r
  | .getUnpaidInvoice _, .error .noRows => .ok none
  | .getUnpaidInvoice _, r => .ofExcept r

/-- The two databases. -/
abbrev Both : Type := Sqlite.Accounts × Accounts

section Runs

variable (eng : Sql.Engine) (server : AccountServer)

/-- The same call to both. -/
def bothStep (s : Both) (c : Timed) : Both :=
  ((s.1.exec eng (seconds c.2) c.1).1, (s.2.exec server c.2 c.1).1)

instance : (o : RepoOp) → DecidableEq (Ret o)
  | .createAccount _ => inferInstanceAs (DecidableEq Bool)
  | .admitAccount _ _ => inferInstanceAs (DecidableEq Unit)
  | .getAccountBalance _ => inferInstanceAs (DecidableEq (Bool × Nat))
  | .updateAccountBalance _ _ _ => inferInstanceAs (DecidableEq Unit)
  | .createInvoiceRecord _ _ => inferInstanceAs (DecidableEq Unit)
  | .updateInvoice _ _ => inferInstanceAs (DecidableEq String)
  | .getUnpaidInvoice _ => inferInstanceAs (DecidableEq (Option InvoiceInfo))

/-- Both return the same. -/
def SameAnswer (s : Both) (c : Timed) : Prop :=
  observed c.1 (s.1.exec eng (seconds c.2) c.1).2 = (s.2.exec server c.2 c.1).2

instance (s : Both) (c : Timed) : Decidable (SameAnswer eng server s c) :=
  inferInstanceAs (Decidable (_ = _))

/-- An unpaid invoice that is handed out is one, and a balance is the stored one. -/
def Truthful (l : Accounts) (c : Timed) : Prop :=
  match c.1 with
  | .getUnpaidInvoice key => ∀ info, l.getUnpaidInvoice server key = .ok (some info) →
      ∃ inv, l.invoice? info.paymentHash = some inv ∧ inv.pubkey = key ∧ inv.status = .unpaid
  | .getAccountBalance key => ∀ admitted balance,
      l.getAccountBalance key = .ok (admitted, balance) →
      ∃ a, l.account? key = some a ∧ a.isAdmitted = admitted ∧ a.balance = balance
  | _ => True

/-! ## The condition

The two repositories differ in their number ranges, in what they do without a row, and in the
invoice they hand out. The condition says of one call that none of this shows. -/

/-- The latest invoice of the key, if there is one, is unpaid. -/
def LatestUnpaid (l : Accounts) (key : String) : Prop :=
  ∀ i ∈ l.invoicesOf key, (∀ j ∈ l.invoicesOf key, j.createdAt ≤ i.createdAt) →
    i.status = .unpaid

/-- The account of the key, if there is one, has room for a change. -/
def Room (l : Accounts) (key : String) (z : Int) : Prop :=
  ∀ a ∈ l.account? key, InI64 (a.balance + z)

/-- Both repositories can do the call: the numbers fit their columns and the rows are there. -/
def Compatible (l : Accounts) : RepoOp → Prop
  | .createAccount _ => True
  | .admitAccount key cost => Room l key (-cost)
  | .getAccountBalance key => ∀ a ∈ l.account? key, 0 ≤ a.balance
  | .updateAccountBalance key positive amount =>
      Room l key (if positive then amount else -(amount : Int))
  | .createInvoiceRecord key info => (l.account? key).isSome ∧ l.invoice? info.paymentHash = none ∧
      server.indexable info.paymentHash = true ∧
      ∀ s ∈ [info.paymentHash, info.bolt11, info.memo], storableText s = true
  | .updateInvoice hash status => storableText hash = true ∧
      ∀ inv ∈ l.invoice? hash, inv.status = .unpaid → status = .paid →
        Room l inv.pubkey inv.amount
  | .getUnpaidInvoice key => LatestUnpaid l key

instance (l : Accounts) (key : String) : Decidable (LatestUnpaid l key) :=
  inferInstanceAs (Decidable (∀ i ∈ l.invoicesOf key, _))

instance (l : Accounts) (key : String) (z : Int) : Decidable (Room l key z) :=
  inferInstanceAs (Decidable (∀ a ∈ l.account? key, _))

instance (l : Accounts) : (o : RepoOp) → Decidable (Compatible server l o)
  | .createAccount _ => isTrue trivial
  | .admitAccount key cost => inferInstanceAs (Decidable (Room l key (-cost)))
  | .getAccountBalance key => inferInstanceAs (Decidable (∀ a ∈ l.account? key, _))
  | .updateAccountBalance key _ _ => inferInstanceAs (Decidable (Room l key _))
  | .createInvoiceRecord _ _ => inferInstanceAs (Decidable (_ ∧ _ ∧ _ ∧ _))
  | .updateInvoice hash _ => inferInstanceAs (Decidable (_ ∧ ∀ inv ∈ l.invoice? hash, _))
  | .getUnpaidInvoice key => inferInstanceAs (Decidable (LatestUnpaid l key))

/-- The amounts of a call are below 2^63. -/
def amountFits : RepoOp → Bool
  | .admitAccount _ cost => fitsI64 cost
  | .updateAccountBalance _ _ amount => fitsI64 amount
  | .createInvoiceRecord _ info => fitsI64 info.amount
  | _ => true

/-- When a call creates an invoice, as SQLite sees it. -/
def creation : Timed → Option Nat
  | ⟨.createInvoiceRecord _ _, now⟩ => some (seconds now)
  | _ => none

end Runs

/-! ## Equal tables -/

/-- A row of Postgres as SQLite stores it. -/
def sqliteAccount (a : Account Int) : Account Sql.Cell := ⟨a.pubkey, a.isAdmitted, .int a.balance⟩

@[inherit_doc sqliteAccount] def sqliteInvoice (i : Invoice) : Invoice :=
  { i with createdAt := seconds i.createdAt }

/-- The tables hold the same rows, with amounts below 2^63. -/
structure Same (l : Sqlite.Accounts) (p : Accounts) : Prop where
  accounts : l.accounts = p.accounts.map sqliteAccount
  invoices : l.invoices = p.invoices.map sqliteInvoice
  fits : ∀ i ∈ p.invoices, fitsI64 i.amount = true
  range : ∀ a ∈ p.accounts, InI64 a.balance

section Same

variable {l : Sqlite.Accounts} {p p' : Accounts} {key hash : String} {grant : Bool} {z : Int}

theorem Same.empty : Same .empty .empty := ⟨rfl, rfl, fun i hi => (by cases hi), fun a ha => (by cases ha)⟩

theorem Same.account? (h : Same l p) (key : String) :
    l.account? key = (p.account? key).map sqliteAccount := by
  rw [Ledger.account?, Ledger.account?, h.accounts, List.find?_map]
  rfl

theorem Same.invoice? (h : Same l p) (hash : String) :
    l.invoice? hash = (p.invoice? hash).map sqliteInvoice := by
  rw [Ledger.invoice?, Ledger.invoice?, h.invoices, List.find?_map]
  rfl

theorem Same.account?_eq_none (h : Same l p) : l.account? key = none ↔ p.account? key = none := by
  rw [h.account?, Option.map_eq_none_iff]

theorem Same.invoice?_eq_none (h : Same l p) : l.invoice? hash = none ↔ p.invoice? hash = none := by
  rw [h.invoice?, Option.map_eq_none_iff]

theorem Same.account?_isSome (h : Same l p) :
    (l.account? key).isSome = (p.account? key).isSome := by
  rw [h.account?, Option.isSome_map]

/-- An amount that fits stays what it is. -/
theorem asI64_of_fits {n : Nat} (h : fitsI64 n = true) : asI64 n = n := by
  rw [fitsI64, decide_eq_true_eq] at h
  have hmod : n % 2 ^ 64 = n := Nat.mod_eq_of_lt (by omega)
  rw [asI64, hmod]
  exact if_pos h

/-- A change of a balance for which there is room. -/
theorem Same.adjust (h : Same l p) (hroom : Room p key z) :
    Same (l.adjust key grant fun b => b.add z) (p.adjust key grant fun b => b + z) where
  accounts := by
    change l.accounts.map _ = (p.accounts.map _).map sqliteAccount
    rw [h.accounts, List.map_map, List.map_map]
    refine List.map_congr_left fun a ha => ?_
    by_cases hk : a.pubkey = key
    · simp only [Function.comp_apply, Ledger.adjustRow, sqliteAccount, if_pos hk,
        Sql.Cell.add_int (hroom a (Ledger.account?_eq_some ha hk))]
    · simp only [Function.comp_apply, Ledger.adjustRow, sqliteAccount, if_neg hk]
      exact if_neg hk
  invoices := h.invoices
  fits := h.fits
  range := by
    intro a' ha'
    obtain ⟨a, ha, rfl⟩ := List.mem_map.mp ha'
    rw [Ledger.adjustRow]
    split_ifs with hk
    · exact hroom a (Ledger.account?_eq_some ha hk)
    · exact h.range a ha

theorem Same.setStatus (h : Same l p) (hash : String) (status : InvoiceStatus) :
    Same (l.setStatus hash status) (p.setStatus hash status) where
  accounts := h.accounts
  invoices := by
    change l.invoices.map _ = (p.invoices.map _).map sqliteInvoice
    rw [h.invoices, List.map_map, List.map_map]
    refine List.map_congr_left fun i _ => ?_
    by_cases hk : i.paymentHash = hash
    · simp only [Function.comp_apply, Ledger.statusRow, sqliteInvoice, if_pos hk]
      exact if_pos hk
    · simp only [Function.comp_apply, Ledger.statusRow, sqliteInvoice, if_neg hk]
      exact if_neg hk
  fits := by
    intro i hi
    obtain ⟨j, hj, rfl⟩ := List.mem_map.mp hi
    rw [Ledger.amount_statusRow]
    exact h.fits j hj
  range := h.range

/-- A balance with room for the change. -/
theorem updateBalance_of_room (hroom : Room p key z) :
    p.updateBalance key grant z = some (p.adjust key grant fun b => b + z) := if_pos hroom

theorem updateBalance_of_not_room (hroom : ¬Room p key z) :
    p.updateBalance key grant z = none := if_neg hroom

end Same

/-! ## One call

One lemma for each of the seven calls: the answers agree exactly if the call is compatible, and
then the tables stay equal. -/

/-- Both answer the same exactly at a compatible call, which keeps the tables equal. -/
structure Agrees (eng : Sql.Engine) (server : AccountServer) (s : Both) (c : Timed) : Prop where
  answer : SameAnswer eng server s c ↔ Compatible server s.2 c.1
  next : Compatible server s.2 c.1 →
    Same (bothStep eng server s c).1 (bothStep eng server s c).2

section Calls

variable {eng : Sql.Engine} {server : AccountServer} {l : Sqlite.Accounts} {p : Accounts}
  {key hash : String} {now : Nat}

theorem agrees_createAccount (h : Same l p) :
    Agrees eng server (l, p) (.createAccount key, now) := by
  by_cases hnew : p.account? key = none
  · have hnew' := h.account?_eq_none.mpr hnew
    refine ⟨⟨fun _ => trivial, fun _ => ?_⟩, fun _ => ?_⟩
    · simp only [SameAnswer, observed, Sqlite.Accounts.exec, Sqlite.Accounts.createAccount,
        dif_pos hnew', Accounts.exec, Accounts.createAccount, dif_pos hnew, Outcome.ofExcept]
    · simp only [bothStep, Sqlite.Accounts.exec, Sqlite.Accounts.createAccount, dif_pos hnew',
        Accounts.exec, Accounts.createAccount, dif_pos hnew]
      refine ⟨?_, h.invoices, h.fits, ?_⟩
      · simp only [Ledger.addAccount, h.accounts, List.map_append, List.map_singleton,
          sqliteAccount]
      · intro a ha
        rcases List.mem_append.mp ha with ha | ha
        · exact h.range a ha
        · cases List.mem_singleton.mp ha
          exact ⟨by norm_num, by norm_num⟩
  · have hnew' := mt h.account?_eq_none.mp hnew
    refine ⟨⟨fun _ => trivial, fun _ => ?_⟩, fun _ => ?_⟩
    · simp only [SameAnswer, observed, Sqlite.Accounts.exec, Sqlite.Accounts.createAccount,
        dif_neg hnew', Accounts.exec, Accounts.createAccount, dif_neg hnew, Outcome.ofExcept]
    · simp only [bothStep, Sqlite.Accounts.exec, Sqlite.Accounts.createAccount, dif_neg hnew',
        Accounts.exec, Accounts.createAccount, dif_neg hnew]
      exact h

theorem agrees_admitAccount (h : Same l p) {cost : Nat} (hfit : fitsI64 cost = true) :
    Agrees eng server (l, p) (.admitAccount key cost, now) := by
  by_cases hroom : Room p key (-cost)
  · refine ⟨⟨fun _ => hroom, fun _ => ?_⟩, fun _ => ?_⟩
    · simp only [SameAnswer, observed, Sqlite.Accounts.exec, Sqlite.Accounts.admitAccount,
        if_pos hfit, Accounts.exec, Accounts.admitAccount, asI64_of_fits hfit,
        updateBalance_of_room hroom, Outcome.ofExcept]
    · simp only [bothStep, Sqlite.Accounts.exec, Sqlite.Accounts.admitAccount, if_pos hfit,
        Accounts.exec, Accounts.admitAccount, asI64_of_fits hfit, updateBalance_of_room hroom]
      exact h.adjust hroom
  · refine ⟨⟨fun hsame => ?_, fun hC => absurd hC hroom⟩, fun hC => absurd hC hroom⟩
    simp only [SameAnswer, observed, Sqlite.Accounts.exec, Sqlite.Accounts.admitAccount,
      if_pos hfit, Accounts.exec, Accounts.admitAccount, asI64_of_fits hfit,
      updateBalance_of_not_room hroom, Outcome.ofExcept] at hsame
    cases hsame

theorem agrees_updateAccountBalance (h : Same l p) {positive : Bool} {amount : Nat}
    (hfit : fitsI64 amount = true) :
    Agrees eng server (l, p) (.updateAccountBalance key positive amount, now) := by
  by_cases hroom : Room p key (if positive then amount else -(amount : Int))
  · refine ⟨⟨fun _ => hroom, fun _ => ?_⟩, fun _ => ?_⟩
    · simp only [SameAnswer, observed, Sqlite.Accounts.exec, Sqlite.Accounts.updateAccountBalance,
        if_pos hfit, Accounts.exec, Accounts.updateAccountBalance, asI64_of_fits hfit,
        updateBalance_of_room hroom, Outcome.ofExcept]
    · simp only [bothStep, Sqlite.Accounts.exec, Sqlite.Accounts.updateAccountBalance,
        if_pos hfit, Accounts.exec, Accounts.updateAccountBalance, asI64_of_fits hfit,
        updateBalance_of_room hroom]
      exact h.adjust hroom
  · refine ⟨⟨fun hsame => ?_, fun hC => absurd hC hroom⟩, fun hC => absurd hC hroom⟩
    simp only [SameAnswer, observed, Sqlite.Accounts.exec, Sqlite.Accounts.updateAccountBalance,
      if_pos hfit, Accounts.exec, Accounts.updateAccountBalance, asI64_of_fits hfit,
      updateBalance_of_not_room hroom, Outcome.ofExcept] at hsame
    cases hsame

theorem agrees_getAccountBalance (h : Same l p) :
    Agrees eng server (l, p) (.getAccountBalance key, now) := by
  refine ⟨?_, fun _ => h⟩
  have hl := h.account? key
  rcases ha : p.account? key with _ | a
  · rw [ha] at hl
    refine ⟨fun _ a hmem => ?_, fun _ => ?_⟩
    · rw [ha] at hmem
      cases hmem
    · simp only [SameAnswer, observed, Sqlite.Accounts.exec, Sqlite.Accounts.getAccountBalance, hl,
        Option.map_none, Accounts.exec, Accounts.getAccountBalance, ha, Outcome.ofExcept]
  · rw [ha] at hl
    have hrange := h.range a (Ledger.mem_of_account? ha).1
    have hC : Compatible server p (.getAccountBalance key) ↔ 0 ≤ a.balance := by
      rw [Compatible, ha]
      exact ⟨fun hC => hC a rfl, fun h0 b hb => Option.some.inj hb ▸ h0⟩
    rw [hC]
    by_cases h0 : 0 ≤ a.balance
    · have hu : asU64 a.balance = a.balance.toNat := by
        rw [asU64, Int.emod_eq_of_lt h0 (by have := hrange.2; omega)]
      simp only [SameAnswer, observed, Sqlite.Accounts.exec, Sqlite.Accounts.getAccountBalance, hl,
        Option.map_some, sqliteAccount, Sql.Cell.toU64_int h0, Accounts.exec,
        Accounts.getAccountBalance, ha, hu, Outcome.ofExcept, h0]
    · have hnone : (Sql.Cell.int a.balance).toU64 = none := if_neg h0
      refine ⟨fun hsame => ?_, fun h => absurd h h0⟩
      simp only [SameAnswer, observed, Sqlite.Accounts.exec, Sqlite.Accounts.getAccountBalance, hl,
        Option.map_some, sqliteAccount, hnone, Accounts.exec, Accounts.getAccountBalance, ha,
        Outcome.ofExcept] at hsame
      cases hsame

theorem ofExcept_ne_panic {α : Type} (r : Except RepoError α) :
    Outcome.ofExcept r ≠ .panic := by
  cases r <;> simp [Outcome.ofExcept]

/-- An invoice that is not inserted is a panic. -/
theorem createInvoiceRecord_panic {info : InvoiceInfo}
    (h : ¬Compatible server p (.createInvoiceRecord key info)) :
    (p.createInvoiceRecord server key info now).2 = .panic := by
  rw [Accounts.createInvoiceRecord]
  split_ifs with htexts hnew hacc
  · simp only [Bool.and_eq_true] at htexts
    refine absurd ⟨hacc, hnew, htexts.1.1.2, ?_⟩ h
    simpa using ⟨htexts.1.1.1, htexts.1.2, htexts.2⟩
  · rfl
  · rfl
  · rfl

theorem agrees_createInvoiceRecord (h : Same l p) {info : InvoiceInfo}
    (hfit : fitsI64 info.amount = true) :
    Agrees eng server (l, p) (.createInvoiceRecord key info, now) := by
  by_cases hC : Compatible server p (.createInvoiceRecord key info)
  · obtain ⟨hacc, hnew, hindex, htexts⟩ := id hC
    have hnew' := h.invoice?_eq_none.mpr hnew
    have hacc' := h.account?_isSome.trans hacc
    have hstore : (storableText info.paymentHash && server.indexable info.paymentHash &&
        storableText info.bolt11 && storableText info.memo) = true := by
      simp [htexts, hindex]
    refine ⟨⟨fun _ => hC, fun _ => ?_⟩, fun _ => ?_⟩
    · simp only [SameAnswer, observed, Sqlite.Accounts.exec, Sqlite.Accounts.createInvoiceRecord,
        if_pos hfit, dif_pos hnew', dif_pos hacc', Accounts.exec, Accounts.createInvoiceRecord,
        if_pos hstore, dif_pos hnew, dif_pos hacc, Outcome.ofExcept]
    · simp only [bothStep, Sqlite.Accounts.exec, Sqlite.Accounts.createInvoiceRecord,
        if_pos hfit, dif_pos hnew', dif_pos hacc', Accounts.exec, Accounts.createInvoiceRecord,
        if_pos hstore, dif_pos hnew, dif_pos hacc]
      refine ⟨h.accounts, ?_, ?_, h.range⟩
      · simp only [Ledger.addInvoice, h.invoices, List.map_append, List.map_singleton,
          sqliteInvoice]
      · intro i hi
        rcases List.mem_append.mp hi with hi | hi
        · exact h.fits i hi
        · cases List.mem_singleton.mp hi
          exact hfit
  · refine ⟨⟨fun hsame => ?_, fun h => absurd h hC⟩, fun h => absurd h hC⟩
    have hpanic : (p.exec server now (.createInvoiceRecord key info)).2 = .panic :=
      createInvoiceRecord_panic hC
    rw [SameAnswer, hpanic] at hsame
    exact absurd hsame (ofExcept_ne_panic _)

/-- The credit of a payment is the only part of an update that can fail. -/
theorem agrees_updateInvoice (h : Same l p) {status : InvoiceStatus} :
    Agrees eng server (l, p) (.updateInvoice hash status, now) := by
  by_cases htext : storableText hash = true
  · have hl := h.invoice? hash
    rcases hi : p.invoice? hash with _ | inv
    · rw [hi] at hl
      have hC : Compatible server p (.updateInvoice hash status) := by
        refine ⟨htext, fun inv hinv => ?_⟩
        rw [hi] at hinv
        cases hinv
      refine ⟨⟨fun _ => hC, fun _ => ?_⟩, fun _ => ?_⟩
      · simp only [SameAnswer, observed, Sqlite.Accounts.exec, Sqlite.Accounts.updateInvoice, hl,
          Option.map_none, Accounts.exec, Accounts.updateInvoice, if_pos htext, hi,
          Outcome.ofExcept]
      · simp only [bothStep, Sqlite.Accounts.exec, Sqlite.Accounts.updateInvoice, hl,
          Option.map_none, Accounts.exec, Accounts.updateInvoice, if_pos htext, hi]
        exact h
    · rw [hi] at hl
      have hC : Compatible server p (.updateInvoice hash status) ↔
          (inv.status = .unpaid ∧ status = .paid → Room p inv.pubkey inv.amount) := by
        rw [Compatible, hi]
        refine ⟨fun hC hs => hC.2 inv rfl hs.1 hs.2, fun hC => ⟨htext, ?_⟩⟩
        rintro inv' hinv' hu rfl
        cases hinv'
        exact hC ⟨hu, rfl⟩
      have hset := h.setStatus hash status
      by_cases hs : inv.status = .unpaid ∧ status = .paid
      · have hamount := asI64_of_fits (h.fits inv (Ledger.mem_of_invoice? hi).1)
        by_cases hroom : Room (p.setStatus hash status) inv.pubkey inv.amount
        · refine ⟨⟨fun _ => hC.mpr fun _ => hroom, fun _ => ?_⟩, fun _ => ?_⟩
          · simp only [SameAnswer, observed, Sqlite.Accounts.exec, Sqlite.Accounts.updateInvoice,
              hl, Option.map_some, sqliteInvoice, if_pos hs, Accounts.exec, Accounts.updateInvoice,
              if_pos htext, hi, hamount, updateBalance_of_room hroom, Outcome.ofExcept]
          · simp only [bothStep, Sqlite.Accounts.exec, Sqlite.Accounts.updateInvoice, hl,
              Option.map_some, sqliteInvoice, if_pos hs, Accounts.exec, Accounts.updateInvoice,
              if_pos htext, hi, hamount, updateBalance_of_room hroom]
            exact hset.adjust hroom
        · have hnot : ¬Compatible server p (.updateInvoice hash status) :=
            fun hc => hroom (hC.mp hc hs)
          refine ⟨⟨fun hsame => ?_, fun hc => absurd hc hnot⟩, fun hc => absurd hc hnot⟩
          simp only [SameAnswer, observed, Sqlite.Accounts.exec, Sqlite.Accounts.updateInvoice, hl,
            Option.map_some, sqliteInvoice, if_pos hs, Accounts.exec, Accounts.updateInvoice,
            if_pos htext, hi, hamount, updateBalance_of_not_room hroom, Outcome.ofExcept] at hsame
          cases hsame
      · refine ⟨⟨fun _ => hC.mpr fun h => absurd h hs, fun _ => ?_⟩, fun _ => ?_⟩
        · simp only [SameAnswer, observed, Sqlite.Accounts.exec, Sqlite.Accounts.updateInvoice, hl,
            Option.map_some, sqliteInvoice, if_neg hs, Accounts.exec, Accounts.updateInvoice,
            if_pos htext, hi, Outcome.ofExcept]
        · simp only [bothStep, Sqlite.Accounts.exec, Sqlite.Accounts.updateInvoice, hl,
            Option.map_some, sqliteInvoice, if_neg hs, Accounts.exec, Accounts.updateInvoice,
            if_pos htext, hi]
          exact hset
  · have hnot : ¬Compatible server p (.updateInvoice hash status) := fun hc => htext hc.1
    refine ⟨⟨fun hsame => ?_, fun hc => absurd hc hnot⟩, fun hc => absurd hc hnot⟩
    simp only [SameAnswer, observed, Sqlite.Accounts.exec, Accounts.exec, Accounts.updateInvoice,
      if_neg htext] at hsame
    rcases hl : l.invoice? hash with _ | inv
    · simp only [Sqlite.Accounts.updateInvoice, hl] at hsame
      cases hsame
    · rw [Sqlite.Accounts.updateInvoice_ok hl status] at hsame
      cases hsame

theorem Same.mem_unpaidInvoices (h : Same l p) {x : Invoice} : x ∈ l.unpaidInvoices key ↔
    ∃ j ∈ p.invoicesOf key, j.status = .unpaid ∧ sqliteInvoice j = x := by
  simp only [Sqlite.Accounts.unpaidInvoices, Accounts.invoicesOf, h.invoices, List.mem_filter,
    List.mem_map, Bool.and_eq_true, beq_iff_eq]
  constructor
  · rintro ⟨⟨j, hj, rfl⟩, hkey, hst⟩
    exact ⟨j, ⟨hj, hkey⟩, hst, rfl⟩
  · rintro ⟨j, ⟨hj, hkey⟩, hst, rfl⟩
    exact ⟨⟨j, hj, rfl⟩, hkey, hst⟩

theorem mem_invoicesOf {i : Invoice} (hi : i ∈ p.invoicesOf key) : i ∈ p.invoices ∧ i.pubkey = key := by
  rw [Accounts.invoicesOf, List.mem_filter, beq_iff_eq] at hi
  exact hi

/-- The latest invoice decides, when no two were created in the same second. -/
theorem latestUnpaid_iff (hdistinct : (p.invoices.map fun i => seconds i.createdAt).Nodup)
    {i : Invoice} (hi : i ∈ p.invoicesOf key)
    (hlatest : ∀ j ∈ p.invoicesOf key, j.createdAt ≤ i.createdAt) :
    LatestUnpaid p key ↔ i.status = .unpaid := by
  refine ⟨fun h => h i hi hlatest, fun h j hj hj' => ?_⟩
  have htime : j.createdAt = i.createdAt := le_antisymm (hlatest j hj) (hj' i hi)
  rw [List.inj_on_of_nodup_map hdistinct (mem_invoicesOf hj).1 (mem_invoicesOf hi).1
    (congrArg seconds htime)]
  exact h

theorem agrees_getUnpaidInvoice (h : Same l p)
    (hdistinct : (p.invoices.map fun i => seconds i.createdAt).Nodup) :
    Agrees eng server (l, p) (.getUnpaidInvoice key, now) := by
  refine ⟨?_, fun _ => h⟩
  rcases hp : Sql.orderByDesc server.toEngine Invoice.createdAt (p.invoicesOf key) with _ | ⟨i, rest⟩
  · have hnil : p.invoicesOf key = [] := by
      have hperm := Sql.orderByDesc_perm server.toEngine Invoice.createdAt (p.invoicesOf key)
      rw [hp] at hperm
      exact List.nil_perm.mp hperm
    have hnil' : l.unpaidInvoices key = [] := by
      rw [List.eq_nil_iff_forall_not_mem]
      intro x hx
      obtain ⟨j, hj, -⟩ := h.mem_unpaidInvoices.mp hx
      rw [hnil] at hj
      cases hj
    have hl : Sql.orderByDesc eng Invoice.createdAt (l.unpaidInvoices key) = [] := by
      have hperm := Sql.orderByDesc_perm eng Invoice.createdAt (l.unpaidInvoices key)
      rw [hnil'] at hperm ⊢
      exact hperm.eq_nil
    refine ⟨fun _ i hi => ?_, fun _ => ?_⟩
    · rw [hnil] at hi
      cases hi
    · simp only [SameAnswer, Sqlite.Accounts.exec, Sqlite.Accounts.getUnpaidInvoice, hl, observed,
        Accounts.exec, Accounts.getUnpaidInvoice, hp]
  · have hi : i ∈ p.invoicesOf key := by
      have hmem : i ∈ Sql.orderByDesc server.toEngine Invoice.createdAt (p.invoicesOf key) := by
        rw [hp]
        exact List.mem_cons_self ..
      exact Sql.mem_orderByDesc.mp hmem
    have hlatest := Sql.key_le_head hp
    have hC : Compatible server p (.getUnpaidInvoice key) ↔ i.status = .unpaid :=
      latestUnpaid_iff hdistinct hi hlatest
    rw [hC]
    rcases hl : Sql.orderByDesc eng Invoice.createdAt (l.unpaidInvoices key) with _ | ⟨x, rest'⟩
    · -- nothing is unpaid for SQLite
      refine ⟨fun hsame => ?_, fun hst => ?_⟩
      · simp only [SameAnswer, Sqlite.Accounts.exec, Sqlite.Accounts.getUnpaidInvoice, hl,
          observed, Accounts.exec, Accounts.getUnpaidInvoice, hp] at hsame
        cases hsame
      · have hmem : sqliteInvoice i ∈
            Sql.orderByDesc eng Invoice.createdAt (l.unpaidInvoices key) :=
          Sql.mem_orderByDesc.mpr (h.mem_unpaidInvoices.mpr ⟨i, hi, hst, rfl⟩)
        rw [hl] at hmem
        cases hmem
    · have hx : x ∈ l.unpaidInvoices key := by
        have hmem : x ∈ Sql.orderByDesc eng Invoice.createdAt (l.unpaidInvoices key) := by
          rw [hl]
          exact List.mem_cons_self ..
        exact Sql.mem_orderByDesc.mp hmem
      obtain ⟨j, hj, hst, rfl⟩ := h.mem_unpaidInvoices.mp hx
      simp only [SameAnswer, Sqlite.Accounts.exec, Sqlite.Accounts.getUnpaidInvoice, hl, observed,
        Accounts.exec, Accounts.getUnpaidInvoice, hp, Outcome.ofExcept]
      refine ⟨fun hsame => ?_, fun hst' => ?_⟩
      · -- the same payment hash is the same invoice
        have hhash : j.paymentHash = i.paymentHash := by
          simp only [Outcome.ok.injEq, Option.some.injEq, InvoiceInfo.mk.injEq] at hsame
          exact hsame.2.1
        rwa [← List.inj_on_of_nodup_map p.invoice_key (mem_invoicesOf hj).1 (mem_invoicesOf hi).1
          hhash]
      · -- both are the latest one
        have hle : seconds i.createdAt ≤ seconds j.createdAt :=
          Sql.key_le_head hl _ (h.mem_unpaidInvoices.mpr ⟨i, hi, hst', rfl⟩)
        have hge : seconds j.createdAt ≤ seconds i.createdAt := Nat.div_le_div_right (hlatest j hj)
        rw [List.inj_on_of_nodup_map hdistinct (mem_invoicesOf hj).1 (mem_invoicesOf hi).1
          (le_antisymm hge hle)]
        rfl

theorem agrees (eng : Sql.Engine) (server : AccountServer) (h : Same l p) {c : Timed} (hfit : amountFits c.1 = true)
    (hdistinct : (p.invoices.map fun i => seconds i.createdAt).Nodup) :
    Agrees eng server (l, p) c := by
  obtain ⟨o, now⟩ := c
  cases o with
  | createAccount key => exact agrees_createAccount h
  | admitAccount key cost => exact agrees_admitAccount h hfit
  | getAccountBalance key => exact agrees_getAccountBalance h
  | updateAccountBalance key positive amount => exact agrees_updateAccountBalance h hfit
  | createInvoiceRecord key info => exact agrees_createInvoiceRecord h hfit
  | updateInvoice hash status => exact agrees_updateInvoice h
  | getUnpaidInvoice key => exact agrees_getUnpaidInvoice h hdistinct

/-- Where the two agree, the answers are true. -/
theorem truthful (h : Same l p) {c : Timed} (hC : Compatible server p c.1) :
    Truthful server p c := by
  obtain ⟨o, now⟩ := c
  cases o with
  | getAccountBalance key =>
    intro admitted balance hans
    rw [Accounts.getAccountBalance] at hans
    rcases ha : p.account? key with _ | a
    · rw [ha] at hans
      cases hans
    · rw [ha] at hans
      cases hans
      have h0 : 0 ≤ a.balance := hC a ha
      have hlt := (h.range a (Ledger.mem_of_account? ha).1).2
      refine ⟨a, rfl, rfl, ?_⟩
      rw [asU64, Int.emod_eq_of_lt h0 (by omega), Int.toNat_of_nonneg h0]
  | getUnpaidInvoice key =>
    intro info hans
    rw [Accounts.getUnpaidInvoice] at hans
    rcases hp : Sql.orderByDesc server.toEngine Invoice.createdAt (p.invoicesOf key)
      with _ | ⟨i, rest⟩
    · rw [hp] at hans
      cases hans
    · rw [hp] at hans
      cases hans
      have hmem : i ∈ Sql.orderByDesc server.toEngine Invoice.createdAt (p.invoicesOf key) := by
        rw [hp]
        exact List.mem_cons_self ..
      have hi := Sql.mem_orderByDesc.mp hmem
      exact ⟨i, Ledger.invoice?_eq_some (mem_invoicesOf hi).1 rfl, (mem_invoicesOf hi).2,
        hC i hi (Sql.key_le_head hp)⟩
  | _ => trivial

/-- A balance has no bearing on the invoices. -/
theorem invoices_updateBalance {grant : Bool} {z : Int} {q : Accounts}
    (h : p.updateBalance key grant z = some q) : q.invoices = p.invoices := by
  rw [Accounts.updateBalance] at h
  split_ifs at h
  cases h
  rfl

theorem times_setStatus (hash : String) (status : InvoiceStatus) :
    (p.setStatus hash status).invoices.map (fun i => seconds i.createdAt) =
      p.invoices.map fun i => seconds i.createdAt := by
  change (p.invoices.map (Ledger.statusRow hash status)).map _ = _
  rw [List.map_map]
  refine List.map_congr_left fun i _ => ?_
  rw [Function.comp_apply, Ledger.statusRow]
  split_ifs <;> rfl

/-- A compatible call creates its invoice, if it creates one. -/
theorem times_exec {o : RepoOp} (hC : Compatible server p o) :
    (p.exec server now o).1.invoices.map (fun i => seconds i.createdAt) =
      p.invoices.map (fun i => seconds i.createdAt) ++ (creation (o, now)).toList := by
  cases o with
  | createAccount key =>
    change (p.createAccount key).1.invoices.map _ = _ ++ []
    rw [List.append_nil, Accounts.createAccount]
    split_ifs <;> rfl
  | admitAccount key cost =>
    change (p.admitAccount key cost).1.invoices.map _ = _ ++ []
    rw [List.append_nil, Accounts.admitAccount]
    rcases hq : p.updateBalance key true (-asI64 cost) with _ | q
    · rfl
    · rw [invoices_updateBalance hq]
  | getAccountBalance key => exact (List.append_nil _).symm
  | updateAccountBalance key positive amount =>
    change (p.updateAccountBalance key positive amount).1.invoices.map _ = _ ++ []
    rw [List.append_nil, Accounts.updateAccountBalance]
    rcases hq : p.updateBalance key false (if positive then asI64 amount else -asI64 amount)
      with _ | q
    · rfl
    · rw [invoices_updateBalance hq]
  | createInvoiceRecord key info =>
    obtain ⟨hacc, hnew, hindex, htexts⟩ := hC
    have hstore : (storableText info.paymentHash && server.indexable info.paymentHash &&
        storableText info.bolt11 && storableText info.memo) = true := by
      simp [htexts, hindex]
    rw [Accounts.exec, Accounts.createInvoiceRecord, if_pos hstore, dif_pos hnew, dif_pos hacc,
      creation, Ledger.addInvoice, List.map_append]
    rfl
  | updateInvoice hash status =>
    change (p.updateInvoice hash status).1.invoices.map _ = _ ++ []
    rw [List.append_nil, Accounts.updateInvoice, if_pos hC.1]
    rcases hi : p.invoice? hash with _ | inv
    · rfl
    · by_cases hs : inv.status = .unpaid ∧ status = .paid
      · simp only [if_pos hs]
        rcases hq : Accounts.updateBalance (p.setStatus hash status) inv.pubkey false
          (asI64 inv.amount) with _ | q
        · exact times_setStatus hash status
        · simp only [invoices_updateBalance hq]
          exact times_setStatus hash status
      · simp only [if_neg hs]
        exact times_setStatus hash status
  | getUnpaidInvoice key => exact (List.append_nil _).symm

end Calls

/-! ## Runs -/

/-- Equal tables, and calls with amounts below 2^63 that create invoices in different seconds
from each other and from the stored ones. -/
structure InDomain (s : Both) (calls : List Timed) : Prop where
  same : Same s.1 s.2
  amounts : ∀ c ∈ calls, amountFits c.1 = true
  times : ((s.2.invoices.map fun i => seconds i.createdAt) ++ calls.filterMap creation).Nodup

/-- For every sequence of calls with amounts below 2^63 whose invoices are created in
different seconds: the two databases answer the same, and truly, call by call exactly if
every call is compatible with the tables it meets. -/
theorem ledgers_agree_iff (eng : Sql.Engine) (server : AccountServer) (calls : List Timed)
    (hamounts : ∀ c ∈ calls, amountFits c.1 = true) (htimes : (calls.filterMap creation).Nodup) :
    Machine.Along (bothStep eng server)
      (fun s c => SameAnswer eng server s c ∧ Truthful server s.2 c) (.empty, .empty) calls ↔
    Machine.Along (bothStep eng server) (fun s c => Compatible server s.2 c.1)
      (.empty, .empty) calls := by
  refine Machine.along_congr (J := InDomain) ?_ ?_ ⟨.empty, hamounts, htimes⟩
  · intro s c rest h
    have hagrees := agrees eng server h.same
      (h.amounts c (List.mem_cons_self ..)) (List.nodup_append.mp h.times).1
    refine ⟨fun hc => hagrees.answer.mp hc.1, fun hC => ⟨hagrees.answer.mpr hC, ?_⟩⟩
    exact truthful h.same hC
  · intro s c rest h hC
    refine ⟨?_, fun c' hc' => h.amounts c' (List.mem_cons_of_mem _ hc'), ?_⟩
    · exact (agrees eng server h.same (h.amounts c (List.mem_cons_self ..))
        (List.nodup_append.mp h.times).1).next hC
    · obtain ⟨o, now⟩ := c
      have hsplit : ((o, now) :: rest).filterMap creation =
          (creation (o, now)).toList ++ rest.filterMap creation := by
        rcases hcr : creation (o, now) with _ | t
        · rw [List.filterMap_cons_none hcr]
          rfl
        · rw [List.filterMap_cons_some hcr]
          rfl
      have htimes := h.times
      rw [hsplit, ← List.append_assoc] at htimes
      change ((s.2.exec server now o).1.invoices.map _ ++ _).Nodup
      rwa [times_exec hC]

/-! ## Samples -/

section Samples

/-- A server that meets rows in insertion order and takes hashes that fit a third of a page. -/
def AccountServer.inOrder : AccountServer where
  toEngine := Sql.Engine.inOrder 65535
  indexable hash := byteLen hash ≤ 2600

/-- A key. -/
def sampleKey : String := "5cbdf0646e5db4eaa398f365f2ea7a0e3d419b7e0330e39ce92bddedcac4f9bc"

/-- An invoice for it. -/
def sampleInvoice : InvoiceInfo :=
  ⟨sampleKey, "inv-1", "https://pay.example/inv-1", 1000, .unpaid, "admission"⟩

/-- An account asks for an invoice and gets it back until it pays. -/
def sampleCalls : List Timed :=
  [(.createAccount sampleKey, 1700000000000000),
    (.createInvoiceRecord sampleKey sampleInvoice, 1700000000000001),
    (.getUnpaidInvoice sampleKey, 1700000001000000),
    (.updateInvoice "inv-1" .paid, 1700000002000000),
    (.admitAccount sampleKey 1000, 1700000002000001),
    (.getAccountBalance sampleKey, 1700000003000000)]

/-- And asks for its unpaid invoice once more. -/
def samplePaidCalls : List Timed :=
  sampleCalls ++ [(.getUnpaidInvoice sampleKey, 1700000004000000)]

theorem ledgers_agree_sample :
    Machine.Along (bothStep (.inOrder 999) .inOrder)
      (fun s c => SameAnswer (.inOrder 999) .inOrder s c ∧ Truthful .inOrder s.2 c)
      (.empty, .empty) sampleCalls :=
  (ledgers_agree_iff (.inOrder 999) .inOrder sampleCalls (by decide) (by decide)).mpr
    (by decide +kernel)

/-- SQLite has no unpaid invoice, Postgres hands out the paid one as unpaid. -/
theorem ledgers_differ :
    (∀ c ∈ samplePaidCalls, amountFits c.1 = true) ∧ (samplePaidCalls.filterMap creation).Nodup ∧
    ¬Machine.Along (bothStep (.inOrder 999) .inOrder)
      (fun s c => SameAnswer (.inOrder 999) .inOrder s c ∧ Truthful .inOrder s.2 c)
      (.empty, .empty) samplePaidCalls := by
  refine ⟨by decide, by decide, fun h => ?_⟩
  have hlast := (Machine.along_append.mp h).2.1.1
  revert hlast
  decide +kernel

end Samples

end Floonet.Postgres
