import Floonet.Payment.History
import Floonet.NameAuthority.Signed

/-!
# Conservation of account balances

A payment is credited by `update_invoice`, the admission fee is taken by `admit_account`
and an event is charged for by the writer, each in a transaction of its own. The credit
happens on the way from `Unpaid` to `Paid` only, the fee is taken every time: a webhook
that is sent twice, or a second paid invoice, takes it again (`replayed_webhook`). Apart
from the calls that `LedgerStep` rules out, an account's balance is what was paid to it
less the fee and the charges, and never negative (`balance_conserved`).
-/

namespace Floonet.Payment

open NameAuthority Sqlite
open Process (System)

/-! ## The condition

A payment is credited whenever an invoice is recorded as paid, and an admission takes its fee
whenever it succeeds. The books are kept as long as each happens once. -/

/-- The calls that keep the books: an invoice is recorded as paid once, coming from
`Unpaid`, and its amount fits; an account is admitted once. Calls about nothing are
harmless. -/
def LedgerStep (l : Accounts) : RepoOp → Prop
  | .updateInvoice hash status => ∀ inv ∈ l.invoice? hash, inv.amount = 0 ∨
      (inv.status = .paid → status = .paid) ∧ (inv.status = .expired → status ≠ .paid) ∧
      (inv.status = .unpaid → status = .paid →
        ∀ a ∈ l.account? inv.pubkey, hasRoom inv.amount a.balance = true)
  | .createInvoiceRecord _ info =>
      info.amount = 0 ∨ l.invoice? info.paymentHash ≠ none ∨ info.status ≠ .paid
  | .admitAccount key cost => cost = 0 ∨ ∀ a ∈ l.account? key, a.isAdmitted = false
  | _ => True

instance (l : Accounts) : (o : RepoOp) → Decidable (LedgerStep l o)
  | .updateInvoice hash _ => inferInstanceAs (Decidable (∀ inv ∈ l.invoice? hash, _))
  | .createInvoiceRecord _ info => inferInstanceAs (Decidable (info.amount = 0 ∨ _))
  | .admitAccount _ cost => inferInstanceAs (Decidable (cost = 0 ∨ _))
  | .createAccount _ => isTrue trivial
  | .getAccountBalance _ => isTrue trivial
  | .updateAccountBalance _ _ _ => isTrue trivial
  | .getUnpaidInvoice _ => isTrue trivial

/-! ## Books in order

The balance of an account is what it has paid, less the admission fee if it is admitted and less a
charge for every event. Each write of the tables keeps this equation under the condition. -/

section Books

variable (cfg : PayToRelay)

/-- The fee an account has paid. -/
def fee (a : Account Sql.Cell) : Nat := if a.isAdmitted then cfg.admissionCost else 0

/-- The tables in order, after `charges key` charges of each key. -/
structure Books (l : Accounts) (charges : String → Nat) : Prop where
  balanced : ∀ a ∈ l.accounts, ∃ z : Int, a.balance = .int z ∧ 0 ≤ z ∧ z < 2 ^ 63 ∧
    z = l.paidSum a.pubkey - fee cfg a - (cfg.costPerEvent * charges a.pubkey : Nat)
  charged : ∀ key, charges key ≠ 0 → l.Admitted key
  amounts : ∀ i ∈ l.invoices, i.amount = cfg.admissionCost

/-- The account is admitted and has at least `b`. -/
def Funded (l : Accounts) (key : String) (b : Nat) : Prop :=
  ∃ a z, l.account? key = some a ∧ a.isAdmitted = true ∧ a.balance = .int z ∧ (b : Int) ≤ z

variable {cfg} {l : Accounts} {charges : String → Nat} {key hash : String} {inv : Invoice}
  {b : Nat}

theorem Books.addAccount (h : Books cfg l charges) (hnew : l.account? key = none) :
    Books cfg (l.addAccount key (.int 0) hnew) charges where
  balanced := by
    intro a ha
    rcases List.mem_append.mp ha with ha | ha
    · exact h.balanced a ha
    · cases List.mem_singleton.mp ha
      have hzero : charges key = 0 := by
        by_contra hne
        obtain ⟨a, ha, -⟩ := h.charged key hne
        rw [ha] at hnew
        cases hnew
      have hpaid : l.paidSum key = 0 := Ledger.paidSum_eq_zero hnew
      refine ⟨0, rfl, le_refl _, by norm_num, ?_⟩
      change (0 : Int) = l.paidSum key - 0 - (cfg.costPerEvent * charges key : Nat)
      rw [hpaid, hzero]
      rfl
  charged := fun k hk => Ledger.admitted_addAccount.mpr (h.charged k hk)
  amounts := h.amounts

/-- Admission of an account that has paid. -/
theorem Books.grant (h : Books cfg l charges)
    (hpaid : cfg.admissionCost = 0 ∨ ∃ inv ∈ l.invoices, inv.pubkey = key ∧ inv.status = .paid)
    (honce : cfg.admissionCost = 0 ∨ ∀ a ∈ l.account? key, a.isAdmitted = false) :
    Books cfg (l.adjust key true fun b => b.add (-(cfg.admissionCost : Int))) charges where
  balanced := by
    intro a' ha'
    obtain ⟨a, ha, rfl⟩ := List.mem_map.mp ha'
    obtain ⟨z, hz, hnonneg, hlt, hbal⟩ := h.balanced a ha
    have hsum : (l.adjust key true fun b => b.add (-(cfg.admissionCost : Int))).paidSum a.pubkey =
        l.paidSum a.pubkey := rfl
    rw [Ledger.pubkey_adjustRow, hsum]
    rw [Ledger.adjustRow]
    split_ifs with hk
    · have hacc : l.account? key = some a := Ledger.account?_eq_some ha hk
      -- the fee is taken from what was paid, or there is none
      have hcost : (cfg.admissionCost : Int) ≤ z ∧ (a.isAdmitted = true → cfg.admissionCost = 0) := by
        rcases honce with h0 | honce
        · exact ⟨by omega, fun _ => h0⟩
        · have hfalse := honce a hacc
          refine ⟨?_, fun ht => by rw [hfalse] at ht; cases ht⟩
          have hzero : charges a.pubkey = 0 := by
            by_contra hne
            obtain ⟨b, hb, hadm⟩ := h.charged _ hne
            rw [hk, hacc] at hb
            cases hb
            rw [hfalse] at hadm
            cases hadm
          rcases hpaid with h0 | ⟨inv, hinv, hpub, hstatus⟩
          · omega
          · have hle := Ledger.paidTo_le_paidSum a.pubkey hinv
            rw [Invoice.paidTo, if_pos ⟨hpub.trans hk.symm, hstatus⟩, h.amounts inv hinv] at hle
            rw [hbal, hzero, fee, hfalse]
            simpa using hle
      refine ⟨z - cfg.admissionCost, ?_, by omega, by omega, ?_⟩
      · simp only [hz]
        exact Sql.Cell.add_int ⟨by omega, by omega⟩
      · simp only [fee, Bool.or_true, if_true] at hbal ⊢
        split_ifs at hbal with hadm
        · have := hcost.2 hadm
          omega
        · omega
    · exact ⟨z, hz, hnonneg, hlt, hbal⟩
  charged := fun k hk => (h.charged k hk).adjust
  amounts := h.amounts

/-- A charge to an account that can pay. -/
theorem Books.charge (h : Books cfg l charges) (hfunded : Funded l key cfg.costPerEvent) :
    Books cfg (l.adjust key false fun b => b.add (-(cfg.costPerEvent : Int)))
      (fun k => charges k + if k = key then 1 else 0) where
  balanced := by
    intro a' ha'
    obtain ⟨a, ha, rfl⟩ := List.mem_map.mp ha'
    obtain ⟨z, hz, hnonneg, hlt, hbal⟩ := h.balanced a ha
    have hsum : (l.adjust key false fun b => b.add (-(cfg.costPerEvent : Int))).paidSum a.pubkey =
        l.paidSum a.pubkey := rfl
    rw [Ledger.pubkey_adjustRow, hsum, Ledger.adjustRow]
    split_ifs with hk
    · obtain ⟨b, w, hb, -, hw, hle⟩ := hfunded
      rw [Ledger.account?_eq_some ha hk] at hb
      cases hb
      cases hz.symm.trans hw
      refine ⟨z - cfg.costPerEvent, ?_, by omega, by omega, ?_⟩
      · simp only [hz]
        exact Sql.Cell.add_int ⟨by omega, by omega⟩
      · simp only [fee, Bool.or_false] at hbal ⊢
        rw [Nat.mul_succ]
        omega
    · exact ⟨z, hz, hnonneg, hlt, hbal⟩
  charged := by
    intro k hk
    refine Ledger.Admitted.adjust ?_
    by_cases hkey : k = key
    · obtain ⟨a, z, ha, hadm, -⟩ := hfunded
      exact ⟨a, hkey ▸ ha, hadm⟩
    · rw [if_neg hkey] at hk
      exact h.charged k hk
  amounts := h.amounts

/-- An invoice that is not paid, or for nothing. -/
theorem Books.addInvoice (h : Books cfg l charges) (hnew : l.invoice? inv.paymentHash = none)
    (hacc : (l.account? inv.pubkey).isSome) (hamount : inv.amount = cfg.admissionCost)
    (hunpaid : inv.amount = 0 ∨ inv.status ≠ .paid) :
    Books cfg (l.addInvoice inv hnew hacc) charges where
  balanced := by
    intro a ha
    have hzero : inv.paidTo a.pubkey = 0 := by
      rw [Invoice.paidTo]
      split_ifs with hp
      · exact hunpaid.resolve_right fun hne => hne hp.2
      · rfl
    rw [Ledger.paidSum_addInvoice, hzero]
    exact h.balanced a ha
  charged := h.charged
  amounts := by
    intro i hi
    rcases List.mem_append.mp hi with hi | hi
    · exact h.amounts i hi
    · rw [List.mem_singleton.mp hi, hamount]

theorem amounts_setStatus {status : InvoiceStatus}
    (h : ∀ i ∈ l.invoices, i.amount = cfg.admissionCost) :
    ∀ i ∈ (l.setStatus hash status).invoices, i.amount = cfg.admissionCost := by
  intro i hi
  obtain ⟨j, hj, rfl⟩ := List.mem_map.mp hi
  rw [Ledger.amount_statusRow]
  exact h j hj

/-- A status that leaves the sum of the paid invoices as it was. -/
theorem Books.setStatus {status : InvoiceStatus} (h : Books cfg l charges)
    (hi : l.invoice? hash = some inv)
    (hsame : inv.amount = 0 ∨ (inv.status = .paid ↔ status = .paid)) :
    Books cfg (l.setStatus hash status) charges where
  balanced := by
    intro a ha
    have hsum := Ledger.paidSum_setStatus status a.pubkey hi
    have hterm : ({ inv with status := status } : Invoice).paidTo a.pubkey = inv.paidTo a.pubkey := by
      rcases hsame with h0 | hiff
      · simp [Invoice.paidTo, h0]
      · simp only [Invoice.paidTo, hiff]
    rw [hterm, Nat.add_right_cancel_iff] at hsum
    rw [hsum]
    exact h.balanced a ha
  charged := h.charged
  amounts := amounts_setStatus h.amounts

/-- A payment: the owner of the invoice is credited. -/
theorem Books.credit (h : Books cfg l charges) (hi : l.invoice? hash = some inv)
    (hunpaid : inv.status = .unpaid)
    (hroom : inv.amount = 0 ∨ ∀ a ∈ l.account? inv.pubkey, hasRoom inv.amount a.balance = true) :
    Books cfg ((l.setStatus hash .paid).adjust inv.pubkey false fun b => b.add inv.amount)
      charges where
  balanced := by
    intro a' ha'
    obtain ⟨a, ha, rfl⟩ := List.mem_map.mp ha'
    obtain ⟨z, hz, hnonneg, hlt, hbal⟩ := h.balanced a ha
    have hsum := Ledger.paidSum_setStatus .paid a.pubkey hi
    simp only [Invoice.paidTo, hunpaid] at hsum
    have hadjust : ((l.setStatus hash .paid).adjust inv.pubkey false
        fun b => b.add inv.amount).paidSum a.pubkey =
      (l.setStatus hash .paid).paidSum a.pubkey := rfl
    rw [Ledger.pubkey_adjustRow, hadjust, Ledger.adjustRow]
    split_ifs with hk
    · have hfits : z + inv.amount < 2 ^ 63 := by
        rcases hroom with h0 | hroom
        · omega
        · have hr := hroom a (Ledger.account?_eq_some ha hk)
          rw [hz] at hr
          simpa [hasRoom] using hr
      refine ⟨z + inv.amount, ?_, by omega, hfits, ?_⟩
      · simp only [hz]
        exact Sql.Cell.add_int ⟨by omega, hfits⟩
      · simp only [fee, Bool.or_false, hk] at hbal hsum ⊢
        simp only [reduceCtorEq, and_false, if_false, and_self, if_true, Nat.add_zero] at hsum
        rw [hsum]
        omega
    · simp only [Ne.symm hk, false_and, if_false, Nat.add_zero] at hsum
      refine ⟨z, hz, hnonneg, hlt, ?_⟩
      rw [hsum]
      exact hbal
  charged := fun k hk => Ledger.Admitted.adjust (l := l.setStatus hash .paid) (h.charged k hk)
  amounts := amounts_setStatus h.amounts

/-- What a call of the payment thread does to the books. -/
theorem Books.writes {o : RepoOp} {l' : Accounts} (h : Books cfg l charges) (hw : l.Writes o l')
    (hC : LedgerStep l o) (hcharge : ∀ key positive n, o ≠ .updateAccountBalance key positive n)
    (hgrant : ∀ key cost, o = .admitAccount key cost → cost = cfg.admissionCost ∧
      (cfg.admissionCost = 0 ∨ ∃ inv ∈ l.invoices, inv.pubkey = key ∧ inv.status = .paid))
    (hrecord : ∀ key info, o = .createInvoiceRecord key info → info.amount = cfg.admissionCost) :
    Books cfg l' charges := by
  cases hw with
  | nothing => exact h
  | account hnew => exact h.addAccount hnew
  | grant hfit =>
    obtain ⟨rfl, hpaid⟩ := hgrant _ _ rfl
    exact h.grant hpaid hC
  | balance => exact absurd rfl (hcharge _ _ _)
  | invoice hfit hnew hacc =>
    refine h.addInvoice hnew hacc (hrecord _ _ rfl) ?_
    rcases hC with h0 | hrec | hne
    · exact .inl h0
    · exact absurd hnew hrec
    · exact .inr hne
  | credit hinv hunpaid =>
    refine h.credit hinv hunpaid ?_
    rcases hC _ hinv with h0 | ⟨-, -, hroom⟩
    · exact .inl h0
    · exact .inr (hroom hunpaid rfl)
  | @status hash inv status hinv hne =>
    refine h.setStatus hinv ?_
    rcases hC _ hinv with h0 | ⟨hpaid, hexpired, -⟩
    · exact .inl h0
    · refine .inr ⟨hpaid, fun hs => ?_⟩
      rcases hst : inv.status with _ | _ | _
      · exact absurd ⟨hst, hs⟩ hne
      · rfl
      · exact absurd hs (hexpired hst)

/-- No call of the payment thread takes from an admitted account. -/
theorem Funded.writes {o : RepoOp} {l' : Accounts} (hf : Funded l key b) (h : Books cfg l charges)
    (hw : l.Writes o l') (hC : LedgerStep l o)
    (hcharge : ∀ key positive n, o ≠ .updateAccountBalance key positive n) :
    Funded l' key b := by
  obtain ⟨a, z, ha, hadm, hz, hle⟩ := hf
  obtain ⟨w, hw', hnonneg, hlt, -⟩ := h.balanced a (Ledger.mem_of_account? ha).1
  cases hz.symm.trans hw'
  cases hw with
  | nothing => exact ⟨a, z, ha, hadm, hz, hle⟩
  | account hnew =>
    refine ⟨a, z, ?_, hadm, hz, hle⟩
    rw [Ledger.account?_addAccount, if_neg]
    · exact ha
    · rintro rfl
      rw [ha] at hnew
      cases hnew
  | @grant k cost hfit =>
    by_cases hk : key = k
    · subst hk
      obtain rfl : cost = 0 := by
        refine hC.resolve_right fun honce => ?_
        rw [honce a ha] at hadm
        cases hadm
      refine ⟨_, z, Ledger.account?_adjust.trans (congrArg _ ha), ?_, ?_, hle⟩
      · rw [Ledger.adjustRow, if_pos (Ledger.mem_of_account? ha).2]
        exact Bool.or_true _
      · rw [Ledger.adjustRow, if_pos (Ledger.mem_of_account? ha).2, hz]
        have hsame := Sql.Cell.add_int (a := z) (b := 0) ⟨by omega, by omega⟩
        simpa using hsame
    · exact ⟨a, z, (Ledger.account?_adjust_of_ne hk).trans ha, hadm, hz, hle⟩
  | balance => exact absurd rfl (hcharge _ _ _)
  | invoice => exact ⟨a, z, ha, hadm, hz, hle⟩
  | @credit hash inv hinv hunpaid =>
    have ha' : (l.setStatus hash .paid).account? key = some a := ha
    by_cases hk : key = inv.pubkey
    · subst hk
      have hfits : z + inv.amount < 2 ^ 63 := by
        rcases hC _ hinv with h0 | ⟨-, -, hroom⟩
        · omega
        · have hr := hroom hunpaid rfl a ha
          rw [hz] at hr
          simpa [hasRoom] using hr
      refine ⟨_, z + inv.amount, Ledger.account?_adjust.trans (congrArg _ ha'), ?_, ?_, by omega⟩
      · rw [Ledger.adjustRow, if_pos (Ledger.mem_of_account? ha).2, Bool.or_false]
        exact hadm
      · rw [Ledger.adjustRow, if_pos (Ledger.mem_of_account? ha).2, hz]
        exact Sql.Cell.add_int ⟨by omega, hfits⟩
    · exact ⟨a, z, (Ledger.account?_adjust_of_ne hk).trans ha', hadm, hz, hle⟩
  | status => exact ⟨a, z, ha, hadm, hz, hle⟩

/-- The invoice is recorded as paid, or it was for nothing. -/
def PaidUp (l : Accounts) (hash : String) : Prop :=
  ∃ inv, l.invoice? hash = some inv ∧ (inv.amount = 0 ∨ inv.status = .paid)

theorem PaidUp.writes {o : RepoOp} {l' : Accounts} (h : PaidUp l hash) (hw : l.Writes o l')
    (hC : LedgerStep l o) : PaidUp l' hash := by
  obtain ⟨inv, hinv, hpaid⟩ := h
  obtain ⟨status, hafter, hstatus⟩ := hw.invoice_mono hinv
  refine ⟨_, hafter, ?_⟩
  rcases hpaid with h0 | hpaid
  · exact .inl h0
  · rcases hstatus with hsame | rfl
    · exact .inr (hsame.trans hpaid)
    · exact (hC _ hinv).imp id fun hk => hk.1 hpaid

end Books

/-! ## The runs

Charges are counted in the trace, since the tables do not remember them. The writer handles one
event at a time, so the balance it has read is still there when it charges. -/

/-- The operation of a charge. -/
def chargeOp : Op → Bool
  | .repo (.updateAccountBalance _ _ _) => true
  | _ => false

/-- The call has charged the account of a key. -/
def isCharge (key : String) : Call → Bool
  | ⟨.repo (.updateAccountBalance k false _), .ok _⟩ => k == key
  | _ => false

/-- The number of events a key was charged for. -/
def chargesTo (trace : List Move) (key : String) : Nat := trace.countP fun m => isCharge key m.call

/-- The database writer is busy with an event. -/
def writing (t : Task.Thread) : Bool :=
  match t.request with
  | .event _ => t.code.next.isSome
  | _ => false

/-- Messages of the payment channel, and events, which the writer takes one at a time. -/
def PaidTraffic (c : Configuration) : Action → Prop
  | .spawn (.payment _) => True
  | .spawn (.event _) => ∀ t ∈ c.threads, writing t = false
  | .spawn _ => False
  | .run _ _ => True

/-- Repository calls that take effect keep the books. -/
def KeepsBooks (c : Configuration) : Action → Prop
  | .spawn _ => True
  | .run i e => e.fails = false → ∀ o ∈ (c.next i).bind repoCall, LedgerStep c.shared.accounts o

instance (c : Configuration) : (a : Action) → Decidable (PaidTraffic c a)
  | .spawn (.payment _) => isTrue trivial
  | .spawn (.event _) => inferInstanceAs (Decidable (∀ t ∈ c.threads, _))
  | .spawn (.register _) => isFalse id
  | .spawn (.unregister _ _) => isFalse id
  | .run _ _ => isTrue trivial

instance (c : Configuration) : (a : Action) → Decidable (KeepsBooks c a)
  | .spawn _ => isTrue trivial
  | .run i e => inferInstanceAs (Decidable (e.fails = false → ∀ o ∈ (c.next i).bind repoCall, _))

section Charges

variable {o : Op} {key : String}

theorem isCharge_eq_false (h : chargeOp o = false) (r : o.Res) : isCharge key ⟨o, r⟩ = false := by
  cases o with
  | repo o =>
    cases o with
    | updateAccountBalance k positive n => cases h
    | _ => rfl
  | _ => rfl

theorem chargesTo_cons (m : Move) (trace : List Move) : chargesTo (m :: trace) =
    fun key => chargesTo trace key + if isCharge key m.call then 1 else 0 := by
  funext key
  exact List.countP_cons ..

theorem chargesTo_of_not_charge {m : Move} {trace : List Move} (h : chargeOp m.call.op = false) :
    chargesTo (m :: trace) = chargesTo trace := by
  rw [chargesTo_cons]
  funext key
  rw [isCharge_eq_false h]
  rfl

end Charges

/-- What holds between the steps of such a run. -/
structure BooksInv (rl : Relay) (c : Configuration) : Prop where
  kept : Remembered rl c
  books : Books rl.payToRelay c.shared.accounts (chargesTo c.trace)
  paidUp : ∀ m ∈ c.trace, ∀ hash pk, m.call = ⟨updateInvoiceOp hash .paid, .ok pk⟩ →
    PaidUp c.shared.accounts hash
  traffic : ∀ t ∈ c.threads, (∃ m, t.request = .payment m) ∨ ∃ pk, t.request = .event pk
  alone : ∀ (i j : Nat) (t u : Task.Thread), c.threads[i]? = some t → c.threads[j]? = some u →
    writing t = true → writing u = true → i = j
  /-- the account the writer has looked at can still pay what was read -/
  funded : ∀ t ∈ c.threads, writing t = true → (∀ x ∈ t.past, chargeOp x.op = false) →
    ∀ key b, (⟨balanceOp key, .ok (true, b)⟩ : Call) ∈ t.past → Funded c.shared.accounts key b

section Invariant

variable {rl : Relay} {c : Configuration} {i : Nat} {e : Env} {r : Request} {past : List Call}
  {o : Op} {k : o.Res → Task Answer}

/-- The books are balanced at the start. -/
theorem booksInv_init (clock : Nat) : BooksInv rl (System.init (Shared.start clock)) where
  kept := .init clock
  books := ⟨fun a h => (by cases h), fun key h => absurd rfl h, fun i h => (by cases h)⟩
  paidUp := fun m h => (by cases h)
  traffic := fun t h => (by cases h)
  alone := fun i j t u h => (by simp [System.init] at h)
  funded := fun t h => (by cases h)

/-- A new thread has not charged anything. -/
theorem booksInv_spawn (h : BooksInv rl c) (hr : PaidTraffic c (.spawn r)) :
    BooksInv rl (rl.system.step c (.spawn r)) where
  kept := h.kept.spawn
  books := h.books
  paidUp := h.paidUp
  traffic := by
    intro t ht
    obtain rfl | ht := System.mem_spawn ht
    · cases r with
      | payment m => exact .inl ⟨m, rfl⟩
      | event pk => exact .inr ⟨pk, rfl⟩
      | register req => exact absurd hr id
      | unregister name req => exact absurd hr id
    · exact h.traffic t ht
  alone := by
    -- a new event finds no other one
    have hnew : writing ⟨r, [], rl.system.program r⟩ = true → ∀ t ∈ c.threads, writing t = false := by
      intro hw
      cases r with
      | event pk => exact hr
      | payment m => cases hw
      | register req => cases hw
      | unregister name req => cases hw
    intro i j t u hi hj ht hu
    obtain ⟨rfl, rfl⟩ | hi := System.getElem?_spawn hi
    · obtain ⟨rfl, rfl⟩ | hj := System.getElem?_spawn hj
      · rfl
      · rw [hnew ht u (List.mem_of_getElem? hj)] at hu
        cases hu
    · obtain ⟨rfl, rfl⟩ | hj := System.getElem?_spawn hj
      · rw [hnew hu t (List.mem_of_getElem? hi)] at ht
        cases ht
      · exact h.alone i j t u hi hj ht hu
  funded := by
    intro t ht hw hcharge key b hread
    obtain rfl | ht := System.mem_spawn ht
    · cases hread
    · exact h.funded t ht hw hcharge key b hread

/-- The repository calls of the payment thread. -/
theorem payment_inv {m : PaymentMessage} {o : RepoOp} (hcall : rl.Calls (.payment m) past (.repo o)) :
    (∀ key positive n, o ≠ .updateAccountBalance key positive n) ∧
    (∀ key cost, o = .admitAccount key cost → cost = rl.payToRelay.admissionCost) ∧
    ∀ key info, o = .createInvoiceRecord key info →
      (⟨getInvoiceOp key rl.payToRelay.admissionCost, some info⟩ : Call) ∈ past := by
  refine ⟨?_, ?_, ?_⟩
  · rintro key positive n rfl
    exact hcall
  · rintro key cost rfl
    exact hcall.1
  · rintro key info rfl
    exact hcall

/-- An admission by the payment thread finds a paid invoice. -/
theorem BooksInv.paid_invoice (h : BooksInv rl c) (hc : rl.Sound c) {key : String} {cost : Nat}
    {k : (admitOp key cost).Res → Task Answer}
    (hi : c.threads[i]? = some ⟨r, past, .call (admitOp key cost) k⟩) :
    rl.payToRelay.admissionCost = 0 ∨
      ∃ inv ∈ c.shared.accounts.invoices, inv.pubkey = key ∧ inv.status = .paid := by
  obtain ⟨hash, howner, -, hupdate⟩ := h.kept.confirmed hc hi
  obtain ⟨m, hm, -, -, hcall⟩ := hc.past hi _ hupdate
  obtain ⟨inv, hinv, hpaid⟩ := h.paidUp m hm hash key hcall
  have hmem := (Ledger.mem_of_invoice? hinv).1
  rcases hpaid with h0 | hpaid
  · exact .inl ((h.books.amounts inv hmem).symm.trans h0)
  · refine .inr ⟨inv, hmem, ?_, hpaid⟩
    exact InvoiceOf.unique ⟨inv, hinv, rfl⟩ howner

/-- A step of the payment thread changes the tables by a call that keeps the books. -/
theorem BooksInv.payment_writes (h : BooksInv rl c) (hc : rl.Sound c)
    (hC : KeepsBooks c (.run i e)) {m : PaymentMessage} {o : RepoOp}
    {k : (Op.repo o).Res → Task Answer} {l' : Accounts}
    (hi : c.threads[i]? = some ⟨.payment m, past, .call (.repo o) k⟩) (hf : e.fails = false)
    (hw : c.shared.accounts.Writes o l') :
    LedgerStep c.shared.accounts o ∧ Books rl.payToRelay l' (chargesTo c.trace) := by
  obtain ⟨hcharge, hcost, hrecord⟩ := payment_inv (Process.obeys_call.mp (hc.obeys hi)).1
  have hstep : LedgerStep c.shared.accounts o :=
    hC hf o (by rw [Process.Config.next_of_getElem? hi]; rfl)
  refine ⟨hstep, h.books.writes hw hstep hcharge ?_ ?_⟩
  · rintro key cost rfl
    exact ⟨hcost key cost rfl, h.paid_invoice hc hi⟩
  · intro key info ho
    exact h.kept.of_past hc hi (hrecord key info ho)

theorem alone_fire (h : BooksInv rl c) (hi : c.threads[i]? = some ⟨r, past, .call o k⟩) :
    ∀ (j j' : Nat) (t u : Task.Thread), (rl.system.fire c i e r past o k).threads[j]? = some t →
      (rl.system.fire c i e r past o k).threads[j']? = some u → writing t = true →
      writing u = true → j = j' := by
  -- the thread that fired was busy before if it is busy now
  have hbusy : writing (rl.system.fired c.shared e r past o k) = true →
      writing ⟨r, past, .call o k⟩ = true := by
    intro hw
    cases r with
    | event pk => rfl
    | payment m => cases hw
    | register req => cases hw
    | unregister name req => cases hw
  intro j j' t u hj hj' ht hu
  obtain ⟨rfl, rfl⟩ | ⟨-, hold⟩ := System.getElem?_fire hj
  · obtain ⟨rfl, rfl⟩ | ⟨-, hold'⟩ := System.getElem?_fire hj'
    · rfl
    · exact h.alone _ _ _ _ hi hold' (hbusy ht) hu
  · obtain ⟨rfl, rfl⟩ | ⟨-, hold'⟩ := System.getElem?_fire hj'
    · exact h.alone _ _ _ _ hold hi ht (hbusy hu)
    · exact h.alone _ _ _ _ hold hold' ht hu

theorem traffic_fire (h : BooksInv rl c) (hi : c.threads[i]? = some ⟨r, past, .call o k⟩) :
    ∀ t ∈ (rl.system.fire c i e r past o k).threads,
      (∃ m, t.request = .payment m) ∨ ∃ pk, t.request = .event pk := by
  intro t ht
  obtain rfl | ht := System.mem_fire ht
  · exact h.traffic ⟨r, past, .call o k⟩ (List.mem_of_getElem? hi)
  · exact h.traffic t ht

/-- What was reported as paid is paid. -/
theorem paidUp_fire (h : BooksInv rl c)
    (hkeep : ∀ hash, PaidUp c.shared.accounts hash →
      PaidUp (rl.system.exec c.shared e o).1.accounts hash) :
    ∀ m ∈ (rl.system.fire c i e r past o k).trace, ∀ hash pk,
      m.call = ⟨updateInvoiceOp hash .paid, .ok pk⟩ →
      PaidUp (rl.system.fire c i e r past o k).shared.accounts hash := by
  intro m hm hash pk hcall
  rcases List.mem_cons.mp hm with rfl | hm
  · rw [Process.Call.mk.injEq] at hcall
    obtain ⟨rfl, hans⟩ := hcall
    have hans : (Op.exec rl.engine c.shared e (updateInvoiceOp hash .paid)).2 = .ok pk :=
      eq_of_heq hans
    change PaidUp (Op.exec rl.engine c.shared e (updateInvoiceOp hash .paid)).1.accounts hash
    obtain ⟨-, -, hfail⟩ | ⟨-, now, htab, hok⟩ :=
      Op.exec_repo_cases rl.engine c.shared e (.updateInvoice hash .paid)
    · rw [hfail] at hans
      cases hans
    · obtain ⟨inv, -, -, hafter⟩ := Accounts.of_updateInvoice (hok.symm.trans hans)
      rw [htab]
      exact ⟨_, hafter, .inr rfl⟩
  · exact hkeep hash (h.paidUp m hm hash pk hcall)

/-- A step of the payment thread. -/
theorem booksInv_payment (h : BooksInv rl c) (hc : rl.Sound c) (hC : KeepsBooks c (.run i e))
    {m : PaymentMessage} (hi : c.threads[i]? = some ⟨.payment m, past, .call o k⟩) :
    BooksInv rl (rl.system.fire c i e (.payment m) past o k) := by
  have hcall := (Process.obeys_call.mp (hc.obeys hi)).1
  have hnot : chargeOp o = false := by
    cases o with
    | repo o =>
      cases o with
      | updateAccountBalance key positive n => exact absurd hcall id
      | _ => rfl
    | _ => rfl
  have hcount : chargesTo (rl.system.fire c i e (.payment m) past o k).trace = chargesTo c.trace :=
    chargesTo_of_not_charge hnot
  have htables : Books rl.payToRelay (rl.system.exec c.shared e o).1.accounts (chargesTo c.trace) ∧
      (∀ hash, PaidUp c.shared.accounts hash →
        PaidUp (rl.system.exec c.shared e o).1.accounts hash) ∧
      ∀ key b, Funded c.shared.accounts key b →
        Funded (rl.system.exec c.shared e o).1.accounts key b := by
    obtain heq | ⟨op, rfl, hf, hw⟩ := Op.writes_exec rl.engine c.shared e o
    · change (rl.system.exec c.shared e o).1.accounts = _ at heq
      rw [heq]
      exact ⟨h.books, fun _ hp => hp, fun _ _ hp => hp⟩
    · obtain ⟨hstep, hbooks⟩ := h.payment_writes hc hC hi hf hw
      exact ⟨hbooks, fun hash hp => hp.writes hw hstep,
        fun key b hp => hp.writes h.books hw hstep (payment_inv hcall).1⟩
  obtain ⟨hbooks, hpaidUp, hfunded⟩ := htables
  refine ⟨h.kept.fire hc hi, ?_, paidUp_fire h hpaidUp, traffic_fire h hi, alone_fire h hi, ?_⟩
  · rw [hcount]
    exact hbooks
  · intro t ht hw hcharge key b hread
    obtain rfl | ht := System.mem_fire ht
    · cases hw
    · exact hfunded key b (h.funded t ht hw hcharge key b hread)

/-- What the writer has read of an account holds. -/
theorem funded_of_balance {eng : Sql.Engine} {s : Shared} {key : String} {b : Nat}
    (h : (Op.exec eng s e (balanceOp key)).2 = .ok (true, b)) : Funded s.accounts key b := by
  obtain ⟨-, -, hfail⟩ | ⟨-, now, -, hok⟩ := Op.exec_repo_cases eng s e (.getAccountBalance key)
  · rw [hfail] at h
    cases h
  · obtain ⟨a, ha, hadm, hbal⟩ := Accounts.of_getAccountBalance (hok.symm.trans h)
    exact ⟨a, b, ha, hadm, hbal, le_refl _⟩

/-- A call of `update_account_balance` by the writer: it fails, or it charges. -/
theorem charge_cases (eng : Sql.Engine) (s : Shared) (e : Env) (key : String) (n : Nat) :
    ((∀ k, isCharge k ⟨_, (Op.exec eng s e (.repo (.updateAccountBalance key false n))).2⟩ = false) ∧
      (Op.exec eng s e (.repo (.updateAccountBalance key false n))).1.accounts = s.accounts) ∨
    ((∀ k, isCharge k ⟨_, (Op.exec eng s e (.repo (.updateAccountBalance key false n))).2⟩ =
        (key == k)) ∧
      (Op.exec eng s e (.repo (.updateAccountBalance key false n))).1.accounts =
        s.accounts.adjust key false fun b => b.add (-(n : Int))) := by
  obtain ⟨-, htab, hans⟩ | ⟨-, now, htab, hans⟩ :=
    Op.exec_repo_cases eng s e (.updateAccountBalance key false n)
  · rw [hans, htab]
    exact .inl ⟨fun k => rfl, rfl⟩
  · rw [hans, htab]
    by_cases hfit : fitsI64 n = true
    · simp only [Accounts.exec, Accounts.updateAccountBalance, if_pos hfit]
      exact .inr ⟨fun k => rfl, rfl⟩
    · simp only [Accounts.exec, Accounts.updateAccountBalance, if_neg hfit]
      exact .inl ⟨fun k => rfl, trivial⟩

/-- A charge by the writer. -/
theorem booksInv_charge (h : BooksInv rl c) (hc : rl.Sound c) {pk key : String} {positive : Bool}
    {n : Nat} {k : (Op.repo (.updateAccountBalance key positive n)).Res → Task Answer}
    (hi : c.threads[i]? =
      some ⟨.event pk, past, .call (.repo (.updateAccountBalance key positive n)) k⟩) :
    BooksInv rl (rl.system.fire c i e (.event pk) past
      (.repo (.updateAccountBalance key positive n)) k) := by
  obtain ⟨rfl, rfl, written, balance, pubkey, hle, rfl⟩ := (Process.obeys_call.mp (hc.obeys hi)).1
  have hfunded : Funded c.shared.accounts key rl.payToRelay.costPerEvent := by
    obtain ⟨a, z, ha, hadm, hz, hbz⟩ :=
      h.funded _ (List.mem_of_getElem? hi) rfl (by simp [chargeOp]) key balance (by simp)
    exact ⟨a, z, ha, hadm, hz, by omega⟩
  have hcases := charge_cases rl.engine c.shared e key rl.payToRelay.costPerEvent
  refine ⟨h.kept.fire hc hi, ?_, paidUp_fire h ?_, traffic_fire h hi, alone_fire h hi, ?_⟩
  · change Books _ (Op.exec rl.engine c.shared e _).1.accounts (chargesTo (_ :: c.trace))
    rw [chargesTo_cons]
    change Books _ _ fun k => _ + if isCharge k ⟨_, (Op.exec rl.engine c.shared e _).2⟩ then 1 else 0
    obtain ⟨hcount, htab⟩ | ⟨hcount, htab⟩ := hcases
    · simp only [hcount, htab]
      exact h.books
    · simp only [hcount, htab, beq_iff_eq, eq_comm (a := key)]
      exact h.books.charge hfunded
  · intro hash hp
    obtain ⟨-, htab⟩ | ⟨-, htab⟩ := hcases
    · exact htab.symm ▸ hp
    · exact htab.symm ▸ hp
  · intro t ht hw hcharge key' b hread
    obtain ⟨j, hj⟩ := List.getElem?_of_mem ht
    obtain ⟨-, rfl⟩ | ⟨hne, hold⟩ := System.getElem?_fire hj
    · -- it has charged
      exact absurd (hcharge _ (List.mem_cons_self ..)) (by simp [chargeOp])
    · exact absurd (h.alone _ _ _ _ hold hi hw rfl) hne

/-- The writer's other steps leave the tables alone. -/
theorem booksInv_read (h : BooksInv rl c) (hc : rl.Sound c) {pk : String}
    (hi : c.threads[i]? = some ⟨.event pk, past, .call o k⟩) (hnot : chargeOp o = false)
    (htab : (rl.system.exec c.shared e o).1.accounts = c.shared.accounts) :
    BooksInv rl (rl.system.fire c i e (.event pk) past o k) := by
  have hcount : chargesTo (rl.system.fire c i e (.event pk) past o k).trace = chargesTo c.trace :=
    chargesTo_of_not_charge hnot
  have hshared : (rl.system.fire c i e (.event pk) past o k).shared.accounts = c.shared.accounts :=
    htab
  refine ⟨h.kept.fire hc hi, ?_, paidUp_fire h (fun hash hp => htab.symm ▸ hp), traffic_fire h hi,
    alone_fire h hi, ?_⟩
  · rw [hcount, hshared]
    exact h.books
  · intro t ht hw hcharge key b hread
    rw [hshared]
    obtain rfl | ht := System.mem_fire ht
    · rcases List.mem_cons.mp hread with hnew | hread
      · -- the account was read in this step
        rw [Process.Call.mk.injEq] at hnew
        obtain ⟨rfl, hans⟩ := hnew
        exact funded_of_balance (eq_of_heq hans).symm
      · refine h.funded _ (List.mem_of_getElem? hi) rfl ?_ key b hread
        exact fun x hx => hcharge x (List.mem_cons_of_mem _ hx)
    · exact h.funded t ht hw hcharge key b hread

/-- A step of the writer keeps the books. -/
theorem booksInv_event (h : BooksInv rl c) (hc : rl.Sound c) {pk : String}
    (hi : c.threads[i]? = some ⟨.event pk, past, .call o k⟩) :
    BooksInv rl (rl.system.fire c i e (.event pk) past o k) := by
  have hcall := (Process.obeys_call.mp (hc.obeys hi)).1
  cases o with
  | repo o =>
    cases o with
    | updateAccountBalance key positive n => exact booksInv_charge h hc hi
    | getAccountBalance key =>
      refine booksInv_read h hc hi rfl ?_
      obtain ⟨-, htab, -⟩ | ⟨-, now, htab, -⟩ :=
        Op.exec_repo_cases rl.engine c.shared e (.getAccountBalance key)
      · exact htab
      · exact htab
    | _ => exact absurd hcall id
  | send m => exact booksInv_read h hc hi rfl rfl
  | publish pk => exact booksInv_read h hc hi rfl rfl
  | _ => exact absurd hcall id

theorem booksInv_fire (h : BooksInv rl c) (hc : rl.Sound c) (hC : KeepsBooks c (.run i e))
    (hi : c.threads[i]? = some ⟨r, past, .call o k⟩) :
    BooksInv rl (rl.system.fire c i e r past o k) := by
  obtain ⟨m, hm⟩ | ⟨pk, hpk⟩ := h.traffic _ (List.mem_of_getElem? hi)
  · cases hm
    exact booksInv_payment h hc hC hi
  · cases hpk
    exact booksInv_event h hc hi

end Invariant

/-- In every run of the payment thread and the database writer whose repository calls
keep the books, each balance is the sum of the paid invoices less the fee and the
charges, and not negative. -/
theorem balance_conserved (rl : Relay) (clock : Nat) (acts : List Action)
    (h : Machine.Along rl.system.step (fun c a => PaidTraffic c a ∧ KeepsBooks c a)
      (System.init (Shared.start clock)) acts) :
    ∀ a ∈ (rl.run clock acts).shared.accounts.accounts, ∃ z : Int, a.balance = .int z ∧ 0 ≤ z ∧
      z = (rl.run clock acts).shared.accounts.paidSum a.pubkey - fee rl.payToRelay a -
        (rl.payToRelay.costPerEvent * chargesTo (rl.run clock acts).trace a.pubkey : Nat) := by
  have hinv : BooksInv rl (rl.run clock acts) := by
    refine (System.invariant_along (P := BooksInv rl) rl.obeys (booksInv_init clock) ?_ ?_ h).2
    · exact fun c r _ hC hP => booksInv_spawn hP hC.1
    · exact fun c i e r past o k hc hC hP hi => booksInv_fire hP hc hC.2 hi
  intro a ha
  obtain ⟨z, hz, hnonneg, -, hbal⟩ := hinv.books.balanced a ha
  exact ⟨z, hz, hnonneg, hbal⟩

/-! ## Samples -/

/-- A relay that takes an admission fee and charges for events. -/
def payingRelay : Relay where
  authority := (sampleRelay none).authority
  payToRelay := ⟨true, 1000, 10, true, false, none⟩
  engine := .inOrder 999

/-- The key that pays. -/
def ada : String := Signed.registerAda.pubkey

/-- So many steps of one thread, with the same inputs. -/
def steps (i n : Nat) (e : Env) : List Action := List.replicate n (.run i e)

/-- Ada pays for her admission. -/
def admission : List Action :=
  .spawn (.payment (.newAccount ada)) :: steps 0 4 (paidEnv "inv-1") ++
    .spawn (.payment (.invoicePaid "inv-1")) :: steps 1 4 (paidEnv "inv-1")

/-- Then she pays a second invoice, for which the database fails before the admission,
and writes an event. -/
def eventAfterCredit : List Action :=
  admission ++
    .spawn (.payment (.checkAccount ada)) :: steps 2 5 (paidEnv "inv-2") ++
    .spawn (.payment (.invoicePaid "inv-2")) :: steps 3 2 (paidEnv "inv-2") ++
    .run 3 { fails := true } :: .spawn (.event ada) :: steps 4 3 {}

/-- What an account looks like. -/
def bookOf (c : Configuration) (key : String) : Option (Bool × Sql.Cell × Nat × Nat) :=
  (c.shared.accounts.account? key).map fun a =>
    (a.isAdmitted, a.balance, c.shared.accounts.paidSum key, chargesTo c.trace key)

theorem bookOf_mem {c : Configuration} {key : String} {x : Bool × Sql.Cell × Nat × Nat}
    (h : bookOf c key = some x) : ∃ a ∈ c.shared.accounts.accounts, a.pubkey = key ∧
      x = (a.isAdmitted, a.balance, c.shared.accounts.paidSum key, chargesTo c.trace key) := by
  obtain ⟨a, ha, rfl⟩ := Option.map_eq_some_iff.mp h
  exact ⟨a, (Ledger.mem_of_account? ha).1, (Ledger.mem_of_account? ha).2, rfl⟩

theorem eventAfterCredit_book :
    bookOf (payingRelay.run 0 eventAfterCredit) ada = some (true, .int 990, 2000, 1) := by
  decide +kernel

theorem balance_conserved_ada :
    Machine.Along payingRelay.system.step (fun c a => PaidTraffic c a ∧ KeepsBooks c a)
      (System.init (Shared.start 0)) eventAfterCredit ∧
    ∃ a ∈ (payingRelay.run 0 eventAfterCredit).shared.accounts.accounts, a.pubkey = ada ∧
      a.balance = .int 990 ∧ (990 : Int) =
        (payingRelay.run 0 eventAfterCredit).shared.accounts.paidSum ada -
        fee payingRelay.payToRelay a - (payingRelay.payToRelay.costPerEvent *
          chargesTo (payingRelay.run 0 eventAfterCredit).trace ada : Nat) := by
  have halong : Machine.Along payingRelay.system.step
      (fun c a => PaidTraffic c a ∧ KeepsBooks c a) (System.init (Shared.start 0))
      eventAfterCredit := by decide +kernel
  obtain ⟨a, ha, hkey, hbook⟩ := bookOf_mem eventAfterCredit_book
  obtain ⟨z, hz, -, hbal⟩ := balance_conserved payingRelay 0 eventAfterCredit halong a ha
  simp only [Prod.mk.injEq] at hbook
  cases hz.symm.trans hbook.2.1.symm
  rw [hkey] at hbal
  exact ⟨halong, a, ha, hkey, hz, hbal⟩

/-- The webhook of Ada's payment arrives a second time. -/
def replayedWebhook : List Action :=
  admission ++ .spawn (.payment (.invoicePaid "inv-1")) :: steps 2 4 (paidEnv "inv-1")

theorem replayedWebhook_book :
    bookOf (payingRelay.run 0 replayedWebhook) ada = some (true, .int (-1000), 1000, 0) := by
  decide +kernel

theorem replayed_webhook :
    Machine.Along payingRelay.system.step PaidTraffic (System.init (Shared.start 0))
      replayedWebhook ∧
    ¬∀ a ∈ (payingRelay.run 0 replayedWebhook).shared.accounts.accounts, ∃ z : Int,
      a.balance = .int z ∧ 0 ≤ z ∧
      z = (payingRelay.run 0 replayedWebhook).shared.accounts.paidSum a.pubkey -
        fee payingRelay.payToRelay a - (payingRelay.payToRelay.costPerEvent *
          chargesTo (payingRelay.run 0 replayedWebhook).trace a.pubkey : Nat) := by
  refine ⟨by decide +kernel, fun h => ?_⟩
  obtain ⟨a, ha, -, hbook⟩ := bookOf_mem replayedWebhook_book
  obtain ⟨z, hz, hnonneg, -⟩ := h a ha
  simp only [Prod.mk.injEq] at hbook
  cases hz.symm.trans hbook.2.1.symm
  exact absurd hnonneg (by decide)

end Floonet.Payment
