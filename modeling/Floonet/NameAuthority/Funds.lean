import Floonet.Payment.History
import Floonet.NameAuthority.Signed

/-!
# The paid gate and the balance behind it

A request that finds its invoice paid records that, which credits the price, and then
admits the key, which takes the price again. In between it is `pending`. As long as every
payment that is recorded is credited, the balance covers the price of every pending
request (`Funds`). So it is never negative, and the account can be read.
-/

namespace Floonet.NameAuthority

open Payment
open Sqlite (Accounts RepoOp)
open Process (Obeys System)

/-! ## The runs -/

/-- Requests to the name authority. -/
def asksForName : Request → Bool
  | .register _ => true
  | .unregister _ _ => true
  | _ => false

/-- Every new request is one for a name. -/
def NameTraffic : Action → Prop
  | .spawn r => asksForName r = true
  | .run _ _ => True

/-- A payment of the key is recorded while the invoice is unpaid, and there is room for the
credit. -/
def CreditStep (key : String) (l : Accounts) : RepoOp → Prop
  | .updateInvoice hash .paid => ∀ inv ∈ l.invoice? hash, inv.pubkey = key →
      inv.amount = 0 ∨ inv.status = .unpaid ∧
        ∀ a ∈ l.account? key, hasRoom inv.amount a.balance = true
  | _ => True

/-- The condition on a step; a call that fails credits nothing. -/
def Credited (key : String) (c : Configuration) : Action → Prop
  | .spawn _ => True
  | .run i e => e.fails = false → ∀ o ∈ (c.next i).bind repoCall, CreditStep key c.shared.accounts o

instance : (a : Action) → Decidable (NameTraffic a)
  | .spawn r => inferInstanceAs (Decidable (asksForName r = true))
  | .run _ _ => isTrue trivial

instance (key : String) (l : Accounts) : (o : RepoOp) → Decidable (CreditStep key l o)
  | .updateInvoice hash .paid => inferInstanceAs (Decidable (∀ inv ∈ l.invoice? hash, _))
  | .updateInvoice _ .unpaid => isTrue trivial
  | .updateInvoice _ .expired => isTrue trivial
  | .createAccount _ => isTrue trivial
  | .admitAccount _ _ => isTrue trivial
  | .getAccountBalance _ => isTrue trivial
  | .updateAccountBalance _ _ _ => isTrue trivial
  | .createInvoiceRecord _ _ => isTrue trivial
  | .getUnpaidInvoice _ => isTrue trivial

instance (key : String) (c : Configuration) : (a : Action) → Decidable (Credited key c a)
  | .spawn _ => isTrue trivial
  | .run i e => inferInstanceAs (Decidable (e.fails = false → ∀ o ∈ (c.next i).bind repoCall, _))

/-! ## Requests between credit and admission

The gate credits the price when it records the payment and takes it back when it admits the key. A
request between the two calls is pending. -/

/-- The call has recorded an invoice of the key as paid. -/
def recordsPaid (key : String) : Call → Bool
  | ⟨.repo (.updateInvoice _ .paid), .ok pubkey⟩ => pubkey == key
  | _ => false

/-- The task has recorded a payment of the key and is about to admit it. -/
def pending (key : String) (t : Task.Thread) : Bool := t.past.head?.any (recordsPaid key)

theorem recordsPaid_inv {key : String} {x : Call} (h : recordsPaid key x = true) :
    ∃ hash, x = ⟨updateInvoiceOp hash .paid, .ok key⟩ := by
  rcases x with ⟨_ | _ | _ | o | _ | _ | _ | _, ans⟩
  case repo =>
    cases o with
    | updateInvoice hash status =>
      cases status with
      | paid =>
        cases ans with
        | error err => cases h
        | ok pubkey =>
          obtain rfl : pubkey = key := by simpa [recordsPaid] using h
          exact ⟨hash, rfl⟩
      | _ => cases h
    | _ => cases h
  all_goals cases h

/-- A pending thread has just recorded the payment. -/
theorem pending_inv {key : String} {t : Task.Thread} (h : pending key t = true) :
    ∃ hash rest, t.past = ⟨updateInvoiceOp hash .paid, .ok key⟩ :: rest := by
  rw [pending] at h
  rcases hp : t.past with _ | ⟨x, rest⟩
  · rw [hp] at h
    cases h
  · rw [hp] at h
    obtain ⟨hash, rfl⟩ := recordsPaid_inv h
    exact ⟨hash, rest, rfl⟩

/-! ## Balances

A balance covers an amount when it is at least that much. Charges, credits and new accounts change
what is covered by what they take or give. -/

/-- The account of the key, if there is one, has at least `n`. -/
def Covered (l : Accounts) (key : String) (n : Nat) : Prop :=
  ∀ a ∈ l.account? key, ∃ z : Int, a.balance = .int z ∧ (n : Int) ≤ z ∧ z < 2 ^ 63

section Covered

variable {l : Accounts} {key : String} {m n : Nat}

theorem Covered.mono (h : Covered l key n) (hle : m ≤ n) : Covered l key m := by
  intro a ha
  obtain ⟨z, hz, hnz, hlt⟩ := h a ha
  exact ⟨z, hz, by omega, hlt⟩

theorem Covered.addAccount {k : String} (h : Covered l key n) (hnew : l.account? k = none)
    (hzero : k = key → n = 0) : Covered (l.addAccount k (.int 0) hnew) key n := by
  intro a ha
  rw [Option.mem_def, Ledger.account?_addAccount] at ha
  split_ifs at ha with hk
  · cases ha
    exact ⟨0, rfl, by have := hzero hk.symm; omega, by norm_num⟩
  · exact h a ha

/-- The accounts of others do not matter. -/
theorem Covered.of_ne {k : String} {grant : Bool} {f : Sql.Cell → Sql.Cell} (h : Covered l key n)
    (hk : key ≠ k) : Covered (l.adjust k grant f) key n := by
  intro a ha
  rw [Option.mem_def, Ledger.account?_adjust_of_ne hk] at ha
  exact h a ha

/-- A charge takes from what is covered. -/
theorem Covered.grant {cost : Nat} (h : Covered l key (n + cost)) :
    Covered (l.adjust key true fun b => b.add (-(cost : Int))) key n := by
  intro a' ha'
  rw [Option.mem_def, Ledger.account?_adjust] at ha'
  obtain ⟨a, ha, rfl⟩ := Option.map_eq_some_iff.mp ha'
  obtain ⟨z, hz, hnz, hlt⟩ := h a ha
  refine ⟨z - cost, ?_, by omega, by omega⟩
  rw [Ledger.adjustRow, if_pos (Ledger.mem_of_account? ha).2, hz]
  exact Sql.Cell.add_int ⟨by omega, by omega⟩

/-- A credit adds to what is covered. -/
theorem Covered.credit {amount : Nat} (h : Covered l key n)
    (hroom : amount = 0 ∨ ∀ a ∈ l.account? key, hasRoom amount a.balance = true) :
    Covered (l.adjust key false fun b => b.add (amount : Int)) key (n + amount) := by
  intro a' ha'
  rw [Option.mem_def, Ledger.account?_adjust] at ha'
  obtain ⟨a, ha, rfl⟩ := Option.map_eq_some_iff.mp ha'
  obtain ⟨z, hz, hnz, hlt⟩ := h a ha
  have hfits : z + amount < 2 ^ 63 := by
    rcases hroom with h0 | hroom
    · omega
    · have hr := hroom a ha
      rw [hz] at hr
      simpa [hasRoom] using hr
  refine ⟨z + amount, ?_, by omega, hfits⟩
  rw [Ledger.adjustRow, if_pos (Ledger.mem_of_account? ha).2, hz]
  exact Sql.Cell.add_int ⟨by omega, hfits⟩

/-- The balance can be read. -/
theorem Covered.read (h : Covered l key n) (hadm : l.Admitted key) :
    ∃ b, l.getAccountBalance key = .ok (true, b) := by
  obtain ⟨a, ha, hadm⟩ := hadm
  obtain ⟨z, hz, hnz, -⟩ := h a ha
  refine ⟨z.toNat, ?_⟩
  simp only [Accounts.getAccountBalance, ha, hz, Sql.Cell.toU64_int (by omega : 0 ≤ z), hadm]

end Covered

/-! ## The invariant

The balance of a key covers the price of each of its pending requests. A credit comes with a new
pending request, a charge with one less, and no other call of the name authority touches the
balance. -/

/-- Each pending request of the key is covered by the balance. -/
structure Funds (rl : Relay) (paid : PaidNames) (key : String) (c : Configuration) : Prop where
  kept : Remembered rl c
  requests : ∀ t ∈ c.threads, asksForName t.request = true
  amounts : ∀ hash inv, c.shared.accounts.invoice? hash = some inv → inv.amount = paid.priceNanogrin
  covered : Covered c.shared.accounts key (paid.priceNanogrin * c.threads.countP (pending key))

section Invariant

variable {rl : Relay} {paid : PaidNames} {key : String} {c : Configuration} {i : Nat} {e : Env}
  {r : Request} {past : List Call} {o : Op} {k : o.Res → Task Answer}

/-- Repository calls of the name authority come from the paid gate. -/
theorem repo_inv (hr : asksForName r = true) {op : RepoOp} (h : rl.Calls r past (.repo op)) :
    ∃ paid key base, rl.authority.paid = some paid ∧ GateCall paid key base past (.repo op) := by
  cases r with
  | register req =>
    cases h with
    | gate _ hpaid _ hg => exact ⟨_, _, _, hpaid, hg⟩
  | unregister name req => cases h
  | payment m => cases hr
  | event pk => cases hr

/-- A key with a pending request has an account. -/
theorem Funds.no_pending (h : Funds rl paid key c) (hc : rl.Sound c)
    (hnew : c.shared.accounts.account? key = none) : c.threads.countP (pending key) = 0 := by
  rw [List.countP_eq_zero]
  intro t ht hp
  obtain ⟨i, hi⟩ := List.getElem?_of_mem ht
  obtain ⟨hash, rest, hpast⟩ := pending_inv hp
  obtain ⟨inv, hinv, hkey⟩ := h.kept.of_past hc hi (hpast ▸ List.mem_cons_self ..)
  have hacc := c.shared.accounts.invoice_fkey inv (Ledger.mem_of_invoice? hinv).1
  obtain ⟨a, ha, hak⟩ := List.mem_map.mp hacc
  rw [Ledger.account?_eq_some ha (hak.trans hkey)] at hnew
  cases hnew

/-- A step after which the task is not pending, and which takes nothing from the key. -/
theorem Funds.covered_of_quiet (h : Funds rl paid key c)
    (hi : c.threads[i]? = some ⟨r, past, .call o k⟩)
    (hquiet : recordsPaid key ⟨o, (rl.system.exec c.shared e o).2⟩ = false)
    (hkeep : ∀ n, Covered c.shared.accounts key n →
      (n = paid.priceNanogrin * c.threads.countP (pending key)) →
      Covered (rl.system.exec c.shared e o).1.accounts key n) :
    Covered (rl.system.fire c i e r past o k).shared.accounts key
      (paid.priceNanogrin * (rl.system.fire c i e r past o k).threads.countP (pending key)) := by
  have hcount := System.countP_fire rl.system e (pending key) hi
  have hnew : pending key (rl.system.fired c.shared e r past o k) = false := hquiet
  rw [hnew] at hcount
  refine (hkeep _ h.covered rfl).mono (Nat.mul_le_mul_left _ ?_)
  simp only [Bool.false_eq_true, if_false] at hcount
  omega

/-- A step that leaves the price of one more pending request. -/
theorem Funds.covered_of_credit (hi : c.threads[i]? = some ⟨r, past, .call o k⟩)
    (hcredit : Covered (rl.system.exec c.shared e o).1.accounts key
      (paid.priceNanogrin * c.threads.countP (pending key) + paid.priceNanogrin)) :
    Covered (rl.system.fire c i e r past o k).shared.accounts key
      (paid.priceNanogrin * (rl.system.fire c i e r past o k).threads.countP (pending key)) := by
  have hcount := System.countP_fire rl.system e (pending key) hi
  have hle : (rl.system.fire c i e r past o k).threads.countP (pending key) ≤
      c.threads.countP (pending key) + 1 := by
    split_ifs at hcount <;> omega
  exact hcredit.mono (Nat.mul_le_mul_left _ hle)

/-- An invoice of the name authority is recorded as paid or expired. -/
theorem Funds.covered_update (h : Funds rl paid key c) {hash : String} {status : InvoiceStatus}
    {k : (updateInvoiceOp hash status).Res → Task Answer} (hf : e.fails = false)
    (hC : CreditStep key c.shared.accounts (.updateInvoice hash status))
    (hi : c.threads[i]? = some ⟨r, past, .call (updateInvoiceOp hash status) k⟩) :
    Covered (rl.system.fire c i e r past (updateInvoiceOp hash status) k).shared.accounts key
      (paid.priceNanogrin *
        (rl.system.fire c i e r past (updateInvoiceOp hash status) k).threads.countP
          (pending key)) := by
  have hexec : rl.system.exec c.shared e (updateInvoiceOp hash status) =
      ({ c.shared.tick e with accounts := (c.shared.accounts.updateInvoice hash status).1 },
        (c.shared.accounts.updateInvoice hash status).2) := Op.exec_repo hf
  obtain ⟨err, heq⟩ | ⟨inv, hinv, hcases⟩ :=
    Accounts.updateInvoice_cases c.shared.accounts hash status
  · rw [heq] at hexec
    refine h.covered_of_quiet hi ?_ ?_
    · rw [hexec]
      cases status <;> rfl
    · rw [hexec]
      exact fun n hn _ => hn
  · have hprice := h.amounts hash inv hinv
    obtain ⟨hunpaid, rfl, heq⟩ | ⟨hne, heq⟩ := hcases
    · rw [heq] at hexec
      by_cases hk : inv.pubkey = key
      · refine covered_of_credit hi ?_
        rw [hexec, hk]
        have hroom : inv.amount = 0 ∨ ∀ a ∈ c.shared.accounts.account? key,
            hasRoom inv.amount a.balance = true := (hC inv hinv hk).imp id And.right
        have hcov : Covered (c.shared.accounts.setStatus hash .paid) key _ := h.covered
        exact hprice ▸ hcov.credit hroom
      · refine h.covered_of_quiet hi ?_ ?_
        · rw [hexec]
          simpa [recordsPaid] using hk
        · rw [hexec]
          intro n hn _
          exact Covered.of_ne (l := c.shared.accounts.setStatus hash .paid) hn (Ne.symm hk)
    · rw [heq] at hexec
      by_cases hk : status = .paid ∧ inv.pubkey = key
      · -- nothing was credited; then the price is zero
        obtain ⟨rfl, hk⟩ := hk
        have h0 : paid.priceNanogrin = 0 := by
          rw [← hprice]
          exact (hC inv hinv hk).resolve_right fun hu => hne ⟨hu.1, rfl⟩
        refine covered_of_credit hi ?_
        rw [hexec, h0]
        exact h.covered.mono (by omega)
      · refine h.covered_of_quiet hi ?_ ?_
        · rw [hexec]
          cases status with
          | paid => simpa [recordsPaid] using hk
          | unpaid => rfl
          | expired => rfl
        · rw [hexec]
          exact fun n hn _ => hn

/-- Who is about to admit a key has just recorded its payment. -/
theorem pending_of_grant (hkept : Remembered rl c) (hc : rl.Sound c) (hr : asksForName r = true)
    (hpaid : rl.authority.paid = some paid) {cost : Nat} {k : (admitOp key cost).Res → Task Answer}
    (hi : c.threads[i]? = some ⟨r, past, .call (admitOp key cost) k⟩) :
    cost = paid.priceNanogrin ∧ pending key ⟨r, past, .call (admitOp key cost) k⟩ = true := by
  obtain ⟨paid', key', base, hp, hg⟩ := repo_inv hr (Process.obeys_call.mp (hc.obeys hi)).1
  obtain rfl : paid' = paid := Option.some.inj (hp.symm.trans hpaid)
  obtain ⟨rfl, rfl, inv, pk, rest, hpast, -⟩ := hg.grant_inv
  obtain rfl : past = _ := hpast
  have hrec : InvoiceOf c.shared.accounts inv.paymentHash pk :=
    hkept.of_past hc hi (List.mem_cons_self ..)
  have hunpaid : InvoiceOf c.shared.accounts inv.paymentHash key :=
    hkept.of_past hc hi (List.mem_cons_of_mem _ (List.mem_cons_of_mem _ (List.mem_cons_self ..)))
  obtain rfl := hrec.unique hunpaid
  exact ⟨rfl, by simp [pending, recordsPaid]⟩

/-- The key is admitted, or another one. -/
theorem Funds.covered_grant (h : Funds rl paid key c) (hc : rl.Sound c)
    (hpaid : rl.authority.paid = some paid) {key' : String} {cost : Nat}
    {k : (admitOp key' cost).Res → Task Answer} (hf : e.fails = false)
    (hi : c.threads[i]? = some ⟨r, past, .call (admitOp key' cost) k⟩) :
    Covered (rl.system.fire c i e r past (admitOp key' cost) k).shared.accounts key
      (paid.priceNanogrin *
        (rl.system.fire c i e r past (admitOp key' cost) k).threads.countP (pending key)) := by
  have hexec : rl.system.exec c.shared e (admitOp key' cost) =
      ({ c.shared.tick e with accounts := (c.shared.accounts.admitAccount key' cost).1 },
        (c.shared.accounts.admitAccount key' cost).2) := Op.exec_repo hf
  by_cases hk : key' = key
  · subst hk
    -- the admission is the one this task has credited for
    obtain ⟨rfl, hold⟩ :=
      pending_of_grant h.kept hc (h.requests _ (List.mem_of_getElem? hi)) hpaid hi
    have hcount := System.countP_fire rl.system e (pending key') hi
    have hnew : pending key' (rl.system.fired c.shared e r past
        (admitOp key' paid.priceNanogrin) k) = false := rfl
    rw [hold, hnew] at hcount
    have hcov := h.covered
    simp only [if_true, Bool.false_eq_true, if_false, Nat.add_zero] at hcount
    rw [← hcount, Nat.mul_succ] at hcov
    change Covered (rl.system.exec c.shared e _).1.accounts _ _
    rw [hexec, Accounts.admitAccount]
    split_ifs with hfit
    · exact hcov.grant
    · -- a price that was credited fits
      intro a ha
      obtain ⟨z, -, hle, hlt⟩ := hcov a ha
      refine absurd ?_ hfit
      rw [fitsI64, decide_eq_true_eq]
      omega
  · refine h.covered_of_quiet hi rfl ?_
    rw [hexec, Accounts.admitAccount]
    intro n hn _
    split_ifs
    · exact hn.of_ne (Ne.symm hk)
    · exact hn

theorem Funds.amounts_fire (h : Funds rl paid key c) (hc : rl.Sound c)
    (hpaid : rl.authority.paid = some paid) (hi : c.threads[i]? = some ⟨r, past, .call o k⟩)
    (hash : String) (inv : Invoice)
    (hinv : (rl.system.exec c.shared e o).1.accounts.invoice? hash = some inv) :
    inv.amount = paid.priceNanogrin := by
  obtain heq | ⟨op, rfl, -, hw⟩ := Op.writes_exec rl.engine c.shared e o
  · exact h.amounts hash inv (heq ▸ hinv)
  · obtain ⟨status, hold, -⟩ | ⟨info, rfl, -, hamount, -⟩ := hw.invoice_inv hinv
    · have hamount := h.amounts hash _ hold
      exact hamount
    · obtain ⟨paid', key', base, hp, hg⟩ :=
        repo_inv (h.requests _ (List.mem_of_getElem? hi)) (Process.obeys_call.mp (hc.obeys hi)).1
      obtain rfl : paid' = paid := Option.some.inj (hp.symm.trans hpaid)
      cases hg with
      | record hget => exact hamount.trans (h.kept.of_past hc hi (List.mem_cons_self ..))

/-- The payments that are pending stay covered. -/
theorem Funds.covered_fire (h : Funds rl paid key c) (hc : rl.Sound c)
    (hpaid : rl.authority.paid = some paid) (hC : Credited key c (.run i e))
    (hi : c.threads[i]? = some ⟨r, past, .call o k⟩) :
    Covered (rl.system.fire c i e r past o k).shared.accounts key
      (paid.priceNanogrin * (rl.system.fire c i e r past o k).threads.countP (pending key)) := by
  cases o with
  | repo op =>
    obtain ⟨hf, htab, hans⟩ | ⟨hf, now, htab, hans⟩ :=
      Op.exec_repo_cases rl.engine c.shared e op
    · refine h.covered_of_quiet hi ?_ ?_
      · change recordsPaid key ⟨.repo op, (Op.exec rl.engine c.shared e (.repo op)).2⟩ = false
        rw [hans]
        cases op with
        | updateInvoice hash status => cases status <;> rfl
        | _ => rfl
      · intro n hn _
        change Covered (Op.exec rl.engine c.shared e (.repo op)).1.accounts key n
        rw [htab]
        exact hn
    · have htables : (rl.system.exec c.shared e (.repo op)).1.accounts =
          (c.shared.accounts.exec rl.engine now op).1 := htab
      cases op with
      | updateInvoice hash status =>
        refine h.covered_update hf ?_ hi
        exact hC hf _ (by rw [Process.Config.next_of_getElem? hi]; rfl)
      | admitAccount key' cost => exact h.covered_grant hc hpaid hf hi
      | createAccount key' =>
        refine h.covered_of_quiet hi rfl ?_
        rw [htables]
        intro n hn hcount
        simp only [Accounts.exec, Accounts.createAccount]
        split_ifs with hnew
        · refine hn.addAccount hnew ?_
          rintro rfl
          rw [hcount, h.no_pending hc hnew, Nat.mul_zero]
        · exact hn
      | createInvoiceRecord key' info =>
        refine h.covered_of_quiet hi rfl ?_
        rw [htables]
        intro n hn _
        simp only [Accounts.exec, Accounts.createInvoiceRecord]
        split_ifs
        · exact hn
        · exact hn
        · exact hn
        · exact hn
      | updateAccountBalance key' positive n =>
        obtain ⟨_, _, _, -, hg⟩ :=
          repo_inv (h.requests _ (List.mem_of_getElem? hi)) (Process.obeys_call.mp (hc.obeys hi)).1
        cases hg
      | getAccountBalance key' =>
        refine h.covered_of_quiet hi rfl ?_
        rw [htables]
        exact fun n hn _ => hn
      | getUnpaidInvoice key' =>
        refine h.covered_of_quiet hi rfl ?_
        rw [htables]
        exact fun n hn _ => hn
  | _ => exact h.covered_of_quiet hi rfl fun n hn _ => hn

theorem Funds.fire (h : Funds rl paid key c) (hc : rl.Sound c)
    (hpaid : rl.authority.paid = some paid) (hC : Credited key c (.run i e))
    (hi : c.threads[i]? = some ⟨r, past, .call o k⟩) :
    Funds rl paid key (rl.system.fire c i e r past o k) where
  kept := h.kept.fire hc hi
  requests := by
    intro t ht
    obtain rfl | ht := System.mem_fire ht
    · exact h.requests ⟨r, past, .call o k⟩ (List.mem_of_getElem? hi)
    · exact h.requests t ht
  amounts := h.amounts_fire hc hpaid hi
  covered := h.covered_fire hc hpaid hC hi

theorem Funds.init (clock : Nat) : Funds rl paid key (System.init (Shared.start clock)) where
  kept := .init clock
  requests := fun t h => (by cases h)
  amounts := fun hash inv h => (by cases h)
  covered := fun a h => (by cases h)

/-- A new request has not paid yet. -/
theorem Funds.spawn (h : Funds rl paid key c) (hr : asksForName r = true) :
    Funds rl paid key (rl.system.step c (.spawn r)) where
  kept := h.kept.spawn
  requests := by
    intro t ht
    obtain rfl | ht := System.mem_spawn ht
    · exact hr
    · exact h.requests t ht
  amounts := h.amounts
  covered := by
    change Covered _ _
      (_ * (c.threads ++ [(⟨r, [], rl.system.program r⟩ : Task.Thread)]).countP (pending key))
    rw [List.countP_append]
    exact h.covered

end Invariant

end Floonet.NameAuthority
