import Floonet.Relay

/-!
# What the tables remember

Rows of `account` and `invoice` are never deleted, and an invoice keeps its owner. So
what a task has once read of an invoice stays true whatever other tasks do
(`Remembered.lasting`), and an account that is about to be admitted owns an invoice that the
processor reported as paid (`Remembered.confirmed`).
-/

namespace Floonet.Payment

open NameAuthority Sqlite
open Process (Obeys System)

/-- The invoice with a payment hash is recorded for a key. -/
def InvoiceOf (l : Accounts) (hash key : String) : Prop :=
  ∃ inv, l.invoice? hash = some inv ∧ inv.pubkey = key

/-- The call on the repository, if it is one. -/
def repoCall : Op → Option RepoOp
  | .repo o => some o
  | _ => none

/-- There is room for a credit in an integer column. -/
def hasRoom (amount : Nat) : Sql.Cell → Bool
  | .int z => z + amount < 2 ^ 63
  | .real _ => false

/-- What the answer of a call says for good. -/
def Lasting (l : Accounts) : Call → Prop
  | ⟨.repo (.updateInvoice hash _), .ok pubkey⟩ => InvoiceOf l hash pubkey
  | ⟨.repo (.getUnpaidInvoice key), .ok (some info)⟩ => InvoiceOf l info.paymentHash key
  | ⟨.processor (.getInvoice _ amount), some info⟩ => info.amount = amount
  | _ => True

section Lasting

variable {eng : Sql.Engine} {s : Shared} {e : Env} {hash key : String}

theorem InvoiceOf.unique {l : Accounts} {key' : String} (h : InvoiceOf l hash key)
    (h' : InvoiceOf l hash key') : key = key' := by
  obtain ⟨inv, hinv, rfl⟩ := h
  obtain ⟨inv', hinv', rfl⟩ := h'
  rw [hinv] at hinv'
  cases hinv'
  rfl

theorem InvoiceOf.exec (h : InvoiceOf s.accounts hash key) (o : Op) :
    InvoiceOf (o.exec eng s e).1.accounts hash key := by
  obtain heq | ⟨r, -, -, hw⟩ := Op.writes_exec eng s e o
  · rwa [heq]
  · obtain ⟨inv, hinv, rfl⟩ := h
    obtain ⟨status, hafter, -⟩ := hw.invoice_mono hinv
    exact ⟨_, hafter, rfl⟩

theorem Lasting.exec {x : Call} (h : Lasting s.accounts x) (o : Op) :
    Lasting (o.exec eng s e).1.accounts x := by
  rcases x with ⟨_ | _ | _ | r | p | _ | _ | _, ans⟩
  case repo =>
    cases r with
    | updateInvoice hash status =>
      cases ans with
      | error err => trivial
      | ok pubkey => exact InvoiceOf.exec h o
    | getUnpaidInvoice key =>
      rcases ans with err | _ | info
      · trivial
      · trivial
      · exact InvoiceOf.exec h o
    | _ => trivial
  case processor =>
    cases p with
    | getInvoice key amount =>
      cases ans with
      | none => trivial
      | some info => exact h
    | checkInvoice hash => trivial
  all_goals trivial

/-- The answer of an operation holds right after it. -/
theorem lasting_answer (o : Op) :
    Lasting (o.exec eng s e).1.accounts ⟨o, (o.exec eng s e).2⟩ := by
  cases o with
  | repo r =>
    obtain ⟨-, -, hans⟩ | ⟨-, now, htab, hans⟩ := Op.exec_repo_cases eng s e r
    · rw [hans]
      cases r <;> trivial
    · rw [hans, htab]
      cases r with
      | updateInvoice hash status =>
        rcases hr : (s.accounts.exec eng now (.updateInvoice hash status)).2 with err | pubkey
        · trivial
        · obtain ⟨inv, -, hpub, hafter⟩ := Accounts.of_updateInvoice hr
          exact ⟨_, hafter, hpub⟩
      | getUnpaidInvoice key =>
        rcases hr : (s.accounts.exec eng now (.getUnpaidInvoice key)).2 with err | _ | info
        · trivial
        · trivial
        · obtain ⟨inv, hinv, hpub, -⟩ := Accounts.of_getUnpaidInvoice hr
          exact ⟨inv, hinv, hpub⟩
      | _ => trivial
  | processor p =>
    cases p with
    | getInvoice key amount =>
      rcases hinv : e.newInvoice with _ | inv
      · simp [Op.exec, ProcessorOp.answer, hinv, Lasting]
      · simp [Op.exec, ProcessorOp.answer, hinv, Lasting, NewInvoice.info]
    | checkInvoice hash => trivial
  | _ => trivial

end Lasting

/-! ## Along every run

What a task has been told about accounts and invoices stays true, because rows are never deleted.
The invariant keeps this for every answer in the memory of every task. -/

/-- The tables bear out every answer of the run, and accounts are filed under the text
of their key. -/
structure Remembered (rl : Relay) (c : Configuration) : Prop where
  lasting : ∀ m ∈ c.trace, Lasting c.shared.accounts m.call
  keyed : ∀ key, (c.shared.accounts.account? key).isSome →
    rl.authority.keys.fromPkStr key = some key

section Remembered

variable {rl : Relay} {c : Configuration} {i : Nat} {e : Env} {r : Request} {past : List Call}
  {o : Op} {k : o.Res → Task Answer}

theorem Remembered.init (clock : Nat) : Remembered rl (System.init (Shared.start clock)) where
  lasting := by
    intro m hm
    cases hm
  keyed := by
    intro key h
    cases h

theorem Remembered.spawn (h : Remembered rl c) : Remembered rl (rl.system.step c (.spawn r)) :=
  ⟨h.lasting, h.keyed⟩

/-- Accounts are created for parsed keys. -/
theorem createAccount_inv {key : String} (h : rl.Calls r past (createAccountOp key)) :
    rl.authority.keys.fromPkStr key = some key := by
  cases r with
  | register req =>
    cases h with
    | gate _ _ hkey hg =>
      cases hg
      exact rl.authority.keys.fromPkStr_idem hkey
  | unregister name req => cases h
  | payment m => exact h
  | event pk => exact absurd h id

theorem Remembered.fire (h : Remembered rl c) (hc : rl.Sound c)
    (hi : c.threads[i]? = some ⟨r, past, .call o k⟩) :
    Remembered rl (rl.system.fire c i e r past o k) where
  lasting := List.forall_mem_cons.mpr ⟨lasting_answer o, fun m hm => (h.lasting m hm).exec o⟩
  keyed := by
    intro key hkey
    obtain ⟨a, ha⟩ := Option.isSome_iff_exists.mp hkey
    obtain heq | ⟨op, rfl, -, hw⟩ := Op.writes_exec rl.engine c.shared e o
    · refine h.keyed key ?_
      rw [← heq]
      exact hkey
    · obtain hold | rfl := hw.account_inv ha
      · exact h.keyed key hold
      · exact createAccount_inv (Process.obeys_call.mp (hc.obeys hi)).1

/-- What a task remembers holds. -/
theorem Remembered.of_past (h : Remembered rl c) (hc : rl.Sound c) {t : Task.Thread}
    (hi : c.threads[i]? = some t) {x : Call} (hx : x ∈ t.past) : Lasting c.shared.accounts x := by
  obtain ⟨m, hm, -, -, rfl⟩ := hc.past hi x hx
  exact h.lasting m hm

/-- What comes before an admission. -/
theorem admit_inv {key : String} {cost : Nat} (h : rl.Calls r past (admitOp key cost)) :
    ∃ hash pk, (⟨checkOp hash, some .paid⟩ : Call) ∈ past ∧
      (⟨updateInvoiceOp hash .paid, .ok pk⟩ : Call) ∈ past ∧
      ((∃ info : InvoiceInfo, info.paymentHash = hash ∧
        (⟨unpaidOp key, .ok (some info)⟩ : Call) ∈ past) ∨
        rl.authority.keys.fromPkStr pk = some key) := by
  cases r with
  | register req =>
    cases h with
    | gate _ _ _ hg =>
      obtain ⟨rfl, -, inv, pk, rest, rfl, -⟩ := hg.grant_inv
      exact ⟨inv.paymentHash, pk, by simp, by simp, .inl ⟨inv, rfl, by simp⟩⟩
  | unregister name req => cases h
  | payment m => exact h.2
  | event pk => exact absurd h id

/-- An account that is about to be admitted owns an invoice that was reported as paid
and recorded so. -/
theorem Remembered.confirmed (h : Remembered rl c) (hc : rl.Sound c) {key : String} {cost : Nat}
    {k : (admitOp key cost).Res → Task Answer}
    (hi : c.threads[i]? = some ⟨r, past, .call (admitOp key cost) k⟩) :
    ∃ hash, InvoiceOf c.shared.accounts hash key ∧ (⟨checkOp hash, some .paid⟩ : Call) ∈ past ∧
      (⟨updateInvoiceOp hash .paid, .ok key⟩ : Call) ∈ past := by
  obtain ⟨hash, pk, hcheck, hupdate, howner⟩ :=
    admit_inv (Process.obeys_call.mp (hc.obeys hi)).1
  have hrec : InvoiceOf c.shared.accounts hash pk := h.of_past hc hi hupdate
  have hkey : pk = key := by
    obtain ⟨info, rfl, hunpaid⟩ | hparse := howner
    · exact hrec.unique (h.of_past hc hi hunpaid)
    · -- the owner's account is filed under its own text
      obtain ⟨inv, hinv, rfl⟩ := hrec
      have hacc := c.shared.accounts.invoice_fkey inv (Ledger.mem_of_invoice? hinv).1
      obtain ⟨a, ha, hak⟩ := List.mem_map.mp hacc
      have hsome : (c.shared.accounts.account? inv.pubkey).isSome := by
        rw [Ledger.account?_eq_some ha hak]
        rfl
      rw [h.keyed _ hsome] at hparse
      exact Option.some.inj hparse
  subst hkey
  exact ⟨hash, hrec, hcheck, hupdate⟩

end Remembered

end Floonet.Payment
