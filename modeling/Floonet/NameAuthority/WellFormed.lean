import Floonet.NameAuthority.Reserved
import Floonet.NameAuthority.Ownership

/-!
# Claimed names are well formed and look like no reserved term

Every row of the claims store, active or released, was written by the insert of a register
request that had its name and its key checked before. A release and a revival keep the name of a
row, and a revival gives it a key that was checked as well.
-/

namespace Floonet.NameAuthority

open Process (Obeys System)

/-! ## The rules -/

/-- Length and characters of a name. -/
structure WellFormedName (name : String) (nameMin nameMax : Nat) : Prop where
  length : nameMin ≤ name.toList.length ∧ name.toList.length ≤ nameMax
  chars : ∀ c ∈ name.toList, isAlnum c = true ∨ c ∈ separators
  first : ∃ c, name.toList.head? = some c ∧ isAlnum c = true
  last : ∃ c, name.toList.getLast? = some c ∧ isAlnum c = true

/-- The check of a name, said of its letters. -/
theorem validName_iff {name : String} {nameMin nameMax : Nat} :
    validName name nameMin nameMax = true ↔ WellFormedName name nameMin nameMax := by
  have hchar : ∀ c, okChar c = true ↔ isAlnum c = true ∨ c ∈ separators := by
    intro c
    simp only [okChar, separators, Bool.or_eq_true, beq_iff_eq, List.mem_cons, List.not_mem_nil,
      or_false, or_assoc]
  rw [validName]
  split_ifs with hlen hall
  · simp only [Bool.not_eq_true', Bool.and_eq_false_iff, decide_eq_false_iff_not] at hlen
    exact iff_of_false id fun h => hlen.elim (· h.length.1) (· h.length.2)
  · simp only [Bool.not_eq_true', ← Bool.not_eq_true, List.all_eq_true] at hall
    exact iff_of_false id fun h => hall fun c hc => (hchar c).mpr (h.chars c hc)
  · simp only [Bool.not_eq_true', Bool.not_eq_false, Bool.and_eq_true, decide_eq_true_eq,
      List.all_eq_true] at hlen hall
    have hends : WellFormedName name nameMin nameMax ↔
        (∃ c, name.toList.head? = some c ∧ isAlnum c = true) ∧
          ∃ c, name.toList.getLast? = some c ∧ isAlnum c = true :=
      ⟨fun h => ⟨h.first, h.last⟩,
        fun h => ⟨hlen, fun c hc => (hchar c).mp (hall c hc), h.1, h.2⟩⟩
    rw [hends]
    rcases name.toList.head? with _ | first <;> rcases name.toList.getLast? with _ | last <;> simp

/-- 64 lower-case hex characters. -/
def LowerHex64 (pk : String) : Prop :=
  pk.toList.length = 64 ∧ ∀ c ∈ pk.toList, Hex.isLowerDigit c = true

/-- A valid key is 64 lower-case digits. -/
theorem lowerHex64_of_validPubkeyHex {pk : String} (h : validPubkeyHex pk = true) :
    LowerHex64 pk := by
  have hvalid := h
  rw [validPubkeyHex, Bool.and_eq_true, beq_iff_eq, List.all_eq_true] at hvalid
  obtain ⟨hlen, hall⟩ := hvalid
  refine ⟨?_, isLowerDigit_of_validPubkeyHex h⟩
  rw [← byteLen_of_isHex, hlen]
  exact List.all_eq_true.mpr fun c hc => (Bool.and_eq_true _ _ ▸ hall c hc).1

/-! ## Where rows come from

Rows of the table keep their name and key, so each of them was written by an insert, and the
request that inserts has had both checked. -/

/-- A row after a claim was there before, with its name and key, or the claim wrote it. -/
theorem NameClaims.mem_insert {t : NameClaims} {name pubkey : String} {now : Nat} {row : Claim} :
    row ∈ (t.insert name pubkey now).1.rows →
    (∃ old ∈ t.rows, old.name = row.name ∧ old.pubkey = row.pubkey) ∨
      (row.name = name ∧ row.pubkey = pubkey ∧ (t.insert name pubkey now).2 = .ok 1) := by
  rw [insert]
  split
  · split_ifs with hidx
    · intro h
      rcases List.mem_append.mp h with h | h
      · exact .inl ⟨row, h, rfl, rfl⟩
      · rw [List.mem_singleton.mp h]
        exact .inr ⟨rfl, rfl, rfl⟩
    · exact fun h => .inl ⟨row, h, rfl, rfl⟩
  · rename_i found hfound
    split_ifs with hrel hidx
    · intro h
      obtain ⟨old, hold, rfl⟩ := List.mem_map.mp h
      split_ifs
      · have hname : found.name = name := name_of_row hfound
        exact .inr ⟨hname, rfl, rfl⟩
      · exact .inl ⟨old, hold, rfl, rfl⟩
    · exact fun h => .inl ⟨row, h, rfl, rfl⟩
    · exact fun h => .inl ⟨row, h, rfl, rfl⟩

/-- The same for any operation. -/
theorem mem_rows_exec {eng : Sql.Engine} {s : Shared} {e : Env} {o : Op} {row : Claim}
    (h : row ∈ (o.exec eng s e).1.claims.rows) :
    (∃ old ∈ s.claims.rows, old.name = row.name ∧ old.pubkey = row.pubkey) ∨
      (⟨o, (o.exec eng s e).2⟩ : Call) = ⟨insertOp row.name row.pubkey, .ok 1⟩ := by
  cases o with
  | claims c =>
    cases c with
    | lookup name => exact .inl ⟨row, h, rfl, rfl⟩
    | nameOf pk => exact .inl ⟨row, h, rfl, rfl⟩
    | release name =>
      simp only [Op.exec, ClaimOp.exec] at h
      split_ifs at h
      · exact .inl ⟨row, h, rfl, rfl⟩
      · obtain ⟨old, hold, rfl⟩ := List.mem_map.mp h
        exact .inl ⟨old, hold, (NameClaims.name_releaseRow old).symm,
          (NameClaims.pubkey_releaseRow old).symm⟩
    | insert name pk =>
      simp only [Op.exec, ClaimOp.exec] at h ⊢
      split_ifs at h ⊢
      · exact .inl ⟨row, h, rfl, rfl⟩
      · obtain hold | ⟨rfl, rfl, hok⟩ := NameClaims.mem_insert h
        · exact .inl hold
        · exact .inr (by rw [hok])
  | _ =>
    rw [Op.exec_claims (fun c hc => by cases hc)] at h
    exact .inl ⟨row, h, rfl, rfl⟩

/-- A request that inserts has had the name and the key checked. -/
theorem RegisterCall.insert_checked {a : Authority} {req : HttpRequest} {past : List Call}
    {name pk : String} (h : RegisterCall a req past (insertOp name pk)) :
    validPubkeyHex pk = true ∧ validName name a.cfg.nameMin a.cfg.nameMax = true ∧
      isReserved name a.extraReserved = false := by
  have hbefore : ∀ {rest}, RegisterCall a req (⟨lookupOp name, none⟩ :: rest) (nameOfOp pk) →
      validName name a.cfg.nameMin a.cfg.nameMax = true ∧
        isReserved name a.extraReserved = false := by
    intro rest hn
    obtain ⟨name', rest', heq, hl, -⟩ := hn.nameOf_inv
    cases heq
    obtain ⟨-, -, -, -, -, -, hname, hres⟩ := hl.lookup_inv
    exact ⟨hname, hres⟩
  refine ⟨h.insert_inv.2.2.1, ?_⟩
  cases h with
  | gate _ _ _ hg => exact absurd hg.inGate (by simp [Op.inGate])
  | insertFree hn _ => exact hbefore hn
  | insertPaid hn _ _ _ => exact hbefore hn

/-! ## Whole runs -/

/-- The operation wrote this row, for a register request whose auth event carries the key of the
row. -/
def Wrote (rl : Relay) (m : Move) (row : Claim) : Prop :=
  m.call = ⟨insertOp row.name row.pubkey, .ok 1⟩ ∧
    ∃ req event, m.request = .register req ∧
      rl.authority.nip98.authEvent req.authorization = .ok event ∧ event.pubkey = row.pubkey

/-- What was checked of a row before it was written. -/
structure Checked (rl : Relay) (trace : List Move) (row : Claim) : Prop where
  pubkey : validPubkeyHex row.pubkey = true
  name : validName row.name rl.authority.cfg.nameMin rl.authority.cfg.nameMax = true
  free : isReserved row.name rl.authority.extraReserved = false
  wrote : ∃ m ∈ trace, Wrote rl m row

/-- All rows were checked. -/
def AllChecked (rl : Relay) (c : Configuration) : Prop :=
  ∀ row ∈ c.shared.claims.rows, Checked rl c.trace row

theorem checked_step {rl : Relay} {c : Configuration} {i : Nat} {e : Env} {r : Request}
    {past : List Call} {o : Op} {k : o.Res → Task Answer} (hc : rl.Sound c)
    (h : AllChecked rl c) (hi : c.threads[i]? = some ⟨r, past, .call o k⟩) :
    AllChecked rl (rl.system.fire c i e r past o k) := by
  intro row hrow
  obtain ⟨old, hold, hname, hpubkey⟩ | hcall := mem_rows_exec hrow
  · -- the name and the key of an old row
    have hchecked := h old hold
    obtain ⟨m, hm, hwrote⟩ := hchecked.wrote
    refine ⟨hpubkey ▸ hchecked.pubkey, hname ▸ hchecked.name, hname ▸ hchecked.free, m,
      List.mem_cons_of_mem _ hm, ?_⟩
    rw [Wrote, ← hname, ← hpubkey]
    exact hwrote
  · obtain rfl := congrArg Process.Call.op hcall
    obtain ⟨req, rfl, hreg⟩ := rl.insert_inv (Process.obeys_call.mp (hc.obeys hi)).1
    obtain ⟨hhex, hvalid, hfree⟩ := hreg.insert_checked
    refine ⟨hhex, hvalid, hfree, _, List.mem_cons_self .., hcall, req, ?_⟩
    have hsigner := hreg.insert_inv.1
    rw [HttpRequest.signer, Nip98.signer] at hsigner
    rcases hevent : rl.authority.nip98.authEvent req.authorization with msg | event <;>
      rw [hevent] at hsigner
    · cases hsigner
    · exact ⟨event, rfl, rfl, Option.some.inj hsigner⟩

/-- Every row of a reachable store was checked. -/
theorem checked_run (rl : Relay) (clock : Nat) (acts : List Action) :
    AllChecked rl (rl.run clock acts) := by
  refine (System.invariant (P := AllChecked rl) rl.obeys ?_ ?_ ?_ acts).2
  · intro row hrow
    cases hrow
  · exact fun c r _ h => h
  · exact fun c i e r past o k hc h hi => checked_step hc h hi

/-- What the operator configures. -/
structure Deployment where
  cm : CaseMap
  cfg : Config
  reservedFile : Option String
  paid : Option PaidNames
  nip98 : Nip98
  registerBody : Hex.Bytes → Option (String × String)
  keys : Keys
  payToRelay : Payment.PayToRelay
  engine : Sql.Engine

/-- The relay of a configuration. -/
def Deployment.relay (d : Deployment) : Relay where
  authority := .new d.cm d.cfg d.reservedFile d.paid d.nip98 d.registerBody d.keys
  payToRelay := d.payToRelay
  engine := d.engine

/-- **Claimed names are well formed and no look-alikes.** Whatever the interleaving, every row
has a well-formed name, a key that is the one of the auth event of the request that wrote the
row, and a name that no edits turn into a reserved term. -/
theorem claimed_names (d : Deployment) (clock : Nat) (acts : List Action) :
    ∀ row ∈ (d.relay.run clock acts).shared.claims.rows,
      WellFormedName row.name d.cfg.nameMin d.cfg.nameMax ∧
      LowerHex64 row.pubkey ∧
      (∃ m ∈ (d.relay.run clock acts).trace, Wrote d.relay m row) ∧
      ∀ r, Term d.cm d.cfg.domain d.reservedFile r → ¬ LookAlike row.name r := by
  intro row hrow
  have hchecked := checked_run d.relay clock acts row hrow
  exact ⟨validName_iff.mp hchecked.name, lowerHex64_of_validPubkeyHex hchecked.pubkey,
    hchecked.wrote, fun r hr => not_lookAlike_of_not_reserved hchecked.free hr⟩

/-- The sample relay as it is configured, with a reserved file. -/
def sampleDeployment : Deployment where
  cm := .basic
  cfg := sampleConfig
  reservedFile := some "Acme"
  paid := none
  nip98 := Signed.lib Signed.samples
  registerBody := Signed.registerBody Signed.samples
  keys := sampleKeys
  payToRelay := ⟨false, 0, 0, false, false, none⟩
  engine := .inOrder 999

/-- Ada registers her name. -/
def registersAda : List (Process.Act Arrival Env) := .spawn .ada :: Arrival.runs 0 7

theorem run_registersAda (clock : Nat) :
    sampleDeployment.relay.run clock (registersAda.map (Process.Act.rename Arrival.request)) =
      (Process.System.run ⟨Arrival.code sampleDeployment.relay.authority,
        Op.exec sampleDeployment.relay.engine⟩ (Shared.start clock) registersAda).rename
          Arrival.request := by
  refine Process.System.run_rename Arrival.request (Arrival.code sampleDeployment.relay.authority)
    (Shared.start clock) fun x hx => ?_
  obtain rfl : x = .ada := by simpa [registersAda, Arrival.runs, List.replicate] using hx
  have hmem : Signed.registerAda ∈ Signed.samples := by simp [Signed.samples]
  have hfree : isReserved "ada" sampleDeployment.relay.authority.extraReserved = false := by
    decide +kernel
  have hcode := Signed.register_eq_code (a := sampleDeployment.relay.authority) rfl rfl
    Signed.distinct_samples hmem (Signed.registers_forRegister ..)
    { admissible_sample none hmem with free := hfree } "203.0.113.7"
  exact congrArg (Answer.http <$> ·) hcode

theorem claimed_names_ada :
    ∃ row ∈ (sampleDeployment.relay.run (secs 1700000007)
        (registersAda.map (Process.Act.rename Arrival.request))).shared.claims.rows,
      row.name = "ada" ∧ WellFormedName row.name 3 20 ∧ LowerHex64 row.pubkey ∧
        ¬LookAlike row.name "acme" := by
  have hrows : (sampleDeployment.relay.run (secs 1700000007)
      (registersAda.map (Process.Act.rename Arrival.request))).shared.claims.rows.map Claim.name =
        ["ada"] := by
    rw [run_registersAda]
    decide +kernel
  have hmem := List.mem_map.mp (hrows ▸ List.mem_singleton_self "ada")
  obtain ⟨row, hrow, hname⟩ := hmem
  obtain ⟨hname', hpubkey, -, hterms⟩ := claimed_names sampleDeployment _ _ row hrow
  exact ⟨row, hrow, hname, hname', hpubkey, hterms _ (.entry (e := "Acme") rfl (by decide))⟩

end Floonet.NameAuthority
