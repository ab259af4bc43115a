import Floonet.NameAuthority.Authority

/-!
# What the write endpoints can do, step by step

For each endpoint, the operations it performs as a function of what it has done: every
constructor is one edge of its control flow, with the answer that leads along it. The
theorems `gate_obeys`, `register_obeys` and `unregister_obeys` say that the programs
follow these edges; everything later is derived from the edges alone.
-/

namespace Floonet.NameAuthority

open Hex (Bytes)
open Process (Obeys)
open Payment

/-! ## The paid gate

The contract of the gate is indexed by the calls made before it was entered, so the same contract
serves wherever a program enters it. -/

section Gate

variable (paid : PaidNames) (key : String) (base : List Call)

/-- The operations of the gate, entered after `base`. -/
inductive GateCall : List Call → Op → Prop where
  | balance : GateCall base (balanceOp key)
  | unpaid {past : List Call} {r : Except RepoError (Bool × Nat)} :
    GateCall past (balanceOp key) → (∀ b, r ≠ .ok (true, b)) →
    GateCall (⟨balanceOp key, r⟩ :: past) (unpaidOp key)
  | check {past : List Call} {inv : InvoiceInfo} : GateCall past (unpaidOp key) →
    GateCall (⟨unpaidOp key, .ok (some inv)⟩ :: past) (checkOp inv.paymentHash)
  | markPaid {past : List Call} {h : String} : GateCall past (checkOp h) →
    GateCall (⟨checkOp h, some .paid⟩ :: past) (updateInvoiceOp h .paid)
  | grant {past : List Call} {h pk : String} : GateCall past (updateInvoiceOp h .paid) →
    GateCall (⟨updateInvoiceOp h .paid, .ok pk⟩ :: past) (admitOp key paid.priceNanogrin)
  | markExpired {past : List Call} {h : String} : GateCall past (checkOp h) →
    GateCall (⟨checkOp h, some .expired⟩ :: past) (updateInvoiceOp h .expired)
  | firstContact {past : List Call} {r : Except RepoError (Option InvoiceInfo)} :
    GateCall past (unpaidOp key) → (∀ inv, r ≠ .ok (some inv)) →
    GateCall (⟨unpaidOp key, r⟩ :: past) (createAccountOp key)
  | replace {past : List Call} {h : String} {r : Except RepoError String} :
    GateCall past (updateInvoiceOp h .expired) →
    GateCall (⟨updateInvoiceOp h .expired, r⟩ :: past) (getInvoiceOp key paid.priceNanogrin)
  | first {past : List Call} {r : Except RepoError Bool} : GateCall past (createAccountOp key) →
    GateCall (⟨createAccountOp key, r⟩ :: past) (getInvoiceOp key paid.priceNanogrin)
  | record {past : List Call} {inv : InvoiceInfo} :
    GateCall past (getInvoiceOp key paid.priceNanogrin) →
    GateCall (⟨getInvoiceOp key paid.priceNanogrin, some inv⟩ :: past) (recordInvoiceOp key inv)

/-- How the gate ends. -/
inductive GateResult : List Call → Option Response → Prop where
  | admitted {past : List Call} {b : Nat} : GateCall paid key base past (balanceOp key) →
    GateResult (⟨balanceOp key, .ok (true, b)⟩ :: past) none
  | confirmed {past : List Call} : GateCall paid key base past (admitOp key paid.priceNanogrin) →
    GateResult (⟨admitOp key paid.priceNanogrin, .ok ()⟩ :: past) none
  | stillUnpaid {past : List Call} {h url : String} : GateCall paid key base past (checkOp h) →
    GateResult (⟨checkOp h, some .unpaid⟩ :: past) (some (paymentRequired h url paid))
  | invoiced {past : List Call} {inv : InvoiceInfo} :
    GateCall paid key base past (recordInvoiceOp key inv) →
    GateResult (⟨recordInvoiceOp key inv, .ok ()⟩ :: past)
      (some (paymentRequired inv.paymentHash inv.bolt11 paid))
  | checkFailed {past : List Call} {h : String} : GateCall paid key base past (checkOp h) →
    GateResult (⟨checkOp h, none⟩ :: past) (some serverError)
  | markFailed {past : List Call} {h : String} {err : RepoError} :
    GateCall paid key base past (updateInvoiceOp h .paid) →
    GateResult (⟨updateInvoiceOp h .paid, .error err⟩ :: past) (some serverError)
  | admitFailed {past : List Call} {err : RepoError} :
    GateCall paid key base past (admitOp key paid.priceNanogrin) →
    GateResult (⟨admitOp key paid.priceNanogrin, .error err⟩ :: past) (some serverError)
  | noInvoice {past : List Call} :
    GateCall paid key base past (getInvoiceOp key paid.priceNanogrin) →
    GateResult (⟨getInvoiceOp key paid.priceNanogrin, none⟩ :: past) (some serverError)
  | recordFailed {past : List Call} {inv : InvoiceInfo} {err : RepoError} :
    GateCall paid key base past (recordInvoiceOp key inv) →
    GateResult (⟨recordInvoiceOp key inv, .error err⟩ :: past) (some serverError)

variable {paid key base}

theorem newInvoice_obeys {past : List Call}
    (h : GateCall paid key base past (getInvoiceOp key paid.priceNanogrin)) :
    Obeys (GateCall paid key base) (GateResult paid key base) past
      (some <$> newInvoice paid key) := by
  refine .call h fun invoice => ?_
  cases invoice with
  | none => exact .ret (.noInvoice h)
  | some inv =>
    refine .call (.record h) fun r => ?_
    cases r with
    | error err => exact .ret (.recordFailed (.record h))
    | ok _ => exact .ret (.invoiced (.record h))

theorem confirm_obeys {past : List Call} {inv : InvoiceInfo}
    (h : GateCall paid key base past (updateInvoiceOp inv.paymentHash .paid)) :
    Obeys (GateCall paid key base) (GateResult paid key base) past (confirm paid key inv) := by
  refine .call h fun r => ?_
  cases r with
  | error err => exact .ret (.markFailed h)
  | ok pk =>
    refine .call (.grant h) fun r => ?_
    cases r with
    | error err => exact .ret (.admitFailed (.grant h))
    | ok _ => exact .ret (.confirmed (.grant h))

/-- The contract of a look at the processor. -/
theorem poll_obeys {past : List Call} {inv : InvoiceInfo}
    (h : GateCall paid key base past (checkOp inv.paymentHash)) :
    Obeys (GateCall paid key base) (GateResult paid key base) past (poll paid key inv) := by
  refine .call h fun status => ?_
  rcases status with _ | status
  · exact .ret (.checkFailed h)
  · cases status with
    | unpaid => exact .ret (.stillUnpaid h)
    | paid => exact confirm_obeys (.markPaid h)
    | expired => exact .call (.markExpired h) fun r => newInvoice_obeys (.replace (.markExpired h))

/-- The contract of an invoice that is still to be paid. -/
theorem outstanding_obeys {past : List Call} (h : GateCall paid key base past (unpaidOp key)) :
    Obeys (GateCall paid key base) (GateResult paid key base) past (outstanding paid key) := by
  refine .call h fun r => ?_
  have hfirst : (∀ inv, r ≠ .ok (some inv)) →
      Obeys (GateCall paid key base) (GateResult paid key base) (⟨unpaidOp key, r⟩ :: past)
        (.call (createAccountOp key) fun _ => some <$> newInvoice paid key) :=
    fun hr => .call (.firstContact h hr) fun _ =>
      newInvoice_obeys (.first (.firstContact h hr))
  rcases r with err | _ | inv
  · exact hfirst (fun inv => by simp)
  · exact hfirst (fun inv => by simp)
  · exact poll_obeys (.check h)

theorem gate_obeys : Obeys (GateCall paid key base) (GateResult paid key base) base
    (gate paid key) := by
  refine .call .balance fun r => ?_
  rcases r with err | ⟨admitted, b⟩
  · exact outstanding_obeys (.unpaid .balance (fun b => by simp))
  · cases admitted with
    | false => exact outstanding_obeys (.unpaid .balance (fun b => by simp))
    | true => exact .ret (.admitted .balance)

/-- What was called before the gate stays at the end of the list. -/
theorem GateCall.suffix {past : List Call} {o : Op} (h : GateCall paid key base past o) :
    base <:+ past := by
  induction h with
  | balance => exact List.suffix_refl _
  | unpaid _ _ ih => exact ih.trans (List.suffix_cons ..)
  | firstContact _ _ ih => exact ih.trans (List.suffix_cons ..)
  | check _ ih => exact ih.trans (List.suffix_cons ..)
  | markPaid _ ih => exact ih.trans (List.suffix_cons ..)
  | grant _ ih => exact ih.trans (List.suffix_cons ..)
  | markExpired _ ih => exact ih.trans (List.suffix_cons ..)
  | replace _ ih => exact ih.trans (List.suffix_cons ..)
  | first _ ih => exact ih.trans (List.suffix_cons ..)
  | record _ ih => exact ih.trans (List.suffix_cons ..)

/-- The gate admits its key after it found an unpaid invoice, was told that it is paid
and recorded that. -/
theorem GateCall.grant_inv {past : List Call} {key' : String} {cost : Nat}
    (h : GateCall paid key base past (admitOp key' cost)) :
    key' = key ∧ cost = paid.priceNanogrin ∧ ∃ inv pk rest,
      past = ⟨updateInvoiceOp inv.paymentHash .paid, .ok pk⟩ ::
        ⟨checkOp inv.paymentHash, some .paid⟩ :: ⟨unpaidOp key, .ok (some inv)⟩ :: rest ∧
      GateCall paid key base rest (unpaidOp key) := by
  cases h with
  | grant hmark =>
    cases hmark with
    | markPaid hcheck =>
      cases hcheck with
      | check hunpaid => exact ⟨rfl, rfl, _, _, _, rfl, hunpaid⟩

/-- The gate lets a key pass after the account was read as admitted, or was admitted. -/
theorem GateResult.none_inv {past : List Call} (h : GateResult paid key base past none) :
    base <:+ past ∧ ((∃ b, (⟨balanceOp key, .ok (true, b)⟩ : Call) ∈ past) ∨
      (⟨admitOp key paid.priceNanogrin, .ok ()⟩ : Call) ∈ past) := by
  cases h with
  | admitted hc =>
    exact ⟨hc.suffix.trans (List.suffix_cons ..), .inl ⟨_, List.mem_cons_self ..⟩⟩
  | confirmed hc => exact ⟨hc.suffix.trans (List.suffix_cons ..), .inr (List.mem_cons_self ..)⟩

/-- A gate that answers does not answer with 201. -/
theorem GateResult.status_ne {past : List Call} {resp : Response}
    (h : GateResult paid key base past (some resp)) : resp.status ≠ 201 := by
  cases h <;> simp [paymentRequired, serverError, errorResponse]

/-- The operations the gate is made of. -/
def Op.inGate : Op → Bool
  | .repo _ => true
  | .processor _ => true
  | _ => false

/-- The calls of the gate are told by their kind. -/
theorem GateCall.inGate {past : List Call} {o : Op} (h : GateCall paid key base past o) :
    Op.inGate o = true := by
  cases h <;> rfl

end Gate

/-! ## Register

A call is allowed after exactly one list of earlier calls and answers, so reading the contract
backwards says what a request must have seen before its insert. -/

/-- The signer of a request's auth event. -/
def HttpRequest.signer (a : Authority) (req : HttpRequest) : Option String :=
  a.nip98.signer req.authorization

/-- The name and the key a register request asks for, in lower case. -/
def HttpRequest.claim (a : Authority) (req : HttpRequest) : Option (String × String) :=
  req.body.bind fun body => (a.registerBody body).map fun b =>
    (strToLowercase b.1, strToLowercase b.2)

section Register

variable (a : Authority) (req : HttpRequest)

/-- The operations of `register`. -/
inductive RegisterCall : List Call → Op → Prop where
  | allow : RegisterCall [] (allowWriteOp a "na-reg" req.ip)
  | unixTime {past : List Call} : RegisterCall past (allowWriteOp a "na-reg" req.ip) →
    RegisterCall (⟨allowWriteOp a "na-reg" req.ip, true⟩ :: past) .unixTime
  | fresh {past : List Call} {now : Nat} {body : Bytes} {pk id : String} :
    RegisterCall past .unixTime → req.body = some body →
    registerAuth a req body now = .ok (pk, id) →
    RegisterCall (⟨.unixTime, now⟩ :: past) (freshOp a id)
  | cooldown {past : List Call} {pk id : String} : RegisterCall past (freshOp a id) →
    req.signer a = some pk → RegisterCall (⟨freshOp a id, true⟩ :: past) (cooldownOp a pk)
  | lookup {past : List Call} {pk name : String} : RegisterCall past (cooldownOp a pk) →
    req.claim a = some (name, pk) → validPubkeyHex pk = true →
    validName name a.cfg.nameMin a.cfg.nameMax = true →
    isReserved name a.extraReserved = false →
    RegisterCall (⟨cooldownOp a pk, false⟩ :: past) (lookupOp name)
  | nameOf {past : List Call} {pk name : String} : RegisterCall past (lookupOp name) →
    req.claim a = some (name, pk) → RegisterCall (⟨lookupOp name, none⟩ :: past) (nameOfOp pk)
  | gate {past past' : List Call} {pk key : String} {paid : PaidNames} {o : Op} :
    RegisterCall past (nameOfOp pk) → a.paid = some paid → a.keys.fromPkStr pk = some key →
    GateCall paid key (⟨nameOfOp pk, none⟩ :: past) past' o → RegisterCall past' o
  | insertFree {past : List Call} {pk name : String} :
    RegisterCall (⟨lookupOp name, none⟩ :: past) (nameOfOp pk) → a.paid = none →
    RegisterCall (⟨nameOfOp pk, none⟩ :: ⟨lookupOp name, none⟩ :: past) (insertOp name pk)
  | insertPaid {past past' : List Call} {pk key name : String} {paid : PaidNames} :
    RegisterCall (⟨lookupOp name, none⟩ :: past) (nameOfOp pk) → a.paid = some paid →
    a.keys.fromPkStr pk = some key →
    GateResult paid key (⟨nameOfOp pk, none⟩ :: ⟨lookupOp name, none⟩ :: past) past' none →
    RegisterCall past' (insertOp name pk)

/-- The operations before the gate: they read, or touch the maps only. -/
def Op.early : Op → Bool
  | .unixTime => true
  | .limits _ => true
  | .claims (.lookup _) => true
  | .claims (.nameOf _) => true
  | _ => false

/-- Neither a new claim nor a demand for payment. -/
def Response.refusal (resp : Response) : Bool := resp.status != 201 && resp.status != 402

/-- How `register` ends. -/
inductive RegisterResult : List Call → Response → Prop where
  | early {past : List Call} {resp : Response} : (∀ x ∈ past, Op.early x.op = true) →
    resp.refusal = true → RegisterResult past resp
  | gate {past past' : List Call} {pk key : String} {paid : PaidNames} {resp : Response} :
    RegisterCall a req past (nameOfOp pk) → a.paid = some paid →
    a.keys.fromPkStr pk = some key →
    GateResult paid key (⟨nameOfOp pk, none⟩ :: past) past' (some resp) →
    RegisterResult past' resp
  | lost {past : List Call} {pk name : String} {r : Except ClaimError Nat} {resp : Response} :
    RegisterCall a req past (insertOp name pk) → (∀ n, r ≠ .ok (n + 1)) →
    resp.refusal = true → RegisterResult (⟨insertOp name pk, r⟩ :: past) resp
  | created {past : List Call} {pk name : String} {n : Nat} :
    RegisterCall a req past (insertOp name pk) →
    RegisterResult (⟨insertOp name pk, .ok (n + 1)⟩ :: past) (claimResponse a 201 name)

variable {a req}

theorem GateCall.not_early {paid : PaidNames} {key : String} {base past : List Call} {o : Op}
    (h : GateCall paid key base past o) : Op.early o = false := by
  cases h <;> rfl

/-- Until the gate every operation is an early one. -/
theorem RegisterCall.early {past : List Call} {o : Op} (h : RegisterCall a req past o)
    (ho : Op.early o = true) : ∀ x ∈ past, Op.early x.op = true := by
  induction h with
  | allow =>
    intro x hx
    cases hx
  | unixTime _ ih => exact List.forall_mem_cons.mpr ⟨rfl, ih rfl⟩
  | fresh _ _ _ ih => exact List.forall_mem_cons.mpr ⟨rfl, ih rfl⟩
  | cooldown _ _ ih => exact List.forall_mem_cons.mpr ⟨rfl, ih rfl⟩
  | lookup _ _ _ _ _ ih => exact List.forall_mem_cons.mpr ⟨rfl, ih rfl⟩
  | nameOf _ _ ih => exact List.forall_mem_cons.mpr ⟨rfl, ih rfl⟩
  | gate _ _ _ hg _ =>
    rw [hg.not_early] at ho
    cases ho
  | insertFree _ _ _ => cases ho
  | insertPaid _ _ _ _ _ => cases ho

/-- A refusal right after an early operation. -/
theorem RegisterCall.refuse {past : List Call} {o : Op} {r : o.Res} {resp : Response}
    (h : RegisterCall a req past o) (ho : Op.early o = true) (hresp : resp.refusal = true) :
    RegisterResult a req (⟨o, r⟩ :: past) resp :=
  .early (List.forall_mem_cons.mpr ⟨ho, h.early ho⟩) hresp

theorem claim_obeys {past : List Call} {name pk : String}
    (h : RegisterCall a req past (insertOp name pk)) :
    Obeys (RegisterCall a req) (RegisterResult a req) past (claim a name pk) := by
  refine .call h fun r => ?_
  rcases r with err | n
  · cases err with
    | constraintViolation => exact .ret (.lost h (fun n => by simp) rfl)
    | other => exact .ret (.lost h (fun n => by simp) rfl)
  · cases n with
    | zero => exact .ret (.lost h (fun n => by simp) rfl)
    | succ n => exact .ret (.created h)

/-- The contract from the lookup of the name on. -/
theorem registerName_obeys {past : List Call} {name pk : String}
    (h : RegisterCall a req past (lookupOp name)) (hclaim : req.claim a = some (name, pk)) :
    Obeys (RegisterCall a req) (RegisterResult a req) past (registerName a name pk) := by
  refine .call h fun owner => ?_
  rcases owner with _ | owner
  · have hname : RegisterCall a req _ (nameOfOp pk) := .nameOf h hclaim
    refine .call hname fun existing => ?_
    rcases existing with _ | existing
    · simp only [paidGate]
      rcases hp : a.paid with _ | paid
      · exact claim_obeys (.insertFree hname hp)
      · rcases hk : a.keys.fromPkStr pk with _ | key
        · exact .ret (hname.refuse rfl rfl)
        · refine Obeys.bind
            (G := GateResult paid key (⟨nameOfOp pk, none⟩ :: ⟨lookupOp name, none⟩ :: past)) ?_ ?_
          · exact gate_obeys.imp fun past' o ho => .gate hname hp hk ho
          · intro past' resp hresp
            rcases resp with _ | resp
            · exact claim_obeys (.insertPaid hname hp hk hresp)
            · exact .ret (.gate hname hp hk hresp)
    · exact .ret (hname.refuse rfl rfl)
  · change Obeys _ _ _ (if owner = pk then _ else _)
    split_ifs
    · exact .ret (h.refuse rfl rfl)
    · exact .ret (h.refuse rfl rfl)

/-- The contract from the checks of the name on. -/
theorem registerChecked_obeys {past : List Call} {name pubkey pk : String}
    (h : RegisterCall a req past (cooldownOp a pk)) (hclaim : req.claim a = some (name, pubkey)) :
    Obeys (RegisterCall a req) (RegisterResult a req) (⟨cooldownOp a pk, false⟩ :: past)
      (registerChecked a name pubkey pk) := by
  rw [registerChecked]
  by_cases hhex : validPubkeyHex pubkey = true
  · rw [if_neg (by simp [hhex])]
    by_cases hne : pubkey = pk
    · rw [if_neg (not_not.mpr hne)]
      by_cases hname : validName name a.cfg.nameMin a.cfg.nameMax = true
      · rw [if_neg (by simp [hname])]
        by_cases hres : isReserved name a.extraReserved = true
        · rw [if_pos hres]
          exact .ret (h.refuse rfl rfl)
        · rw [if_neg hres, hne]
          have hclaim' : req.claim a = some (name, pk) := hne ▸ hclaim
          exact registerName_obeys (.lookup h hclaim' (hne ▸ hhex) hname (by simpa using hres))
            hclaim'
      · rw [if_pos (by simp [hname])]
        exact .ret (h.refuse rfl rfl)
    · rw [if_pos hne]
      exact .ret (h.refuse rfl rfl)
  · rw [if_pos (by simp [hhex])]
    exact .ret (h.refuse rfl rfl)

theorem registerAs_obeys {past : List Call} {body : Bytes} {pk id : String}
    (h : RegisterCall a req past (freshOp a id)) (hpk : req.signer a = some pk)
    (hbody : req.body = some body) :
    Obeys (RegisterCall a req) (RegisterResult a req) past (registerAs a body pk id) := by
  refine .call h fun fresh => ?_
  cases fresh with
  | false => exact .ret (h.refuse rfl rfl)
  | true =>
    have hcool : RegisterCall a req _ (cooldownOp a pk) := .cooldown h hpk
    refine .call hcool fun active => ?_
    cases active with
    | true => exact .ret (hcool.refuse rfl rfl)
    | false =>
      change Obeys _ _ _ (registerParsed a (a.registerBody body) pk)
      rcases hreg : a.registerBody body with _ | ⟨name, pubkey⟩
      · exact .ret (hcool.refuse rfl rfl)
      · refine registerChecked_obeys hcool ?_
        simp [HttpRequest.claim, hbody, hreg]

theorem register_obeys (a : Authority) (req : HttpRequest) :
    Obeys (RegisterCall a req) (RegisterResult a req) [] (register a req) := by
  have hallow : RegisterCall a req [] (allowWriteOp a "na-reg" req.ip) := .allow
  refine .call hallow fun allowed => ?_
  cases allowed with
  | false => exact .ret (hallow.refuse rfl rfl)
  | true =>
    change Obeys _ _ _ (if _ then _ else _)
    split_ifs with hsize
    · exact .ret (hallow.refuse rfl rfl)
    · rcases hbody : req.body with _ | body
      · exact .ret (hallow.refuse rfl rfl)
      · change Obeys _ _ _ (if _ then _ else _)
        split_ifs with hlen
        · exact .ret (hallow.refuse rfl rfl)
        · have htime : RegisterCall a req _ .unixTime := .unixTime hallow
          refine .call htime fun now => ?_
          rcases hauth : registerAuth a req body now with msg | ⟨pk, id⟩
          · exact .ret (htime.refuse rfl rfl)
          · exact registerAs_obeys (.fresh htime hbody hauth)
              (Nip98.signer_of_verifyNip98 hauth) hbody

/-! What a register request has done when it inserts, and when it is finished. -/

/-- The name of the key is looked up after that of the name. -/
theorem RegisterCall.nameOf_inv {past : List Call} {pk : String}
    (h : RegisterCall a req past (nameOfOp pk)) : ∃ name rest, past = ⟨lookupOp name, none⟩ :: rest ∧
      RegisterCall a req rest (lookupOp name) ∧ req.claim a = some (name, pk) := by
  cases h with
  | nameOf h hclaim => exact ⟨_, _, rfl, h, hclaim⟩
  | gate _ _ _ hg => exact absurd hg.inGate (by simp [Op.inGate])

/-- The name is looked up after the cooldown. -/
theorem RegisterCall.lookup_inv {past : List Call} {name : String}
    (h : RegisterCall a req past (lookupOp name)) : ∃ pk rest,
      past = ⟨cooldownOp a pk, false⟩ :: rest ∧ RegisterCall a req rest (cooldownOp a pk) ∧
      req.claim a = some (name, pk) ∧ validPubkeyHex pk = true ∧
      validName name a.cfg.nameMin a.cfg.nameMax = true ∧
      isReserved name a.extraReserved = false := by
  cases h with
  | lookup h hclaim hhex hname hres => exact ⟨_, _, rfl, h, hclaim, hhex, hname, hres⟩
  | gate _ _ _ hg => exact absurd hg.inGate (by simp [Op.inGate])

/-- The cooldown is that of the signer. -/
theorem RegisterCall.cooldown_inv {past : List Call} {pk : String}
    (h : RegisterCall a req past (cooldownOp a pk)) : req.signer a = some pk := by
  cases h with
  | cooldown h hpk => exact hpk
  | gate _ _ _ hg => exact absurd hg.inGate (by simp [Op.inGate])

/-- The key of the gate is the signer's, as it was given. -/
theorem RegisterCall.gate_key {past : List Call} {pk key : String}
    (h : RegisterCall a req past (nameOfOp pk)) (hkey : a.keys.fromPkStr pk = some key) :
    key = pk ∧ req.signer a = some pk := by
  obtain ⟨name, rest, rfl, hl, hclaim⟩ := h.nameOf_inv
  obtain ⟨pk', rest', rfl, hcool, hclaim', hhex, -, -⟩ := hl.lookup_inv
  obtain rfl : pk = pk' := by
    rw [hclaim, Option.some.injEq, Prod.mk.injEq] at hclaim'
    exact hclaim'.2
  exact ⟨a.keys.fromPkStr_hex hkey hhex, hcool.cooldown_inv⟩

/-- An operation of the gate serves the signer. -/
theorem RegisterCall.gate_inv {past : List Call} {o : Op} (h : RegisterCall a req past o)
    (ho : Op.inGate o = true) : ∃ paid key base, a.paid = some paid ∧ req.signer a = some key ∧
      GateCall paid key base past o := by
  cases h with
  | gate hn hpaid hkey hg =>
    obtain ⟨rfl, hsigner⟩ := hn.gate_key hkey
    exact ⟨_, _, _, hpaid, hsigner, hg⟩
  | _ => cases ho

/-- A request that ends in the gate was refused by it. -/
theorem RegisterResult.gate_inv {past : List Call} {x : Call} {resp : Response}
    (h : RegisterResult a req (x :: past) resp) (hx : Op.inGate x.op = true) :
    ∃ paid key base, a.paid = some paid ∧ req.signer a = some key ∧
      GateResult paid key base (x :: past) (some resp) := by
  cases h with
  | early hearly _ =>
    have hnot := hearly x (List.mem_cons_self ..)
    rcases x with ⟨_ | _ | _ | _ | _ | _ | _ | _, ans⟩ <;>
      simp [Op.early, Op.inGate] at hnot hx
  | gate hn hpaid hkey hg =>
    obtain ⟨rfl, hsigner⟩ := hn.gate_key hkey
    exact ⟨_, _, _, hpaid, hsigner, hg⟩
  | lost _ _ _ => cases hx
  | created _ => cases hx

/-- The gate was free, or let the key pass. -/
def GatePassed (a : Authority) (pk : String) (past : List Call) : Prop :=
  a.paid = none ∨ ∃ paid key, a.paid = some paid ∧ a.keys.fromPkStr pk = some key ∧
    ((∃ b, (⟨balanceOp key, .ok (true, b)⟩ : Call) ∈ past) ∨
      (⟨admitOp key paid.priceNanogrin, .ok ()⟩ : Call) ∈ past)

/-- A request that inserts was signed by the key it inserts, asked for that name, found
no cooldown and passed the gate. -/
theorem RegisterCall.insert_inv {past : List Call} {name pk : String}
    (h : RegisterCall a req past (insertOp name pk)) :
    req.signer a = some pk ∧ req.claim a = some (name, pk) ∧ validPubkeyHex pk = true ∧
      (⟨cooldownOp a pk, false⟩ : Call) ∈ past ∧ GatePassed a pk past := by
  have hbefore : ∀ {rest}, RegisterCall a req (⟨lookupOp name, none⟩ :: rest) (nameOfOp pk) →
      req.signer a = some pk ∧ req.claim a = some (name, pk) ∧ validPubkeyHex pk = true ∧
        (⟨cooldownOp a pk, false⟩ : Call) ∈ rest := by
    intro rest hn
    obtain ⟨name', rest', heq, hl, hclaim⟩ := hn.nameOf_inv
    cases heq
    obtain ⟨pk', rest'', rfl, hcool, hclaim', hhex, -, -⟩ := hl.lookup_inv
    obtain rfl : pk = pk' := by
      rw [hclaim, Option.some.injEq, Prod.mk.injEq] at hclaim'
      exact hclaim'.2
    exact ⟨hcool.cooldown_inv, hclaim, hhex, List.mem_cons_self ..⟩
  cases h with
  | gate _ _ _ hg => exact absurd hg.inGate (by simp [Op.inGate])
  | insertFree hn hfree =>
    obtain ⟨hs, hc, hhex, hmem⟩ := hbefore hn
    exact ⟨hs, hc, hhex, List.mem_cons_of_mem _ (List.mem_cons_of_mem _ hmem), .inl hfree⟩
  | insertPaid hn hpaid hkey hres =>
    obtain ⟨hs, hc, hhex, hmem⟩ := hbefore hn
    obtain ⟨hsuf, hpass⟩ := hres.none_inv
    refine ⟨hs, hc, hhex, hsuf.subset ?_, .inr ⟨_, _, hpaid, hkey, hpass⟩⟩
    exact List.mem_cons_of_mem _ (List.mem_cons_of_mem _ hmem)

/-- How many operations a register request can have behind it. -/
def Op.rank : Op → Nat
  | .limits (.allow _ _ _ _) => 0
  | .unixTime => 1
  | .limits (.authEventFresh _ _) => 2
  | .limits (.cooldownActive _ _ _) => 3
  | .claims (.lookup _) => 4
  | .claims (.nameOf _) => 5
  | .repo (.getAccountBalance _) => 6
  | .repo (.getUnpaidInvoice _) => 7
  | .processor (.checkInvoice _) => 8
  | .repo (.createAccount _) => 8
  | .repo (.updateInvoice _ _) => 9
  | .repo (.admitAccount _ _) => 10
  | .processor (.getInvoice _ _) => 10
  | _ => 11

theorem Op.rank_le (o : Op) : Op.rank o ≤ 11 := by
  cases o with
  | limits o => cases o <;> simp [Op.rank]
  | claims o => cases o <;> simp [Op.rank]
  | repo o => cases o <;> simp [Op.rank]
  | processor o => cases o <;> simp [Op.rank]
  | _ => simp [Op.rank]

/-- The calls come in their order, so there are no more than this. -/
theorem GateCall.length_le {paid : PaidNames} {key : String} {base past : List Call} {o : Op}
    (h : GateCall paid key base past o) (hbase : base.length ≤ 6) : past.length ≤ Op.rank o := by
  induction h with
  | balance => exact hbase
  | _ =>
    simp only [List.length_cons, Op.rank] at *
    omega

theorem RegisterCall.length_le {past : List Call} {o : Op} (h : RegisterCall a req past o) :
    past.length ≤ Op.rank o := by
  induction h with
  | gate _ _ _ hg ih =>
    refine hg.length_le ?_
    simp only [List.length_cons, Op.rank] at *
    omega
  | insertPaid _ _ _ hres ih =>
    have hbase : ∀ {x y : Call} {rest : List Call}, (x :: rest).length ≤ 5 →
        (y :: x :: rest).length ≤ 6 := by
      intro x y rest h
      rw [List.length_cons]
      omega
    cases hres with
    | admitted hc =>
      have hlen := hc.length_le (hbase ih)
      simp only [List.length_cons, Op.rank] at *
      omega
    | confirmed hc =>
      have hlen := hc.length_le (hbase ih)
      simp only [List.length_cons, Op.rank] at *
      omega
  | _ =>
    simp only [List.length_cons, List.length_nil, Op.rank] at *
    try omega

/-- Nothing comes after the insert. -/
theorem RegisterCall.not_after_insert {past : List Call} {name pk : String}
    {r : Except ClaimError Nat} {o : Op} :
    ¬RegisterCall a req (⟨insertOp name pk, r⟩ :: past) o := by
  intro h
  cases h with
  | gate hn _ _ hg => cases hg
  | insertPaid hn _ _ hres => cases hres

/-- Only an insert that wrote a row is answered with 201. -/
theorem RegisterResult.of_status_201 {past : List Call} {resp : Response}
    (h : RegisterResult a req past resp) (h201 : resp.status = 201) : ∃ name pk n rest,
      past = ⟨insertOp name pk, .ok (n + 1)⟩ :: rest ∧
      RegisterCall a req rest (insertOp name pk) := by
  cases h with
  | early _ href => simp [Response.refusal, h201] at href
  | gate _ _ _ hg => exact absurd h201 hg.status_ne
  | lost _ _ href => simp [Response.refusal, h201] at href
  | created hi => exact ⟨_, _, _, _, rfl, hi⟩

/-- And it always is. -/
theorem RegisterResult.status_of_insert {past : List Call} {resp : Response} {name pk : String}
    {n : Nat} (h : RegisterResult a req (⟨insertOp name pk, .ok (n + 1)⟩ :: past) resp) :
    resp.status = 201 := by
  cases h with
  | early hearly _ => exact absurd (hearly _ (List.mem_cons_self ..)) (by simp [Op.early])
  | gate _ _ _ hg => cases hg
  | lost _ hne _ => exact absurd rfl (hne n)
  | created hi => rfl

/-- Register never releases a claim and never arms the cooldown. -/
theorem RegisterCall.not_release {past : List Call} {name : String} :
    ¬RegisterCall a req past (releaseOp name) := by
  intro h
  cases h with
  | gate _ _ _ hg => exact absurd hg.inGate (by simp [Op.inGate])

end Register

/-! ## Unregister -/

section Unregister

variable (a : Authority) (name : String) (req : HttpRequest)

/-- The operations of `unregister`, for the lower-case name. -/
inductive UnregisterCall : List Call → Op → Prop where
  | allow : UnregisterCall [] (allowWriteOp a "na-unreg" req.ip)
  | unixTime {past : List Call} : UnregisterCall past (allowWriteOp a "na-unreg" req.ip) →
    UnregisterCall (⟨allowWriteOp a "na-unreg" req.ip, true⟩ :: past) .unixTime
  | fresh {past : List Call} {now : Nat} {pk id : String} : UnregisterCall past .unixTime →
    unregisterAuth a name req now = .ok (pk, id) →
    UnregisterCall (⟨.unixTime, now⟩ :: past) (freshOp a id)
  | lookup {past : List Call} {id : String} : UnregisterCall past (freshOp a id) →
    UnregisterCall (⟨freshOp a id, true⟩ :: past) (lookupOp name)
  | release {past : List Call} {pk : String} : UnregisterCall past (lookupOp name) →
    req.signer a = some pk →
    UnregisterCall (⟨lookupOp name, some pk⟩ :: past) (releaseOp name)
  | record {past : List Call} {pk : String} {n : Nat} : UnregisterCall past (releaseOp name) →
    req.signer a = some pk →
    UnregisterCall (⟨releaseOp name, .ok n⟩ :: past) (recordReleaseOp pk)

/-- `unregister` never answers 201 and never ends between the release and the arming of
the cooldown. -/
def UnregisterResult (past : List Call) (resp : Response) : Prop :=
  (resp.status == 201) = false ∧ ∀ n count rest, past ≠ ⟨releaseOp n, .ok count⟩ :: rest

variable {a name req}

/-- The contract from the lookup of the name on. -/
theorem releaseName_obeys {past : List Call} {pk : String}
    (h : UnregisterCall a name req past (releaseOp name)) (hpk : req.signer a = some pk) :
    Obeys (UnregisterCall a name req) UnregisterResult past (releaseName name pk) := by
  refine .call h fun r => ?_
  cases r with
  | error err => exact .ret ⟨rfl, fun n count rest => by simp⟩
  | ok n => exact .call (.record h hpk) fun _ => .ret ⟨rfl, fun n count rest => by simp⟩

theorem unregisterAs_obeys {past : List Call} {pk id : String}
    (h : UnregisterCall a name req past (freshOp a id)) (hpk : req.signer a = some pk) :
    Obeys (UnregisterCall a name req) UnregisterResult past (unregisterAs a name pk id) := by
  refine .call h fun fresh => ?_
  cases fresh with
  | false => exact .ret ⟨rfl, fun n count rest => by simp⟩
  | true =>
    refine .call (.lookup h) fun owner => ?_
    rcases owner with _ | owner
    · exact .ret ⟨rfl, fun n count rest => by simp⟩
    · change Obeys _ _ _ (if owner = pk then _ else _)
      split_ifs with howner
      · exact releaseName_obeys (howner ▸ .release (.lookup h) hpk) hpk
      · exact .ret ⟨rfl, fun n count rest => by simp⟩

theorem unregister_obeys (a : Authority) (name : String) (req : HttpRequest) :
    Obeys (UnregisterCall a (strToLowercase name) req) UnregisterResult []
      (unregister a name req) := by
  refine .call .allow fun allowed => ?_
  cases allowed with
  | false => exact .ret ⟨rfl, fun n count rest => by simp⟩
  | true =>
    refine .call (.unixTime .allow) fun now => ?_
    rcases hauth : unregisterAuth a (strToLowercase name) req now with msg | ⟨pk, id⟩
    · exact .ret ⟨rfl, fun n count rest => by simp⟩
    · exact unregisterAs_obeys (.fresh (.unixTime .allow) hauth)
        (Nip98.signer_of_verifyNip98 hauth)

end Unregister

end Floonet.NameAuthority
