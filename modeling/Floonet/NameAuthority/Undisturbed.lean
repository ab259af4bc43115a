import Floonet.Lib.Alone
import Floonet.Relay

/-!
# A register request that runs undisturbed

Outside the paid gate a register request reads and touches the maps and the claims store;
accounts and invoices are the gate's business. So what a request does to them when
nothing else runs is what the gate does (`register_alone`).
-/

namespace Floonet.NameAuthority

open Hex (Bytes)
open Payment
open Process (Alone)

/-- What is known of the state: `I` until the gate, `G` once it has let the request pass,
and `F`, also of the history, wherever the request may end. -/
structure Around (exec : Shared → Env → (o : Op) → Shared × o.Res) (I G : Shared → Prop)
    (F : Shared → List Call → Prop) : Prop where
  before : ∀ s o e past, Op.inGate o = false → I s →
    I (exec s e o).1 ∧ F (exec s e o).1 (⟨o, (exec s e o).2⟩ :: past)
  after : ∀ s o e past, Op.inGate o = false → G s →
    F (exec s e o).1 (⟨o, (exec s e o).2⟩ :: past)

section Alone

variable {exec : Shared → Env → (o : Op) → Shared × o.Res} {E : Shared → Op → Env → Prop}
  {I G : Shared → Prop} {F : Shared → List Call → Prop} {a : Authority} {req : HttpRequest}
  {s : Shared} {past : List Call}

/-- The end of the gate. -/
def GateEnds (G : Shared → Prop) (F : Shared → List Call → Prop) (s : Shared) (past : List Call) :
    Option Response → Prop
  | none => G s
  | some _ => F s past

/-- An operation outside the gate, before it. -/
theorem Around.call (H : Around exec I G F) {o : Op} {k : o.Res → Task Response}
    (ho : Op.inGate o = false) (hI : I s)
    (h : ∀ s' r, I s' → F s' (⟨o, r⟩ :: past) →
      Alone exec E (fun s past _ => F s past) s' (⟨o, r⟩ :: past) (k r)) :
    Alone exec E (fun s past _ => F s past) s past (.call o k) := by
  refine .call fun e _ => ?_
  obtain ⟨hI', hF⟩ := H.before s o e past ho hI
  exact h _ _ hI' hF

/-- The insert, wherever the request may end after it. -/
theorem claim_alone {name pk : String}
    (hF : ∀ e, F (exec s e (insertOp name pk)).1
      (⟨insertOp name pk, (exec s e (insertOp name pk)).2⟩ :: past)) :
    Alone exec E (fun s past _ => F s past) s past (claim a name pk) := by
  refine .call fun e _ => ?_
  have hend := hF e
  generalize (exec s e (insertOp name pk)).2 = r at hend ⊢
  rcases r with err | n
  · cases err with
    | constraintViolation => exact .ret hend
    | other => exact .ret hend
  · cases n with
    | zero => exact .ret hend
    | succ n => exact .ret hend

/-- A register request from the lookups on, given its gate. -/
theorem registerName_alone (H : Around exec I G F) (hI : I s) {name pk : String}
    (hgate : ∀ s past paid key, a.paid = some paid → a.keys.fromPkStr pk = some key → I s →
      Alone exec E (GateEnds G F) s past (gate paid key)) :
    Alone exec E (fun s past _ => F s past) s past (registerName a name pk) := by
  refine H.call rfl hI fun s' owner hI hF => ?_
  rcases owner with _ | owner
  · refine H.call rfl hI fun s' existing hI hF => ?_
    rcases existing with _ | existing
    · simp only [paidGate]
      rcases hp : a.paid with _ | paid
      · exact claim_alone fun e => (H.before _ _ e _ rfl hI).2
      · rcases hk : a.keys.fromPkStr pk with _ | key
        · exact .ret hF
        · refine (hgate _ _ paid key hp hk hI).bind fun s' past' resp hresp => ?_
          rcases resp with _ | resp
          · exact claim_alone fun e => H.after _ _ e _ rfl hresp
          · exact .ret hresp
    · exact .ret hF
  · change Alone _ _ _ _ _ (if owner = pk then _ else _)
    split_ifs
    · exact .ret hF
    · exact .ret hF

theorem registerChecked_alone (H : Around exec I G F) (hI : I s) (hF : F s past)
    {name pubkey pk : String}
    (hgate : ∀ s past paid, a.paid = some paid → validPubkeyHex pk = true → I s →
      ∀ key, a.keys.fromPkStr pk = some key → Alone exec E (GateEnds G F) s past (gate paid key)) :
    Alone exec E (fun s past _ => F s past) s past (registerChecked a name pubkey pk) := by
  rw [registerChecked]
  by_cases hhex : validPubkeyHex pubkey = true
  · rw [if_neg (by simp [hhex])]
    by_cases hne : pubkey = pk
    · rw [if_neg (not_not.mpr hne)]
      split_ifs
      · exact .ret hF
      · exact .ret hF
      · rw [hne]
        refine registerName_alone H hI fun s past paid key hp hk hs => ?_
        exact hgate s past paid hp (hne ▸ hhex) hs key hk
    · rw [if_pos hne]
      exact .ret hF
  · rw [if_pos (by simp [hhex])]
    exact .ret hF

theorem registerAs_alone (H : Around exec I G F) (hI : I s) {body : Bytes} {pk id : String}
    (hgate : ∀ s past paid, a.paid = some paid → validPubkeyHex pk = true → I s →
      ∀ key, a.keys.fromPkStr pk = some key → Alone exec E (GateEnds G F) s past (gate paid key)) :
    Alone exec E (fun s past _ => F s past) s past (registerAs a body pk id) := by
  refine H.call rfl hI fun s' fresh hI hF => ?_
  cases fresh with
  | false => exact .ret hF
  | true =>
    refine H.call rfl hI fun s' active hI hF => ?_
    cases active with
    | true => exact .ret hF
    | false =>
      change Alone _ _ _ _ _ (registerParsed a (a.registerBody body) pk)
      rcases a.registerBody body with _ | ⟨name, pubkey⟩
      · exact .ret hF
      · exact registerChecked_alone H hI hF hgate

/-- The checks around the gate leave it its state. -/
theorem register_alone (H : Around exec I G F) (hI : I s)
    (hgate : ∀ s past paid key, a.paid = some paid → req.signer a = some key → I s →
      Alone exec E (GateEnds G F) s past (gate paid key)) :
    Alone exec E (fun s past _ => F s past) s past (register a req) := by
  refine H.call rfl hI fun s' allowed hI hF => ?_
  cases allowed with
  | false => exact .ret hF
  | true =>
    change Alone _ _ _ _ _ (if _ then _ else _)
    split_ifs
    · exact .ret hF
    · rcases req.body with _ | body
      · exact .ret hF
      · change Alone _ _ _ _ _ (if _ then _ else _)
        split_ifs
        · exact .ret hF
        · refine H.call rfl hI fun s' now hI hF => ?_
          rcases hauth : registerAuth a req body now with msg | ⟨pk, id⟩
          · exact .ret hF
          · refine registerAs_alone H hI fun s past paid hp hhex hs key hk => ?_
            obtain rfl := a.keys.fromPkStr_hex hk hhex
            exact hgate s past paid _ hp (Nip98.signer_of_verifyNip98 hauth) hs

end Alone

end Floonet.NameAuthority
