import Floonet.Delegation
import Floonet.Recorded

/-!
# Processing a delegation tag

An EVENT command is converted by validating its event, building the tag index and
reading the first delegation tag. The signature string of that tag is unwrapped,
so the conversion returns exactly when it parses; every other failure leaves the
event without a delegator (`conversion_returns_iff`).
-/

namespace Floonet

/-- The first of the four-element delegation tags. -/
def Event.FirstDelegation (e : Event) (delegator condQuery sig : String) : Prop :=
  ∃ before after, e.tags = before ++ ["delegation", delegator, condQuery, sig] :: after ∧
    ∀ t ∈ before, ¬ (t.length = 4 ∧ t.head? = some "delegation")

namespace Delegation

/-- Signature, key and conditions parse, and the signature is one of the
delegation. -/
structure Approves (crypto : Crypto) (delegator delegatee condQuery sigstr : String) : Prop where
  conditions : ∃ q, ConditionQuery.fromStr condQuery = .ok q
  verified : ∃ sig msg key, crypto.signatureFromStr sigstr = some sig ∧
    crypto.messageFromSlice
      (crypto.sha256 ("nostr:delegation:" ++ delegatee ++ ":" ++ condQuery)) = some msg ∧
    crypto.xOnlyPublicKeyFromStr delegator = some key ∧
    crypto.verifySchnorr sig msg key = true

/-- The conversion returns the event, without a delegator unless its first
delegation was approved. -/
def Processed (crypto : Crypto) (ec : EventCmd) : Prop :=
  ∃ e, EventWrapper.from crypto ec = .ok (.wrappedEvent e) ∧
    ∀ delegator condQuery sig, ec.event.FirstDelegation delegator condQuery sig →
      ¬ Approves crypto delegator ec.event.pubkey condQuery sig → e.delegatedBy = none

section Validate

variable {crypto : Crypto} {delegator delegatee condQuery sigstr : String}

/-- A signature that does not parse is unwrapped. -/
theorem validateDelegation_panic (h : crypto.signatureFromStr sigstr = none) :
    validateDelegation crypto delegator delegatee condQuery sigstr = .panic := by
  rw [validateDelegation, h]
  rfl

/-- With a signature that parses, the check returns, with conditions only for a
delegation that is approved. -/
theorem exists_validateDelegation (h : (crypto.signatureFromStr sigstr).isSome = true) :
    ∃ r, validateDelegation crypto delegator delegatee condQuery sigstr = .ok r ∧
      (r.isSome = true → Approves crypto delegator delegatee condQuery sigstr) := by
  obtain ⟨sig, hsig⟩ := Option.isSome_iff_exists.mp h
  rw [validateDelegation, hsig, Outcome.unwrap, Outcome.ok_bind]
  rcases hmsg : crypto.messageFromSlice
      (crypto.sha256 ("nostr:delegation:" ++ delegatee ++ ":" ++ condQuery)) with _ | msg
  · exact ⟨none, rfl, fun h => by cases h⟩
  · rcases hkey : crypto.xOnlyPublicKeyFromStr delegator with _ | key
    · exact ⟨none, rfl, fun h => by cases h⟩
    · by_cases hver : crypto.verifySchnorr sig msg key = true
      · refine ⟨(ConditionQuery.fromStr condQuery).toOption, by simp only [hver, if_true]; rfl, ?_⟩
        intro hsome
        rcases hq : ConditionQuery.fromStr condQuery with err | q
        · rw [hq] at hsome
          cases hsome
        · exact ⟨⟨q, hq⟩, sig, msg, key, hsig, hmsg, hkey, hver⟩
      · exact ⟨none, by simp only [hver]; rfl, fun h => by cases h⟩

end Validate

section Author

variable {crypto : Crypto} {e : Event} {delegator condQuery sig : String}

/-- The tag that is looked at. -/
theorem find?_eq_some_iff {t : List String} :
    (e.tags.filter fun x => x.length == 4).find? (fun x => x.head? == some "delegation") =
      some t ↔ ∃ delegator condQuery sig, t = ["delegation", delegator, condQuery, sig] ∧
        e.FirstDelegation delegator condQuery sig := by
  rw [List.find?_filter, List.find?_eq_some_iff_append]
  refine ⟨?_, ?_⟩
  · rintro ⟨ht, before, after, htags, hbefore⟩
    simp only [beq_iff_eq, decide_eq_true_eq] at ht
    match t, ht with
    | [name, delegator, condQuery, sig], ht =>
      obtain rfl : name = "delegation" := Option.some.inj ht.2
      refine ⟨delegator, condQuery, sig, rfl, before, after, htags, ?_⟩
      intro x hx hshape
      have := hbefore x hx
      simp only [hshape.1, hshape.2, beq_self_eq_true, and_self, decide_true, Bool.not_true] at this
      cases this
  · rintro ⟨delegator, condQuery, sig, rfl, before, after, htags, hbefore⟩
    refine ⟨by simp, before, after, htags, ?_⟩
    intro x hx
    simpa only [Bool.not_eq_true', decide_eq_false_iff_not, beq_iff_eq] using hbefore x hx

/-- The author is the approved delegator of the first delegation, if its conditions
allow the event. -/
theorem delegatedAuthor_of_first (h : e.FirstDelegation delegator condQuery sig) :
    e.delegatedAuthor crypto = (do
      let condQuery ← validateDelegation crypto delegator e.pubkey condQuery sig
      match condQuery with
      | some q => if q.allowsEvent e then pure (some delegator) else pure none
      | none => pure none) := by
  rewrite [Event.delegatedAuthor, find?_eq_some_iff.mpr ⟨delegator, condQuery, sig, rfl, h⟩]
  rfl

/-- Without a delegation there is no delegator. -/
theorem delegatedAuthor_of_no_first (h : ∀ delegator condQuery sig,
    ¬ e.FirstDelegation delegator condQuery sig) : e.delegatedAuthor crypto = .ok none := by
  rw [Event.delegatedAuthor]
  split
  · rename_i delegator condQuery sig hfind
    obtain ⟨d, c, s, -, hfirst⟩ := find?_eq_some_iff.mp hfind
    exact absurd hfirst (h d c s)
  · rfl

/-- There is one first delegation. -/
theorem firstDelegation_unique {delegator' condQuery' sig' : String}
    (h : e.FirstDelegation delegator condQuery sig)
    (h' : e.FirstDelegation delegator' condQuery' sig') :
    delegator = delegator' ∧ condQuery = condQuery' ∧ sig = sig' := by
  have hfind := find?_eq_some_iff.mpr ⟨delegator, condQuery, sig, rfl, h⟩
  rw [find?_eq_some_iff.mpr ⟨delegator', condQuery', sig', rfl, h'⟩] at hfind
  simpa [eq_comm] using hfind

/-- The reading of the tag panics on a signature that does not parse, and returns
otherwise. -/
theorem delegatedAuthor_panic (h : e.FirstDelegation delegator condQuery sig)
    (hsig : crypto.signatureFromStr sig = none) : e.delegatedAuthor crypto = .panic := by
  rw [delegatedAuthor_of_first h, validateDelegation_panic hsig, Outcome.panic_bind]

/-- Where the signature of the first delegation parses, the delegation is decided, and a
delegator who does not approve is not entered. -/
theorem exists_delegatedAuthor (h : ∀ delegator condQuery sig,
    e.FirstDelegation delegator condQuery sig → (crypto.signatureFromStr sig).isSome = true) :
    ∃ d, e.delegatedAuthor crypto = .ok d ∧ ∀ delegator condQuery sig,
      e.FirstDelegation delegator condQuery sig →
      ¬ Approves crypto delegator e.pubkey condQuery sig → d = none := by
  by_cases hfirst : ∃ delegator condQuery sig, e.FirstDelegation delegator condQuery sig
  · obtain ⟨delegator, condQuery, sig, hfirst⟩ := hfirst
    obtain ⟨r, hr, hsome⟩ := @exists_validateDelegation crypto delegator e.pubkey
      condQuery sig (h delegator condQuery sig hfirst)
    rw [delegatedAuthor_of_first hfirst, hr, Outcome.ok_bind]
    rcases r with _ | q
    · exact ⟨none, rfl, fun _ _ _ _ _ => rfl⟩
    · refine ⟨if q.allowsEvent e then some delegator else none, ?_, ?_⟩
      · dsimp only
        split_ifs <;> rfl
      · intro delegator' condQuery' sig' hfirst' hnot
        obtain ⟨rfl, rfl, rfl⟩ := firstDelegation_unique hfirst hfirst'
        exact absurd (hsome rfl) hnot
  · simp only [not_exists] at hfirst
    exact ⟨none, delegatedAuthor_of_no_first hfirst, fun _ _ _ _ _ => rfl⟩

end Author

/-- The index does not change what is delegated. -/
theorem firstDelegation_buildIndex {e : Event} {delegator condQuery sig : String} :
    e.buildIndex.FirstDelegation delegator condQuery sig ↔
      e.FirstDelegation delegator condQuery sig := by
  rw [Event.buildIndex]
  split_ifs <;> rfl

/-- The index leaves the author as it is. -/
theorem pubkey_buildIndex (e : Event) : e.buildIndex.pubkey = e.pubkey := by
  rw [Event.buildIndex]
  split_ifs <;> rfl

/-- The conversion of an EVENT command is that of its tag. -/
theorem from_of_validated {crypto : Crypto} {ec : EventCmd} (hcmd : ec.cmd = "EVENT")
    (hv : ec.event.Validated crypto) : EventWrapper.from crypto ec =
      (ec.event.buildIndex.delegatedAuthor crypto).bind fun d =>
        .ok (.wrappedEvent { ec.event.buildIndex with delegatedBy := d }) := by
  have hok : ec.event.validate crypto = .ok () := hv
  rw [EventWrapper.from, if_pos hcmd]
  simp only [hok, Event.updateDelegation]
  rcases ec.event.buildIndex.delegatedAuthor crypto with d | err | _ <;> rfl

/-- An EVENT command with a valid event is processed exactly when its first
delegation, if it has one, carries a signature string that parses. -/
theorem conversion_returns_iff (crypto : Crypto) (ec : EventCmd) (hcmd : ec.cmd = "EVENT")
    (hv : ec.event.Validated crypto) : Processed crypto ec ↔
      ∀ delegator condQuery sig, ec.event.FirstDelegation delegator condQuery sig →
        (crypto.signatureFromStr sig).isSome = true := by
  rw [Processed, from_of_validated hcmd hv]
  refine ⟨?_, ?_⟩
  · rintro ⟨e, he, -⟩ delegator condQuery sig hfirst
    rcases hsig : crypto.signatureFromStr sig with _ | sb
    · rw [delegatedAuthor_panic (firstDelegation_buildIndex.mpr hfirst) hsig] at he
      cases he
    · rfl
  · intro h
    obtain ⟨d, hd, hnone⟩ := @exists_delegatedAuthor crypto ec.event.buildIndex
      fun delegator condQuery sig hfirst =>
        h delegator condQuery sig (firstDelegation_buildIndex.mp hfirst)
    rw [hd]
    refine ⟨_, rfl, ?_⟩
    intro delegator condQuery sig hfirst hnot
    refine hnone delegator condQuery sig (firstDelegation_buildIndex.mpr hfirst) ?_
    rwa [pubkey_buildIndex]

/-- A delegation of kind 1. -/
def sampleToken : Recorded.Token where
  text := "nostr:delegation:5cbdf0646e5db4eaa398f365f2ea7a0e3d419b7e0330e39ce92bddedcac4f9bc:kind=1"
  digest := 0xd8531bde3ca4a12fa469f22a6c390d49a5ccae58a7b723d980ebdfa0f2bc918a
  delegator := 0x2f01e5e15cca351daff3843fb70f3c2f0a1bdd05e5af888a67784ef3e10a2a01
  sigR := 0x1e7fc7df5c4b5c0aa8d6c495094bcec149e4f7f489eeddb0c01621942ca9ea6b
  sigS := 0xf1f0520366cb36727267c72e5f34c5c7ff957307adf4a6c64b64d37e00488f17

/-- The hex text of the delegator's key. -/
def sampleDelegator : String := Hex.encode (Hex.ofNat 32 sampleToken.delegator)

/-- A note under this delegation. -/
def sampleApproved : Recorded where
  id := 0xdd1e9b93af9f9fc04ab9ee48c46357b99c5caeed4ba880e861979866f3e0cb8d
  pubkey := 0x5cbdf0646e5db4eaa398f365f2ea7a0e3d419b7e0330e39ce92bddedcac4f9bc
  sigR := 0x714d9468dc9c10585e6e438f57f9ded59151065bbea72f2f65dee8e1639fca95
  sigS := 0x4ef8eb5b0bb195327e6c235c21576b57eaec61df082f820468206d0f16a4c3ac
  createdAt := 1700000085
  kind := 1
  tags := [["delegation", sampleDelegator, "kind=1", Hex.encode sampleToken.sigBytes]]
  content := "hello"

/-- A note with an empty delegation. -/
def sampleDelegated : Recorded where
  id := 0x67272c816eac9f3ddb6b30535ac84983d35ba1dfce16ec66b8560f70d737938c
  pubkey := 0x5cbdf0646e5db4eaa398f365f2ea7a0e3d419b7e0330e39ce92bddedcac4f9bc
  sigR := 0x0b08b4dacaf829198a324d8ae102266babee73fc0045358dc54d746ba3662445
  sigS := 0x639d98bce568c696fe205ef273f33e80420b4d544c30868aff60f318c200f5b9
  createdAt := 1700000300
  kind := 1
  tags := [["delegation", "", "", ""]]
  content := "on behalf of nobody"

/-- The command that publishes it. -/
def sampleDelegatedCmd : EventCmd := ⟨"EVENT", sampleDelegated.event⟩

theorem sampleDelegated_validated :
    sampleDelegatedCmd.event.Validated (Recorded.crypto [sampleDelegated]) :=
  @Recorded.validated [sampleDelegated] (List.nodup_singleton _) _ List.mem_cons_self

theorem sampleDelegated_first : sampleDelegatedCmd.event.FirstDelegation "" "" "" :=
  ⟨[], [], rfl, fun _ ht => absurd ht List.not_mem_nil⟩

theorem sampleDelegated_signature :
    (Recorded.crypto [sampleDelegated]).signatureFromStr "" = none := by
  decide +kernel

/-- The command that publishes the approved note. -/
def sampleApprovedCmd : EventCmd := ⟨"EVENT", sampleApproved.event⟩

theorem sampleApproved_validated :
    sampleApprovedCmd.event.Validated (Recorded.cryptoWith sampleToken [sampleApproved]) := by
  have hne : sampleApproved.event.toCanonical ≠ some sampleToken.text := by
    decide +kernel
  exact @Recorded.validated_cryptoWith [sampleApproved] sampleToken (List.nodup_singleton _)
    _ List.mem_cons_self hne

theorem sampleApproved_first : sampleApprovedCmd.event.FirstDelegation sampleDelegator "kind=1"
    (Hex.encode sampleToken.sigBytes) :=
  ⟨[], [], rfl, fun _ ht => absurd ht List.not_mem_nil⟩

theorem sampleApproved_signature :
    ((Recorded.cryptoWith sampleToken [sampleApproved]).signatureFromStr
      (Hex.encode sampleToken.sigBytes)).isSome = true := by
  decide +kernel

/-- The note with the token of its delegation is processed, that with an empty one
is not. -/
theorem sampleApproved_processed :
    Processed (Recorded.cryptoWith sampleToken [sampleApproved]) sampleApprovedCmd ∧
      ¬ Processed (Recorded.crypto [sampleDelegated]) sampleDelegatedCmd := by
  refine ⟨?_, ?_⟩
  · refine (conversion_returns_iff _ _ rfl sampleApproved_validated).mpr ?_
    intro delegator condQuery sig hfirst
    obtain ⟨-, -, rfl⟩ := firstDelegation_unique sampleApproved_first hfirst
    exact sampleApproved_signature
  · rw [conversion_returns_iff _ _ rfl sampleDelegated_validated]
    intro h
    have := h "" "" "" sampleDelegated_first
    rw [sampleDelegated_signature] at this
    cases this

/-- The conversion of that command panics. -/
theorem sampleDelegated_panics : ¬ ∀ (crypto : Crypto) (ec : EventCmd), ec.cmd = "EVENT" →
    ec.event.Validated crypto → Processed crypto ec := by
  intro h
  obtain ⟨e, he, -⟩ := h _ sampleDelegatedCmd rfl sampleDelegated_validated
  rw [from_of_validated rfl sampleDelegated_validated,
    delegatedAuthor_panic (firstDelegation_buildIndex.mpr sampleDelegated_first)
      sampleDelegated_signature] at he
  cases he

end Delegation

end Floonet
