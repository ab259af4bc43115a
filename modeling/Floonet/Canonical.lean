import Floonet.Recorded

/-!
# The signed text

The text an event is signed over determines what is signed: two events have one
text exactly when they agree on everything but id and signature
(`Event.toCanonical_eq_iff`). Where the hash does not collide on them, validated
events with one id are therefore the same up to their signatures.
-/

namespace Floonet

namespace Event

variable {crypto : Crypto} {e f : Event}

/-- The canonical form knows nothing but the body. -/
theorem SameBody.toCanonical (h : e.SameBody f) : e.toCanonical = f.toCanonical := by
  simp only [Event.toCanonical, tagsToCanonical, h.pubkey, h.createdAt, h.kind, h.tags, h.content]

/-- The signed text says what is signed, and nothing else. -/
theorem toCanonical_eq_iff : e.toCanonical = f.toCanonical ↔ e.SameBody f :=
  ⟨fun h => sameBody_of_toCanonical rfl (h ▸ rfl), SameBody.toCanonical⟩

/-- Events with one text have one digest, so validated ones have one id. -/
theorem Validated.id_eq_of_sameBody (he : e.Validated crypto) (hf : f.Validated crypto)
    (h : e.SameBody f) : e.id = f.id := by
  obtain ⟨c, -, hc, hid, -⟩ := he.inv
  obtain ⟨d, -, hd, hid', -⟩ := hf.inv
  have hcd : c = d := Option.some.inj (by rw [← hc, ← hd, h.toCanonical])
  rw [hid, hid', hcd]

/-- The id of a validated event stands for what is signed. -/
theorem Validated.id_eq_iff (hn : crypto.NoCollision [e, f]) (he : e.Validated crypto)
    (hf : f.Validated crypto) : e.id = f.id ↔ e.SameBody f := by
  refine ⟨?_, he.id_eq_of_sameBody hf⟩
  exact he.sameBody hn List.mem_cons_self (List.mem_cons_of_mem _ List.mem_cons_self) hf

/-- The signed serialization is unambiguous. -/
theorem serialization_unambiguous (crypto : Crypto) (e f : Event) :
    (e.toCanonical = f.toCanonical → e.SameBody f) ∧
      (crypto.NoCollision [e, f] → e.Validated crypto → f.Validated crypto → e.id = f.id →
        e.SameBody f) := by
  refine ⟨toCanonical_eq_iff.mp, ?_⟩
  intro hn he hf hid
  exact (he.id_eq_iff hn hf).mp hid

/-- A note, and the same note with another signature of its author. -/
def sampleSigned : Recorded where
  id := 0x6b1906384264da4b70329107f4fc994109fc1b7ec326aac01f4dccf95f33aa08
  pubkey := 0x5cbdf0646e5db4eaa398f365f2ea7a0e3d419b7e0330e39ce92bddedcac4f9bc
  sigR := 0x6faf449a167bfb209c629f972bcc7d4bdaaf8416889a52f42ea318b970cbb1eb
  sigS := 0xa0542d15d3d3034f834f2e74ec841617d71c747ee9871ddc2ee63c9666731603
  createdAt := 1700000400
  kind := 1
  tags := [["t", "grin"], ["e"], []]
  content := "signed twice"

/-- The same event with another signature. -/
def sampleSignedAgain : Recorded :=
  { sampleSigned with
    sigR := 0x88e583a721e58c9bd07f81e3f059bb63ed760baa304b4e0495221fc24052da93
    sigS := 0x27673ea0f639cec558d51d6475ae3eeaf47e89f69a422837b0e4f5e56c54c952 }

/-- The library on the two. -/
def sampleLibrary : Crypto := Recorded.crypto [sampleSigned, sampleSignedAgain]

theorem sampleSigned_sameBody : sampleSigned.event.SameBody sampleSignedAgain.event := by
  have hn : sampleLibrary.NoCollision [sampleSigned.event, sampleSignedAgain.event] := by
    intro x hx y hy _
    simp only [List.mem_cons, List.not_mem_nil, or_false] at hx hy
    rcases hx with rfl | rfl <;> rcases hy with rfl | rfl <;> rfl
  have hv : sampleSigned.event.Validated sampleLibrary := by
    rw [Event.Validated]
    decide +kernel
  have hv' : sampleSignedAgain.event.Validated sampleLibrary := by
    rw [Event.Validated]
    decide +kernel
  exact (serialization_unambiguous sampleLibrary _ _).2 hn hv hv' rfl

end Event

end Floonet
