import Mathlib.Data.Prod.Lex
import Mathlib.Order.WithBot
import Floonet.Nip05
import Floonet.Payment.Ledger
import Floonet.Sqlite.Schema

/-!
# Looking verifications up

The two queries on `user_verification`: the latest record of an author, which decides
whether the author may publish, and the record that has waited longest for a check. In an
`ORDER BY` a `NULL` is smaller than every number.
-/

namespace Floonet.Sqlite

open Payment (RepoError)

variable (eng : Sql.Engine) (isAlphanumeric : Char → Bool) (db : Db)

/-- The verifications with their metadata events. -/
def verifications : List (VerificationRow × EventRow) :=
  db.userVerification.filterMap fun v =>
    (db.events.find? fun e => e.id == v.metadataEvent).map fun e => (v, e)

/-- The record of a row; a name that does not parse is an error. -/
def toRecord (address : String) (x : VerificationRow × EventRow) :
    Except RepoError VerificationRecord :=
  match Nip05Name.tryFrom isAlphanumeric x.1.name with
  | none => .error .other
  | some name => .ok
    { rowid := x.1.id
      name := name
      address := address
      event := Hex.encode x.2.eventHash
      eventCreated := x.2.createdAt
      lastSuccess := x.1.verifiedAt
      lastFailure := x.1.failedAt
      failureCount := x.1.failureCount }

/-- `ORDER BY e.created_at DESC, v.verified_at DESC, v.failed_at DESC`. -/
def latestKey (x : VerificationRow × EventRow) : Nat ×ₗ WithBot Nat ×ₗ WithBot Nat :=
  toLex (x.2.createdAt, toLex (x.1.verifiedAt, x.1.failedAt))

/-- Get latest verification for a pubkey. -/
def getLatestUserVerification (pubKey : String) : Except RepoError VerificationRecord :=
  let rows := (verifications db).filter fun x => some x.2.author == Hex.decode pubKey
  match Sql.orderByDesc eng latestKey rows with
  | [] => .error .noRows
  | x :: _ => toRecord isAlphanumeric pubKey x

/-- `ORDER BY v.verified_at ASC, v.failed_at ASC`. -/
def oldestKey (x : VerificationRow × EventRow) : (WithBot Nat ×ₗ WithBot Nat)ᵒᵈ :=
  OrderDual.toDual (toLex (x.1.verifiedAt, x.1.failedAt))

/-- Get oldest verification before timestamp. -/
def getOldestUserVerification (earliest : Nat) : Except RepoError VerificationRecord :=
  if fitsI64 earliest then
    let rows := (verifications db).filter fun x =>
      x.1.verifiedAt.all (· < earliest) && x.1.failedAt.all (· < earliest)
    match Sql.orderByDesc eng oldestKey rows with
    | [] => .error .noRows
    | x :: _ => toRecord isAlphanumeric (Hex.encode x.2.author) x
  else .error .other

/-! ## An empty table -/

variable {eng isAlphanumeric db}

theorem verifications_nil (h : db.userVerification = []) : verifications db = [] := by
  rw [verifications, h, List.filterMap_nil]

/-- Nobody is verified in an empty table. -/
theorem getLatestUserVerification_nil (h : db.userVerification = []) (pubKey : String) :
    getLatestUserVerification eng isAlphanumeric db pubKey = .error .noRows := by
  simp only [getLatestUserVerification, verifications_nil h, List.filter_nil, Sql.orderByDesc_nil]

theorem getOldestUserVerification_nil (eng : Sql.Engine) (isAlphanumeric : Char → Bool)
    (h : db.userVerification = []) (earliest : Nat) :
    ∃ err, getOldestUserVerification eng isAlphanumeric db earliest = .error err := by
  rw [getOldestUserVerification]
  split_ifs
  · simp only [verifications_nil h, List.filter_nil, Sql.orderByDesc_nil]
    exact ⟨_, rfl⟩
  · exact ⟨_, rfl⟩

end Floonet.Sqlite
