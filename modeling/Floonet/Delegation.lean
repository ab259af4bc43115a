import Floonet.Lib.Outcome
import Floonet.Event

/-!
# Delegation and the conversion of EVENT commands

NIP-26 delegation as `delegation.rs` reads it: a condition string is cut at `&`,
each piece is matched against one regular expression and turned into a field, an
operator and a list of numbers. `delegatedAuthor` looks at the first four-element
`delegation` tag only. The signature string is parsed with `unwrap`, so the whole
conversion of a command lives in `Outcome`.
-/

namespace Floonet

namespace Delegation

/-- A field of an event that a condition may speak of. -/
inductive Field where
  | kind
  | createdAt
  deriving DecidableEq

/-- A comparison in a condition. -/
inductive Operator where
  | lessThan
  | greaterThan
  | equals
  | notEquals
  deriving DecidableEq

/-- Parsed delegation condition, such as the two of `kind=1,2,3&created_at<1665265999`. -/
structure Condition where
  field : Field
  operator : Operator
  values : List Nat
  deriving DecidableEq

/-- The conditions of a delegation, all of which an event has to meet. -/
structure ConditionQuery where
  conditions : List Condition
  deriving DecidableEq

/-- The field of a name. -/
def Field.fromStr (value : String) : Except Error Field :=
  if value = "kind" then .ok .kind
  else if value = "created_at" then .ok .createdAt
  else .error .delegationParseError

/-- The operator of its first symbol. -/
def Operator.fromStr (value : String) : Except Error Operator :=
  if value = "<" then .ok .lessThan
  else if value = ">" then .ok .greaterThan
  else if value = "=" then .ok .equals
  else if value = "!" then .ok .notEquals
  else .error .delegationParseError

/-- Check if this condition allows the given event to be delegated. -/
def Condition.allowsEvent (c : Condition) (event : Event) : Bool :=
  let resolvedField := match c.field with
    | .kind => event.kind
    | .createdAt => event.createdAt
  match c.operator, c.values with
  -- the two order comparisons are only valid for single values
  | .lessThan, [v] => resolvedField < v
  | .greaterThan, [v] => v < resolvedField
  | .equals, vs => vs.any fun x => resolvedField == x
  | .notEquals, vs => vs.all fun x => resolvedField != x
  | _, _ => false

/-- Every condition allows the event. -/
def ConditionQuery.allowsEvent (q : ConditionQuery) (event : Event) : Bool :=
  q.conditions.all fun c => c.allowsEvent event

/-! ## Parsing conditions -/

/-- `[[:word:]]` -/
def isWord (c : Char) : Bool := c.isAlphanum || c == '_'

/-- `[<>=!]` -/
def isOperatorChar (c : Char) : Bool := c == '<' || c == '>' || c == '=' || c == '!'

/-- `[,[[:digit:]]]` -/
def isValueChar (c : Char) : Bool := c == ',' || c.isDigit

/-- The captures of the leftmost match of `([[:word:]]+)([<>=!]+)([,[[:digit:]]]*)`.
The three classes are disjoint at the borders, so each group is a maximal run. -/
def captures : List Char → Option (List Char × List Char × List Char)
  | [] => none
  | c :: cs =>
    let field := (c :: cs).takeWhile isWord
    let rest := (c :: cs).dropWhile isWord
    let operator := rest.takeWhile isOperatorChar
    if field.isEmpty || operator.isEmpty then captures cs
    else some (field, operator, (rest.dropWhile isOperatorChar).takeWhile isValueChar)

/-- `str::split_terminator`: a trailing separator ends the last piece instead of
starting an empty one. -/
def splitTerminator (sep : Char) (s : List Char) : List (List Char) :=
  let parts := s.splitOn sep
  if parts.getLast? = some [] then parts.dropLast else parts

/-- One condition, from what the pattern captures of it. -/
def strToCondition (cs : List Char) : Option Condition := do
  let (field, operator, rawvals) ← captures cs
  let field ← (Field.fromStr (String.ofList field)).toOption
  let operator ← (Operator.fromStr (String.ofList operator)).toOption
  let values ← (splitTerminator ',' rawvals).mapM fun n => parseU64 (String.ofList n)
  pure { field, operator, values }

/-- Parse a condition query from a string slice. -/
def ConditionQuery.fromStr (value : String) : Except Error ConditionQuery :=
  match (splitTerminator '&' value.toList).mapM strToCondition with
  | some conditions => .ok { conditions }
  | none => .error .delegationParseError

/-- Verify that the delegator approved the delegation; return a `ConditionQuery`
if so. -/
def validateDelegation (crypto : Crypto) (delegator delegatee condQuery sigstr : String) :
    Outcome Error (Option ConditionQuery) := do
  let tok := "nostr:delegation:" ++ delegatee ++ ":" ++ condQuery
  let digest := crypto.sha256 tok
  let sig ← Outcome.unwrap (crypto.signatureFromStr sigstr)
  match crypto.messageFromSlice digest with
  | some msg =>
    match crypto.xOnlyPublicKeyFromStr delegator with
    | some pubkey =>
      if crypto.verifySchnorr sig msg pubkey then
        pure (ConditionQuery.fromStr condQuery).toOption
      else pure none
    | none => pure none
  | none => pure none

end Delegation

/-! ## The author an event is delegated by -/

namespace Event

/-- The alternate author of a properly delegated event: the signature of the
first delegation tag matches and its conditions allow the event. -/
def delegatedAuthor (crypto : Crypto) (e : Event) : Outcome Error (Option String) :=
  match (e.tags.filter fun x => x.length == 4).find? fun x => x.head? == some "delegation" with
  | some [_, delegator, querystr, sig] => do
    let condQuery ← Delegation.validateDelegation crypto delegator e.pubkey querystr sig
    match condQuery with
    | some q => if q.allowsEvent e then pure (some delegator) else pure none
    | none => pure none
  | _ => pure none

/-- Update delegation status. -/
def updateDelegation (crypto : Crypto) (e : Event) : Outcome Error Event := do
  let delegatedBy ← e.delegatedAuthor crypto
  pure { e with delegatedBy }

end Event

/-- Event command in network format. -/
structure EventCmd where
  cmd : String
  event : Event

/-- A command of a client with an event, once it is validated. -/
inductive EventWrapper where
  | wrappedEvent : Event → EventWrapper
  | wrappedAuth : Event → EventWrapper

/-- Convert network event to parsed/validated event. -/
def EventWrapper.from (crypto : Crypto) (ec : EventCmd) : Outcome Error EventWrapper :=
  if ec.cmd = "EVENT" then
    match ec.event.validate crypto with
    | .error err => .err err
    | .ok () => do
      let e ← ec.event.buildIndex.updateDelegation crypto
      pure (.wrappedEvent e)
  else if ec.cmd = "AUTH" then .ok (.wrappedAuth ec.event)
  else .err .commandUnknownError

/-- A command as the deserializer leaves it: the skipped fields have their
defaults. -/
def EventCmd.Deserialized (ec : EventCmd) : Prop :=
  ec.event.delegatedBy = none ∧ ec.event.tagidx = none

/-- Inversion for the conversion of an EVENT command. -/
theorem EventWrapper.from_eq_wrappedEvent {crypto : Crypto} {ec : EventCmd} {e : Event}
    (h : EventWrapper.from crypto ec = .ok (.wrappedEvent e)) :
    ec.event.Validated crypto ∧ ∃ d, ec.event.buildIndex.delegatedAuthor crypto = .ok d ∧
      e = { ec.event.buildIndex with delegatedBy := d } := by
  rw [EventWrapper.from] at h
  split_ifs at h with hcmd hauth
  · rcases hv : ec.event.validate crypto with err | u <;> simp only [hv] at h
    · cases h
    · obtain ⟨e', he', hpure⟩ := Outcome.bind_eq_ok h
      obtain ⟨d, hd, hd'⟩ := Outcome.bind_eq_ok he'
      cases hpure
      cases hd'
      exact ⟨hv, d, hd, rfl⟩
  · cases h

/-- Inversion for the conversion of an AUTH command. -/
theorem EventWrapper.from_eq_wrappedAuth {crypto : Crypto} {ec : EventCmd} {e : Event}
    (h : EventWrapper.from crypto ec = .ok (.wrappedAuth e)) : ec.cmd = "AUTH" ∧ e = ec.event := by
  rw [EventWrapper.from] at h
  split_ifs at h with hcmd hauth
  · rcases hv : ec.event.validate crypto with err | u <;> simp only [hv] at h
    · cases h
    · obtain ⟨e', -, hpure⟩ := Outcome.bind_eq_ok h
      cases hpure
  · cases h
    exact ⟨hauth, rfl⟩

end Floonet
