import Floonet.Lib.Url
import Floonet.Payment.Processor

/-!
# Where an invoice is asked for

Both processors ask their server for the status of an invoice by a `GET` that carries the secret of
the operator, with the id of the invoice at the end of the path. The id comes from a webhook, so
from anyone. GoblinPay's processor lets only ids of plain characters through and appends them to its
base URL. LNbits' processor joins the URL of its endpoint with the id as a reference, whatever it is
(`status_query_iff`).
-/

namespace Floonet.Payment

open Web (Url Authority Scheme Resolved WholeSegment percentEncode pathSet)

/-! ## LNbits

The id is joined to the URL of the endpoint as a reference. It stays one segment exactly when the
parser reads it as a path of one segment and escapes nothing. -/

namespace LnBits

/-- Where the node answers about payments. -/
def APIPATH : String := "/api/v1/payments/"

/-- The libraries that the processor asks with. -/
structure Client where
  /-- the parser of authorities -/
  authority : Scheme → List Char → Option Authority
  /-- the URL is read as a URI, and the HTTP client sends requests to it -/
  sends : Url → Bool

variable (client : Client) (node : Url)

/-- `Url::parse(node_url)?.join(APIPATH)?.join(payment_hash)?`. -/
def invoiceUrl (paymentHash : String) : Resolved :=
  match Web.resolve client.authority node APIPATH with
  | .url endpoint => Web.resolve client.authority endpoint paymentHash
  | r => r

/-- The request of `check_invoice`. A URL of another scheme is none that the HTTP client knows. -/
def checkInvoiceRequest (paymentHash : String) : Option Url :=
  match invoiceUrl client node paymentHash with
  | .url u => if client.sends u then some u else none
  | _ => none

/-- The request goes to the node, at the path of its invoices followed by the id as one segment. -/
structure ToInvoice (node : Url) (paymentHash : String) (u : Url) : Prop where
  scheme : u.scheme = node.scheme
  host : u.authority.host = node.authority.host
  port : u.authority.port = node.authority.port
  path : u.path = ["api", "v1", "payments", percentEncode pathSet paymentHash.toList]
  single : ∀ c ∈ paymentHash.toList, Web.isSlash c = false
  noQuery : u.query = none

/-- The URL of the endpoint. -/
def endpoint (node : Url) : Url :=
  { node with path := ["api", "v1", "payments", ""], query := none, fragment := none }

/-- The endpoint of a node without a path. -/
theorem resolve_apiPath (authority : Scheme → List Char → Option Authority) :
    Web.resolve authority node APIPATH = .url (endpoint node) := by
  rfl

variable {client : Client} {node : Url} {paymentHash : String} {u : Url}

/-- A request goes to what the hash resolves to. -/
theorem checkInvoiceRequest_eq_some : checkInvoiceRequest client node paymentHash = some u ↔
    Web.resolve client.authority (endpoint node) paymentHash = .url u ∧ client.sends u = true := by
  simp only [checkInvoiceRequest, invoiceUrl, resolve_apiPath]
  cases Web.resolve client.authority (endpoint node) paymentHash with
  | failure => simp
  | other => simp
  | url v =>
    simp only [Option.ite_none_right_eq_some, Option.some.injEq, Resolved.url.injEq]
    exact ⟨fun ⟨hsends, hu⟩ => ⟨hu, hu ▸ hsends⟩, fun ⟨hu, hsends⟩ => ⟨hu ▸ hsends, hu⟩⟩

/-- A request goes to the invoice exactly if the id is a segment as it stands. -/
theorem toInvoice_iff (h : checkInvoiceRequest client node paymentHash = some u) :
    ToInvoice node paymentHash u ↔ WholeSegment paymentHash := by
  obtain ⟨hu, -⟩ := checkInvoiceRequest_eq_some.mp h
  have hlast : (endpoint node).path.getLast? = some "" := rfl
  refine ⟨fun hto => Web.wholeSegment_of_last hlast hu (by rw [hto.path]; rfl), fun hwhole => ?_⟩
  rw [Web.resolve_of_wholeSegment hlast rfl hwhole] at hu
  cases hu
  exact ⟨rfl, rfl, rfl, rfl, fun c hc => (hwhole.segment.chars c hc).1, rfl⟩

end LnBits

/-! ## GoblinPay

The id is checked first: its characters are letters, digits, `_` and `-`. None of them ends a
segment or is escaped. -/

namespace GoblinPay

/-- A request target in absolute form. A fragment is not part of it. -/
structure Uri where
  scheme : String
  authority : String
  path : String
  query : Option String

/-- The character ends the host and port of a URL. -/
def endsAuthority (c : Char) : Bool := c == '/' || Web.endsPath c

/-- `Uri::from_str`, as far as the parts go. Without a scheme there is no absolute form. -/
def Uri.fromStr (cs : List Char) : Option Uri :=
  match cs.dropWhile (· != ':') with
  | ':' :: '/' :: '/' :: rest =>
    let target := rest.dropWhile (!endsAuthority ·)
    let query := (target.dropWhile (!Web.endsPath ·)).takeWhile (· != '#')
    some
      { scheme := String.ofList (cs.takeWhile (· != ':'))
        authority := String.ofList (rest.takeWhile (!endsAuthority ·))
        path := String.ofList (target.takeWhile (!Web.endsPath ·))
        query := if query = [] then none else some (String.ofList query.tail) }
  | _ => none

/-- The configured URL of the server: a scheme, an authority and a path. -/
structure ServerUrl where
  scheme : List Char
  authority : List Char
  path : List Char
  scheme_chars : ∀ c ∈ scheme, c ≠ ':'
  authority_chars : ∀ c ∈ authority, endsAuthority c = false
  authority_ne_nil : authority ≠ []
  path_chars : ∀ c ∈ path, Web.endsPath c = false
  path_head : ∀ c ∈ path.head?, c = '/'

/-- The URL as it is configured. -/
def ServerUrl.text (server : ServerUrl) : List Char :=
  server.scheme ++ ':' :: '/' :: '/' :: (server.authority ++ server.path)

/-- `base_url.trim_end_matches('/')`. -/
def ServerUrl.baseUrl (server : ServerUrl) : List Char := server.text.rdropWhile (· == '/')

/-- The request of `check_invoice`; `accepts` is whether its target is a URI and the HTTP client
sends requests to it. -/
def checkInvoiceRequest (accepts : Uri → Bool) (server : ServerUrl) (paymentHash : String) :
    Option Uri :=
  -- never let a crafted value alter the request path
  if paymentHash.toList.all idChar then
    match Uri.fromStr (server.baseUrl ++ "/invoice/".toList ++ paymentHash.toList) with
    | some u => if accepts u then some u else none
    | none => none
  else none

/-- The request goes to the server, at the path of its invoices followed by the id as one
segment. -/
structure ToInvoice (server : ServerUrl) (paymentHash : String) (u : Uri) : Prop where
  scheme : u.scheme.toList = server.scheme
  authority : u.authority.toList = server.authority
  path : u.path.toList =
    server.path.rdropWhile (· == '/') ++ "/invoice/".toList ++ paymentHash.toList
  single : ∀ c ∈ paymentHash.toList, Web.isSlash c = false
  noQuery : u.query = none

section Server

variable (server : ServerUrl)

/-- Trimming ends before the authority does. -/
theorem ServerUrl.baseUrl_eq : server.baseUrl =
    server.scheme ++ ':' :: '/' :: '/' ::
      (server.authority ++ server.path.rdropWhile (· == '/')) := by
  have happend : ∀ l : List Char, l ≠ [] → (∀ c ∈ l.getLast?, (c == '/') = false) →
      ∀ p : List Char, (l ++ p).rdropWhile (· == '/') = l ++ p.rdropWhile (· == '/') := by
    intro l hl hlast p
    induction p using List.reverseRecOn with
    | nil =>
      rw [List.append_nil, List.rdropWhile_nil, List.append_nil, List.rdropWhile_eq_self_iff]
      intro hne
      simpa using hlast _ (List.getLast_mem_getLast? hne)
    | append_singleton p c ih =>
      rw [← List.append_assoc, List.rdropWhile_concat, List.rdropWhile_concat, ih]
      split_ifs
      · rfl
      · rw [List.append_assoc]
  have hlast : ∀ c ∈ (server.scheme ++ ':' :: '/' :: '/' :: server.authority).getLast?,
      (c == '/') = false := by
    intro c hc
    have hauthority : c ∈ server.authority.getLast? := by
      obtain ⟨init, d, hd⟩ := List.eq_nil_or_concat server.authority |>.resolve_left
        server.authority_ne_nil
      rw [List.concat_eq_append] at hd
      have hconcat : server.scheme ++ ':' :: '/' :: '/' :: (init ++ [d]) =
          (server.scheme ++ ':' :: '/' :: '/' :: init) ++ [d] := by simp
      rw [hd, hconcat, List.getLast?_concat] at hc
      rwa [hd, List.getLast?_concat]
    have hends := server.authority_chars c (List.mem_of_mem_getLast? hauthority)
    rw [endsAuthority, Bool.or_eq_false_iff] at hends
    exact hends.1
  have h := happend _ (by simp) hlast server.path
  rw [ServerUrl.baseUrl, ServerUrl.text]
  simpa using h

theorem idChar_facts {c : Char} (h : idChar c = true) :
    Web.endsPath c = false ∧ Web.isSlash c = false := by
  have hne : ∀ d : Char, idChar d = false → (c == d) = false := by
    intro d hd
    rw [beq_eq_false_iff_ne]
    rintro rfl
    rw [h] at hd
    cases hd
  simp only [Web.endsPath, Web.isSlash, Bool.or_eq_false_iff]
  exact ⟨⟨hne _ (by decide), hne _ (by decide)⟩, hne _ (by decide), hne _ (by decide)⟩

theorem takeWhile_append_of_stop {p : Char → Bool} {l m : List Char} (hl : ∀ c ∈ l, p c = true)
    (hm : ∀ c ∈ m.head?, p c = false) :
    (l ++ m).takeWhile p = l ∧ (l ++ m).dropWhile p = m := by
  rw [List.takeWhile_append_of_pos hl, List.dropWhile_append_of_pos hl]
  cases m with
  | nil => simp
  | cons c m => simp [hm c rfl]

/-- Every request goes to the invoice. -/
theorem toInvoice {accepts : Uri → Bool} {paymentHash : String} {u : Uri}
    (h : checkInvoiceRequest accepts server paymentHash = some u) :
    ToInvoice server paymentHash u := by
  rw [checkInvoiceRequest] at h
  split_ifs at h with hid
  rw [List.all_eq_true] at hid
  have hfacts := fun c hc => idChar_facts (hid c hc)
  let path := server.path.rdropWhile (· == '/') ++ "/invoice/".toList ++ paymentHash.toList
  have hpath : ∀ c ∈ path, Web.endsPath c = false := by
    intro c hc
    rcases List.mem_append.mp hc with hc | hc
    · rcases List.mem_append.mp hc with hc | hc
      · exact server.path_chars c ((List.rdropWhile_prefix _ _).sublist.subset hc)
      · have hall : "/invoice/".toList.all (!Web.endsPath ·) = true := by decide
        simpa using List.all_eq_true.mp hall c hc
    · exact (hfacts c hc).1
  have hstart : ∀ c ∈ path.head?, (!endsAuthority c) = false := by
    intro c hc
    obtain rfl : c = '/' := by
      rcases hp : server.path.rdropWhile (· == '/') with _ | ⟨d, p⟩
      · simp only [path, hp] at hc
        exact (Option.some.inj hc).symm
      · simp only [path, hp, List.cons_append, List.head?_cons, Option.mem_def,
          Option.some.injEq] at hc
        obtain ⟨r, hr⟩ := List.rdropWhile_prefix (· == '/') server.path
        refine server.path_head c ?_
        rw [← hr, hp, ← hc]
        rfl
    decide
  have htext : server.baseUrl ++ "/invoice/".toList ++ paymentHash.toList =
      server.scheme ++ ':' :: '/' :: '/' :: (server.authority ++ path) := by
    rw [server.baseUrl_eq]
    simp [path]
  obtain ⟨hscheme, hrest⟩ := takeWhile_append_of_stop (p := (· != ':')) (l := server.scheme)
    (m := ':' :: '/' :: '/' :: (server.authority ++ path))
    (fun c hc => by simpa using server.scheme_chars c hc) (by simp)
  obtain ⟨hauthority, htarget⟩ := takeWhile_append_of_stop (p := (!endsAuthority ·))
    (l := server.authority) (m := path)
    (fun c hc => by simpa using server.authority_chars c hc) hstart
  have hall : ∀ c ∈ path, (!Web.endsPath c) = true := fun c hc => by simpa using hpath c hc
  have htake : path.takeWhile (!Web.endsPath ·) = path := List.takeWhile_eq_self_iff.mpr hall
  have hdrop : path.dropWhile (!Web.endsPath ·) = [] := List.dropWhile_eq_nil_iff.mpr hall
  have huri : Uri.fromStr (server.scheme ++ ':' :: '/' :: '/' :: (server.authority ++ path)) =
      some { scheme := String.ofList server.scheme, authority := String.ofList server.authority,
             path := String.ofList path, query := none } := by
    simp only [Uri.fromStr, hscheme, hrest, hauthority, htarget, htake, hdrop]
    rfl
  rw [htext, huri] at h
  simp only [Option.ite_none_right_eq_some, Option.some.injEq] at h
  obtain ⟨-, rfl⟩ := h
  exact ⟨String.toList_ofList .., String.toList_ofList .., String.toList_ofList ..,
    fun c hc => (hfacts c hc).2, rfl⟩

end Server

end GoblinPay

/-- **A webhook does not redirect a query.** For every id, LNbits' processor sends its request to
the path of that invoice on the node if and only if the id leads to no request at all or is a path
segment as it stands; it is the same for each single request. GoblinPay's processor always does. -/
theorem status_query_iff (client : LnBits.Client) (node : Url) (accepts : GoblinPay.Uri → Bool)
    (server : GoblinPay.ServerUrl) (paymentHash : String) :
    ((∀ u, LnBits.checkInvoiceRequest client node paymentHash = some u →
        LnBits.ToInvoice node paymentHash u) ↔
      (∀ u, Web.resolve client.authority (LnBits.endpoint node) paymentHash = .url u →
        client.sends u = false) ∨ WholeSegment paymentHash) ∧
    (∀ u, LnBits.checkInvoiceRequest client node paymentHash = some u →
      (LnBits.ToInvoice node paymentHash u ↔ WholeSegment paymentHash)) ∧
    ∀ u, GoblinPay.checkInvoiceRequest accepts server paymentHash = some u →
      GoblinPay.ToInvoice server paymentHash u := by
  refine ⟨⟨fun h => ?_, ?_⟩, fun u hu => LnBits.toInvoice_iff hu, fun u hu =>
    GoblinPay.toInvoice server hu⟩
  · by_cases hsent : ∃ u, LnBits.checkInvoiceRequest client node paymentHash = some u
    · obtain ⟨u, hu⟩ := hsent
      exact .inr ((LnBits.toInvoice_iff hu).mp (h u hu))
    · refine .inl fun u hu => ?_
      by_contra hsends
      exact hsent ⟨u, LnBits.checkInvoiceRequest_eq_some.mpr ⟨hu, by simpa using hsends⟩⟩
  · rintro (hnone | hwhole) u hu
    · obtain ⟨hresolve, hsends⟩ := LnBits.checkInvoiceRequest_eq_some.mp hu
      rw [hnone u hresolve] at hsends
      cases hsends
    · exact (LnBits.toInvoice_iff hu).mpr hwhole

/-- A client that takes authorities as they are, and sends to `https` only. -/
def LnBits.sampleClient : LnBits.Client where
  authority _ cs := if cs = [] then none else some ⟨"", String.ofList cs, none⟩
  sends u := u.scheme == .https

/-- A node without a path. -/
def LnBits.sampleNode : Url where
  scheme := .https
  authority := ⟨"", "node.example", none⟩
  path := [""]
  query := none
  fragment := none

/-- An id that names a host, and one that climbs up. -/
theorem LnBits.sample_redirected :
    (∃ u, checkInvoiceRequest sampleClient sampleNode "//evil.example/x" = some u ∧
      u.authority.host = "evil.example" ∧ ¬ ToInvoice sampleNode "//evil.example/x" u) ∧
    ∃ u, checkInvoiceRequest sampleClient sampleNode "../wallet" = some u ∧
      u.path = ["api", "v1", "wallet"] ∧ ¬ ToInvoice sampleNode "../wallet" u := by
  have hhost : checkInvoiceRequest sampleClient sampleNode "//evil.example/x" =
      some ⟨.https, ⟨"", "evil.example", none⟩, ["x"], none, none⟩ := by
    decide +kernel
  have hpath : checkInvoiceRequest sampleClient sampleNode "../wallet" =
      some ⟨.https, ⟨"", "node.example", none⟩, ["api", "v1", "wallet"], none, none⟩ := by
    decide +kernel
  exact ⟨⟨_, hhost, rfl, fun h => absurd h.host (by decide)⟩,
    ⟨_, hpath, rfl, fun h => absurd (congrArg List.length h.path) (by decide)⟩⟩

end Floonet.Payment
