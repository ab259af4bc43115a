import Mathlib.Data.List.DropRight
import Mathlib.Data.List.Basic
import Mathlib.Tactic.Common
import Floonet.Lib.Hex

/-!
# URL references

Resolution of a reference against the URL of a web server, as the URL standard has it for schemes
with a host (`http`, `https` and the like): blanks around the reference are dropped, then it is
absolute, names another authority, starts a path, is relative to the path of the base, or is a
query or a fragment alone. The parser of authorities is a parameter.

A path is the list of its segments, and the path state (`pathState`) goes through the characters one
by one, with the segment so far in a buffer. Whatever the reference, the last segment of the result
is a piece of it (`resolve_last`), and it is the whole reference exactly if that is one segment as it
stands (`resolve_of_wholeSegment`, `wholeSegment_of_last`).
-/

namespace Web

/-! ## URLs -/

/-- The schemes with an authority and segments, apart from `file`. -/
inductive Scheme where
  | http
  | https
  | ws
  | wss
  | ftp
  deriving DecidableEq

/-- The scheme of a name, if it is a special one. -/
def Scheme.ofName (s : String) : Option Scheme :=
  if s = "http" then some .http
  else if s = "https" then some .https
  else if s = "ws" then some .ws
  else if s = "wss" then some .wss
  else if s = "ftp" then some .ftp
  else none

/-- What stands between the scheme and the path. -/
structure Authority where
  userinfo : String
  host : String
  port : Option Nat
  deriving DecidableEq

/-- A parsed URL. -/
structure Url where
  scheme : Scheme
  authority : Authority
  /-- the segments of the path -/
  path : List String
  query : Option String
  fragment : Option String
  deriving DecidableEq

/-- What a reference leads to. -/
inductive Resolved where
  | failure
  /-- a URL of another scheme -/
  | other
  | url (u : Url)
  deriving DecidableEq

/-! ## Percent-encoding -/

/-- A hex digit in upper case. -/
def upperDigit (n : Nat) : Char := if n < 10 then Char.ofNat (48 + n) else Char.ofNat (55 + n)

/-- C0 controls and everything beyond ASCII. -/
def controlSet (c : Char) : Bool := c.toNat < 32 || 126 < c.toNat

/-- What is escaped in a fragment. -/
def fragmentSet (c : Char) : Bool := controlSet c || [32, 34, 60, 62, 96].contains c.toNat

/-- The set of queries under these schemes. -/
def querySet (c : Char) : Bool := controlSet c || [32, 34, 35, 39, 60, 62].contains c.toNat

/-- What is escaped in a path. -/
def pathSet (c : Char) : Bool :=
  controlSet c || [32, 34, 35, 60, 62, 63, 94, 96, 123, 125].contains c.toNat

/-- A character, escaped byte by byte if it is in the set. -/
def percentEncodeChar (set : Char → Bool) (c : Char) : List Char :=
  if set c then
    (String.utf8EncodeChar c).flatMap fun b =>
      ['%', upperDigit (b.toNat / 16), upperDigit (b.toNat % 16)]
  else [c]

/-- A text with the characters of the set escaped. -/
def percentEncode (set : Char → Bool) (cs : List Char) : String :=
  String.ofList (cs.flatMap (percentEncodeChar set))

/-! ## The parser -/

/-- What is cut off at both ends. -/
def isC0OrSpace (c : Char) : Bool := c.toNat ≤ 32

/-- What is dropped everywhere. -/
def isTabOrNewline (c : Char) : Bool := c.toNat == 9 || c.toNat == 10 || c.toNat == 13

/-- Leading and trailing controls and spaces go, and tabs and newlines everywhere. -/
def trimmed (cs : List Char) : List Char :=
  ((cs.dropWhile isC0OrSpace).rdropWhile isC0OrSpace).filter fun c => !isTabOrNewline c

/-- A character of a scheme. -/
def isSchemeChar (c : Char) : Bool := c.isAlphanum || c == '+' || c == '-' || c == '.'

/-- The scheme in front of a colon, in lower case, and what follows the colon. -/
def schemePrefix (cs : List Char) : Option (String × List Char) :=
  match cs with
  | [] => none
  | c :: _ =>
    if c.isAlpha then
      match cs.dropWhile isSchemeChar with
      | ':' :: rest => some (String.ofList ((cs.takeWhile isSchemeChar).map Char.toLower), rest)
      | _ => none
    else none

/-- Both slashes separate segments. -/
def isSlash (c : Char) : Bool := c == '/' || c == '\\'

/-- The end of a path. -/
def endsPath (c : Char) : Bool := c == '?' || c == '#'

/-- The segment stays where it is. -/
def isSingleDot (s : List Char) : Bool := [".", "%2e"].contains (String.ofList (s.map Char.toLower))

/-- The segment goes up. -/
def isDoubleDot (s : List Char) : Bool :=
  ["..", ".%2e", "%2e.", "%2e%2e"].contains (String.ofList (s.map Char.toLower))

/-- A segment that ends at a slash. -/
def closeSegment (path : List String) (buffer : List Char) : List String :=
  if isDoubleDot buffer then path.dropLast
  else if isSingleDot buffer then path
  else path ++ [percentEncode pathSet buffer]

/-- The segment at the end of the path. -/
def lastSegment (path : List String) (buffer : List Char) : List String :=
  if isDoubleDot buffer then path.dropLast ++ [""]
  else if isSingleDot buffer then path ++ [""]
  else path ++ [percentEncode pathSet buffer]

/-- The path, and what follows it. -/
def pathState (path : List String) (buffer : List Char) : List Char → List String × List Char
  | [] => (lastSegment path buffer, [])
  | c :: cs =>
    if isSlash c then pathState (closeSegment path buffer) [] cs
    else if endsPath c then (lastSegment path buffer, c :: cs)
    else pathState path (buffer ++ [c]) cs

/-- A query, if there is one, and the fragment. -/
def queryAndFragment (cs : List Char) : Option String × Option String :=
  let query := match cs with
    | '?' :: q => some (percentEncode querySet (q.takeWhile (· != '#')))
    | _ => none
  let fragment := match cs.dropWhile (· != '#') with
    | '#' :: fr => some (percentEncode fragmentSet fr)
    | _ => none
  (query, fragment)

/-- The URL with a path and what follows it. -/
def withPath (scheme : Scheme) (authority : Authority) (p : List String × List Char) : Url where
  scheme := scheme
  authority := authority
  path := p.1
  query := (queryAndFragment p.2).1
  fragment := (queryAndFragment p.2).2

section Resolve

variable (authority : Scheme → List Char → Option Authority)

/-- A reference from its authority on. -/
def afterSlashes (scheme : Scheme) (cs : List Char) : Resolved :=
  match authority scheme (cs.takeWhile fun c => !isSlash c && !endsPath c) with
  | none => .failure
  | some a =>
    match cs.dropWhile fun c => !isSlash c && !endsPath c with
    | [] => .url (withPath scheme a (pathState [] [] []))
    | c :: rest => .url (withPath scheme a (pathState [] [] (if isSlash c then rest else c :: rest)))

/-- A reference without a scheme. -/
def relative (base : Url) : List Char → Resolved
  | [] => .url { base with fragment := none }
  | c :: cs =>
    if 2 ≤ ((c :: cs).takeWhile isSlash).length then
      afterSlashes authority base.scheme ((c :: cs).dropWhile isSlash)
    else if isSlash c then .url (withPath base.scheme base.authority (pathState [] [] cs))
    else if c == '?' then .url (withPath base.scheme base.authority (base.path, c :: cs))
    else if c == '#' then .url { base with fragment := (queryAndFragment (c :: cs)).2 }
    else .url (withPath base.scheme base.authority (pathState base.path.dropLast [] (c :: cs)))

/-- A reference, resolved against a base. -/
def resolve (base : Url) (reference : String) : Resolved :=
  let cs := trimmed reference.toList
  match schemePrefix cs with
  | some (name, rest) =>
    match Scheme.ofName name with
    | none => .other
    | some scheme =>
      if scheme = base.scheme ∧ (rest.takeWhile isSlash).length < 2 then relative authority base rest
      else afterSlashes authority scheme (rest.dropWhile isSlash)
  | none => relative authority base cs

end Resolve

/-! ## Segments -/

/-- A segment that the path state keeps as it is, up to encoding. -/
structure Segment (w : List Char) : Prop where
  chars : ∀ c ∈ w, isSlash c = false ∧ endsPath c = false
  notSingleDot : isSingleDot w = false
  notDoubleDot : isDoubleDot w = false

theorem segment_nil : Segment [] := ⟨fun _ h => absurd h List.not_mem_nil, by decide, by decide⟩

theorem length_percentEncodeChar_pos (set : Char → Bool) (c : Char) :
    1 ≤ (percentEncodeChar set c).length := by
  rw [percentEncodeChar]
  split_ifs
  · obtain ⟨b, bs, hb⟩ : ∃ b bs, String.utf8EncodeChar c = b :: bs :=
      List.exists_cons_of_ne_nil (by simp)
    rw [hb]
    simp
  · exact le_rfl

/-- A shorter piece has a shorter encoding. -/
theorem length_percentEncode_le {set : Char → Bool} {w cs : List Char} (h : w.Sublist cs) :
    (percentEncode set w).toList.length + cs.length ≤
      (percentEncode set cs).toList.length + w.length := by
  simp only [percentEncode, String.toList_ofList]
  induction h with
  | slnil => exact le_rfl
  | cons c _ ih =>
    have := length_percentEncodeChar_pos set c
    rw [List.flatMap_cons, List.length_append, List.length_cons]
    omega
  | cons_cons c _ ih =>
    rw [List.flatMap_cons, List.flatMap_cons, List.length_append, List.length_append,
      List.length_cons, List.length_cons]
    omega

/-- A part of a text that is escaped like the whole is the whole. -/
theorem eq_of_percentEncode_eq {set : Char → Bool} {w cs : List Char} (h : w.Sublist cs)
    (heq : percentEncode set w = percentEncode set cs) : w = cs := by
  have hle : (percentEncode set w).toList.length + cs.length ≤
      (percentEncode set cs).toList.length + w.length := length_percentEncode_le h
  rw [heq] at hle
  exact h.eq_of_length_le (by omega)

theorem trimmed_sublist (cs : List Char) : (trimmed cs).Sublist cs :=
  (List.filter_sublist.trans (List.rdropWhile_prefix _ _).sublist).trans
    (List.dropWhile_sublist _)

/-- What is left after the scheme is part of the text. -/
theorem sublist_of_schemePrefix {cs rest : List Char} {name : String}
    (h : schemePrefix cs = some (name, rest)) : (':' :: rest).Sublist cs := by
  cases cs with
  | nil => cases h
  | cons c cs =>
    simp only [schemePrefix] at h
    split_ifs at h
    split at h
    · rename_i rest' heq
      cases h
      exact heq ▸ List.dropWhile_sublist _
    · cases h

/-! ## The last segment -/

/-- The last segment is a piece of these characters. -/
def LastFrom (path : List String) (cs : List Char) : Prop :=
  ∃ w, path.getLast? = some (percentEncode pathSet w) ∧ Segment w ∧ w.Sublist cs

/-- More text to take the last segment from. -/
theorem LastFrom.mono {path : List String} {cs ds : List Char} (h : LastFrom path cs)
    (hsub : cs.Sublist ds) : LastFrom path ds := by
  obtain ⟨w, hlast, hseg, hw⟩ := h
  exact ⟨w, hlast, hseg, hw.trans hsub⟩

/-- The empty segment comes from any text. -/
theorem lastFrom_of_empty {path : List String} (h : path.getLast? = some "") (cs : List Char) :
    LastFrom path cs := ⟨[], h, segment_nil, List.nil_sublist _⟩

/-- The last segment comes from the buffer. -/
theorem lastFrom_lastSegment (path : List String) {buffer : List Char}
    (hb : ∀ c ∈ buffer, isSlash c = false ∧ endsPath c = false) (cs : List Char) :
    LastFrom (lastSegment path buffer) (buffer ++ cs) := by
  rw [lastSegment]
  split_ifs with hdouble hsingle
  · exact lastFrom_of_empty List.getLast?_concat _
  · exact lastFrom_of_empty List.getLast?_concat _
  · exact ⟨buffer, List.getLast?_concat, ⟨hb, by simpa using hsingle, by simpa using hdouble⟩,
      List.sublist_append_left ..⟩

/-- The last segment of a path comes from its text. -/
theorem lastFrom_pathState (path : List String) {buffer : List Char} (cs : List Char)
    (hb : ∀ c ∈ buffer, isSlash c = false ∧ endsPath c = false) :
    LastFrom (pathState path buffer cs).1 (buffer ++ cs) := by
  induction cs generalizing path buffer with
  | nil => exact lastFrom_lastSegment path hb []
  | cons c cs ih =>
    rw [pathState]
    split_ifs with hslash hends
    · refine (ih _ fun _ h => absurd h List.not_mem_nil).mono ?_
      exact (List.sublist_cons_self c cs).trans (List.sublist_append_right ..)
    · exact lastFrom_lastSegment path hb _
    · have hb' : ∀ d ∈ buffer ++ [c], isSlash d = false ∧ endsPath d = false := by
        intro d hd
        rcases List.mem_append.mp hd with hd | hd
        · exact hb d hd
        · rw [List.mem_singleton.mp hd]
          exact ⟨by simpa using hslash, by simpa using hends⟩
      have h := ih path hb'
      rwa [List.append_assoc, List.singleton_append] at h

/-- A path of one segment. -/
theorem pathState_of_chars (path : List String) {buffer cs : List Char}
    (h : ∀ c ∈ cs, isSlash c = false ∧ endsPath c = false) :
    pathState path buffer cs = (lastSegment path (buffer ++ cs), []) := by
  induction cs generalizing buffer with
  | nil => rw [pathState, List.append_nil]
  | cons c cs ih =>
    obtain ⟨⟨hslash, hends⟩, hcs⟩ := List.forall_mem_cons.mp h
    rw [pathState, hslash, hends, if_neg Bool.false_ne_true, if_neg Bool.false_ne_true, ih hcs,
      List.append_assoc, List.singleton_append]

section Resolve

variable {authority : Scheme → List Char → Option Authority} {base u : Url}

/-- The last segment of a URL with a host comes from its text. -/
theorem lastFrom_afterSlashes {scheme : Scheme} {cs : List Char}
    (h : afterSlashes authority scheme cs = .url u) : LastFrom u.path cs := by
  rw [afterSlashes] at h
  split at h
  · cases h
  · have hdrop := List.dropWhile_sublist (l := cs) fun c => !isSlash c && !endsPath c
    split at h
    · cases h
      exact (lastFrom_pathState [] [] fun _ h => absurd h List.not_mem_nil).mono (List.nil_sublist _)
    · rename_i c rest heq
      rw [heq] at hdrop
      cases h
      refine (lastFrom_pathState [] _ fun _ h => absurd h List.not_mem_nil).mono ?_
      rw [List.nil_append]
      split_ifs
      · exact (List.sublist_cons_self c rest).trans hdrop
      · exact hdrop

/-- The last segment of a relative URL comes from its text. -/
theorem lastFrom_relative (hbase : base.path.getLast? = some "") {cs : List Char}
    (h : relative authority base cs = .url u) : LastFrom u.path cs := by
  cases cs with
  | nil =>
    cases h
    exact lastFrom_of_empty hbase _
  | cons c cs =>
    rw [relative] at h
    split_ifs at h
    · exact (lastFrom_afterSlashes h).mono (List.dropWhile_sublist _)
    · cases h
      exact (lastFrom_pathState [] cs fun _ h => absurd h List.not_mem_nil).mono
        (List.sublist_cons_self c cs)
    · cases h
      exact lastFrom_of_empty hbase _
    · cases h
      exact lastFrom_of_empty hbase _
    · cases h
      exact lastFrom_pathState _ (c :: cs) fun _ h => absurd h List.not_mem_nil

/-- Whatever the reference, the last segment is a piece of it, and of what follows its scheme. -/
theorem resolve_last (hbase : base.path.getLast? = some "") {reference : String}
    (h : resolve authority base reference = .url u) :
    LastFrom u.path (trimmed reference.toList) ∧
      ∀ name rest, schemePrefix (trimmed reference.toList) = some (name, rest) →
        LastFrom u.path rest := by
  simp only [resolve] at h
  split at h
  · rename_i name rest hscheme
    have hlast : LastFrom u.path rest := by
      split at h
      · cases h
      · split_ifs at h
        · exact lastFrom_relative hbase h
        · exact (lastFrom_afterSlashes h).mono (List.dropWhile_sublist _)
    refine ⟨hlast.mono ((List.sublist_cons_self _ _).trans (sublist_of_schemePrefix hscheme)), ?_⟩
    intro name' rest' hscheme'
    rw [hscheme] at hscheme'
    cases hscheme'
    exact hlast
  · rename_i hscheme
    exact ⟨lastFrom_relative hbase h, fun name rest hs => by rw [hscheme] at hs; cases hs⟩

/-! ## References that are one segment

Such a reference replaces the last segment of the base. What it must not contain is read off the
states it would lead to. -/

/-- The reference is a segment as it stands: no blanks around it, no tabs or newlines, nothing that
separates segments or ends the path, no scheme, and no dot segment. -/
structure WholeSegment (reference : String) : Prop where
  segment : Segment reference.toList
  first : ∀ c ∈ reference.toList.head?, isC0OrSpace c = false
  last : ∀ c ∈ reference.toList.getLast?, isC0OrSpace c = false
  unbroken : ∀ c ∈ reference.toList, isTabOrNewline c = false
  noScheme : schemePrefix reference.toList = none

/-- What trimming leaves alone. -/
theorem trimmed_eq_self_iff {cs : List Char} : trimmed cs = cs ↔
    (∀ c ∈ cs.head?, isC0OrSpace c = false) ∧ (∀ c ∈ cs.getLast?, isC0OrSpace c = false) ∧
      ∀ c ∈ cs, isTabOrNewline c = false := by
  have hfirst : cs.dropWhile isC0OrSpace = cs ↔ ∀ c ∈ cs.head?, isC0OrSpace c = false := by
    cases cs with
    | nil => simp
    | cons c cs => simp [List.dropWhile_eq_self_iff]
  have hlast : cs.rdropWhile isC0OrSpace = cs ↔ ∀ c ∈ cs.getLast?, isC0OrSpace c = false := by
    rw [List.rdropWhile_eq_self_iff]
    refine ⟨fun h c hc => ?_, fun h hne => ?_⟩
    · obtain ⟨hne, rfl⟩ := List.mem_getLast?_eq_getLast hc
      simpa using h hne
    · simpa using h _ (List.getLast_mem_getLast? hne)
  have hbreak : (cs.filter fun c => !isTabOrNewline c) = cs ↔
      ∀ c ∈ cs, isTabOrNewline c = false := by
    simp only [List.filter_eq_self, Bool.not_eq_true']
  rw [← hfirst, ← hlast, ← hbreak]
  refine ⟨fun h => ?_, fun ⟨h₁, h₂, h₃⟩ => by rw [trimmed, h₁, h₂, h₃]⟩
  -- no step of the trimming can drop anything
  have hdrop := List.dropWhile_sublist (l := cs) isC0OrSpace
  have hrdrop := (List.rdropWhile_prefix isC0OrSpace (cs.dropWhile isC0OrSpace)).sublist
  have hfilter := List.filter_sublist (l := (cs.dropWhile isC0OrSpace).rdropWhile isC0OrSpace)
    (p := fun c => !isTabOrNewline c)
  rw [trimmed] at h
  rw [h] at hfilter
  have h₁ := hdrop.antisymm (hfilter.trans hrdrop)
  rw [h₁] at hrdrop hfilter h
  have h₂ := hrdrop.antisymm hfilter
  rw [h₂] at h
  exact ⟨h₁, h₂, h⟩

/-- A whole segment takes the place of the last segment of the base. -/
theorem resolve_of_wholeSegment (hbase : base.path.getLast? = some "") (hquery : base.query = none)
    {reference : String} (h : WholeSegment reference) :
    resolve authority base reference = .url
      { base with
        path := base.path.dropLast ++ [percentEncode pathSet reference.toList]
        fragment := none } := by
  have htrim := trimmed_eq_self_iff.mpr ⟨h.first, h.last, h.unbroken⟩
  simp only [resolve, htrim, h.noScheme]
  have hseg := h.segment
  rcases hcs : reference.toList with _ | ⟨c, cs⟩
  · have hpath : base.path.dropLast ++ [""] = base.path := by
      obtain ⟨p, hp⟩ := List.getLast?_eq_some_iff.mp hbase
      rw [hp, List.dropLast_concat]
    rw [relative]
    change _ = Resolved.url { base with path := base.path.dropLast ++ [""], fragment := none }
    rw [hpath]
  · rw [hcs] at hseg
    obtain ⟨hslash, hends⟩ := hseg.chars c (List.mem_cons_self ..)
    rw [endsPath, Bool.or_eq_false_iff] at hends
    have hlastSegment : lastSegment base.path.dropLast ([] ++ c :: cs) =
        base.path.dropLast ++ [percentEncode pathSet (c :: cs)] := by
      rw [List.nil_append, lastSegment, hseg.notDoubleDot, hseg.notSingleDot,
        if_neg Bool.false_ne_true, if_neg Bool.false_ne_true]
    rw [relative, if_neg (by simp [hslash]), hslash, hends.1, hends.2, if_neg Bool.false_ne_true,
      if_neg Bool.false_ne_true, if_neg Bool.false_ne_true, pathState_of_chars _ hseg.chars,
      hlastSegment, withPath, hquery]
    rfl

/-- Only a whole segment becomes the last segment as a whole. -/
theorem wholeSegment_of_last (hbase : base.path.getLast? = some "") {reference : String}
    (h : resolve authority base reference = .url u)
    (hlast : u.path.getLast? = some (percentEncode pathSet reference.toList)) :
    WholeSegment reference := by
  obtain ⟨⟨w, hw, hseg, hsub⟩, hrest⟩ := resolve_last hbase h
  rw [hlast, Option.some.injEq] at hw
  have hwhole := eq_of_percentEncode_eq (hsub.trans (trimmed_sublist _)) hw.symm
  rw [hwhole] at hseg hsub
  have htrim := (trimmed_sublist reference.toList).antisymm hsub
  obtain ⟨hfirst, hend, hbreak⟩ := trimmed_eq_self_iff.mp htrim
  refine ⟨hseg, hfirst, hend, hbreak, ?_⟩
  rcases hs : schemePrefix reference.toList with _ | ⟨name, rest⟩
  · rfl
  · rw [htrim] at hrest
    obtain ⟨w', hw', -, hsub'⟩ := hrest name rest hs
    rw [hlast, Option.some.injEq] at hw'
    have hcons := sublist_of_schemePrefix hs
    have hall := eq_of_percentEncode_eq
      (hsub'.trans ((List.sublist_cons_self _ _).trans hcons)) hw'.symm
    rw [hall] at hsub'
    have hlen := hcons.length_le.trans hsub'.length_le
    rw [List.length_cons] at hlen
    omega

end Resolve

end Web
