/-
# Platform.NetFetch -- requests to public destinations

A redirect is followed by hand, so that each hop has its destination checked and its
connection pinned to the addresses that were checked.  The target, the addresses, the
headers, the method and the allowance are carried from one hop to the next; the resolver,
the servers and the signal may do as they like at each call.

`Allowed` is what holds of every request, given what was done before it.  One hop keeps it
(`wp_hopOnce`), and so does the whole chain (`netFetch_guarded`).
-/
import Kiagent.Platform.NetAddress
import Kiagent.Store.FtsQuery
import Kiagent.Theory.Async
import Mathlib

namespace Kiagent.Platform.Net

open Theory
open Store.FtsQuery (isSpace)

set_option autoImplicit false

/-! ## Requests -/

abbrev FetchBody := List UInt8

abbrev Headers := List (Text × Text)

/-- What the code reads of a parsed URL; an implicit port is none. -/
structure NetUrl where
  protocol : Text
  hostname : Text
  port : Option Nat
  origin : Text
  href : Text
  deriving DecidableEq

def NetUrl.isHttp (u : NetUrl) : Bool := u.protocol = "http:".toList || u.protocol = "https:".toList

structure NetFetchInit where
  method : Option Text
  headers : Headers
  body : Option FetchBody

/-- What is sent, and the dispatcher it is sent through. -/
structure NetRequest where
  target : Text
  method : Option Text
  headers : Headers
  body : Option FetchBody
  hostname : Text
  addresses : List Text

/-- The names of its headers are in small letters. -/
structure NetResponse where
  status : Nat
  statusText : Text
  headers : Headers

/-- The chunks of a body, and why no more of them come, if it did not end. -/
structure BodyStream where
  chunks : List FetchBody
  failure : Option String

structure NetFetchResult where
  status : Nat
  statusText : Text
  headers : Headers
  body : FetchBody

structure NetFetchOptions where
  maxBytes : Nat
  maxRedirects : Nat
  /-- Of compiled test builds only. -/
  allowLoopbackPort : Option Nat

/-! ## What is awaited -/

/-- `signal` fails if there is a signal and it was aborted. -/
inductive NetOp where
  | signal
  | lookup (hostname : Text)
  | fetch (request : NetRequest)
  | drain (response : NetResponse)
  | close

abbrev NetOp.Answer : NetOp → Type
  | .signal => Unit
  | .lookup _ => List Text
  | .fetch _ => NetResponse
  | .drain _ => BodyStream
  | .close => Unit

abbrev NetFn := Async NetOp NetOp.Answer

/-- What comes of the next call, whichever it is. -/
structure NetFate where
  signal : Except String Unit
  lookup : Except String (List Text)
  fetch : Except String NetResponse
  drain : Except String BodyStream
  close : Except String Unit

/-- What was done. -/
inductive NetEvent where
  | resolved (hostname : Text) (answer : Except String (List Text))
  | requested (request : NetRequest) (answer : Except String NetResponse)
  | drained (response : NetResponse) (stream : Except String BodyStream)

/-- The last comes first. -/
abbrev NetLog := List NetEvent

def netAct : (op : NetOp) → NetLog → NetFate → Except String op.Answer × NetLog
  | .signal, log, fate => (fate.signal, log)
  | .lookup hostname, log, fate => (fate.lookup, .resolved hostname fate.lookup :: log)
  | .fetch request, log, fate => (fate.fetch, .requested request fate.fetch :: log)
  | .drain response, log, fate => (fate.drain, .drained response fate.drain :: log)
  | .close, log, fate => (fate.close, log)

def checkSignal : NetFn Unit := Async.call NetOp.signal

def lookup (hostname : Text) : NetFn (List Text) := Async.call (NetOp.lookup hostname)

def fetchImpl (request : NetRequest) : NetFn NetResponse := Async.call (NetOp.fetch request)

def drain (res : NetResponse) : NetFn BodyStream := Async.call (NetOp.drain res)

def closeDispatcher : NetFn Unit := Async.call NetOp.close

/-- It ends as `x` does, unless the signal is aborted before. -/
def raceAbort {α : Type} (x : NetFn α) : NetFn α := do
  let r ← x.attempt
  checkSignal
  Async.rethrow r

/-- Nor is `work` begun if it was aborted already. -/
def raceAbortWork {α : Type} (work : NetFn α) : NetFn α := do
  checkSignal
  raceAbort work

/-! ## The test allowance -/

/-- `live` is revoked for good the moment any hop is not the allowed origin. -/
structure LoopbackAllowance where
  port : Option Nat
  live : Bool

def TEST_LOOPBACK_HOST : Text := "127.0.0.1".toList

def effectivePort (u : NetUrl) : Nat :=
  u.port.getD (if u.protocol = "https:".toList then 443 else 80)

def hasControlOrSpace (raw : Text) : Bool := raw.any fun c => c.toNat ≤ 0x20

/-- `http://127.0.0.1:<port>` -/
def allowedOrigin (port : Nat) : Text :=
  "http://".toList ++ TEST_LOOPBACK_HOST ++ ":".toList ++ Nat.toDigits 10 port

def exactAllowedPrefix (raw : Text) (port : Nat) : Bool :=
  !hasControlOrSpace raw && (allowedOrigin port <+: raw : Bool) &&
    match raw.drop (allowedOrigin port).length with
    | [] => true
    | next :: _ => next = '/' || next = '?' || next = '#'

def firstHopAllowed (raw : Text) (parsed : NetUrl) (allow : LoopbackAllowance) : Bool :=
  match allow.port with
  | none => false
  | some port =>
      allow.live && exactAllowedPrefix raw port && parsed.protocol = "http:".toList &&
        parsed.hostname = TEST_LOOPBACK_HOST && effectivePort parsed = port

/-- `/^[a-z][a-z0-9+.-]*:/i` -/
def hasScheme : Text → Bool
  | [] => false
  | c :: cs =>
      c.isAlpha &&
        (cs.dropWhile fun d => d.isAlphanum || d = '+' || d = '.' || d = '-').head? = some ':'

/-- A path-relative reference. -/
def isPathRelative (raw : Text) : Bool :=
  !hasControlOrSpace raw &&
    match raw with
    | [] => true
    | '/' :: rest => rest.head? ≠ some '\\' && rest.head? ≠ some '/'
    | c :: _ => c ≠ '\\' && !isSpace c && 0x1f < c.toNat && !hasScheme raw

def redirectAllowed (raw : Text) (resolved : NetUrl) (allow : LoopbackAllowance) : Bool :=
  match allow.port with
  | none => false
  | some port =>
      allow.live && resolved.origin = allowedOrigin port &&
        (exactAllowedPrefix raw port || isPathRelative raw)

/-! ## The destination -/

/-- `net.isIP`, of an address that may have a zone. -/
def isIP (t : Text) : Bool :=
  (parse4 t).isSome || (parse6 t).isSome ||
    match t.span (· ≠ '%') with
    | (u, _ :: zone) =>
        (parse6 u).isSome && zone ≠ [] &&
          zone.all fun c => c.isAlphanum || c = '-' || c = '.' || c = ':'
    | (_, []) => false

def refusing (hostname : Text) (why : String) : String :=
  "net.fetch: refusing to connect to " ++ String.ofList hostname ++ " — " ++ why ++
    ". Extensions may only reach public internet destinations."

def cannotResolve (hostname : Text) (why : String) : String :=
  "net.fetch: cannot resolve " ++ String.ofList hostname ++ ": " ++ why

/-- The first address that is not public. -/
def blockedAddress : List Text → Option (Text × String)
  | [] => none
  | a :: rest =>
      match classifyAddress a with
      | some reason => some (a, reason)
      | none => blockedAddress rest

def validatedAddresses (hostname : Text) (loopbackAllowed : Bool) : NetFn (List Text) := do
  let bare := unbracket hostname
  if loopbackAllowed && bare = TEST_LOOPBACK_HOST then pure [TEST_LOOPBACK_HOST]
  else if isIP bare then
    match classifyAddress bare with
    | some reason => throw (refusing hostname ("that is " ++ reason))
    | none => pure [bare]
  else do
    let addresses ← tryCatch (lookup bare) fun message =>
      throw (cannotResolve hostname message)
    if addresses = [] then throw (cannotResolve hostname "no addresses returned")
    else
      match blockedAddress addresses with
      | some (a, reason) =>
          throw (refusing hostname
            ("it resolves to " ++ String.ofList a ++ ", which is " ++ reason))
      | none => pure addresses

/-- The addresses, and what is left of the allowance. -/
def validateHop (parsed : NetUrl) (allow : LoopbackAllowance) (onAllowed : Bool) :
    NetFn (List Text × LoopbackAllowance) := do
  let addresses ← validatedAddresses parsed.hostname onAllowed
  pure (addresses, { allow with live := allow.live && onAllowed })

/-! ## One hop -/

def CROSS_ORIGIN_STRIPPED : List Text :=
  ["authorization".toList, "cookie".toList, "proxy-authorization".toList]

/-- `toLowerCase`, as far as the name of a header goes: the Kelvin sign is a letter of one. -/
def smallLetter (c : Char) : Char := if c = Char.ofNat 0x212a then 'k' else c.toLower

def isCredential (name : Text) : Bool := CROSS_ORIGIN_STRIPPED.contains (name.map smallLetter)

/-- `toUpperCase`, as far as `POST` goes: two ligatures and the long s have its letters. -/
def bigLetter (c : Char) : Text :=
  if c = Char.ofNat 0x17f then ['S']
  else if c = Char.ofNat 0xfb05 ∨ c = Char.ofNat 0xfb06 then ['S', 'T']
  else [c.toUpper]

def isPost (method : Option Text) : Bool :=
  (method.getD "GET".toList).flatMap bigLetter = "POST".toList

def REDIRECT_STATUS : List Nat := [301, 302, 303, 307, 308]

/-- An absent header, or an empty one, is none. -/
def NetResponse.location (res : NetResponse) : Option Text :=
  ((res.headers.find? fun h => h.1 = "location".toList).map Prod.snd).filter (· ≠ [])

/-- `Object.fromEntries`: a name keeps its place and gets its last value. -/
def fromEntries (entries : Headers) : Headers :=
  entries.foldl (fun done h =>
    if done.any fun d => d.1 = h.1 then done.map fun d => if d.1 = h.1 then h else d
    else done ++ [h]) []

/-- `Number`, of a length that was declared as one. -/
def declaredLength (res : NetResponse) : Option Nat :=
  (res.headers.find? fun h => h.1 = "content-length".toList).bind fun h =>
    if h.2 = [] then none else (h.2.mapM decDigit).map (digitsValue 10)

def overLimit (maxBytes : Nat) : String :=
  "net.fetch: response exceeds the " ++ toString (maxBytes / (1024 * 1024)) ++ " MiB limit"

/-- The running total is checked, whatever was declared. -/
def gather (maxBytes : Nat) : List FetchBody → FetchBody → Except String FetchBody
  | [], body => .ok body
  | chunk :: rest, body =>
      if maxBytes < (body ++ chunk).length then .error (overLimit maxBytes)
      else gather maxBytes rest (body ++ chunk)

def readBoundedBody (res : NetResponse) (maxBytes : Nat) : NetFn FetchBody := do
  Async.require ((declaredLength res).all (· ≤ maxBytes)) (overLimit maxBytes)
  let stream ← raceAbort (drain res)
  let body ← Async.rethrow (gather maxBytes stream.chunks [])
  match stream.failure with
  | some message => throw message
  | none => pure body

/-- The variables of the loop. -/
structure Hop where
  target : Text
  method : Option Text
  headers : Headers
  body : Option FetchBody
  addresses : List Text
  allow : LoopbackAllowance

def Hop.request (hop : Hop) (hostname : Text) : NetRequest where
  target := hop.target
  method := hop.method
  headers := hop.headers
  body := hop.body
  hostname
  addresses := hop.addresses

def crossed (headers : Headers) : Headers := headers.filter fun h => !isCredential h.1

def turnsToGet (status : Nat) (method : Option Text) : Bool :=
  status = 303 || ((status = 301 || status = 302) && isPost method)

def onlyHttp : String := "net.fetch only supports http(s) URLs"

def tooMany (maxRedirects : Nat) (origin : Text) : String :=
  "net.fetch: too many redirects (over " ++ toString maxRedirects ++ ") starting at " ++
    String.ofList origin

section Fetch

variable (parseUrl : Text → Option Text → Option NetUrl)

/-- To where a redirect leads; `parseUrl` is `new URL`, with or without a base. -/
def redirected (hop : Hop) (origin location : Text) (status : Nat) : NetFn Hop := do
  match parseUrl location (some hop.target) with
  | none => throw "Invalid URL"
  | some parsed => do
      Async.require (parsed.isHttp = true) onlyHttp
      let (addresses, allow) ← raceAbort
        (validateHop parsed hop.allow (redirectAllowed location parsed hop.allow))
      let headers := if parsed.origin ≠ origin then crossed hop.headers else hop.headers
      let get := turnsToGet status hop.method
      pure
        { target := parsed.href
          method := if get then some "GET".toList else hop.method
          headers
          body := if get then none else hop.body
          addresses
          allow }

/-- The result, or the next hop; `left` redirects may still be followed. -/
def hopOnce (options : NetFetchOptions) (origin : Text) (left : Nat) (hop : Hop) :
    NetFn (NetFetchResult ⊕ Hop) := do
  match parseUrl hop.target none with
  | none => throw "Invalid URL"
  | some url =>
      Async.afterwards (do
        let res ← raceAbortWork (fetchImpl (hop.request url.hostname))
        match (if res.status ∈ REDIRECT_STATUS then res.location else none) with
        | none => do
            let body ← readBoundedBody res options.maxBytes
            pure (.inl ⟨res.status, res.statusText, fromEntries res.headers, body⟩)
        | some location => do
            Async.require (left ≠ 0) (tooMany options.maxRedirects origin)
            let next ← redirected parseUrl hop origin location res.status
            pure (.inr next)) closeDispatcher

def follow (options : NetFetchOptions) (origin : Text) : Nat → Hop → NetFn NetFetchResult
  | left, hop => do
      match ← hopOnce parseUrl options origin left hop with
      | .inl result => pure result
      | .inr next =>
          match left with
          | 0 => throw (tooMany options.maxRedirects origin)
          | left + 1 => follow options origin left next

/-- Where it begins. -/
def initialHop (url : Text) (allow : LoopbackAllowance) :
    NetFn (NetUrl × List Text × LoopbackAllowance) := do
  match parseUrl url none with
  | none => throw ("net.fetch: not a valid URL: " ++ String.ofList url)
  | some parsed => do
      Async.require (parsed.isHttp = true) onlyHttp
      let found ← validateHop parsed allow (firstHopAllowed url parsed allow)
      pure (parsed, found)

def netFetch (options : NetFetchOptions) (url : Text) (init : NetFetchInit) :
    NetFn NetFetchResult := do
  checkSignal
  let (parsed, addresses, allow) ← raceAbort (initialHop parseUrl url
    ⟨options.allowLoopbackPort, options.allowLoopbackPort.isSome⟩)
  follow parseUrl options parsed.origin options.maxRedirects
    { target := url
      method := init.method
      headers := init.headers
      body := init.body
      addresses
      allow }

end Fetch

/-! ## What was done -/

def requests (log : NetLog) : List NetRequest := log.filterMap fun
  | .requested r _ => some r
  | _ => none

/-- The responses whose bodies were read. -/
def drainedOf (log : NetLog) : List NetResponse := log.filterMap fun
  | .drained res _ => some res
  | _ => none

/-- The answers of the hop that is under way. -/
def sinceRequest (log : NetLog) : NetLog := log.takeWhile fun
  | .requested .. => false
  | _ => true

/-- All of them were judged public, and they are what this hop knows of this host: itself, or
an answer of the resolver. -/
structure PublicFor (log : NetLog) (hostname : Text) (addresses : List Text) : Prop where
  some_ : addresses ≠ []
  isPublic : ∀ a ∈ addresses, classifyAddress a = none
  ofHost : addresses = [unbracket hostname] ∨
    NetEvent.resolved (unbracket hostname) (.ok addresses) ∈ sinceRequest log

section Guard

variable (parseUrl : Text → Option Text → Option NetUrl) (origin : Text)

def originOf (target : Text) : Option Text := (parseUrl target none).map NetUrl.origin

def HasCredential (headers : Headers) : Prop := ∃ h ∈ headers, isCredential h.1 = true

/-- What is asked of a request, by what was done before it. -/
structure Allowed (log : NetLog) (r : NetRequest) : Prop where
  destination : ∃ u, parseUrl r.target none = some u ∧ u.isHttp = true ∧
    r.hostname = u.hostname ∧ PublicFor log u.hostname r.addresses
  credentials : HasCredential r.headers →
    ∀ r' ∈ r :: requests log, originOf parseUrl r'.target = some origin
  unread : drainedOf log = []

def AllAllowed : NetLog → Prop
  | [] => True
  | .requested r _ :: log => Allowed parseUrl origin log r ∧ AllAllowed log
  | _ :: log => AllAllowed log

end Guard

/-- The body is that of the last response. -/
def Finished (maxBytes : Nat) (result : NetFetchResult) (log : NetLog) : Prop :=
  ∃ r res stream earlier,
    log = .drained res (.ok stream) :: .requested r (.ok res) :: earlier ∧
      result.status = res.status ∧ result.body = stream.chunks.flatten ∧
        result.body.length ≤ maxBytes

/-- **The guard**: for whatever the fetch ended in. -/
structure Guarded (parseUrl : Text → Option Text → Option NetUrl) (options : NetFetchOptions)
    (url : Text) (outcome : Except String NetFetchResult) (log : NetLog) : Prop where
  allowed : ∀ u, parseUrl url none = some u → AllAllowed parseUrl u.origin log
  valid : parseUrl url none = none → requests log = []
  count : (requests log).length ≤ options.maxRedirects + 1
  last : ∀ result, outcome = .ok result → Finished options.maxBytes result log

/-! ## Calls -/

abbrev netCompany : Company NetOp NetOp.Answer NetLog NetFate := Company.alone netAct

theorem wp_checkSignal {Q : Except String Unit → NetLog → Prop} {log : NetLog}
    (held : ∀ r, Q r log) : netCompany.wp checkSignal Q log :=
  Company.wp_act fun fate => held fate.signal

theorem wp_lookup {hostname : Text} {Q : Except String (List Text) → NetLog → Prop} {log : NetLog}
    (held : ∀ r, Q r (.resolved hostname r :: log)) : netCompany.wp (lookup hostname) Q log :=
  Company.wp_act fun fate => held fate.lookup

theorem wp_fetchImpl {request : NetRequest} {Q : Except String NetResponse → NetLog → Prop}
    {log : NetLog} (held : ∀ r, Q r (.requested request r :: log)) :
    netCompany.wp (fetchImpl request) Q log :=
  Company.wp_act fun fate => held fate.fetch

theorem wp_drain {res : NetResponse} {Q : Except String BodyStream → NetLog → Prop}
    {log : NetLog} (held : ∀ r, Q r (.drained res r :: log)) : netCompany.wp (drain res) Q log :=
  Company.wp_act fun fate => held fate.drain

theorem wp_closeDispatcher {Q : Except String Unit → NetLog → Prop} {log : NetLog}
    (held : ∀ r, Q r log) : netCompany.wp closeDispatcher Q log :=
  Company.wp_act fun fate => held fate.close

theorem wp_raceAbort {α : Type} {x : NetFn α} {Q : Except String α → NetLog → Prop}
    {log : NetLog}
    (held : netCompany.wp x (fun r log => Q r log ∧ ∀ message, Q (.error message) log) log) :
    netCompany.wp (raceAbort x) Q log := by
  refine Company.wp_bind (Company.wp_attempt (Company.wp_mono (fun r log here => ?_) held))
  refine Company.wp_bind (wp_checkSignal fun signal => ?_)
  cases signal with
  | error message => exact here.2 message
  | ok _ => exact Company.wp_rethrow here.1

/-- One look-up at most. -/
inductive Looked (hostname : Text) (log : NetLog) : NetLog → Prop where
  | nothing : Looked hostname log log
  | asked (answer : Except String (List Text)) :
      Looked hostname log (.resolved (unbracket hostname) answer :: log)

theorem blocked_none {addresses : List Text} (none_ : blockedAddress addresses = none) :
    ∀ a ∈ addresses, classifyAddress a = none := by
  induction addresses with
  | nil => simp
  | cons a rest ih =>
      unfold blockedAddress at none_
      cases verdict : classifyAddress a with
      | some reason =>
          rw [verdict] at none_
          cases none_
      | none =>
          rw [verdict] at none_
          exact List.forall_mem_cons.mpr ⟨verdict, ih none_⟩

/-- **The addresses** of a host that is not let through. -/
theorem wp_validatedAddresses (hostname : Text) (log : NetLog) :
    netCompany.wp (validatedAddresses hostname false) (fun r log' => Looked hostname log log' ∧
      ∀ addresses, r = .ok addresses → PublicFor log' hostname addresses) log := by
  unfold validatedAddresses
  dsimp only
  rw [Bool.false_and, if_neg Bool.false_ne_true]
  split
  · split
    · exact Company.wp_throw ⟨.nothing, nofun⟩
    · rename_i verdict
      refine Company.wp_pure ⟨.nothing, fun addresses same => ?_⟩
      cases same
      exact ⟨by simp, by simpa using verdict, Or.inl rfl⟩
  · refine Company.wp_bind (Company.wp_catch (wp_lookup fun answer => ?_))
    cases answer with
    | error message => exact Company.wp_throw ⟨.asked _, nofun⟩
    | ok found =>
        dsimp only
        by_cases none_ : found = []
        · rw [if_pos none_]
          exact Company.wp_throw ⟨.asked _, nofun⟩
        · rw [if_neg none_]
          split
          · exact Company.wp_throw ⟨.asked _, nofun⟩
          · rename_i verdict
            refine Company.wp_pure ⟨.asked _, fun addresses same => ?_⟩
            cases same
            exact ⟨none_, blocked_none verdict, Or.inr List.mem_cons_self⟩

/-! ### What a look-up leaves -/

section Looked

variable {hostname : Text} {log log' : NetLog} (looked : Looked hostname log log')

include looked

theorem Looked.requests : requests log' = requests log := by
  cases looked <;> rfl

theorem Looked.drainedOf : drainedOf log' = drainedOf log := by
  cases looked <;> rfl

theorem Looked.allowed {parseUrl : Text → Option Text → Option NetUrl} {origin : Text}
    (before : AllAllowed parseUrl origin log) : AllAllowed parseUrl origin log' := by
  cases looked <;> exact before

end Looked

/-- Without an allowance, every hop is checked. -/
theorem wp_validateHop (parsed : NetUrl) {allow : LoopbackAllowance} (log : NetLog) :
    netCompany.wp (validateHop parsed allow false) (fun r log' =>
      Looked parsed.hostname log log' ∧ ∀ found, r = .ok found →
        PublicFor log' parsed.hostname found.1 ∧ found.2.port = allow.port) log := by
  refine Company.wp_then (wp_validatedAddresses parsed.hostname log) ?_ ?_
  · intro addresses log' here
    refine Company.wp_pure ⟨here.1, fun found same => ?_⟩
    cases same
    exact ⟨here.2 addresses rfl, rfl⟩
  · exact fun message log' here => ⟨here.1, nofun⟩

theorem firstHopAllowed_none {raw : Text} {parsed : NetUrl} {allow : LoopbackAllowance}
    (none_ : allow.port = none) : firstHopAllowed raw parsed allow = false := by
  unfold firstHopAllowed
  rw [none_]

theorem redirectAllowed_none {raw : Text} {parsed : NetUrl} {allow : LoopbackAllowance}
    (none_ : allow.port = none) : redirectAllowed raw parsed allow = false := by
  unfold redirectAllowed
  rw [none_]

/-! ## The chain -/

theorem gather_spec {maxBytes : Nat} {chunks : List FetchBody} {body whole : FetchBody}
    (read : gather maxBytes chunks body = .ok whole) (fits : body.length ≤ maxBytes) :
    whole = body ++ chunks.flatten ∧ whole.length ≤ maxBytes := by
  induction chunks generalizing body with
  | nil =>
      cases read
      exact ⟨by simp, fits⟩
  | cons chunk rest ih =>
      unfold gather at read
      split at read
      · cases read
      · obtain ⟨value, small⟩ := ih read (by omega)
        exact ⟨by rw [value, List.flatten_cons, List.append_assoc], small⟩

/-- The body of a response, and no request. -/
theorem wp_readBoundedBody (res : NetResponse) (maxBytes : Nat) (log : NetLog) :
    netCompany.wp (readBoundedBody res maxBytes) (fun r log' =>
      (log' = log ∨ ∃ stream, log' = .drained res stream :: log) ∧
        ∀ body, r = .ok body → ∃ stream, log' = .drained res (.ok stream) :: log ∧
          body = stream.chunks.flatten ∧ body.length ≤ maxBytes) log := by
  refine Company.wp_bind (Company.wp_require (fun _ => ?_) fun _ => ⟨Or.inl rfl, nofun⟩)
  refine Company.wp_bind (wp_raceAbort (wp_drain fun answer => ?_))
  cases answer with
  | error message => exact ⟨⟨Or.inr ⟨_, rfl⟩, nofun⟩, fun _ => ⟨Or.inr ⟨_, rfl⟩, nofun⟩⟩
  | ok stream =>
      refine ⟨?_, fun _ => ⟨Or.inr ⟨_, rfl⟩, nofun⟩⟩
      refine Company.wp_bind (Company.wp_rethrow ?_)
      cases read : gather maxBytes stream.chunks [] with
      | error message => exact ⟨Or.inr ⟨_, rfl⟩, nofun⟩
      | ok body =>
          obtain ⟨value, small⟩ := gather_spec read (Nat.zero_le _)
          dsimp only
          cases stream.failure with
          | some message => exact Company.wp_throw ⟨Or.inr ⟨_, rfl⟩, nofun⟩
          | none =>
              refine Company.wp_pure ⟨Or.inr ⟨_, rfl⟩, fun whole same => ?_⟩
              cases same
              exact ⟨stream, rfl, by simpa using value, small⟩

section Chain

variable (parseUrl : Text → Option Text → Option NetUrl) (origin : Text)

/-- After some requests, with the headers of the next. -/
structure Chain (headers : Headers) (sent : Nat) (log : NetLog) : Prop where
  allowed : AllAllowed parseUrl origin log
  unread : drainedOf log = []
  sent : (requests log).length = sent
  credentials : HasCredential headers →
    ∀ r ∈ requests log, originOf parseUrl r.target = some origin

/-- Before the next request. -/
structure Ready (hop : Hop) (sent : Nat) (log : NetLog) : Prop
    extends Chain parseUrl origin hop.headers sent log where
  destination : ∃ u, parseUrl hop.target none = some u ∧ u.isHttp = true ∧
    PublicFor log u.hostname hop.addresses
  home : HasCredential hop.headers → originOf parseUrl hop.target = some origin
  port : hop.allow.port = none

/-- A URL as text is the same URL. -/
def Reparses : Prop :=
  ∀ raw base u, parseUrl raw base = some u → u.isHttp = true → parseUrl u.href none = some u

end Chain

section Run

variable {parseUrl : Text → Option Text → Option NetUrl} {origin : Text}

/-- **A request** that was made ready is an allowed one. -/
theorem Ready.request {hop : Hop} {sent : Nat} {log : NetLog} {u : NetUrl}
    (ready : Ready parseUrl origin hop sent log) (parsed : parseUrl hop.target none = some u)
    (answer : Except String NetResponse) :
    Chain parseUrl origin hop.headers (sent + 1)
      (.requested (hop.request u.hostname) answer :: log) := by
  obtain ⟨u', parsed', http, isPublic⟩ := ready.destination
  rw [parsed] at parsed'
  cases parsed'
  have home : HasCredential hop.headers →
      ∀ r ∈ hop.request u.hostname :: requests log, originOf parseUrl r.target = some origin :=
    fun credential => List.forall_mem_cons.mpr
      ⟨ready.home credential, ready.credentials credential⟩
  have sent' : (requests (.requested (hop.request u.hostname) answer :: log)).length
      = sent + 1 := by
    rw [← ready.sent]
    rfl
  exact ⟨⟨⟨⟨u, parsed, http, rfl, isPublic⟩, home, ready.unread⟩, ready.allowed⟩, ready.unread,
    sent', home⟩

theorem crossed_none (headers : Headers) : ¬ HasCredential (crossed headers) := by
  rintro ⟨h, member, credential⟩
  have kept := (List.mem_filter.mp member).2
  rw [credential] at kept
  cases kept

/-- **A redirect** leads to a hop that is ready. -/
theorem wp_redirected (reparses : Reparses parseUrl) {hop : Hop} {sent : Nat} {log : NetLog}
    (chain : Chain parseUrl origin hop.headers sent log) (port : hop.allow.port = none)
    (location : Text) (status : Nat) :
    netCompany.wp (redirected parseUrl hop origin location status) (fun r log' =>
      AllAllowed parseUrl origin log' ∧ requests log' = requests log ∧
        ∀ next, r = .ok next → Ready parseUrl origin next sent log') log := by
  unfold redirected
  split
  · exact Company.wp_throw ⟨chain.allowed, rfl, nofun⟩
  · rename_i parsed read
    refine Company.wp_bind (Company.wp_require (fun http => ?_)
      fun _ => ⟨chain.allowed, rfl, nofun⟩)
    dsimp only
    rw [redirectAllowed_none port]
    refine Company.wp_bind (wp_raceAbort (Company.wp_mono (fun r log' here => ?_)
      (wp_validateHop parsed log)))
    obtain ⟨looked, found⟩ := here
    have halted : ∀ message : String, AllAllowed parseUrl origin log' ∧
        requests log' = requests log ∧ ∀ next, Except.error message = .ok next →
          Ready parseUrl origin next sent log' := fun message =>
      ⟨looked.allowed chain.allowed, looked.requests, nofun⟩
    cases r with
    | error message => exact ⟨halted message, halted⟩
    | ok validated =>
        refine ⟨?_, halted⟩
        obtain ⟨isPublic, unset⟩ := found validated rfl
        have again := reparses _ _ _ read http
        -- Credentials are kept only on the way back to the origin.
        have kept : HasCredential (if parsed.origin ≠ origin then crossed hop.headers
            else hop.headers) → parsed.origin = origin ∧ HasCredential hop.headers := by
          intro credential
          by_cases same : parsed.origin = origin
          · rw [if_neg (not_not.mpr same)] at credential
            exact ⟨same, credential⟩
          · rw [if_pos same] at credential
            exact absurd credential (crossed_none _)
        refine Company.wp_pure ⟨looked.allowed chain.allowed, looked.requests, fun next same => ?_⟩
        cases same
        refine ⟨⟨looked.allowed chain.allowed, ?_, ?_, fun credential => ?_⟩,
          ⟨parsed, again, http, isPublic⟩, fun credential => ?_, unset.trans port⟩
        · rw [looked.drainedOf, chain.unread]
        · rw [looked.requests, chain.sent]
        · rw [looked.requests]
          exact chain.credentials (kept credential).2
        · show (parseUrl parsed.href none).map NetUrl.origin = some origin
          rw [again, Option.map_some, (kept credential).1]

/-- **One hop.** -/
theorem wp_hopOnce (reparses : Reparses parseUrl) {options : NetFetchOptions} {hop : Hop}
    {sent left : Nat} {log : NetLog} (ready : Ready parseUrl origin hop sent log) :
    netCompany.wp (hopOnce parseUrl options origin left hop) (fun r log' =>
      AllAllowed parseUrl origin log' ∧ (requests log').length ≤ sent + 1 ∧
        (∀ result, r = .ok (.inl result) → Finished options.maxBytes result log') ∧
          ∀ next, r = .ok (.inr next) → left ≠ 0 ∧ Ready parseUrl origin next (sent + 1) log')
      log := by
  unfold hopOnce
  obtain ⟨u, parsed, -⟩ := ready.destination
  rw [parsed]
  have before : AllAllowed parseUrl origin log ∧ (requests log).length ≤ sent + 1 :=
    ⟨ready.allowed, ready.sent ▸ Nat.le_succ _⟩
  refine Company.wp_afterwards
    (Company.wp_mono (fun r log' here => wp_closeDispatcher fun _ => here) ?_)
  refine Company.wp_bind (Company.wp_bind (wp_checkSignal fun signal => ?_))
  cases signal with
  | error message => exact ⟨before.1, before.2, nofun, nofun⟩
  | ok _ =>
      refine wp_raceAbort (wp_fetchImpl fun answer => ?_)
      have chain := ready.request parsed answer
      cases answer with
      | error message => exact ⟨⟨chain.allowed, chain.sent.le, nofun, nofun⟩,
          fun _ => ⟨chain.allowed, chain.sent.le, nofun, nofun⟩⟩
      | ok res =>
          refine ⟨?_, fun _ => ⟨chain.allowed, chain.sent.le, nofun, nofun⟩⟩
          dsimp only
          split
          · -- The last hop.
            refine Company.wp_then (wp_readBoundedBody res options.maxBytes _) ?_ ?_
            · rintro body log' ⟨-, found⟩
              obtain ⟨stream, rfl, value, small⟩ := found body rfl
              refine Company.wp_pure ⟨chain.allowed, chain.sent.le, fun result same => ?_, nofun⟩
              cases same
              exact ⟨_, res, stream, log, rfl, rfl, value, small⟩
            · rintro message log' ⟨same | ⟨stream, same⟩, -⟩
              · exact same ▸ ⟨chain.allowed, chain.sent.le, nofun, nofun⟩
              · exact same ▸ ⟨chain.allowed, chain.sent.le, nofun, nofun⟩
          · rename_i location _
            refine Company.wp_bind (Company.wp_require (fun more => ?_)
              fun _ => ⟨chain.allowed, chain.sent.le, nofun, nofun⟩)
            refine Company.wp_then
              (wp_redirected reparses chain ready.port location res.status) ?_ ?_
            · rintro next log' ⟨allowed, same, found⟩
              refine Company.wp_pure ⟨allowed, ?_, nofun, fun next' same' => ?_⟩
              · rw [same, chain.sent]
              · cases same'
                exact ⟨more, found next rfl⟩
            · rintro message log' ⟨allowed, same, -⟩
              refine ⟨allowed, ?_, nofun, nofun⟩
              rw [same, chain.sent]

/-- **The chain**, however long. -/
theorem wp_follow (reparses : Reparses parseUrl) {options : NetFetchOptions} {left sent : Nat}
    {hop : Hop} {log : NetLog} (ready : Ready parseUrl origin hop sent log) :
    netCompany.wp (follow parseUrl options origin left hop) (fun r log' =>
      AllAllowed parseUrl origin log' ∧ (requests log').length ≤ sent + left + 1 ∧
        ∀ result, r = .ok result → Finished options.maxBytes result log') log := by
  induction left generalizing sent hop log with
  | zero =>
      unfold follow
      refine Company.wp_then (wp_hopOnce reparses ready) ?_ ?_
      · rintro step log' ⟨allowed, count, finished, more⟩
        cases step with
        | inl result =>
            refine Company.wp_pure ⟨allowed, count, fun result' same => ?_⟩
            cases same
            exact finished result rfl
        | inr next => exact absurd rfl (more next rfl).1
      · exact fun message log' here => ⟨here.1, here.2.1, nofun⟩
  | succ left ih =>
      unfold follow
      refine Company.wp_then (wp_hopOnce reparses ready) ?_ ?_
      · rintro step log' ⟨allowed, count, finished, more⟩
        cases step with
        | inl result =>
            refine Company.wp_pure ⟨allowed, by omega, fun result' same => ?_⟩
            cases same
            exact finished result rfl
        | inr next =>
            refine Company.wp_mono (fun r log'' here => ⟨here.1, ?_, here.2.2⟩)
              (ih (more next rfl).2)
            have := here.2.1
            omega
      · exact fun message log' here => ⟨here.1, by have := here.2.1; omega, nofun⟩

end Run

/-- The first hop. -/
theorem wp_initialHop {parseUrl : Text → Option Text → Option NetUrl} {url : Text}
    {allow : LoopbackAllowance} (unset : allow.port = none) (init : NetFetchInit) :
    netCompany.wp (initialHop parseUrl url allow) (fun r log =>
      requests log = [] ∧ (∀ origin, AllAllowed parseUrl origin log) ∧
        ∀ found, r = .ok found → parseUrl url none = some found.1 ∧
          Ready parseUrl found.1.origin
            ⟨url, init.method, init.headers, init.body, found.2.1, found.2.2⟩ 0 log) [] := by
  unfold initialHop
  split
  · exact Company.wp_throw ⟨rfl, fun _ => trivial, nofun⟩
  · rename_i parsed read
    refine Company.wp_bind (Company.wp_require (fun http => ?_)
      fun _ => ⟨rfl, fun _ => trivial, nofun⟩)
    dsimp only
    rw [firstHopAllowed_none unset]
    refine Company.wp_then (wp_validateHop parsed []) ?_ ?_
    · rintro validated log ⟨looked, found⟩
      obtain ⟨isPublic, port⟩ := found validated rfl
      refine Company.wp_pure
        ⟨looked.requests, fun _ => looked.allowed trivial, fun found same => ?_⟩
      cases same
      refine ⟨read, ⟨looked.allowed trivial, looked.drainedOf, ?_, fun _ => ?_⟩,
        ⟨parsed, read, http, isPublic⟩, fun _ => ?_, port.trans unset⟩
      · rw [looked.requests]
        rfl
      · rw [looked.requests]
        exact nofun
      · show (parseUrl url none).map NetUrl.origin = _
        rw [read]
        rfl
    · rintro message log ⟨looked, -⟩
      exact ⟨looked.requests, fun _ => looked.allowed trivial, nofun⟩

/-- **The guarded fetch**: whatever is asked for, and whatever the resolver, the servers and
the signal do, every request is allowed, there are not more of them than redirects may be
followed and one, and a body is that of the last response. -/
theorem netFetch_guarded {parseUrl : Text → Option Text → Option NetUrl}
    (reparses : Reparses parseUrl) {options : NetFetchOptions}
    (unset : options.allowLoopbackPort = none) (url : Text) (init : NetFetchInit)
    (fates : Nat → NetFate) :
    Guarded parseUrl options url ((netFetch parseUrl options url init).run netAct [] fates 0).1
      ((netFetch parseUrl options url init).run netAct [] fates 0).2 := by
  have held : netCompany.wp (netFetch parseUrl options url init)
      (fun r log => Guarded parseUrl options url r log) [] := by
    have nothing : ∀ message : String, ∀ log, requests log = [] →
        (∀ origin, AllAllowed parseUrl origin log) →
          Guarded parseUrl options url (.error message) log := fun message log none_ allowed =>
      ⟨fun u _ => allowed u.origin, fun _ => none_, by rw [none_]; exact Nat.zero_le _, nofun⟩
    unfold netFetch
    refine Company.wp_bind (wp_checkSignal fun signal => ?_)
    cases signal with
    | error message => exact nothing message [] rfl fun _ => trivial
    | ok _ =>
        refine Company.wp_bind (wp_raceAbort (Company.wp_mono (fun r log here => ?_)
          (wp_initialHop unset init)))
        obtain ⟨none_, allowed, found⟩ := here
        refine ⟨?_, fun message => nothing message log none_ allowed⟩
        cases r with
        | error message => exact nothing message log none_ allowed
        | ok first =>
            obtain ⟨read, ready⟩ := found first rfl
            refine Company.wp_mono (fun r log' here => ?_) (wp_follow reparses ready)
            refine ⟨fun u same => ?_, fun invalid => ?_, ?_, here.2.2⟩
            · rw [read] at same
              cases same
              exact here.1
            · rw [read] at invalid
              cases invalid
            · have := here.2.1
              omega
  exact Company.wp_run fates _ _ _ held

/-! ### A redirect to another origin -/

def httpsUrl (host path : String) : NetUrl :=
  ⟨"https:".toList, host.toList, none, ("https://" ++ host).toList,
    ("https://" ++ host ++ path).toList⟩

def exampleUrls (raw : Text) (_ : Option Text) : Option NetUrl :=
  if raw = "https://api.example/a".toList then some (httpsUrl "api.example" "/a")
  else if raw = "https://8.8.8.8/".toList then some (httpsUrl "8.8.8.8" "/")
  else none

theorem exampleUrls_reparse : Reparses exampleUrls := by
  intro raw base u parsed _
  unfold exampleUrls at parsed
  split at parsed
  · cases parsed
    rfl
  · split at parsed
    · cases parsed
      rfl
    · cases parsed

/-- Every name has one address, and whatever is asked for moved to `location`. -/
def movedTo (location : String) : NetFate where
  signal := .ok ()
  lookup := .ok ["93.184.216.34".toList]
  fetch := .ok ⟨302, "Found".toList, [("location".toList, location.toList)]⟩
  drain := .ok ⟨[], none⟩
  close := .ok ()

/-- From a name to an address, until there are too many redirects. -/
theorem fetch_elsewhere :
    let run := (netFetch exampleUrls ⟨1000, 2, none⟩ "https://api.example/a".toList
      ⟨none, [("Cookie".toList, "x".toList)], none⟩).run netAct []
        (fun _ => movedTo "https://8.8.8.8/") 0
    (requests run.2).map (fun r => (r.hostname, r.headers.length))
        = [("8.8.8.8".toList, 0), ("8.8.8.8".toList, 0), ("api.example".toList, 1)] ∧
      Guarded exampleUrls ⟨1000, 2, none⟩ "https://api.example/a".toList run.1 run.2 :=
  ⟨by decide +kernel, netFetch_guarded exampleUrls_reparse rfl _ _ _⟩

end Kiagent.Platform.Net
