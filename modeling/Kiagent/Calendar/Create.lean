/-
# Calendar.Create -- an event draft is confirmed and created

The user's operations on one draft (confirm, retry, discard, restore, cancel) take the
draft's lock in turn; each is a fiber that awaits the store, the account and the writer,
and a step of it is what happens until its next await.  `draft_event`, the expiry sweep
and the recovery take no lock: their statements fall between any two steps.  A statement
may fail before or after it is committed, and a restart ends every fiber.

`created_once` is the result: of all the creates the writer was ever asked for, no two
ran at once, none came after the row was `created`, each used up a compare-and-set of its
own, and each carried the key and the payload of the revision that was confirmed.
-/
import Kiagent.Calendar.EventDrafts
import Kiagent.Theory.Runs

namespace Kiagent.Calendar

open Kiagent.Theory

set_option autoImplicit false

/-! ## Errors of a writer -/

def UNKNOWN_COPY : String :=
  "may have been added — check your calendar, then Try again or Discard"

def reconnectCopy (account : String) : String :=
  "reconnect " ++ account ++ " in Settings to allow adding events"

def isWordChar (c : Char) : Bool := c.isAlphanum || c = '_'

/-- The word stands in the text; `inside` says that a word character comes before it. -/
def hasWord (word : List Char) : Bool → List Char → Bool
  | _, [] => false
  | inside, c :: cs =>
      (!inside && match word.isPrefixOf? (c :: cs) with
        | some rest => !rest.head?.any isWordChar
        | none => false) || hasWord word (isWordChar c) cs

def classifyWriterError (message accountEmail : String) : EventDraftRow.Failure × String :=
  if hasWord "reconnect".toList false (message.toList.map Char.toLower) then
    (.failed, reconnectCopy accountEmail)
  else if "rate-limited:".toList.isPrefixOf message.toList ||
      "not created:".toList.isPrefixOf message.toList then (.failed, message)
  else (.unknown, message ++ " — " ++ UNKNOWN_COPY)

def noWriterError (email : String) : String :=
  "not created: Kia can't add events to " ++ email ++
    " right now — is its connector installed and enabled?"

/-! ## Fibers -/

inductive EventConfirmOutcome where
  | created (event : CreatedEvent)
  | failed (error : String)
  | unknown (error : String)
  | changed
  | gone
  | discarded
  deriving DecidableEq

def EventDraftRow.Failure.outcome (status : EventDraftRow.Failure) (error : String) :
    EventConfirmOutcome :=
  match status with
  | .failed => .failed error
  | .unknown => .unknown error

/-- Where an operation that holds the draft's lock is. -/
inductive Fiber where
  /-- `confirmById` reads the row. -/
  | confirm (revision : Nat)
  | beginCreate (revision : Nat)
  /-- `retryById`. -/
  | beginRetry
  /-- The row is read back; the answer when there is none. -/
  | readback (absent : EventConfirmOutcome)
  /-- `runCreate` reads the account. -/
  | account (row : EventDraftRow)
  | noWriter (error : String)
  /-- `createEvent` is in flight. -/
  | creating (row : EventDraftRow) (email : String)
  | finish (email : String) (event : CreatedEvent)
  | fail (status : EventDraftRow.Failure) (error : String)
  /-- `cancelByToken` reads the row. -/
  | cancel (revision : Nat)
  | discard
  /-- The statements of `restoreById`. -/
  | restoreFresh
  | restoreKept
  deriving DecidableEq

/-- The statement a fiber is at. -/
def Fiber.update : Fiber → Option Update
  | .beginCreate revision => some (.beginCreate revision)
  | .beginRetry => some .beginRetry
  | .noWriter error => some (.failCreate .failed error)
  | .finish _ event => some (.finishCreate event)
  | .fail status error => some (.failCreate status error)
  | .discard => some .discard
  | .restoreFresh => some .restoreFresh
  | .restoreKept => some .restoreKept
  | .confirm _ | .readback _ | .account _ | .creating .. | .cancel _ => none

/-- What comes next in a fiber; `none` when it ends. -/
abbrev Next := Option Fiber × Option EventConfirmOutcome

def goes (fiber : Fiber) : Next := (some fiber, none)

def answers (outcome : EventConfirmOutcome) : Next := (none, some outcome)

/-- A statement is done; `changed` says that it changed the row. -/
def Fiber.executed (changed : Bool) : Fiber → Next
  | .beginCreate _ => if changed then goes (.readback .changed) else answers .changed
  | .beginRetry => if changed then goes (.readback .gone) else answers .gone
  | .noWriter error => answers (.failed error)
  | .finish _ event => answers (.created event)
  | .fail status error => answers (status.outcome error)
  | .discard => answers (if changed then .discarded else .gone)
  | .restoreFresh => if changed then (none, none) else goes .restoreKept
  | .restoreKept => (none, none)
  | fiber => goes fiber

/-- An await rejects: only `runCreate` catches, around the call and its finish. -/
def Fiber.caught (message : String) : Fiber → Next
  | .creating _ email | .finish email _ =>
      let (status, error) := classifyWriterError message email
      goes (.fail status error)
  | _ => (none, none)

/-- An operation of `draft_event` on a draft it has read; its calls come one at a time. -/
inductive Drafting where
  | revise (expectedRevision : Nat) (payload : EventPayload) (fingerprint via : String)
  | touch (via : String)
  /-- The statements of `restore`, and then `touch`. -/
  | restoreFresh (via : String)
  | restoreKept (via : String)
  deriving DecidableEq

/-- Whether `draft_event` starts it on the row it reads. -/
def Drafting.starts (row : EventDraftRow) : Drafting → Bool
  | .revise .. => row.status = .draft
  | .touch _ => row.status = .draft || row.status = .creating || row.status = .unknown ||
      row.status = .created
  | .restoreFresh _ => row.status = .discarded
  | .restoreKept _ => false

def Drafting.update : Drafting → Update
  | .revise expectedRevision payload fingerprint via =>
      .revise expectedRevision payload fingerprint via
  | .touch via => .touch via
  | .restoreFresh _ => .restoreFresh
  | .restoreKept _ => .restoreKept

def Drafting.executed (changed : Bool) : Drafting → Option Drafting
  | .revise .. | .touch _ => none
  | .restoreFresh via => some (if changed then .touch via else .restoreKept via)
  | .restoreKept via => if changed then some (.touch via) else none

/-! ## Runs on one draft -/

inductive Event where
  /-- What the row holds at a revision. -/
  | revision (revision : Nat) (payload : EventPayload)
  /-- A compare-and-set from `draft` into `creating`. -/
  | confirmed (revision : Nat)
  /-- One from `failed` or `unknown`. -/
  | retried
  /-- `createEvent` is called. -/
  | invoked (intent : EventDraftRow.EventIntent)
  /-- Its promise settles: created, refused or timed out. -/
  | settled
  /-- The row is `created`. -/
  | created
  | answered (outcome : EventConfirmOutcome)
  | restarted
  deriving DecidableEq

structure State where
  row : Option EventDraftRow
  /-- Who holds the lock. -/
  holder : Option Fiber
  waiting : List Fiber
  drafting : Option Drafting
  log : List Event

structure EventToken where
  draftId : String
  revision : Nat
  expiresAtMs : Nat
  deriving DecidableEq

structure Account where
  identifier : String
  source : String
  deriving DecidableEq

/-- How a statement or another await ends. -/
inductive Input where
  | resolves
  /-- It rejects; a statement is not committed. -/
  | rejects (message : String)
  /-- The statement is committed, and what comes after it rejects. -/
  | rejectsLate (message : String)
  /-- The account is read, and its writer is registered or not. -/
  | account (found : Option Account) (writer : Bool)
  | created (event : CreatedEvent)
  deriving DecidableEq

inductive Action where
  | confirmById (revision : Nat)
  | confirmByToken (token : String) (revision nowMs : Nat)
  | cancelByToken (token : String) (nowMs : Nat)
  | retryById
  | discardById
  | restoreById
  /-- The next operation gets the lock. -/
  | start
  /-- The next step of the operation that holds it. -/
  | run (now : Nat) (input : Input)
  | draftEvent (drafting : Drafting)
  | draft (now : Nat) (input : Input)
  | expireOverdue (now : Nat) (readOnly : Bool)
  /-- Of `recover`, at boot or when a device becomes the leader. -/
  | recoverOrphanedCreating (now : Nat) (readOnly : Bool)
  | removeAccount
  | restart
  deriving DecidableEq

/-- What a committed update adds to the log. -/
def Update.events (row : EventDraftRow) : Update → List Event
  | .revise .. | .restoreFresh => [.revision row.revision row.payload]
  | .beginCreate revision => [.confirmed revision]
  | .beginRetry => [.retried]
  | .finishCreate _ => [.created]
  | _ => []

namespace State

/-- `draft_event` has inserted the row. -/
def inserted (id : String) (i : EventDraftInsert) (now : Nat) : State where
  row := some (.insert id i now)
  holder := none
  waiting := []
  drafting := none
  log := [.revision 1 i.payload]

variable (s : State)

def emit (events : List Event) : State := { s with log := s.log ++ events }

/-- Executes one update; whether it changed the row. -/
def execute (now : Nat) (update : Update) : State × Bool :=
  match s.row.bind (update.apply now) with
  | some row => ({ s with row := some row, log := s.log ++ update.events row }, true)
  | none => (s, false)

def request (fiber : Fiber) : State := { s with waiting := s.waiting ++ [fiber] }

/-- The holder goes on, or gives the lock back. -/
def proceed (next : Next) : State :=
  { s with
    holder := next.1
    log := s.log ++ (next.2.map Event.answered).toList }

/-- What a fiber does when its await is done. -/
def resume (now : Nat) (fiber : Fiber) (input : Input) : Option State :=
  match fiber.update with
  | some update =>
      match input with
      | .resolves =>
          let (s, changed) := s.execute now update
          some (s.proceed (fiber.executed changed))
      | .rejects message => some (s.proceed (fiber.caught message))
      | .rejectsLate message => some ((s.execute now update).1.proceed (fiber.caught message))
      | _ => none
  | none =>
      match fiber, input with
      | .confirm revision, .resolves =>
          some (s.proceed (match s.row with
            | none => answers .gone
            | some row =>
                if row.status ≠ .draft then answers .gone
                else if row.revision ≠ revision then answers .changed
                else goes (.beginCreate revision)))
      | .cancel revision, .resolves =>
          some (s.proceed (match s.row with
            | none => answers .gone
            | some row =>
                if row.revision ≠ revision then answers .changed else goes .discard))
      | .readback absent, .resolves =>
          some (s.proceed (match s.row with
            | none => answers absent
            | some row => goes (.account row)))
      | .account row, .account found writer =>
          let email := (found.map (·.identifier)).getD "the account"
          if found.isSome && writer then
            some ((s.emit [.invoked row.intent]).proceed (goes (.creating row email)))
          else some (s.proceed (goes (.noWriter (noWriterError email))))
      | .creating _ email, .created event =>
          some ((s.emit [.settled]).proceed (goes (.finish email event)))
      | .creating .., .rejects message =>
          some ((s.emit [.settled]).proceed (fiber.caught message))
      | _, .rejects message => some (s.proceed (fiber.caught message))
      | _, _ => none

/-- A statement of `draft_event`. -/
def resumeDrafting (now : Nat) (drafting : Drafting) : Input → Option State
  | .resolves =>
      let (s, changed) := s.execute now drafting.update
      some { s with drafting := drafting.executed changed }
  | .rejects _ => some { s with drafting := none }
  | .rejectsLate _ => some { (s.execute now drafting.update).1 with drafting := none }
  | _ => none

end State

section

variable (verifyEventToken : String → Option EventToken) (id : String)

/-- The token names this draft and is not expired. -/
def verify (token : String) (nowMs : Nat) : Option EventToken :=
  (verifyEventToken token).filter fun t => t.draftId = id && nowMs ≤ t.expiresAtMs

def step (s : State) : Action → Option State
  | .confirmById revision => some (s.request (.confirm revision))
  | .confirmByToken token revision nowMs =>
      match verify verifyEventToken id token nowMs with
      | none => some s
      | some t => some (if t.revision ≠ revision then s else s.request (.confirm revision))
  | .cancelByToken token nowMs =>
      match verify verifyEventToken id token nowMs with
      | none => some s
      | some t => some (s.request (.cancel t.revision))
  | .retryById => some (s.request .beginRetry)
  | .discardById => some (s.request .discard)
  | .restoreById => some (s.request .restoreFresh)
  | .start =>
      match s.holder, s.waiting with
      | none, fiber :: rest => some { s with holder := some fiber, waiting := rest }
      | _, _ => none
  | .run now input => s.holder.bind fun fiber => s.resume now fiber input
  | .draftEvent drafting =>
      if s.drafting.isNone && s.row.any drafting.starts then
        some { s with drafting := some drafting }
      else none
  | .draft now input => s.drafting.bind fun drafting => s.resumeDrafting now drafting input
  | .expireOverdue now readOnly =>
      some (if readOnly then s else (s.execute now .expireOverdue).1)
  | .recoverOrphanedCreating now readOnly =>
      some (if readOnly then s else (s.execute now .recoverOrphanedCreating).1)
  | .removeAccount => some { s with row := none }
  | .restart =>
      some { s with
        holder := none
        waiting := []
        drafting := none
        log := s.log ++ [.restarted] }

end

/-! ## What a log says -/

/-- A compare-and-set into `creating` was made that no call has used. -/
def granted (log : List Event) : Bool :=
  log.foldl (fun granted event => match event with
    | .confirmed _ | .retried => true
    | .invoked _ => false
    | _ => granted) false

/-- A call is in flight. -/
def inFlight (log : List Event) : Bool :=
  log.foldl (fun running event => match event with
    | .invoked _ => true
    | .settled | .restarted => false
    | _ => running) false

/-- What the confirm of the revision `n` with the content `p` stands for. -/
def confirmedIntent (id : String) (i : EventDraftInsert) (n : Nat) (p : EventPayload) :
    EventDraftRow.EventIntent where
  payload := p
  accountId := i.accountId
  idempotencyKey := some (id ++ ":" ++ toString n)
  draftId := id
  sourceDocumentId := i.sourceDocumentId

/-- A revision was confirmed that the intent stands for. -/
def Confirmed (id : String) (i : EventDraftInsert) (log : List Event)
    (intent : EventDraftRow.EventIntent) : Prop :=
  ∃ n p, .confirmed n ∈ log ∧ .revision n p ∈ log ∧ intent = confirmedIntent id i n p

theorem Confirmed.grows {id : String} {i : EventDraftInsert} {log log' : List Event}
    {intent : EventDraftRow.EventIntent} (held : Confirmed id i log intent)
    (grows : log ⊆ log') : Confirmed id i log' intent := by
  obtain ⟨n, p, confirmed, revision, same⟩ := held
  exact ⟨n, p, grows confirmed, grows revision, same⟩

/-- How the row and the log agree. -/
structure Books (id : String) (i : EventDraftInsert) (row : Option EventDraftRow)
    (log : List Event) : Prop where
  origin : ∀ r ∈ row, r.id = id ∧ r.accountId = i.accountId ∧
    r.sourceDocumentId = i.sourceDocumentId
  keyed : ∀ r ∈ row, r.Keyed
  current : ∀ r ∈ row, .revision r.revision r.payload ∈ log
  older : ∀ n p, .revision n p ∈ log → ∀ r ∈ row, n ≤ r.revision
  unique : ∀ n p q, .revision n p ∈ log → .revision n q ∈ log → p = q
  confirmed : ∀ n, .confirmed n ∈ log → ∀ r ∈ row, r.revision = n ∧ r.idempotencyKey ≠ none
  once : ∀ n m, .confirmed n ∈ log → .confirmed m ∈ log → n = m
  set : ∀ r ∈ row, r.idempotencyKey ≠ none → .confirmed r.revision ∈ log
  ended : .created ∈ log → ∀ r ∈ row, r.status = .created

namespace Books

variable {id : String} {i : EventDraftInsert} {row : Option EventDraftRow} {log : List Event}

theorem inserted (id : String) (i : EventDraftInsert) (now : Nat) :
    Books id i (some (.insert id i now)) [.revision 1 i.payload] where
  origin := by rintro _ ⟨⟩; exact ⟨rfl, rfl, rfl⟩
  keyed := by rintro _ ⟨⟩; exact insert_keyed
  current := by rintro _ ⟨⟩; simp [EventDraftRow.insert]
  older := by
    rintro n p mem _ ⟨⟩
    simp only [List.mem_singleton, Event.revision.injEq] at mem
    exact mem.1.le
  unique := by
    intro n p q mem mem'
    simp only [List.mem_singleton, Event.revision.injEq] at mem mem'
    exact mem.2.trans mem'.2.symm
  confirmed := by simp
  once := by simp
  set := by rintro _ ⟨⟩ set; exact absurd rfl set
  ended := by simp

/-- The row is gone with its account. -/
theorem removed (books : Books id i row log) : Books id i none log :=
  { books with
    origin := by simp
    keyed := by simp
    current := by simp
    older := by simp
    confirmed := by simp
    set := by simp
    ended := by simp }

/-- What the row with a key stands for. -/
theorem intent (books : Books id i row log) {r : EventDraftRow} (mem : r ∈ row)
    (set : r.idempotencyKey ≠ none) : Confirmed id i log r.intent := by
  obtain ⟨same, account, source⟩ := books.origin r mem
  refine ⟨r.revision, r.payload, books.set r mem set, books.current r mem, ?_⟩
  rcases books.keyed r mem with ⟨unset, _⟩ | ⟨key, _⟩
  · exact absurd unset set
  · simp only [EventDraftRow.intent, confirmedIntent, account, source, key, same]

/-- Events that are not about the row. -/
theorem append (books : Books id i row log) {events : List Event}
    (others : ∀ event ∈ events, (∀ n p, event ≠ .revision n p) ∧
      (∀ n, event ≠ .confirmed n) ∧ event ≠ .created) : Books id i row (log ++ events) := by
  have revision : ∀ n p, .revision n p ∈ log ++ events → .revision n p ∈ log := by
    intro n p mem
    rcases List.mem_append.1 mem with mem | mem
    · exact mem
    · exact absurd rfl ((others _ mem).1 n p)
  have confirmed : ∀ n, .confirmed n ∈ log ++ events → .confirmed n ∈ log := by
    intro n mem
    rcases List.mem_append.1 mem with mem | mem
    · exact mem
    · exact absurd rfl ((others _ mem).2.1 n)
  exact {
    origin := books.origin
    keyed := books.keyed
    current := fun r mem => List.mem_append_left _ (books.current r mem)
    older := fun n p mem => books.older n p (revision n p mem)
    unique := fun n p q mem mem' => books.unique n p q (revision n p mem) (revision n q mem')
    confirmed := fun n mem => books.confirmed n (confirmed n mem)
    once := fun n m mem mem' => books.once n m (confirmed n mem) (confirmed m mem')
    set := fun r mem set => List.mem_append_left _ (books.set r mem set)
    ended := by
      intro mem
      rcases List.mem_append.1 mem with mem | mem
      · exact books.ended mem
      · exact absurd rfl (others _ mem).2.2 }

/-- Without a key nothing was confirmed or created. -/
theorem fresh {r : EventDraftRow} (books : Books id i (some r) log)
    (unset : r.idempotencyKey = none) : (∀ n, .confirmed n ∉ log) ∧ .created ∉ log := by
  refine ⟨fun n mem => (books.confirmed n mem r rfl).2 unset, fun mem => ?_⟩
  have created := books.ended mem r rfl
  rcases books.keyed r rfl with ⟨_, early⟩ | ⟨set, _⟩
  · simp [created] at early
  · simp [set] at unset

variable {r r' : EventDraftRow} {now : Nat} {update : Update}

theorem revised (books : Books id i (some r) log) (unset : r.idempotencyKey = none)
    (unset' : r'.idempotencyKey = none) (revision : r'.revision = r.revision + 1)
    (origin : r'.id = r.id ∧ r'.accountId = r.accountId ∧
      r'.sourceDocumentId = r.sourceDocumentId) (keyed : r'.Keyed) :
    Books id i (some r') (log ++ [.revision r'.revision r'.payload]) := by
  obtain ⟨unconfirmed, uncreated⟩ := books.fresh unset
  have below : ∀ n p, .revision n p ∈ log → n < r'.revision := by
    intro n p mem
    have le := books.older n p mem r rfl
    omega
  constructor
  · rintro _ ⟨⟩
    have first := books.origin r rfl
    exact ⟨origin.1.trans first.1, origin.2.1.trans first.2.1, origin.2.2.trans first.2.2⟩
  · rintro _ ⟨⟩
    exact keyed
  · rintro _ ⟨⟩
    simp
  · rintro n p mem _ ⟨⟩
    rcases List.mem_append.1 mem with mem | mem
    · exact (below n p mem).le
    · simp only [List.mem_singleton, Event.revision.injEq] at mem
      exact mem.1.le
  · intro n p q mem mem'
    rcases List.mem_append.1 mem with mem | mem <;> rcases List.mem_append.1 mem' with mem' | mem'
    · exact books.unique n p q mem mem'
    · simp only [List.mem_singleton, Event.revision.injEq] at mem'
      exact absurd mem'.1 (below n p mem).ne
    · simp only [List.mem_singleton, Event.revision.injEq] at mem
      exact absurd mem.1 (below n q mem').ne
    · simp only [List.mem_singleton, Event.revision.injEq] at mem mem'
      exact mem.2.trans mem'.2.symm
  · intro n mem
    simp [unconfirmed n] at mem
  · intro n m mem
    simp [unconfirmed n] at mem
  · rintro _ ⟨⟩ set
    exact absurd unset' set
  · intro mem
    simp [uncreated] at mem

theorem begun (books : Books id i (some r) log) (unset : r.idempotencyKey = none)
    (set : r'.idempotencyKey ≠ none)
    (same : r'.revision = r.revision ∧ r'.payload = r.payload)
    (origin : r'.id = r.id ∧ r'.accountId = r.accountId ∧
      r'.sourceDocumentId = r.sourceDocumentId) (keyed : r'.Keyed) :
    Books id i (some r') (log ++ [.confirmed r'.revision]) := by
  obtain ⟨unconfirmed, uncreated⟩ := books.fresh unset
  have kept : ∀ n p, .revision n p ∈ log ++ [.confirmed r'.revision] → .revision n p ∈ log := by
    intro n p mem
    simpa using mem
  have only : ∀ n, .confirmed n ∈ log ++ [.confirmed r'.revision] → n = r'.revision := by
    intro n mem
    simpa [unconfirmed n] using mem
  constructor
  · rintro _ ⟨⟩
    have first := books.origin r rfl
    exact ⟨origin.1.trans first.1, origin.2.1.trans first.2.1, origin.2.2.trans first.2.2⟩
  · rintro _ ⟨⟩
    exact keyed
  · rintro _ ⟨⟩
    rw [same.1, same.2]
    exact List.mem_append_left _ (books.current r rfl)
  · rintro n p mem _ ⟨⟩
    exact same.1.symm ▸ books.older n p (kept n p mem) r rfl
  · exact fun n p q mem mem' => books.unique n p q (kept n p mem) (kept n q mem')
  · rintro n mem _ ⟨⟩
    exact ⟨(only n mem).symm, set⟩
  · exact fun n m mem mem' => (only n mem).trans (only m mem').symm
  · rintro _ ⟨⟩ _
    simp
  · intro mem
    simp [uncreated] at mem

theorem moved (books : Books id i (some r) log)
    (same : r'.revision = r.revision ∧ r'.payload = r.payload)
    (key : r'.idempotencyKey = r.idempotencyKey)
    (origin : r'.id = r.id ∧ r'.accountId = r.accountId ∧
      r'.sourceDocumentId = r.sourceDocumentId) (keyed : r'.Keyed)
    (ended : r.status = .created → r'.status = .created) : Books id i (some r') log := by
  constructor
  · rintro _ ⟨⟩
    have first := books.origin r rfl
    exact ⟨origin.1.trans first.1, origin.2.1.trans first.2.1, origin.2.2.trans first.2.2⟩
  · rintro _ ⟨⟩
    exact keyed
  · rintro _ ⟨⟩
    rw [same.1, same.2]
    exact books.current r rfl
  · rintro n p mem _ ⟨⟩
    exact same.1.symm ▸ books.older n p mem r rfl
  · exact books.unique
  · rintro n mem _ ⟨⟩
    rw [same.1, key]
    exact books.confirmed n mem r rfl
  · exact books.once
  · rintro _ ⟨⟩ set
    rw [same.1]
    exact books.set r rfl (key ▸ set)
  · rintro mem _ ⟨⟩
    exact ended (books.ended mem r rfl)

/-- **Every committed update keeps the row and the log in agreement.** -/
theorem apply (books : Books id i (some r) log) (applied : update.apply now r = some r') :
    Books id i (some r') (log ++ update.events r') := by
  have origin := apply_fixed applied
  have before := books.keyed r rfl
  have keyed := apply_keyed before applied
  have revision := apply_revision before applied
  have ended := fun created => apply_created created applied
  have key := apply_key applied
  have moved : update.revises = false → r'.idempotencyKey = r.idempotencyKey →
      Books id i (some r') log := by
    intro still same
    rw [if_neg (by simp [still])] at revision
    exact books.moved revision same origin keyed ended
  cases update
  case beginCreate n =>
    rw [if_neg (by simp [Update.revises])] at revision
    obtain ⟨⟨_, asked, unset⟩, _⟩ := Option.ite_none_right_eq_some.1 applied
    have begun := books.begun unset (apply_begins rfl applied).2.2 revision origin keyed
    rwa [revision.1, asked] at begun
  all_goals
    have same : r'.idempotencyKey = r.idempotencyKey := by
      rcases key with same | ⟨⟨_, other⟩, _⟩
      · exact same
      · cases other
  case revise | restoreFresh =>
    exact books.revised revision.1 (same.trans revision.1) revision.2 origin keyed
  case finishCreate event =>
    have still := moved rfl same
    exact {
      origin := still.origin
      keyed := still.keyed
      current := fun _ mem => List.mem_append_left _ (still.current _ mem)
      older := fun n p mem => still.older n p (by simpa [Update.events] using mem)
      unique := fun n p q mem mem' => still.unique n p q (by simpa [Update.events] using mem)
        (by simpa [Update.events] using mem')
      confirmed := fun n mem => still.confirmed n (by simpa [Update.events] using mem)
      once := fun n m mem mem' => still.once n m (by simpa [Update.events] using mem)
        (by simpa [Update.events] using mem')
      set := fun _ mem set => List.mem_append_left _ (still.set _ mem set)
      ended := by
        rintro _ _ ⟨⟩
        exact apply_finish applied }
  all_goals exact (moved rfl same).append (by simp [Update.events])

end Books

/-! ## Every call of the log -/

section

variable {id : String} {i : EventDraftInsert} {log : List Event}

/-- When each call was made: after a compare-and-set of its own, with no call in flight
and the row not `created`, for a revision that was confirmed. -/
def History (id : String) (i : EventDraftInsert) (log : List Event) : Prop :=
  ∀ earlier intent later, log = earlier ++ .invoked intent :: later →
    granted earlier = true ∧ inFlight earlier = false ∧ .created ∉ earlier ∧
      Confirmed id i earlier intent

theorem History.snoc (held : History id i log) {event : Event}
    (fits : ∀ intent, event = .invoked intent → granted log = true ∧ inFlight log = false ∧
      .created ∉ log ∧ Confirmed id i log intent) : History id i (log ++ [event]) := by
  intro earlier intent later same
  rcases List.eq_nil_or_concat later with rfl | ⟨later, last, rfl⟩
  · obtain ⟨before, last⟩ := List.append_inj' same rfl
    subst before
    exact fits intent (List.cons.inj last).1
  · rw [List.concat_eq_append, ← List.cons_append, ← List.append_assoc] at same
    exact held earlier intent later (List.append_inj' same rfl).1

theorem History.append (held : History id i log) {events : List Event}
    (others : ∀ event ∈ events, ∀ intent, event ≠ .invoked intent) :
    History id i (log ++ events) := by
  induction events generalizing log with
  | nil => rwa [List.append_nil]
  | cons event rest ih =>
      have first : History id i (log ++ [event]) := held.snoc fun intent same =>
        absurd same (others event (List.mem_cons_self ..) intent)
      have all := ih first fun e mem => others e (List.mem_cons_of_mem _ mem)
      rwa [List.append_assoc] at all

theorem granted_snoc (event : Event) : granted (log ++ [event]) =
    match event with
    | .confirmed _ | .retried => true
    | .invoked _ => false
    | _ => granted log := by
  simp only [granted, List.foldl_append, List.foldl_cons, List.foldl_nil]

theorem inFlight_snoc (event : Event) : inFlight (log ++ [event]) =
    match event with
    | .invoked _ => true
    | .settled | .restarted => false
    | _ => inFlight log := by
  simp only [inFlight, List.foldl_append, List.foldl_cons, List.foldl_nil]

/-- An answer says nothing about the calls. -/
theorem answered_aside (outcome : Option EventConfirmOutcome) :
    let log' := log ++ (outcome.map Event.answered).toList
    granted log' = granted log ∧ inFlight log' = inFlight log ∧
      (.created ∈ log' ↔ .created ∈ log) := by
  cases outcome with
  | none => simp
  | some outcome => simp [granted_snoc, inFlight_snoc]

theorem events_inFlight (row : EventDraftRow) (update : Update) :
    inFlight (log ++ update.events row) = inFlight log := by
  cases update <;> simp [Update.events, inFlight_snoc]

theorem events_invoked (row : EventDraftRow) (update : Update) :
    ∀ event ∈ update.events row, ∀ intent, event ≠ .invoked intent := by
  cases update <;> simp [Update.events]

/-- Neither a compare-and-set into `creating` nor the end of a create. -/
def Update.aside : Update → Bool
  | .beginCreate _ | .beginRetry | .finishCreate _ => false
  | _ => true

theorem events_aside (row : EventDraftRow) {update : Update} (aside : update.aside = true) :
    granted (log ++ update.events row) = granted log ∧
      (.created ∈ log ++ update.events row ↔ .created ∈ log) := by
  cases update <;> try cases aside
  all_goals simp [Update.events, granted_snoc]

end

/-! ## The invariant of a run -/

/-- The operations that take the lock start here. -/
def Fiber.isRequest : Fiber → Bool
  | .confirm _ | .cancel _ | .beginRetry | .discard | .restoreFresh => true
  | _ => false

/-- What holds where a fiber is. -/
def Fiber.Holds (id : String) (i : EventDraftInsert) (row : Option EventDraftRow)
    (log : List Event) : Fiber → Prop
  | .readback _ => granted log = true ∧ inFlight log = false ∧ .created ∉ log ∧
      ∀ r ∈ row, r.idempotencyKey ≠ none
  | .account r => granted log = true ∧ inFlight log = false ∧ .created ∉ log ∧
      Confirmed id i log r.intent
  | .creating .. => True
  | _ => inFlight log = false

structure Core (id : String) (i : EventDraftInsert) (s : State) : Prop where
  books : Books id i s.row s.log
  history : History id i s.log
  waiting : ∀ fiber ∈ s.waiting, fiber.isRequest = true

structure Inv (id : String) (i : EventDraftInsert) (s : State) : Prop extends Core id i s where
  holder : ∀ fiber ∈ s.holder, fiber.Holds id i s.row s.log
  idle : s.holder = none → inFlight s.log = false

section

variable {id : String} {i : EventDraftInsert} {s s' : State} {now : Nat}

theorem Fiber.isRequest.holds {fiber : Fiber} (request : fiber.isRequest = true)
    {row : Option EventDraftRow} {log : List Event} (still : inFlight log = false) :
    fiber.Holds id i row log := by
  cases fiber <;> try cases request
  all_goals exact still

/-- What an execution of an update can do. -/
theorem execute_cases (s : State) (now : Nat) (update : Update) :
    (s.execute now update = (s, false)) ∨
      ∃ row row', s.row = some row ∧ update.apply now row = some row' ∧
        s.execute now update =
          ({ s with row := some row', log := s.log ++ update.events row' }, true) := by
  unfold State.execute
  split
  · rename_i row' applied
    obtain ⟨row, found, applied⟩ := Option.bind_eq_some_iff.1 applied
    exact .inr ⟨row, row', found, applied, rfl⟩
  · exact .inl rfl

theorem Core.execute (core : Core id i s) (update : Update) :
    Core id i (s.execute now update).1 := by
  rcases execute_cases s now update with same | ⟨row, row', found, applied, same⟩
  · rwa [same]
  · rw [same]
    have books := core.books
    rw [found] at books
    exact ⟨books.apply applied, core.history.append (events_invoked row' update), core.waiting⟩

theorem execute_inFlight (s : State) (now : Nat) (update : Update) :
    inFlight (s.execute now update).1.log = inFlight s.log := by
  rcases execute_cases s now update with same | ⟨_, row', _, _, same⟩
  · rw [same]
  · rw [same]
    exact events_inFlight row' update

/-- A row with a key keeps one. -/
theorem apply_set {row row' : EventDraftRow} {update : Update}
    (applied : update.apply now row = some row') (set : row.idempotencyKey ≠ none) :
    row'.idempotencyKey ≠ none := by
  rcases apply_key applied with same | ⟨_, unset, _⟩
  · rwa [same]
  · exact absurd unset set

/-- **A statement that falls between two steps of the holder changes nothing it relies
on.** -/
theorem Inv.aside (inv : Inv id i s) {update : Update} (aside : update.aside = true) :
    Inv id i (s.execute now update).1 := by
  rcases execute_cases s now update with same | ⟨row, row', found, applied, same⟩
  · rwa [same]
  · have core : Core id i (s.execute now update).1 := inv.toCore.execute update
    rw [same] at core ⊢
    obtain ⟨grant, ended⟩ := @events_aside s.log row' _ aside
    have flight := @events_inFlight s.log row' update
    refine ⟨core, fun fiber holds => ?_, fun free => flight.trans (inv.idle free)⟩
    have before := inv.holder fiber holds
    cases fiber
    case readback =>
      obtain ⟨granted, still, open', set⟩ := before
      refine ⟨grant.trans granted, flight.trans still, fun mem => open' (ended.1 mem), ?_⟩
      rintro _ ⟨⟩
      exact apply_set applied (set row found)
    case account r =>
      obtain ⟨granted, still, open', confirmed⟩ := before
      exact ⟨grant.trans granted, flight.trans still, fun mem => open' (ended.1 mem),
        confirmed.grows (List.subset_append_left ..)⟩
    case creating => trivial
    all_goals exact flight.trans before

/-- The holder goes on to a fiber whose facts hold, or gives the lock back. -/
theorem Core.proceed (core : Core id i s) {next : Next}
    (holds : ∀ fiber ∈ next.1, fiber.Holds id i s.row s.log)
    (free : next.1 = none → inFlight s.log = false) : Inv id i (s.proceed next) := by
  obtain ⟨grant, flight, ended⟩ := @answered_aside s.log next.2
  refine ⟨⟨core.books.append ?_, core.history.append ?_, core.waiting⟩, fun fiber mem => ?_,
    fun none => flight.trans (free none)⟩
  · intro event mem
    obtain ⟨outcome, _, rfl⟩ := by simpa using mem
    simp
  · intro event mem
    obtain ⟨outcome, _, rfl⟩ := by simpa using mem
    simp
  · have before := holds fiber mem
    cases fiber
    case readback =>
      obtain ⟨granted, still, open', set⟩ := before
      exact ⟨grant.trans granted, flight.trans still, fun mem => open' (ended.1 mem), set⟩
    case account r =>
      obtain ⟨granted, still, open', confirmed⟩ := before
      exact ⟨grant.trans granted, flight.trans still, fun mem => open' (ended.1 mem),
        confirmed.grows (List.subset_append_left ..)⟩
    case creating => trivial
    all_goals exact flight.trans before

/-! ## Steps -/

/-- After a compare-and-set into `creating`. -/
theorem begun_holds {row row' : EventDraftRow} {update : Update} (core : Core id i s)
    (still : inFlight s.log = false) (found : s.row = some row)
    (applied : update.apply now row = some row') (begins : update.begins = true)
    (absent : EventConfirmOutcome) :
    (Fiber.readback absent).Holds id i (some row') (s.log ++ update.events row') := by
  obtain ⟨running, _, set⟩ := apply_begins begins applied
  have uncreated : .created ∉ s.log := fun mem => running (core.books.ended mem row found)
  refine ⟨?_, (events_inFlight row' update).trans still, ?_, ?_⟩
  · cases update <;> try cases begins
    all_goals simp [Update.events, granted_snoc]
  · cases update <;> try cases begins
    all_goals simpa [Update.events] using uncreated
  · rintro _ ⟨⟩
    exact set

/-- At a statement no call is in flight. -/
theorem update_still {fiber : Fiber} {update : Update} {row : Option EventDraftRow}
    {log : List Event} (stands : fiber.update = some update)
    (holds : fiber.Holds id i row log) : inFlight log = false := by
  cases fiber <;> try cases stands
  all_goals exact holds

theorem executed_holds {fiber : Fiber} {update : Update} (core : Core id i s)
    (still : inFlight s.log = false) (stands : fiber.update = some update) :
    ∀ next ∈ (fiber.executed (s.execute now update).2).1,
      next.Holds id i (s.execute now update).1.row (s.execute now update).1.log := by
  have flight := (execute_inFlight s now update).trans still
  intro next goes
  rcases execute_cases s now update with same | ⟨row, row', found, applied, same⟩
  · rw [same] at goes flight ⊢
    cases fiber
    case restoreFresh =>
      obtain rfl := Option.some.inj goes
      exact flight
    all_goals cases goes
    all_goals cases stands
  · rw [same] at goes flight ⊢
    cases fiber
    case beginCreate | beginRetry =>
      cases stands
      obtain rfl := Option.some.inj goes
      exact begun_holds core still found applied rfl _
    all_goals cases goes
    all_goals cases stands

theorem caught_holds {fiber : Fiber} {message : String} {row : Option EventDraftRow}
    {log : List Event} (still : inFlight log = false) :
    ∀ next ∈ (fiber.caught message).1, next.Holds id i row log := by
  intro next goes
  cases fiber <;> try cases goes
  all_goals exact still

/-- `createEvent` is called. -/
theorem Core.invoke (core : Core id i s) {row : EventDraftRow} {email : String}
    (held : (Fiber.account row).Holds id i s.row s.log) :
    Inv id i ((s.emit [.invoked row.intent]).proceed (goes (.creating row email))) := by
  obtain ⟨granted, still, uncreated, confirmed⟩ := held
  have called : Core id i (s.emit [.invoked row.intent]) :=
    ⟨core.books.append (by simp), core.history.snoc fun intent same => by
      obtain rfl := Event.invoked.inj same
      exact ⟨granted, still, uncreated, confirmed⟩, core.waiting⟩
  refine called.proceed ?_ (by simp [goes])
  rintro _ ⟨⟩
  trivial

/-- A call ends. -/
theorem Core.settle (core : Core id i s) {next : Next}
    (goes : ∀ fiber ∈ next.1, ∀ row log, inFlight log = false → fiber.Holds id i row log) :
    Inv id i ((s.emit [.settled]).proceed next) := by
  have still : inFlight (s.log ++ [.settled]) = false := inFlight_snoc _
  have settled : Core id i (s.emit [.settled]) :=
    ⟨core.books.append (by simp), core.history.snoc (by simp), core.waiting⟩
  exact settled.proceed (fun fiber mem => goes fiber mem _ _ still) fun _ => still

/-- **A step of the operation that holds the lock.** -/
theorem Inv.resume (inv : Inv id i s) {fiber : Fiber} {input : Input}
    (held : s.holder = some fiber) (resumed : s.resume now fiber input = some s') :
    Inv id i s' := by
  have core := inv.toCore
  have holds := inv.holder fiber held
  unfold State.resume at resumed
  split at resumed
  · rename_i update stands
    have still := update_still stands holds
    have flight := (execute_inFlight s now update).trans still
    split at resumed <;> cases resumed
    · exact (core.execute update).proceed (executed_holds core still stands) fun _ => flight
    · exact core.proceed (caught_holds still) fun _ => still
    · exact (core.execute update).proceed (caught_holds flight) fun _ => flight
  · split at resumed
    · rename_i revision _
      obtain rfl := Option.some.inj resumed
      refine core.proceed (fun next goes => ?_) fun _ => holds
      split at goes
      · cases goes
      · split at goes
        · cases goes
        · split at goes
          · cases goes
          · obtain rfl := Option.some.inj goes
            exact holds
    · rename_i revision _
      obtain rfl := Option.some.inj resumed
      refine core.proceed (fun next goes => ?_) fun _ => holds
      split at goes
      · cases goes
      · split at goes
        · cases goes
        · obtain rfl := Option.some.inj goes
          exact holds
    · rename_i absent _
      obtain rfl := Option.some.inj resumed
      obtain ⟨granted, still, uncreated, set⟩ := holds
      refine core.proceed (fun next goes => ?_) fun _ => still
      split at goes
      · cases goes
      · rename_i row found
        obtain rfl := Option.some.inj goes
        exact ⟨granted, still, uncreated, core.books.intent found (set row found)⟩
    · rename_i row found writer _
      dsimp only at resumed
      split at resumed
      · obtain rfl := Option.some.inj resumed
        exact core.invoke holds
      · obtain rfl := Option.some.inj resumed
        refine core.proceed ?_ fun _ => holds.2.1
        rintro _ ⟨⟩
        exact holds.2.1
    · obtain rfl := Option.some.inj resumed
      refine core.settle ?_
      rintro _ ⟨⟩ _ _ still
      exact still
    · rename_i row email message _
      obtain rfl := Option.some.inj resumed
      exact core.settle fun next goes row log still => caught_holds still next goes
    · rename_i message other _ _ _
      obtain rfl := Option.some.inj resumed
      have still : inFlight s.log = false := by
        cases fiber
        case readback => exact holds.2.1
        case account => exact holds.2.1
        case creating => simp_all
        all_goals exact holds
      exact core.proceed (caught_holds still) fun _ => still
    · cases resumed

theorem Inv.request (inv : Inv id i s) {fiber : Fiber} (request : fiber.isRequest = true) :
    Inv id i (s.request fiber) := by
  refine ⟨⟨inv.books, inv.history, fun other mem => ?_⟩, inv.holder, inv.idle⟩
  rcases List.mem_append.1 mem with mem | mem
  · exact inv.waiting other mem
  · exact List.mem_singleton.1 mem ▸ request

theorem Inv.drafting (inv : Inv id i s) (drafting : Option Drafting) :
    Inv id i { s with drafting := drafting } :=
  ⟨⟨inv.books, inv.history, inv.waiting⟩, inv.holder, inv.idle⟩

theorem Drafting.aside (drafting : Drafting) : drafting.update.aside = true := by
  cases drafting <;> rfl

theorem Inv.resumeDrafting (inv : Inv id i s) {drafting : Drafting} {input : Input}
    (resumed : s.resumeDrafting now drafting input = some s') : Inv id i s' := by
  have kept : Inv id i (s.execute now drafting.update).1 := inv.aside drafting.aside
  cases input <;> cases resumed
  · exact kept.drafting _
  · exact inv.drafting _
  · exact kept.drafting _

/-- The account is removed, and the row with it. -/
theorem Inv.removed (inv : Inv id i s) : Inv id i { s with row := none } := by
  refine ⟨⟨inv.books.removed, inv.history, inv.waiting⟩, fun fiber mem => ?_, inv.idle⟩
  have before := inv.holder fiber mem
  cases fiber
  case readback => exact ⟨before.1, before.2.1, before.2.2.1, by simp⟩
  all_goals exact before

theorem Inv.restarted (inv : Inv id i s) :
    Inv id i { s with
      holder := none
      waiting := []
      drafting := none
      log := s.log ++ [.restarted] } where
  books := inv.books.append (by simp)
  history := inv.history.snoc (by simp)
  waiting := by simp
  holder := by simp
  idle _ := inFlight_snoc _

theorem Inv.started (inv : Inv id i s) {fiber : Fiber} {rest : List Fiber}
    (free : s.holder = none) (first : s.waiting = fiber :: rest) :
    Inv id i { s with holder := some fiber, waiting := rest } := by
  have waiting := inv.waiting
  rw [first] at waiting
  refine ⟨⟨inv.books, inv.history, fun other mem => waiting other (List.mem_cons_of_mem _ mem)⟩,
    ?_, by simp⟩
  rintro _ ⟨⟩
  exact Fiber.isRequest.holds (waiting fiber (List.mem_cons_self ..)) (inv.idle free)

theorem Inv.step {verifyEventToken : String → Option EventToken} {action : Action}
    (inv : Inv id i s) (stepped : step verifyEventToken id s action = some s') :
    Inv id i s' := by
  cases action
  case confirmById => exact Option.some.inj stepped ▸ inv.request rfl
  case retryById => exact Option.some.inj stepped ▸ inv.request rfl
  case discardById => exact Option.some.inj stepped ▸ inv.request rfl
  case restoreById => exact Option.some.inj stepped ▸ inv.request rfl
  case confirmByToken =>
    simp only [Calendar.step] at stepped
    split at stepped
    · exact Option.some.inj stepped ▸ inv
    · obtain rfl := Option.some.inj stepped
      split
      · exact inv
      · exact inv.request rfl
  case cancelByToken =>
    simp only [Calendar.step] at stepped
    split at stepped
    · exact Option.some.inj stepped ▸ inv
    · exact Option.some.inj stepped ▸ inv.request rfl
  case start =>
    simp only [Calendar.step] at stepped
    split at stepped
    · rename_i free first
      exact Option.some.inj stepped ▸ inv.started free first
    · cases stepped
  case run now input =>
    obtain ⟨fiber, held, resumed⟩ := Option.bind_eq_some_iff.1 stepped
    exact inv.resume held resumed
  case draftEvent drafting =>
    obtain ⟨_, same⟩ := Option.ite_none_right_eq_some.1 stepped
    exact Option.some.inj same ▸ inv.drafting _
  case draft now input =>
    obtain ⟨drafting, _, resumed⟩ := Option.bind_eq_some_iff.1 stepped
    exact inv.resumeDrafting resumed
  case expireOverdue now readOnly =>
    obtain rfl := Option.some.inj stepped
    split
    · exact inv
    · exact inv.aside rfl
  case recoverOrphanedCreating now readOnly =>
    obtain rfl := Option.some.inj stepped
    split
    · exact inv
    · exact inv.aside rfl
  case removeAccount => exact Option.some.inj stepped ▸ inv.removed
  case restart => exact Option.some.inj stepped ▸ inv.restarted

theorem Inv.inserted (id : String) (i : EventDraftInsert) (now : Nat) :
    Inv id i (.inserted id i now) where
  books := .inserted id i now
  history := by
    intro earlier intent later same
    rcases earlier with _ | ⟨event, earlier⟩
    · cases (List.cons.inj same).1
    · have rest := (List.cons.inj same).2
      simp at rest
  waiting := by simp [State.inserted]
  holder := by simp [State.inserted]
  idle _ := rfl

end

/-- **One event per draft.**  Of every run on a draft: each call of `createEvent` uses up a
compare-and-set into `creating` of its own, with no other call in flight and the row not
yet `created`; and each carries what the one confirmed revision stands for. -/
theorem created_once {verifyEventToken : String → Option EventToken} {id : String}
    {i : EventDraftInsert} {now : Nat} {actions : List Action} {s : State}
    (ran : runSteps (step verifyEventToken id) (.inserted id i now) actions = some s) :
    (∀ earlier intent later, s.log = earlier ++ .invoked intent :: later →
      granted earlier = true ∧ inFlight earlier = false ∧ .created ∉ earlier) ∧
    ∀ intent, .invoked intent ∈ s.log → ∃ n p, .confirmed n ∈ s.log ∧ .revision n p ∈ s.log ∧
      (∀ m, .confirmed m ∈ s.log → m = n) ∧ (∀ q, .revision n q ∈ s.log → q = p) ∧
      intent = confirmedIntent id i n p := by
  have inv : Inv id i s := run_invariant (fun _ _ _ inv stepped => Inv.step inv stepped)
    (Inv.inserted id i now) ran
  refine ⟨fun earlier intent later same => ?_, fun intent mem => ?_⟩
  · obtain ⟨granted, still, uncreated, _⟩ := inv.history earlier intent later same
    exact ⟨granted, still, uncreated⟩
  · obtain ⟨earlier, later, same⟩ := List.append_of_mem mem
    obtain ⟨_, _, _, confirmed⟩ := inv.history earlier intent later same
    obtain ⟨n, p, confirmed, revision, stands⟩ :=
      confirmed.grows (same ▸ List.subset_append_left ..)
    exact ⟨n, p, confirmed, revision, fun m mem => inv.books.once m n mem confirmed,
      fun q mem => inv.books.unique n q p mem revision, stands⟩

/-! ## A create that is cut and retried -/

def dinner : EventDraftInsert where
  accountId := "a"
  payload := ⟨"primary", "Dinner", "2026-11-03", "2026-11-04", true, "Europe/Berlin", none, none,
    [], "none", "kids"⟩
  sourceDocumentId := none
  fingerprint := "f"
  confirmMode := .review
  createdVia := "app"
  createdBy := none

def me : Input := .account (some ⟨"me@example.com", "google-calendar"⟩) true

/-- Confirmed, cut by a restart in the middle of the call, recovered and tried again. -/
def cutCreate : List Action :=
  [.confirmById 1, .start, .run 1 .resolves, .run 1 .resolves, .run 1 .resolves, .run 1 me,
   .restart, .recoverOrphanedCreating 2 false,
   .retryById, .start, .run 3 .resolves, .run 3 .resolves, .run 3 me,
   .run 4 (.created ⟨"e", none, none, none, false, none⟩), .run 4 .resolves]

theorem created_once_cut : ∃ s : State,
    runSteps (step (fun _ => none) "d") (.inserted "d" dinner 0) cutCreate = some s ∧
      .created ∈ s.log ∧
      ∃ earlier intent later, s.log = earlier ++ .invoked intent :: later ∧
        inFlight earlier = false := by
  have ran : ∃ s : State,
      runSteps (step (fun _ => none) "d") (.inserted "d" dinner 0) cutCreate = some s ∧
        .created ∈ s.log ∧ Event.invoked (confirmedIntent "d" dinner 1 dinner.payload) ∈ s.log :=
    ⟨_, rfl, by decide +kernel, by decide +kernel⟩
  obtain ⟨s, ran, created, called⟩ := ran
  obtain ⟨earlier, later, same⟩ := List.append_of_mem called
  exact ⟨s, ran, created, earlier, _, later, same, ((created_once ran).1 _ _ _ same).2.1⟩

end Kiagent.Calendar
