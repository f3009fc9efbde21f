/-
# Calendar.EventDrafts -- the row of an event draft and its compare-and-set updates

An event draft is proposed, confirmed and created in a calendar.  Every update of its
row is a compare-and-set: it says in its `WHERE` which status the row must have, and
`none` here means that it changed no row.

A row that was ever `creating` has an idempotency key, and no update takes it away or
changes what the key stands for (`Kept`).
-/
import Mathlib

namespace Kiagent.Calendar

set_option autoImplicit false

/-! ## Rows -/

def EVENT_DRAFT_TTL_MS : Nat := 7 * 24 * 60 * 60000

inductive EventDraftStatus where
  | draft
  | creating
  | created
  | failed
  | discarded
  | expired
  | unknown
  deriving DecidableEq

structure Attendee where
  email : String
  name : Option String
  deriving DecidableEq

/-- Everything a revision covers. -/
structure EventPayload where
  calendarId : String
  title : String
  start : String
  ends : String
  allDay : Bool
  timeZone : String
  location : Option String
  description : Option String
  attendees : List Attendee
  conference : String
  category : String
  deriving DecidableEq

structure CreatedEvent where
  eventId : String
  iCalUID : Option String
  htmlLink : Option String
  conferenceUrl : Option String
  conferencePending : Bool
  note : Option String
  deriving DecidableEq

inductive ConfirmMode where
  | review
  | link
  deriving DecidableEq

structure EventDraftInsert where
  accountId : String
  payload : EventPayload
  sourceDocumentId : Option String
  fingerprint : String
  confirmMode : ConfirmMode
  createdVia : String
  createdBy : Option String
  deriving DecidableEq

/-- Times are milliseconds. -/
structure EventDraftRow where
  id : String
  accountId : String
  revision : Nat
  payload : EventPayload
  idempotencyKey : Option String
  sourceDocumentId : Option String
  fingerprint : String
  confirmMode : ConfirmMode
  status : EventDraftStatus
  error : Option String
  created : Option CreatedEvent
  createdVia : String
  createdBy : Option String
  createdAt : Nat
  updatedAt : Nat
  confirmedAt : Option Nat
  expiresAt : Nat
  touchedAt : Nat
  touchedVia : String
  deriving DecidableEq

namespace EventDraftRow

/-! ## Updates -/

def freshExpiry (now : Nat) : Nat := now + EVENT_DRAFT_TTL_MS

def insert (id : String) (i : EventDraftInsert) (now : Nat) : EventDraftRow where
  id := id
  accountId := i.accountId
  revision := 1
  payload := i.payload
  idempotencyKey := none
  sourceDocumentId := i.sourceDocumentId
  fingerprint := i.fingerprint
  confirmMode := i.confirmMode
  status := .draft
  error := none
  created := none
  createdVia := i.createdVia
  createdBy := i.createdBy
  createdAt := now
  updatedAt := now
  confirmedAt := none
  expiresAt := freshExpiry now
  touchedAt := now
  touchedVia := i.createdVia

variable (now : Nat) (row : EventDraftRow)

/-- A new revision of a `draft`. -/
def revise (expectedRevision : Nat) (payload : EventPayload) (fingerprint via : String) :
    Option EventDraftRow :=
  if row.status = .draft ∧ row.revision = expectedRevision then
    some { row with
      payload := payload
      fingerprint := fingerprint
      revision := row.revision + 1
      updatedAt := now
      expiresAt := freshExpiry now
      touchedAt := now
      touchedVia := via }
  else none

def touch (via : String) : Option EventDraftRow :=
  some { row with touchedAt := now, touchedVia := via }

/-- From `draft` to `creating`, at a revision: the key is frozen. -/
def beginCreate (revision : Nat) : Option EventDraftRow :=
  if row.status = .draft ∧ row.revision = revision ∧ row.idempotencyKey = none then
    some { row with
      status := .creating
      idempotencyKey := some (row.id ++ ":" ++ toString row.revision)
      confirmedAt := some now
      updatedAt := now
      error := none }
  else none

/-- From `failed` or `unknown` to `creating`, the key unchanged. -/
def beginRetry : Option EventDraftRow :=
  if (row.status = .failed ∨ row.status = .unknown) ∧ row.idempotencyKey ≠ none then
    some { row with status := .creating, updatedAt := now }
  else none

def finishCreate (event : CreatedEvent) : Option EventDraftRow :=
  if row.status = .creating then
    some { row with
      status := .created
      created := some event
      error := none
      updatedAt := now }
  else none

/-- How a create that did not succeed ends. -/
inductive Failure where
  | failed
  | unknown
  deriving DecidableEq

def Failure.status : Failure → EventDraftStatus
  | .failed => .failed
  | .unknown => .unknown

def failCreate (status : Failure) (error : String) : Option EventDraftRow :=
  if row.status = .creating then
    some { row with status := status.status, error := some error, updatedAt := now }
  else none

def discard : Option EventDraftRow :=
  if row.status = .draft ∨ row.status = .failed ∨ row.status = .unknown then
    some { row with status := .discarded, updatedAt := now }
  else none

/-- The first statement of `restore`: a row without a key is a draft again. -/
def restoreFresh : Option EventDraftRow :=
  if (row.status = .discarded ∨ row.status = .expired) ∧ row.idempotencyKey = none then
    some { row with
      status := .draft
      revision := row.revision + 1
      updatedAt := now
      expiresAt := freshExpiry now
      error := none }
  else none

/-- Its second one: with a key, only a retry or a discard remain. -/
def restoreKept : Option EventDraftRow :=
  if (row.status = .discarded ∨ row.status = .expired) ∧ row.idempotencyKey ≠ none then
    some { row with status := .unknown, updatedAt := now }
  else none

def expireOverdue : Option EventDraftRow :=
  if row.status = .draft ∧ row.idempotencyKey = none ∧ row.expiresAt ≤ now then
    some { row with status := .expired, updatedAt := now }
  else none

def ORPHANED : String :=
  "Kia closed while adding this event — it may have been added. Check your calendar, then Try again or Discard."

/-- At boot: a process died in the middle of a create. -/
def recoverOrphanedCreating : Option EventDraftRow :=
  if row.status = .creating then
    some { row with status := .unknown, updatedAt := now, error := some ORPHANED }
  else none

/-- What a writer is asked to create: plain data, the row's own. -/
structure EventIntent where
  payload : EventPayload
  accountId : String
  idempotencyKey : Option String
  draftId : String
  sourceDocumentId : Option String
  deriving DecidableEq

def intent : EventIntent where
  payload := row.payload
  accountId := row.accountId
  idempotencyKey := row.idempotencyKey
  draftId := row.id
  sourceDocumentId := row.sourceDocumentId

end EventDraftRow

/-! ## What the updates keep -/

/-- The updates of the store. -/
inductive Update where
  | revise (expectedRevision : Nat) (payload : EventPayload) (fingerprint via : String)
  | touch (via : String)
  | beginCreate (revision : Nat)
  | beginRetry
  | finishCreate (event : CreatedEvent)
  | failCreate (status : EventDraftRow.Failure) (error : String)
  | discard
  | restoreFresh
  | restoreKept
  | expireOverdue
  | recoverOrphanedCreating
  deriving DecidableEq

/-- The row an update leaves; `none` when it changes no row. -/
def Update.apply (now : Nat) (row : EventDraftRow) : Update → Option EventDraftRow
  | .revise expectedRevision payload fingerprint via =>
      row.revise now expectedRevision payload fingerprint via
  | .touch via => row.touch now via
  | .beginCreate revision => row.beginCreate now revision
  | .beginRetry => row.beginRetry now
  | .finishCreate event => row.finishCreate now event
  | .failCreate status error => row.failCreate now status error
  | .discard => row.discard now
  | .restoreFresh => row.restoreFresh now
  | .restoreKept => row.restoreKept now
  | .expireOverdue => row.expireOverdue now
  | .recoverOrphanedCreating => row.recoverOrphanedCreating now

/-- A row that was confirmed has the key of its revision, and is never a draft again; one
that was not has none. -/
def EventDraftRow.Keyed (row : EventDraftRow) : Prop :=
  (row.idempotencyKey = none ∧
      (row.status = .draft ∨ row.status = .discarded ∨ row.status = .expired)) ∨
    (row.idempotencyKey = some (row.id ++ ":" ++ toString row.revision) ∧
      row.status ≠ .draft ∧ row.status ≠ .expired)

/-- The update makes a new revision. -/
def Update.revises : Update → Bool
  | .revise .. | .restoreFresh => true
  | _ => false

/-- It is a compare-and-set into `creating`. -/
def Update.begins : Update → Bool
  | .beginCreate _ | .beginRetry => true
  | _ => false

section Applied

variable {now : Nat} {row row' : EventDraftRow} {update : Update}

theorem insert_keyed {id : String} {i : EventDraftInsert} :
    (EventDraftRow.insert id i now).Keyed := by
  exact .inl ⟨rfl, .inl rfl⟩

theorem apply_fixed (applied : update.apply now row = some row') :
    row'.id = row.id ∧ row'.accountId = row.accountId ∧
      row'.sourceDocumentId = row.sourceDocumentId := by
  cases update
  case touch => cases applied; exact ⟨rfl, rfl, rfl⟩
  all_goals
    obtain ⟨_, same⟩ := Option.ite_none_right_eq_some.1 applied
    cases same
    exact ⟨rfl, rfl, rfl⟩

/-- Only a first confirm sets a key: that of the revision it was given. -/
theorem apply_key (applied : update.apply now row = some row') :
    row'.idempotencyKey = row.idempotencyKey ∨
      (∃ revision, update = .beginCreate revision) ∧ row.idempotencyKey = none ∧
        row'.idempotencyKey = some (row.id ++ ":" ++ toString row.revision) := by
  cases update
  case touch => cases applied; exact .inl rfl
  case beginCreate revision =>
    obtain ⟨⟨_, _, unset⟩, same⟩ := Option.ite_none_right_eq_some.1 applied
    cases same
    exact .inr ⟨⟨revision, rfl⟩, unset, rfl⟩
  all_goals
    obtain ⟨_, same⟩ := Option.ite_none_right_eq_some.1 applied
    cases same
    exact .inl rfl

/-- **A revision changes only while the row has no key.** -/
theorem apply_revision (keyed : row.Keyed) (applied : update.apply now row = some row') :
    if update.revises then row.idempotencyKey = none ∧ row'.revision = row.revision + 1
    else row'.revision = row.revision ∧ row'.payload = row.payload := by
  cases update
  case touch => cases applied; exact ⟨rfl, rfl⟩
  case revise =>
    obtain ⟨⟨draft, _⟩, same⟩ := Option.ite_none_right_eq_some.1 applied
    cases same
    rcases keyed with ⟨unset, _⟩ | ⟨_, confirmed, _⟩
    · exact ⟨unset, rfl⟩
    · exact absurd draft confirmed
  case restoreFresh =>
    obtain ⟨⟨_, unset⟩, same⟩ := Option.ite_none_right_eq_some.1 applied
    cases same
    exact ⟨unset, rfl⟩
  all_goals
    obtain ⟨_, same⟩ := Option.ite_none_right_eq_some.1 applied
    cases same
    exact ⟨rfl, rfl⟩

theorem apply_keyed (keyed : row.Keyed) (applied : update.apply now row = some row') :
    row'.Keyed := by
  cases update
  case touch => cases applied; exact keyed
  case failCreate status error =>
    obtain ⟨creating, same⟩ := Option.ite_none_right_eq_some.1 applied
    cases same
    rcases keyed with ⟨_, early⟩ | ⟨set, _⟩
    · simp [creating] at early
    · exact .inr ⟨set, by cases status <;> simp [EventDraftRow.Failure.status]⟩
  all_goals
    obtain ⟨guard, same⟩ := Option.ite_none_right_eq_some.1 applied
    cases same
    rcases keyed with ⟨unset, early⟩ | ⟨set, late⟩
    all_goals simp_all [EventDraftRow.Keyed]

/-- A compare-and-set into `creating` does not start from `created`. -/
theorem apply_begins (begins : update.begins = true)
    (applied : update.apply now row = some row') :
    row.status ≠ .created ∧ row'.status = .creating ∧ row'.idempotencyKey ≠ none := by
  cases update
  case beginCreate =>
    obtain ⟨⟨draft, _⟩, same⟩ := Option.ite_none_right_eq_some.1 applied
    cases same
    exact ⟨by simp [draft], rfl, by simp⟩
  case beginRetry =>
    obtain ⟨⟨ended, set⟩, same⟩ := Option.ite_none_right_eq_some.1 applied
    cases same
    exact ⟨by rcases ended with ended | ended <;> simp [ended], rfl, set⟩
  all_goals cases begins

/-- `created` is the end. -/
theorem apply_created (created : row.status = .created)
    (applied : update.apply now row = some row') : row'.status = .created := by
  cases update
  case touch => cases applied; exact created
  all_goals
    obtain ⟨guard, _⟩ := Option.ite_none_right_eq_some.1 applied
    simp [created] at guard

theorem apply_finish {event : CreatedEvent}
    (applied : (Update.finishCreate event).apply now row = some row') :
    row'.status = .created := by
  obtain ⟨_, same⟩ := Option.ite_none_right_eq_some.1 applied
  cases same
  rfl

end Applied

end Kiagent.Calendar
