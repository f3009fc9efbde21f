/-
# Store.Rows -- the rows of the copied tables

One Lean record per table the store reads by column: `accounts`, `documents`,
`outbox` and `sync_epochs`.  The remaining copied tables (event drafts, the
attention tables, user preferences and the synced tables of plugins) are moved
between devices as whole rows, so a `PlainRow` keeps their primary key, the
account they hang from when they have one, and their other columns by name.

`RowOf` gives each table its row type and `keyOf` the primary key of a row, as
the JSON array the change tracker stores.  Times are milliseconds: the store
compares the ISO strings it writes, which order as the instants they denote.
-/
import Mathlib

namespace Kiagent.Store

set_option autoImplicit false

abbrev AccountId := String
abbrev DocumentId := String
abbrev DeviceId := String
abbrev Time := Nat

/-- A column value, as `json_array` writes it. -/
inductive Cell where
  | null
  | int (n : Int)
  | text (s : String)
  | blob (bytes : List UInt8)
  deriving DecidableEq, Repr

/-- A primary key: the column values in key order. -/
abbrev Key := List Cell

/-- A JSON object: its members in order, each value as its JSON text. -/
abbrev JsonObject := List (String × String)

/-- `{ ..a, ..b }`: a member of `b` replaces the member of its name in place. -/
def JsonObject.merge (a b : JsonObject) : JsonObject :=
  b.foldl (fun acc m =>
    if acc.any fun x => x.1 = m.1 then acc.map fun x => if x.1 = m.1 then m else x
    else acc ++ [m]) a

/-! ## Accounts and documents -/

structure AccountRow where
  id : AccountId
  source : String
  identifier : String
  config : String
  status : String
  cursor : Option String
  progress : Option String
  lastSyncAt : Option Time
  lastError : Option String
  cadence : Option String
  createdAt : Time
  ownerDeviceId : Option DeviceId
  deriving DecidableEq, Repr

/-- The reference a source names a document by, unique within its account. -/
structure ExternalRef where
  externalId : String
  type : String
  deriving DecidableEq, Repr

structure DocRow where
  id : DocumentId
  accountId : AccountId
  externalId : String
  type : String
  title : Option String
  markdown : Option String
  url : Option String
  metadata : JsonObject
  createdAt : Option Time
  parentId : Option DocumentId
  contentHash : String
  seq : Nat
  ingestSeq : Option Nat
  archivedAt : Option Time
  languages : String
  ingestedAt : Time
  updatedAt : Time
  scopeRootId : Option String
  deriving DecidableEq, Repr

namespace DocRow

def ref (d : DocRow) : ExternalRef := ⟨d.externalId, d.type⟩

/-- The columns of `UNIQUE(account_id, external_id, type)`. -/
def natural (d : DocRow) : AccountId × ExternalRef := (d.accountId, d.ref)

/-- `archived_at IS NULL`. -/
def live (d : DocRow) : Bool := d.archivedAt.isNone

end DocRow

/-! ## The outbox -/

/-- Where Kia got an attached file. -/
inductive AttachmentOrigin where
  | document (documentId : DocumentId) (sha : Option String)
  | file (path : String) (picked : Bool) (sha : Option String)
  deriving DecidableEq, Repr

structure OutboxAttachment where
  filename : String
  mime : String
  size : Nat
  origin : Option AttachmentOrigin
  deriving DecidableEq, Repr

/-- The reviewable content of a draft: what a revision covers. -/
structure DraftSnapshot where
  sendTo : List String
  cc : List String
  bcc : List String
  subject : Option String
  bodyMarkdown : String
  attachments : List OutboxAttachment
  deriving DecidableEq, Repr

inductive OutboxStatus where
  | draft
  | sending
  | sent
  | failed
  | discarded
  | expired
  | deliveryUnknown
  deriving DecidableEq, Repr

inductive ConfirmMode where
  | review
  | link
  | chat
  deriving DecidableEq, Repr

inductive OutboxKind where
  | reply
  | new
  deriving DecidableEq, Repr

/-- A draft at the provider: it carries the account, so every call can be routed. -/
structure DraftRef where
  accountId : AccountId
  draftId : String
  deriving DecidableEq, Repr

structure MirrorState where
  ref : Option DraftRef
  error : Option String
  sentElsewhere : Bool
  provider : Option String
  sizes : List (String × Nat)
  seenKey : Option String
  ownKey : Option String
  deriving DecidableEq, Repr

structure OutboxRow where
  id : String
  accountId : AccountId
  kind : OutboxKind
  replyToDocumentId : Option DocumentId
  outboundRef : Option String
  recipientDisplay : String
  content : DraftSnapshot
  threading : Option String
  confirmMode : ConfirmMode
  status : OutboxStatus
  error : Option String
  externalMessageId : Option String
  createdVia : String
  createdBy : Option String
  createdAt : Time
  sentAt : Option Time
  expiresAt : Time
  revision : Nat
  mirror : Option MirrorState
  sendAt : Option Time
  suggestedSendAt : Option Time
  deriving DecidableEq, Repr

/-! ## The grant ledger and the remaining tables -/

structure EpochRow where
  epoch : Nat
  grantSeq : Nat
  grantCursor : Nat
  deriving DecidableEq, Repr

structure PlainRow where
  pk : Key
  accountId : Option AccountId
  cells : List (String × Cell)
  deriving DecidableEq, Repr

/-! ## Tables -/

/-- The tables that leave the leader: `COPIED_CORE_TABLES` and the synced
tables of the registered plugins. -/
inductive Tbl where
  | accounts
  | documents
  | outbox
  | eventDrafts
  | syncEpochs
  | attentionItems
  | attentionRevisions
  | userPrefs
  | plugin (name : String)
  deriving DecidableEq, Repr

/-- Parents before their children. -/
def copiedCoreTables : List Tbl :=
  [.accounts, .documents, .outbox, .eventDrafts, .syncEpochs, .attentionItems,
    .attentionRevisions, .userPrefs]

@[reducible] def RowOf : Tbl → Type
  | .accounts => AccountRow
  | .documents => DocRow
  | .outbox => OutboxRow
  | .syncEpochs => EpochRow
  | .eventDrafts | .attentionItems | .attentionRevisions | .userPrefs | .plugin _ => PlainRow

/-- The primary key of a row. -/
def keyOf : (t : Tbl) → RowOf t → Key
  | .accounts, r => [.text r.id]
  | .documents, r => [.text r.id]
  | .outbox, r => [.text r.id]
  | .syncEpochs, r => [.int r.epoch]
  | .eventDrafts, r | .attentionItems, r | .attentionRevisions, r | .userPrefs, r
  | .plugin _, r => r.pk

/-- `account_id REFERENCES accounts ON DELETE CASCADE`: the account whose
removal removes this row. -/
def accountOf : (t : Tbl) → RowOf t → Option AccountId
  | .documents, r => some r.accountId
  | .outbox, r => some r.accountId
  | .eventDrafts, r => r.accountId
  | _, _ => none

/-- The tables with that foreign key. -/
def accountChildren : List Tbl := [.documents, .outbox, .eventDrafts]

theorem accountOf_eq_none (t : Tbl) (r : RowOf t) (other : t ∉ accountChildren) :
    accountOf t r = none := by
  cases t <;> first | rfl | simp [accountChildren] at other

end Kiagent.Store
