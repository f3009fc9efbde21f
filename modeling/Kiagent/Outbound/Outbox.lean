/-
# Outbound.Outbox -- the row of an outbound draft and the statements on it

A row of the outbox is a draft, then a message being sent, and then it is at an end.
Every statement here is one `UPDATE`, with its `WHERE`; `none` means that it changes no
row.  `planContent` is what `applyContent` decides before its one write.

How bodies are rendered and compared is a parameter (`Texts`): the results hold whatever
it is.  Times are milliseconds.
-/
import Mathlib

namespace Kiagent.Outbound

set_option autoImplicit false

/-! ## Rows -/

inductive OutboxStatus where
  | draft
  | sending
  | sent
  | failed
  | discarded
  | expired
  | deliveryUnknown
  deriving DecidableEq

inductive Kind where
  | reply
  | new
  deriving DecidableEq

/-- Where Kia got a file. -/
inductive AttachmentSource where
  | document (documentId : String) (sha : Option String)
  | file (path : String) (picked : Bool) (sha : Option String)
  deriving DecidableEq

structure OutboxAttachment where
  filename : String
  mime : String
  size : Nat
  source : Option AttachmentSource
  deriving DecidableEq

structure DraftRef where
  accountId : String
  id : String
  threadId : Option String
  deriving DecidableEq

structure MirrorState where
  ref : Option DraftRef
  error : Option String
  sentElsewhere : Bool
  provider : Option String
  /-- Each file's size as the provider last reported it. -/
  sizes : Option (List (String × Nat))
  seenKey : Option String
  ownKey : Option String
  deriving DecidableEq

/-- The reviewable content of a draft: what a revision covers. -/
structure DraftSnapshot where
  recipients : List String
  cc : List String
  bcc : List String
  subject : Option String
  bodyMarkdown : String
  attachments : List OutboxAttachment
  deriving DecidableEq

structure OutboxRow where
  id : String
  accountId : String
  kind : Kind
  outboundRef : Option String
  recipientDisplay : String
  content : DraftSnapshot
  threading : Option String
  status : OutboxStatus
  error : Option String
  externalMessageId : Option String
  sentAt : Option Nat
  expiresAt : Nat
  revision : Nat
  mirror : Option MirrorState
  sendAt : Option Nat
  suggestedSendAt : Option Nat
  deriving DecidableEq

/-- A provider's draft, as it reads it. -/
structure DraftContent where
  recipients : List String
  cc : List String
  bcc : List String
  subject : Option String
  bodyText : String
  bodyHtml : Option String
  attachments : List (String × String × Nat)
  deriving DecidableEq

/-- What is done with texts. -/
structure Texts where
  lower : String → String
  renderEmailBody : String → String
  /-- A provider's body as Markdown. -/
  markdownOf : DraftContent → String
  /-- The provider's body says what the Markdown renders to. -/
  sameBody : DraftContent → String → Bool
  bodyHash : DraftContent → String
  /-- Of `shapeOutboundError`. -/
  summary : String → String
  canRetry : String → Bool
  isEmail : String → Bool

def OutboxRow.ref (row : OutboxRow) : Option DraftRef := row.mirror.bind (·.ref)

/-! ## Normalized content -/

/-- JavaScript's white space. -/
def isBlank (c : Char) : Bool :=
  c.toNat ∈ [9, 10, 11, 12, 13, 32, 0xa0, 0x1680, 0x2028, 0x2029, 0x202f, 0x205f, 0x3000, 0xfeff] ||
    (0x2000 ≤ c.toNat && c.toNat ≤ 0x200a)

def trimEnd (cs : List Char) : List Char := (cs.reverse.dropWhile isBlank).reverse

def trim (cs : List Char) : List Char := trimEnd (cs.dropWhile isBlank)

def trimmed (s : String) : String := String.ofList (trim s.toList)

/-- The mailbox in the angle brackets at the end, if there is one. -/
def mailbox (cs : List Char) : Option (List Char) :=
  match (trimEnd cs).reverse with
  | '>' :: rest =>
      let inner := rest.takeWhile fun c => c ≠ '<' && c ≠ '>'
      if inner ≠ [] && (rest.drop inner.length).head? = some '<' then some inner.reverse else none
  | _ => none

def unixLines : List Char → List Char
  | '\r' :: '\n' :: rest => '\n' :: unixLines rest
  | c :: rest => c :: unixLines rest
  | [] => []

/-- Every run of white space as one space. -/
def oneSpaced : List Char → List Char
  | [] => []
  | c :: rest =>
      if isBlank c then
        if rest.head?.any isBlank then oneSpaced rest else ' ' :: oneSpaced rest
      else c :: oneSpaced rest

/-- Split where a line break is followed by a blank line. -/
def paragraphs (current : List Char) : Nat → List Char → List (List Char)
  | 0, _ | _, [] => [current.reverse]
  | fuel + 1, '\n' :: rest =>
      match rest.dropWhile fun c => c = ' ' || c = '\t' with
      | '\n' :: after => current.reverse :: paragraphs [] fuel (after.dropWhile isBlank)
      | _ => paragraphs ('\n' :: current) fuel rest
  | fuel + 1, c :: rest => paragraphs (c :: current) fuel rest

structure SnapshotKey where
  recipients : List String
  cc : List String
  bcc : List String
  subject : Option String
  body : List Char
  attachments : Multiset (String × Nat × Option AttachmentSource)
  deriving DecidableEq

variable (texts : Texts)

def addressKey (x : String) : String :=
  texts.lower (String.ofList (trim ((mailbox x.toList).getD x.toList)))

def lowerAll (xs : List String) : List String := xs.map (addressKey texts)

def bodyKey (provider : Bool) (body : String) : List Char :=
  let cs := unixLines body.toList
  if provider then
    List.intercalate ['\n', '\n']
      (((paragraphs [] (cs.length + 1) cs).map fun p => trim (oneSpaced p)).filter (· ≠ []))
  else
    trim (List.intercalate ['\n'] ((cs.splitOn '\n').map trimEnd))

/-- The comparison key of a draft's content; `provider` for a provider's copy. -/
def normalizeSnapshot (provider : Bool) (s : DraftSnapshot) : SnapshotKey where
  recipients := lowerAll texts s.recipients
  cc := lowerAll texts s.cc
  bcc := lowerAll texts s.bcc
  subject := s.subject.map trimmed
  body := bodyKey provider s.bodyMarkdown
  attachments := s.attachments.map fun a => (a.filename, a.size, a.source)

/-! ## Content -/

/-- Where a snapshot comes from. -/
inductive ContentFrom where
  | provider
  | created
  | echo
  deriving DecidableEq

structure ApplyOptions where
  origins : List OutboxAttachment := []
  source : Option ContentFrom := none
  seenKey : Option String := none
  /-- Sets the key, or clears it; `none` leaves it. -/
  ownKey : Option (Option String) := none

/-- What `applyContent` decides about the row it has read. -/
structure ContentPlan where
  snapshot : DraftSnapshot
  changed : Bool
  /-- A reply that left its subject to the provider takes the provider's. -/
  filled : Bool
  mirror : Option MirrorState
  display : String

/-- The file Kia got under a name. -/
def knownFile (files : List OutboxAttachment) (name : String) : Option OutboxAttachment :=
  (files.filter (·.source.isSome)).reverse.find? (·.filename = name)

def planAttachments (row : OutboxRow) (incoming : List OutboxAttachment) (options : ApplyOptions) :
    List OutboxAttachment :=
  let seen := (row.mirror.bind (·.sizes)).getD []
  incoming.map fun a =>
    match knownFile (row.content.attachments ++ options.origins) a.filename with
    | none => a
    | some known =>
        if a.source.isSome then a
        else if options.source.isNone then { a with source := known.source }
        else if options.origins.any (·.filename = a.filename) ||
            a.size = ((seen.reverse.lookup a.filename).getD known.size) then
          { a with source := known.source, size := known.size }
        else a

def planSizes (row : OutboxRow) (incoming : List OutboxAttachment) (options : ApplyOptions) :
    Option (List (String × Nat)) :=
  if options.source.isSome then some (incoming.map fun a => (a.filename, a.size))
  else (row.mirror.bind (·.sizes)).map fun sizes => sizes.filter fun (name, _) =>
    !options.origins.any (·.filename = name) && incoming.any (·.filename = name)

def planMirror (row : OutboxRow) (incoming : List OutboxAttachment) (ref : Option DraftRef)
    (options : ApplyOptions) : Option MirrorState :=
  ref.bind fun ref =>
    let mirror := row.mirror.getD ⟨none, none, false, none, none, none, none⟩
    let merged : MirrorState := { mirror with
      ref := some ref
      error := none
      sizes := match planSizes row incoming options with
        | none => mirror.sizes
        | some [] => none
        | some sizes => some sizes
      seenKey := options.seenKey <|> mirror.seenKey
      ownKey := options.ownKey.getD mirror.ownKey }
    if some merged = row.mirror then none else some merged

def planContent (row : OutboxRow) (incoming : DraftSnapshot) (ref : Option DraftRef)
    (options : ApplyOptions) : ContentPlan :=
  let snapshot := { incoming with
    attachments := planAttachments row incoming.attachments options }
  let loose := options.source = some .provider || options.source = some .created
  let filled := options.source = some .created && row.content.subject.isNone &&
    snapshot.subject.isSome
  let current := if filled then { row.content with subject := snapshot.subject } else row.content
  let sameRecipients :=
    lowerAll texts row.content.recipients = lowerAll texts snapshot.recipients
  let joined := ", ".intercalate snapshot.recipients
  { snapshot := snapshot
    changed := normalizeSnapshot texts loose current ≠ normalizeSnapshot texts loose snapshot
    filled := filled
    mirror := planMirror row incoming.attachments ref options
    display :=
      if row.kind = .reply && sameRecipients then row.recipientDisplay
      else if joined = "" then row.recipientDisplay else joined }

/-! ## Statements -/

def DRAFT_TTL_MS : Nat := 24 * 60 * 60000

def EDITED : String := "Edited — schedule again"

def MISSED : String := "Missed its time — send now or reschedule"

def ORPHANED : String :=
  "the app closed while sending — the message may have been sent; check the Sent folder before re-drafting"

structure Patch where
  error : Option String := none
  externalMessageId : Option String := none
  sentAt : Option Nat := none
  deriving DecidableEq

inductive Statement where
  | expireOverdue
  | transition (froms : List OutboxStatus) (status : OutboxStatus) (patch : Patch)
  /-- The content of a plan that is a change. -/
  | writeContent (snapshot : DraftSnapshot) (display : String) (mirror : Option MirrorState)
  /-- Of a plan that only fills the subject. -/
  | fillSubject (subject : Option String) (mirror : Option MirrorState)
  | writeMirror (mirror : MirrorState)
  | setMirror (mirror : MirrorState)
  | schedule (sendAt : Option Nat) (note : Option String)
  | suggest (suggestedAt : Option Nat)
  | missSchedule (sendAt expiresAt : Nat) (note : Option String)
  | reopen (expiresAt : Nat)
  | recoverOrphanedSending
  deriving DecidableEq

/-- The row a statement leaves; `none` when it changes no row.  `now` is the store's clock. -/
def Statement.apply (now : Nat) (row : OutboxRow) : Statement → Option OutboxRow
  | .expireOverdue =>
      if row.status = .draft ∧ row.expiresAt ≤ now ∧ row.sendAt = none ∧ row.ref = none then
        some { row with status := .expired }
      else none
  | .transition froms status patch =>
      if row.status ∈ froms then
        some { row with
          status := status
          error := if row.status = .draft then patch.error else patch.error <|> row.error
          externalMessageId := patch.externalMessageId <|> row.externalMessageId
          sentAt := patch.sentAt <|> row.sentAt }
      else none
  | .writeContent snapshot display mirror =>
      if row.status = .draft then
        some { row with
          content := snapshot
          recipientDisplay := display
          revision := row.revision + 1
          error := if row.sendAt.isSome then some EDITED else none
          expiresAt := if row.sendAt.isSome then now + DRAFT_TTL_MS else row.expiresAt
          sendAt := none
          mirror := mirror <|> row.mirror }
      else none
  | .fillSubject subject mirror =>
      some { row with
        content := { row.content with subject := subject }
        mirror := mirror <|> row.mirror }
  | .writeMirror mirror => some { row with mirror := some mirror }
  | .setMirror mirror =>
      if row.mirror = some mirror then none else some { row with mirror := some mirror }
  | .schedule sendAt note =>
      if row.status = .draft then
        some { row with
          sendAt := sendAt
          error := note
          suggestedSendAt := if sendAt.isNone then row.suggestedSendAt else none
          expiresAt := if sendAt.isNone && row.sendAt.isSome then now + DRAFT_TTL_MS
            else row.expiresAt }
      else none
  | .suggest suggestedAt =>
      if row.status = .draft ∧ row.suggestedSendAt ≠ suggestedAt then
        some { row with suggestedSendAt := suggestedAt }
      else none
  | .missSchedule sendAt expiresAt note =>
      if row.status = .draft ∧ row.sendAt = some sendAt then
        some { row with
          sendAt := none
          expiresAt := expiresAt
          error := some (note.getD MISSED) }
      else none
  | .reopen expiresAt =>
      if row.status = .failed ∨ row.status = .expired then
        some { row with
          status := .draft
          error := none
          revision := row.revision + 1
          sendAt := none
          expiresAt := expiresAt }
      else none
  | .recoverOrphanedSending =>
      if row.status = .sending then
        some { row with status := .deliveryUnknown, error := some ORPHANED }
      else none

/-- What `create` inserts. -/
structure OutboxDraftInput where
  accountId : String
  kind : Kind
  outboundRef : Option String
  recipientDisplay : String
  content : DraftSnapshot
  threading : Option String
  expiresAt : Nat
  deriving DecidableEq

def OutboxRow.create (id : String) (d : OutboxDraftInput) : OutboxRow where
  id := id
  accountId := d.accountId
  kind := d.kind
  outboundRef := d.outboundRef
  recipientDisplay := d.recipientDisplay
  content := d.content
  threading := d.threading
  status := .draft
  error := none
  externalMessageId := none
  sentAt := none
  expiresAt := d.expiresAt
  revision := 1
  mirror := none
  sendAt := none
  suggestedSendAt := none

end Kiagent.Outbound
