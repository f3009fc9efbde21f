/-
# Outbound.Sends -- one message, confirmed and sent

The operations on one draft take its lock in turn.  `confirmLocked` reads the row, has the
mirror bring it up to date, checks the revision the caller saw, prepares what it will send,
and then moves the row from `draft` to `sending`: only who wins this asks the provider.
The expiry sweep, a withdrawn suggestion and the recovery take no lock, and fall between
any two awaits.  An operation may throw, and the process may die, wherever it stands
(`leave`).

`history` keeps the schedules, the reopens, the won updates and the requests to the
provider, the newest first.

* `sent_at_most_once` -- between two requests the row was reopened, after a failure that
  can be tried again; each request follows its own update, of the revision that was
  confirmed, and carries that row;
* `scheduled_in_time` -- what the scheduler takes was due at its last check, and is the
  revision that was scheduled;
* `settled_stays` -- a message that is at an end is never sent again;
* `revision_names_content` -- one revision, one content.

The recovery runs at a promotion too: a row may be `delivery_unknown` while the operation
that won it still goes on to send it.  So the end of a message is one at which no operation
holds the lock.
-/
import Kiagent.Outbound.Content
import Kiagent.Theory.Runs

namespace Kiagent.Outbound

open Kiagent.Theory

set_option autoImplicit false

/-! ## What is sent -/

structure AttachmentBytes where
  filename : String
  bytes : List UInt8
  deriving DecidableEq

structure SendIntent where
  accountId : String
  kind : Kind
  outboundRef : Option String
  recipients : List String
  cc : List String
  bcc : List String
  subject : Option String
  bodyMarkdown : String
  bodyHtml : String
  threading : Option String
  attachments : List AttachmentBytes
  deriving DecidableEq

/-- What is asked of the sender: its own draft, or the message. -/
inductive Ask where
  | draft (ref : DraftRef)
  | message (intent : SendIntent)
  deriving DecidableEq

variable (texts : Texts)

def intentOf (row : OutboxRow) (files : List AttachmentBytes) : SendIntent where
  accountId := row.accountId
  kind := row.kind
  outboundRef := row.outboundRef
  recipients := row.content.recipients
  cc := row.content.cc
  bcc := row.content.bcc
  subject := row.content.subject
  bodyMarkdown := row.content.bodyMarkdown
  bodyHtml := texts.renderEmailBody row.content.bodyMarkdown
  threading := row.threading
  attachments := files

/-- The files of a row, read by name. -/
def readsFiles (row : OutboxRow) (files : List AttachmentBytes) : Bool :=
  files.map AttachmentBytes.filename = row.content.attachments.map OutboxAttachment.filename

def isReopenable (row : OutboxRow) : Bool :=
  row.status = .expired || (row.status = .failed && texts.canRetry (row.error.getD ""))

/-- Kia's own rendering, as the provider holds it. -/
def OutboxRow.vouched (row : OutboxRow) : Bool :=
  match row.mirror.bind (·.ownKey) with
  | some own => (row.mirror.bind (·.seenKey)) = some own
  | none => false

/-! ## The operation that holds the lock -/

/-- Where `confirmLocked` stands, with what it has read. -/
inductive Phase where
  | begun
  | swept
  | syncing (stored : OutboxRow)
  /-- The mirror reads the provider's draft. -/
  | reading
  | owning (row : OutboxRow)
  /-- The mirror writes Kia's rendering. -/
  | updating (row : OutboxRow)
  | preparing (row : OutboxRow)
  | checking (row : OutboxRow) (intent : Option SendIntent)
  /-- With the time of the last check. -/
  | claiming (row : OutboxRow) (intent : Option SendIntent) (checkedAt : Nat)
  | won (row : OutboxRow) (intent : Option SendIntent)
  | asking
  | failing (message : String)
  | recording (externalMessageId : Option String)
  deriving DecidableEq

inductive Holder where
  | free
  /-- A revise, a schedule, a discard, a refresh, a create. -/
  | other
  | reopening (row : OutboxRow)
  /-- `due` is the time of the schedule, when the scheduler sends. -/
  | confirming (revision due : Option Nat) (phase : Phase)
  deriving DecidableEq

inductive Event where
  | scheduled (sendAt revision : Nat)
  /-- With the row as it was. -/
  | reopened (row : OutboxRow)
  /-- The update from `draft` to `sending`: the revision confirmed, the schedule it is for,
  the time it was last checked, the row it found. -/
  | won (revision due : Option Nat) (checkedAt : Nat) (row : OutboxRow)
  | asked (ask : Ask)
  deriving DecidableEq

structure Message where
  row : OutboxRow
  holder : Holder
  history : List Event
  deriving DecidableEq

def Message.create (id : String) (d : OutboxDraftInput) : Message :=
  ⟨OutboxRow.create id d, .free, []⟩

/-- One statement on the row. -/
def Message.run (now : Nat) (s : Message) (st : Statement) : Message :=
  { s with row := (st.apply now s.row).getD s.row }

/-! ## Steps -/

/-- The statements of the mirror: an adopted content, or the end the provider reports. -/
def Statement.ofMirror : Statement → Bool
  | .writeContent .. | .fillSubject .. | .writeMirror _ | .setMirror _ => true
  | .transition froms status _ =>
      froms = [.draft] && (status = .sent || status = .discarded || status = .deliveryUnknown)
  | _ => false

/-- Those of the other operations that hold the lock, but for a new schedule. -/
def Statement.ofOther : Statement → Bool
  | .schedule none _ | .suggest _ | .missSchedule .. => true
  | st => st.ofMirror

def SCHEDULE_LATE_MS : Nat := 5 * 60000

inductive Action where
  | expireOverdue (now : Nat)
  | withdrawSuggestion (now : Nat)
  | recover (now : Nat)
  | lock
  | confirm (revision : Option Nat)
  /-- `sendScheduled`, with the row it has read. -/
  | dispatch (sendAt now : Nat)
  | write (now : Nat) (st : Statement)
  | schedule (now sendAt : Nat)
  | readReopen
  | reopen (now expiresAt : Nat)
  | sweep (now : Nat)
  | load
  /-- Nothing to ask the mirror; `drafts` says whether the account has provider drafts. -/
  | skip (drafts : Bool)
  | useMirror
  | mirrored
  | prepared (files : List AttachmentBytes)
  | unprepared
  | checked (now : Nat)
  | claim (now : Nat)
  | ask
  | refuse (message : String)
  | answered (externalMessageId : Option String)
  | record (now : Nat)
  | leave

/-- The row is there to be sent, at the revision the caller saw. -/
def checkRow (revision due : Option Nat) (row : OutboxRow) : Holder :=
  if row.status = .draft ∧ revision = some row.revision then
    .confirming revision due (.owning row)
  else .free

/-- The last word before the update: a scheduled send looks at its time again. -/
def lastCheck (revision due : Option Nat) (row : OutboxRow) (intent : Option SendIntent)
    (now : Nat) : Holder :=
  match due with
  | none => .confirming revision none (.claiming row intent now)
  | some sendAt =>
      if row.sendAt ≠ some sendAt ∨ now < sendAt then .free
      -- It missed its time: `missSchedule` follows, still under the lock.
      else if sendAt + SCHEDULE_LATE_MS < now then .other
      else .confirming revision due (.claiming row intent now)

/-- A step of `confirmLocked`. -/
def Message.stepConfirm (s : Message) (revision due : Option Nat) (phase : Phase) (a : Action) :
    Option Message :=
  let go := fun phase => some { s with holder := .confirming revision due phase }
  match phase, a with
  | .begun, .sweep now => some { s.run now .expireOverdue with
      holder := .confirming revision due .swept }
  | .swept, .load =>
      if s.row.status = .draft then go (.syncing s.row) else some { s with holder := .free }
  | .syncing stored, .skip drafts =>
      if stored.ref = none ∨ drafts = false then
        some { s with holder := checkRow revision due stored }
      else none
  | .syncing stored, .useMirror => if stored.ref = none then none else go .reading
  | .reading, .write now st => if st.ofMirror then some (s.run now st) else none
  | .reading, .mirrored => some { s with holder := checkRow revision due s.row }
  | .owning row, .skip drafts =>
      if row.ref = none ∨ row.vouched = true ∨ drafts = false then go (.preparing row) else none
  | .owning row, .useMirror =>
      if row.ref = none ∨ row.vouched = true then none else go (.updating row)
  | .updating _, .write now st => if st.ofMirror then some (s.run now st) else none
  | .updating row, .mirrored =>
      if s.row.revision = row.revision ∧ (s.row.mirror.bind (·.ownKey)).isSome then
        go (.preparing s.row)
      else some { s with holder := .free }
  | .preparing row, .prepared files =>
      if row.ref.isSome then go (.checking row none)
      else if readsFiles row files then go (.checking row (some (intentOf texts row files)))
      else none
  -- A file that is gone, or changed: a scheduled send gives its time up.
  | .preparing _, .unprepared => some { s with holder := .other }
  | .checking row intent, .checked now =>
      some { s with holder := lastCheck revision due row intent now }
  | .claiming row intent checkedAt, .claim now =>
      if s.row.status = .draft then
        some { s.run now (.transition [.draft] .sending {}) with
          holder := .confirming revision due (.won row intent)
          history := .won revision due checkedAt s.row :: s.history }
      else some { s with holder := .free }
  | .won row intent, .ask =>
      let ask := match row.ref with
        | some ref => .draft ref
        | none => .message (intent.getD (intentOf texts row []))
      some { s with holder := .confirming revision due .asking, history := .asked ask :: s.history }
  -- No account, no sender, a sender without drafts; or the sender's own refusal.
  | .won _ _, .refuse message | .asking, .refuse message => go (.failing message)
  | .asking, .answered externalMessageId => go (.recording externalMessageId)
  | .failing message, .record now =>
      some { s.run now (.transition [.sending] .failed
        { error := some (texts.summary message) }) with holder := .free }
  | .recording externalMessageId, .record now =>
      some { s.run now (.transition [.sending] .sent
        { externalMessageId := externalMessageId, sentAt := some now }) with holder := .free }
  | _, _ => none

def Message.step (s : Message) (a : Action) : Option Message :=
  match a with
  | .expireOverdue now => some (s.run now .expireOverdue)
  | .withdrawSuggestion now => some (s.run now (.suggest none))
  | .recover now => some (s.run now .recoverOrphanedSending)
  | .leave => some { s with holder := .free }
  | a =>
      match s.holder, a with
      | .free, .lock => some { s with holder := .other }
      | .free, .confirm revision => some { s with holder := .confirming revision none .begun }
      | .free, .dispatch sendAt now =>
          if s.row.status = .draft ∧ s.row.sendAt = some sendAt then
            if sendAt + SCHEDULE_LATE_MS < now then some { s with holder := .other }
            else some { s with holder := .confirming (some s.row.revision) (some sendAt) .begun }
          else some s
      | .other, .write now st => if st.ofOther then some (s.run now st) else none
      | .other, .schedule now sendAt =>
          if s.row.status = .draft then
            some { s.run now (.schedule (some sendAt) none) with
              history := .scheduled sendAt s.row.revision :: s.history }
          else some s
      | .other, .readReopen =>
          some { s with holder := if isReopenable texts s.row then .reopening s.row else .free }
      | .reopening _, .reopen now expiresAt =>
          if ((Statement.reopen expiresAt).apply now s.row).isSome then
            some { s.run now (.reopen expiresAt) with
              holder := .free, history := .reopened s.row :: s.history }
          else some { s with holder := .free }
      | .confirming revision due phase, a => s.stepConfirm texts revision due phase a
      | _, _ => none

/-! ## What a row and a request have in common -/

/-- What the statements that take no lock leave alone. -/
def OutboxRow.face (row : OutboxRow) : OutboxRow :=
  { row with status := .draft, suggestedSendAt := none }

def Carries (row : OutboxRow) : Ask → Prop
  | .draft ref => row.ref = some ref
  | .message intent =>
      row.ref = none ∧ ∃ files, readsFiles row files = true ∧ intent = intentOf texts row files

/-- What `prepareSend` has made of a row. -/
def Intended (row : OutboxRow) (intent : Option SendIntent) : Prop :=
  row.ref.isSome ∨ ∃ files, readsFiles row files = true ∧ intent = some (intentOf texts row files)

/-- The row read is still what the store has, or the store's is no draft any more. -/
def Fresh (row read : OutboxRow) : Prop := row.status = .draft → row.face = read.face

variable {texts}

theorem face_revision {row row' : OutboxRow} (same : row.face = row'.face) :
    row.revision = row'.revision :=
  congrArg (fun r => r.revision) same

theorem Carries.of_face {row row' : OutboxRow} {ask : Ask} (same : row.face = row'.face)
    (carries : Carries texts row' ask) : Carries texts row ask := by
  obtain ⟨⟩ := row
  obtain ⟨⟩ := row'
  simp only [OutboxRow.face, OutboxRow.mk.injEq] at same
  obtain ⟨rfl, rfl, rfl, rfl, rfl, rfl, rfl, -, rfl, rfl, rfl, rfl, rfl, rfl, rfl, -⟩ := same
  cases ask with
  | draft => exact carries
  | message => exact carries

theorem Intended.carries {row : OutboxRow} {intent : Option SendIntent}
    (intended : Intended texts row intent) : Carries texts row
      (match row.ref with
        | some ref => .draft ref
        | none => .message (intent.getD (intentOf texts row []))) := by
  cases held : row.ref with
  | some ref => exact held
  | none =>
      obtain mirrored | ⟨files, reads, rfl⟩ := intended
      · rw [held] at mirrored
        cases mirrored
      · exact ⟨held, files, reads, rfl⟩

/-! ## What a statement does to the row -/

section Statements

variable {now : Nat} {s : Message} {st : Statement}

/-- The sweep, a withdrawn suggestion and the recovery. -/
def Statement.unlocked (st : Statement) : Prop :=
  st = .expireOverdue ∨ st = .suggest none ∨ st = .recoverOrphanedSending

theorem apply_unlocked {row next : OutboxRow} (unlocked : st.unlocked)
    (applied : st.apply now row = some next) : (row.status = .draft ∧ next.face = row.face) ∨
      (row.status = .sending ∧ next.status = .deliveryUnknown) := by
  obtain rfl | rfl | rfl := unlocked <;>
    simp only [Statement.apply, Option.ite_none_right_eq_some, Option.some.injEq] at applied
  · obtain ⟨⟨draft, -⟩, rfl⟩ := applied
    exact .inl ⟨draft, rfl⟩
  · obtain ⟨⟨draft, -⟩, rfl⟩ := applied
    exact .inl ⟨draft, rfl⟩
  · obtain ⟨sending, rfl⟩ := applied
    exact .inr ⟨sending, rfl⟩

variable (now) in
theorem run_unlocked (unlocked : st.unlocked) : (s.run now st).row = s.row ∨
    (s.row.status = .draft ∧ (s.run now st).row.face = s.row.face) ∨
    (s.row.status = .sending ∧ (s.run now st).row.status = .deliveryUnknown) := by
  cases applied : st.apply now s.row with
  | none => exact .inl (by simp only [Message.run, applied, Option.getD_none])
  | some next =>
      simp only [Message.run, applied, Option.getD_some]
      exact .inr (apply_unlocked unlocked applied)

/-- The statements of the operations that hold the lock need a draft to end it. -/
theorem run_other (other : st.ofOther = true) (ended : s.row.status ≠ .draft) :
    (s.run now st).row.status = s.row.status ∧ (s.run now st).row.error = s.row.error := by
  cases st with
  | transition froms status patch =>
      simp only [Statement.ofOther, Statement.ofMirror, Bool.and_eq_true,
        decide_eq_true_eq] at other
      simp [Message.run, Statement.apply, other.1, ended]
  | setMirror mirror =>
      simp only [Message.run, Statement.apply]
      split <;> exact ⟨rfl, rfl⟩
  | _ => simp_all [Message.run, Statement.apply, Statement.ofOther, Statement.ofMirror]

theorem ofOther_of_ofMirror (mirror : st.ofMirror = true) : st.ofOther = true := by
  cases st with
  | schedule => cases mirror
  | _ => first | exact mirror | rfl

/-- A schedule stays at its revision: what makes a new revision clears it. -/
theorem apply_sendAt {row next : OutboxRow}
    (kept : ∀ sendAt note, st ≠ .schedule (some sendAt) note)
    (applied : st.apply now row = some next) :
    next.sendAt = none ∨ (next.sendAt = row.sendAt ∧ next.revision = row.revision) := by
  cases st with
  | schedule sendAt note =>
      cases sendAt with
      | none =>
          simp only [Statement.apply, Option.ite_none_right_eq_some, Option.some.injEq] at applied
          exact .inl (applied.2 ▸ rfl)
      | some sendAt => exact absurd rfl (kept sendAt note)
  | writeContent | missSchedule | reopen =>
      simp only [Statement.apply, Option.ite_none_right_eq_some, Option.some.injEq] at applied
      exact .inl (applied.2 ▸ rfl)
  | fillSubject | writeMirror =>
      simp only [Statement.apply, Option.some.injEq] at applied
      exact .inr (applied ▸ ⟨rfl, rfl⟩)
  | setMirror =>
      simp only [Statement.apply, Option.ite_none_left_eq_some, Option.some.injEq] at applied
      exact .inr (applied.2 ▸ ⟨rfl, rfl⟩)
  | expireOverdue | transition | suggest | recoverOrphanedSending =>
      simp only [Statement.apply, Option.ite_none_right_eq_some, Option.some.injEq] at applied
      exact .inr (applied.2 ▸ ⟨rfl, rfl⟩)

theorem run_sendAt (kept : ∀ sendAt note, st ≠ .schedule (some sendAt) note) {sendAt : Nat}
    (armed : (s.run now st).row.sendAt = some sendAt) :
    s.row.sendAt = some sendAt ∧ (s.run now st).row.revision = s.row.revision := by
  cases applied : st.apply now s.row with
  | none =>
      simp only [Message.run, applied, Option.getD_none] at armed ⊢
      exact ⟨armed, trivial⟩
  | some next =>
      simp only [Message.run, applied, Option.getD_some] at armed ⊢
      obtain cleared | ⟨same, revision⟩ := apply_sendAt kept applied
      · rw [cleared] at armed
        cases armed
      · exact ⟨same ▸ armed, revision⟩

theorem ofOther_ne_schedule (other : st.ofOther = true) (sendAt : Nat) (note : Option String) :
    st ≠ .schedule (some sendAt) note := by
  rintro rfl
  cases other

theorem unlocked_ne_schedule (unlocked : st.unlocked) (sendAt : Nat) (note : Option String) :
    st ≠ .schedule (some sendAt) note := by
  rintro rfl
  obtain eq | eq | eq := unlocked <;> cases eq

end Statements

/-! ## The history -/

/-- Since the last reopen, an operation has taken the message to send it. -/
def Used : List Event → Prop
  | .won .. :: _ | .asked _ :: _ => True
  | .scheduled .. :: rest => Used rest
  | .reopened _ :: _ | [] => False

/-- A row that goes at its schedule: it has that time, the check was made in its five
minutes, and it was given at the row's revision. -/
def InTime (sendAt checkedAt : Nat) (row : OutboxRow) (rest : List Event) : Prop :=
  row.sendAt = some sendAt ∧ sendAt ≤ checkedAt ∧ checkedAt ≤ sendAt + SCHEDULE_LATE_MS ∧
    .scheduled sendAt row.revision ∈ rest

variable (texts) in
/-- Every event follows what it has to follow. -/
def Orderly : List Event → Prop
  | [] => True
  | .reopened row :: rest =>
      (Used rest → row.status = .failed ∧ texts.canRetry (row.error.getD "") = true) ∧ Orderly rest
  | .scheduled .. :: rest => Orderly rest
  | .won revision due checkedAt row :: rest =>
      (revision = some row.revision ∧ row.status = .draft ∧ ¬ Used rest ∧
        ∀ sendAt, due = some sendAt → InTime sendAt checkedAt row rest) ∧ Orderly rest
  | .asked ask :: rest =>
      (∃ revision due checkedAt row more, rest = .won revision due checkedAt row :: more ∧
        Carries texts row ask) ∧ Orderly rest

section History

variable {later earlier : List Event}

theorem Orderly.of_append (orderly : Orderly texts (later ++ earlier)) : Orderly texts earlier := by
  induction later with
  | nil => exact orderly
  | cons e later ih =>
      cases e with
      | scheduled => exact ih orderly
      | _ => exact ih orderly.2

/-- Before what no operation has used since, and after what one has, there is a reopen of a
failure that can be tried again. -/
theorem Orderly.reopened (orderly : Orderly texts (later ++ earlier)) (used : Used earlier)
    (unused : ¬ Used (later ++ earlier)) : ∃ row, .reopened row ∈ later ∧
      row.status = .failed ∧ texts.canRetry (row.error.getD "") = true := by
  induction later with
  | nil => exact absurd used unused
  | cons e later ih =>
      cases e with
      | won => exact absurd trivial unused
      | asked => exact absurd trivial unused
      | scheduled =>
          obtain ⟨row, mem, failed⟩ := ih orderly unused
          exact ⟨row, List.mem_cons_of_mem _ mem, failed⟩
      | reopened row =>
          by_cases before : Used (later ++ earlier)
          · exact ⟨row, List.mem_cons_self .., orderly.1 before⟩
          · obtain ⟨row, mem, failed⟩ := ih orderly.2 before
            exact ⟨row, List.mem_cons_of_mem _ mem, failed⟩

end History

/-! ## What the steps keep -/

variable (texts) in
/-- What the operation at the lock may rely on. -/
def Held (row : OutboxRow) (history : List Event) : Holder → Prop
  | .reopening read => row = read ∧ isReopenable texts read = true
  | .confirming _ _ (.syncing stored) => Fresh row stored
  | .confirming revision _ (.owning read) | .confirming revision _ (.preparing read) =>
      Fresh row read ∧ revision = some read.revision
  | .confirming revision _ (.updating read) => revision = some read.revision
  | .confirming revision _ (.checking read intent) =>
      Fresh row read ∧ revision = some read.revision ∧ Intended texts read intent
  | .confirming revision due (.claiming read intent checkedAt) =>
      Fresh row read ∧ revision = some read.revision ∧ Intended texts read intent ∧
        ∀ sendAt, due = some sendAt → read.sendAt = some sendAt ∧ sendAt ≤ checkedAt ∧
          checkedAt ≤ sendAt + SCHEDULE_LATE_MS
  | .confirming revision due (.won read intent) => ∃ checkedAt found rest,
      history = .won revision due checkedAt found :: rest ∧ found.face = read.face ∧
        Intended texts read intent
  | _ => True

/-- Past its draft, on the way out or at an end of it. -/
def Taken (status : OutboxStatus) : Prop :=
  status = .sending ∨ status = .sent ∨ status = .failed ∨ status = .deliveryUnknown

theorem Taken.not_draft {status : OutboxStatus} (taken : Taken status) : status ≠ .draft := by
  obtain rfl | rfl | rfl | rfl := taken <;> decide

variable (texts) in
structure Kept (s : Message) : Prop where
  orderly : Orderly texts s.history
  taken : Used s.history → Taken s.row.status
  armed : ∀ sendAt, s.row.sendAt = some sendAt → .scheduled sendAt s.row.revision ∈ s.history
  held : Held texts s.row s.history s.holder

section Steps

variable {s s' : Message} {now : Nat} {st : Statement}

theorem Fresh.unlocked {read : OutboxRow} (fresh : Fresh s.row read) (unlocked : st.unlocked) :
    Fresh (s.run now st).row read := fun draft => by
  obtain same | ⟨was, face⟩ | ⟨-, lost⟩ := run_unlocked now (s := s) unlocked
  · rw [same] at draft ⊢
    exact fresh draft
  · exact face.trans (fresh was)
  · rw [lost] at draft
    cases draft

theorem Kept.armed_run (kept : Kept texts s)
    (keeps : ∀ sendAt note, st ≠ .schedule (some sendAt) note) (sendAt : Nat)
    (armed : (s.run now st).row.sendAt = some sendAt) :
    .scheduled sendAt (s.run now st).row.revision ∈ s.history := by
  obtain ⟨before, revision⟩ := run_sendAt keeps armed
  rw [revision]
  exact kept.armed sendAt before

/-- No operation is in the way of the sweeps, nor they in its. -/
theorem Kept.unlocked (kept : Kept texts s) (unlocked : st.unlocked) :
    Kept texts (s.run now st) where
  orderly := kept.orderly
  taken used := by
    obtain same | ⟨draft, -⟩ | ⟨-, lost⟩ := run_unlocked now (s := s) unlocked
    · rw [same]
      exact kept.taken used
    · exact absurd draft (kept.taken used).not_draft
    · exact .inr (.inr (.inr lost))
  armed := kept.armed_run (unlocked_ne_schedule unlocked)
  held := by
    have held := kept.held
    obtain ⟨row, holder, history⟩ := s
    cases holder with
    | free => trivial
    | other => trivial
    | reopening read =>
        obtain ⟨unread, reopenable⟩ := held
        change row = read at unread
        subst unread
        refine ⟨?_, reopenable⟩
        obtain same | ⟨draft, -⟩ | ⟨sending, -⟩ :=
          run_unlocked now (s := ⟨row, .reopening row, history⟩) unlocked
        · exact same
        · simp [isReopenable, show row.status = .draft from draft] at reopenable
        · simp [isReopenable, show row.status = .sending from sending] at reopenable
    | confirming revision due phase =>
        cases phase with
        | syncing => exact Fresh.unlocked (s := ⟨row, _, history⟩) held unlocked
        | owning => exact ⟨held.1.unlocked (s := ⟨row, _, history⟩) unlocked, held.2⟩
        | preparing => exact ⟨held.1.unlocked (s := ⟨row, _, history⟩) unlocked, held.2⟩
        | checking => exact ⟨held.1.unlocked (s := ⟨row, _, history⟩) unlocked, held.2⟩
        | claiming => exact ⟨held.1.unlocked (s := ⟨row, _, history⟩) unlocked, held.2⟩
        | _ => exact held

/-- Who holds the lock does not undo an end of the row, nor take it up. -/
theorem Kept.locked (kept : Kept texts s) (other : st.ofOther = true) {holder : Holder}
    (held : Held texts (s.run now st).row s.history holder) :
    Kept texts { s.run now st with holder := holder } where
  orderly := kept.orderly
  taken used := by
    change Taken (s.run now st).row.status
    rw [(run_other other (kept.taken used).not_draft).1]
    exact kept.taken used
  armed := kept.armed_run (ofOther_ne_schedule other)
  held := held

theorem Kept.go (kept : Kept texts s) {holder : Holder} (held : Held texts s.row s.history holder) :
    Kept texts { s with holder := holder } where
  orderly := kept.orderly
  taken := kept.taken
  armed := kept.armed
  held := held

theorem held_checkRow {row read : OutboxRow} {history : List Event} {revision due : Option Nat}
    (fresh : Fresh row read) : Held texts row history (checkRow revision due read) := by
  rw [checkRow]
  split
  · next shown => exact ⟨fresh, shown.2⟩
  · trivial

theorem held_lastCheck {row read : OutboxRow} {history : List Event} {revision due : Option Nat}
    {intent : Option SendIntent} (fresh : Fresh row read) (shown : revision = some read.revision)
    (intended : Intended texts read intent) :
    Held texts row history (lastCheck revision due read intent now) := by
  cases due with
  | none => exact ⟨fresh, shown, intended, fun _ none => nomatch none⟩
  | some sendAt =>
      simp only [lastCheck]
      split_ifs with early late
      · trivial
      · trivial
      · refine ⟨fresh, shown, intended, fun time same => ?_⟩
        obtain rfl := Option.some.inj same
        exact ⟨not_not.1 (not_or.1 early).1, Nat.le_of_not_lt (not_or.1 early).2,
          Nat.le_of_not_lt late⟩

theorem Kept.schedule (kept : Kept texts s) {sendAt : Nat} (draft : s.row.status = .draft)
    (held : Held texts (s.run now (.schedule (some sendAt) none)).row
      (.scheduled sendAt s.row.revision :: s.history) s.holder) :
    Kept texts { s.run now (.schedule (some sendAt) none) with
      history := .scheduled sendAt s.row.revision :: s.history } where
  orderly := kept.orderly
  taken used := absurd draft (kept.taken used).not_draft
  armed time armed := by
    simp only [Message.run, Statement.apply, draft, if_true, Option.getD_some,
      Option.some.injEq] at armed ⊢
    subst armed
    exact List.mem_cons_self ..
  held := held

/-- The update that takes the draft. -/
theorem Kept.claim (kept : Kept texts s) {revision due : Option Nat} {read : OutboxRow}
    {intent : Option SendIntent} {checkedAt : Nat}
    (held : Held texts s.row s.history (.confirming revision due (.claiming read intent checkedAt)))
    (draft : s.row.status = .draft) :
    Kept texts { s.run now (.transition [.draft] .sending {}) with
      holder := .confirming revision due (.won read intent)
      history := .won revision due checkedAt s.row :: s.history } where
  orderly := by
    obtain ⟨fresh, shown, -, inTime⟩ := held
    have same := fresh draft
    refine ⟨⟨?_, draft, fun used => (kept.taken used).not_draft draft, fun sendAt scheduled => ?_⟩,
      kept.orderly⟩
    · rw [shown, face_revision same]
    · obtain ⟨armed, early, late⟩ := inTime sendAt scheduled
      have mine : s.row.sendAt = some sendAt := (congrArg OutboxRow.sendAt same).trans armed
      exact ⟨mine, early, late, kept.armed sendAt mine⟩
  taken _ := by
    refine .inl ?_
    simp [Message.run, Statement.apply, draft]
  armed sendAt armed := List.mem_cons_of_mem _
    (kept.armed_run (fun _ _ => Statement.noConfusion) sendAt armed)
  held := ⟨checkedAt, s.row, s.history, rfl, held.1 draft, held.2.2.1⟩

/-- The request. -/
theorem Kept.ask (kept : Kept texts s) {revision due : Option Nat} {read : OutboxRow}
    {intent : Option SendIntent}
    (won : Held texts s.row s.history (.confirming revision due (.won read intent))) {ask : Ask}
    (asks : ask = match read.ref with
      | some ref => .draft ref
      | none => .message (intent.getD (intentOf texts read []))) :
    Kept texts { s with
      holder := .confirming revision due .asking, history := .asked ask :: s.history } where
  orderly := by
    obtain ⟨checkedAt, found, rest, history, face, intended⟩ := won
    exact ⟨⟨revision, due, checkedAt, found, rest, history,
      asks ▸ intended.carries.of_face face⟩, kept.orderly⟩
  taken _ := by
    obtain ⟨checkedAt, found, rest, history, -⟩ := won
    exact kept.taken (history ▸ trivial)
  armed sendAt armed := List.mem_cons_of_mem _ (kept.armed sendAt armed)
  held := trivial

/-- The end of an operation that has asked, or was refused. -/
theorem Kept.record (kept : Kept texts s) {status : OutboxStatus} {patch : Patch}
    (ends : Taken status) :
    Kept texts { s.run now (.transition [.sending] status patch) with holder := .free } where
  orderly := kept.orderly
  taken used := by
    by_cases sending : s.row.status = .sending
    · simp [Message.run, Statement.apply, sending, ends]
    · simpa [Message.run, Statement.apply, sending] using kept.taken used
  armed := kept.armed_run fun _ _ => Statement.noConfusion
  held := trivial

theorem Kept.reopen (kept : Kept texts s) {read : OutboxRow} (unread : s.row = read)
    (reopenable : isReopenable texts read = true) (expiresAt : Nat) :
    Kept texts { s.run now (.reopen expiresAt) with
      holder := .free, history := .reopened s.row :: s.history } where
  orderly := by
    refine ⟨fun used => ?_, kept.orderly⟩
    subst unread
    simp only [isReopenable, Bool.or_eq_true, decide_eq_true_eq, Bool.and_eq_true] at reopenable
    obtain expired | failed := reopenable
    · obtain taken | taken | taken | taken := kept.taken used <;> rw [expired] at taken <;>
        cases taken
    · exact failed
  taken used := used.elim
  armed sendAt armed := List.mem_cons_of_mem _
    (kept.armed_run (fun _ _ => Statement.noConfusion) sendAt armed)
  held := trivial

theorem Kept.stepConfirm {revision due : Option Nat} {phase : Phase} {a : Action}
    (kept : Kept texts s) (holds : s.holder = .confirming revision due phase)
    (took : s.stepConfirm texts revision due phase a = some s') : Kept texts s' := by
  have held := kept.held
  rw [holds] at held
  unfold Message.stepConfirm at took
  split at took
  case h_1 =>
      obtain rfl := Option.some.inj took
      exact (kept.unlocked (.inl rfl)).go trivial
  case h_2 =>
      dsimp only at took
      split at took <;> obtain rfl := Option.some.inj took
      · exact kept.go fun _ => rfl
      · exact kept.go trivial
  -- The draft as the store has it, or as the mirror has just brought it up to date.
  case h_3 =>
      dsimp only at took
      split at took
      · obtain rfl := Option.some.inj took
        exact kept.go (held_checkRow held)
      · cases took
  case h_4 =>
      dsimp only at took
      split at took
      · cases took
      · obtain rfl := Option.some.inj took
        exact kept.go trivial
  case h_5 =>
      dsimp only at took
      split at took
      · next mirror =>
        obtain rfl := Option.some.inj took
        exact kept.locked (ofOther_of_ofMirror mirror) (by rw [holds]; trivial)
      · cases took
  case h_6 =>
      obtain rfl := Option.some.inj took
      exact kept.go (held_checkRow fun _ => rfl)
  -- Kia's own body.
  case h_7 =>
      dsimp only at took
      split at took
      · obtain rfl := Option.some.inj took
        exact kept.go held
      · cases took
  case h_8 =>
      dsimp only at took
      split at took
      · cases took
      · obtain rfl := Option.some.inj took
        exact kept.go held.2
  case h_9 =>
      dsimp only at took
      split at took
      · next mirror =>
        obtain rfl := Option.some.inj took
        exact kept.locked (ofOther_of_ofMirror mirror) (by rw [holds]; exact held)
      · cases took
  case h_10 =>
      dsimp only at took
      split at took <;> obtain rfl := Option.some.inj took
      · next same => exact kept.go ⟨fun _ => rfl, held.trans (congrArg some same.1.symm)⟩
      · exact kept.go trivial
  case h_11 files =>
      dsimp only at took
      split at took
      · next mirrored =>
        obtain rfl := Option.some.inj took
        exact kept.go ⟨held.1, held.2, .inl mirrored⟩
      · split at took
        · next reads =>
          obtain rfl := Option.some.inj took
          exact kept.go ⟨held.1, held.2, .inr ⟨files, reads, rfl⟩⟩
        · cases took
  case h_12 =>
      obtain rfl := Option.some.inj took
      exact kept.go trivial
  case h_13 =>
      obtain rfl := Option.some.inj took
      exact kept.go (held_lastCheck held.1 held.2.1 held.2.2)
  -- The update, the request, and what comes of it.
  case h_14 =>
      dsimp only at took
      split at took <;> obtain rfl := Option.some.inj took
      · next draft => exact kept.claim held draft
      · exact kept.go trivial
  case h_15 =>
      obtain rfl := Option.some.inj took
      exact kept.ask held rfl
  case h_16 | h_17 | h_18 =>
      obtain rfl := Option.some.inj took
      exact kept.go trivial
  case h_19 =>
      obtain rfl := Option.some.inj took
      exact kept.record (.inr (.inr (.inl rfl)))
  case h_20 =>
      obtain rfl := Option.some.inj took
      exact kept.record (.inr (.inl rfl))
  case h_21 => cases took

theorem Kept.step {a : Action} (kept : Kept texts s) (took : s.step texts a = some s') :
    Kept texts s' := by
  unfold Message.step at took
  split at took
  case h_1 =>
      obtain rfl := Option.some.inj took
      exact kept.unlocked (.inl rfl)
  case h_2 =>
      obtain rfl := Option.some.inj took
      exact kept.unlocked (.inr (.inl rfl))
  case h_3 =>
      obtain rfl := Option.some.inj took
      exact kept.unlocked (.inr (.inr rfl))
  case h_4 =>
      obtain rfl := Option.some.inj took
      exact kept.go trivial
  case h_5 =>
      split at took
      case h_1 | h_2 =>
          obtain rfl := Option.some.inj took
          exact kept.go trivial
      case h_3 =>
          split_ifs at took <;> obtain rfl := Option.some.inj took
          · exact kept.go trivial
          · exact kept.go trivial
          · exact kept
      case h_4 =>
          have holds : s.holder = .other := by assumption
          split at took
          · next other =>
            obtain rfl := Option.some.inj took
            exact kept.locked other (by rw [holds]; trivial)
          · cases took
      case h_5 =>
          have holds : s.holder = .other := by assumption
          split at took <;> obtain rfl := Option.some.inj took
          · next draft => exact kept.schedule draft (by rw [holds]; trivial)
          · exact kept
      case h_6 =>
          obtain rfl := Option.some.inj took
          refine kept.go ?_
          split
          · next reopenable => exact ⟨rfl, reopenable⟩
          · trivial
      case h_7 =>
          have held := kept.held
          rw [show s.holder = .reopening _ by assumption] at held
          split at took <;> obtain rfl := Option.some.inj took
          · exact kept.reopen held.1 held.2 _
          · exact kept.go trivial
      case h_8 => exact kept.stepConfirm (by assumption) took
      case h_9 => cases took

end Steps

theorem kept_create (id : String) (d : OutboxDraftInput) : Kept texts (Message.create id d) :=
  ⟨trivial, fun used => used.elim, fun _ none => (nomatch none), trivial⟩

theorem orderly_run {id : String} {d : OutboxDraftInput} {as : List Action} {s : Message}
    (ran : runSteps (Message.step texts) (Message.create id d) as = some s) :
    Orderly texts s.history :=
  (run_invariant (fun _ _ _ kept took => Kept.step kept took) (kept_create id d) ran).orderly

/-- **No message goes twice, but after a failure that can be tried again; and what goes is
the row at the revision that was confirmed.** -/
theorem sent_at_most_once {id : String} {d : OutboxDraftInput} {as : List Action} {s : Message}
    (ran : runSteps (Message.step texts) (Message.create id d) as = some s) :
    (∀ later between earlier asked askedBefore,
      s.history = later ++ .asked asked :: (between ++ .asked askedBefore :: earlier) →
        ∃ failed, .reopened failed ∈ between ∧ failed.status = .failed ∧
          texts.canRetry (failed.error.getD "") = true) ∧
    ∀ later earlier ask, s.history = later ++ .asked ask :: earlier →
      ∃ due checkedAt sent rest, earlier = .won (some sent.revision) due checkedAt sent :: rest ∧
        sent.status = .draft ∧ Carries texts sent ask := by
  have orderly := orderly_run ran
  constructor
  · intro later between earlier asked askedBefore split
    rw [split] at orderly
    obtain ⟨⟨revision, due, checkedAt, won, more, follows, -⟩, rest⟩ := orderly.of_append
    cases between with
    | nil => cases follows
    | cons e between =>
        obtain ⟨rfl, -⟩ := List.cons.inj follows
        obtain ⟨failed, mem, retry⟩ := rest.2.reopened trivial rest.1.2.2.1
        exact ⟨failed, List.mem_cons_of_mem _ mem, retry⟩
  · intro later earlier ask split
    rw [split] at orderly
    obtain ⟨⟨revision, due, checkedAt, won, more, rfl, carries⟩, rest⟩ := orderly.of_append
    obtain ⟨⟨rfl, draft, -⟩, -⟩ := rest
    exact ⟨due, checkedAt, won, more, rfl, draft, carries⟩

/-- **What the scheduler sends was due**: its time was last checked in the five minutes after
it, and that time was given to the very revision that goes. -/
theorem scheduled_in_time {id : String} {d : OutboxDraftInput} {as : List Action} {s : Message}
    (ran : runSteps (Message.step texts) (Message.create id d) as = some s)
    {later earlier : List Event} {revision : Option Nat} {sendAt checkedAt : Nat} {row : OutboxRow}
    (won : s.history = later ++ .won revision (some sendAt) checkedAt row :: earlier) :
    row.sendAt = some sendAt ∧ sendAt ≤ checkedAt ∧ checkedAt ≤ sendAt + SCHEDULE_LATE_MS ∧
      .scheduled sendAt row.revision ∈ earlier := by
  have orderly := orderly_run ran
  rw [won] at orderly
  exact orderly.of_append.1.2.2.2 sendAt rfl

/-- The provider says that it is busy. -/
def busyTexts : Texts := { plainTexts with canRetry := (· = "busy") }

def newDraft : OutboxDraftInput where
  accountId := "a"
  kind := .new
  outboundRef := none
  recipientDisplay := "ann"
  content := ⟨["ann@x"], [], [], some "s", "hi", []⟩
  threading := none
  expiresAt := 9

/-- Scheduled, refused by the provider at its time, reopened, and sent. -/
def refusedThenSent : List Action :=
  [.lock, .schedule 1 5, .leave, .dispatch 5 6, .sweep 6, .load, .skip false, .skip false,
    .prepared [], .checked 7, .claim 7, .ask, .refuse "busy", .record 8, .lock, .readReopen,
    .reopen 9 99, .confirm (some 2), .sweep 10, .load, .skip false, .skip false, .prepared [],
    .checked 11, .claim 11, .ask, .answered (some "m"), .record 12]

theorem sent_at_most_once_refused : ∃ s,
    runSteps (Message.step busyTexts) (Message.create "d" newDraft) refusedThenSent = some s ∧
      s.row.status = .sent ∧ ∀ later between earlier asked askedBefore,
        s.history = later ++ .asked asked :: (between ++ .asked askedBefore :: earlier) →
          ∃ failed, .reopened failed ∈ between ∧ failed.status = .failed ∧
            busyTexts.canRetry (failed.error.getD "") = true := by
  obtain ⟨s, ran, sent⟩ : ∃ s, runSteps (Message.step busyTexts) (Message.create "d" newDraft)
    refusedThenSent = some s ∧ s.row.status = .sent := ⟨_, rfl, rfl⟩
  exact ⟨s, ran, sent, (sent_at_most_once ran).1⟩

theorem scheduled_in_time_refused : ∃ s,
    runSteps (Message.step busyTexts) (Message.create "d" newDraft) refusedThenSent = some s ∧
      s.history = s.history.take 4 ++ .won (some 1) (some 5) 7
        { OutboxRow.create "d" newDraft with sendAt := some 5 } :: [.scheduled 5 1] ∧
      7 ≤ 5 + SCHEDULE_LATE_MS := by
  obtain ⟨s, ran, won⟩ : ∃ s, runSteps (Message.step busyTexts) (Message.create "d" newDraft)
    refusedThenSent = some s ∧ s.history = s.history.take 4 ++ .won (some 1) (some 5) 7
      { OutboxRow.create "d" newDraft with sendAt := some 5 } :: [.scheduled 5 1] := ⟨_, rfl, rfl⟩
  exact ⟨s, ran, won, (scheduled_in_time ran won).2.2.1⟩

/-! ## A message at its end -/

variable (texts) in
/-- Neither a draft, nor on its way out, nor to be reopened. -/
def Settled (row : OutboxRow) : Prop :=
  row.status ≠ .draft ∧ row.status ≠ .sending ∧ isReopenable texts row = false

/-- No operation that may still send. -/
def Idle : Holder → Prop
  | .free | .other | .confirming _ _ .begun | .confirming _ _ .swept => True
  | _ => False

section Settled

variable {s s' : Message}

/-- As it came to its end. -/
structure Stays (s s' : Message) : Prop where
  status : s'.row.status = s.row.status
  error : s'.row.error = s.row.error
  history : s'.history = s.history
  idle : Idle s'.holder

theorem Stays.settled (stays : Stays s s') (settled : Settled texts s.row) :
    Settled texts s'.row := by
  simp only [Settled, isReopenable, stays.status, stays.error] at settled ⊢
  exact settled

theorem stays_unlocked {now : Nat} {st : Statement} {holder : Holder} (unlocked : st.unlocked)
    (settled : Settled texts s.row) (idle : Idle holder) :
    Stays s { s.run now st with holder := holder } := by
  obtain same | ⟨draft, -⟩ | ⟨sending, -⟩ := run_unlocked now (s := s) unlocked
  · exact ⟨congrArg _ same, congrArg _ same, rfl, idle⟩
  · exact absurd draft settled.1
  · exact absurd sending settled.2.1

theorem stays_go {holder : Holder} (idle : Idle holder) : Stays s { s with holder := holder } :=
  ⟨rfl, rfl, rfl, idle⟩

theorem stays_step {a : Action} (settled : Settled texts s.row) (idle : Idle s.holder)
    (took : s.step texts a = some s') : Stays s s' := by
  unfold Message.step at took
  split at took
  case h_1 =>
      obtain rfl := Option.some.inj took
      exact stays_unlocked (.inl rfl) settled idle
  case h_2 =>
      obtain rfl := Option.some.inj took
      exact stays_unlocked (.inr (.inl rfl)) settled idle
  case h_3 =>
      obtain rfl := Option.some.inj took
      exact stays_unlocked (.inr (.inr rfl)) settled idle
  case h_4 =>
      obtain rfl := Option.some.inj took
      exact stays_go trivial
  case h_5 =>
      split at took
      case h_1 | h_2 =>
          obtain rfl := Option.some.inj took
          exact stays_go trivial
      case h_3 =>
          rw [if_neg fun draft => settled.1 draft.1] at took
          obtain rfl := Option.some.inj took
          exact ⟨rfl, rfl, rfl, idle⟩
      case h_4 =>
          split at took
          · next other =>
            obtain rfl := Option.some.inj took
            obtain ⟨status, error⟩ := run_other other settled.1
            exact ⟨status, error, rfl, idle⟩
          · cases took
      case h_5 =>
          rw [if_neg settled.1] at took
          obtain rfl := Option.some.inj took
          exact ⟨rfl, rfl, rfl, idle⟩
      case h_6 =>
          rw [settled.2.2] at took
          obtain rfl := Option.some.inj took
          exact stays_go trivial
      case h_7 =>
          rw [show s.holder = .reopening _ by assumption] at idle
          cases idle
      case h_8 =>
          rw [show s.holder = .confirming _ _ _ by assumption] at idle
          unfold Message.stepConfirm at took
          split at took
          case h_1 =>
              obtain rfl := Option.some.inj took
              exact stays_unlocked (.inl rfl) settled trivial
          -- The row is read: there is nothing to confirm.
          case h_2 =>
              dsimp only at took
              rw [if_neg settled.1] at took
              obtain rfl := Option.some.inj took
              exact stays_go trivial
          all_goals first | cases idle | cases took
      case h_9 => cases took

end Settled

/-- **What is at its end stays there**: once no operation holds it, no run sends or reopens a
message that was sent or discarded, that may have been delivered, or that cannot be tried
again. -/
theorem settled_stays {s s' : Message} {as : List Action} (free : s.holder = .free)
    (settled : Settled texts s.row) (ran : runSteps (Message.step texts) s as = some s') :
    s'.row.status = s.row.status ∧ s'.row.error = s.row.error ∧ s'.history = s.history := by
  have stays : Stays s s' := run_invariant (I := Stays s)
    (fun r a r' stays took => by
      have next := stays_step (stays.settled settled) stays.idle took
      exact ⟨next.status.trans stays.status, next.error.trans stays.error,
        next.history.trans stays.history, next.idle⟩)
    ⟨rfl, rfl, rfl, by rw [free]; trivial⟩ ran
  exact ⟨stays.status, stays.error, stays.history⟩

/-- Discarded, then opened again by one who presses Send. -/
theorem settled_stays_discarded : ∃ s, runSteps (Message.step busyTexts)
    ⟨{ OutboxRow.create "d" newDraft with status := .discarded }, .free, []⟩
    [.lock, .readReopen, .confirm (some 1), .expireOverdue 99, .sweep 99, .load] = some s ∧
      s.row.status = .discarded ∧ s.history = [] := by
  obtain ⟨s, ran⟩ : ∃ s, runSteps (Message.step busyTexts)
    ⟨{ OutboxRow.create "d" newDraft with status := .discarded }, .free, []⟩
    [.lock, .readReopen, .confirm (some 1), .expireOverdue 99, .sweep 99, .load] = some s :=
      ⟨_, rfl⟩
  obtain ⟨status, -, history⟩ := settled_stays rfl ⟨by decide, by decide, rfl⟩ ran
  exact ⟨s, ran, status, history⟩

/-! ## Revisions -/

/-- What a revision covers; a reply's subject may still be filled in by the provider. -/
def OutboxRow.reviewed (row : OutboxRow) : DraftSnapshot := { row.content with subject := none }

/-- A later revision, or the same with the same content. -/
def Revises (row row' : OutboxRow) : Prop :=
  row.revision < row'.revision ∨ (row'.revision = row.revision ∧ row'.reviewed = row.reviewed)

theorem Revises.trans {a b c : OutboxRow} (first : Revises a b) (second : Revises b c) :
    Revises a c := by
  obtain newer | ⟨same, content⟩ := first <;> obtain newer' | ⟨same', content'⟩ := second
  · exact .inl (newer.trans newer')
  · exact .inl (same' ▸ newer)
  · exact .inl (same ▸ newer')
  · exact .inr ⟨same'.trans same, content'.trans content⟩

theorem revises_run (s : Message) (now : Nat) (st : Statement) :
    Revises s.row (s.run now st).row := by
  cases applied : st.apply now s.row with
  | none => exact .inr (by simp only [Message.run, applied, Option.getD_none, and_self])
  | some next =>
      simp only [Message.run, applied, Option.getD_some]
      cases st <;> simp only [Statement.apply, Option.ite_none_right_eq_some,
        Option.ite_none_left_eq_some, Option.some.injEq] at applied
      case writeContent | reopen =>
        obtain ⟨-, rfl⟩ := applied
        exact .inl (Nat.lt_succ_self _)
      case fillSubject | writeMirror =>
        subst applied
        exact .inr ⟨rfl, rfl⟩
      all_goals
        obtain ⟨-, rfl⟩ := applied
        exact .inr ⟨rfl, rfl⟩

/-- A step is at most one statement on the row. -/
theorem step_row {s s' : Message} {a : Action} (took : s.step texts a = some s') :
    s'.row = s.row ∨ ∃ now st, s'.row = (s.run now st).row := by
  unfold Message.step Message.stepConfirm at took
  repeat' split at took
  all_goals cases took
  all_goals first
    | exact .inl rfl
    | exact .inr ⟨_, _, rfl⟩

/-- **A revision names one content**: in every run revisions only grow, and as long as one
stays, what was reviewed at it stays. -/
theorem revision_names_content {s s' : Message} {as : List Action}
    (ran : runSteps (Message.step texts) s as = some s') : Revises s.row s'.row :=
  run_invariant (I := fun t => Revises s.row t.row)
    (fun t a t' revises took => revises.trans <| by
      obtain same | ⟨now, st, same⟩ := step_row took <;> rw [same]
      · exact .inr ⟨rfl, rfl⟩
      · exact revises_run t now st)
    (.inr ⟨rfl, rfl⟩) ran

theorem revision_names_content_refused : ∃ s,
    runSteps (Message.step busyTexts) (Message.create "d" newDraft) refusedThenSent = some s ∧
      s.row.revision = 2 ∧ Revises (OutboxRow.create "d" newDraft) s.row := by
  obtain ⟨s, ran, two⟩ : ∃ s, runSteps (Message.step busyTexts) (Message.create "d" newDraft)
    refusedThenSent = some s ∧ s.row.revision = 2 := ⟨_, rfl, rfl⟩
  exact ⟨s, ran, two, revision_names_content ran⟩

end Kiagent.Outbound
