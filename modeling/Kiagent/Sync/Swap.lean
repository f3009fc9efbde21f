/-
# Sync.Swap -- replacing the database at boot, one file operation at a time

`applyPendingSwap` runs before anything opens the database.  It may die after
any operation, and the next boot reads the journal and the files and goes on.

* `Files` is the directory: a path holds a database image, a write-ahead log, a
  journal, or nothing;
* `Pc` names the operation the process does next; `step` does it, makes it throw,
  or kills the process;
* `Stage` named what the files can be at a boot: each crash point leaves one of
  these, and each of them leads on;
* `swap_crash_safe` is the whole-run result, for a swap and for a restore.

The write-ahead log is kept apart from the image: what a database holds is the
image with the log's frames over it, and a rename moves only one of the two.
-/
import Kiagent.Sync.DatabaseFile
import Kiagent.Theory.Runs

namespace Kiagent.Sync.Swap

open Kiagent.Store (Cell DeviceId)
open Kiagent.Theory

set_option autoImplicit false

/-! ## The directory -/

/-- `dbPath`, an archive of it, `.swap-incoming` and `.swap-merged`. -/
inductive Place where
  | db
  | archive (path : String)
  | incoming
  | merged
  deriving DecidableEq, Repr

/-- `''`, `'-wal'` and `'-shm'`. -/
inductive Ext where
  | main
  | wal
  | shm
  deriving DecidableEq, Repr

inductive Path where
  | data (place : Place) (ext : Ext)
  | journal
  | journalTmp
  | outcome
  | outcomeTmp
  | restore
  | restoreTmp
  deriving DecidableEq, Repr

structure Journal where
  masterDeviceId : DeviceId
  /-- Set once the merged file is complete; the renames can then be redone. -/
  merged : Bool
  replacesCopy : Bool
  archive : String
  deriving DecidableEq, Repr

structure RestoreNote where
  archive : String
  merged : Bool
  deriving DecidableEq, Repr

inductive Outcome where
  | swapped
  | abandoned
  deriving DecidableEq, Repr

/-- `frames` is a log: the database it makes of the image, when it holds any
committed frame. -/
inductive Content where
  | image (d : Database)
  | frames (committed : Option Database)
  | index
  | journal (j : Journal)
  | outcome (o : Outcome)
  | restore (r : RestoreNote)

abbrev Files := Path → Option Content

namespace Files

def set (f : Files) (p : Path) (c : Option Content) : Files := fun q => if q = p then c else f q

@[simp] theorem set_apply (f : Files) (p q : Path) (c : Option Content) :
    f.set p c q = if q = p then c else f q := rfl

/-- `rmSync(p, { force: true })`. -/
def rm (f : Files) (p : Path) : Files := f.set p none

/-- `renameSync`. -/
def rename (f : Files) (p q : Path) : Files := (f.set q (f p)).rm p

/-- `moveIfThere`. -/
def moveIfThere (f : Files) (p q : Path) : Files := if (f p).isSome then f.rename p q else f

def existsSync (f : Files) (p : Place) : Bool := (f (.data p .main)).isSome

/-- What opening the database at `p` reads: its image with its log applied. -/
def database (f : Files) (p : Place) : Option Database :=
  match f (.data p .main), f (.data p .wal) with
  | some (.image _), some (.frames (some d)) => some d
  | some (.image d), _ => some d
  | _, _ => none

/-- `new Database(p)`: an empty database where there is no file. -/
def openAt (f : Files) (p : Place) : Files :=
  if f.existsSync p then f else f.set (.data p .main) (some (.image .empty))

/-- `wal_checkpoint(TRUNCATE)`: the log's frames go into the image. -/
def checkpoint (f : Files) (p : Place) : Files :=
  (f.set (.data p .main) ((f.database p).map .image)).set (.data p .wal) (some (.frames none))

/-- The last connection closes: a checkpoint, and the log and its index go. -/
def close (f : Files) (p : Place) : Files :=
  ((f.checkpoint p).rm (.data p .wal)).rm (.data p .shm)

/-- `ATTACH`: reading a database leaves a log and an index beside it. -/
def attach (f : Files) (p : Place) : Files :=
  let f := f.openAt p
  let f := if (f (.data p .wal)).isSome then f else f.set (.data p .wal) (some (.frames none))
  f.set (.data p .shm) (some .index)

end Files

/-! ## The program -/

inductive SwapResult where
  | none
  | swapped
  | abandoned
  | restored
  deriving DecidableEq, Repr

/-- The operation the process does next. -/
inductive Pc where
  | boot
  | openOld (j : Journal)
  | checkpointOld (j : Journal)
  | closeOld (j : Journal)
  | takeIncoming (j : Journal)
  | openMerged (j : Journal)
  | attachOld (j : Journal)
  | merge (j : Journal)
  | detachOld (j : Journal)
  | journalTmp (j : Journal)
  | journal (j : Journal)
  | clear (j : Journal) (e : Ext)
  | archive (j : Journal) (e : Ext)
  | replace
  | abandonIncoming
  | abandonMerged (e : Ext)
  | outcomeTmp (o : Outcome)
  | outcome (o : Outcome)
  | removeJournal (o : Outcome)
  | restoreMerge (r : RestoreNote)
  | restoreClose (r : RestoreNote)
  | restoreAbandon
  | restoreTmp (r : RestoreNote)
  | restoreMark (r : RestoreNote)
  | restoreClear (r : RestoreNote) (e : Ext)
  | restoreMove (r : RestoreNote) (e : Ext)
  | forgetOutcome
  | removeRestore
  | returned (result : SwapResult)
  deriving DecidableEq, Repr

/-- `if (existsSync(merged)) renameSync(merged, dbPath)`. -/
def replacing (f : Files) : Pc := if f.existsSync .merged then .replace else .outcomeTmp .swapped

/-- After `j.merged`: each rename is checked, so a retry skips what moved. -/
def placing (f : Files) (j : Journal) : Pc :=
  if j.replacesCopy && f.existsSync .merged then .clear j .main
  else if !j.replacesCopy && !f.existsSync (.archive j.archive) then .archive j .main
  else replacing f

/-- The first lines of `applyRestore`. -/
def restoring (f : Files) (r : RestoreNote) : Pc :=
  if f.existsSync (.archive r.archive) then
    if r.merged then .restoreClear r .main else .restoreMerge r
  else .forgetOutcome

/-- The first lines of `applyPendingSwap`. -/
def booting (f : Files) : Pc :=
  match f .restore, f .journal with
  | some (.restore r), _ => restoring f r
  | _, some (.journal j) => if j.merged then placing f j else .openOld j
  | _, _ => .returned .none

/-- `if (!pending) return`: a file without `sync_snapshot_meta` is merged. -/
def opened (j : Journal) : Option Content → Pc
  | some (.image d) => if d.snapshotMeta.isSome then .attachOld j else .journalTmp j
  | _ => .abandonIncoming

section Program

variable (json : List Cell → String)

/-- The operation itself.  A merge that cannot be done throws. -/
def next (f : Files) (now : String) : Pc → Option (Files × Pc)
  | .boot => some (f, booting f)
  | .openOld j => some (f.openAt .db, .checkpointOld j)
  | .checkpointOld j => some (f.checkpoint .db, .closeOld j)
  | .closeOld j => some (f.close .db, .takeIncoming j)
  | .takeIncoming j =>
      some (f.moveIfThere (.data .incoming .main) (.data .merged .main), .openMerged j)
  | .openMerged j =>
      let f := f.openAt .merged
      some (f, opened j (f (.data .merged .main)))
  | .attachOld j => some (f.attach .db, .merge j)
  | .merge j =>
      match f (.data .merged .main), f.database .db with
      | some (.image file), some old =>
          match mergeLocalTables json j.masterDeviceId now file old with
          | some d => some (f.set (.data .merged .main) (some (.image d)), .detachOld j)
          | none => some (f.close .db, .abandonIncoming)
      | _, _ => some (f.close .db, .abandonIncoming)
  | .detachOld j => some (f.close .db, .journalTmp j)
  | .journalTmp j =>
      some (f.set .journalTmp (some (.journal { j with merged := true })), .journal j)
  | .journal j =>
      let f := f.rename .journalTmp .journal
      some (f, placing f j)
  | .clear j .main => some (f.rm (.data .db .main), .clear j .wal)
  | .clear j .wal => some (f.rm (.data .db .wal), .clear j .shm)
  | .clear _ .shm =>
      let f := f.rm (.data .db .shm)
      some (f, replacing f)
  | .archive j .main =>
      some (f.moveIfThere (.data .db .main) (.data (.archive j.archive) .main), .archive j .wal)
  | .archive j .wal =>
      some (f.moveIfThere (.data .db .wal) (.data (.archive j.archive) .wal), .archive j .shm)
  | .archive j .shm =>
      let f := f.moveIfThere (.data .db .shm) (.data (.archive j.archive) .shm)
      some (f, replacing f)
  | .replace => some (f.rename (.data .merged .main) (.data .db .main), .outcomeTmp .swapped)
  | .abandonIncoming => some (f.rm (.data .incoming .main), .abandonMerged .main)
  | .abandonMerged .main => some (f.rm (.data .merged .main), .abandonMerged .wal)
  | .abandonMerged .wal => some (f.rm (.data .merged .wal), .abandonMerged .shm)
  | .abandonMerged .shm => some (f.rm (.data .merged .shm), .outcomeTmp .abandoned)
  | .outcomeTmp o => some (f.set .outcomeTmp (some (.outcome o)), .outcome o)
  | .outcome o => some (f.rename .outcomeTmp .outcome, .removeJournal o)
  | .removeJournal .swapped => some (f.rm .journal, .returned .swapped)
  | .removeJournal .abandoned => some (f.rm .journal, .returned .abandoned)
  | .restoreMerge r =>
      match f.database (.archive r.archive), f.database .db with
      | some archive, some current =>
          match mergeIntoArchive archive current with
          | some d =>
              some (((f.attach .db).attach (.archive r.archive)).set
                (.data (.archive r.archive) .wal) (some (.frames (some d))), .restoreClose r)
          | none => some (f, .restoreAbandon)
      | _, _ => some (f, .restoreAbandon)
  | .restoreClose r => some ((f.close .db).close (.archive r.archive), .restoreTmp r)
  | .restoreAbandon => some (f.rm .restore, .returned .abandoned)
  | .restoreTmp r =>
      some (f.set .restoreTmp (some (.restore { r with merged := true })), .restoreMark r)
  | .restoreMark r => some (f.rename .restoreTmp .restore, .restoreClear r .main)
  | .restoreClear r .main => some (f.rm (.data .db .main), .restoreClear r .wal)
  | .restoreClear r .wal => some (f.rm (.data .db .wal), .restoreClear r .shm)
  | .restoreClear r .shm => some (f.rm (.data .db .shm), .restoreMove r .main)
  | .restoreMove r .main =>
      some (f.moveIfThere (.data (.archive r.archive) .main) (.data .db .main), .restoreMove r .wal)
  | .restoreMove r .wal =>
      some (f.moveIfThere (.data (.archive r.archive) .wal) (.data .db .wal), .restoreMove r .shm)
  | .restoreMove r .shm =>
      some (f.moveIfThere (.data (.archive r.archive) .shm) (.data .db .shm), .forgetOutcome)
  | .forgetOutcome => some (f.rm .outcome, .removeRestore)
  | .removeRestore => some (f.rm .restore, .returned .restored)
  | .returned _ => none

/-- Where an operation that throws leads: into the `catch` that is around it, or
out of the boot. -/
def thrown (f : Files) : Pc → Option (Files × Pc)
  | .openOld _ | .checkpointOld _ | .closeOld _ | .takeIncoming _ | .openMerged _ =>
      some (f, .abandonIncoming)
  | .attachOld _ | .merge _ | .detachOld _ => some (f.close .db, .abandonIncoming)
  | .restoreMerge _ => some (f, .restoreAbandon)
  | .restoreClose r => some ((f.close .db).close (.archive r.archive), .restoreAbandon)
  | .returned _ => none
  | _ => some (f, .boot)

/-- The next operation succeeds at a time, or throws; or the process is killed and
started again. -/
inductive Act where
  | next (now : String)
  | fail
  | crash
  deriving DecidableEq, Repr

structure Process where
  files : Files
  pc : Pc

def step (s : Process) : Act → Option Process
  | .next now => (next json s.files now s.pc).map fun r => ⟨r.1, r.2⟩
  | .fail => (thrown s.files s.pc).map fun r => ⟨r.1, r.2⟩
  | .crash => some ⟨s.files, .boot⟩

end Program

/-! ## A pending swap -/

/-- What `prepareSwap` leaves: the old database, the snapshot beside it and the
journal's fields.  The archive has a name of its own. -/
structure Setup where
  base : Database
  wal : Option Database
  snapshot : Database
  sent : SnapshotMeta
  carries : snapshot.snapshotMeta = some sent
  masterDeviceId : DeviceId
  replacesCopy : Bool
  archive : String
  older : String → Option Database

namespace Setup

variable (c : Setup)

/-- The complete database before the swap. -/
def old : Database := c.wal.getD c.base

def journal (merged : Bool) : Journal := ⟨c.masterDeviceId, merged, c.replacesCopy, c.archive⟩

def files : Files
  | .data .db .main => some (.image c.base)
  | .data .db .wal => some (.frames c.wal)
  | .data .db .shm => some .index
  | .data .incoming .main => some (.image c.snapshot)
  | .data (.archive p) .main => if p = c.archive then none else (c.older p).map .image
  | .journal => some (.journal (c.journal false))
  | _ => none

end Setup

section Swap

variable (json : List Cell → String) (c : Setup)

/-- A complete result of the merge. -/
def MergedFrom (d : Database) : Prop :=
  ∃ now, mergeLocalTables json c.masterDeviceId now c.snapshot c.old = some d

/-- No committed frame waits in the log beside the database. -/
def Settled (f : Files) (p : Place) : Prop := ∀ d, f (.data p .wal) ≠ some (.frames (some d))

/-- The old database is in place, and the archive's name is free. -/
structure InPlace (f : Files) : Prop where
  old : f.database .db = some c.old
  free : ∀ e, f (.data (.archive c.archive) e) = none

/-- The old database is in place, its log folded in. -/
structure Folded (f : Files) : Prop extends InPlace c f where
  image : f (.data .db .main) = some (.image c.old)
  settled : Settled f .db

/-- The old database is in the archive. -/
structure Archived (f : Files) : Prop where
  image : f (.data (.archive c.archive) .main) = some (.image c.old)
  settled : Settled f (.archive c.archive)

/-- Where the snapshot is before the journal named it is merged.  `gone` allows
that it was thrown away, `blank` that an empty database stands for it. -/
inductive Source (gone blank : Prop) (f : Files) : Prop
  | incoming (here : f (.data .incoming .main) = some (.image c.snapshot))
      (free : f (.data .merged .main) = none)
  | taken (free : f (.data .incoming .main) = none)
      (here : f (.data .merged .main) = some (.image c.snapshot))
  | merged (free : f (.data .incoming .main) = none) (d : Database) (from' : MergedFrom json c d)
      (here : f (.data .merged .main) = some (.image d))
  | gone (lost : gone) (free : f (.data .incoming .main) = none)
      (free' : f (.data .merged .main) = none)
  | blank (lost : blank) (free : f (.data .incoming .main) = none)
      (here : f (.data .merged .main) = some (.image .empty))

/-- What the merged file may hold: the merge, or nothing where a snapshot thrown
away was taken for merged. -/
def Result (blank : Prop) (d : Database) : Prop := MergedFrom json c d ∨ blank ∧ d = .empty

/-- The merged file, waiting to be put in place. -/
def Ready (blank : Prop) (f : Files) : Prop :=
  ∃ d, Result json c blank d ∧ f (.data .merged .main) = some (.image d)

/-- The merged file in place, and what became of the old one. -/
structure Replaced (blank : Prop) (f : Files) : Prop where
  result : ∃ d, Result json c blank d ∧ f (.data .db .main) = some (.image d)
  settled : Settled f .db
  moved : f (.data .merged .main) = none
  archived : c.replacesCopy = false → Archived c f

/-- The old file is out of the way. -/
structure Cleared (blank : Prop) (f : Files) : Prop where
  ready : Ready json c blank f
  free : f (.data .db .main) = none
  settled : Settled f .db
  archived : c.replacesCopy = false → Archived c f

/-- **What a boot can find.** -/
inductive Stage (blank : Prop) (f : Files) : Prop
  | pending (note : f .journal = some (.journal (c.journal false))) (place : InPlace c f)
      (source : Source json c blank blank f)
  | merged (note : f .journal = some (.journal (c.journal true))) (folded : Folded c f)
      (ready : Ready json c blank f)
  | cleared (note : f .journal = some (.journal (c.journal true)))
      (cleared : Cleared json c blank f)
  | replaced (note : f .journal = some (.journal (c.journal true)))
      (replaced : Replaced json c blank f)
  | swapped (note : f .journal = none) (replaced : Replaced json c blank f)
  | abandoned (note : f .journal = none) (place : InPlace c f)

/-- The journal in memory: its `merged` is the one it was read with. -/
def Own (j : Journal) : Prop := j.replacesCopy = c.replacesCopy ∧ j.archive = c.archive

/-- The journal is not yet marked, and the old database is in place. -/
structure Unmarked (f : Files) : Prop where
  note : f .journal = some (.journal (c.journal false))
  place : InPlace c f

/-- The snapshot has left its first name, and the old log is folded in. -/
structure Taken (f : Files) : Prop where
  note : f .journal = some (.journal (c.journal false))
  folded : Folded c f
  free : f (.data .incoming .main) = none

/-- **What holds before each operation.** -/
def At (blank : Prop) (f : Files) : Pc → Prop
  | .boot => Stage json c blank f
  | .openOld j | .checkpointOld j =>
      j = c.journal false ∧ Unmarked c f ∧ Source json c blank blank f
  | .closeOld j | .takeIncoming j =>
      j = c.journal false ∧ Unmarked c f ∧ Folded c f ∧ Source json c blank blank f
  | .openMerged j => j = c.journal false ∧ Taken c f ∧ Source json c blank blank f
  | .attachOld j | .merge j =>
      j = c.journal false ∧ Taken c f ∧ f (.data .merged .main) = some (.image c.snapshot)
  | .detachOld j | .journalTmp j => j = c.journal false ∧ Taken c f ∧ Ready json c blank f
  | .journal j =>
      j = c.journal false ∧ Taken c f ∧ Ready json c blank f ∧
        f .journalTmp = some (.journal (c.journal true))
  | .clear j .main =>
      Own c j ∧ c.replacesCopy = true ∧ f .journal = some (.journal (c.journal true)) ∧
        (Folded c f ∧ Ready json c blank f ∨ Cleared json c blank f)
  | .archive j .main =>
      Own c j ∧ c.replacesCopy = false ∧ f .journal = some (.journal (c.journal true)) ∧
        Folded c f ∧ Ready json c blank f
  | .clear j _ | .archive j _ =>
      Own c j ∧ f .journal = some (.journal (c.journal true)) ∧ Cleared json c blank f
  | .replace => f .journal = some (.journal (c.journal true)) ∧ Cleared json c blank f
  | .outcomeTmp .swapped | .outcome .swapped | .removeJournal .swapped =>
      f .journal = some (.journal (c.journal true)) ∧ Replaced json c blank f
  | .abandonIncoming => Unmarked c f ∧ Source json c blank blank f
  | .abandonMerged _ | .outcomeTmp .abandoned | .outcome .abandoned | .removeJournal .abandoned =>
      Unmarked c f ∧ Source json c True blank f
  | .returned .swapped => f .journal = none ∧ Replaced json c blank f
  | .returned .abandoned => f .journal = none ∧ InPlace c f
  | .returned .none => f .journal = none ∧ (Replaced json c blank f ∨ InPlace c f)
  | _ => False

/-- A swap is being abandoned: its snapshot is thrown away, and the journal stands. -/
def abandoning : Pc → Bool
  | .abandonMerged _ | .outcomeTmp .abandoned | .outcome .abandoned
  | .removeJournal .abandoned => true
  | _ => false

/-- The process does not stop between the removal of the snapshot and that of the
journal: the next boot would take the missing file for a merged one. -/
def Spares (s : Process) (a : Act) : Prop :=
  a = .fail ∨ a = .crash → abandoning s.pc = true →
    s.files.existsSync .incoming = true ∨ s.files.existsSync .merged = true

instance (s : Process) (a : Act) : Decidable (Spares s a) := by
  unfold Spares
  infer_instance

/-- What no operation of a swap touches. -/
structure Untouched (f : Files) : Prop where
  restore : f .restore = none
  older : ∀ p, p ≠ c.archive → ∀ e, f (.data (.archive p) e) = c.files (.data (.archive p) e)

structure Inv (blank : Prop) (s : Process) : Prop where
  untouched : Untouched c s.files
  here : At json c blank s.files s.pc

end Swap

/-! ## One operation at a time -/

section Operations

variable {json : List Cell → String} {c : Setup} {blank : Prop} {f f' : Files}

/-- The old database and its archive are the same files in `f'` as in `f`. -/
def SameOld (c : Setup) (f f' : Files) : Prop :=
  (∀ e, f' (.data .db e) = f (.data .db e)) ∧
    ∀ e, f' (.data (.archive c.archive) e) = f (.data (.archive c.archive) e)

/-- The snapshot is the same file in `f'` as in `f`. -/
def SameNew (f f' : Files) : Prop :=
  f' (.data .incoming .main) = f (.data .incoming .main) ∧
    f' (.data .merged .main) = f (.data .merged .main)

theorem InPlace.congr (place : InPlace c f) (same : SameOld c f f') : InPlace c f' where
  old := by
    unfold Files.database
    rw [same.1, same.1]
    exact place.old
  free e := by rw [same.2, place.free e]

theorem Folded.congr (folded : Folded c f) (same : SameOld c f f') : Folded c f' where
  toInPlace := folded.toInPlace.congr same
  image := by rw [same.1, folded.image]
  settled d := by
    rw [same.1]
    exact folded.settled d

theorem Archived.congr (archived : Archived c f) (same : SameOld c f f') : Archived c f' where
  image := by rw [same.2, archived.image]
  settled d := by
    rw [same.2]
    exact archived.settled d

theorem Source.congr {gone : Prop} (source : Source json c gone blank f) (same : SameNew f f') :
    Source json c gone blank f' := by
  cases source with
  | incoming here free => exact .incoming (same.1.trans here) (same.2.trans free)
  | taken free here => exact .taken (same.1.trans free) (same.2.trans here)
  | merged free d from' here => exact .merged (same.1.trans free) d from' (same.2.trans here)
  | gone lost free free' => exact .gone lost (same.1.trans free) (same.2.trans free')
  | blank lost free here => exact .blank lost (same.1.trans free) (same.2.trans here)

theorem Ready.congr (ready : Ready json c blank f)
    (same : f' (.data .merged .main) = f (.data .merged .main)) : Ready json c blank f' := by
  obtain ⟨d, result, here⟩ := ready
  exact ⟨d, result, same.trans here⟩

theorem Ready.source (ready : Ready json c blank f) (free : f (.data .incoming .main) = none) :
    Source json c blank blank f := by
  obtain ⟨d, from' | ⟨lost, rfl⟩, here⟩ := ready
  · exact .merged free d from' here
  · exact .blank lost free here

theorem Unmarked.congr (unmarked : Unmarked c f) (same : SameOld c f f')
    (note : f' .journal = f .journal) : Unmarked c f' :=
  ⟨note.trans unmarked.note, unmarked.place.congr same⟩

theorem Taken.congr (taken : Taken c f) (same : SameOld c f f') (note : f' .journal = f .journal)
    (incoming : f' (.data .incoming .main) = f (.data .incoming .main)) : Taken c f' :=
  ⟨note.trans taken.note, taken.folded.congr same, incoming.trans taken.free⟩

theorem Taken.unmarked (taken : Taken c f) : Unmarked c f := ⟨taken.note, taken.folded.toInPlace⟩

theorem Replaced.congr (replaced : Replaced json c blank f) (same : SameOld c f f')
    (new : f' (.data .merged .main) = f (.data .merged .main)) : Replaced json c blank f' where
  result := by
    obtain ⟨d, result, here⟩ := replaced.result
    exact ⟨d, result, by rw [same.1, here]⟩
  settled d := by
    rw [same.1]
    exact replaced.settled d
  moved := new.trans replaced.moved
  archived copy := (replaced.archived copy).congr same

/-- A settled log leaves the image as it is. -/
theorem database_of_image {p : Place} {d : Database} (image : f (.data p .main) = some (.image d))
    (settled : Settled f p) : f.database p = some d := by
  unfold Files.database
  rw [image]
  cases log : f (.data p .wal) with
  | none => rfl
  | some content =>
      cases content with
      | frames committed =>
          cases committed with
          | none => rfl
          | some d' => exact absurd log (settled d')
      | _ => rfl

theorem openAt_of_image {p : Place} {d : Database} (image : f (.data p .main) = some (.image d)) :
    f.openAt p = f := by
  simp [Files.openAt, Files.existsSync, image]

/-- A database that can be read is opened where it is. -/
theorem openAt_of_database {p : Place} {d : Database} (read : f.database p = some d) :
    f.openAt p = f := by
  unfold Files.openAt Files.existsSync
  unfold Files.database at read
  cases main : f (.data p .main) with
  | none => rw [main] at read; cases read
  | some content => rfl

theorem set_same {p : Path} {content : Option Content} (old : ∀ e, p ≠ .data .db e)
    (archive : ∀ e, p ≠ .data (.archive c.archive) e) : SameOld c f (f.set p content) :=
  ⟨fun e => if_neg fun same => old e same.symm, fun e => if_neg fun same => archive e same.symm⟩

/-- What the operations on the old database leave alone. -/
structure BesideDb (f f' : Files) : Prop where
  new : SameNew f f'
  journal : f' .journal = f .journal
  restore : f' .restore = f .restore
  archive : ∀ p e, f' (.data (.archive p) e) = f (.data (.archive p) e)

theorem checkpoint_beside : BesideDb f (f.checkpoint .db) := by
  constructor <;> simp [Files.checkpoint, SameNew]

theorem close_beside : BesideDb f (f.close .db) := by
  constructor <;> simp [Files.close, Files.rm, Files.checkpoint, SameNew]

theorem attach_beside : BesideDb f (f.attach .db) := by
  unfold Files.attach Files.openAt
  dsimp only
  split_ifs <;> constructor <;> simp [SameNew]

theorem checkpoint_folded (place : InPlace c f) : Folded c (f.checkpoint .db) := by
  have image : f.checkpoint .db (.data .db .main) = some (.image c.old) := by
    simp [Files.checkpoint, place.old]
  have settled : Settled (f.checkpoint .db) .db := by
    intro d
    simp [Files.checkpoint]
  refine ⟨⟨database_of_image image settled, fun e => ?_⟩, image, settled⟩
  rw [checkpoint_beside.archive, place.free e]

theorem close_folded (place : InPlace c f) : Folded c (f.close .db) := by
  have image : f.close .db (.data .db .main) = some (.image c.old) := by
    simp [Files.close, Files.rm, Files.checkpoint, place.old]
  have settled : Settled (f.close .db) .db := by
    intro d
    simp [Files.close, Files.rm]
  refine ⟨⟨database_of_image image settled, fun e => ?_⟩, image, settled⟩
  rw [close_beside.archive, place.free e]

theorem attach_folded (folded : Folded c f) : Folded c (f.attach .db) := by
  have image : f.attach .db (.data .db .main) = some (.image c.old) := by
    unfold Files.attach
    rw [openAt_of_database folded.old]
    split_ifs <;> simp [folded.image]
  have settled : Settled (f.attach .db) .db := by
    intro d
    unfold Files.attach
    rw [openAt_of_database folded.old]
    split_ifs
    · simpa using folded.settled d
    · simp
  refine ⟨⟨database_of_image image settled, fun e => ?_⟩, image, settled⟩
  rw [attach_beside.archive, folded.free e]

/-- The incoming file takes the merged one's place. -/
theorem takeIncoming_source
    (source : Source json c blank blank f) :
    Source json c blank blank (f.moveIfThere (.data .incoming .main) (.data .merged .main)) ∧
      f.moveIfThere (.data .incoming .main) (.data .merged .main) (.data .incoming .main) = none := by
  unfold Files.moveIfThere Files.rename Files.rm
  cases source with
  | incoming here free => simp [here]; exact .taken (by simp) (by simp)
  | taken free here => simp [free]; exact .taken free here
  | merged free d from' here => simp [free]; exact .merged free d from' here
  | gone lost free free' => simp [free]; exact .gone lost free free'
  | blank lost free here => simp [free]; exact .blank lost free here

theorem Ready.existsSync (ready : Ready json c blank f) : f.existsSync .merged = true := by
  obtain ⟨d, _, here⟩ := ready
  simp [Files.existsSync, here]

/-- Once the old file is out of the way, the merged one is next. -/
theorem replacing_at (note : f .journal = some (.journal (c.journal true)))
    (cleared : Cleared json c blank f) : At json c blank f (replacing f) := by
  unfold replacing
  rw [cleared.ready.existsSync]
  exact ⟨note, cleared⟩

/-- **Where a marked journal leads** depends on which files there are. -/
theorem placing_at {j : Journal} (own : Own c j)
    (note : f .journal = some (.journal (c.journal true)))
    (found : Folded c f ∧ Ready json c blank f ∨ Cleared json c blank f ∨ Replaced json c blank f) :
    At json c blank f (placing f j) := by
  obtain ⟨copy, name⟩ := own
  have archived : c.replacesCopy = false → Archived c f → f.existsSync (.archive c.archive) = true :=
    fun _ archived => by simp [Files.existsSync, archived.image]
  unfold placing
  rw [copy, name]
  rcases found with ⟨folded, ready⟩ | cleared | replaced
  · have free : f.existsSync (.archive c.archive) = false := by simp [Files.existsSync, folded.free]
    rw [ready.existsSync, free]
    cases replaces : c.replacesCopy with
    | true => exact ⟨⟨copy, name⟩, replaces, note, .inl ⟨folded, ready⟩⟩
    | false => exact ⟨⟨copy, name⟩, replaces, note, folded, ready⟩
  · rw [cleared.ready.existsSync]
    cases replaces : c.replacesCopy with
    | true => exact ⟨⟨copy, name⟩, replaces, note, .inr cleared⟩
    | false =>
        rw [archived replaces (cleared.archived replaces)]
        exact replacing_at note cleared
  · have gone : f.existsSync .merged = false := by simp [Files.existsSync, replaced.moved]
    unfold replacing
    rw [gone]
    cases replaces : c.replacesCopy with
    | true => exact ⟨note, replaced⟩
    | false =>
        rw [archived replaces (replaced.archived replaces)]
        exact ⟨note, replaced⟩

/-- A boot goes on from whatever it finds. -/
theorem booting_at (untouched : Untouched c f) (stage : Stage json c blank f) :
    At json c blank f (booting f) := by
  unfold booting
  rw [untouched.restore]
  cases stage with
  | pending note place source =>
      rw [note]
      exact ⟨rfl, ⟨note, place⟩, source⟩
  | merged note folded ready =>
      rw [note]
      exact placing_at ⟨rfl, rfl⟩ note (.inl ⟨folded, ready⟩)
  | cleared note cleared =>
      rw [note]
      exact placing_at ⟨rfl, rfl⟩ note (.inr (.inl cleared))
  | replaced note replaced =>
      rw [note]
      exact placing_at ⟨rfl, rfl⟩ note (.inr (.inr replaced))
  | swapped note replaced =>
      rw [note]
      exact ⟨note, .inl replaced⟩
  | abandoned note place =>
      rw [note]
      exact ⟨note, .inr place⟩

/-- A crash leaves a file state of `Stage`; one while the swap is being abandoned
does when a snapshot is still there. -/
theorem At.stage {pc : Pc} (here : At json c blank f pc)
    (kept : abandoning pc = true → Source json c True blank f → Source json c blank blank f) :
    Stage json c blank f := by
  cases pc with
  | boot => exact here
  | openOld j | checkpointOld j => exact .pending here.2.1.note here.2.1.place here.2.2
  | closeOld j | takeIncoming j => exact .pending here.2.1.note here.2.1.place here.2.2.2
  | openMerged j => exact .pending here.2.1.note here.2.1.folded.toInPlace here.2.2
  | attachOld j | merge j =>
      exact .pending here.2.1.note here.2.1.folded.toInPlace (.taken here.2.1.free here.2.2)
  | detachOld j | journalTmp j =>
      exact .pending here.2.1.note here.2.1.folded.toInPlace (here.2.2.source here.2.1.free)
  | journal j =>
      exact .pending here.2.1.note here.2.1.folded.toInPlace (here.2.2.1.source here.2.1.free)
  | clear j e =>
      cases e with
      | main =>
          rcases here.2.2.2 with ⟨folded, ready⟩ | cleared
          · exact .merged here.2.2.1 folded ready
          · exact .cleared here.2.2.1 cleared
      | wal | shm => exact .cleared here.2.1 here.2.2
  | archive j e =>
      cases e with
      | main => exact .merged here.2.2.1 here.2.2.2.1 here.2.2.2.2
      | wal | shm => exact .cleared here.2.1 here.2.2
  | replace => exact .cleared here.1 here.2
  | abandonIncoming => exact .pending here.1.note here.1.place here.2
  | abandonMerged e => exact .pending here.1.note here.1.place (kept rfl here.2)
  | outcomeTmp o | outcome o | removeJournal o =>
      cases o with
      | swapped => exact .replaced here.1 here.2
      | abandoned => exact .pending here.1.note here.1.place (kept rfl here.2)
  | returned r =>
      cases r with
      | swapped => exact .swapped here.1 here.2
      | abandoned => exact .abandoned here.1 here.2
      | none =>
          rcases here.2 with replaced | place
          · exact .swapped here.1 replaced
          · exact .abandoned here.1 place
      | restored => exact here.elim
  | restoreMerge r | restoreClose r | restoreAbandon | restoreTmp r | restoreMark r
  | restoreClear r e | restoreMove r e | forgetOutcome | removeRestore => exact here.elim

/-- Opening the merged file: a snapshot waits for its merge, and anything without
`sync_snapshot_meta` passes for merged. -/
theorem openMerged_at (taken : Taken c f) (source : Source json c blank blank f) {now : String}
    {pc : Pc} (ran : next json f now (.openMerged (c.journal false)) = some (f', pc)) :
    At json c blank f' pc := by
  have same : ∀ content, Taken c (f.set (.data .merged .main) content) := fun content =>
    taken.congr (set_same (by simp) (by simp)) (by simp) (by simp)
  obtain ⟨rfl, rfl⟩ := Prod.mk.inj (Option.some.inj ran)
  cases source with
  | incoming here free => simp [taken.free] at here
  | taken free here =>
      rw [openAt_of_image here, here, opened, c.carries]
      exact ⟨rfl, taken, here⟩
  | merged free d from' here =>
      obtain ⟨now', made⟩ := from'
      rw [openAt_of_image here, here, opened, mergeLocalTables_plain made]
      exact ⟨rfl, taken, d, .inl ⟨now', made⟩, here⟩
  | gone lost free free' =>
      have made : f.openAt .merged = f.set (.data .merged .main) (some (.image .empty)) := by
        simp [Files.openAt, Files.existsSync, free']
      rw [made]
      refine ⟨rfl, same _, .empty, .inr ⟨lost, rfl⟩, ?_⟩
      simp
  | blank lost free here =>
      rw [openAt_of_image here, here]
      exact ⟨rfl, taken, .empty, .inr ⟨lost, rfl⟩, here⟩

/-- The merge is one transaction: it is there, or the file is as it was. -/
theorem merge_at (taken : Taken c f) (here : f (.data .merged .main) = some (.image c.snapshot))
    {now : String} {pc : Pc} (ran : next json f now (.merge (c.journal false)) = some (f', pc)) :
    At json c blank f' pc := by
  have closed : Taken c (f.close .db) :=
    ⟨close_beside.journal.trans taken.note, close_folded taken.folded.toInPlace,
      close_beside.new.1.trans taken.free⟩
  simp only [next, here, taken.folded.old] at ran
  cases made : mergeLocalTables json (c.journal false).masterDeviceId now c.snapshot c.old with
  | none =>
      rw [made] at ran
      obtain ⟨rfl, rfl⟩ := Prod.mk.inj (Option.some.inj ran)
      exact ⟨closed.unmarked, .taken closed.free (close_beside.new.2.trans here)⟩
  | some d =>
      rw [made] at ran
      obtain ⟨rfl, rfl⟩ := Prod.mk.inj (Option.some.inj ran)
      exact ⟨rfl, taken.congr (set_same (by simp) (by simp)) (by simp) (by simp), d,
        .inl ⟨now, made⟩, by simp⟩

/-- The old file leaves its place. -/
theorem archive_main_at {j : Journal} (own : Own c j) (folded : Folded c f) (ready : Ready json c blank f) :
    Cleared json c blank
      (f.moveIfThere (.data .db .main) (.data (.archive j.archive) .main)) := by
  have moved : f.moveIfThere (.data .db .main) (.data (.archive j.archive) .main) =
      f.rename (.data .db .main) (.data (.archive c.archive) .main) := by
    simp [Files.moveIfThere, folded.image, own.2]
  rw [moved]
  constructor
  · exact ready.congr (by simp [Files.rename, Files.rm])
  · simp [Files.rename, Files.rm]
  · intro d
    simpa [Files.rename, Files.rm] using folded.settled d
  · intro _
    constructor
    · simp [Files.rename, Files.rm, folded.image]
    · intro d
      simp [Files.rename, Files.rm, folded.free]

/-- What is left beside the old file follows it, and holds nothing. -/
theorem archive_rest_at {name : String} (own : name = c.archive) {e : Ext} (rest : e ≠ .main)
    (cleared : Cleared json c blank f) :
    Cleared json c blank (f.moveIfThere (.data .db e) (.data (.archive name) e)) := by
  subst own
  unfold Files.moveIfThere
  split
  · constructor
    · exact cleared.ready.congr (by simp [Files.rename, Files.rm])
    · simp [Files.rename, Files.rm, cleared.free]
    · intro d
      by_cases log : e = .wal
      · simp [Files.rename, Files.rm, log]
      · simpa [Files.rename, Files.rm, Ne.symm log] using cleared.settled d
    · intro copy
      have archived := cleared.archived copy
      constructor
      · simp [Files.rename, Files.rm, archived.image, Ne.symm rest]
      · intro d
        by_cases log : e = .wal
        · simpa [Files.rename, Files.rm, log] using cleared.settled d
        · simpa [Files.rename, Files.rm, Ne.symm log] using archived.settled d
  · exact cleared

/-- The merged file takes the place of the old one. -/
theorem replace_at (cleared : Cleared json c blank f) :
    Replaced json c blank (f.rename (.data .merged .main) (.data .db .main)) := by
  obtain ⟨d, result, here⟩ := cleared.ready
  constructor
  · exact ⟨d, result, by simp [Files.rename, Files.rm, here]⟩
  · intro d
    simpa [Files.rename, Files.rm] using cleared.settled d
  · simp [Files.rename, Files.rm]
  · intro copy
    have archived := cleared.archived copy
    constructor
    · simp [Files.rename, Files.rm, archived.image]
    · intro d
      simpa [Files.rename, Files.rm] using archived.settled d


/-- Removing the copy's files, its image first. -/
theorem clear_at {e : Ext} (settled : Settled f .db) (ready : Ready json c blank f)
    (first : e = .main ∨ f (.data .db .main) = none)
    (archived : c.replacesCopy = false → Archived c f) :
    Cleared json c blank (f.rm (.data .db e)) := by
  constructor
  · exact ready.congr (by simp [Files.rm])
  · rcases first with rfl | free
    · simp [Files.rm]
    · simp [Files.rm, free]
  · intro d
    by_cases log : e = .wal
    · simp [Files.rm, log]
    · simpa [Files.rm, Ne.symm log] using settled d
  · intro copy
    constructor
    · simp [Files.rm, (archived copy).image]
    · intro d
      simpa [Files.rm] using (archived copy).settled d

/-- What an abandoned swap throws away. -/
theorem abandon_source {gone : Prop} (source : Source json c gone blank f) {p : Place} {e : Ext}
    (beside : p = .incoming ∨ p = .merged) : Source json c True blank (f.rm (.data p e)) := by
  by_cases main : e = .main
  · subst main
    rcases beside with rfl | rfl
    · cases source with
      | incoming here free => exact .gone trivial (by simp [Files.rm]) (by simp [Files.rm, free])
      | taken free here => exact .taken (by simp [Files.rm]) (by simp [Files.rm, here])
      | merged free d from' here =>
          exact .merged (by simp [Files.rm]) d from' (by simp [Files.rm, here])
      | gone lost free free' => exact .gone trivial (by simp [Files.rm]) (by simp [Files.rm, free'])
      | blank lost free here => exact .blank lost (by simp [Files.rm]) (by simp [Files.rm, here])
    · cases source with
      | incoming here free => exact .incoming (by simp [Files.rm, here]) (by simp [Files.rm])
      | taken free | merged free | gone _ free | blank _ free =>
          exact .gone trivial (by simp [Files.rm, free]) (by simp [Files.rm])
  · have same : SameNew f (f.rm (.data p e)) := by
      constructor <;> simp [Files.rm, Ne.symm main]
    cases source.congr same with
    | incoming here free => exact .incoming here free
    | taken free here => exact .taken free here
    | merged free d from' here => exact .merged free d from' here
    | gone lost free free' => exact .gone trivial free free'
    | blank lost free here => exact .blank lost free here

/-- **What an operation leaves**, operation by operation. -/
theorem At.next {now : String} {pc pc' : Pc} (untouched : Untouched c f)
    (here : At json c blank f pc) (ran : next json f now pc = some (f', pc')) :
    At json c blank f' pc' := by
  cases pc with
  | boot =>
      obtain ⟨rfl, rfl⟩ := Prod.mk.inj (Option.some.inj ran)
      exact booting_at untouched here
  | openOld j =>
      obtain ⟨rfl, rfl⟩ := Prod.mk.inj (Option.some.inj ran)
      rw [openAt_of_database here.2.1.place.old]
      exact here
  | checkpointOld j =>
      obtain ⟨rfl, rfl⟩ := Prod.mk.inj (Option.some.inj ran)
      obtain ⟨own, unmarked, source⟩ := here
      have folded : Folded c (f.checkpoint .db) := checkpoint_folded unmarked.place
      exact ⟨own, ⟨checkpoint_beside.journal.trans unmarked.note, folded.toInPlace⟩, folded,
        source.congr checkpoint_beside.new⟩
  | closeOld j =>
      obtain ⟨rfl, rfl⟩ := Prod.mk.inj (Option.some.inj ran)
      obtain ⟨own, unmarked, -, source⟩ := here
      have folded : Folded c (f.close .db) := close_folded unmarked.place
      exact ⟨own, ⟨close_beside.journal.trans unmarked.note, folded.toInPlace⟩, folded,
        source.congr close_beside.new⟩
  | takeIncoming j =>
      obtain ⟨rfl, rfl⟩ := Prod.mk.inj (Option.some.inj ran)
      obtain ⟨own, unmarked, folded, source⟩ := here
      obtain ⟨source, free⟩ := takeIncoming_source source
      have moved : ∀ q, q ≠ .data .incoming .main → q ≠ .data .merged .main →
          f.moveIfThere (.data .incoming .main) (.data .merged .main) q = f q := by
        intro q first second
        unfold Files.moveIfThere Files.rename Files.rm
        split <;> simp [first, second]
      refine ⟨own, ⟨(moved _ (by simp) (by simp)).trans unmarked.note, folded.congr ⟨?_, ?_⟩, free⟩,
        source⟩
      · exact fun e => moved _ (by simp) (by simp)
      · exact fun e => moved _ (by simp) (by simp)
  | openMerged j =>
      obtain ⟨rfl, taken, source⟩ := here
      exact openMerged_at taken source ran
  | attachOld j =>
      obtain ⟨rfl, rfl⟩ := Prod.mk.inj (Option.some.inj ran)
      obtain ⟨own, taken, here⟩ := here
      exact ⟨own, ⟨attach_beside.journal.trans taken.note, attach_folded taken.folded,
        attach_beside.new.1.trans taken.free⟩, attach_beside.new.2.trans here⟩
  | merge j =>
      obtain ⟨rfl, taken, here⟩ := here
      exact merge_at taken here ran
  | detachOld j =>
      obtain ⟨rfl, rfl⟩ := Prod.mk.inj (Option.some.inj ran)
      obtain ⟨own, taken, ready⟩ := here
      exact ⟨own, ⟨close_beside.journal.trans taken.note, close_folded taken.folded.toInPlace,
        close_beside.new.1.trans taken.free⟩, ready.congr close_beside.new.2⟩
  | journalTmp j =>
      obtain ⟨rfl, rfl⟩ := Prod.mk.inj (Option.some.inj ran)
      obtain ⟨rfl, taken, ready⟩ := here
      exact ⟨rfl, taken.congr (set_same (by simp) (by simp)) (by simp) (by simp),
        ready.congr (by simp), by simp [Setup.journal]⟩
  | journal j =>
      obtain ⟨rfl, rfl⟩ := Prod.mk.inj (Option.some.inj ran)
      obtain ⟨rfl, taken, ready, written⟩ := here
      refine placing_at ⟨rfl, rfl⟩ (by simp [Files.rename, Files.rm, written])
        (.inl ⟨taken.folded.congr ?_, ready.congr ?_⟩)
      · constructor <;> simp [Files.rename, Files.rm]
      · simp [Files.rename, Files.rm]
  | clear j e =>
      cases e with
      | main =>
          obtain ⟨rfl, rfl⟩ := Prod.mk.inj (Option.some.inj ran)
          obtain ⟨own, copy, note, found⟩ := here
          refine ⟨own, by simpa [Files.rm] using note, ?_⟩
          rcases found with ⟨folded, ready⟩ | cleared
          · exact clear_at folded.settled ready (.inl rfl) fun kept => by simp [copy] at kept
          · exact clear_at cleared.settled cleared.ready (.inl rfl) cleared.archived
      | wal =>
          obtain ⟨rfl, rfl⟩ := Prod.mk.inj (Option.some.inj ran)
          obtain ⟨own, note, cleared⟩ := here
          exact ⟨own, by simpa [Files.rm] using note,
            clear_at cleared.settled cleared.ready (.inr cleared.free) cleared.archived⟩
      | shm =>
          obtain ⟨rfl, rfl⟩ := Prod.mk.inj (Option.some.inj ran)
          obtain ⟨own, note, cleared⟩ := here
          exact replacing_at (by simpa [Files.rm] using note)
            (clear_at cleared.settled cleared.ready (.inr cleared.free) cleared.archived)
  | archive j e =>
      have kept : ∀ e p, f.moveIfThere (.data .db e) (.data (.archive p) e) .journal = f .journal := by
        intro e p
        unfold Files.moveIfThere Files.rename Files.rm
        split <;> simp
      cases e with
      | main =>
          obtain ⟨rfl, rfl⟩ := Prod.mk.inj (Option.some.inj ran)
          obtain ⟨own, copy, note, folded, ready⟩ := here
          exact ⟨own, (kept _ _).trans note, archive_main_at own folded ready⟩
      | wal =>
          obtain ⟨rfl, rfl⟩ := Prod.mk.inj (Option.some.inj ran)
          obtain ⟨own, note, cleared⟩ := here
          exact ⟨own, (kept _ _).trans note, archive_rest_at own.2 (by simp) cleared⟩
      | shm =>
          obtain ⟨rfl, rfl⟩ := Prod.mk.inj (Option.some.inj ran)
          obtain ⟨own, note, cleared⟩ := here
          exact replacing_at ((kept _ _).trans note) (archive_rest_at own.2 (by simp) cleared)
  | replace =>
      obtain ⟨rfl, rfl⟩ := Prod.mk.inj (Option.some.inj ran)
      obtain ⟨note, cleared⟩ := here
      exact ⟨by simpa [Files.rename, Files.rm] using note, replace_at cleared⟩
  | abandonIncoming =>
      obtain ⟨rfl, rfl⟩ := Prod.mk.inj (Option.some.inj ran)
      obtain ⟨unmarked, source⟩ := here
      exact ⟨unmarked.congr (set_same (by simp) (by simp)) (by simp [Files.rm]),
        abandon_source source (.inl rfl)⟩
  | abandonMerged e =>
      obtain ⟨unmarked, source⟩ := here
      have kept : Unmarked c (f.rm (.data .merged e)) ∧
          Source json c True blank (f.rm (.data .merged e)) :=
        ⟨unmarked.congr (set_same (by simp) (by simp)) (by simp [Files.rm]),
          abandon_source source (.inr rfl)⟩
      cases e with
      | main | wal | shm =>
          obtain ⟨rfl, rfl⟩ := Prod.mk.inj (Option.some.inj ran)
          exact kept
  | outcomeTmp o =>
      obtain ⟨rfl, rfl⟩ := Prod.mk.inj (Option.some.inj ran)
      have same : ∀ content, SameOld c f (f.set .outcomeTmp content) := fun _ =>
        set_same (by simp) (by simp)
      cases o with
      | swapped => exact ⟨by simpa using here.1, here.2.congr (same _) (by simp)⟩
      | abandoned =>
          exact ⟨here.1.congr (same _) (by simp), here.2.congr ⟨by simp, by simp⟩⟩
  | outcome o =>
      obtain ⟨rfl, rfl⟩ := Prod.mk.inj (Option.some.inj ran)
      have same : SameOld c f (f.rename .outcomeTmp .outcome) := by
        constructor <;> simp [Files.rename, Files.rm]
      have kept : ∀ q, q ≠ .outcome → q ≠ .outcomeTmp → f.rename .outcomeTmp .outcome q = f q := by
        intro q first second
        simp [Files.rename, Files.rm, first, second]
      cases o with
      | swapped =>
          exact ⟨(kept _ (by simp) (by simp)).trans here.1,
            here.2.congr same (kept _ (by simp) (by simp))⟩
      | abandoned =>
          exact ⟨here.1.congr same (kept _ (by simp) (by simp)),
            here.2.congr ⟨kept _ (by simp) (by simp), kept _ (by simp) (by simp)⟩⟩
  | removeJournal o =>
      have same : SameOld c f (f.rm .journal) := set_same (by simp) (by simp)
      cases o with
      | swapped =>
          obtain ⟨rfl, rfl⟩ := Prod.mk.inj (Option.some.inj ran)
          exact ⟨by simp [Files.rm], here.2.congr same (by simp [Files.rm])⟩
      | abandoned =>
          obtain ⟨rfl, rfl⟩ := Prod.mk.inj (Option.some.inj ran)
          exact ⟨by simp [Files.rm], here.1.place.congr same⟩
  | returned r => cases ran
  | restoreMerge r | restoreClose r | restoreAbandon | restoreTmp r | restoreMark r
  | restoreClear r e | restoreMove r e | forgetOutcome | removeRestore => exact here.elim


/-- **Where a thrown operation leads**: the `catch` keeps the old database, and a
throw outside it is a boot. -/
theorem At.thrown {pc pc' : Pc} (here : At json c blank f pc)
    (kept : abandoning pc = true → Source json c True blank f → Source json c blank blank f)
    (ran : thrown f pc = some (f', pc')) : At json c blank f' pc' := by
  have closed : ∀ taken : Taken c f, Unmarked c (f.close .db) := fun taken =>
    ⟨close_beside.journal.trans taken.note, (close_folded taken.folded.toInPlace).toInPlace⟩
  cases pc with
  | openOld j | checkpointOld j =>
      obtain ⟨rfl, rfl⟩ := Prod.mk.inj (Option.some.inj ran)
      exact here.2
  | closeOld j | takeIncoming j =>
      obtain ⟨rfl, rfl⟩ := Prod.mk.inj (Option.some.inj ran)
      exact ⟨here.2.1, here.2.2.2⟩
  | openMerged j =>
      obtain ⟨rfl, rfl⟩ := Prod.mk.inj (Option.some.inj ran)
      exact ⟨here.2.1.unmarked, here.2.2⟩
  | attachOld j | merge j =>
      obtain ⟨rfl, rfl⟩ := Prod.mk.inj (Option.some.inj ran)
      obtain ⟨-, taken, here⟩ := here
      exact ⟨closed taken, Source.congr (.taken taken.free here) close_beside.new⟩
  | detachOld j =>
      obtain ⟨rfl, rfl⟩ := Prod.mk.inj (Option.some.inj ran)
      obtain ⟨-, taken, ready⟩ := here
      exact ⟨closed taken, (ready.source taken.free).congr close_beside.new⟩
  | returned r => cases ran
  | restoreMerge r | restoreClose r => exact here.elim
  | _ =>
      obtain ⟨rfl, rfl⟩ := Prod.mk.inj (Option.some.inj ran)
      exact here.stage kept

theorem Untouched.congr (untouched : Untouched c f) (restore : f' .restore = f .restore)
    (older : ∀ p, p ≠ c.archive → ∀ e, f' (.data (.archive p) e) = f (.data (.archive p) e)) :
    Untouched c f' :=
  ⟨restore.trans untouched.restore, fun p other e =>
    (older p other e).trans (untouched.older p other e)⟩

theorem Untouched.rename (untouched : Untouched c f) {p q : Path} (from' : p ≠ .restore)
    (to' : q ≠ .restore) (p' : ∀ name, name ≠ c.archive → ∀ e, p ≠ .data (.archive name) e)
    (q' : ∀ name, name ≠ c.archive → ∀ e, q ≠ .data (.archive name) e) :
    Untouched c (f.rename p q) ∧ Untouched c (f.moveIfThere p q) := by
  have renamed : Untouched c (f.rename p q) := by
    refine untouched.congr ?_ fun name other e => ?_
    · simp [Files.rename, Files.rm, Ne.symm from', Ne.symm to']
    · simp [Files.rename, Files.rm, Ne.symm (p' name other e), Ne.symm (q' name other e)]
  refine ⟨renamed, ?_⟩
  unfold Files.moveIfThere
  split
  · exact renamed
  · exact untouched


theorem Untouched.set (untouched : Untouched c f) {p : Path} {content : Option Content}
    (other : p ≠ .restore) (name : ∀ n, n ≠ c.archive → ∀ e, p ≠ .data (.archive n) e) :
    Untouched c (f.set p content) :=
  untouched.congr (if_neg fun same => other same.symm) fun n differs e =>
    if_neg fun same => name n differs e same.symm

theorem Untouched.beside (untouched : Untouched c f) (beside : BesideDb f f') : Untouched c f' :=
  untouched.congr beside.restore fun p _ e => beside.archive p e

theorem openAt_untouched (untouched : Untouched c f) {p : Place}
    (other : ∀ n, n ≠ c.archive → p ≠ .archive n) : Untouched c (f.openAt p) := by
  unfold Files.openAt
  split
  · exact untouched
  · refine untouched.set (by simp) fun n differs e same => other n differs ?_
    exact (Path.data.inj same).1

theorem Untouched.next {now : String} {pc pc' : Pc} (untouched : Untouched c f)
    (here : At json c blank f pc) (ran : next json f now pc = some (f', pc')) : Untouched c f' := by
  cases pc with
  | boot =>
      obtain ⟨rfl, rfl⟩ := Prod.mk.inj (Option.some.inj ran)
      exact untouched
  | openOld j | openMerged j =>
      obtain ⟨rfl, rfl⟩ := Prod.mk.inj (Option.some.inj ran)
      exact openAt_untouched untouched (by simp)
  | checkpointOld j =>
      obtain ⟨rfl, rfl⟩ := Prod.mk.inj (Option.some.inj ran)
      exact untouched.beside checkpoint_beside
  | closeOld j | detachOld j =>
      obtain ⟨rfl, rfl⟩ := Prod.mk.inj (Option.some.inj ran)
      exact untouched.beside close_beside
  | attachOld j =>
      obtain ⟨rfl, rfl⟩ := Prod.mk.inj (Option.some.inj ran)
      exact untouched.beside attach_beside
  | takeIncoming j =>
      obtain ⟨rfl, rfl⟩ := Prod.mk.inj (Option.some.inj ran)
      exact (untouched.rename (by simp) (by simp) (by simp) (by simp)).2
  | merge j =>
      simp only [Swap.next] at ran
      split at ran
      · split at ran
        · obtain ⟨rfl, rfl⟩ := Prod.mk.inj (Option.some.inj ran)
          exact untouched.set (by simp) (by simp)
        · obtain ⟨rfl, rfl⟩ := Prod.mk.inj (Option.some.inj ran)
          exact untouched.beside close_beside
      · obtain ⟨rfl, rfl⟩ := Prod.mk.inj (Option.some.inj ran)
        exact untouched.beside close_beside
  | journalTmp j | outcomeTmp o | abandonIncoming =>
      obtain ⟨rfl, rfl⟩ := Prod.mk.inj (Option.some.inj ran)
      exact untouched.set (by simp) (by simp)
  | journal j | replace | outcome o =>
      obtain ⟨rfl, rfl⟩ := Prod.mk.inj (Option.some.inj ran)
      exact (untouched.rename (by simp) (by simp) (by simp) (by simp)).1
  | clear j e | abandonMerged e =>
      cases e with
      | main | wal | shm =>
          obtain ⟨rfl, rfl⟩ := Prod.mk.inj (Option.some.inj ran)
          exact untouched.set (by simp) (by simp)
  | archive j e =>
      have own : j.archive = c.archive := by
        cases e with
        | main | wal | shm => exact here.1.2
      cases e with
      | main | wal | shm =>
          obtain ⟨rfl, rfl⟩ := Prod.mk.inj (Option.some.inj ran)
          refine (untouched.rename (by simp) (by simp) (by simp) ?_).2
          intro name differs e same
          exact differs ((Place.archive.inj (Path.data.inj same).1).symm.trans own)
  | removeJournal o =>
      cases o with
      | swapped | abandoned =>
          obtain ⟨rfl, rfl⟩ := Prod.mk.inj (Option.some.inj ran)
          exact untouched.set (by simp) (by simp)
  | returned r => cases ran
  | restoreMerge r | restoreClose r | restoreAbandon | restoreTmp r | restoreMark r
  | restoreClear r e | restoreMove r e | forgetOutcome | removeRestore => exact here.elim

theorem Untouched.thrown {pc pc' : Pc} (untouched : Untouched c f) (here : At json c blank f pc)
    (ran : thrown f pc = some (f', pc')) : Untouched c f' := by
  cases pc with
  | attachOld j | merge j | detachOld j =>
      obtain ⟨rfl, rfl⟩ := Prod.mk.inj (Option.some.inj ran)
      exact untouched.beside close_beside
  | returned r => cases ran
  | restoreMerge r | restoreClose r => exact here.elim
  | _ =>
      obtain ⟨rfl, rfl⟩ := Prod.mk.inj (Option.some.inj ran)
      exact untouched

/-- Spared, an abandoned swap still has its snapshot wherever the process stops. -/
theorem Spares.kept {s : Process} {a : Act} (stops : a = .fail ∨ a = .crash)
    (calm : blank ∨ Spares s a) (giving : abandoning s.pc = true)
    (source : Source json c True blank s.files) : Source json c blank blank s.files := by
  cases source with
  | incoming here free => exact .incoming here free
  | taken free here => exact .taken free here
  | merged free d from' here => exact .merged free d from' here
  | gone _ free free' =>
      refine .gone ?_ free free'
      rcases calm with lost | spared
      · exact lost
      · rcases spared stops giving with here | here
        · simp [Files.existsSync, free] at here
        · simp [Files.existsSync, free'] at here
  | blank lost free here => exact .blank lost free here

/-- **One step of a swap.** -/
theorem Inv.step {s s' : Process} {a : Act} (inv : Inv json c blank s) (calm : blank ∨ Spares s a)
    (stepped : step json s a = some s') : Inv json c blank s' := by
  cases a with
  | next now =>
      obtain ⟨⟨f', pc'⟩, ran, rfl⟩ := Option.map_eq_some_iff.1 stepped
      exact ⟨inv.untouched.next inv.here ran, inv.here.next inv.untouched ran⟩
  | fail =>
      obtain ⟨⟨f', pc'⟩, ran, rfl⟩ := Option.map_eq_some_iff.1 stepped
      exact ⟨inv.untouched.thrown inv.here ran,
        inv.here.thrown (Spares.kept (.inl rfl) calm) ran⟩
  | crash =>
      obtain rfl := Option.some.inj stepped
      exact ⟨inv.untouched, inv.here.stage (Spares.kept (.inr rfl) calm)⟩

theorem inv_start (c : Setup) : Inv json c blank ⟨c.files, .boot⟩ where
  untouched := ⟨rfl, fun _ _ _ => rfl⟩
  here := by
    refine .pending rfl ⟨?_, fun e => ?_⟩ (.incoming rfl rfl)
    · cases log : c.wal with
      | none => simp [Files.database, Setup.files, Setup.old, log]
      | some d => simp [Files.database, Setup.files, Setup.old, log]
    · cases e <;> simp [Setup.files]

/-- A swap's outcome in the files once the process has returned. -/
inductive Ended (json : List Cell → String) (c : Setup) (f : Files) : SwapResult → Prop
  | swapped (r : SwapResult) (named : r = .swapped ∨ r = .none) (d : Database)
      (from' : MergedFrom json c d) (place : f.database .db = some d)
      (archived : c.replacesCopy = false → f.database (.archive c.archive) = some c.old) :
      Ended json c f r
  | abandoned (r : SwapResult) (named : r = .abandoned ∨ r = .none)
      (place : f.database .db = some c.old) : Ended json c f r

/-- **The old database of a swap that does not replace a copy** is always whole, in
place or in the archive. -/
theorem Inv.old_kept {s : Process} (inv : Inv json c True s) (copy : c.replacesCopy = false) :
    s.files.database .db = some c.old ∨ s.files.database (.archive c.archive) = some c.old := by
  have archived : (c.replacesCopy = false → Archived c s.files) →
      s.files.database (.archive c.archive) = some c.old := fun archived =>
    database_of_image (archived copy).image (archived copy).settled
  cases inv.here.stage fun _ => id with
  | pending note place source => exact .inl place.old
  | merged note folded ready => exact .inl folded.old
  | cleared note cleared => exact .inr (archived cleared.archived)
  | replaced note replaced | swapped note replaced => exact .inr (archived replaced.archived)
  | abandoned note place => exact .inl place.old

/-- Without the empty database, a result is the merge. -/
theorem Result.merged {d : Database} (result : Result json c False d) : MergedFrom json c d := by
  rcases result with from' | ⟨no, -⟩
  · exact from'
  · exact no.elim

theorem Replaced.whole (replaced : Replaced json c False f) :
    ∃ d, MergedFrom json c d ∧ f.database .db = some d := by
  obtain ⟨d, result, here⟩ := replaced.result
  exact ⟨d, result.merged, database_of_image here replaced.settled⟩

/-- A copy that is replaced is whole until the merged database is, which then stays. -/
theorem Stage.whole (stage : Stage json c False f) :
    f.database .db = some c.old ∨ ∃ d, MergedFrom json c d ∧
      (f (.data .merged .main) = some (.image d) ∨ f.database .db = some d) := by
  cases stage with
  | pending note place source => exact .inl place.old
  | merged note folded ready => exact .inl folded.old
  | cleared note cleared =>
      obtain ⟨d, result, here⟩ := cleared.ready
      exact .inr ⟨d, result.merged, .inl here⟩
  | replaced note replaced | swapped note replaced =>
      obtain ⟨d, from', here⟩ := replaced.whole
      exact .inr ⟨d, from', .inr here⟩
  | abandoned note place => exact .inl place.old

/-- While a swap is being abandoned, the old database is in place. -/
theorem At.abandoning {pc : Pc} (here : At json c blank f pc) (giving : abandoning pc = true) :
    InPlace c f := by
  cases pc with
  | abandonMerged e => exact here.1.place
  | outcomeTmp o | outcome o | removeJournal o =>
      cases o with
      | swapped => cases giving
      | abandoned => exact here.1.place
  | _ => cases giving

theorem Inv.whole {s : Process} (inv : Inv json c False s) :
    s.files.database .db = some c.old ∨ ∃ d, MergedFrom json c d ∧
      (s.files (.data .merged .main) = some (.image d) ∨ s.files.database .db = some d) := by
  by_cases giving : Swap.abandoning s.pc = true
  · exact .inl (inv.here.abandoning giving).old
  · exact (inv.here.stage fun yes => absurd yes giving).whole

theorem Inv.ended {s : Process} {r : SwapResult} (inv : Inv json c False s)
    (returned : s.pc = .returned r) : Ended json c s.files r := by
  have here := inv.here
  rw [returned] at here
  have swapped : (r = .swapped ∨ r = .none) → Replaced json c False s.files →
      Ended json c s.files r := fun named replaced => by
    obtain ⟨d, from', place⟩ := replaced.whole
    exact .swapped r named d from' place fun copy =>
      database_of_image (replaced.archived copy).image (replaced.archived copy).settled
  cases r with
  | swapped => exact swapped (.inl rfl) here.2
  | abandoned => exact .abandoned _ (.inl rfl) here.2.old
  | none =>
      rcases here.2 with replaced | place
      · exact swapped (.inr rfl) replaced
      · exact .abandoned _ (.inr rfl) place.old
  | restored => exact here.elim

end Operations

/-! ## A pending restore -/

/-- What `prepareRestore` leaves: the copy in place, the archive, and the note. -/
structure RestoreSetup where
  base : Database
  wal : Option Database
  own : Database
  ownWal : Option Database
  archive : String

namespace RestoreSetup

variable (c : RestoreSetup)

def current : Database := c.wal.getD c.base
def archived : Database := c.ownWal.getD c.own
def note (merged : Bool) : RestoreNote := ⟨c.archive, merged⟩

def files : Files
  | .data .db .main => some (.image c.base)
  | .data .db .wal => some (.frames c.wal)
  | .data (.archive p) .main => if p = c.archive then some (.image c.own) else none
  | .data (.archive p) .wal => if p = c.archive then some (.frames c.ownWal) else none
  | .restore => some (.restore (c.note false))
  | _ => none

end RestoreSetup

section Restore

variable (c : RestoreSetup)

/-- The archive, with what the copy wrote folded in any number of times. -/
inductive FoldedInto : Database → Prop
  | kept : FoldedInto c.archived
  | again {d d' : Database} (before : FoldedInto d)
      (merged : mergeIntoArchive d c.current = some d') : FoldedInto d'

/-- Folded in at least once. -/
def Complete (d : Database) : Prop :=
  ∃ before, FoldedInto c before ∧ mergeIntoArchive before c.current = some d

/-- The copy is in place, and the archive is whole. -/
structure Waiting (f : Files) : Prop where
  place : f.database .db = some c.current
  archived : ∃ d, FoldedInto c d ∧ f.database (.archive c.archive) = some d

/-- The archive is ready to take the copy's place. -/
structure Marked (f : Files) : Prop where
  archived : ∃ d, Complete c d ∧ f (.data (.archive c.archive) .main) = some (.image d)
  settled : Settled f (.archive c.archive)

/-- The archive has taken the copy's place. -/
structure Moved (f : Files) : Prop where
  place : ∃ d, Complete c d ∧ f (.data .db .main) = some (.image d)
  settled : Settled f .db
  free : f (.data (.archive c.archive) .main) = none
  rest : Settled f (.archive c.archive)

/-- **What a boot can find** of a restore. -/
inductive RestoreStage (f : Files) : Prop
  | waiting (note : f .restore = some (.restore (c.note false))) (waiting : Waiting c f)
  | marked (note : f .restore = some (.restore (c.note true))) (marked : Marked c f)
  | moved (note : f .restore = some (.restore (c.note true))) (moved : Moved c f)
  | restored (note : f .restore = none) (moved : Moved c f)
  | abandoned (note : f .restore = none) (waiting : Waiting c f)

/-- The archive is marked ready, and the copy's files are going. -/
structure Clearing (f : Files) (e : Ext) : Prop where
  note : f .restore = some (.restore (c.note true))
  marked : Marked c f
  image : e ≠ .main → f (.data .db .main) = none
  log : e = .shm → f (.data .db .wal) = none

def RestoreAt (f : Files) : Pc → Prop
  | .boot => RestoreStage c f
  | .restoreMerge r => r = c.note false ∧ f .restore = some (.restore r) ∧ Waiting c f
  | .restoreClose r =>
      r = c.note false ∧ f .restore = some (.restore r) ∧ f.database .db = some c.current ∧
        ∃ d, Complete c d ∧ f.database (.archive c.archive) = some d
  | .restoreAbandon => f .restore = some (.restore (c.note false)) ∧ Waiting c f
  | .restoreTmp r =>
      r = c.note false ∧ f .restore = some (.restore r) ∧ f.database .db = some c.current ∧ Marked c f
  | .restoreMark r =>
      r = c.note false ∧ f .restore = some (.restore r) ∧ f.database .db = some c.current ∧
        Marked c f ∧ f .restoreTmp = some (.restore (c.note true))
  | .restoreClear r e => r.archive = c.archive ∧ Clearing c f e
  | .restoreMove r .main =>
      r.archive = c.archive ∧ Clearing c f .shm
  | .restoreMove r _ => r.archive = c.archive ∧ f .restore = some (.restore (c.note true)) ∧ Moved c f
  | .forgetOutcome | .removeRestore => f .restore = some (.restore (c.note true)) ∧ Moved c f
  | .returned .restored => f .restore = none ∧ Moved c f
  | .returned .abandoned => f .restore = none ∧ Waiting c f
  | .returned .none => f .restore = none ∧ (Moved c f ∨ Waiting c f)
  | _ => False

/-- No swap is pending beside the restore. -/
structure RestoreInv (s : Process) : Prop where
  journal : s.files .journal = none
  here : RestoreAt c s.files s.pc

end Restore

/-! ## One operation of a restore -/

section Restoring

variable {json : List Cell → String} {c : RestoreSetup} {f f' : Files}

/-- The copy and the archive are the same files in `f'` as in `f`. -/
def SameFiles (c : RestoreSetup) (f f' : Files) : Prop :=
  ∀ e, f' (.data .db e) = f (.data .db e) ∧
    f' (.data (.archive c.archive) e) = f (.data (.archive c.archive) e)

theorem database_congr {p : Place} (same : ∀ e, f' (.data p e) = f (.data p e)) :
    f'.database p = f.database p := by
  unfold Files.database
  rw [same, same]

theorem Waiting.congr (waiting : Waiting c f) (same : SameFiles c f f') : Waiting c f' := by
  obtain ⟨d, folded, archived⟩ := waiting.archived
  refine ⟨?_, d, folded, ?_⟩
  · rw [database_congr fun e => (same e).1, waiting.place]
  · rw [database_congr fun e => (same e).2, archived]

theorem Marked.congr (marked : Marked c f)
    (same : ∀ e, f' (.data (.archive c.archive) e) = f (.data (.archive c.archive) e)) :
    Marked c f' := by
  obtain ⟨d, complete, archived⟩ := marked.archived
  refine ⟨⟨d, complete, (same _).trans archived⟩, fun d => ?_⟩
  rw [same]
  exact marked.settled d

theorem Moved.congr (moved : Moved c f) (same : SameFiles c f f') : Moved c f' := by
  obtain ⟨d, complete, place⟩ := moved.place
  refine ⟨⟨d, complete, (same _).1.trans place⟩, fun d => ?_, (same _).2.trans moved.free, fun d => ?_⟩
  · rw [(same _).1]
    exact moved.settled d
  · rw [(same _).2]
    exact moved.rest d

theorem Complete.folded {d : Database} (complete : Complete c d) : FoldedInto c d := by
  obtain ⟨before, folded, merged⟩ := complete
  exact .again folded merged

theorem Marked.waiting (marked : Marked c f) (place : f.database .db = some c.current) :
    Waiting c f := by
  obtain ⟨d, complete, here⟩ := marked.archived
  exact ⟨place, d, complete.folded, database_of_image here marked.settled⟩

/-- `ATTACH` touches the files of its own database only. -/
theorem attach_apply {p : Place} {q : Path} (other : ∀ e, q ≠ .data p e) : f.attach p q = f q := by
  unfold Files.attach Files.openAt
  split_ifs <;> simp [other]

theorem attach_other {p q : Place} (other : q ≠ p) (e : Ext) :
    f.attach p (.data q e) = f (.data q e) :=
  attach_apply fun _ same => other (Path.data.inj same).1

theorem attach_database {p : Place} {d : Database} (read : f.database p = some d) :
    (f.attach p).database p = some d := by
  have main : f.attach p (.data p .main) = f (.data p .main) := by
    unfold Files.attach
    rw [openAt_of_database read]
    split_ifs <;> simp
  unfold Files.database at read ⊢
  rw [main]
  have log : f.attach p (.data p .wal) = f (.data p .wal) ∨
      f (.data p .wal) = none ∧ f.attach p (.data p .wal) = some (.frames none) := by
    unfold Files.attach
    rw [openAt_of_database (f := f) (p := p) (d := d) (by unfold Files.database; exact read)]
    cases here : f (.data p .wal) with
    | none => exact .inr ⟨rfl, by simp⟩
    | some content => exact .inl (by simp [here])
  rcases log with same | ⟨none', made⟩
  · rw [same]
    exact read
  · rw [made]
    rw [none'] at read
    cases image : f (.data p .main) with
    | none => rw [image] at read; cases read
    | some content =>
        rw [image] at read
        cases content with
        | image d' => exact read
        | _ => cases read

theorem close_other {p q : Place} (other : q ≠ p) (e : Ext) :
    f.close p (.data q e) = f (.data q e) := by
  simp [Files.close, Files.rm, Files.checkpoint, other]

theorem close_image {p : Place} {d : Database} (read : f.database p = some d) :
    f.close p (.data p .main) = some (.image d) := by
  simp [Files.close, Files.rm, Files.checkpoint, read]

theorem close_settled (p : Place) : Settled (f.close p) p := by
  intro d
  simp [Files.close, Files.rm]

/-- Both files are closed: each image holds what was read. -/
theorem restoreClose_spec {d : Database} (place : f.database .db = some c.current)
    (archived : f.database (.archive c.archive) = some d) :
    ((f.close .db).close (.archive c.archive)).database .db = some c.current ∧
      (f.close .db).close (.archive c.archive) (.data (.archive c.archive) .main) =
        some (.image d) ∧
      Settled ((f.close .db).close (.archive c.archive)) (.archive c.archive) := by
  have still : (f.close .db).database (.archive c.archive) = some d := by
    rw [database_congr fun e => close_other (by simp) e, archived]
  refine ⟨?_, close_image still, close_settled _⟩
  rw [database_congr fun e => close_other (by simp) e]
  exact database_of_image (close_image place) (close_settled _)

/-- The fold is one transaction, committed to the archive's log. -/
theorem restoreMerge_spec {d d' : Database} (place : f.database .db = some c.current)
    (archived : f.database (.archive c.archive) = some d) :
    let f' := ((f.attach .db).attach (.archive c.archive)).set
      (.data (.archive c.archive) .wal) (some (.frames (some d')))
    f'.database .db = some c.current ∧ f'.database (.archive c.archive) = some d' := by
  have first : (f.attach .db).database .db = some c.current := attach_database place
  have second : ((f.attach .db).attach (.archive c.archive)).database .db = some c.current := by
    rw [database_congr fun e => attach_other (by simp) e, first]
  have there : (f.attach .db).database (.archive c.archive) = some d := by
    rw [database_congr fun e => attach_other (by simp) e, archived]
  have third := attach_database there
  refine ⟨?_, ?_⟩
  · rw [← second]
    exact database_congr fun e => by simp
  · unfold Files.database at third ⊢
    simp only [Files.set_apply, reduceCtorEq, Path.data.injEq, and_false, if_false, if_true]
    cases image : (f.attach .db).attach (.archive c.archive) (.data (.archive c.archive) .main) with
    | none => rw [image] at third; cases third
    | some content =>
        rw [image] at third
        cases content with
        | image d => rfl
        | _ => cases third

/-- What a restore's boot finds leads on. -/
theorem booting_restore (inv : f .journal = none) (stage : RestoreStage c f) :
    RestoreAt c f (booting f) := by
  have none' : f .restore = none → booting f = .returned .none := fun gone => by
    simp [booting, gone, inv]
  cases stage with
  | waiting note waiting =>
      obtain ⟨d, folded, archived⟩ := waiting.archived
      have there : f.existsSync (.archive c.archive) = true := by
        unfold Files.database at archived
        cases image : f (.data (.archive c.archive) .main) with
        | none => rw [image] at archived; cases archived
        | some content => simp [Files.existsSync, image]
      have at' : booting f = .restoreMerge (c.note false) := by
        unfold booting restoring
        rw [note]
        simp [RestoreSetup.note, there]
      rw [at']
      exact ⟨rfl, note, waiting⟩
  | marked note marked =>
      obtain ⟨d, complete, archived⟩ := marked.archived
      have at' : booting f = .restoreClear (c.note true) .main := by
        unfold booting restoring
        rw [note]
        simp [RestoreSetup.note, Files.existsSync, archived]
      rw [at']
      exact ⟨rfl, note, marked, fun no => absurd rfl no, fun no => nomatch no⟩
  | moved note moved =>
      have at' : booting f = .forgetOutcome := by
        unfold booting restoring
        rw [note]
        simp [RestoreSetup.note, Files.existsSync, moved.free]
      rw [at']
      exact ⟨note, moved⟩
  | restored note moved =>
      rw [none' note]
      exact ⟨note, .inl moved⟩
  | abandoned note waiting =>
      rw [none' note]
      exact ⟨note, .inr waiting⟩

theorem RestoreAt.stage {pc : Pc} (here : RestoreAt c f pc) : RestoreStage c f := by
  cases pc with
  | boot => exact here
  | restoreMerge r =>
      obtain ⟨rfl, note, waiting⟩ := here
      exact .waiting note waiting
  | restoreClose r =>
      obtain ⟨rfl, note, place, d, complete, archived⟩ := here
      exact .waiting note ⟨place, d, complete.folded, archived⟩
  | restoreAbandon => exact .waiting here.1 here.2
  | restoreTmp r =>
      obtain ⟨rfl, note, place, marked⟩ := here
      exact .waiting note (marked.waiting place)
  | restoreMark r =>
      obtain ⟨rfl, note, place, marked, -⟩ := here
      exact .waiting note (marked.waiting place)
  | restoreClear r e => exact .marked here.2.note here.2.marked
  | restoreMove r e =>
      cases e with
      | main => exact .marked here.2.note here.2.marked
      | wal | shm => exact .moved here.2.1 here.2.2
  | forgetOutcome | removeRestore => exact .moved here.1 here.2
  | returned r =>
      cases r with
      | restored => exact .restored here.1 here.2
      | abandoned => exact .abandoned here.1 here.2
      | none =>
          rcases here.2 with moved | waiting
          · exact .restored here.1 moved
          · exact .abandoned here.1 waiting
      | swapped => exact here.elim
  | openOld j | checkpointOld j | closeOld j | takeIncoming j | openMerged j | attachOld j
  | merge j | detachOld j | journalTmp j | journal j | clear j e | archive j e | replace
  | abandonIncoming | abandonMerged e | outcomeTmp o | outcome o | removeJournal o =>
      exact here.elim

/-- A file of the copy goes, the image first. -/
theorem restoreClear_at {r : RestoreNote} {e : Ext} {pc : Pc} (own : r.archive = c.archive)
    (clearing : Clearing c f e) {now : String}
    (ran : next json f now (.restoreClear r e) = some (f', pc)) : RestoreAt c f' pc := by
  have kept : ∀ e, Marked c (f.rm (.data .db e)) := fun e =>
    clearing.marked.congr fun e => by simp [Files.rm]
  have note : ∀ e, f.rm (.data .db e) .restore = some (.restore (c.note true)) := fun e => by
    simp [Files.rm, clearing.note]
  cases e with
  | main =>
      obtain ⟨rfl, rfl⟩ := Prod.mk.inj (Option.some.inj ran)
      exact ⟨own, note _, kept _, fun _ => by simp [Files.rm], fun no => nomatch no⟩
  | wal =>
      obtain ⟨rfl, rfl⟩ := Prod.mk.inj (Option.some.inj ran)
      have image := clearing.image (by simp)
      exact ⟨own, note _, kept _, fun _ => by simp [Files.rm, image], fun _ => by simp [Files.rm]⟩
  | shm =>
      obtain ⟨rfl, rfl⟩ := Prod.mk.inj (Option.some.inj ran)
      have image := clearing.image (by simp)
      have log := clearing.log rfl
      exact ⟨own, note _, kept _, fun _ => by simp [Files.rm, image], fun _ => by simp [Files.rm, log]⟩

/-- The archive takes the place of the copy, image first; what follows is empty. -/
theorem restoreMove_at {r : RestoreNote} {e : Ext} {pc : Pc} {now : String}
    (here : RestoreAt c f (.restoreMove r e))
    (ran : next json f now (.restoreMove r e) = some (f', pc)) : RestoreAt c f' pc := by
  cases e with
  | main =>
      obtain ⟨own, clearing⟩ := here
      obtain ⟨rfl, rfl⟩ := Prod.mk.inj (Option.some.inj ran)
      obtain ⟨d, complete, archived⟩ := clearing.marked.archived
      have moved : f.moveIfThere (.data (.archive r.archive) .main) (.data .db .main) =
          f.rename (.data (.archive c.archive) .main) (.data .db .main) := by
        simp [Files.moveIfThere, own, archived]
      rw [moved]
      refine ⟨own, by simp [Files.rename, Files.rm, clearing.note], ⟨d, complete, ?_⟩, fun d => ?_, ?_,
        fun d => ?_⟩
      · simp [Files.rename, Files.rm, archived]
      · simp [Files.rename, Files.rm, clearing.log rfl]
      · simp [Files.rename, Files.rm]
      · simpa [Files.rename, Files.rm] using clearing.marked.settled d
  | wal =>
      obtain ⟨own, note, moved⟩ := here
      obtain ⟨rfl, rfl⟩ := Prod.mk.inj (Option.some.inj ran)
      obtain ⟨d, complete, place⟩ := moved.place
      rw [own]
      unfold Files.moveIfThere
      split
      · refine ⟨own, by simp [Files.rename, Files.rm, note], ⟨d, complete, ?_⟩, fun d => ?_, ?_,
          fun d => ?_⟩
        · simp [Files.rename, Files.rm, place]
        · simpa [Files.rename, Files.rm] using moved.rest d
        · simp [Files.rename, Files.rm, moved.free]
        · simp [Files.rename, Files.rm]
      · exact ⟨own, note, moved⟩
  | shm =>
      obtain ⟨own, note, moved⟩ := here
      obtain ⟨rfl, rfl⟩ := Prod.mk.inj (Option.some.inj ran)
      obtain ⟨d, complete, place⟩ := moved.place
      rw [own]
      unfold Files.moveIfThere
      split
      · refine ⟨by simp [Files.rename, Files.rm, note], ⟨d, complete, ?_⟩, fun d => ?_, ?_,
          fun d => ?_⟩
        · simp [Files.rename, Files.rm, place]
        · simpa [Files.rename, Files.rm] using moved.settled d
        · simp [Files.rename, Files.rm, moved.free]
        · simpa [Files.rename, Files.rm] using moved.rest d
      · exact ⟨note, moved⟩

/-- **One step of a restore.** -/
theorem RestoreAt.next {now : String} {pc pc' : Pc} (journal : f .journal = none)
    (here : RestoreAt c f pc) (ran : next json f now pc = some (f', pc')) :
    RestoreAt c f' pc' := by
  cases pc with
  | boot =>
      obtain ⟨rfl, rfl⟩ := Prod.mk.inj (Option.some.inj ran)
      exact booting_restore journal here
  | restoreMerge r =>
      obtain ⟨rfl, note, waiting⟩ := here
      obtain ⟨d, folded, archived⟩ := waiting.archived
      have read : f.database (.archive (c.note false).archive) = some d := archived
      simp only [Swap.next, read, waiting.place] at ran
      cases merged : mergeIntoArchive d c.current with
      | none =>
          rw [merged] at ran
          obtain ⟨rfl, rfl⟩ := Prod.mk.inj (Option.some.inj ran)
          exact ⟨note, waiting⟩
      | some d' =>
          rw [merged] at ran
          obtain ⟨rfl, rfl⟩ := Prod.mk.inj (Option.some.inj ran)
          obtain ⟨place, archived⟩ := @restoreMerge_spec c f d d' waiting.place archived
          refine ⟨rfl, ?_, place, d', ⟨d, folded, merged⟩, archived⟩
          show Files.set _ _ _ _ = _
          rw [Files.set_apply, if_neg (by simp), attach_apply (by simp), attach_apply (by simp), note]
  | restoreClose r =>
      obtain ⟨rfl, rfl⟩ := Prod.mk.inj (Option.some.inj ran)
      obtain ⟨rfl, note, place, d, complete, archived⟩ := here
      obtain ⟨place, image, settled⟩ := restoreClose_spec place archived
      refine ⟨rfl, ?_, place, ⟨d, complete, image⟩, settled⟩
      simpa [Files.close, Files.rm, Files.checkpoint] using note
  | restoreAbandon =>
      obtain ⟨rfl, rfl⟩ := Prod.mk.inj (Option.some.inj ran)
      exact ⟨by simp [Files.rm], here.2.congr fun e => ⟨by simp [Files.rm], by simp [Files.rm]⟩⟩
  | restoreTmp r =>
      obtain ⟨rfl, rfl⟩ := Prod.mk.inj (Option.some.inj ran)
      obtain ⟨rfl, note, place, marked⟩ := here
      refine ⟨rfl, by simpa using note, ?_, marked.congr fun e => by simp, by simp [RestoreSetup.note]⟩
      rw [← place]
      exact database_congr fun e => by simp
  | restoreMark r =>
      obtain ⟨rfl, rfl⟩ := Prod.mk.inj (Option.some.inj ran)
      obtain ⟨rfl, note, place, marked, written⟩ := here
      refine ⟨rfl, by simp [Files.rename, Files.rm, written], marked.congr fun e => ?_,
        fun no => absurd rfl no, fun no => nomatch no⟩
      simp [Files.rename, Files.rm]
  | restoreClear r e => exact restoreClear_at here.1 here.2 ran
  | restoreMove r e => exact restoreMove_at here ran
  | forgetOutcome =>
      obtain ⟨rfl, rfl⟩ := Prod.mk.inj (Option.some.inj ran)
      exact ⟨by simpa [Files.rm] using here.1,
        here.2.congr fun e => ⟨by simp [Files.rm], by simp [Files.rm]⟩⟩
  | removeRestore =>
      obtain ⟨rfl, rfl⟩ := Prod.mk.inj (Option.some.inj ran)
      exact ⟨by simp [Files.rm], here.2.congr fun e => ⟨by simp [Files.rm], by simp [Files.rm]⟩⟩
  | returned r => cases ran
  | openOld j | checkpointOld j | closeOld j | takeIncoming j | openMerged j | attachOld j
  | merge j | detachOld j | journalTmp j | journal j | clear j e | archive j e | replace
  | abandonIncoming | abandonMerged e | outcomeTmp o | outcome o | removeJournal o =>
      exact here.elim

/-- A restore never writes the swap's journal. -/
theorem restore_journal {now : String} {pc pc' : Pc} (journal : f .journal = none)
    (here : RestoreAt c f pc) (ran : next json f now pc = some (f', pc')) : f' .journal = none := by
  cases pc with
  | boot =>
      obtain ⟨rfl, rfl⟩ := Prod.mk.inj (Option.some.inj ran)
      exact journal
  | restoreMerge r =>
      simp only [Swap.next] at ran
      split at ran
      · split at ran
        · obtain ⟨rfl, rfl⟩ := Prod.mk.inj (Option.some.inj ran)
          rw [Files.set_apply, if_neg (by simp), attach_apply (by simp), attach_apply (by simp),
            journal]
        · obtain ⟨rfl, rfl⟩ := Prod.mk.inj (Option.some.inj ran)
          exact journal
      · obtain ⟨rfl, rfl⟩ := Prod.mk.inj (Option.some.inj ran)
        exact journal
  | restoreClose r =>
      obtain ⟨rfl, rfl⟩ := Prod.mk.inj (Option.some.inj ran)
      simpa [Files.close, Files.rm, Files.checkpoint] using journal
  | restoreTmp r =>
      obtain ⟨rfl, rfl⟩ := Prod.mk.inj (Option.some.inj ran)
      simpa using journal
  | restoreMark r =>
      obtain ⟨rfl, rfl⟩ := Prod.mk.inj (Option.some.inj ran)
      simpa [Files.rename, Files.rm] using journal
  | restoreAbandon | forgetOutcome | removeRestore =>
      obtain ⟨rfl, rfl⟩ := Prod.mk.inj (Option.some.inj ran)
      simpa [Files.rm] using journal
  | restoreClear r e =>
      cases e with
      | main | wal | shm =>
          obtain ⟨rfl, rfl⟩ := Prod.mk.inj (Option.some.inj ran)
          simpa [Files.rm] using journal
  | restoreMove r e =>
      have kept : ∀ e, f.moveIfThere (.data (.archive r.archive) e) (.data .db e) .journal = none := by
        intro e
        unfold Files.moveIfThere Files.rename Files.rm
        split <;> simp [journal]
      cases e with
      | main | wal | shm =>
          obtain ⟨rfl, rfl⟩ := Prod.mk.inj (Option.some.inj ran)
          exact kept _
  | returned r => cases ran
  | openOld j | checkpointOld j | closeOld j | takeIncoming j | openMerged j | attachOld j
  | merge j | detachOld j | journalTmp j | journal j | clear j e | archive j e | replace
  | abandonIncoming | abandonMerged e | outcomeTmp o | outcome o | removeJournal o =>
      exact here.elim

theorem RestoreInv.thrown {pc pc' : Pc} (inv : RestoreInv c ⟨f, pc⟩)
    (ran : thrown f pc = some (f', pc')) : RestoreInv c ⟨f', pc'⟩ := by
  obtain ⟨journal, here⟩ := inv
  cases pc with
  | restoreMerge r =>
      obtain ⟨rfl, rfl⟩ := Prod.mk.inj (Option.some.inj ran)
      obtain ⟨rfl, note, waiting⟩ := here
      exact ⟨journal, note, waiting⟩
  | restoreClose r =>
      obtain ⟨rfl, rfl⟩ := Prod.mk.inj (Option.some.inj ran)
      obtain ⟨rfl, note, place, d, complete, archived⟩ := here
      obtain ⟨place, image, settled⟩ := restoreClose_spec place archived
      have marked : Marked c ((f.close .db).close (.archive c.archive)) :=
        ⟨⟨d, complete, image⟩, settled⟩
      refine ⟨?_, ?_, marked.waiting place⟩
      · simpa [Files.close, Files.rm, Files.checkpoint] using journal
      · simpa [Files.close, Files.rm, Files.checkpoint] using note
  | returned r => cases ran
  | openOld j | checkpointOld j | closeOld j | takeIncoming j | openMerged j | attachOld j
  | merge j | detachOld j | abandonIncoming | abandonMerged e => exact here.elim
  | _ =>
      obtain ⟨rfl, rfl⟩ := Prod.mk.inj (Option.some.inj ran)
      exact ⟨journal, here.stage⟩

theorem RestoreInv.step {s s' : Process} {a : Act} (inv : RestoreInv c s)
    (stepped : step json s a = some s') : RestoreInv c s' := by
  cases a with
  | next now =>
      obtain ⟨⟨f', pc'⟩, ran, rfl⟩ := Option.map_eq_some_iff.1 stepped
      exact ⟨restore_journal inv.journal inv.here ran, inv.here.next inv.journal ran⟩
  | fail =>
      obtain ⟨⟨f', pc'⟩, ran, rfl⟩ := Option.map_eq_some_iff.1 stepped
      exact inv.thrown ran
  | crash =>
      obtain rfl := Option.some.inj stepped
      exact ⟨inv.journal, inv.here.stage⟩

theorem restoreInv_start (c : RestoreSetup) : RestoreInv c ⟨c.files, .boot⟩ where
  journal := rfl
  here := by
    refine .waiting rfl ⟨?_, c.archived, .kept, ?_⟩
    · cases log : c.wal <;> simp [Files.database, RestoreSetup.files, RestoreSetup.current, log]
    · cases log : c.ownWal <;> simp [Files.database, RestoreSetup.files, RestoreSetup.archived, log]

/-- A restore's outcome in the files once the process has returned. -/
inductive RestoreEnded (c : RestoreSetup) (f : Files) : SwapResult → Prop
  | restored (r : SwapResult) (named : r = .restored ∨ r = .none) (d : Database)
      (complete : Complete c d) (place : f.database .db = some d) : RestoreEnded c f r
  | abandoned (r : SwapResult) (named : r = .abandoned ∨ r = .none)
      (place : f.database .db = some c.current) (d : Database) (folded : FoldedInto c d)
      (archived : f.database (.archive c.archive) = some d) : RestoreEnded c f r

/-- **The archive is always whole**, at its own path or in place. -/
theorem RestoreInv.archive_kept {s : Process} (inv : RestoreInv c s) :
    ∃ d, FoldedInto c d ∧
      (s.files.database (.archive c.archive) = some d ∨ s.files.database .db = some d) := by
  cases inv.here.stage with
  | waiting note waiting | abandoned note waiting =>
      obtain ⟨d, folded, archived⟩ := waiting.archived
      exact ⟨d, folded, .inl archived⟩
  | marked note marked =>
      obtain ⟨d, complete, archived⟩ := marked.archived
      exact ⟨d, complete.folded, .inl (database_of_image archived marked.settled)⟩
  | moved note moved | restored note moved =>
      obtain ⟨d, complete, place⟩ := moved.place
      exact ⟨d, complete.folded, .inr (database_of_image place moved.settled)⟩

theorem RestoreInv.ended {s : Process} {r : SwapResult} (inv : RestoreInv c s)
    (returned : s.pc = .returned r) : RestoreEnded c s.files r := by
  have here := inv.here
  rw [returned] at here
  have restored : (r = .restored ∨ r = .none) → Moved c s.files → RestoreEnded c s.files r :=
    fun named moved => by
      obtain ⟨d, complete, place⟩ := moved.place
      exact .restored r named d complete (database_of_image place moved.settled)
  have abandoned : (r = .abandoned ∨ r = .none) → Waiting c s.files → RestoreEnded c s.files r :=
    fun named waiting => by
      obtain ⟨d, folded, archived⟩ := waiting.archived
      exact .abandoned r named waiting.place d folded archived
  cases r with
  | restored => exact restored (.inl rfl) here.2
  | abandoned => exact abandoned (.inl rfl) here.2
  | none =>
      rcases here.2 with moved | waiting
      · exact restored (.inr rfl) moved
      · exact abandoned (.inr rfl) waiting
  | swapped => exact here.elim

end Restoring

/-! ## The whole boot -/

/-- The local rows of the old file, each once in the merged one. -/
structure KeepsLocal (sent : SnapshotMeta) (old d : Database) : Prop where
  plain : ∀ t ∈ old.tables.rows, t.kind = .plain → copied sent t.name = false →
    t.name ∉ rewrittenTables → d.tables.find t.name = some t
  shadow : ∀ t ∈ old.tables.rows, t.kind = .shadow → copied sent t.name = false →
    t.name ∉ rewrittenTables → ∃ t', d.tables.find t.name = some t' ∧ t'.rows = t.rows
  retained : ∀ t ∈ old.tables.rows, t.kind = .plain → copied sent t.name = false →
    t.name = "sync_retained" → ∃ t', d.tables.find t.name = some t' ∧ Extends t.rows t'.rows

theorem MergedFrom.keepsLocal {json : List Cell → String} {c : Setup} {d : Database}
    (from' : MergedFrom json c d) : KeepsLocal c.sent c.old d := by
  obtain ⟨now, merged⟩ := from'
  constructor
  · intro t mem plain own kept
    exact mergeLocalTables_local c.carries merged mem plain own kept
  · intro t mem shadow own kept
    exact mergeLocalTables_shadow c.carries merged mem shadow own kept
  · intro t mem plain own named
    exact mergeLocalTables_retained c.carries merged mem plain own named

/-- The tables of the archive that a restore leaves alone. -/
def KeepsOwn (c : RestoreSetup) (d : Database) : Prop :=
  ∀ name x, carries c.current name = false → name ≠ "sync_state" ∧ name ≠ "accounts" →
    c.archived.tables.find name = some x → d.tables.find name = some x

theorem FoldedInto.keepsOwn {c : RestoreSetup} {d : Database} (folded : FoldedInto c d) :
    KeepsOwn c d := by
  intro name x own kept found
  induction folded with
  | kept => exact found
  | again before merged ih => exact mergeIntoArchive_own merged own kept ih

/-- The copy's rows in the tables a restore carries. -/
def CarriesCopy (c : RestoreSetup) (d : Database) : Prop :=
  ∀ t ∈ carriedTables c.current, t.kind = .plain →
    ∃ mine : TableFile, d.tables.find t.name = some { mine with rows := carriedRows mine t }

theorem Complete.carriesCopy {c : RestoreSetup} {d : Database} (complete : Complete c d) :
    CarriesCopy c d := by
  obtain ⟨before, -, merged⟩ := complete
  exact fun t mem plain => mergeIntoArchive_carried merged mem plain

theorem Inv.older_kept {json : List Cell → String} {c : Setup} {blank : Prop} {s : Process}
    (inv : Inv json c blank s) {p : String} (other : p ≠ c.archive) :
    s.files.database (.archive p) = c.older p := by
  rw [database_congr fun e => inv.untouched.older p other e]
  unfold Files.database Setup.files
  dsimp only
  rw [if_neg other]
  cases c.older p <;> rfl

/-- **The store swap under crashes.**  A swap: other archives are never touched; the
old database, unless it is a copy, is whole in place or in the archive after every
operation; in a run that is spared a stop between the snapshot's removal and the
journal's, the old database or the merged one is whole throughout, and a boot that
returns leaves the merged one in place with the old one archived, or the old one in
place; the merged one holds every local row once.  A restore: the archive is whole
throughout, at its path or in place, with its own tables as they were, and a boot
that returns leaves it in place with the copy's rows, or the copy in place. -/
theorem swap_crash_safe (json : List Cell → String) :
    (∀ (c : Setup) (acts : List Act) (s : Process),
      runSteps (step json) ⟨c.files, .boot⟩ acts = some s →
      (∀ p, p ≠ c.archive → s.files.database (.archive p) = c.older p) ∧
      (c.replacesCopy = false → s.files.database .db = some c.old ∨
        s.files.database (.archive c.archive) = some c.old) ∧
      (Along (step json) Spares ⟨c.files, .boot⟩ acts →
        (s.files.database .db = some c.old ∨ ∃ d, MergedFrom json c d ∧
          (s.files (.data .merged .main) = some (.image d) ∨ s.files.database .db = some d)) ∧
        ∀ r, s.pc = .returned r → Ended json c s.files r)) ∧
    (∀ (c : Setup) (d : Database), MergedFrom json c d → KeepsLocal c.sent c.old d) ∧
    (∀ (c : RestoreSetup) (acts : List Act) (s : Process),
      runSteps (step json) ⟨c.files, .boot⟩ acts = some s →
      (∃ d, FoldedInto c d ∧
        (s.files.database (.archive c.archive) = some d ∨ s.files.database .db = some d)) ∧
      ∀ r, s.pc = .returned r → RestoreEnded c s.files r) ∧
    ∀ (c : RestoreSetup) (d : Database),
      (FoldedInto c d → KeepsOwn c d) ∧ (Complete c d → CarriesCopy c d) := by
  refine ⟨fun c acts s ran => ?_, fun c d => MergedFrom.keepsLocal, fun c acts s ran => ?_,
    fun c d => ⟨FoldedInto.keepsOwn, Complete.carriesCopy⟩⟩
  · have always : Inv json c True s :=
      run_invariant (fun _ _ _ inv stepped => inv.step (.inl trivial) stepped) (inv_start c) ran
    refine ⟨fun p other => always.older_kept other, always.old_kept, fun spared => ?_⟩
    have whole : Inv json c False s :=
      run_keeps (fun _ _ _ inv spares stepped => inv.step (.inr spares) stepped) (inv_start c)
        spared ran
    exact ⟨whole.whole, fun r returned => whole.ended returned⟩
  · have inv : RestoreInv c s :=
      run_invariant (fun _ _ _ inv stepped => inv.step stepped) (restoreInv_start c) ran
    exact ⟨inv.archive_kept, fun r returned => inv.ended returned⟩

/-! ## Two small swaps -/

def plainTable (name : String) (rows : List Row) : TableFile := ⟨name, .plain, [], rows⟩

def databaseOf (tables : List TableFile) (sent : Option SnapshotMeta) : Database :=
  ⟨tables.foldl Table.put .empty, [], [], [], sent⟩

/-- A device with one login joins a leader with one document. -/
def joining (replacesCopy : Bool) : Setup where
  base := databaseOf [plainTable "changes" [], plainTable "sync_state" [[("role", .text "normal")]],
    plainTable "vault" [[("account_id", .text "mine")]]] none
  wal := none
  snapshot := databaseOf [plainTable "documents" [[("id", .text "d1"), ("seq", .int 4)]]]
    (some ⟨4, 2, none, 1, ["documents"]⟩)
  sent := ⟨4, 2, none, 1, ["documents"]⟩
  carries := rfl
  masterDeviceId := "seed"
  replacesCopy := replacesCopy
  archive := "archive-1"
  older := fun _ => none

/-- **A copy that is copied again is deleted, not archived**: between its removal and
the rename of the merged file there is no database at either path. -/
theorem replaced_copy_is_deleted : ∃ (acts : List Act) (s : Process),
    runSteps (step fun _ => "") ⟨(joining true).files, .boot⟩ acts = some s ∧
      s.files.database .db = none ∧ s.files.database (.archive (joining true).archive) = none :=
  ⟨List.replicate 12 (.next ""), _, rfl, rfl, rfl⟩

/-- A crash after the merge's commit, one between the renames, and a boot that ends
the swap. -/
def twiceInterrupted : List Act :=
  List.replicate 8 (.next "") ++ [.crash] ++ List.replicate 10 (.next "") ++ [.crash] ++
    List.replicate 5 (.next "")

theorem swap_crash_safe_twiceInterrupted : ∃ s,
    runSteps (step fun _ => "") ⟨(joining false).files, .boot⟩ twiceInterrupted = some s ∧
      s.pc = .returned .swapped ∧ Ended (fun _ => "") (joining false) s.files .swapped :=
  ⟨_, rfl, rfl, ((((swap_crash_safe fun _ => "").1 (joining false) twiceInterrupted _ rfl).2.2
    (by decide +kernel)).2 _ rfl)⟩

end Kiagent.Sync.Swap
