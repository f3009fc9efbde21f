/-
# Platform.ScopedFiles -- a file is written or moved as a whole

An atomic write fills a temporary file and then gives it the name of the destination; a move
copies the source to a new file and then removes the source.  Any of the calls may fail.
After a failure a write leaves the destination as it was, and a move both files
(`allOrNothing_iff`), but for one call: where the destination must not exist yet, the
temporary file is linked to it and then unlinked, and if this fails, the write rejects though
the destination is there (`linked_but_rejected`).
-/
import Kiagent.Platform.FileTree

namespace Kiagent.Platform

open Theory

set_option autoImplicit false

/-! ## What both do first -/

/-- An approved root, with the directory it was. -/
structure FileRoot where
  path : Path
  dev : Nat
  ino : Nat
  writable : Bool

/-- Where a reference leads. -/
structure Resolved where
  root : FileRoot
  path : Path

def MAX_BYTES : Nat := 16 * 1024 * 1024

/-- `0o600` -/
def DEFAULT_NEW_FILE_MODE : Nat := 384

/-- How much is copied at a time. -/
def BUFFER : Nat := 1024 * 1024

def ancestors : Path → List String → Files Unit
  | _, [] => pure ()
  | current, segment :: rest => do
      let missing ← tryCatch (do
          let st ← Fsp.lstat (current ++ [segment])
          Async.require (st.kind = .directory) "symlink or non-directory ancestor"
          pure false)
        fun message => if message = ENOENT then pure true else throw message
      if missing then pure () else ancestors (current ++ [segment]) rest

def ensureAncestors (root : FileRoot) (target : Path) : Files Unit := do
  Async.require (root.path <+: target) "path escapes file root"
  let rootStat ← Fsp.lstat root.path
  Async.require (rootStat.kind = .directory) "approved root changed"
  Async.require (rootStat.dev = root.dev ∧ rootStat.ino = root.ino)
    "approved root identity changed"
  ancestors root.path (target.drop root.path.length)

def requireWritable (root : FileRoot) : Files Unit :=
  Async.require (root.writable = true) "file root is read-only"

def validateMode (mode : Option Int) : Files (Option Nat) :=
  match mode with
  | none => pure none
  | some m =>
      if m < 0 ∨ m > 511 then throw "file mode must be an integer from 0 through 0o777"
      else pure (some m.toNat)

/-- Each write that moves shortens what is left. -/
def writeAll (file : Handle) : Nat → FileBytes → Files Unit
  | 0, _ => pure ()
  | fuel + 1, data =>
      if data.length = 0 then pure ()
      else do
        let written ← Fsp.write file data
        Async.require (0 < written) "file write made no progress"
        writeAll file fuel (data.drop written)

/-! ## Writing -/

/-- `file` and `published` of the source are known where an error is caught: after the file
was opened, and again after it was closed. -/
def writeAtomic (resolved : Resolved) (temporary : Path) (targetMode : Nat) (data : FileBytes)
    (ifAbsent : Bool) : Files Unit := do
  let discard := (Fsp.unlink temporary).quietly
  let file ← (Fsp.openNew temporary targetMode).onError discard
  (do
    writeAll file data.length data
    Fsp.sync file
    Fsp.chmod file targetMode
    Fsp.close file : Files Unit).onError (do
      (Fsp.close file).quietly
      discard)
  (do
    ensureAncestors resolved.root resolved.path.dropLast
    if ifAbsent then
      Fsp.link temporary resolved.path
      Fsp.unlink temporary
    else Fsp.rename temporary resolved.path : Files Unit).onError discard

def writeInPlace (resolved : Resolved) (requestedMode : Option Nat) (data : FileBytes)
    (ifAbsent : Bool) : Files Unit := do
  let mode := requestedMode.getD DEFAULT_NEW_FILE_MODE
  let file ← if ifAbsent then Fsp.openNew resolved.path mode
    else Fsp.openEmpty resolved.path mode
  (do
    writeAll file data.length data
    match requestedMode with
    | some mode => Fsp.chmod file mode
    | none => pure ()
    Fsp.sync file : Files Unit).onError (Fsp.close file)
  Fsp.close file

structure WriteOptions where
  ifAbsent : Bool
  atomic : Bool
  mode : Option Int

/-- Next to the destination, with the incarnation and a random id in its name. -/
def temporaryPath (path : Path) (nonce : String) : Path :=
  path.dropLast ++ ["." ++ path.getLastD "" ++ "." ++ nonce ++ ".tmp"]

/-- A reference is resolved without a change, or not at all. -/
def resolve (resolved : Except String Resolved) : Files Resolved :=
  match resolved with
  | .ok r => pure r
  | .error message => throw message

def write (ref : Except String Resolved) (data : FileBytes) (options : WriteOptions)
    (nonce : String) : Files Unit := do
  Async.require (data.length ≤ MAX_BYTES) "write exceeds 16 MiB limit"
  let requestedMode ← validateMode options.mode
  let resolved ← resolve ref
  requireWritable resolved.root
  ensureAncestors resolved.root resolved.path.dropLast
  let existingMode ← tryCatch (do
      let destination ← Fsp.lstat resolved.path
      Async.require (destination.kind ≠ .symlink) "symlink targets are not allowed"
      pure (some (destination.mode % 512)))
    fun message => if message = ENOENT then pure none else throw message
  if options.atomic then
    writeAtomic resolved (temporaryPath resolved.path nonce)
      ((requestedMode.or existingMode).getD DEFAULT_NEW_FILE_MODE) data options.ifAbsent
  else writeInPlace resolved requestedMode data options.ifAbsent

/-! ## Moving -/

/-- As long as something is read; what was copied so far goes into the digest. -/
def copyAll (input output : Handle) : Nat → FileBytes → Files FileBytes
  | 0, copied => pure copied
  | fuel + 1, copied => do
      let chunk ← Fsp.read input copied.length BUFFER
      if chunk.length = 0 then pure copied
      else
        writeAll output chunk.length chunk
        copyAll input output fuel (copied ++ chunk)

def readAllOf (file : Handle) : Nat → FileBytes → Files FileBytes
  | 0, seen => pure seen
  | fuel + 1, seen => do
      let chunk ← Fsp.read file seen.length BUFFER
      if chunk.length = 0 then pure seen else readAllOf file fuel (seen ++ chunk)

/-- What a file that is not written to digests; no more is read than its size and once. -/
def digestFile (path : Path) (fuel : Nat) : Files FileBytes := do
  let file ← Fsp.openRead path
  let bytes ← (readAllOf file fuel []).onError (Fsp.close file)
  Fsp.close file
  pure bytes

/-- Only what this move has created. -/
def cleanupDestination (destination : Path) (identity : Option FileStat) : Files Unit :=
  match identity with
  | none => pure ()
  | some identity =>
      tryCatch (do
        let current ← Fsp.lstat destination
        if current.dev = identity.dev ∧ current.ino = identity.ino then Fsp.unlink destination
        else pure ())
      fun _ => pure ()

/-- What follows once both files are open. -/
def moveContent (hash : FileBytes → String) (source destination : Resolved)
    (sourceInfo identity : FileStat) (input output : Handle) : Files Unit := do
  let copied ← copyAll input output (sourceInfo.size + 1) []
  Fsp.sync output
  Fsp.chmod output sourceInfo.mode
  Fsp.utimes output sourceInfo.atimeNs sourceInfo.mtimeNs
  let current ← Fsp.lstat source.path
  let currentBytes ← digestFile source.path (sourceInfo.size + 1)
  let finalHandleStat ← Fsp.stat input
  ensureAncestors source.root source.path.dropLast
  if current.dev ≠ sourceInfo.dev ∨ current.ino ≠ sourceInfo.ino ∨
      finalHandleStat.dev ≠ sourceInfo.dev ∨ finalHandleStat.ino ≠ sourceInfo.ino ∨
      current.size ≠ sourceInfo.size ∨ current.mtimeNs ≠ sourceInfo.mtimeNs ∨
      finalHandleStat.size ≠ sourceInfo.size ∨ finalHandleStat.mtimeNs ≠ sourceInfo.mtimeNs ∨
      hash copied ≠ hash currentBytes then do
    cleanupDestination destination.path (some identity)
    throw "source changed during move"
  else Fsp.unlink source.path

def move (hash : FileBytes → String) (sourceRef destinationRef : Except String Resolved)
    (rootGiven : Bool) : Files Unit := do
  let source ← resolve sourceRef
  let destination ← resolve destinationRef
  Async.require (rootGiven = false) "cannot move an approved root"
  requireWritable source.root
  requireWritable destination.root
  ensureAncestors source.root source.path.dropLast
  ensureAncestors destination.root destination.path.dropLast
  let sourceInfo ← Fsp.lstat source.path
  Async.require (sourceInfo.kind = .file) "move requires a regular file"
  let input ← Fsp.openRead source.path
  let closeInput : Files Unit := (Fsp.close input).quietly
  let output ← (Fsp.openNew destination.path 438).onError closeInput
  let closeBoth : Files Unit := do
    (Fsp.close output).quietly
    closeInput
  let identity ← (Fsp.stat output).onError closeBoth
  (moveContent hash source destination sourceInfo identity input output).onError (do
    cleanupDestination destination.path (some identity)
    closeBoth)
  closeBoth

/-! ## What the parts do -/

theorem looks_ancestors (segments : List String) :
    ∀ current, Looks (ancestors current segments) := by
  induction segments with
  | nil => exact fun _ => Looks.pure ()
  | cons segment rest ih =>
      intro current
      refine Looks.bind (Looks.handle ?_ fun message => ?_) fun missing => ?_
      · exact (Looks.lstat _).bind fun _ => (Looks.require _ _).bind fun _ => Looks.pure _
      · split
        · exact Looks.pure _
        · exact Looks.throw _
      · split
        · exact Looks.pure _
        · exact ih _

theorem looks_ensureAncestors (root : FileRoot) (target : Path) :
    Looks (ensureAncestors root target) :=
  (Looks.require _ _).bind fun _ => (Looks.lstat _).bind fun _ => (Looks.require _ _).bind fun _ =>
    (Looks.require _ _).bind fun _ => looks_ancestors _ _

theorem looks_readAllOf (file : Handle) (fuel : Nat) :
    ∀ seen, Looks (readAllOf file fuel seen) := by
  induction fuel with
  | zero => exact fun seen => Looks.pure seen
  | succ fuel ih =>
      intro seen
      refine (Looks.read _ _ _).bind fun chunk => ?_
      split
      · exact Looks.pure _
      · exact ih _

theorem looks_digestFile (path : Path) (fuel : Nat) : Looks (digestFile path fuel) :=
  (Looks.openRead _).bind fun file =>
    ((looks_readAllOf file fuel []).onError (Looks.close file)).bind fun _ =>
      (Looks.close file).bind fun _ => Looks.pure _

theorem wp_resolve (resolved : Resolved) (d : Disk) :
    (Company.alone act).wp (resolve (.ok resolved)) (fun r d' => r = .ok resolved ∧ d' = d) d :=
  Company.wp_pure ⟨rfl, rfl⟩

theorem looks_validateMode (mode : Option Int) : Looks (validateMode mode) := by
  cases mode with
  | none => exact Looks.pure none
  | some m =>
      unfold validateMode
      dsimp only
      split
      · exact Looks.throw _
      · exact Looks.pure _

/-- A file is written at its end, and all of it unless it throws. -/
theorem wp_writeAll (file : Handle) (fuel : Nat) :
    ∀ (data : FileBytes) (d : Disk), data.length ≤ fuel →
      (Company.alone act).wp (writeAll file fuel data) (fun r d' => Edits file d d' ∧
        (r = .ok () →
          (d'.tree.inodes file).bytes = (d.tree.inodes file).bytes ++ data)) d := by
  induction fuel with
  | zero =>
      intro data d fits
      have empty := List.length_eq_zero_iff.mp (Nat.le_zero.mp fits)
      exact Company.wp_pure ⟨(Reads.refl d).edits file, fun _ => by rw [empty, List.append_nil]⟩
  | succ fuel ih =>
      intro data d fits
      unfold writeAll
      split
      · rename_i none_
        have empty := List.length_eq_zero_iff.mp none_
        exact Company.wp_pure ⟨(Reads.refl d).edits file, fun _ => by rw [empty, List.append_nil]⟩
      · refine Company.wp_then (wp_write file data) (fun n d₁ wrote => ?_)
          fun message d₁ wrote => ⟨wrote.1, by simp⟩
        obtain ⟨le, bytes⟩ := wrote.2 n rfl
        refine Company.wp_bind (Company.wp_require (fun moved => ?_) fun _ => ⟨wrote.1, by simp⟩)
        refine Company.wp_mono (fun r d₂ more => ⟨wrote.1.trans more.1, fun done => ?_⟩)
          (ih (data.drop n) d₁ (by rw [List.length_drop]; omega))
        rw [more.2 done, bytes, List.append_assoc, List.take_append_drop]

/-! ## All or nothing -/

/-- A file was linked, and the unlink that follows failed. -/
def linkedNotRemoved : List (FileOp × Bool) → Bool
  | (.link _ _, true) :: (.unlink _, false) :: _ => true
  | _ :: rest => linkedNotRemoved rest
  | [] => false

/-- The temporary file a write leaves: none, what was there before, or what it could not
remove. -/
def NoneLeft (before : FileTree) (temporary : Path) (after : Disk) : Prop :=
  after.tree.entries temporary = none ∨
    after.tree.entries temporary = before.entries temporary ∨
      (.unlink temporary, false) ∈ after.calls

/-- After an atomic write the destination holds the data, or is as it was. -/
def WriteRight (before : FileTree) (temporary destination : Path) (data : FileBytes)
    (r : Except String Unit) (after : Disk) : Prop :=
  (∀ p, p ≠ temporary → p ≠ destination → before.Untouched after.tree p) ∧
    NoneLeft before temporary after ∧
      match r with
      | .ok _ => after.tree.Holds destination data
      | .error _ => before.Untouched after.tree destination

/-- After a move the destination holds what the source held and the source is gone, or the
source is as it was.  What was there before is left, and one of the two is there. -/
structure MoveRight (before : FileTree) (source destination : Path) (r : Except String Unit)
    (after : Disk) : Prop where
  others : ∀ p, p ≠ source → p ≠ destination ∨ before.entries p ≠ none →
    before.Untouched after.tree p
  moved : r = .ok () → (∀ bytes, before.Holds source bytes → after.tree.Holds destination bytes) ∧
    after.tree.entries source = none
  rejected : r ≠ .ok () → before.Untouched after.tree source
  kept : before.entries source ≠ none →
    after.tree.entries source ≠ none ∨ after.tree.entries destination ≠ none
  own : (.unlink destination, true) ∈ after.calls → before.entries destination = none

/-! ## Writing is -/

/-- What comes later decides. -/
def Quiet (calls : List (FileOp × Bool)) : Prop :=
  ∀ rest, linkedNotRemoved (calls ++ rest) = linkedNotRemoved rest

theorem linkedNotRemoved_skip {c : FileOp × Bool} (other : ∀ a b, c ≠ (.link a b, true))
    (rest : List (FileOp × Bool)) : linkedNotRemoved (c :: rest) = linkedNotRemoved rest := by
  rw [linkedNotRemoved]
  intro a b p ps here
  exact absurd here (other a b)

namespace Quiet

theorem nil : Quiet [] := fun _ => rfl

theorem one {calls : List (FileOp × Bool)} (quiet : Quiet calls) {c : FileOp × Bool}
    (other : ∀ a b, c ≠ (.link a b, true)) : Quiet (calls ++ [c]) := fun rest => by
  rw [List.append_assoc, quiet]
  exact linkedNotRemoved_skip other rest

theorem plain {d d' : Disk} (quiet : Quiet d.calls) (more : PlainCalls d d') :
    Quiet d'.calls := by
  obtain ⟨more, calls, plain⟩ := more
  rw [calls]
  clear calls
  induction more using List.reverseRecOn with
  | nil => rwa [List.append_nil]
  | append_singleton more c ih =>
      rw [← List.append_assoc]
      refine (ih fun c member => plain c (List.mem_append_left _ member)).one fun a b same => ?_
      have here := plain c (List.mem_append_right _ List.mem_cons_self)
      rw [same] at here
      cases here

theorem done {calls : List (FileOp × Bool)} (quiet : Quiet calls) :
    linkedNotRemoved calls = false := by
  have here := quiet []
  rwa [List.append_nil] at here

end Quiet

/-- The temporary file is there with some bytes, and nothing else has changed. -/
structure Drafted (before : FileTree) (temporary : Path) (bytes : FileBytes) (t : FileTree) :
    Prop where
  free : before.entries temporary = none
  entries : t.entries = Function.update before.entries temporary (some (.file before.next))
  inodes : ∀ ino, ino < before.next → t.inodes ino = before.inodes ino
  bytes : (t.inodes before.next).bytes = bytes

section Write

variable {before : FileTree} {temporary destination : Path} {data : FileBytes}

theorem Drafted.edits {bytes bytes' : FileBytes} {d d' : Disk}
    (drafted : Drafted before temporary bytes d.tree) (edits : Edits before.next d d')
    (now : (d'.tree.inodes before.next).bytes = bytes') :
    Drafted before temporary bytes' d'.tree :=
  ⟨drafted.free, edits.entries.trans drafted.entries, fun ino old =>
    (edits.others ino (Nat.ne_of_lt old)).trans (drafted.inodes ino old), now⟩

theorem Drafted.untouched {bytes : FileBytes} {t : FileTree}
    (drafted : Drafted before temporary bytes t) (p : Path) (other : p ≠ temporary) :
    before.Untouched t p :=
  ⟨by rw [drafted.entries, Function.update_of_ne other], fun ino here =>
    drafted.inodes ino (before.used p ino here)⟩

theorem untouched_remove {t : FileTree} {p q : Path} (untouched : before.Untouched t p)
    (other : p ≠ q) : before.Untouched (t.remove q) p :=
  ⟨(Function.update_of_ne other _ _).trans untouched.entry, untouched.inode⟩

theorem untouched_attach {t : FileTree} {p q : Path} {ino : Nat} (used : ino < t.next)
    (untouched : before.Untouched t p) (other : p ≠ q) : before.Untouched (t.attach q ino used) p :=
  ⟨(Function.update_of_ne other _ _).trans untouched.entry, untouched.inode⟩

/-- The write rejects with the destination as it was, and the calls say so. -/
def Rejected (before : FileTree) (temporary : Path) (d : Disk) : Prop :=
  (∀ p, p ≠ temporary → before.Untouched d.tree p) ∧ NoneLeft before temporary d ∧ Quiet d.calls

/-- The temporary file is removed, or its removal fails. -/
theorem wp_discard {d : Disk} (others : ∀ p, p ≠ temporary → before.Untouched d.tree p)
    (quiet : Quiet d.calls) :
    (Company.alone act).wp (Fsp.unlink temporary).quietly
      (fun _ d' => Rejected before temporary d') d := by
  refine Company.wp_quietly (Company.wp_mono (fun r d' here => ?_) (wp_unlink temporary))
  have other : ∀ done a b, ((.unlink temporary : FileOp), done) ≠ (.link a b, true) := by simp
  cases r with
  | ok _ =>
      rw [here]
      exact ⟨fun p there => untouched_remove (others p there) there,
        Or.inl (Function.update_self ..), quiet.one (other true)⟩
  | error _ =>
      rw [here]
      exact ⟨others, Or.inr (Or.inr (List.mem_append_right _ List.mem_cons_self)),
        quiet.one (other false)⟩

theorem Rejected.right {d : Disk} (rejected : Rejected before temporary d)
    (apart : destination ≠ temporary) (message : String) :
    WriteRight before temporary destination data (.error message) d ↔
      linkedNotRemoved d.calls = false :=
  ⟨fun _ => rejected.2.2.done, fun _ =>
    ⟨fun p here _ => rejected.1 p here, rejected.2.1, rejected.1 destination apart⟩⟩

/-- A write ends right exactly where no unlink failed that follows a link. -/
def EndsRight (before : FileTree) (temporary destination : Path) (data : FileBytes)
    (r : Except String Unit) (d : Disk) : Prop :=
  WriteRight before temporary destination data r d ↔ linkedNotRemoved d.calls = false

/-- An end that is one, or where throwing the temporary file away leads to one. -/
def Recovers (before : FileTree) (temporary destination : Path) (data : FileBytes)
    (r : Except String Unit) (d : Disk) : Prop :=
  match r with
  | .ok _ => EndsRight before temporary destination data (.ok ()) d
  | .error message =>
      (Company.alone act).wp (Fsp.unlink temporary).quietly (fun r d => match r with
        | .ok _ => EndsRight before temporary destination data (.error message) d
        | .error later => EndsRight before temporary destination data (.error later) d) d

theorem Drafted.recovers {d : Disk} (drafted : Drafted before temporary data d.tree)
    (quiet : Quiet d.calls) (apart : destination ≠ temporary) (message : String) :
    Recovers before temporary destination data (.error message) d := by
  refine Company.wp_mono (fun r d' rejected => ?_) (wp_discard drafted.untouched quiet)
  cases r <;> exact rejected.right apart _

section Publish

variable {d : Disk} (drafted : Drafted before temporary data d.tree) (quiet : Quiet d.calls)
  (apart : destination ≠ temporary)
include drafted quiet apart

/-- A destination that must not be there yet. -/
theorem wp_linked :
    (Company.alone act).wp (do
        Fsp.link temporary destination
        Fsp.unlink temporary)
      (Recovers before temporary destination data) d := by
  have file : d.tree.entries temporary = some (.file before.next) := by
    rw [drafted.entries, Function.update_self]
  refine Company.wp_then (wp_link temporary destination) (fun _ d₁ linked => ?_)
    fun message d₁ failed => ?_
  · obtain ⟨free, ino, used, there, rfl⟩ := linked
    obtain rfl : before.next = ino := by
      rw [file] at there
      cases there
      rfl
    have created : (d.tree.attach destination before.next used).entries destination
        = some (.file before.next) := Function.update_self ..
    have kept : ((d.tree.attach destination before.next used).remove temporary).entries destination
        = some (.file before.next) := (Function.update_of_ne apart _ _).trans created
    refine Company.wp_mono (fun r d₂ last => ?_) (wp_unlink temporary)
    cases r with
    | ok _ =>
        cases last
        refine iff_of_true ⟨fun p one two => ?_, Or.inl (Function.update_self ..),
          before.next, kept, drafted.bytes⟩ ?_
        · exact untouched_remove (untouched_attach used (drafted.untouched p one) two) one
        · rw [List.append_assoc, quiet]
          rfl
    | error message =>
        -- the destination is there, whatever becomes of the second unlink
        cases last
        have absent : before.entries destination = none := by
          rw [← (drafted.untouched destination apart).entry]
          exact free
        have noticed : ∀ more, linkedNotRemoved (d.calls ++
            [(.link temporary destination, true)] ++ [(.unlink temporary, false)] ++ more)
              ≠ false := fun more => by
          rw [List.append_assoc, List.append_assoc, quiet]
          exact Bool.noConfusion
        refine Company.wp_quietly (Company.wp_mono (fun r d₃ again => ?_) (wp_unlink temporary))
        cases r with
        | ok _ =>
            cases again
            refine iff_of_false (fun right => ?_) (noticed _)
            exact Option.some_ne_none _ (kept.symm.trans (right.2.2.entry.trans absent))
        | error _ =>
            cases again
            refine iff_of_false (fun right => ?_) (noticed _)
            exact Option.some_ne_none _ (created.symm.trans (right.2.2.entry.trans absent))
  · cases failed
    exact @Drafted.recovers _ _ _ _ ⟨d.tree, d.calls ++ [(.link temporary destination, false)]⟩
      drafted (quiet.one (by simp)) apart message

/-- A destination that may be there. -/
theorem wp_renamed :
    (Company.alone act).wp (Fsp.rename temporary destination)
      (Recovers before temporary destination data) d := by
  have file : d.tree.entries temporary = some (.file before.next) := by
    rw [drafted.entries, Function.update_self]
  refine Company.wp_mono (fun r d₁ renamed => ?_) (wp_rename temporary destination)
  cases r with
  | ok _ =>
      obtain ⟨ino, used, there, same | rfl⟩ := renamed
      · -- no other path leads to the temporary file
        rw [file] at there
        cases there
        rw [(drafted.untouched destination apart).entry] at same
        exact absurd (before.used _ _ same) (lt_irrefl _)
      · rw [file] at there
        cases there
        refine iff_of_true ⟨fun p one two => ?_, Or.inl (Function.update_self ..),
          before.next, ?_, drafted.bytes⟩ (quiet.one (by simp)).done
        · exact untouched_remove (untouched_attach used (drafted.untouched p one) two) one
        · show Function.update (Function.update _ _ _) _ _ destination = _
          rw [Function.update_of_ne apart, Function.update_self]
  | error message =>
      cases renamed
      exact @Drafted.recovers _ _ _ _ ⟨d.tree, d.calls ++ [(.rename temporary destination, false)]⟩
        drafted (quiet.one (by simp)) apart message

/-- **Giving the file its name.** -/
theorem wp_publish (root : FileRoot) (ifAbsent : Bool) :
    (Company.alone act).wp ((do
        ensureAncestors root destination.dropLast
        if ifAbsent then do
          Fsp.link temporary destination
          Fsp.unlink temporary
        else Fsp.rename temporary destination : Files Unit).onError (Fsp.unlink temporary).quietly)
      (EndsRight before temporary destination data) d := by
  refine Company.wp_onError (Company.wp_mono (fun r d' recovers => ?_)
    (Company.wp_then (looks_ensureAncestors root _ d) (fun _ d₁ reads => ?_)
      fun message d₁ reads => Drafted.recovers (reads.tree ▸ drafted) (quiet.plain reads.calls)
        apart message))
  · cases r with
    | ok _ => exact recovers
    | error message =>
        refine Company.wp_mono (fun r d'' here => ?_) recovers
        cases r <;> exact here
  · have here : Drafted before temporary data d₁.tree := reads.tree ▸ drafted
    have still : Quiet d₁.calls := quiet.plain reads.calls
    split
    · exact wp_linked here still apart
    · exact wp_renamed here still apart

end Publish

/-- **An atomic write** from a file tree on, after calls that did not link anything. -/
theorem wp_writeAtomic {d : Disk} (tree : d.tree = before) (quiet : Quiet d.calls)
    (resolved : Resolved) (apart : resolved.path ≠ temporary) (targetMode : Nat)
    (ifAbsent : Bool) :
    (Company.alone act).wp (writeAtomic resolved temporary targetMode data ifAbsent)
      (EndsRight before temporary resolved.path data) d := by
  unfold writeAtomic
  refine Company.wp_bind (Company.wp_onError (Company.wp_mono (fun r d₁ opened => ?_)
    (wp_openNew temporary targetMode)))
  obtain ⟨calls, opened⟩ := opened
  have still : Quiet d₁.calls := quiet.plain calls
  cases r with
  | error message =>
      have same : ∀ p, p ≠ temporary → before.Untouched d₁.tree p := fun p _ => by
        rw [opened, tree]
        exact FileTree.Untouched.refl before p
      refine Company.wp_mono (fun r d₂ rejected => ?_) (wp_discard same still)
      cases r <;> exact rejected.right apart _
  | ok file =>
      obtain ⟨rfl, free, i, empty, created⟩ := opened
      rw [tree] at free created ⊢
      have drafted : Drafted before temporary [] d₁.tree := by
        rw [created]
        refine ⟨free, rfl, fun ino old => Function.update_of_ne (Nat.ne_of_lt old) _ _, ?_⟩
        show (Function.update before.inodes before.next i before.next).bytes = []
        rw [Function.update_self, empty]
      -- the file is filled, or whatever was written is thrown away
      have filled : (Company.alone act).wp (do
            writeAll before.next data.length data
            Fsp.sync before.next
            Fsp.chmod before.next targetMode
            Fsp.close before.next : Files Unit)
          (fun r d' => Edits before.next d₁ d' ∧
            (r = .ok () → (d'.tree.inodes before.next).bytes = data)) d₁ := by
        refine Company.wp_then (wp_writeAll before.next data.length data d₁ (le_refl _))
          (fun _ d₂ wrote => ?_) fun message d₂ wrote => ⟨wrote.1, by simp⟩
        have bytes₂ := wrote.2 rfl
        rw [drafted.bytes, List.nil_append] at bytes₂
        refine Company.wp_then (wp_sync before.next) (fun _ d₃ reads => ?_)
          fun message d₃ reads => ⟨wrote.1.trans (reads.edits _), by simp⟩
        refine Company.wp_then (wp_chmod before.next targetMode) (fun _ d₄ edits => ?_)
          fun message d₄ edits => ⟨(wrote.1.trans (reads.edits _)).trans edits.1, by simp⟩
        refine Company.wp_mono (fun r d₅ closed => ?_) (wp_close before.next)
        refine ⟨((wrote.1.trans (reads.edits _)).trans edits.1).trans (closed.edits _),
          fun _ => ?_⟩
        rw [closed.tree, edits.2, reads.tree, bytes₂]
      refine Company.wp_bind (Company.wp_onError (Company.wp_mono (fun r d₂ edits => ?_) filled))
      cases r with
      | ok _ =>
          exact wp_publish (drafted.edits edits.1 (edits.2 rfl)) (still.plain edits.1.calls) apart
            _ _
      | error message =>
          refine Company.wp_bind (Company.wp_quietly (Company.wp_mono (fun r d₃ closed => ?_)
            (wp_close before.next)))
          have all := edits.1.trans (closed.edits before.next)
          refine Company.wp_mono (fun r d₄ rejected => ?_) (wp_discard
            (fun p other => (drafted.edits all rfl).untouched p other) (still.plain all.calls))
          cases r <;> exact rejected.right apart _

theorem length_temporary (path : Path) (nonce : String) : path ≠ temporaryPath path nonce := by
  intro same
  rcases List.eq_nil_or_concat path with rfl | ⟨parent, name, rfl⟩
  · cases same
  · unfold temporaryPath at same
    rw [List.concat_eq_append, List.dropLast_concat, List.getLastD_concat] at same
    have names := List.cons.inj (List.append_cancel_left same)
    have length := congrArg String.length names.1
    simp only [String.length_append] at length
    have dot : ".".length = 1 := rfl
    omega

theorem wp_atomicWrite (resolved : Resolved) (ifAbsent : Bool) (mode : Option Int)
    (nonce : String) :
    (Company.alone act).wp (write (.ok resolved) data ⟨ifAbsent, true, mode⟩ nonce)
      (EndsRight before (temporaryPath resolved.path nonce) resolved.path data) ⟨before, []⟩ := by
  have apart := length_temporary resolved.path nonce
  have rejects : ∀ (message : String) (d : Disk), Reads ⟨before, []⟩ d →
      EndsRight before (temporaryPath resolved.path nonce) resolved.path data (.error message) d :=
    fun message d reads => by
    have tree : d.tree = before := reads.tree
    refine Rejected.right ⟨fun p _ => ?_, Or.inr (Or.inl ?_), Quiet.nil.plain reads.calls⟩ apart _
    · rw [tree]
      exact FileTree.Untouched.refl before p
    · rw [tree]
  unfold write
  refine Company.wp_then (Looks.require _ _ _) (fun _ d₁ r₁ => ?_) rejects
  refine Company.wp_then (looks_validateMode mode d₁) (fun requestedMode d₂ r₂ => ?_)
    fun m d reads => rejects m d (r₁.trans reads)
  refine Company.wp_then (wp_resolve resolved d₂) (fun found d₃ same => ?_)
    fun m d same => (by cases same.1)
  cases same.1
  cases same.2
  refine Company.wp_then (Looks.require _ _ _) (fun _ d₃ r₃ => ?_)
    fun m d reads => rejects m d ((r₁.trans r₂).trans reads)
  refine Company.wp_then (looks_ensureAncestors _ _ d₃) (fun _ d₄ r₄ => ?_)
    fun m d reads => rejects m d (((r₁.trans r₂).trans r₃).trans reads)
  have looks : Looks (tryCatch (do
      let destination ← Fsp.lstat resolved.path
      Async.require (destination.kind ≠ .symlink) "symlink targets are not allowed"
      pure (some (destination.mode % 512)))
    fun message => if message = ENOENT then pure none else throw message : Files (Option Nat)) := by
    refine Looks.handle ((Looks.lstat _).bind fun _ => (Looks.require _ _).bind fun _ =>
      Looks.pure _) fun message => ?_
    split
    · exact Looks.pure _
    · exact Looks.throw _
  refine Company.wp_then (looks d₄) (fun existingMode d₅ r₅ => ?_)
    fun m d reads => rejects m d ((((r₁.trans r₂).trans r₃).trans r₄).trans reads)
  have reads := (((r₁.trans r₂).trans r₃).trans r₄).trans r₅
  rw [if_pos rfl]
  exact wp_writeAtomic reads.tree (Quiet.nil.plain reads.calls) resolved apart _ ifAbsent

end Write

/-! ## Moving is -/

section Move

variable {before : FileTree} {source destination : Path} {input : Nat} {d : Disk}

/-- What was read is written, up to the end of the source. -/
theorem wp_copyAll {output : Handle} (apart : input ≠ output) {content : FileBytes} (fuel : Nat) :
    ∀ (copied : FileBytes) (d : Disk), (d.tree.inodes input).bytes = content →
      (d.tree.inodes output).bytes = copied → copied <+: content →
        content.length - copied.length < fuel →
      (Company.alone act).wp (copyAll input output fuel copied) (fun r d' => Edits output d d' ∧
        ∀ all, r = .ok all → all = content ∧ (d'.tree.inodes output).bytes = content) d := by
  induction fuel with
  | zero => intro copied d _ _ _ left; omega
  | succ fuel ih =>
      intro copied d source target part left
      unfold copyAll
      refine Company.wp_then (wp_read input copied.length (by decide)) (fun chunk d₁ read => ?_)
        fun message d₁ read => ⟨read.1.edits output, by simp⟩
      obtain ⟨next, ended⟩ := read.2 chunk rfl
      rw [source] at next ended
      obtain ⟨tail, rfl⟩ := part
      rw [List.drop_left] at next ended
      split
      · rename_i none_
        have empty := ended (List.length_eq_zero_iff.mp none_)
        refine Company.wp_pure ⟨read.1.edits output, fun all same => ?_⟩
        cases same
        rw [empty, List.append_nil, read.1.tree]
        exact ⟨rfl, target⟩
      · rename_i some_
        refine Company.wp_then (wp_writeAll output chunk.length chunk d₁ (le_refl _))
          (fun _ d₂ wrote => ?_)
          fun message d₂ wrote => ⟨(read.1.edits output).trans wrote.1, by simp⟩
        have edits := (read.1.edits output).trans wrote.1
        have bytes := wrote.2 rfl
        rw [read.1.tree, target] at bytes
        have longer : 0 < chunk.length := Nat.pos_of_ne_zero some_
        refine Company.wp_mono (fun r d₃ more => ⟨edits.trans more.1, more.2⟩)
          (ih (copied ++ chunk) d₂ ?_ bytes ?_ ?_)
        · rw [edits.others input apart, source]
        · exact (List.prefix_append_right_inj copied).mpr next
        · simp only [List.length_append] at left ⊢
          have size := next.length_le
          omega

/-- A move that fails leaves every other path. -/
def Abandoned (before : FileTree) (destination : Path) (d : Disk) : Prop :=
  (∀ p, p ≠ destination → before.Untouched d.tree p) ∧ Quiet d.calls

theorem Abandoned.reads {d' : Disk} (abandoned : Abandoned before destination d)
    (reads : Reads d d') : Abandoned before destination d' :=
  ⟨fun p other => reads.tree ▸ abandoned.1 p other, abandoned.2.plain reads.calls⟩

theorem wp_cleanupDestination (identity : FileStat) (abandoned : Abandoned before destination d) :
    (Company.alone act).wp (cleanupDestination destination (some identity))
      (fun r d' => r = .ok () ∧ Abandoned before destination d') d := by
  refine Company.wp_catch (Company.wp_then (Looks.lstat destination d) (fun current d₁ reads => ?_)
    fun message d₁ reads => Company.wp_pure ⟨rfl, abandoned.reads reads⟩)
  split
  · refine Company.wp_mono (fun r d₂ here => ?_) (wp_unlink destination)
    have still := abandoned.reads reads
    cases r with
    | ok _ =>
        cases here
        exact ⟨rfl, fun p other => untouched_remove (still.1 p other) other,
          still.2.one (by simp)⟩
    | error message =>
        cases here
        exact Company.wp_pure ⟨rfl, still.1, still.2.one (by simp)⟩
  · exact Company.wp_pure ⟨rfl, abandoned.reads reads⟩

/-- The copy is complete and the source is gone. -/
structure Moved (before : FileTree) (source destination : Path) (input : Nat) (d : Disk) :
    Prop where
  others : ∀ p, p ≠ source → p ≠ destination → before.Untouched d.tree p
  gone : d.tree.entries source = none
  holds : d.tree.Holds destination (before.inodes input).bytes
  quiet : Quiet d.calls

theorem Moved.reads {d' : Disk} (moved : Moved before source destination input d)
    (reads : Reads d d') : Moved before source destination input d' := by
  have tree := reads.tree
  obtain ⟨others, gone, holds, quiet⟩ := moved
  rw [← tree] at others gone holds
  exact ⟨others, gone, holds, quiet.plain reads.calls⟩

/-- **From two open files on** the move is made, or every path but the new one is left. -/
theorem wp_moveContent (hash : FileBytes → String) (from_ to_ : Resolved) (identity : FileStat)
    (sourceInfo : FileStat) (there : before.entries from_.path = some (.file input))
    (size : sourceInfo.size = (before.inodes input).bytes.length)
    (drafted : Drafted before to_.path [] d.tree) (quiet : Quiet d.calls) :
    (Company.alone act).wp
      (moveContent hash from_ to_ sourceInfo identity input before.next)
      (fun r d' => match r with
        | .ok _ => Moved before from_.path to_.path input d'
        | .error _ => Abandoned before to_.path d') d := by
  have old := before.used _ _ there
  have apart : from_.path ≠ to_.path := by
    intro same
    rw [same, drafted.free] at there
    cases there
  have abandons : ∀ d', Edits before.next d d' → Abandoned before to_.path d' := fun d' edits =>
    ⟨(drafted.edits edits rfl).untouched, quiet.plain edits.calls⟩
  unfold moveContent
  refine Company.wp_then (wp_copyAll (Nat.ne_of_lt old) (sourceInfo.size + 1) [] d
    (congrArg Inode.bytes (drafted.inodes input old)) drafted.bytes List.nil_prefix
    (by rw [size, List.length_nil]; omega))
    (fun copied d₁ e₁ => ?_) fun message d₁ e₁ => abandons d₁ e₁.1
  obtain ⟨e₁, full⟩ := e₁
  have bytes₁ := (full copied rfl).2
  refine Company.wp_then (wp_sync before.next) (fun _ d₂ e₂ => ?_)
    fun message d₂ e₂ => abandons d₂ (e₁.trans (e₂.edits _))
  refine Company.wp_then (wp_chmod before.next sourceInfo.mode) (fun _ d₃ e₃ => ?_)
    fun message d₃ e₃ => abandons d₃ ((e₁.trans (e₂.edits _)).trans e₃.1)
  refine Company.wp_then (wp_utimes before.next sourceInfo.atimeNs sourceInfo.mtimeNs)
    (fun _ d₄ e₄ => ?_)
    fun message d₄ e₄ => abandons d₄ (((e₁.trans (e₂.edits _)).trans e₃.1).trans e₄.1)
  have edits := ((e₁.trans (e₂.edits _)).trans e₃.1).trans e₄.1
  have bytes : (d₄.tree.inodes before.next).bytes = (before.inodes input).bytes := by
    rw [e₄.2, e₃.2, e₂.tree, bytes₁]
  clear e₁ e₂ e₃ e₄ full bytes₁
  refine Company.wp_then (Looks.lstat from_.path d₄) (fun current d₅ e₅ => ?_)
    fun message d₅ e₅ => abandons d₅ (edits.trans (e₅.edits _))
  refine Company.wp_then (looks_digestFile from_.path _ d₅) (fun currentBytes d₆ e₆ => ?_)
    fun message d₆ e₆ => abandons d₆ (edits.trans ((e₅.trans e₆).edits _))
  refine Company.wp_then (wp_stat input) (fun finalHandleStat d₇ e₇ => ?_)
    fun message d₇ e₇ => abandons d₇ (edits.trans (((e₅.trans e₆).trans e₇.1).edits _))
  refine Company.wp_then (looks_ensureAncestors _ _ d₇) (fun _ d₈ e₈ => ?_)
    fun message d₈ e₈ => abandons d₈ (edits.trans ((((e₅.trans e₆).trans e₇.1).trans e₈).edits _))
  have reads := ((e₅.trans e₆).trans e₇.1).trans e₈
  have all := edits.trans (reads.edits before.next)
  split
  · -- the source has changed
    refine Company.wp_then (wp_cleanupDestination identity (abandons d₈ all))
      (fun _ d₉ cleaned => ?_) fun message d₉ cleaned => (by cases cleaned.1)
    exact Company.wp_throw cleaned.2
  · refine Company.wp_mono (fun r d₉ here => ?_) (wp_unlink from_.path)
    have still := drafted.edits all (reads.tree ▸ bytes)
    cases r with
    | error message =>
        cases here
        exact ⟨(abandons d₈ all).1, (abandons d₈ all).2.one (by simp)⟩
    | ok _ =>
        cases here
        refine ⟨fun p one two => untouched_remove (still.untouched p two) one,
          Function.update_self .., ⟨before.next, ?_, still.bytes⟩,
          (abandons d₈ all).2.one (by simp)⟩
        show Function.update d₈.tree.entries from_.path none to_.path = _
        rw [Function.update_of_ne apart.symm, still.entries, Function.update_self]

theorem MoveRight.unchanged {r : Except String Unit} {after : Disk}
    (reads : Reads ⟨before, []⟩ after) (rejected : r ≠ .ok ()) :
    MoveRight before source destination r after := by
  have tree : after.tree = before := reads.tree
  have same : ∀ p, before.Untouched after.tree p := fun p => by
    rw [tree]
    exact FileTree.Untouched.refl before p
  refine ⟨fun p _ _ => same p, fun moved => absurd moved rejected, fun _ => same source,
    fun there => Or.inl (by rwa [tree]), fun removed => ?_⟩
  obtain ⟨more, calls, plain⟩ := reads.calls
  rw [calls, List.nil_append] at removed
  cases plain _ removed

/-- The new path was free, so the move has created what is there. -/
theorem Abandoned.right {r : Except String Unit} (abandoned : Abandoned before destination d)
    (there : before.entries source ≠ none) (free : before.entries destination = none)
    (rejected : r ≠ .ok ()) : MoveRight before source destination r d := by
  have apart : source ≠ destination := fun same => there (same ▸ free)
  refine ⟨fun p _ other => ?_, fun moved => absurd moved rejected,
    fun _ => abandoned.1 source apart, fun here => Or.inl ?_, fun _ => free⟩
  · refine abandoned.1 p fun same => ?_
    rcases other with other | some_
    · exact other same
    · exact some_ (same ▸ free)
  · rwa [(abandoned.1 source apart).entry]

theorem Moved.right (moved : Moved before source destination input d)
    (there : before.entries source = some (.file input))
    (free : before.entries destination = none) :
    MoveRight before source destination (.ok ()) d := by
  refine ⟨fun p one other => moved.others p one fun same => ?_, fun _ => ⟨?_, moved.gone⟩,
    fun rejected => absurd rfl rejected, fun _ => Or.inr ?_, fun _ => free⟩
  · rcases other with other | some_
    · exact other same
    · exact some_ (same ▸ free)
  · rintro bytes ⟨ino, here, held⟩
    rw [there] at here
    cases here
    exact held ▸ moved.holds
  · obtain ⟨ino, here, -⟩ := moved.holds
    rw [here]
    exact Option.some_ne_none _

theorem wp_move (hash : FileBytes → String) (from_ to_ : Resolved) (rootGiven : Bool) :
    (Company.alone act).wp (move hash (.ok from_) (.ok to_) rootGiven)
      (fun r d' => MoveRight before from_.path to_.path r d' ∧ Quiet d'.calls) ⟨before, []⟩ := by
  have rejects : ∀ (message : String) (d : Disk), Reads ⟨before, []⟩ d →
      MoveRight before from_.path to_.path (.error message) d ∧ Quiet d.calls :=
    fun message d reads => ⟨MoveRight.unchanged reads (by simp), Quiet.nil.plain reads.calls⟩
  unfold move
  refine Company.wp_then (wp_resolve from_ _) (fun _ d₁ same => ?_)
    fun m d same => (by cases same.1)
  cases same.1
  cases same.2
  refine Company.wp_then (wp_resolve to_ _) (fun _ d₁ same => ?_)
    fun m d same => (by cases same.1)
  cases same.1
  cases same.2
  refine Company.wp_then (Looks.require _ _ _) (fun _ d₁ r₁ => ?_) rejects
  refine Company.wp_then (Looks.require _ _ _) (fun _ d₂ r₂ => ?_)
    fun m d reads => rejects m d (r₁.trans reads)
  replace r₂ := r₁.trans r₂
  refine Company.wp_then (Looks.require _ _ _) (fun _ d₃ r₃ => ?_)
    fun m d reads => rejects m d (r₂.trans reads)
  replace r₃ := r₂.trans r₃
  refine Company.wp_then (looks_ensureAncestors _ _ d₃) (fun _ d₄ r₄ => ?_)
    fun m d reads => rejects m d (r₃.trans reads)
  replace r₄ := r₃.trans r₄
  refine Company.wp_then (looks_ensureAncestors _ _ d₄) (fun _ d₅ r₅ => ?_)
    fun m d reads => rejects m d (r₄.trans reads)
  replace r₅ := r₄.trans r₅
  refine Company.wp_then (wp_lstat from_.path) (fun sourceInfo d₆ r₆ => ?_)
    fun m d reads => rejects m d (r₅.trans reads.1)
  obtain ⟨e, entry, stat⟩ := r₆.2 sourceInfo rfl
  replace r₆ := r₅.trans r₆.1
  refine Company.wp_then (Looks.require _ _ _) (fun _ d₇ r₇ => ?_)
    fun m d reads => rejects m d (r₆.trans reads)
  replace r₇ := r₆.trans r₇
  refine Company.wp_then (wp_openRead from_.path) (fun input d₈ r₈ => ?_)
    fun m d reads => rejects m d (r₇.trans reads.1)
  have there := r₈.2 input rfl
  replace r₈ := r₇.trans r₈.1
  have tree₅ : d₅.tree = before := r₅.tree
  have tree₇ : d₇.tree = before := r₇.tree
  have tree₈ : d₈.tree = before := r₈.tree
  rw [tree₅] at entry stat
  rw [tree₇] at there
  have size : sourceInfo.size = (before.inodes input).bytes.length := by
    rw [there] at entry
    cases entry
    rw [stat]
    rfl
  -- the destination is opened, or nothing has changed
  refine Company.wp_bind (Company.wp_onError (Company.wp_mono (fun r d₉ opened => ?_)
    (wp_openNew to_.path 438)))
  obtain ⟨calls, opened⟩ := opened
  cases r with
  | error message =>
      have reads : Reads ⟨before, []⟩ d₉ := r₈.trans ⟨opened, calls⟩
      refine Company.wp_mono (fun r d₁₀ more => ?_) (Looks.quietly (Looks.close input) d₉)
      cases r <;> exact rejects _ d₁₀ (reads.trans more)
  | ok output =>
      obtain ⟨rfl, free, i, empty, created⟩ := opened
      rw [tree₈] at free created ⊢
      have drafted : Drafted before to_.path [] d₉.tree := by
        rw [created]
        refine ⟨free, rfl, fun ino old => Function.update_of_ne (Nat.ne_of_lt old) _ _, ?_⟩
        show (Function.update before.inodes before.next i before.next).bytes = []
        rw [Function.update_self, empty]
      have quiet : Quiet d₉.calls := (Quiet.nil.plain r₈.calls).plain calls
      have some_ : before.entries from_.path ≠ none := by
        rw [there]
        exact Option.some_ne_none _
      have begun : Abandoned before to_.path d₉ := ⟨drafted.untouched, quiet⟩
      have ends : ∀ (message : String) (d : Disk), Abandoned before to_.path d →
          MoveRight before from_.path to_.path (.error message) d ∧ Quiet d.calls :=
        fun message d abandoned => ⟨abandoned.right some_ free (by simp), abandoned.2⟩
      have closing : ∀ d, (Company.alone act).wp (do
            (Fsp.close before.next).quietly
            (Fsp.close input).quietly : Files Unit)
          (fun r d' => r = .ok () ∧ Reads d d') d := fun d =>
        Company.wp_bind (Company.wp_quietly (Company.wp_mono
          (fun _ d' one => Company.wp_quietly (Company.wp_mono
            (fun _ _ two => ⟨rfl, one.trans two⟩) (wp_close input))) (wp_close before.next)))
      refine Company.wp_bind (Company.wp_onError (Company.wp_mono (fun r d₁₀ more => ?_)
        (wp_stat before.next)))
      have still := begun.reads more.1
      cases r with
      | error message =>
          refine Company.wp_mono (fun r d₁₁ closed => ?_) (closing d₁₀)
          cases closed.1
          exact ends _ d₁₁ (still.reads closed.2)
      | ok identity =>
          have drafted₁₀ : Drafted before to_.path [] d₁₀.tree := more.1.tree ▸ drafted
          refine Company.wp_bind (Company.wp_onError (Company.wp_mono (fun r d₁₁ done => ?_)
            (wp_moveContent hash from_ to_ identity sourceInfo there size drafted₁₀ still.2)))
          cases r with
          | ok _ =>
              refine Company.wp_mono (fun r d₁₂ closed => ?_) (closing d₁₁)
              cases closed.1
              exact ⟨(done.reads closed.2).right there free, (done.reads closed.2).quiet⟩
          | error message =>
              refine Company.wp_then (wp_cleanupDestination identity done)
                (fun _ d₁₂ cleaned => ?_) fun m d cleaned => (by cases cleaned.1)
              refine Company.wp_mono (fun r d₁₃ closed => ?_) (closing d₁₂)
              cases closed.1
              exact ends _ d₁₃ (cleaned.2.reads closed.2)

end Move

/-! ## Both -/

/-- An atomic write or a move, of references that may not resolve. -/
inductive Operation where
  | write (ref : Except String Resolved) (data : FileBytes) (ifAbsent : Bool)
      (mode : Option Int) (nonce : String)
  | move (source destination : Except String Resolved) (rootGiven : Bool)

def Operation.body (hash : FileBytes → String) : Operation → Files Unit
  | .write ref data ifAbsent mode nonce => Platform.write ref data ⟨ifAbsent, true, mode⟩ nonce
  | .move source destination rootGiven => Platform.move hash source destination rootGiven

/-- How an operation ends on a file tree, by what becomes of each call. -/
def Operation.run (hash : FileBytes → String) (o : Operation) (before : FileTree)
    (fates : Nat → Fate) : Except String Unit × Disk :=
  (o.body hash).run act ⟨before, []⟩ fates 0

/-- All or nothing; a reference that does not resolve changes nothing. -/
def Operation.Right (o : Operation) (before : FileTree) (r : Except String Unit) (after : Disk) :
    Prop :=
  match o with
  | .write (.ok resolved) data _ _ nonce =>
      WriteRight before (temporaryPath resolved.path nonce) resolved.path data r after
  | .move (.ok source) (.ok destination) _ =>
      MoveRight before source.path destination.path r after
  | _ => after.tree = before ∧ r ≠ .ok ()

/-- A reference that does not resolve ends the operation. -/
theorem wp_unresolved (reason : String) {β : Type} (f : Resolved → Files β) {before : FileTree}
    {d : Disk} (reads : Reads ⟨before, []⟩ d) :
    (Company.alone act).wp (resolve (.error reason) >>= f)
      (fun r d' => (∃ message, r = .error message) ∧ Reads ⟨before, []⟩ d') d :=
  Company.wp_bind (Company.wp_throw ⟨⟨reason, rfl⟩, reads⟩)

/-- **An operation is all or nothing**, whatever calls fail, exactly where no unlink fails
that follows a link. -/
theorem allOrNothing_iff (hash : FileBytes → String) (o : Operation) (before : FileTree)
    (fates : Nat → Fate) :
    o.Right before (o.run hash before fates).1 (o.run hash before fates).2 ↔
      linkedNotRemoved (o.run hash before fates).2.calls = false := by
  have ends : ∀ {Q : Except String Unit → Disk → Prop},
      (Company.alone act).wp (o.body hash) Q ⟨before, []⟩ →
        Q (o.run hash before fates).1 (o.run hash before fates).2 := fun held =>
    Company.wp_run fates (o.body hash) (⟨before, []⟩ : Disk) 0 held
  let Fails : Except String Unit → Disk → Prop := fun r after =>
    (∃ message, r = .error message) ∧ Reads ⟨before, []⟩ after
  have unresolved : ∀ {r : Except String Unit} {after : Disk}, Fails r after →
        ((after.tree = before ∧ r ≠ .ok ()) ↔ linkedNotRemoved after.calls = false) := by
    rintro r after ⟨⟨message, rfl⟩, reads⟩
    exact iff_of_true ⟨reads.tree, by simp⟩ (Quiet.nil.plain reads.calls).done
  cases o with
  | write ref data ifAbsent mode nonce =>
      cases ref with
      | ok resolved => exact ends (wp_atomicWrite resolved ifAbsent mode nonce)
      | error reason =>
          refine unresolved (@ends Fails (Company.wp_then (Looks.require _ _ _) (fun _ d₁ r₁ => ?_)
            fun message d reads => ⟨⟨message, rfl⟩, reads⟩))
          refine Company.wp_then (looks_validateMode mode d₁) (fun _ d₂ r₂ => ?_)
            fun message d reads => ⟨⟨message, rfl⟩, r₁.trans reads⟩
          exact wp_unresolved reason _ (r₁.trans r₂)
  | move source destination rootGiven =>
      cases source with
      | error reason =>
          have held := ends (wp_unresolved reason _ (Reads.refl _))
          cases destination <;> exact unresolved held
      | ok source =>
          cases destination with
          | error reason =>
              refine unresolved (@ends Fails (Company.wp_then (wp_resolve source _)
                (fun _ d₁ same => ?_) fun message d same => (by cases same.1)))
              cases same.1
              cases same.2
              exact wp_unresolved reason _ (Reads.refl _)
          | ok destination =>
              obtain ⟨right, quiet⟩ := ends (wp_move hash source destination rootGiven)
              exact iff_of_true right quiet.done

/-! ## A link that stays -/

/-- A directory, that is also the root. -/
def oneDirectory : FileTree where
  entries p := if p = ["files"] then some (.directory 0 1) else none
  inodes _ := ⟨0, [], 0, 0, 0⟩
  next := 0
  used p ino here := by
    split at here <;> cases here

/-- The tenth call is the unlink of the temporary file. -/
def unlinkFails (n : Nat) : Fate := ⟨if n = 9 then some "EIO" else none, 1, 0, 0⟩

/-- A new file, written atomically. -/
def newFile : Operation :=
  .write (.ok ⟨⟨["files"], 0, 1, true⟩, ["files", "a"]⟩) [1] true none "id"

/-- The write rejects, and the file is there. -/
theorem linked_but_rejected :
    ¬ newFile.Right oneDirectory (newFile.run (fun _ => "") oneDirectory unlinkFails).1
      (newFile.run (fun _ => "") oneDirectory unlinkFails).2 := by
  have rejects : (newFile.run (fun _ => "") oneDirectory unlinkFails).1 = .error "EIO" := by
    decide +kernel
  have there : (newFile.run (fun _ => "") oneDirectory unlinkFails).2.tree.entries ["files", "a"]
      = some (.file 0) := by decide +kernel
  intro right
  obtain ⟨-, -, untouched⟩ := right
  rw [rejects] at untouched
  exact absurd (there.symm.trans untouched.entry) (by decide)

end Kiagent.Platform
