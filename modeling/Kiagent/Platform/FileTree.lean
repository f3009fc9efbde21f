/-
# Platform.FileTree -- files, and the calls that change them

A path leads to an entry, and an entry of a file to its inode, which other paths may lead to
as well and open handles do.  `act` performs one call: it fails by itself where the tree
does not allow it, or because it is made to, and then changes nothing.  What was called, and
whether it succeeded, is kept.

`Untouched` is what a call leaves of a path it is not about (`apply_frame`).
-/
import Kiagent.Theory.Async
import Mathlib

namespace Kiagent.Platform

open Theory

set_option autoImplicit false

/-! ## The tree -/

/-- Absolute, by its names. -/
abbrev Path := List String

abbrev FileBytes := List UInt8

inductive Entry where
  | directory (dev ino : Nat)
  | symlink
  | other
  | file (ino : Nat)
  deriving DecidableEq

structure Inode where
  dev : Nat
  bytes : FileBytes
  mode : Nat
  atimeNs : Nat
  mtimeNs : Nat
  deriving DecidableEq

/-- Inodes from `next` on are free. -/
structure FileTree where
  entries : Path → Option Entry
  inodes : Nat → Inode
  next : Nat
  used : ∀ p ino, entries p = some (.file ino) → ino < next

inductive FileKind where
  | file
  | directory
  | symlink
  | other
  deriving DecidableEq

structure FileStat where
  kind : FileKind
  dev : Nat
  ino : Nat
  size : Nat
  mode : Nat
  atimeNs : Nat
  mtimeNs : Nat
  deriving DecidableEq

namespace FileTree

/-- The path leads to a file with these bytes. -/
def Holds (t : FileTree) (p : Path) (bytes : FileBytes) : Prop :=
  ∃ ino, t.entries p = some (.file ino) ∧ (t.inodes ino).bytes = bytes

/-- The path leads where it did, and if to a file, it is as it was. -/
structure Untouched (before after : FileTree) (p : Path) : Prop where
  entry : after.entries p = before.entries p
  inode : ∀ ino, before.entries p = some (.file ino) → after.inodes ino = before.inodes ino

theorem Untouched.refl (t : FileTree) (p : Path) : Untouched t t p := ⟨rfl, fun _ _ => rfl⟩

def inodeStat (t : FileTree) (ino : Nat) : FileStat :=
  let i := t.inodes ino
  ⟨.file, i.dev, ino, i.bytes.length, i.mode, i.atimeNs, i.mtimeNs⟩

def entryStat (t : FileTree) : Entry → FileStat
  | .directory dev ino => ⟨.directory, dev, ino, 0, 0, 0, 0⟩
  | .symlink => ⟨.symlink, 0, 0, 0, 0, 0, 0⟩
  | .other => ⟨.other, 0, 0, 0, 0, 0, 0⟩
  | .file ino => t.inodeStat ino

def isDirectory (t : FileTree) (p : Path) : Bool :=
  match t.entries p with
  | some (.directory ..) => true
  | _ => false

def remove (t : FileTree) (p : Path) : FileTree where
  entries := Function.update t.entries p none
  inodes := t.inodes
  next := t.next
  used q ino here := by
    by_cases same : q = p
    · rw [same, Function.update_self] at here
      cases here
    · rw [Function.update_of_ne same] at here
      exact t.used q ino here

/-- One more path to a file. -/
def attach (t : FileTree) (p : Path) (ino : Nat) (used : ino < t.next) : FileTree where
  entries := Function.update t.entries p (some (.file ino))
  inodes := t.inodes
  next := t.next
  used q i here := by
    by_cases same : q = p
    · rw [same, Function.update_self] at here
      cases here
      exact used
    · rw [Function.update_of_ne same] at here
      exact t.used q i here

/-- A new file. -/
def create (t : FileTree) (p : Path) (i : Inode) : FileTree where
  entries := Function.update t.entries p (some (.file t.next))
  inodes := Function.update t.inodes t.next i
  next := t.next + 1
  used q ino here := by
    by_cases same : q = p
    · rw [same, Function.update_self] at here
      cases here
      exact Nat.lt_succ_self _
    · rw [Function.update_of_ne same] at here
      exact Nat.lt_succ_of_lt (t.used q ino here)

def edit (t : FileTree) (ino : Nat) (i : Inode) : FileTree :=
  { t with inodes := Function.update t.inodes ino i }

end FileTree

/-! ## Calls -/

/-- An open file; it is written at its end. -/
abbrev Handle := Nat

inductive FileOp where
  | lstat (path : Path)
  /-- It must not be there yet. -/
  | openNew (path : Path) (mode : Nat)
  /-- What is there is emptied. -/
  | openEmpty (path : Path) (mode : Nat)
  /-- `O_RDONLY | O_NOFOLLOW` -/
  | openRead (path : Path)
  | read (file : Handle) (position maxBytes : Nat)
  | write (file : Handle) (chunk : FileBytes)
  | sync (file : Handle)
  | chmod (file : Handle) (mode : Nat)
  | utimes (file : Handle) (atimeNs mtimeNs : Nat)
  | stat (file : Handle)
  | close (file : Handle)
  | link (existing path : Path)
  | unlink (path : Path)
  | rename (old new : Path)
  deriving DecidableEq

/-- What a call resolves with. -/
def FileOp.Answer : FileOp → Type
  | .lstat _ => FileStat
  | .openNew .. => Handle
  | .openEmpty .. => Handle
  | .openRead _ => Handle
  | .read .. => FileBytes
  | .write .. => Nat
  | .stat _ => FileStat
  | _ => Unit

/-- What decides how a call goes: whether it is made to fail, how much it reads or writes of
what it could, the time, and the device of a new file. -/
structure Fate where
  failure : Option String
  amount : Nat
  now : Nat
  dev : Nat

def ENOENT : String := "ENOENT"

def EEXIST : String := "EEXIST"

/-- A new file, where there is a directory for it and nothing else. -/
def FileTree.openNew (t : FileTree) (path : Path) (mode : Nat) (fate : Fate) :
    Except String (Handle × FileTree) :=
  if t.isDirectory path.dropLast = false then .error ENOENT
  else if (t.entries path).isSome then .error EEXIST
  else .ok (t.next, t.create path ⟨fate.dev, [], mode, fate.now, fate.now⟩)

/-- What a call does, unless it is made to fail. -/
def FileOp.apply (t : FileTree) (fate : Fate) :
    (op : FileOp) → Except String (op.Answer × FileTree)
  | .lstat path =>
      match t.entries path with
      | none => .error ENOENT
      | some e => .ok (t.entryStat e, t)
  | .openNew path mode => t.openNew path mode fate
  | .openEmpty path mode =>
      match t.entries path with
      | some (.file ino) =>
          .ok (ino, t.edit ino { t.inodes ino with bytes := [], mtimeNs := fate.now })
      | some .symlink => .error "ELOOP"
      | some (.directory ..) => .error "EISDIR"
      | some .other => .error "ENXIO"
      | none => t.openNew path mode fate
  | .openRead path =>
      match t.entries path with
      | some (.file ino) => .ok (ino, t)
      | some .symlink => .error "ELOOP"
      | some _ => .error "EISDIR"
      | none => .error ENOENT
  | .read file position maxBytes =>
      -- a read before the end of the file gets something
      .ok (((t.inodes file).bytes.drop position).take (min (fate.amount + 1) maxBytes), t)
  | .write file chunk =>
      let n := min fate.amount chunk.length
      .ok (n, t.edit file
        { t.inodes file with bytes := (t.inodes file).bytes ++ chunk.take n, mtimeNs := fate.now })
  | .sync _ => .ok ((), t)
  | .chmod file mode => .ok ((), t.edit file { t.inodes file with mode })
  | .utimes file atimeNs mtimeNs =>
      .ok ((), t.edit file { t.inodes file with atimeNs, mtimeNs })
  | .stat file => .ok (t.inodeStat file, t)
  | .close _ => .ok ((), t)
  | .link existing path =>
      match here : t.entries existing with
      | some (.file ino) =>
          if t.isDirectory path.dropLast = false then .error ENOENT
          else if (t.entries path).isSome then .error EEXIST
          else .ok ((), t.attach path ino (t.used _ _ here))
      | some _ => .error "EPERM"
      | none => .error ENOENT
  | .unlink path =>
      match t.entries path with
      | some (.directory ..) => .error "EISDIR"
      | some _ => .ok ((), t.remove path)
      | none => .error ENOENT
  | .rename old new =>
      match here : t.entries old with
      | some (.file ino) =>
          if t.isDirectory new.dropLast = false then .error ENOENT
          else if t.isDirectory new then .error "EISDIR"
          -- two paths to one file stay
          else if t.entries new = some (.file ino) then .ok ((), t)
          else .ok ((), (t.attach new ino (t.used _ _ here)).remove old)
      | some _ => .error "EPERM"
      | none => .error ENOENT

/-- The tree, and the calls so far with their success. -/
structure Disk where
  tree : FileTree
  calls : List (FileOp × Bool)

/-- One call; one that fails changes nothing. -/
def act (op : FileOp) (d : Disk) (fate : Fate) : Except String op.Answer × Disk :=
  match fate.failure with
  | some message => (.error message, ⟨d.tree, d.calls ++ [(op, false)]⟩)
  | none =>
      match op.apply d.tree fate with
      | .error message => (.error message, ⟨d.tree, d.calls ++ [(op, false)]⟩)
      | .ok (answer, tree) => (.ok answer, ⟨tree, d.calls ++ [(op, true)]⟩)

/-- An async function of file-system calls. -/
abbrev Files (α : Type) := Async FileOp FileOp.Answer α

/-! ### The calls as functions -/

namespace Fsp

def lstat (path : Path) : Files FileStat := Async.call (FileOp.lstat path)

def openNew (path : Path) (mode : Nat) : Files Handle := Async.call (FileOp.openNew path mode)

def openEmpty (path : Path) (mode : Nat) : Files Handle := Async.call (FileOp.openEmpty path mode)

def openRead (path : Path) : Files Handle := Async.call (FileOp.openRead path)

def read (file : Handle) (position maxBytes : Nat) : Files FileBytes :=
  Async.call (FileOp.read file position maxBytes)

def write (file : Handle) (chunk : FileBytes) : Files Nat := Async.call (FileOp.write file chunk)

def sync (file : Handle) : Files Unit := Async.call (FileOp.sync file)

def chmod (file : Handle) (mode : Nat) : Files Unit := Async.call (FileOp.chmod file mode)

def utimes (file : Handle) (atimeNs mtimeNs : Nat) : Files Unit :=
  Async.call (FileOp.utimes file atimeNs mtimeNs)

def stat (file : Handle) : Files FileStat := Async.call (FileOp.stat file)

def close (file : Handle) : Files Unit := Async.call (FileOp.close file)

def link (existing path : Path) : Files Unit := Async.call (FileOp.link existing path)

def unlink (path : Path) : Files Unit := Async.call (FileOp.unlink path)

def rename (old new : Path) : Files Unit := Async.call (FileOp.rename old new)

end Fsp

/-- One call, by what it may answer. -/
theorem wp_file {op : FileOp} {Q : Except String op.Answer → Disk → Prop} {d : Disk}
    (fails : ∀ message, Q (.error message) ⟨d.tree, d.calls ++ [(op, false)]⟩)
    (works : ∀ fate answer tree, op.apply d.tree fate = .ok (answer, tree) →
      Q (.ok answer) ⟨tree, d.calls ++ [(op, true)]⟩) :
    (Company.alone act).wp (Async.call op) Q d := by
  refine Company.wp_act fun fate => ?_
  unfold act
  cases fate.failure with
  | some message => exact fails message
  | none =>
      dsimp only
      cases done : op.apply d.tree fate with
      | error message => exact fails message
      | ok result => exact works fate _ _ done

/-! ## What a call leaves -/

/-- Paths are what they were. -/
def FileOp.plain : FileOp → Bool
  | .link .. => false
  | .unlink _ => false
  | .rename .. => false
  | _ => true

/-- Further calls, that no path was changed by. -/
def PlainCalls (d d' : Disk) : Prop :=
  ∃ more, d'.calls = d.calls ++ more ∧ ∀ c ∈ more, c.1.plain = true

theorem PlainCalls.refl (d : Disk) : PlainCalls d d := ⟨[], by simp, by simp⟩

theorem PlainCalls.trans {d d' d'' : Disk} (first : PlainCalls d d') (next : PlainCalls d' d'') :
    PlainCalls d d'' := by
  obtain ⟨more, calls, plain⟩ := first
  obtain ⟨more', calls', plain'⟩ := next
  refine ⟨more ++ more', by rw [calls', calls, List.append_assoc], fun c member => ?_⟩
  rcases List.mem_append.mp member with old | new
  · exact plain c old
  · exact plain' c new

theorem PlainCalls.one (d : Disk) (tree : FileTree) {op : FileOp} (plain : op.plain = true)
    (done : Bool) : PlainCalls d ⟨tree, d.calls ++ [(op, done)]⟩ :=
  ⟨[(op, done)], rfl, fun c member => by
    rw [List.mem_singleton] at member
    rw [member]
    exact plain⟩

/-- Only looked at. -/
structure Reads (d d' : Disk) : Prop where
  tree : d'.tree = d.tree
  calls : PlainCalls d d'

theorem Reads.refl (d : Disk) : Reads d d := ⟨rfl, PlainCalls.refl d⟩

theorem Reads.trans {d d' d'' : Disk} (first : Reads d d') (next : Reads d' d'') : Reads d d'' :=
  ⟨next.tree.trans first.tree, first.calls.trans next.calls⟩

/-- Only an open file was changed. -/
structure Edits (file : Handle) (d d' : Disk) : Prop where
  entries : d'.tree.entries = d.tree.entries
  next : d'.tree.next = d.tree.next
  others : ∀ ino, ino ≠ file → d'.tree.inodes ino = d.tree.inodes ino
  calls : PlainCalls d d'

theorem Edits.trans {file : Handle} {d d' d'' : Disk} (first : Edits file d d')
    (next : Edits file d' d'') : Edits file d d'' :=
  ⟨next.entries.trans first.entries, next.next.trans first.next,
    fun ino other => (next.others ino other).trans (first.others ino other),
    first.calls.trans next.calls⟩

theorem Reads.edits {d d' : Disk} (reads : Reads d d') (file : Handle) : Edits file d d' :=
  ⟨by rw [reads.tree], by rw [reads.tree], fun _ _ => by rw [reads.tree], reads.calls⟩

theorem edit_edits (d : Disk) (file : Handle) (i : Inode) {op : FileOp}
    (plain : op.plain = true) :
    Edits file d ⟨d.tree.edit file i, d.calls ++ [(op, true)]⟩ :=
  ⟨rfl, rfl, fun _ other => Function.update_of_ne other _ _, PlainCalls.one d _ plain true⟩

theorem failed_edits (d : Disk) (file : Handle) {op : FileOp} (plain : op.plain = true) :
    Edits file d ⟨d.tree, d.calls ++ [(op, false)]⟩ :=
  ⟨rfl, rfl, fun _ _ => rfl, PlainCalls.one d _ plain false⟩

section Specs

variable {d : Disk}

/-- The calls that look. -/
theorem wp_look {op : FileOp} (plain : op.plain = true)
    (looks : ∀ fate answer tree, op.apply d.tree fate = .ok (answer, tree) → tree = d.tree) :
    (Company.alone act).wp (Async.call op) (fun r d' => Reads d d' ∧
      ∀ answer, r = .ok answer → ∃ fate, op.apply d.tree fate = .ok (answer, d.tree)) d := by
  refine wp_file (fun message => ⟨⟨rfl, PlainCalls.one d _ plain false⟩, by simp⟩)
    fun fate answer tree done => ?_
  cases looks fate answer tree done
  refine ⟨⟨rfl, PlainCalls.one d _ plain true⟩, fun answer' same => ?_⟩
  cases same
  exact ⟨fate, done⟩

theorem wp_lstat (path : Path) :
    (Company.alone act).wp (Fsp.lstat path) (fun r d' => Reads d d' ∧
      ∀ st, r = .ok st → ∃ e, d.tree.entries path = some e ∧ st = d.tree.entryStat e) d := by
  have looks : ∀ fate answer tree, (FileOp.lstat path).apply d.tree fate = .ok (answer, tree) →
      tree = d.tree ∧ ∃ e, d.tree.entries path = some e ∧ answer = d.tree.entryStat e := by
    intro fate answer tree done
    simp only [FileOp.apply] at done
    split at done
    · cases done
    · rename_i e there
      cases done
      exact ⟨rfl, e, there, rfl⟩
  refine Company.wp_mono (fun r d' here => ⟨here.1, fun st same => ?_⟩)
    (wp_look rfl fun fate answer tree done => (looks fate answer tree done).1)
  obtain ⟨fate, done⟩ := here.2 st same
  exact (looks fate st _ done).2

theorem wp_openRead (path : Path) :
    (Company.alone act).wp (Fsp.openRead path) (fun r d' => Reads d d' ∧
      ∀ file, r = .ok file → d.tree.entries path = some (.file file)) d := by
  have looks : ∀ fate answer tree, (FileOp.openRead path).apply d.tree fate = .ok (answer, tree) →
      tree = d.tree ∧ d.tree.entries path = some (.file answer) := by
    intro fate answer tree done
    simp only [FileOp.apply] at done
    split at done
    · rename_i ino there
      cases done
      exact ⟨rfl, there⟩
    · cases done
    · cases done
    · cases done
  refine Company.wp_mono (fun r d' here => ⟨here.1, fun file same => ?_⟩)
    (wp_look rfl fun fate answer tree done => (looks fate answer tree done).1)
  obtain ⟨fate, done⟩ := here.2 file same
  exact (looks fate file _ done).2

/-- A read gets part of what is left, and nothing only at the end. -/
theorem wp_read (file : Handle) (position : Nat) {maxBytes : Nat} (positive : 0 < maxBytes) :
    (Company.alone act).wp (Fsp.read file position maxBytes) (fun r d' => Reads d d' ∧
      ∀ chunk, r = .ok chunk → chunk <+: (d.tree.inodes file).bytes.drop position ∧
        (chunk = [] → (d.tree.inodes file).bytes.drop position = [])) d := by
  refine Company.wp_mono (fun r d' here => ⟨here.1, fun chunk same => ?_⟩)
    (wp_look rfl fun fate answer tree done => by cases done; rfl)
  obtain ⟨fate, done⟩ := here.2 chunk same
  cases done
  refine ⟨List.take_prefix _ _, fun empty => ?_⟩
  rcases List.take_eq_nil_iff.mp empty with none_ | left
  · omega
  · exact left

theorem wp_stat (file : Handle) :
    (Company.alone act).wp (Fsp.stat file) (fun r d' => Reads d d' ∧
      ∀ st, r = .ok st → st = d.tree.inodeStat file) d := by
  refine Company.wp_mono (fun r d' here => ⟨here.1, fun st same => ?_⟩)
    (wp_look rfl fun fate answer tree done => by cases done; rfl)
  obtain ⟨fate, done⟩ := here.2 st same
  cases done
  rfl

theorem wp_sync (file : Handle) :
    (Company.alone act).wp (Fsp.sync file) (fun _ d' => Reads d d') d :=
  Company.wp_mono (fun _ _ here => here.1)
    (wp_look rfl fun fate answer tree done => by cases done; rfl)

theorem wp_close (file : Handle) :
    (Company.alone act).wp (Fsp.close file) (fun _ d' => Reads d d') d :=
  Company.wp_mono (fun _ _ here => here.1)
    (wp_look rfl fun fate answer tree done => by cases done; rfl)

theorem wp_write (file : Handle) (chunk : FileBytes) :
    (Company.alone act).wp (Fsp.write file chunk) (fun r d' => Edits file d d' ∧
      ∀ n, r = .ok n → n ≤ chunk.length ∧
        (d'.tree.inodes file).bytes = (d.tree.inodes file).bytes ++ chunk.take n) d := by
  refine wp_file (fun message => ⟨failed_edits d file rfl, by simp⟩)
    fun fate answer tree done => ?_
  cases done
  refine ⟨edit_edits d file _ rfl, fun n same => ?_⟩
  cases same
  refine ⟨min_le_right _ _, ?_⟩
  simp [FileTree.edit]

/-- The mode and the times are set; the bytes stay. -/
theorem wp_chmod (file : Handle) (mode : Nat) :
    (Company.alone act).wp (Fsp.chmod file mode) (fun _ d' => Edits file d d' ∧
      (d'.tree.inodes file).bytes = (d.tree.inodes file).bytes) d := by
  refine wp_file (fun message => ⟨failed_edits d file rfl, rfl⟩)
    fun fate answer tree done => ?_
  cases done
  exact ⟨edit_edits d file _ rfl, by simp [FileTree.edit]⟩

theorem wp_utimes (file : Handle) (atimeNs mtimeNs : Nat) :
    (Company.alone act).wp (Fsp.utimes file atimeNs mtimeNs) (fun _ d' => Edits file d d' ∧
      (d'.tree.inodes file).bytes = (d.tree.inodes file).bytes) d := by
  refine wp_file (fun message => ⟨failed_edits d file rfl, rfl⟩)
    fun fate answer tree done => ?_
  cases done
  exact ⟨edit_edits d file _ rfl, by simp [FileTree.edit]⟩

/-- Nothing, or one new empty file. -/
theorem wp_openNew (path : Path) (mode : Nat) :
    (Company.alone act).wp (Fsp.openNew path mode) (fun r d' => PlainCalls d d' ∧ match r with
      | .ok file => file = d.tree.next ∧ d.tree.entries path = none ∧
          ∃ i, i.bytes = [] ∧ d'.tree = d.tree.create path i
      | .error _ => d'.tree = d.tree) d := by
  refine wp_file (fun message => ⟨PlainCalls.one d _ rfl false, rfl⟩)
    fun fate answer tree done => ?_
  simp only [FileOp.apply, FileTree.openNew] at done
  split at done
  · cases done
  · split at done
    · cases done
    · rename_i free
      cases done
      exact ⟨PlainCalls.one d _ rfl true, rfl, by simpa using free, _, rfl, rfl⟩

/-- The calls that change what a path leads to. -/
theorem wp_unlink (path : Path) :
    (Company.alone act).wp (Fsp.unlink path) (fun r d' => match r with
      | .ok _ => d' = ⟨d.tree.remove path, d.calls ++ [(.unlink path, true)]⟩
      | .error _ => d' = ⟨d.tree, d.calls ++ [(.unlink path, false)]⟩) d := by
  refine wp_file (fun message => rfl) fun fate answer tree done => ?_
  simp only [FileOp.apply] at done
  split at done
  · cases done
  · cases done
    rfl
  · cases done

theorem wp_link (existing path : Path) :
    (Company.alone act).wp (Fsp.link existing path) (fun r d' => match r with
      | .ok _ => d.tree.entries path = none ∧ ∃ ino used,
          d.tree.entries existing = some (.file ino) ∧
            d' = ⟨d.tree.attach path ino used, d.calls ++ [(.link existing path, true)]⟩
      | .error _ => d' = ⟨d.tree, d.calls ++ [(.link existing path, false)]⟩) d := by
  refine wp_file (fun message => rfl) fun fate answer tree done => ?_
  simp only [FileOp.apply] at done
  split at done
  · rename_i ino there
    split at done
    · cases done
    · split at done
      · cases done
      · rename_i free
        cases done
        exact ⟨by simpa using free, ino, _, there, rfl⟩
  · cases done
  · cases done

theorem wp_rename (old new : Path) :
    (Company.alone act).wp (Fsp.rename old new) (fun r d' => match r with
      | .ok _ => ∃ ino used, d.tree.entries old = some (.file ino) ∧
          (d.tree.entries new = some (.file ino) ∨
            d' = ⟨(d.tree.attach new ino used).remove old, d.calls ++ [(.rename old new, true)]⟩)
      | .error _ => d' = ⟨d.tree, d.calls ++ [(.rename old new, false)]⟩) d := by
  refine wp_file (fun message => rfl) fun fate answer tree done => ?_
  simp only [FileOp.apply] at done
  split at done
  · rename_i ino there
    split at done
    · cases done
    · split at done
      · cases done
      · split at done
        · rename_i same
          cases done
          exact ⟨ino, d.tree.used _ _ there, there, Or.inl same⟩
        · cases done
          exact ⟨ino, _, there, Or.inr rfl⟩
  · cases done
  · cases done

end Specs

/-! ### Functions that only look -/

/-- It changes no file, whatever it ends in. -/
def Looks {α : Type} (x : Files α) : Prop :=
  ∀ d, (Company.alone act).wp x (fun _ d' => Reads d d') d

namespace Looks

variable {α β : Type}

theorem pure (a : α) : Looks (Pure.pure a : Files α) := fun d => Company.wp_pure (Reads.refl d)

theorem throw (message : String) : Looks (throw message : Files α) := fun d =>
  Company.wp_throw (Reads.refl d)

theorem require (held : Prop) [Decidable held] (message : String) :
    Looks (Async.require held message : Files Unit) := fun d =>
  Company.wp_require (fun _ => Reads.refl d) fun _ => Reads.refl d

theorem bind {x : Files α} {f : α → Files β} (first : Looks x) (next : ∀ a, Looks (f a)) :
    Looks (x >>= f) := fun d =>
  Company.wp_then (first d)
    (fun a _ reads => Company.wp_mono (fun _ _ more => reads.trans more) (next a _))
    fun _ _ reads => reads

theorem handle {x : Files α} {h : String → Files α} (first : Looks x)
    (next : ∀ message, Looks (h message)) : Looks (tryCatch x h) := fun d => by
  refine Company.wp_catch (Company.wp_mono (fun r d' reads => ?_) (first d))
  cases r with
  | ok a => exact reads
  | error message => exact Company.wp_mono (fun _ _ more => reads.trans more) (next message d')

theorem onError {x : Files α} {cleanup : Files β} (first : Looks x) (next : Looks cleanup) :
    Looks (x.onError cleanup) :=
  first.handle fun message => next.bind fun _ => throw message

theorem quietly {x : Files α} (first : Looks x) : Looks x.quietly :=
  (first.bind fun _ => pure ()).handle fun _ => pure ()

theorem lstat (path : Path) : Looks (Fsp.lstat path) := fun _ =>
  Company.wp_mono (fun _ _ here => here.1) (wp_lstat path)

theorem openRead (path : Path) : Looks (Fsp.openRead path) := fun _ =>
  Company.wp_mono (fun _ _ here => here.1) (wp_openRead path)

theorem read (file : Handle) (position maxBytes : Nat) :
    Looks (Fsp.read file position maxBytes) := fun _ =>
  Company.wp_mono (fun _ _ here => here.1)
    (wp_look rfl fun fate answer tree done => by cases done; rfl)

theorem close (file : Handle) : Looks (Fsp.close file) := fun _ => wp_close file

end Looks

end Kiagent.Platform
