/-
# Marketplace.Installer -- an extension is previewed, then committed

A preview stages a package and checks it; what it returns is known by a token until it is
committed, discarded or evicted.  A commit moves the package into the extensions' directory,
around the extension's private `data`, and records it in `installed.json`.

A commit is a list of file operations, decided by what it finds.  A preview is taken at its
last turn, when the package is downloaded and unpacked: what is downloaded, and what is found
at a local path, is `Outside`.  Hashing and unpacking are `Deps`.
-/
import Mathlib

namespace Kiagent.Marketplace.Installer

set_option autoImplicit false

/-! ## Data -/

structure Manifest where
  id : String
  version : String
  /-- The ids of the sources it contributes. -/
  sources : List String
  deriving DecidableEq, Repr

/-- The files of a package: what `validateManifestDir` makes of them, whether there is a
`data` among them, and their size. -/
structure Package where
  manifest : Except String Manifest
  hasData : Bool
  sizeBytes : Nat

inductive Origin where
  | marketplace
  | dev
  deriving DecidableEq, Repr

structure PendingInstall where
  token : Nat
  package : Package
  manifest : Manifest
  sizeBytes : Nat
  integrity : Option String
  ref : String
  origin : Origin

structure InstalledRecord where
  id : String
  version : String
  ref : String
  integrity : Option String
  installedAt : String
  origin : Origin
  deriving DecidableEq, Repr

/-- An extension's directory: what came with its package, and its own `data`. -/
structure Dir (Data : Type) where
  files : Package
  data : Option Data

/-- The extensions' directory; `backups` holds each `<id>.data-backup`. -/
structure Disk (Data : Type) where
  dirs : String → Option (Dir Data)
  backups : String → Option Data
  installed : List InstalledRecord

/-- Tokens are never given twice; `pending` is in the order of the previews. -/
structure State (Data : Type) where
  pending : List PendingInstall
  nextToken : Nat
  disk : Disk Data

structure Deps (Bytes : Type) where
  sha512 : Bytes → String
  unpack : Bytes → Except String Package

inductive LocalPath where
  | missing
  | directory (package : Package)
  | archive (package : Except String Package)
  | other

structure Outside (Bytes : Type) where
  /-- The dependency `download`, if it is there, and its answer with the pinned ref. -/
  download : Option (Except String (Bytes × String))
  /-- What `path.resolve` makes of the ref, and what is there. -/
  abs : String
  found : LocalPath
  sourceIdOwners : String → Option String

def MAX_PENDING : Nat := 8

section Functions

variable {Bytes Data : Type} (deps : Deps Bytes)

/-! ## Preview -/

def startsWith (ref start : String) : Bool := start.toList.isPrefixOf ref.toList

def isMarketplace (ref : String) : Bool := startsWith ref "github:" || startsWith ref "https:"

/-- The package that is staged, its integrity, and the ref to record. -/
def stage (outside : Outside Bytes) (ref : String) :
    Except String (Package × Option String × String) :=
  if isMarketplace ref then
    match outside.download with
    | none => .error
        "marketplace installs are not available yet — install from a local path"
    | some answer => do
        let (bytes, pinnedRef) ← answer
        let package ← deps.unpack bytes
        return (package, some ("sha512-" ++ deps.sha512 bytes), pinnedRef)
  else
    match outside.found with
    | .missing => .error ("no such path: " ++ ref)
    -- the copy leaves `data` out
    | .directory package => .ok ({ package with hasData := false }, none, "file:" ++ outside.abs)
    | .archive package => do
        return (← package, none, "file:" ++ outside.abs)
    | .other => .error "local ref must be a directory or a .tgz"

/-- A source that another extension provides, with its owner. -/
def taken (owners : String → Option String) (manifest : Manifest) : Option (String × String) :=
  manifest.sources.findSome? fun sid =>
    match owners sid with
    | some owner => if owner ≠ "" ∧ owner ≠ manifest.id then some (sid, owner) else none
    | none => none

/-- The record that the bytes differ from. -/
def differs (installed : List InstalledRecord) (manifest : Manifest) (integrity : String) : Bool :=
  match installed.find? fun r => r.id = manifest.id with
  | none => false
  | some prior =>
      match prior.integrity with
      | none => false
      | some pinned =>
          prior.version = manifest.version && pinned ≠ "" && pinned ≠ integrity

def evict (token : Nat) (s : State Data) : State Data :=
  { s with pending := s.pending.filter fun p => p.token ≠ token }

/-- The checks on a staged package. -/
def inspect (outside : Outside Bytes) (installed : List InstalledRecord) (package : Package)
    (integrity : Option String) : Except String Manifest := do
  if package.hasData then
    throw "package ships a 'data/' directory — 'data/' is reserved for extension-private state"
  let manifest ← package.manifest
  if let some (sid, owner) := taken outside.sourceIdOwners manifest then
    throw ("source id '" ++ sid ++ "' is already provided by " ++ owner)
  if integrity.any (differs installed manifest) then
    throw "integrity check failed: bytes differ from the pinned install for this version"
  return manifest

def preview (outside : Outside Bytes) (ref : String) (s : State Data) :
    Except String (PendingInstall × State Data) :=
  if startsWith ref "http:" then
    .error "insecure http: refs are not supported — use an https: URL or a github: ref"
  else do
    let (package, integrity, recordRef) ← stage deps outside ref
    let manifest ← inspect outside s.disk.installed package integrity
    let entry : PendingInstall := {
      token := s.nextToken
      package := package
      manifest := manifest
      sizeBytes := package.sizeBytes
      integrity := integrity
      ref := recordRef
      origin := if isMarketplace ref then .marketplace else .dev }
    let pending := s.pending ++ [entry]
    return (entry, { s with
      nextToken := s.nextToken + 1
      pending := if MAX_PENDING < pending.length then pending.tail else pending })

def find (token : Nat) (s : State Data) : Except String PendingInstall :=
  match s.pending.find? fun p => p.token = token with
  | some p => .ok p
  | none => .error "unknown or expired install token — run preview again"

def peek (token : Nat) (s : State Data) : Except String String :=
  (find token s).map fun p => p.manifest.id

def peekRef (token : Nat) (s : State Data) : Except String (String × Origin) :=
  (find token s).map fun p => (p.ref, p.origin)

def discard (token : Nat) (s : State Data) : State Data := evict token s

def discardAll (s : State Data) : State Data := { s with pending := [] }

/-! ## Commit -/

/-- The file operations of a commit; `copyIn` and `rmStaging` are for a package staged on
another device. -/
inductive FileOp where
  | mkdir
  | rmBackup
  | dataAside
  | rmDir
  | renameIn (package : Package)
  | copyIn (package : Package)
  | rmStaging
  | dataBack
  | writeInstalled (record : InstalledRecord)

def setDir (id : String) (dir : Option (Dir Data)) (d : Disk Data) : Disk Data :=
  { d with dirs := Function.update d.dirs id dir }

def setBackup (id : String) (data : Option Data) (d : Disk Data) : Disk Data :=
  { d with backups := Function.update d.backups id data }

/-- The rename of `data` to the backup. -/
def dataAside (id : String) (d : Disk Data) : Disk Data :=
  match d.dirs id with
  | some ⟨files, some data⟩ => setBackup id (some data) (setDir id (some ⟨files, none⟩) d)
  | _ => d

/-- The rename of the backup to `data`. -/
def dataBack (id : String) (d : Disk Data) : Disk Data :=
  match d.dirs id, d.backups id with
  | some dir, some data => setBackup id none (setDir id (some { dir with data := some data }) d)
  | _, _ => d

/-- An operation, for the extension `id`. -/
def perform (id : String) (d : Disk Data) : FileOp → Disk Data
  | .mkdir => d
  | .rmBackup => setBackup id none d
  | .dataAside => dataAside id d
  | .rmDir => setDir id none d
  | .renameIn package => setDir id (some ⟨package, none⟩) d
  | .copyIn package => setDir id (some ⟨package, none⟩) d
  | .rmStaging => d
  | .dataBack => dataBack id d
  | .writeInstalled record =>
      { d with installed := (d.installed.filter fun r => r.id ≠ record.id) ++ [record] }

def moveDir (crossDevice : Bool) (package : Package) : List FileOp :=
  if crossDevice then [.copyIn package, .rmStaging] else [.renameIn package]

def PendingInstall.record (p : PendingInstall) (installedAt : String) : InstalledRecord :=
  ⟨p.manifest.id, p.manifest.version, p.ref, p.integrity, installedAt, p.origin⟩

/-- The operations on an extension's directory, by what is found of it. -/
def moveOps (found : Option (Dir Data)) (p : PendingInstall) (crossDevice : Bool) : List FileOp :=
  match found with
  | none => moveDir crossDevice p.package
  | some ⟨_, none⟩ => .rmDir :: moveDir crossDevice p.package
  | some ⟨_, some _⟩ =>
      .rmBackup :: .dataAside :: .rmDir :: (moveDir crossDevice p.package ++ [.dataBack])

/-- What a commit of `p` does. -/
def commitOps (found : Option (Dir Data)) (p : PendingInstall) (crossDevice : Bool)
    (installedAt : String) : List FileOp :=
  .mkdir :: (moveOps found p crossDevice ++ [.writeInstalled (p.record installedAt)])

def performAll (id : String) (d : Disk Data) (ops : List FileOp) : Disk Data :=
  ops.foldl (perform id) d

def commit (token : Nat) (crossDevice : Bool) (installedAt : String) (s : State Data) :
    Except String (InstalledRecord × State Data) := do
  let p ← find token s
  return (p.record installedAt, { evict token s with
    disk := performAll p.manifest.id s.disk
      (commitOps (s.disk.dirs p.manifest.id) p crossDevice installedAt) })

/-- The platform's `uninstall`, of what is kept here. -/
def uninstall (id : String) (s : State Data) : State Data :=
  { s with disk := { setDir id none s.disk with
      installed := s.disk.installed.filter fun r => r.id ≠ id } }

end Functions

end Kiagent.Marketplace.Installer
