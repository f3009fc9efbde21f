/-
# Imap.Scope -- which mailboxes a folder selection syncs

The mailboxes of an account come from LIST.  Three functions decide separately what a
selection of them means: `pickerModel` is the tree the user picks from, built over the
parent links; `validateSelection` keeps the picked ids the picker offers;
`resolveScopedMailboxes` finds the mailboxes of the roots by prefixes of the paths.
`defaultRoots` is what is picked before the user is asked.

The loops over parent links get as many rounds as there are candidates.
-/
import Mathlib

namespace Kiagent.Imap

set_option autoImplicit false

abbrev Text := List Char

/-! ## Mailboxes -/

/-- `ImapFolderInfo`: one mailbox as LIST returns it.  The flags are in lower case. -/
structure FolderInfo where
  path : Text
  /-- A mark with its backslash. -/
  specialUse : Option Text
  flags : List Text
  delimiter : Option Char
  parentPath : Option Text
  deriving DecidableEq, Repr

/-- A LIST result: it names a mailbox once. -/
structure Listing where
  folders : List FolderInfo
  distinct : (folders.map FolderInfo.path).Nodup

inductive SpecialKind where
  | trash
  | junk
  | drafts
  deriving DecidableEq, Repr

/-- `\x7b path, rootId \x7d`: the id is the root's that covers the mailbox. -/
structure ScopedMailbox where
  path : Text
  rootId : Text
  deriving DecidableEq, Repr

structure FolderRootSelection where
  id : Text
  name : Text
  deriving DecidableEq, Repr

structure FolderNode where
  id : Text
  name : Text
  hasChildren : Bool
  deriving DecidableEq, Repr

/-! ## Texts -/

/-- `toLowerCase`, of which only a Kelvin sign has an ASCII letter besides the letters. -/
def toLowerCase (text : Text) : Text := text.map fun c => if c = '\u212a' then 'k' else c.toLower

/-- `toUpperCase`, of which only a dotless i has an ASCII letter besides the letters. -/
def toUpperCase (text : Text) : Text := text.map fun c => if c = '\u0131' then 'I' else c.toUpper

/-- A pattern `^word$` with the flag `i`, which folds ASCII letters only. -/
def isWord (name : Text) (word : String) : Bool := name.map Char.toLower = word.toList

def anyWord (words : List String) (name : Text) : Bool := words.any (isWord name)

/-- The last part of a split at separators. -/
def lastPart (separator : Char → Bool) (path : Text) : Text :=
  (path.reverse.takeWhile fun c => !separator c).reverse

def slashOrDot (c : Char) : Bool := c = '/' || c = '.'

def FolderInfo.leaf (f : FolderInfo) : Text :=
  match f.delimiter with
  | some d => lastPart (· = d) f.path
  | none => lastPart slashOrDot f.path

def seps (delimiter : Option Char) : List Char :=
  match delimiter with
  | some d => [d]
  | none => ['/', '.']

/-- INBOX is case-insensitive: its leading segment is folded. -/
def norm (path : Text) (delimiter : Option Char) : Text :=
  if toUpperCase (path.take 5) ≠ "INBOX".toList then path
  else
    match path[5]? with
    | none => "INBOX".toList ++ path.drop 5
    | some next =>
        if next ∈ seps delimiter then "INBOX".toList ++ path.drop 5 else path

def samePath (rootId path : Text) : Bool := norm rootId none = norm path none

/-! ## Flags and special mailboxes -/

def FolderInfo.isNonExistent (f : FolderInfo) : Bool := f.flags.contains "\\nonexistent".toList

/-- It holds no messages. -/
def FolderInfo.unsyncable (f : FolderInfo) : Bool :=
  f.flags.contains "\\noselect".toList || f.isNonExistent

/-- `f.specialUse?.toLowerCase() === mark` -/
def FolderInfo.marked (f : FolderInfo) (mark : String) : Bool :=
  f.specialUse.any fun use => toLowerCase use = mark.toList

/-- `SPECIAL_USE` -/
def FolderInfo.specialUseKind (f : FolderInfo) : Option SpecialKind :=
  if f.marked "\\trash" then some .trash
  else if f.marked "\\junk" then some .junk
  else if f.marked "\\drafts" then some .drafts
  else none

/-- `SPECIAL_NAMES` -/
def nameKind (name : Text) : Option SpecialKind :=
  if anyWord ["trash", "deleted items", "deleted messages", "bin"] name then some .trash
  else if anyWord ["junk", "junk e-mail", "junk email", "spam", "bulk mail"] name then some .junk
  else if anyWord ["draft", "drafts"] name then some .drafts
  else none

/-- By the mark first, else by the name. -/
def specialKind (f : FolderInfo) : Option SpecialKind :=
  match f.specialUseKind with
  | some kind => some kind
  | none => nameKind f.leaf

def allMailFolder (folders : List FolderInfo) : Option FolderInfo :=
  folders.find? fun f => f.marked "\\all"

def isTrashOrJunk (f : FolderInfo) : Bool :=
  specialKind f = some .trash || specialKind f = some .junk

/-- Does this root select the mailbox: the same path, or an ancestor of it. -/
def covers (rootId : Text) (f : FolderInfo) : Bool :=
  let r := norm rootId f.delimiter
  let p := norm f.path f.delimiter
  p = r || (seps f.delimiter).any fun s => (r ++ [s]).isPrefixOf p

def specialPathsOf (folders : List FolderInfo) : List FolderInfo :=
  folders.filter fun f => (specialKind f).isSome

def underSpecial (f : FolderInfo) (specials : List FolderInfo) : Bool :=
  specials.any fun s =>
    decide (s ≠ f) && (seps f.delimiter).any fun d => (s.path ++ [d]).isPrefixOf f.path

def isRoot (roots : List FolderRootSelection) (f : FolderInfo) : Bool :=
  roots.any fun r => samePath r.id f.path

/-! ## Default mailboxes -/

/-- A JavaScript set of the values, in the order of their first places. -/
def uniq (texts : List Text) : List Text := texts.eraseDups

/-- `ALL_NAMES`, of the last part behind a slash or a dot. -/
def allNamed (f : FolderInfo) : Bool := anyWord ["all mail", "all"] (lastPart slashOrDot f.path)

/-- `SENT_NAMES` -/
def sentNamed (f : FolderInfo) : Bool :=
  anyWord ["sent", "sent mail", "sent items"] (lastPart slashOrDot f.path)

/-- The all-mail mailbox, or INBOX if there is none. -/
def allOrInbox (folders : List FolderInfo) : Option FolderInfo :=
  match folders.find? fun f => f.marked "\\all" with
  | some all => some all
  | none =>
      match folders.find? allNamed with
      | some byName => some byName
      | none => folders.find? fun f => toUpperCase f.path = "INBOX".toList

def sentFolder (folders : List FolderInfo) : Option FolderInfo :=
  match folders.find? fun f => f.marked "\\sent" with
  | some sent => some sent
  | none => folders.find? sentNamed

/-- The paths, each once; the role a mailbox is found for is not used. -/
def resolveMailboxes (folders : List FolderInfo) : List Text :=
  uniq (((allOrInbox folders).toList ++ (sentFolder folders).toList).map FolderInfo.path)

def archiveFolder (folders : List FolderInfo) : Option FolderInfo :=
  folders.find? fun f => f.marked "\\archive" && !f.unsyncable

/-- Roots preselected on connect. -/
def defaultRoots (folders : List FolderInfo) : List FolderRootSelection :=
  let paths :=
    match allMailFolder folders with
    | some all => [all.path]
    | none => resolveMailboxes folders ++ (archiveFolder folders).toList.map FolderInfo.path
  let distinct := uniq paths
  let covering := distinct.filter fun p =>
    match folders.find? fun f => f.path = p with
    | none => true
    | some f => !distinct.any fun q => decide (q ≠ p) && covers q f
  covering.map fun p => ⟨p, p⟩

/-! ## The resolver -/

/-- The root a mailbox is synced for, if any. -/
def rootIdOf (folders : List FolderInfo) (roots : List FolderRootSelection) (f : FolderInfo) :
    Option Text :=
  let all := allMailFolder folders
  -- A root whose mailbox left the LIST does not cover the children that remain.
  let liveRoots := roots.filter fun r =>
    folders.any fun g => !g.isNonExistent && samePath r.id g.path
  if isTrashOrJunk f then
    if isRoot roots f then some f.path else none
  else if specialKind f = some .drafts then none
  else
    match all with
    | some all => if f = all && isRoot roots f then some f.path else none
    | none =>
        if underSpecial f (specialPathsOf folders) then none
        else (liveRoots.find? fun r => covers r.id f).map FolderRootSelection.id

/-- One mailbox of the loop. -/
def resolveOne (folders : List FolderInfo) (roots : List FolderRootSelection)
    (out : List ScopedMailbox) (f : FolderInfo) : List ScopedMailbox :=
  if f.unsyncable || out.any fun m => m.path = f.path then out
  else
    match rootIdOf folders roots f with
    | none => out
    | some rootId => out ++ [⟨f.path, rootId⟩]

/-- `none` are the roots of an account that never declared any. -/
def resolveScopedMailboxes (folders : List FolderInfo)
    (roots : Option (List FolderRootSelection)) : List ScopedMailbox :=
  match roots with
  | none => (resolveMailboxes folders).map fun p => ⟨p, p⟩
  | some roots => folders.foldl (resolveOne folders roots) []

/-! ## The picker -/

/-- The row for Trash or Junk: the marked mailbox, else the first of the name. -/
def optIn (folders : List FolderInfo) (kind : SpecialKind) : Option FolderInfo :=
  let cands := folders.filter fun f =>
    decide (specialKind f = some kind) && !f.unsyncable &&
      !underSpecial f (specialPathsOf folders)
  match cands.find? fun f => f.specialUseKind = some kind with
  | some marked => some marked
  | none => cands.head?

def optInNodes (folders : List FolderInfo) : List FolderNode :=
  ((optIn folders .trash).toList.map fun f => ⟨f.path, "Trash".toList, false⟩) ++
    ((optIn folders .junk).toList.map fun f => ⟨f.path, "Junk".toList, false⟩)

/-- What the tree may show: mailboxes and containers that are there, none special. -/
def candidates (folders : List FolderInfo) : List FolderInfo :=
  folders.filter fun f =>
    !(f.isNonExistent || (specialKind f).isSome || underSpecial f (specialPathsOf folders))

def candAt (cand : List FolderInfo) (id : Text) : Option FolderInfo :=
  cand.find? fun f => f.path = id

/-- The parent's path, which an empty text is not. -/
def FolderInfo.parent (f : FolderInfo) : Option Text :=
  match f.parentPath with
  | some (c :: cs) => some (c :: cs)
  | _ => none

/-- A candidate is shown with the candidates its parent links lead to. -/
def climb (cand : List FolderInfo) : Nat → FolderInfo → List Text → List Text
  | 0, _, shown => shown
  | rounds + 1, cur, shown =>
      if cur.path ∈ shown then shown
      else
        match cur.parent.bind (candAt cand) with
        | some up => climb cand rounds up (shown ++ [cur.path])
        | none => shown ++ [cur.path]

def shownPaths (cand : List FolderInfo) : List Text :=
  cand.foldl (fun shown f => if f.unsyncable then shown else climb cand cand.length f shown) []

structure PickerModel where
  roots : List FolderNode
  children : Text → List FolderNode
  expand : List Text → List Text
  node : Text → Option FolderNode
  optInIds : List Text

/-- The shown ancestors of an id, the nearest first. -/
def ancestors (cand : List FolderInfo) (shown : List Text) : Nat → Option Text → List Text
  | 0, _ => []
  | _, none => []
  | rounds + 1, some p =>
      if p ∈ shown then p :: ancestors cand shown rounds ((candAt cand p).bind FolderInfo.parent)
      else []

def pickerModel (folders : List FolderInfo) : PickerModel :=
  let optIns := optInNodes folders
  let optInIds := optIns.map FolderNode.id
  match allMailFolder folders with
  | some all =>
      let roots := ⟨all.path, "All Mail".toList, false⟩ :: optIns
      { roots := roots
        children := fun _ => []
        expand := fun _ => []
        node := fun id => roots.find? fun n => n.id = id
        optInIds := optInIds }
  | none =>
      let cand := candidates folders
      let shown := shownPaths cand
      let rows := folders.filter fun f => f.path ∈ shown
      let inner := fun f : FolderInfo => f.parent.any fun p => p ∈ shown
      let kids := fun id => rows.filter fun f => inner f && decide (f.parent = some id)
      let node := fun f : FolderInfo => (⟨f.path, f.leaf, !(kids f.path).isEmpty⟩ : FolderNode)
      { roots := (rows.filter fun f => !inner f).map node ++ optIns
        children := fun id => (kids id).map node
        expand := fun selected => uniq ((selected.flatMap fun id =>
          ancestors cand shown cand.length ((candAt cand id).bind FolderInfo.parent)).filter
            fun p => p ∉ selected)
        node := fun id =>
          match optIns.find? fun n => n.id = id with
          | some row => some row
          | none => if id ∈ shown then (candAt cand id).map node else none
        optInIds := optInIds }

/-! ## A picked selection -/

/-- `imap: select at least one mail folder (not only Trash or Junk)` -/
inductive SelectionError where
  | noMailFolder
  deriving DecidableEq, Repr

/-- The roots a pick becomes. -/
def validateSelection (folders : List FolderInfo) (pickedIds : List Text) :
    Except SelectionError (List FolderRootSelection) :=
  let model := pickerModel folders
  let ids := (uniq pickedIds).filter fun id => (model.node id).isSome
  if ids.any fun id => id ∉ model.optInIds then .ok (ids.map fun id => ⟨id, id⟩)
  else .error .noMailFolder

end Kiagent.Imap
