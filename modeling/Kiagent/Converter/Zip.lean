/-
# Converter.Zip -- an archive, expanded page by page

A page walks the central directory from where the last one stopped, by the offset of the next
header or, without it, past the headers it has seen.  A mailbox, address book or note export
in the archive stops the page: the source extracts it, and the next pages are those of its
own expander, until it is done or the source gives it up.
-/
import Kiagent.Converter.PageBounds

namespace Kiagent.Converter

set_option autoImplicit false

/-! ## Members -/

inductive NestedKind where
  | mbox
  | vcard
  | enex
  deriving DecidableEq

inductive ContainerKind where
  | nested (kind : NestedKind)
  | zip
  | pst
  deriving DecidableEq

/-- An entry of the central directory, and the bytes of its member if they can be read. -/
structure ZipEntry where
  fileName : String
  encrypted : Bool
  compressedSize : Nat
  uncompressedSize : Nat
  crc32 : Nat
  mtime : String
  /-- Of its header, what comes after the fixed part. -/
  variableBytes : Nat
  payload : Option Bytes

def ZipEntry.headerBytes (e : ZipEntry) : Nat := 46 + e.variableBytes

def ZipEntry.isDirectory (e : ZipEntry) : Bool := e.fileName.toList.getLast? = some '/'

inductive Pipeline where
  | inlineText
  | converter
  | other
  deriving DecidableEq

inductive FileDecision where
  | ignore
  | index (eager : Bool) (pipeline : Pipeline)

/-- What a local file is routed by, and what its bytes are read with. -/
structure Routing where
  resolvePathMime : String → String
  /-- By its name, path, type and size. -/
  decideFileIndexing : String → String → String → Nat → FileDecision
  utf8 : Bytes → String
  capMarkdown : String → String
  parseDetailed : Bytes → String → String → Except String (Option String)
  messageChild : Bytes → Bool → Option ChildItem
  cardChild : Bytes → Option ChildItem
  noteChild : Bytes → Bool → Option ChildItem

def MAX_MEMBER_BYTES : Nat := 20 * 1024 * 1024

def MAX_ZIP_CHILDREN : Nat := 100000

def MAX_RATIO : Nat := 100

def RATIO_FLOOR : Nat := 1024 * 1024

def HEAD_NAMES : Nat := 50

def NESTED_LINES : Nat := 50

/-- Where neither a directory nor an empty name ends. -/
def basename (member : String) : String :=
  String.ofList ((member.toList.splitOn '/').getLastD [])

/-- Behind the last dot, unless it comes first. -/
def extensionOf (base : List Char) : List Char :=
  match base.reverse.span (· ≠ '.') with
  | (ext, _ :: _ :: _) => ext.reverse
  | _ => []

def containerKindOf (filename mime : String) : Option ContainerKind :=
  let base := ((filename.toList.map Char.toLower).splitOnP fun c => c = '\\' || c = '/').getLastD []
  let ext := String.ofList (extensionOf base)
  if ext = "mbox" ∨ mime = "application/mbox" then some (.nested .mbox)
  else if ext = "zip" then some .zip
  else if ext = "vcf" then some (.nested .vcard)
  else if ext = "enex" then some (.nested .enex)
  else if ext = "pst" then some .pst
  else none

def ZipEntry.bomb (e : ZipEntry) : Bool :=
  RATIO_FLOOR < e.uncompressedSize && e.compressedSize * MAX_RATIO < e.uncompressedSize

section Member

variable (R : Routing)

/-- What the pager expands in place. -/
def nestedKindOf (e : ZipEntry) : Option NestedKind :=
  if e.encrypted || e.bomb then none
  else
    match containerKindOf (basename e.fileName) (R.resolvePathMime e.fileName) with
    | some (.nested kind) => some kind
    | _ => none

def nameOnly (member : String) : ChildItem where
  key := "zip:" ++ member
  type := "file"
  title := basename member
  markdown := none
  createdAt := none

/-- None if it cannot be read or inflates past the cap. -/
def readMember (e : ZipEntry) : Option Bytes := e.payload.filter fun b => b.length ≤ MAX_MEMBER_BYTES

def memberChild (e : ZipEntry) : Option ChildItem :=
  let filename := basename e.fileName
  let mime := R.resolvePathMime e.fileName
  let child := nameOnly e.fileName
  match R.decideFileIndexing filename e.fileName mime e.uncompressedSize with
  | .ignore => none
  | .index eager pipeline =>
      if e.encrypted || e.bomb || !(eager && (pipeline = .inlineText || pipeline = .converter)) ||
          MAX_MEMBER_BYTES < e.uncompressedSize || (containerKindOf filename mime).isSome then
        some child
      else
        match readMember e with
        | none => some child
        | some bytes =>
            if pipeline = .inlineText then
              if (0 : UInt8) ∈ bytes then some child
              else some { child with markdown := some (R.capMarkdown (R.utf8 bytes)) }
            else
              match R.parseDetailed bytes mime filename with
              | .ok (some markdown) =>
                  some { child with
                    markdown := if markdown = "" then none else some (R.capMarkdown markdown) }
              | _ => some child

end Member

/-! ## Pages inside a member -/

inductive InnerResume where
  | mbox (s : MboxResume)
  | vcard (s : VcardResume)
  | enex (s : EnexResume)
  deriving DecidableEq

def ExpandResult.map {σ τ : Type} (f : σ → τ) (r : ExpandResult σ) : ExpandResult τ where
  items := r.items
  resume := r.resume.map f
  summary := r.summary
  tail := r.tail.map f
  restart := r.restart

def InnerResume.asMbox : InnerResume → Option MboxResume
  | .mbox s => some s
  | _ => none

def InnerResume.asVcard : InnerResume → Option VcardResume
  | .vcard s => some s
  | _ => none

def InnerResume.asEnex : InnerResume → Option EnexResume
  | .enex s => some s
  | _ => none

/-- The expander of a kind; it is handed back its own states only. -/
def pageInner (R : Routing) (kind : NestedKind) (file : Bytes) (inner : Option InnerResume)
    (turn : Turn) : ExpandResult InnerResume :=
  match kind with
  | .mbox => (expandMbox "" file R.messageChild (inner.bind InnerResume.asMbox) turn).map .mbox
  | .vcard => (expandVcard "" file R.cardChild (inner.bind InnerResume.asVcard) turn).map .vcard
  | .enex => (expandEnex "" file R.noteChild (inner.bind InnerResume.asEnex) turn).map .enex

/-! ## The archive -/

/-- A file, with what the library shows of its walk: the cursor, and the entries read. -/
structure Archive where
  file : String
  start : Nat
  entries : List ZipEntry
  showsCursor : Bool
  showsRead : Bool

/-- The header at an offset, the first one being at `start`. -/
def headerAt : List ZipEntry → Nat → Nat → Option ZipEntry
  | [], _, _ => none
  | e :: es, start, cursor =>
      if cursor = start then some e else headerAt es (start + e.headerBytes) cursor

def Archive.offset (A : Archive) (i : Nat) : Nat :=
  A.start + ((A.entries.take i).map ZipEntry.headerBytes).sum

/-! ## The state -/

structure NestedState where
  member : String
  index : Nat
  cd : Nat
  size : Nat
  crc32 : Nat
  mtime : String
  kind : NestedKind
  inner : Option InnerResume
  items : Nat
  /-- The copy is there. -/
  file : Bool
  /-- It was given up. -/
  skip : Bool
  deriving DecidableEq

structure ZipResume where
  index : Nat
  cd : Option Nat
  count : Nat
  head : List String
  children : Option Nat
  nestedLines : Option (List String)
  nestedOmitted : Option Nat
  nested : Option NestedState
  deriving DecidableEq

def ZipResume.first : ZipResume := ⟨0, none, 0, [], some 0, none, none, none⟩

/-- A budget, and what the clock says: after the member in progress and after each entry. -/
structure ZipTurn where
  budget : ExpandBudget
  elapsed : Nat → Nat
  inner : Nat → Nat

structure ZipPage where
  items : List ChildItem
  bytes : Nat
  state : ZipResume

structure ZipResult where
  items : List ChildItem
  resume : Option ZipResume
  summary : Option String
  deriving DecidableEq

def nounOf (kind : NestedKind) (n : Nat) : String :=
  match kind with
  | .mbox => if n = 1 then "message" else "messages"
  | .vcard => if n = 1 then "card" else "cards"
  | .enex => if n = 1 then "note" else "notes"

def andMore (n : Nat) : List String :=
  if 0 < n then ["…and " ++ localeString n ++ " more"] else []

def zipSummary (file : String) (s : ZipResume) (capped : Bool) : String :=
  let head := "# " ++ basename file ++ " — " ++ (if capped then "first " else "") ++
    localeString s.count ++ " file" ++ if s.count = 1 then "" else "s"
  let lines := s.nestedLines.getD []
  "\n\n".intercalate ([head] ++
    (if lines = [] then []
      else ["\n".intercalate (lines ++ andMore (s.nestedOmitted.getD 0))]) ++
    if s.head = [] then []
    else ["\n".intercalate (s.head.map fun m => "- " ++ m)] ++ andMore (s.count - s.head.length))

/-- One more file. -/
def ZipResume.counted (s : ZipResume) (member : String) : ZipResume :=
  { s with
    count := s.count + 1
    head := if s.head.length < HEAD_NAMES then s.head ++ [member] else s.head }

/-- A nested member is done: expanded or name-only. -/
def finishNested (s : ZipResume) (n : NestedState) (expanded : Bool) : ZipResume :=
  let s := s.counted n.member
  let s :=
    if expanded then
      let line := "- " ++ n.member ++ " — " ++ localeString n.items ++ " " ++ nounOf n.kind n.items
      let lines := s.nestedLines.getD []
      if lines.length < NESTED_LINES then { s with nestedLines := some (lines ++ [line]) }
      else { s with
        nestedLines := some lines
        nestedOmitted := some (s.nestedOmitted.getD 0 + 1) }
    else s
  { s with nested := none }

namespace ZipPage

def children (p : ZipPage) : Nat := p.state.children.getD 0

def capped (p : ZipPage) : Bool := MAX_ZIP_CHILDREN ≤ p.children

def spent (p : ZipPage) (turn : ZipTurn) (k : Nat) : Bool :=
  reached turn.budget.items p.items.length || reached turn.budget.bytes p.bytes ||
    reached turn.budget.ms (turn.elapsed k)

def add (p : ZipPage) (c : ChildItem) : ZipPage where
  items := p.items ++ [c]
  bytes := p.bytes + c.byteLength
  state := { p.state with children := some (p.children + 1) }

def addAll (p : ZipPage) (cs : List ChildItem) : ZipPage := cs.foldl add p

end ZipPage

def rekeyed (member : String) (c : ChildItem) : ChildItem :=
  { c with key := "zip:" ++ member ++ "#" ++ c.key }

section Expand

variable (R : Routing) (A : Archive)

def ZipPage.stop (p : ZipPage) : ZipResult := ⟨p.items, some p.state, none⟩

def ZipPage.finish (p : ZipPage) (capped : Bool) : ZipResult :=
  ⟨p.items, none, some (zipSummary A.file p.state capped)⟩

/-- One child at least, however little is left. -/
def innerTurn (turn : ZipTurn) (p : ZipPage) : Turn where
  budget :=
    { items := some (max 1 (match turn.budget.items with
        | some m => min (m - p.items.length) (MAX_ZIP_CHILDREN - p.children)
        | none => MAX_ZIP_CHILDREN - p.children))
      bytes := turn.budget.bytes.map (· - p.bytes)
      ms := turn.budget.ms.map (· - turn.elapsed 0) }
  elapsed := turn.inner

/-- A member in progress; the page goes on behind it, or stops. -/
def expandNested (turn : ZipTurn) (p : ZipPage) (n : NestedState) : ZipPage ⊕ ZipResult :=
  if n.skip then
    let p := p.add (nameOnly n.member)
    .inl { p with state := finishNested p.state n false }
  else if n.file then
    let file := ((A.entries[n.index]?.bind ZipEntry.payload).getD [])
    let r := pageInner R n.kind file n.inner (innerTurn turn p)
    let p := p.addAll (r.items.map (rekeyed n.member))
    let n := { n with items := n.items + r.items.length }
    match r.resume with
    | none => .inl { p with state := finishNested p.state n true }
    | some inner =>
        let p := { p with
          state := { p.state with nested := some { n with inner := some inner, file := false } } }
        .inr (if p.capped then p.finish A true else p.stop)
  else
    .inr { p with state := { p.state with nested := some { n with file := false } } }.stop

/-- The walk, with `left` headers to come, the next at the cursor. -/
def walkEntries (turn : ZipTurn) : Nat → Nat → Nat → ZipPage → Except String ZipResult
  | 0, _, _, p => .ok (p.finish A false)
  | left + 1, cursor, i, p =>
      match headerAt A.entries A.start cursor with
      | none => .error "invalid central directory file header signature"
      | some e =>
          let next := cursor + e.headerBytes
          if i < p.state.index then walkEntries turn left next (i + 1) p
          else
            let state := { p.state with
              index := i + 1
              cd := if A.showsCursor then some next else p.state.cd }
            if e.isDirectory then walkEntries turn left next (i + 1) { p with state }
            else
              match (if A.showsCursor then nestedKindOf R e else none) with
              | some kind =>
                  .ok { p with
                    state := { state with
                      nested := some
                        { member := e.fileName
                          index := i
                          cd := cursor
                          size := e.uncompressedSize
                          crc32 := e.crc32
                          mtime := e.mtime
                          kind
                          inner := none
                          items := 0
                          file := false
                          skip := false } } }.stop
              | none =>
                  match memberChild R e with
                  | some child =>
                      let added := ({ p with state }).add child
                      let p := { added with state := added.state.counted e.fileName }
                      if p.capped then .ok (p.finish A true)
                      else if p.spent turn (i + 1) then .ok p.stop
                      else walkEntries turn left next (i + 1) p
                  | none =>
                      if ({ p with state }).spent turn (i + 1) then .ok ({ p with state }).stop
                      else walkEntries turn left next (i + 1) { p with state }

/-- From the next header, if its offset is known and the library can be set to it. -/
def walk (turn : ZipTurn) (p : ZipPage) : Except String ZipResult :=
  match (if A.showsCursor && A.showsRead then p.state.cd else none) with
  | some cd =>
      walkEntries R A turn (A.entries.length - p.state.index) cd p.state.index p
  | none => walkEntries R A turn A.entries.length A.start 0 p

def expandZip (resume : Option ZipResume) (turn : ZipTurn) : Except String ZipResult :=
  let state := match resume with
    | some s => { s with children := some (s.children.getD s.count) }
    | none => ZipResume.first
  let p : ZipPage := ⟨[], 0, state⟩
  match state.nested with
  | none => walk R A turn p
  | some n =>
      match expandNested R A turn p n with
      | .inr result => .ok result
      | .inl p =>
          if p.capped then .ok (p.finish A true)
          else if p.spent turn 0 then .ok p.stop
          else walk R A turn p

end Expand

/-! ## The source between two pages -/

/-- What comes of a member the walk waits for. -/
inductive Supply where
  | extracted
  | missing
  | unavailable
  deriving DecidableEq

/-- It is given up only before any of it was expanded. -/
def NestedState.progressed (n : NestedState) : Bool := n.inner.isSome || 0 < n.items

/-- A state to page, or one to keep. -/
def sourceStep (s : ZipResume) (supply : Supply) : ZipResume × Bool :=
  match s.nested with
  | none => (s, true)
  | some n =>
      if n.skip then (s, true)
      else
        match supply with
        | .extracted => ({ s with nested := some { n with file := true } }, true)
        | .missing => (s, true)
        | .unavailable =>
            if n.progressed then (s, false)
            else ({ s with nested := some { n with skip := true } }, false)

structure Walk where
  resume : Option ZipResume
  emitted : List ChildItem
  done : Bool
  failed : Bool
  deriving DecidableEq

def Walk.first : Walk := ⟨none, [], false, false⟩

/-- A step of the source, and a page if it is time for one. -/
def Walk.step (R : Routing) (A : Archive) (w : Walk) (turn : ZipTurn) (supply : Supply) : Walk :=
  if w.done then w
  else
    let (resume, pages) := match w.resume with
      | none => (none, true)
      | some s => let (s, pages) := sourceStep s supply; (some s, pages)
    if pages then
      match expandZip R A resume turn with
      | .error _ => { w with done := true, failed := true }
      | .ok r => ⟨r.resume, w.emitted ++ r.items, r.resume.isNone, false⟩
    else { w with resume }

/-- After so many steps. -/
def walkOf (R : Routing) (A : Archive) (turns : Nat → ZipTurn) (supplies : Nat → Supply) :
    Nat → Walk
  | 0 => Walk.first
  | n + 1 => (walkOf R A turns supplies n).step R A (turns n) (supplies n)

end Kiagent.Converter
