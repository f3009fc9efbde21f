/-
# Store.Batch -- what a source hands to the store

`DocumentInput` and `CommitBatch` in its variants, with the two digests the store
takes of them (`Deps`), and the length of their JSON text, which is what a
forwarded batch is cut by.

A field that may be absent is an `Option`; `error` distinguishes three cases
(absent, `null`, a text), hence the double option.  The cursor is opaque JSON to
the store and is kept as its text.
-/
import Kiagent.Store.Rows

namespace Kiagent.Store

set_option autoImplicit false

structure DocumentInput where
  externalId : String
  type : String
  title : Option String
  markdown : Option String
  url : Option String
  metadata : JsonObject
  createdAt : Option Time
  parent : Option ExternalRef
  scopeRootId : Option String
  deriving DecidableEq, Repr

namespace DocumentInput

def ref (d : DocumentInput) : ExternalRef := ⟨d.externalId, d.type⟩

end DocumentInput

/-- A parent link to resolve in the committing transaction. -/
structure LinkPair where
  child : ExternalRef
  parent : ExternalRef
  deriving DecidableEq, Repr

structure AccountProgress where
  done : Nat
  totalEstimate : Option Nat
  base : Option Nat
  deriving DecidableEq, Repr

inductive ErrorScope where
  | reconcile
  | pull
  deriving DecidableEq, Repr

/-- The account variant of `CommitBatch`. -/
structure AccountBatch where
  account : AccountId
  documents : List DocumentInput
  deletions : Option (List ExternalRef)
  cursor : Option String
  status : Option String
  progress : Option AccountProgress
  error : Option (Option String)
  errorScope : Option ErrorScope
  relink : Option (List LinkPair)
  deriving DecidableEq, Repr

namespace AccountBatch

def deleted (b : AccountBatch) : List ExternalRef := b.deletions.getD []

def links (b : AccountBatch) : List LinkPair := b.relink.getD []

end AccountBatch

/-! ## The other variants -/

inductive Outcome where
  | done
  | skip
  | failed
  | deferred
  deriving DecidableEq, Repr

structure EnrichInput where
  documentId : DocumentId
  markdown : Option String
  metadata : Option JsonObject
  deriving DecidableEq, Repr

structure LedgerEntry where
  seq : Nat
  attempts : Nat
  outcome : Option Outcome
  deriving DecidableEq, Repr

/-- The worker variant of `CommitBatch`. -/
structure ConsumerBatch where
  consumer : String
  cursor : Option Nat
  documents : List DocumentInput
  enrich : List EnrichInput
  seedCursor : Option Nat
  ledger : List LedgerEntry
  deriving DecidableEq, Repr

inductive CommitBatch where
  | account (batch : AccountBatch)
  | consumer (batch : ConsumerBatch)
  | removeAccount (id : AccountId)
  | purgeArchived (before : Time)
  deriving DecidableEq, Repr

/-! ## Digests -/

/-- The fields `contentHash` covers: the parent and the references are not
among them. -/
structure HashedContent where
  title : Option String
  markdown : Option String
  url : Option String
  metadata : JsonObject
  createdAt : Option Time
  deriving DecidableEq, Repr

/-- What the write transactions are given: the digests and the detector of
languages.  Ids are digests of length-prefixed parts and are taken to be
collision-free. -/
structure Deps where
  sha256 : HashedContent → String
  idDigest : String → List String → String
  idDigest_injective : ∀ kind parts parts',
    idDigest kind parts = idDigest kind parts' → parts = parts'
  detectLanguages : String → List String

def contentHash (deps : Deps) (d : DocumentInput) : String :=
  deps.sha256 ⟨d.title, d.markdown, d.url, d.metadata, d.createdAt⟩

def hashedId (deps : Deps) (kind : String) (parts : List String) : String :=
  deps.idDigest kind parts

def documentId (deps : Deps) (account : AccountId) (r : ExternalRef) : DocumentId :=
  hashedId deps "document" [account, r.externalId, r.type]

theorem documentId_injective (deps : Deps) {a a' : AccountId} {r r' : ExternalRef}
    (same : documentId deps a r = documentId deps a' r') : a = a' ∧ r = r' := by
  have parts := deps.idDigest_injective _ _ _ same
  simp only [List.cons.injEq, and_true] at parts
  obtain ⟨account, external, type⟩ := parts
  cases r
  cases r'
  simp_all

/-! ## Digests to run by hand -/

/-- A text after which any other can follow: every character is announced. -/
def spellText : List Char → List Char
  | [] => ['-']
  | c :: cs => '+' :: c :: spellText cs

def spellTexts : List (List Char) → List Char
  | [] => []
  | t :: ts => spellText t ++ spellTexts ts

theorem spellText_append : {t t' rest rest' : List Char} →
    spellText t ++ rest = spellText t' ++ rest' → t = t' ∧ rest = rest'
  | [], [], _, _, same => by simpa [spellText] using same
  | [], _ :: _, _, _, same => by simp [spellText] at same
  | _ :: _, [], _, _, same => by simp [spellText] at same
  | _ :: _, _ :: _, _, _, same => by
      simp only [spellText, List.cons_append, List.cons.injEq, true_and] at same
      obtain ⟨rfl, same⟩ := same
      obtain ⟨rfl, rfl⟩ := spellText_append same
      exact ⟨rfl, rfl⟩

theorem spellTexts_injective : {ts ts' : List (List Char)} → spellTexts ts = spellTexts ts' →
    ts = ts'
  | [], [], _ => rfl
  | [], [] :: _, same => by simp [spellTexts, spellText] at same
  | [], (_ :: _) :: _, same => by simp [spellTexts, spellText] at same
  | [] :: _, [], same => by simp [spellTexts, spellText] at same
  | (_ :: _) :: _, [], same => by simp [spellTexts, spellText] at same
  | _ :: _, _ :: _, same => by
      obtain ⟨rfl, later⟩ := spellText_append same
      rw [spellTexts_injective later]

/-- Digests that spell their input out: collision-free, and computable. -/
def Deps.spelled : Deps where
  sha256 h := String.ofList (spellTexts [(h.title.getD "").toList, (h.markdown.getD "").toList])
  idDigest kind parts := kind ++ String.ofList (spellTexts (parts.map String.toList))
  idDigest_injective kind parts parts' same := by
    have chars := congrArg String.toList same
    simp only [String.toList_append, String.toList_ofList, List.append_cancel_left_eq] at chars
    exact List.map_injective_iff.2 (fun _ _ => String.toList_inj.1) (spellTexts_injective chars)
  detectLanguages _ := []

/-! ## JSON lengths -/

/-- UTF-16 units one character takes inside a JSON string. -/
def jsonCharLength (c : Char) : Nat :=
  if c = '\"' ∨ c = '\\' then 2
  else if c = '\n' ∨ c = '\r' ∨ c = '\t' ∨ c.toNat = 8 ∨ c.toNat = 12 then 2
  else if c.toNat < 32 then 6
  else if c.toNat < 65536 then 1
  else 2

/-- `.length` of a JavaScript string. -/
def utf16Length (s : String) : Nat := (s.toList.map fun c => if c.toNat < 65536 then 1 else 2).sum

def jsonStringLength (s : String) : Nat := 2 + (s.toList.map jsonCharLength).sum

def jsonNatLength (n : Nat) : Nat := (toString n).length

/-- A nullable text: `null` or the string. -/
def jsonNullable (s : Option String) : Nat :=
  match s with
  | none => 4
  | some s => jsonStringLength s

/-- `"name":value` inside an object. -/
def jsonField (name : String) (value : Nat) : Nat := jsonStringLength name + 1 + value

/-- A field left out when it is `undefined`. -/
def jsonOptional (name : String) (value : Option Nat) : List Nat :=
  (value.map (jsonField name)).toList

/-- Members between brackets, separated by commas. -/
def jsonSeq (members : List Nat) : Nat := 2 + members.sum + (members.length - 1)

def jsonRefLength (r : ExternalRef) : Nat :=
  jsonSeq [jsonField "externalId" (jsonStringLength r.externalId),
    jsonField "type" (jsonStringLength r.type)]

/-- An ISO-8601 instant between quotes. -/
def jsonTimeLength : Nat := 26

/-- `JSON.stringify(document).length`, without binary content. -/
def jsonDocLength (d : DocumentInput) : Nat :=
  jsonSeq <|
    [jsonField "externalId" (jsonStringLength d.externalId),
      jsonField "type" (jsonStringLength d.type),
      jsonField "title" (jsonNullable d.title),
      jsonField "markdown" (jsonNullable d.markdown)] ++
    jsonOptional "url" (d.url.map jsonStringLength) ++
    [jsonField "metadata" (jsonSeq (d.metadata.map fun m => jsonField m.1 (utf16Length m.2))),
      jsonField "createdAt" (if d.createdAt.isSome then jsonTimeLength else 4)] ++
    jsonOptional "parent" (d.parent.map jsonRefLength) ++
    jsonOptional "scopeRootId" (d.scopeRootId.map jsonStringLength)

def jsonLinkLength (l : LinkPair) : Nat :=
  jsonSeq [jsonField "child" (jsonRefLength l.child), jsonField "parent" (jsonRefLength l.parent)]

def jsonProgressLength (p : AccountProgress) : Nat :=
  jsonSeq <|
    [jsonField "done" (jsonNatLength p.done)] ++
    jsonOptional "totalEstimate" (p.totalEstimate.map jsonNatLength) ++
    jsonOptional "base" (p.base.map jsonNatLength)

def jsonScopeLength : ErrorScope → Nat
  | .reconcile => jsonStringLength "reconcile"
  | .pull => jsonStringLength "pull"

/-- `JSON.stringify(batch).length` for an account batch. -/
def jsonBatchLength (b : AccountBatch) : Nat :=
  jsonSeq <|
    [jsonField "account" (jsonStringLength b.account),
      jsonField "documents" (jsonSeq (b.documents.map jsonDocLength))] ++
    jsonOptional "deletions" (b.deletions.map fun refs => jsonSeq (refs.map jsonRefLength)) ++
    jsonOptional "cursor" (b.cursor.map utf16Length) ++
    jsonOptional "status" (b.status.map jsonStringLength) ++
    jsonOptional "progress" (b.progress.map jsonProgressLength) ++
    jsonOptional "error" (b.error.map jsonNullable) ++
    jsonOptional "errorScope" (b.errorScope.map jsonScopeLength) ++
    jsonOptional "relink" (b.relink.map fun pairs => jsonSeq (pairs.map jsonLinkLength))

end Kiagent.Store
