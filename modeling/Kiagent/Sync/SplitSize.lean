/-
# Sync.SplitSize -- how large the pieces of a split batch are

`splitBatch` counts what `JSON.stringify` gives in UTF-16 units; a forwarded request is
capped in the bytes of its UTF-8 text.  A character of the text that is not ASCII takes
more bytes than units (`extra`), and nothing else does (`jsonBatchBytes_eq`).

`split_conserves` says what the pieces hold, whatever is split.  `split_bounded_iff` says
for which batches every piece stays under the bound, whatever the bound is.
-/
import Kiagent.Sync.Owned

namespace Kiagent.Sync

open Kiagent.Store

set_option autoImplicit false

/-! ## Bytes -/

/-- Bytes one character takes inside a JSON string. -/
def jsonCharBytes (c : Char) : Nat := if c.toNat < 128 then jsonCharLength c else c.utf8Size

def jsonStringBytes (s : String) : Nat := 2 + (s.toList.map jsonCharBytes).sum

def utf8Length (s : String) : Nat := (s.toList.map Char.utf8Size).sum

def jsonNullableBytes (s : Option String) : Nat :=
  match s with
  | none => 4
  | some s => jsonStringBytes s

def jsonRefBytes (r : ExternalRef) : Nat :=
  jsonSeq [jsonField "externalId" (jsonStringBytes r.externalId),
    jsonField "type" (jsonStringBytes r.type)]

/-- `Buffer.byteLength(JSON.stringify(document))`, without binary content. -/
def jsonDocBytes (d : DocumentInput) : Nat :=
  jsonSeq <|
    [jsonField "externalId" (jsonStringBytes d.externalId),
      jsonField "type" (jsonStringBytes d.type),
      jsonField "title" (jsonNullableBytes d.title),
      jsonField "markdown" (jsonNullableBytes d.markdown)] ++
    jsonOptional "url" (d.url.map jsonStringBytes) ++
    [jsonField "metadata"
        (jsonSeq (d.metadata.map fun m => jsonStringBytes m.1 + 1 + utf8Length m.2)),
      jsonField "createdAt" (if d.createdAt.isSome then jsonTimeLength else 4)] ++
    jsonOptional "parent" (d.parent.map jsonRefBytes) ++
    jsonOptional "scopeRootId" (d.scopeRootId.map jsonStringBytes)

def jsonLinkBytes (l : LinkPair) : Nat :=
  jsonSeq [jsonField "child" (jsonRefBytes l.child), jsonField "parent" (jsonRefBytes l.parent)]

def jsonBatchBytes (b : AccountBatch) : Nat :=
  jsonSeq <|
    [jsonField "account" (jsonStringBytes b.account),
      jsonField "documents" (jsonSeq (b.documents.map jsonDocBytes))] ++
    jsonOptional "deletions" (b.deletions.map fun refs => jsonSeq (refs.map jsonRefBytes)) ++
    jsonOptional "cursor" (b.cursor.map utf8Length) ++
    jsonOptional "status" (b.status.map jsonStringBytes) ++
    jsonOptional "progress" (b.progress.map jsonProgressLength) ++
    jsonOptional "error" (b.error.map jsonNullableBytes) ++
    jsonOptional "errorScope" (b.errorScope.map jsonScopeLength) ++
    jsonOptional "relink" (b.relink.map fun pairs => jsonSeq (pairs.map jsonLinkBytes))

/-! ## What is not ASCII -/

/-- The bytes of a character past its UTF-16 units. -/
def charExtra (c : Char) : Nat :=
  if c.toNat < 128 then 0 else if c.toNat < 2048 then 1 else 2

def extra (s : String) : Nat := (s.toList.map charExtra).sum

def isAscii (s : String) : Prop := ∀ c ∈ s.toList, c.toNat < 128

def refTexts (r : ExternalRef) : List String := [r.externalId, r.type]

/-- Every text of a document. -/
def docTexts (d : DocumentInput) : List String :=
  [d.externalId, d.type] ++ d.title.toList ++ d.markdown.toList ++ d.url.toList ++
    (d.metadata.flatMap fun m => [m.1, m.2]) ++ d.parent.toList.flatMap refTexts ++
    d.scopeRootId.toList

def batchTexts (b : AccountBatch) : List String :=
  [b.account] ++ b.documents.flatMap docTexts ++ (b.deletions.toList.flatten.flatMap refTexts) ++
    b.cursor.toList ++ b.status.toList ++ b.error.toList.flatMap Option.toList ++
    (b.relink.toList.flatten.flatMap fun l => refTexts l.child ++ refTexts l.parent)

def extras (texts : List String) : Nat := (texts.map extra).sum

theorem extra_eq_zero {s : String} : extra s = 0 ↔ isAscii s := by
  rw [extra, List.sum_eq_zero_iff]
  simp only [List.mem_map, forall_exists_index, and_imp, forall_apply_eq_imp_iff₂, isAscii]
  refine forall₂_congr fun c _ => ?_
  rw [charExtra]
  split
  · simp_all
  · split <;> simp_all

theorem extras_eq_zero {texts : List String} : extras texts = 0 ↔ ∀ s ∈ texts, isAscii s := by
  rw [extras, List.sum_eq_zero_iff]
  simp [extra_eq_zero]

theorem extras_append (ss ts : List String) : extras (ss ++ ts) = extras ss + extras ts := by
  simp [extras]

theorem extras_flatMap {α : Type} (f : α → List String) (xs : List α) :
    extras (xs.flatMap f) = (xs.map fun x => extras (f x)).sum := by
  induction xs with
  | nil => rfl
  | cons x xs ih => simp [extras_append, ih]

/-! ## Units and bytes -/

/-- In Unicode a character of four bytes takes two units. -/
theorem utf8Size_eq (c : Char) :
    c.utf8Size = (if c.toNat < 65536 then 1 else 2) + charExtra c := by
  have first : c.val ≤ 0x7f ↔ c.toNat ≤ 127 := UInt32.le_iff_toNat_le
  have second : c.val ≤ 0x7ff ↔ c.toNat ≤ 2047 := UInt32.le_iff_toNat_le
  have third : c.val ≤ 0xffff ↔ c.toNat ≤ 65535 := UInt32.le_iff_toNat_le
  have size : c.utf8Size =
      if c.val ≤ 0x7f then 1 else if c.val ≤ 0x7ff then 2 else if c.val ≤ 0xffff then 3 else 4 :=
    rfl
  rw [size, charExtra]
  simp only [first, second, third]
  split_ifs <;> omega

theorem jsonCharBytes_eq (c : Char) : jsonCharBytes c = jsonCharLength c + charExtra c := by
  rw [jsonCharBytes]
  split
  · rename_i ascii
    simp [charExtra, ascii]
  · rename_i wide
    have plain : jsonCharLength c = if c.toNat < 65536 then 1 else 2 := by
      have other : ∀ d : Char, d.toNat < 128 → c ≠ d := fun d small same => wide (same ▸ small)
      rw [jsonCharLength, if_neg, if_neg, if_neg]
      · omega
      · rintro (same | same | same | same | same)
        · exact other '\n' (by decide) same
        · exact other '\r' (by decide) same
        · exact other '\t' (by decide) same
        · omega
        · omega
      · rintro (same | same)
        · exact other '\"' (by decide) same
        · exact other '\\' (by decide) same
    rw [plain, utf8Size_eq]

theorem sum_map_add {α : Type} (f g h : α → Nat) (same : ∀ x, f x = g x + h x) (xs : List α) :
    (xs.map f).sum = (xs.map g).sum + (xs.map h).sum := by
  rw [← List.sum_map_add]
  exact congrArg List.sum (List.map_congr_left fun x _ => same x)

theorem jsonStringBytes_eq (s : String) : jsonStringBytes s = jsonStringLength s + extra s := by
  rw [jsonStringBytes, jsonStringLength, extra, sum_map_add _ _ _ jsonCharBytes_eq, Nat.add_assoc]

theorem utf8Length_eq (s : String) : utf8Length s = utf16Length s + extra s := by
  rw [utf8Length, utf16Length, extra, sum_map_add _ _ _ utf8Size_eq]

/-- Members with a total of `e` bytes more. -/
def Lengthened (ms ns : List Nat) (e : Nat) : Prop := ns.length = ms.length ∧ ns.sum = ms.sum + e

namespace Lengthened

variable {ms ns ms' ns' : List Nat} {e e' : Nat}

theorem nil : Lengthened [] [] 0 := ⟨rfl, rfl⟩

theorem cons {m n : Nat} (first : n = m + e) (rest : Lengthened ms ns e') :
    Lengthened (m :: ms) (n :: ns) (e + e') := by
  obtain ⟨length, sum⟩ := rest
  refine ⟨by simp [length], ?_⟩
  rw [List.sum_cons, List.sum_cons]
  omega

theorem append (first : Lengthened ms ns e) (rest : Lengthened ms' ns' e') :
    Lengthened (ms ++ ms') (ns ++ ns') (e + e') := by
  obtain ⟨length, sum⟩ := first
  obtain ⟨length', sum'⟩ := rest
  refine ⟨by simp [length, length'], ?_⟩
  rw [List.sum_append, List.sum_append]
  omega

theorem map {α : Type} {f g h : α → Nat} (same : ∀ x, f x = g x + h x) (xs : List α) :
    Lengthened (xs.map g) (xs.map f) (xs.map h).sum :=
  ⟨by simp, sum_map_add f g h same xs⟩

theorem optional {α : Type} {f g h : α → Nat} (name : String) (same : ∀ x, f x = g x + h x)
    (x : Option α) : Lengthened (jsonOptional name (x.map g)) (jsonOptional name (x.map f))
      (x.toList.map h).sum := by
  cases x with
  | none => exact nil
  | some x =>
      have first : jsonField name (f x) = jsonField name (g x) + h x := by
        rw [jsonField, jsonField, same]
        omega
      exact cons first nil

theorem seq (grown : Lengthened ms ns e) : jsonSeq ns = jsonSeq ms + e := by
  obtain ⟨length, sum⟩ := grown
  rw [jsonSeq, jsonSeq, length, sum]
  omega

end Lengthened

theorem jsonField_eq (name : String) {m n e : Nat} (same : n = m + e) :
    jsonField name n = jsonField name m + e := by
  rw [jsonField, jsonField, same]
  omega

theorem jsonNullableBytes_eq (s : Option String) :
    jsonNullableBytes s = jsonNullable s + extras s.toList := by
  cases s with
  | none => rfl
  | some s => simp [jsonNullableBytes, jsonNullable, jsonStringBytes_eq, extras]

theorem jsonRefBytes_eq (r : ExternalRef) :
    jsonRefBytes r = jsonRefLength r + extras (refTexts r) := by
  have grown := Lengthened.cons (jsonField_eq "externalId" (jsonStringBytes_eq r.externalId))
    (Lengthened.cons (jsonField_eq "type" (jsonStringBytes_eq r.type)) Lengthened.nil)
  exact grown.seq.trans (by simp [jsonRefLength, extras, refTexts])

theorem jsonLinkBytes_eq (l : LinkPair) :
    jsonLinkBytes l = jsonLinkLength l + extras (refTexts l.child ++ refTexts l.parent) := by
  have grown := Lengthened.cons (jsonField_eq "child" (jsonRefBytes_eq l.child))
    (Lengthened.cons (jsonField_eq "parent" (jsonRefBytes_eq l.parent)) Lengthened.nil)
  exact grown.seq.trans (by simp [jsonLinkLength, extras_append])

theorem jsonMemberBytes_eq (m : String × String) :
    jsonStringBytes m.1 + 1 + utf8Length m.2 =
      jsonField m.1 (utf16Length m.2) + extras [m.1, m.2] := by
  rw [jsonField, jsonStringBytes_eq, utf8Length_eq, extras]
  simp only [List.map_cons, List.map_nil, List.sum_cons, List.sum_nil]
  omega

theorem jsonDocBytes_eq (d : DocumentInput) :
    jsonDocBytes d = jsonDocLength d + extras (docTexts d) := by
  have head := Lengthened.cons (jsonField_eq "externalId" (jsonStringBytes_eq d.externalId))
    (Lengthened.cons (jsonField_eq "type" (jsonStringBytes_eq d.type))
      (Lengthened.cons (jsonField_eq "title" (jsonNullableBytes_eq d.title))
        (Lengthened.cons (jsonField_eq "markdown" (jsonNullableBytes_eq d.markdown)) Lengthened.nil)))
  have metadata := Lengthened.cons
    (jsonField_eq "metadata" (Lengthened.map jsonMemberBytes_eq d.metadata).seq)
    (Lengthened.cons (jsonField_eq "createdAt" (e := 0)
      (m := if d.createdAt.isSome then jsonTimeLength else 4) rfl) Lengthened.nil)
  have grown := (((head.append (Lengthened.optional "url" jsonStringBytes_eq d.url)).append
    metadata).append (Lengthened.optional "parent" jsonRefBytes_eq d.parent)).append
    (Lengthened.optional "scopeRootId" jsonStringBytes_eq d.scopeRootId)
  refine grown.seq.trans ?_
  rw [jsonDocLength, docTexts]
  simp only [extras_append, extras_flatMap]
  simp only [extras, List.map_cons, List.map_nil, List.sum_cons, List.sum_nil]
  omega

theorem jsonBatchBytes_eq (b : AccountBatch) :
    jsonBatchBytes b = jsonBatchLength b + extras (batchTexts b) := by
  have head := Lengthened.cons (jsonField_eq "account" (jsonStringBytes_eq b.account))
    (Lengthened.cons (jsonField_eq "documents" (Lengthened.map jsonDocBytes_eq b.documents).seq) Lengthened.nil)
  have refs : ∀ refs : List ExternalRef, jsonSeq (refs.map jsonRefBytes) =
      jsonSeq (refs.map jsonRefLength) + extras (refs.flatMap refTexts) := fun refs => by
    rw [(Lengthened.map jsonRefBytes_eq refs).seq, extras_flatMap]
  have links : ∀ pairs : List LinkPair, jsonSeq (pairs.map jsonLinkBytes) =
      jsonSeq (pairs.map jsonLinkLength) +
        extras (pairs.flatMap fun l => refTexts l.child ++ refTexts l.parent) := fun pairs => by
    rw [(Lengthened.map jsonLinkBytes_eq pairs).seq, extras_flatMap]
  have grown := ((((((head.append (Lengthened.optional "deletions" refs b.deletions)).append
    (Lengthened.optional "cursor" utf8Length_eq b.cursor)).append
    (Lengthened.optional "status" jsonStringBytes_eq b.status)).append
    (Lengthened.optional "progress" (g := jsonProgressLength) (h := fun _ => 0) (fun _ => rfl)
      b.progress)).append
    (Lengthened.optional "error" jsonNullableBytes_eq b.error)).append
    (Lengthened.optional "errorScope" (g := jsonScopeLength) (h := fun _ => 0) (fun _ => rfl)
      b.errorScope)).append
    (Lengthened.optional "relink" links b.relink)
  refine grown.seq.trans ?_
  rw [jsonBatchLength, batchTexts]
  have flat : ∀ {α : Type} (f : α → List String) (x : Option (List α)),
      extras (x.toList.flatten.flatMap f) =
        (x.toList.map fun xs => extras (xs.flatMap f)).sum := by
    intro α f x
    cases x <;> simp [extras]
  have absent : ∀ {α : Type} (x : Option α), (x.toList.map fun _ => 0).sum = 0 := by
    intro α x
    cases x <;> rfl
  simp only [extras_append, flat, absent, extras_flatMap]
  simp only [extras, List.map_cons, List.map_nil, List.sum_cons, List.sum_nil]
  omega

/-! ## Pieces -/

/-- What the documents of a piece count for while it is cut. -/
def weight (docs : List DocumentInput) : Nat := (docs.map fun d => jsonDocLength d + 1).sum

theorem weight_append (ds es : List DocumentInput) : weight (ds ++ es) = weight ds + weight es := by
  simp [weight]

theorem weight_ge (docs : List DocumentInput) : 3 * docs.length ≤ weight docs := by
  induction docs with
  | nil => simp
  | cons d docs ih =>
      have least : 2 ≤ jsonDocLength d := by
        rw [jsonDocLength, jsonSeq]
        omega
      simp only [weight, List.map_cons, List.sum_cons, List.length_cons] at ih ⊢
      omega

/-- A piece of two documents or more keeps to the budget. -/
theorem cutDocuments_weight (budget : Nat) : (ds cur : List DocumentInput) →
    (2 ≤ cur.length → weight cur ≤ budget) →
    ∀ piece ∈ cutDocuments budget cur (weight cur) ds, 2 ≤ piece.length → weight piece ≤ budget
  | [], cur, kept => by
      intro piece mem
      rw [cutDocuments] at mem
      split at mem
      · cases mem
      · rw [List.mem_singleton] at mem
        exact mem ▸ kept
  | d :: ds, cur, kept => by
      intro piece mem
      have single : weight [d] = jsonDocLength d + 1 := by simp [weight]
      rw [cutDocuments] at mem
      split at mem
      · rcases List.mem_cons.1 mem with rfl | later
        · exact kept
        · rw [← single] at later
          exact cutDocuments_weight budget ds [d] (by simp) piece later
      · rename_i fits
        rw [← single, ← weight_append] at mem
        refine cutDocuments_weight budget ds (cur ++ [d]) (fun two => ?_) piece mem
        rw [weight_append, single]
        have nonempty : cur ≠ [] := by
          rintro rfl
          simp at two
        exact Nat.le_of_not_lt fun heavy => fits ⟨nonempty, heavy⟩

/-- The envelope and the documents. -/
theorem jsonBatchLength_documents (b : AccountBatch) {docs : List DocumentInput}
    (nonempty : docs ≠ []) : jsonBatchLength { b with documents := docs } + 1 =
      jsonBatchLength { b with documents := [] } + weight docs := by
  have count : 0 < docs.length := List.length_pos_iff.2 nonempty
  have sum : weight docs = (docs.map jsonDocLength).sum + docs.length := by
    rw [weight, List.sum_map_add]
    simp
  simp only [jsonBatchLength, jsonSeq, jsonField, List.cons_append, List.sum_cons,
    List.length_cons, List.map_nil, List.length_map, List.sum_nil, List.length_nil]
  omega

theorem jsonSeq_append_le (ms ns : List Nat) : jsonSeq ms ≤ jsonSeq (ms ++ ns) := by
  simp only [jsonSeq, List.sum_append, List.length_append]
  omega

theorem piecePart_length_le (b : AccountBatch) (docs : List DocumentInput) :
    jsonBatchLength (piecePart b.account docs) ≤ jsonBatchLength { b with documents := docs } := by
  have part : jsonBatchLength (piecePart b.account docs) =
      jsonSeq [jsonField "account" (jsonStringLength b.account),
        jsonField "documents" (jsonSeq (docs.map jsonDocLength))] := by
    simp [jsonBatchLength, piecePart, jsonOptional]
  rw [part, jsonBatchLength]
  simp only [List.append_assoc]
  exact jsonSeq_append_le _ _

/-- **In UTF-16 units every piece of two documents or more stays under the bound.** -/
theorem splitDocuments_length_le (b : AccountBatch) (maxBytes : Nat) :
    ∀ docs ∈ splitDocuments b maxBytes, 2 ≤ docs.length →
      jsonBatchLength { b with documents := docs } ≤ maxBytes := by
  intro docs mem two
  rw [splitDocuments] at mem
  split at mem
  · rename_i whole
    obtain rfl := List.mem_singleton.1 mem
    rcases whole with few | fits
    · omega
    · exact fits
  · have light := cutDocuments_weight (documentBudget b maxBytes) b.documents []
      (by simp) docs mem two
    have heavy := weight_ge docs
    have nonempty : docs ≠ [] := by
      rintro rfl
      simp at two
    have envelope := jsonBatchLength_documents b nonempty
    rw [documentBudget] at light
    omega

theorem attachTail_eq (b : AccountBatch) : (slices : List (List DocumentInput)) → slices ≠ [] →
    ∃ init last, slices = init ++ [last] ∧ attachTail b slices =
      init.map (piecePart b.account) ++ [{ b with documents := last }]
  | [], nonempty => absurd rfl nonempty
  | [docs], _ => ⟨[], docs, rfl, rfl⟩
  | docs :: next :: rest, _ => by
      obtain ⟨init, last, same, attached⟩ := attachTail_eq b (next :: rest) (by simp)
      refine ⟨docs :: init, last, by rw [same]; rfl, ?_⟩
      rw [attachTail, attached]
      · rfl
      · simp

/-! ## What the pieces hold, and how large they are -/

def CommitBatch.documents : CommitBatch → List DocumentInput
  | .account b => b.documents
  | .consumer b => b.documents
  | .removeAccount _ | .purgeArchived _ => []

def jsonEnrichBytes (e : EnrichInput) : Nat :=
  jsonSeq <|
    [jsonField "documentId" (jsonStringBytes e.documentId)] ++
    jsonOptional "markdown" (e.markdown.map jsonStringBytes) ++
    jsonOptional "metadata" (e.metadata.map fun members =>
      jsonSeq (members.map fun m => jsonStringBytes m.1 + 1 + utf8Length m.2))

def jsonOutcomeBytes : Option Outcome → Nat
  | some .done | some .skip => 6
  | some .failed => 8
  | some .deferred => 10
  | none => 4

def jsonLedgerBytes (e : LedgerEntry) : Nat :=
  jsonSeq [jsonField "seq" (jsonNatLength e.seq), jsonField "attempts" (jsonNatLength e.attempts),
    jsonField "outcome" (jsonOutcomeBytes e.outcome)]

def jsonConsumerBytes (b : ConsumerBatch) : Nat :=
  jsonSeq <|
    [jsonField "consumer" (jsonStringBytes b.consumer)] ++
    jsonOptional "cursor" (b.cursor.map jsonNatLength) ++
    [jsonField "documents" (jsonSeq (b.documents.map jsonDocBytes)),
      jsonField "enrich" (jsonSeq (b.enrich.map jsonEnrichBytes))] ++
    jsonOptional "seedCursor" (b.seedCursor.map jsonNatLength) ++
    [jsonField "ledger" (jsonSeq (b.ledger.map jsonLedgerBytes))]

/-- `Buffer.byteLength(JSON.stringify(batch))`. -/
def jsonBytes : CommitBatch → Nat
  | .account b => jsonBatchBytes b
  | .consumer b => jsonConsumerBytes b
  | .removeAccount id => jsonSeq [jsonField "removeAccount" (jsonStringBytes id)]
  | .purgeArchived before => jsonSeq [jsonField "purgeArchived"
      (jsonSeq [jsonField "before" (jsonStringBytes (toString before))])]

/-- The pieces hold the batch's documents in order, and all but the last hold nothing else;
what is not an account batch stays whole. -/
def Conserves (batch : CommitBatch) (pieces : List CommitBatch) : Prop :=
  match batch with
  | .account b => ∃ init last,
      pieces = init.map (fun docs => .account (piecePart b.account docs)) ++
        [.account { b with documents := last }] ∧
      (init ++ [last]).flatten = b.documents
  | batch => pieces = [batch]

/-- Every piece of two documents or more stays under the bound. -/
def PiecesBounded (maxBytes : Nat) (pieces : List CommitBatch) : Prop :=
  ∀ piece ∈ pieces, 2 ≤ (CommitBatch.documents piece).length → jsonBytes piece ≤ maxBytes

theorem split_conserves (batch : CommitBatch) (maxBytes : Nat) :
    Conserves batch (splitBatch batch maxBytes) := by
  cases batch with
  | account b =>
      obtain ⟨init, last, slices, attached⟩ :=
        attachTail_eq b (splitDocuments b maxBytes) (splitDocuments_ne_nil b maxBytes)
      refine ⟨init, last, ?_, slices ▸ splitDocuments_flatten b maxBytes⟩
      rw [splitBatch, attached, List.map_append, List.map_map]
      rfl
  | consumer b => rfl
  | removeAccount id => rfl
  | purgeArchived before => rfl

/-- A piece has no text that the batch does not have. -/
theorem batchTexts_subset (b : AccountBatch) {docs : List DocumentInput}
    (part : docs ⊆ b.documents) :
    batchTexts { b with documents := docs } ⊆ batchTexts b ∧
      batchTexts (piecePart b.account docs) ⊆ batchTexts { b with documents := docs } := by
  constructor
  · intro s mem
    simp only [batchTexts, List.mem_append, List.mem_flatMap] at mem ⊢
    rcases mem with (((((mem | ⟨d, held, mem⟩) | mem) | mem) | mem) | mem) | mem
    · simp [mem]
    · simp only [or_assoc]
      exact .inr (.inl ⟨d, part held, mem⟩)
    all_goals simp only [mem, true_or, or_true]
  · intro s mem
    simp only [batchTexts, piecePart, List.mem_append] at mem ⊢
    simp only [Option.toList_none, List.flatten_nil, List.flatMap_nil, List.not_mem_nil,
      or_false] at mem
    simp only [or_assoc]
    rcases mem with mem | mem
    · exact .inl mem
    · exact .inr (.inl mem)

/-- Without a character that is not ASCII, bytes are units. -/
theorem split_bounded_of_ascii {b : AccountBatch} (ascii : ∀ s ∈ batchTexts b, isAscii s)
    (maxBytes : Nat) : PiecesBounded maxBytes (splitBatch (.account b) maxBytes) := by
  intro piece mem two
  obtain ⟨init, last, slices, attached⟩ :=
    attachTail_eq b (splitDocuments b maxBytes) (splitDocuments_ne_nil b maxBytes)
  have joined := splitDocuments_flatten b maxBytes
  have part : ∀ docs ∈ splitDocuments b maxBytes, docs ⊆ b.documents := by
    intro docs held d inside
    rw [← joined]
    exact List.mem_flatten.2 ⟨docs, held, inside⟩
  have plain : ∀ texts : List String, texts ⊆ batchTexts b → extras texts = 0 :=
    fun texts sub => extras_eq_zero.2 fun s held => ascii s (sub held)
  rw [splitBatch, attached, List.map_append, List.map_map] at mem
  rcases List.mem_append.1 mem with mem | mem
  · obtain ⟨docs, held, rfl⟩ := List.mem_map.1 mem
    have cut : docs ∈ splitDocuments b maxBytes := slices ▸ List.mem_append_left _ held
    obtain ⟨sub, sub'⟩ := batchTexts_subset b (part docs cut)
    have units := splitDocuments_length_le b maxBytes docs cut two
    have shorter := piecePart_length_le b docs
    have bytes := jsonBatchBytes_eq (piecePart b.account docs)
    rw [plain _ fun s held => sub (sub' held)] at bytes
    show jsonBatchBytes (piecePart b.account docs) ≤ maxBytes
    omega
  · obtain rfl := List.mem_singleton.1 mem
    have cut : last ∈ splitDocuments b maxBytes := slices ▸ by simp
    have units := splitDocuments_length_le b maxBytes last cut two
    have bytes := jsonBatchBytes_eq { b with documents := last }
    rw [plain _ (batchTexts_subset b (part last cut)).1] at bytes
    show jsonBatchBytes { b with documents := last } ≤ maxBytes
    omega

/-- **What a split conserves, and for which batches it keeps every bound**: those of fewer
than two documents, and the account batches whose texts are all ASCII. -/
theorem split_bounded_iff (batch : CommitBatch) :
    (∀ maxBytes, Conserves batch (splitBatch batch maxBytes)) ∧
      ((∀ maxBytes, PiecesBounded maxBytes (splitBatch batch maxBytes)) ↔
        (CommitBatch.documents batch).length < 2 ∨
          ∃ b, batch = .account b ∧ ∀ s ∈ batchTexts b, isAscii s) := by
  refine ⟨split_conserves batch, fun bounded => ?_, ?_⟩
  · by_contra fails
    rw [not_or, not_lt] at fails
    obtain ⟨two, wide⟩ := fails
    cases batch with
    | account b =>
        -- Under the bound of its own length the batch stays whole.
        have whole : splitBatch (.account b) (jsonBatchLength b) = [.account b] := by
          rw [splitBatch, splitDocuments, if_pos (.inr le_rfl)]
          rfl
        have bytes := bounded (jsonBatchLength b) (.account b) (by simp [whole]) two
        have grown := jsonBatchBytes_eq b
        have none : extras (batchTexts b) = 0 := by
          simp only [jsonBytes] at bytes
          omega
        exact wide ⟨b, rfl, extras_eq_zero.1 none⟩
    | consumer b =>
        have bytes := bounded 0 (.consumer b) (by simp [splitBatch]) two
        simp only [jsonBytes, jsonConsumerBytes, jsonSeq] at bytes
        omega
    | removeAccount id => simp [CommitBatch.documents] at two
    | purgeArchived before => simp [CommitBatch.documents] at two
  · rintro (few | ⟨b, rfl, ascii⟩) maxBytes
    · intro piece mem two
      have none : (CommitBatch.documents piece).length ≤ (CommitBatch.documents batch).length := by
        have conserved := split_conserves batch maxBytes
        cases batch with
        | account b =>
            obtain ⟨init, last, pieces, joined⟩ := conserved
            have sub : ∀ docs ∈ init ++ [last], docs.length ≤ b.documents.length := by
              intro docs held
              rw [← joined, List.length_flatten]
              exact List.single_le_sum (by simp) _ (List.mem_map_of_mem held)
            rw [pieces] at mem
            rcases List.mem_append.1 mem with mem | mem
            · obtain ⟨docs, held, rfl⟩ := List.mem_map.1 mem
              exact sub docs (List.mem_append_left _ held)
            · obtain rfl := List.mem_singleton.1 mem
              exact sub last (by simp)
        | consumer b =>
            obtain rfl := List.mem_singleton.1 (conserved ▸ mem)
            exact le_rfl
        | removeAccount id =>
            obtain rfl := List.mem_singleton.1 (conserved ▸ mem)
            exact le_rfl
        | purgeArchived before =>
            obtain rfl := List.mem_singleton.1 (conserved ▸ mem)
            exact le_rfl
      omega
    · exact split_bounded_of_ascii ascii maxBytes

/-! ## Two notes with umlauts -/

/-- Two notes of one account, each with the body. -/
def twoNotes (body : String) : AccountBatch where
  account := "acc"
  documents := [⟨"a", "note", none, some body, none, [], none, none, none⟩,
    ⟨"b", "note", none, some body, none, [], none, none, none⟩]
  deletions := none
  cursor := none
  status := none
  progress := none
  error := none
  errorScope := none
  relink := none

/-- The bound is the batch's length in units, and its bytes are more. -/
theorem umlauts_exceed : ¬ PiecesBounded (jsonBatchLength (twoNotes "Überfällig"))
    (splitBatch (.account (twoNotes "Überfällig")) (jsonBatchLength (twoNotes "Überfällig"))) := by
  have whole : splitBatch (.account (twoNotes "Überfällig"))
      (jsonBatchLength (twoNotes "Überfällig")) = [.account (twoNotes "Überfällig")] := by
    rw [splitBatch, splitDocuments, if_pos (.inr le_rfl)]
    rfl
  intro bounded
  rw [whole] at bounded
  exact absurd (bounded _ (List.mem_singleton_self _) (by decide)) (by decide +kernel)

end Kiagent.Sync
