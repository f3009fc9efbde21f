/-
# Outbound.Content -- writing the content of a draft

`applyContent` reads the row, decides (`planContent`), and makes one write.  The revision moves
exactly when the comparison keys differ, and the schedule goes with it.  Where they do not
differ a call can still fill the subject a reply left to the provider, and note what the
provider holds; nothing else.

`read` is the row as the call read it and `current` as its write finds it: an expiry sweep
runs outside the lock of the drafts.
-/
import Kiagent.Outbound.ContentKey

namespace Kiagent.Outbound

set_option autoImplicit false

variable (texts : Texts)

/-- The row and whether it is a new revision; `none` is the throw, with nothing written. -/
def applyContent (now : Nat) (read current : OutboxRow) (incoming : DraftSnapshot)
    (ref : Option DraftRef) (options : ApplyOptions) : Option (OutboxRow × Bool) :=
  if read.status = .draft then
    let plan := planContent texts read incoming ref options
    if plan.changed then
      ((Statement.writeContent plan.snapshot plan.display plan.mirror).apply now current).map
        fun row => (row, true)
    else if plan.filled then
      ((Statement.fillSubject plan.snapshot.subject plan.mirror).apply now current).map
        fun row => (row, false)
    else
      match plan.mirror with
      | some mirror => ((Statement.writeMirror mirror).apply now current).map fun row => (row, false)
      | none => some (current, false)
  else none

/-- Compared as a provider's copy. -/
def ApplyOptions.loose (options : ApplyOptions) : Bool :=
  options.source = some .provider || options.source = some .created

/-- The row's content, with the subject a reply left to the provider. -/
def planBase (row : OutboxRow) (plan : ContentPlan) : DraftSnapshot :=
  if plan.filled then { row.content with subject := plan.snapshot.subject } else row.content

variable {texts} {now : Nat} {row : OutboxRow} {incoming : DraftSnapshot} {ref : Option DraftRef}
  {options : ApplyOptions}

theorem planContent_changed : (planContent texts row incoming ref options).changed = true ↔
    normalizeSnapshot texts options.loose
        (planBase row (planContent texts row incoming ref options)) ≠
      normalizeSnapshot texts options.loose
        (planContent texts row incoming ref options).snapshot := by
  simp only [planContent, ApplyOptions.loose, planBase, decide_eq_true_eq]

theorem planContent_same : (planContent texts row incoming ref options).changed = false ↔
    normalizeSnapshot texts options.loose
        (planBase row (planContent texts row incoming ref options)) =
      normalizeSnapshot texts options.loose
        (planContent texts row incoming ref options).snapshot := by
  rw [Bool.eq_false_iff, Ne, planContent_changed, not_not]

@[simp]
theorem planBase_attachments (plan : ContentPlan) :
    (planBase row plan).attachments = row.content.attachments := by
  rw [planBase]
  split <;> rfl

/-- **A change**: a new revision, without the schedule. -/
theorem applyContent_changed {current : OutboxRow} (draft : row.status = .draft)
    (live : current.status = .draft)
    (changed : (planContent texts row incoming ref options).changed = true) :
    applyContent texts now row current incoming ref options = some ({ current with
      content := (planContent texts row incoming ref options).snapshot
      recipientDisplay := (planContent texts row incoming ref options).display
      revision := current.revision + 1
      error := if current.sendAt.isSome then some EDITED else none
      expiresAt := if current.sendAt.isSome then now + DRAFT_TTL_MS else current.expiresAt
      sendAt := none
      mirror := (planContent texts row incoming ref options).mirror <|> current.mirror }, true) := by
  simp [applyContent, draft, changed, Statement.apply, live]

/-- **No change**: at most the subject is filled and the mirror noted. -/
theorem applyContent_same {current : OutboxRow} (draft : row.status = .draft)
    (same : (planContent texts row incoming ref options).changed = false) :
    applyContent texts now row current incoming ref options = some ({ current with
      content := if (planContent texts row incoming ref options).filled then
          { current.content with
            subject := (planContent texts row incoming ref options).snapshot.subject }
        else current.content
      mirror := (planContent texts row incoming ref options).mirror <|> current.mirror },
      false) := by
  simp only [applyContent, draft, same, if_true, Bool.false_eq_true, if_false, Statement.apply]
  cases filled : (planContent texts row incoming ref options).filled with
  | true => simp
  | false =>
      cases mirror : (planContent texts row incoming ref options).mirror with
      | none => simp
      | some mirror => simp

/-- **A refusal**: of a row that is no draft, and of a change to one that no longer is. -/
theorem applyContent_refused {current : OutboxRow}
    (refused : row.status ≠ .draft ∨ current.status ≠ .draft ∧
      (planContent texts row incoming ref options).changed = true) :
    applyContent texts now row current incoming ref options = none := by
  rcases refused with closed | ⟨moved, changed⟩
  · simp [applyContent, closed]
  · by_cases draft : row.status = .draft
    · simp [applyContent, draft, changed, Statement.apply, moved]
    · simp [applyContent, draft]

/-! ## Files -/

/-- What one incoming file is resolved to. -/
def resolveFile (row : OutboxRow) (options : ApplyOptions) (a : OutboxAttachment) :
    OutboxAttachment :=
  (planAttachments row [a] options).headD a

def seenSize (row : OutboxRow) (name : String) : Option Nat :=
  ((row.mirror.bind (·.sizes)).getD []).reverse.lookup name

theorem resolveFile_eq (row : OutboxRow) (options : ApplyOptions) (a : OutboxAttachment) :
    resolveFile row options a =
      match knownFile (row.content.attachments ++ options.origins) a.filename with
      | none => a
      | some known =>
          if a.source.isSome then a
          else if options.source.isNone then { a with source := known.source }
          else if options.origins.any (·.filename = a.filename) ||
              a.size = (seenSize row a.filename).getD known.size then
            { a with source := known.source, size := known.size }
          else a := rfl

@[simp]
theorem resolveFile_filename (row : OutboxRow) (options : ApplyOptions) (a : OutboxAttachment) :
    (resolveFile row options a).filename = a.filename := by
  rw [resolveFile_eq]
  split
  · rfl
  · split_ifs <;> rfl

theorem knownFile_append (files more : List OutboxAttachment) (name : String) :
    knownFile (files ++ more) name = (knownFile more name).or (knownFile files name) := by
  simp [knownFile, List.filter_append, List.find?_append]

theorem knownFile_eq_some {files : List OutboxAttachment} {name : String} {k : OutboxAttachment}
    (found : knownFile files name = some k) :
    k ∈ files ∧ k.source.isSome = true ∧ k.filename = name := by
  have mem := List.mem_of_find?_eq_some found
  have named := List.find?_some found
  obtain ⟨listed, got⟩ : k ∈ files ∧ k.source.isSome = true := by simpa using mem
  exact ⟨listed, got, by simpa using named⟩

theorem knownFile_eq_none {files : List OutboxAttachment} {name : String} :
    knownFile files name = none ↔ ∀ f ∈ files, f.source.isSome = true → f.filename ≠ name := by
  simp [knownFile, List.find?_eq_none]

/-- Among files of distinct names. -/
theorem knownFile_of_mem {files : List OutboxAttachment}
    (distinct : (files.map (·.filename)).Nodup) {a : OutboxAttachment} (mem : a ∈ files) :
    knownFile files a.filename = if a.source.isSome then some a else none := by
  cases found : knownFile files a.filename with
  | none =>
      rw [if_neg]
      intro got
      exact knownFile_eq_none.1 found a mem got rfl
  | some k =>
      obtain ⟨listed, got, named⟩ := knownFile_eq_some found
      obtain rfl : k = a := List.inj_on_of_nodup_map distinct listed mem named
      rw [if_pos got]

section Again

variable {row' : OutboxRow} {files : List OutboxAttachment}

/-- A file of origins with a known source is being uploaded. -/
theorem uploading_of_known {name : String} {k : OutboxAttachment}
    (found : knownFile options.origins name = some k) :
    options.origins.any (·.filename = name) = true := by
  obtain ⟨listed, -, named⟩ := knownFile_eq_some found
  simp only [List.any_eq_true, decide_eq_true_eq]
  exact ⟨k, listed, named⟩

/-- Once the row holds the resolved files, they are resolved to themselves. -/
theorem resolveFile_again (distinct : (files.map (·.filename)).Nodup)
    (held : row'.content.attachments = files.map (resolveFile row options))
    (seen : options.source.isSome = true → ∀ a ∈ files,
      seenSize row' a.filename = seenSize row a.filename ∨ seenSize row' a.filename = some a.size)
    {a : OutboxAttachment} (mem : a ∈ files) :
    resolveFile row' options a = resolveFile row options a := by
  have names : ((files.map (resolveFile row options)).map (·.filename)).Nodup := by
    simpa [Function.comp_def] using distinct
  have known := knownFile_of_mem names (List.mem_map_of_mem (f := resolveFile row options) mem)
  rw [resolveFile_filename] at known
  have first := resolveFile_eq row options a
  have again := resolveFile_eq row' options a
  rw [knownFile_append] at first again
  rw [held, known] at again
  cases origin : knownFile options.origins a.filename with
  | some k =>
      -- An origin is asked first, both times.
      rw [origin, Option.some_or] at first again
      rw [first, again]
      simp [uploading_of_known origin]
  | none =>
      rw [origin, Option.none_or] at first again
      cases stored : knownFile row.content.attachments a.filename with
      | none =>
          rw [stored] at first
          rw [first] at again
          rw [first, again]
          by_cases own : a.source.isSome = true <;> simp [own]
      | some k =>
          obtain ⟨-, got, -⟩ := knownFile_eq_some stored
          rw [stored] at first
          by_cases own : a.source.isSome = true
          · simp only [own, if_true] at first
            rw [first, own] at again
            rw [first, again]
            simp
          simp only [own, if_false, Bool.false_eq_true] at first again
          by_cases ours : options.source.isNone = true
          · simp only [ours, if_true] at first again
            rw [first] at again
            rw [first, again]
            simp [got]
          simp only [ours, if_false, Bool.false_eq_true] at first again
          by_cases matched : (options.origins.any (·.filename = a.filename) ||
              decide (a.size = (seenSize row a.filename).getD k.size)) = true
          · simp only [matched, if_true] at first
            rw [first] at again
            rw [first, again]
            have kept : (options.origins.any (·.filename = a.filename) ||
                decide (a.size = (seenSize row' a.filename).getD k.size)) = true := by
              rcases seen (by simpa [Option.isNone_iff_eq_none, Option.isSome_iff_ne_none] using ours)
                a mem with same | reported
              · rwa [same]
              · simp [reported]
            simp [got, kept]
          · simp only [matched, if_false, Bool.false_eq_true] at first
            rw [first] at again
            rw [first, again]
            simp [own]

/-- What a file is compared by. -/
def fileKey (a : OutboxAttachment) : String × Nat × Option AttachmentSource :=
  (a.filename, a.size, a.source)

/-- A row that keeps its files resolves the same: had a file not matched before, it would now
stand beside the row's own of the same name. -/
theorem resolveFile_kept (distinct : (files.map (·.filename)).Nodup)
    (held : row'.content.attachments = row.content.attachments)
    (keyed : (row.content.attachments.map fileKey).Perm
      ((files.map (resolveFile row options)).map fileKey))
    (seen : options.source.isSome = true → ∀ a ∈ files,
      seenSize row' a.filename = seenSize row a.filename ∨ seenSize row' a.filename = some a.size)
    {a : OutboxAttachment} (mem : a ∈ files) :
    resolveFile row' options a = resolveFile row options a := by
  have first := resolveFile_eq row options a
  have again := resolveFile_eq row' options a
  rw [held] at again
  cases known : knownFile (row.content.attachments ++ options.origins) a.filename with
  | none =>
      rw [known] at first again
      rw [first, again]
  | some k =>
      rw [known] at first again
      by_cases own : a.source.isSome = true
      · simp only [own, if_true] at first again
        rw [first, again]
      simp only [own, if_false, Bool.false_eq_true] at first again
      by_cases ours : options.source.isNone = true
      · simp only [ours, if_true] at first again
        rw [first, again]
      simp only [ours, if_false, Bool.false_eq_true] at first again
      rcases seen (by simpa [Option.isNone_iff_eq_none, Option.isSome_iff_ne_none] using ours)
        a mem with same | reported
      · rw [first, again, same]
      by_cases matched : (options.origins.any (·.filename = a.filename) ||
          decide (a.size = (seenSize row a.filename).getD k.size)) = true
      · simp only [matched, if_true] at first
        simp only [reported, Option.getD_some, decide_true, Bool.or_true, if_true] at again
        rw [first, again]
      · exfalso
        simp only [matched, if_false, Bool.false_eq_true] at first
        have late : options.origins.any (·.filename = a.filename) = false := by
          simp only [Bool.or_eq_true, not_or, Bool.not_eq_true] at matched
          exact matched.1
        have stored : knownFile row.content.attachments a.filename = some k := by
          rw [knownFile_append] at known
          cases origin : knownFile options.origins a.filename with
          | none => rwa [origin, Option.none_or] at known
          | some o =>
              rw [uploading_of_known origin] at late
              cases late
        obtain ⟨listed, got, named⟩ := knownFile_eq_some stored
        -- The row holds the incoming file too, as it came.
        have unresolved : fileKey a ∈ row.content.attachments.map fileKey := by
          refine keyed.mem_iff.2 (List.mem_map.2 ⟨resolveFile row options a,
            List.mem_map_of_mem mem, ?_⟩)
          rw [first]
        obtain ⟨b, other, twin⟩ := List.mem_map.1 unresolved
        have names : (row.content.attachments.map (·.filename)).Nodup := by
          have perm := keyed.map Prod.fst
          simp only [List.map_map] at perm
          refine (perm.nodup_iff).2 ?_
          simpa [Function.comp_def, fileKey] using distinct
        have name : b.filename = a.filename := congrArg Prod.fst twin
        obtain rfl : b = k := List.inj_on_of_nodup_map names other listed (name.trans named.symm)
        have bare : b.source = a.source := congrArg (Prod.snd ∘ Prod.snd) twin
        rw [bare] at got
        exact own got

end Again

/-! ## The mirror -/

section Mirror

variable {row' : OutboxRow} {files : List OutboxAttachment}

/-- The mirror a call leaves. -/
def leftMirror (row : OutboxRow) (files : List OutboxAttachment) (ref : Option DraftRef)
    (options : ApplyOptions) : Option MirrorState :=
  planMirror row files ref options <|> row.mirror

theorem lookup_distinct {name : String} {size : Nat} : {sizes : List (String × Nat)} →
    (sizes.map Prod.fst).Nodup → (name, size) ∈ sizes → sizes.reverse.lookup name = some size := by
  intro sizes distinct mem
  have nodup : (sizes.reverse.map Prod.fst).Nodup := by
    rw [List.map_reverse]
    exact List.nodup_reverse.2 distinct
  have here : (name, size) ∈ sizes.reverse := List.mem_reverse.2 mem
  generalize sizes.reverse = rev at nodup here
  induction rev with
  | nil => cases here
  | cons pair rest ih =>
      obtain ⟨fresh, later⟩ := List.nodup_cons.1 nodup
      rcases List.mem_cons.1 here with rfl | tail
      · simp
      · have other : ¬ name = pair.1 := by
          rintro rfl
          exact fresh (List.mem_map.2 ⟨_, tail, rfl⟩)
        rw [List.lookup_cons, beq_false_of_ne other]
        exact ih later tail

def bareMirror : MirrorState := ⟨none, none, false, none, none, none, none⟩

def mergedSizes (row : OutboxRow) (files : List OutboxAttachment) (options : ApplyOptions) :
    Option (List (String × Nat)) :=
  match planSizes row files options with
  | none => (row.mirror.getD bareMirror).sizes
  | some [] => none
  | some sizes => some sizes

/-- What a call would write. -/
def mergedMirror (row : OutboxRow) (files : List OutboxAttachment) (r : DraftRef)
    (options : ApplyOptions) : MirrorState :=
  let mirror := row.mirror.getD bareMirror
  { mirror with
    ref := some r
    error := none
    sizes := mergedSizes row files options
    seenKey := options.seenKey <|> mirror.seenKey
    ownKey := options.ownKey.getD mirror.ownKey }

theorem planMirror_eq (r : DraftRef) : planMirror row files (some r) options =
    if some (mergedMirror row files r options) = row.mirror then none
    else some (mergedMirror row files r options) := rfl

theorem leftMirror_some (r : DraftRef) :
    leftMirror row files (some r) options = some (mergedMirror row files r options) := by
  rw [leftMirror, planMirror_eq]
  split
  · next same => simp [same]
  · rfl

/-- After a call the sizes are as before, or the provider's. -/
theorem seenSize_left (distinct : (files.map (·.filename)).Nodup)
    (left : row'.mirror = leftMirror row files ref options) (provider : options.source.isSome = true)
    {a : OutboxAttachment} (mem : a ∈ files) :
    seenSize row' a.filename = seenSize row a.filename ∨ seenSize row' a.filename = some a.size := by
  cases ref with
  | none =>
      left
      rw [seenSize, left]
      rfl
  | some r =>
      right
      rw [leftMirror_some] at left
      have sizes : (mergedMirror row files r options).sizes =
          some (files.map fun a => (a.filename, a.size)) := by
        obtain ⟨b, rest, rfl⟩ := List.exists_cons_of_ne_nil (List.ne_nil_of_mem mem)
        simp [mergedMirror, mergedSizes, planSizes, provider]
      rw [seenSize, left, Option.bind_some, sizes, Option.getD_some]
      refine lookup_distinct ?_ (List.mem_map.2 ⟨a, mem, rfl⟩)
      simpa [Function.comp_def] using distinct

/-- Kia's own write keeps the sizes of the files that stay. -/
theorem mergedSizes_own (own : options.source.isSome = false) :
    mergedSizes row files options = ((row.mirror.bind (·.sizes)).map fun sizes =>
      sizes.filter fun (name, _) => !options.origins.any (·.filename = name) &&
        files.any (·.filename = name)).filter (· ≠ []) := by
  rw [mergedSizes, planSizes, own]
  cases row.mirror with
  | none => rfl
  | some mirror =>
      cases sizes : mirror.sizes with
      | none => simp [sizes]
      | some sizes =>
          simp only [Bool.false_eq_true, if_false, Option.bind_some, sizes, Option.map_some]
          split
          · next impossible => cases impossible
          · next empty =>
            rw [empty]
            rfl
          · next nonempty filled =>
            cases filled
            rw [Option.filter_some_pos]
            simpa using nonempty

theorem mergedSizes_again {mirror : MirrorState} (held : row'.mirror = some mirror)
    (sizes : mirror.sizes = mergedSizes row files options) :
    mergedSizes row' files options = mergedSizes row files options := by
  cases own : options.source.isSome with
  | true =>
      rw [mergedSizes, mergedSizes, planSizes, planSizes, own]
      simp only [if_true]
      split <;> simp_all
  | false =>
      rw [mergedSizes_own own, held, Option.bind_some, sizes, mergedSizes_own own]
      cases row.mirror.bind (·.sizes) with
      | none => rfl
      | some known =>
          rw [Option.map_some, Option.filter_some]
          split
          · next left => simp_all
          · rfl

/-- A second call finds the mirror as it would write it. -/
theorem planMirror_again (left : row'.mirror = leftMirror row files ref options) :
    planMirror row' files ref options = none := by
  cases ref with
  | none => rfl
  | some r =>
      rw [leftMirror_some] at left
      rw [planMirror_eq, if_pos]
      have sizes := mergedSizes_again left rfl
      rw [left, Option.some.injEq, mergedMirror, sizes, left, Option.getD_some, mergedMirror]
      congr 1
      · cases options.seenKey <;> rfl
      · cases options.ownKey <;> rfl

end Mirror

/-! ## Twice -/

section Twice

variable {row' : OutboxRow} {moved : Bool}

theorem planContent_snapshot : (planContent texts row incoming ref options).snapshot =
    { incoming with attachments := incoming.attachments.map (resolveFile row options) } := rfl

theorem planContent_filled : (planContent texts row incoming ref options).filled =
    (decide (options.source = some .created) && row.content.subject.isNone &&
      incoming.subject.isSome) := rfl

/-- What a call leaves is what it compared, with its mirror. -/
theorem applyContent_left (applied : applyContent texts now row row incoming ref options =
    some (row', moved)) :
    row'.status = .draft ∧ row'.mirror = leftMirror row incoming.attachments ref options ∧
      (moved = true ∧ row'.content = (planContent texts row incoming ref options).snapshot ∨
        moved = false ∧ (planContent texts row incoming ref options).changed = false ∧
          row'.content = planBase row (planContent texts row incoming ref options)) := by
  by_cases draft : row.status = .draft
  · cases changed : (planContent texts row incoming ref options).changed with
    | true =>
        rw [applyContent_changed draft draft changed] at applied
        cases applied
        exact ⟨draft, rfl, .inl ⟨rfl, rfl⟩⟩
    | false =>
        rw [applyContent_same draft changed] at applied
        cases applied
        exact ⟨draft, rfl, .inr ⟨rfl, rfl, rfl⟩⟩
  · rw [applyContent_refused (.inl draft)] at applied
    cases applied

theorem normalizeSnapshot_files {provider : Bool} {s s' : DraftSnapshot}
    (same : normalizeSnapshot texts provider s = normalizeSnapshot texts provider s') :
    (s.attachments.map fileKey).Perm (s'.attachments.map fileKey) :=
  Multiset.coe_eq_coe.1 (congrArg SnapshotKey.attachments same)

/-- **The same content again** is no change: nothing is written. -/
theorem applyContent_twice (distinct : (incoming.attachments.map (·.filename)).Nodup)
    (applied : applyContent texts now row row incoming ref options = some (row', moved)) :
    applyContent texts now row' row' incoming ref options = some (row', false) := by
  obtain ⟨draft, left, outcome⟩ := applyContent_left applied
  have seen : options.source.isSome = true → ∀ a ∈ incoming.attachments,
      seenSize row' a.filename = seenSize row a.filename ∨
        seenSize row' a.filename = some a.size :=
    fun provider a mem => seenSize_left distinct left provider mem
  have snapshot : (planContent texts row' incoming ref options).snapshot =
      (planContent texts row incoming ref options).snapshot := by
    rw [planContent_snapshot, planContent_snapshot]
    congr 1
    refine List.map_congr_left fun a mem => ?_
    rcases outcome with ⟨-, content⟩ | ⟨-, same, content⟩
    · refine resolveFile_again distinct ?_ seen mem
      rw [content]
      rfl
    · have held : row'.content.attachments = row.content.attachments := by
        rw [content, planBase_attachments]
      refine resolveFile_kept distinct held ?_ seen mem
      have files := normalizeSnapshot_files (planContent_same.1 same)
      rwa [planBase_attachments, planContent_snapshot] at files
  have unfilled : (planContent texts row' incoming ref options).filled = false := by
    rw [planContent_filled]
    rcases outcome with ⟨-, content⟩ | ⟨-, -, content⟩
    · rw [content, planContent_snapshot]
      cases incoming.subject <;> simp
    · rw [content, planBase, planContent_filled, planContent_snapshot]
      split
      · cases incoming.subject <;> simp
      · next none => simpa using none
  have same : (planContent texts row' incoming ref options).changed = false := by
    rw [planContent_same, snapshot, planBase, unfilled]
    rcases outcome with ⟨-, content⟩ | ⟨-, same, content⟩
    · rw [content]
      rfl
    · rw [content]
      exact planContent_same.1 same
  have noted : (planContent texts row' incoming ref options).mirror = none :=
    planMirror_again left
  rw [applyContent_same draft same, unfilled, noted]
  rfl

end Twice

/-! ## The contract -/

/-- Texts left as they are. -/
def plainTexts : Texts where
  lower := id
  renderEmailBody := id
  markdownOf := DraftContent.bodyText
  sameBody := fun c body => c.bodyText = body
  bodyHash := DraftContent.bodyText
  summary := id
  canRetry := fun _ => false
  isEmail := fun _ => false

theorem lowers_id : Lowers id := ⟨fun _ => rfl, fun _ clean => clean, fun _ shut => shut⟩

/-- A reply whose subject is the provider's to write, with one file and a schedule. -/
def replyRow : OutboxRow := { OutboxRow.create "d"
    { accountId := "a"
      kind := .reply
      outboundRef := none
      recipientDisplay := "ann"
      content := ⟨["ann@x"], [], [], none, "hi", [⟨"f.png", "image/png", 5, some (.file "/f" true none)⟩]⟩
      threading := none
      expiresAt := 9 } with sendAt := some 7 }

def replyBack (subject : Option String) (files : List OutboxAttachment) : DraftSnapshot :=
  ⟨["ann@x"], [], [], subject, "hi", files⟩

end Kiagent.Outbound
