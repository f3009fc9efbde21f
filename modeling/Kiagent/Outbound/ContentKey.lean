/-
# Outbound.ContentKey -- the comparison key is in normal form

`normalizeSnapshot` makes a key, not a snapshot.  A snapshot that reads as a key does has that
key: subjects and addresses are trimmed once, and a body is the text of its own lines, or for a
provider's copy of its own paragraphs.
-/
import Kiagent.Outbound.Outbox
import Kiagent.Theory.Words

namespace Kiagent.Outbound

set_option autoImplicit false

open Kiagent.Theory

theorem trim_eq (cs : List Char) : trim cs = trimBlank isBlank cs := rfl

theorem oneSpaced_eq (cs : List Char) : oneSpaced cs = oneSpace isBlank ' ' cs := by
  induction cs with
  | nil => rfl
  | cons c rest ih => rw [oneSpaced, oneSpace, ih]

theorem trim_trim (cs : List Char) : trim (trim cs) = trim cs :=
  trimBlank_eq_self (fun _ first => head_trimBlank first) fun _ final => last_trimBlank final

theorem trimmed_trimmed (s : String) : trimmed (trimmed s) = trimmed s := by
  rw [trimmed, trimmed, String.toList_ofList, trim_trim]

/-! ## Lines -/

section Lines

variable {cs l : List Char} {ls : List (List Char)}

theorem not_mem_of_splitOn {c : Char} (mem : l ∈ cs.splitOn c) : c ∉ l := by
  induction cs generalizing l with
  | nil =>
      rw [List.splitOn_nil, List.mem_singleton] at mem
      simp [mem]
  | cons d cs ih =>
      rw [List.splitOn_cons_eq_if_modifyHead] at mem
      split at mem
      · rcases List.mem_cons.1 mem with rfl | tail
        · simp
        · exact ih tail
      · next other =>
        obtain ⟨first, rest, eq⟩ := List.exists_cons_of_ne_nil (List.splitOn_ne_nil c cs)
        rw [eq, List.modifyHead_cons] at mem
        rcases List.mem_cons.1 mem with rfl | tail
        · simp only [List.mem_cons, not_or]
          exact ⟨fun same => other (by simp [same]), ih (eq ▸ List.mem_cons_self)⟩
        · exact ih (eq ▸ List.mem_cons_of_mem _ tail)

theorem trimEnd_eq_self (last : ∀ c ∈ l.getLast?, isBlank c = false) : trimEnd l = l := by
  rw [trimEnd]
  cases ends : l.reverse with
  | nil => simpa using congrArg List.reverse ends
  | cons c rest =>
      have final : c ∈ l.getLast? := by
        rw [← List.head?_reverse, ends]
        rfl
      rw [List.dropWhile_cons_of_neg (by simp [last c final]), ← ends, List.reverse_reverse]

theorem last_trimEnd {c : Char} (final : c ∈ (trimEnd l).getLast?) : isBlank c = false := by
  rw [trimEnd, List.getLast?_reverse] at final
  exact not_blank_of_head final

/-- No white space stands before the end of a line. -/
def LinesEnd (cs : List Char) : Prop :=
  cs.IsChain fun a b => b = '\n' → a = '\n' ∨ isBlank a = false

theorem linesEnd_line (plain : '\n' ∉ l) : LinesEnd l := by
  refine List.Pairwise.isChain (List.pairwise_of_forall_mem_list fun _ _ b mem same => ?_)
  exact absurd (same ▸ mem) plain

theorem linesEnd_join (plain : ∀ l ∈ ls, '\n' ∉ l)
    (ended : ∀ l ∈ ls, ∀ c ∈ l.getLast?, isBlank c = false) :
    LinesEnd (List.intercalate ['\n'] ls) := by
  induction ls with
  | nil => exact .nil
  | cons l rest ih =>
      cases rest with
      | nil =>
          rw [List.intercalate_singleton]
          exact linesEnd_line (plain l List.mem_cons_self)
      | cons l' rest =>
          rw [List.intercalate_cons_cons, List.append_assoc]
          have later := ih (fun k mem => plain k (List.mem_cons_of_mem _ mem))
            fun k mem => ended k (List.mem_cons_of_mem _ mem)
          refine (linesEnd_line (plain l List.mem_cons_self)).append ?_ ?_
          · exact List.isChain_cons.2 ⟨fun _ _ _ => .inl rfl, later⟩
          · intro a final b _ _
            exact .inr (ended l List.mem_cons_self a final)

theorem unixLines_eq_self (ends : LinesEnd cs) : unixLines cs = cs := by
  induction cs with
  | nil => rfl
  | cons c rest ih =>
      obtain ⟨next, later⟩ := List.isChain_cons.1 ends
      rw [unixLines.eq_def]
      split
      · next eq =>
        cases eq
        rcases next '\n' rfl rfl with same | dark
        · exact absurd same (by decide)
        · exact absurd dark (by decide)
      · next eq =>
        cases eq
        rw [ih later]
      · next eq => cases eq

/-- The lines of a text whose lines end, and which ends, without white space. -/
theorem trimEnd_line (plain : ∀ l ∈ ls, '\n' ∉ l) (ends : LinesEnd (List.intercalate ['\n'] ls))
    (last : ∀ c ∈ (List.intercalate ['\n'] ls).getLast?, isBlank c = false) :
    ∀ l ∈ ls, trimEnd l = l := by
  induction ls with
  | nil => nofun
  | cons l rest ih =>
      cases rest with
      | nil =>
          intro k mem
          rw [List.mem_singleton.1 mem]
          rw [List.intercalate_singleton] at last
          exact trimEnd_eq_self last
      | cons l' rest =>
          rw [List.intercalate_cons_cons, List.append_assoc] at ends last
          obtain ⟨-, back, meet⟩ := List.isChain_append.1 ends
          have later := (List.isChain_cons.1 back).2
          intro k mem
          rcases List.mem_cons.1 mem with rfl | tail
          · refine trimEnd_eq_self fun c final => ?_
            rcases meet c final '\n' rfl rfl with same | dark
            · exact absurd (same ▸ List.mem_of_getLast? final) (plain _ List.mem_cons_self)
            · exact dark
          · refine ih (fun j mem => plain j (List.mem_cons_of_mem _ mem)) later (fun c final => ?_)
              k tail
            refine last c ?_
            rw [List.getLast?_append_of_ne_nil _ (by simp)]
            cases joined : List.intercalate ['\n'] (l' :: rest) with
            | nil =>
                rw [joined] at final
                cases final
            | cons d more =>
                rw [joined] at final
                simpa using final

theorem linesEnd_part {cs part : List Char} (ends : LinesEnd cs) (inside : part <:+: cs) :
    LinesEnd part := by
  obtain ⟨a, b, rfl⟩ := inside
  exact ends.left_of_append.right_of_append

/-- Kia's own text: its lines without the white space at their ends, trimmed. -/
theorem bodyKey_own_again (body : String) :
    bodyKey false (String.ofList (bodyKey false body)) = bodyKey false body := by
  let ls := ((unixLines body.toList).splitOn '\n').map trimEnd
  have key : bodyKey false body = trim (List.intercalate ['\n'] ls) := rfl
  have plain : ∀ l ∈ ls, '\n' ∉ l := by
    intro l mem
    obtain ⟨k, listed, rfl⟩ := List.mem_map.1 mem
    intro inside
    refine not_mem_of_splitOn listed ?_
    have part : trimEnd k <+: k := by
      rw [trimEnd, ← List.reverse_suffix, List.reverse_reverse]
      exact List.dropWhile_suffix isBlank
    exact part.subset inside
  have ended : ∀ l ∈ ls, ∀ c ∈ l.getLast?, isBlank c = false := by
    intro l mem c final
    obtain ⟨k, -, rfl⟩ := List.mem_map.1 mem
    exact last_trimEnd final
  have ends : LinesEnd (bodyKey false body) := by
    rw [key, trim_eq]
    exact linesEnd_part (linesEnd_join plain ended) (trimBlank_part _ _)
  have last : ∀ c ∈ (bodyKey false body).getLast?, isBlank c = false := by
    rw [key, trim_eq]
    exact fun c final => last_trimBlank final
  generalize bodyKey false body = text at ends last key
  have lines : (text.splitOn '\n').map trimEnd = text.splitOn '\n' := by
    refine (List.map_congr_left ?_).trans (List.map_id _)
    refine trimEnd_line (fun l mem => not_mem_of_splitOn mem) ?_ ?_
    · rwa [List.intercalate_splitOn]
    · rwa [List.intercalate_splitOn]
  show trim (List.intercalate ['\n']
    (((unixLines (String.ofList text).toList).splitOn '\n').map trimEnd)) = text
  rw [String.toList_ofList, unixLines_eq_self ends, lines, List.intercalate_splitOn, key, trim_trim]

end Lines

/-! ## Paragraphs -/

section Paragraphs

/-- A paragraph of a provider's key. -/
def IsParagraph (p : List Char) : Prop := p ≠ [] ∧ Flat isBlank ' ' p

variable {p : List Char} {ps : List (List Char)}

theorem IsParagraph.plain (paragraph : IsParagraph p) : '\n' ∉ p := fun mem => by
  have : '\n' = ' ' := paragraph.2.spaces '\n' mem (by decide)
  exact absurd this (by decide)

theorem paragraphs_plain {current rest : List Char} {fuel : Nat} (plain : '\n' ∉ p) :
    paragraphs current (fuel + p.length) (p ++ rest) =
      paragraphs (p.reverse ++ current) fuel rest := by
  induction p generalizing current with
  | nil => rfl
  | cons c p ih =>
      simp only [List.mem_cons, not_or] at plain
      rw [List.length_cons, ← Nat.add_assoc, List.cons_append, paragraphs, ih plain.2]
      · simp
      · exact fun same => plain.1 same.symm

theorem paragraphs_break {current rest : List Char} {fuel : Nat}
    (dark : ∀ c ∈ rest.head?, isBlank c = false) :
    paragraphs current (fuel + 1) ('\n' :: '\n' :: rest) =
      current.reverse :: paragraphs [] fuel rest := by
  have front : rest.dropWhile isBlank = rest := by
    cases rest with
    | nil => rfl
    | cons c rest => rw [List.dropWhile_cons_of_neg (by simp [dark c rfl])]
  rw [paragraphs]
  simp [front]

/-- The paragraphs of a text of paragraphs. -/
theorem paragraphs_join (each : ∀ p ∈ ps, IsParagraph p) (some : ps ≠ []) {fuel : Nat}
    (enough : (List.intercalate ['\n', '\n'] ps).length < fuel) :
    paragraphs [] fuel (List.intercalate ['\n', '\n'] ps) = ps := by
  induction ps generalizing fuel with
  | nil => exact absurd rfl some
  | cons p rest ih =>
      have plain := (each p List.mem_cons_self).plain
      cases rest with
      | nil =>
          rw [List.intercalate_singleton] at enough ⊢
          obtain ⟨k, rfl⟩ := Nat.exists_eq_add_of_lt enough
          have turned : paragraphs [] (k + 1 + p.length) (p ++ []) =
              paragraphs (p.reverse ++ []) (k + 1) [] := paragraphs_plain plain
          rw [List.append_nil, Nat.add_comm (k + 1), ← Nat.add_assoc] at turned
          rw [turned, paragraphs]
          · simp
          · omega
      | cons p' rest =>
          have later : ∀ k, (List.intercalate ['\n', '\n'] (p' :: rest)).length < k →
              paragraphs [] k (List.intercalate ['\n', '\n'] (p' :: rest)) = p' :: rest :=
            fun k => ih (fun q mem => each q (List.mem_cons_of_mem _ mem)) (by simp)
          obtain ⟨filled, flat⟩ := each p' (by simp)
          have dark : ∀ c ∈ (List.intercalate ['\n', '\n'] (p' :: rest)).head?,
              isBlank c = false := by
            intro c first
            refine flat.head c ?_
            cases rest with
            | nil => rwa [List.intercalate_singleton] at first
            | cons q more =>
                rwa [List.intercalate_cons_cons, List.append_assoc,
                  List.head?_append_of_ne_nil _ filled] at first
          rw [List.intercalate_cons_cons, List.append_assoc] at enough ⊢
          simp only [List.length_append, List.length_cons, List.length_nil] at enough
          obtain ⟨k, rfl⟩ : ∃ k, fuel = k + 1 + p.length := ⟨fuel - 1 - p.length, by omega⟩
          rw [paragraphs_plain plain, List.cons_append, List.cons_append, List.nil_append,
            paragraphs_break dark, later k (by omega)]
          simp

theorem not_mem_join {c : Char} {sep : List Char} (apart : c ∉ sep) (each : ∀ p ∈ ps, c ∉ p) :
    c ∉ List.intercalate sep ps := by
  induction ps with
  | nil => simp
  | cons p rest ih =>
      cases rest with
      | nil =>
          rw [List.intercalate_singleton]
          exact each p List.mem_cons_self
      | cons q more =>
          rw [List.intercalate_cons_cons]
          simp only [List.mem_append, not_or]
          exact ⟨⟨each p List.mem_cons_self, apart⟩,
            ih fun k mem => each k (List.mem_cons_of_mem _ mem)⟩

theorem unixLines_of_not_mem {cs : List Char} (none : '\r' ∉ cs) : unixLines cs = cs := by
  induction cs with
  | nil => rfl
  | cons c rest ih =>
      simp only [List.mem_cons, not_or] at none
      rw [unixLines, ih none.2]
      intro _ same
      exact absurd same.symm none.1

/-- A provider's copy: its paragraphs, each on one line. -/
theorem bodyKey_provider_again (body : String) :
    bodyKey true (String.ofList (bodyKey true body)) = bodyKey true body := by
  let cs := unixLines body.toList
  let ps := ((paragraphs [] (cs.length + 1) cs).map fun p => trim (oneSpaced p)).filter (· ≠ [])
  have key : bodyKey true body = List.intercalate ['\n', '\n'] ps := rfl
  have each : ∀ p ∈ ps, IsParagraph p := by
    intro p mem
    obtain ⟨listed, filled⟩ := List.mem_filter.1 mem
    obtain ⟨q, -, rfl⟩ := List.mem_map.1 listed
    refine ⟨by simpa using filled, ?_⟩
    rw [oneSpaced_eq, trim_eq]
    exact flat_trimBlank (by decide) q
  have bare : '\r' ∉ bodyKey true body := by
    rw [key]
    refine not_mem_join (by decide) fun p mem inside => ?_
    have : '\r' = ' ' := (each p mem).2.spaces '\r' inside (by decide)
    exact absurd this (by decide)
  generalize bodyKey true body = text at key bare
  show List.intercalate ['\n', '\n'] (((paragraphs []
    ((unixLines (String.ofList text).toList).length + 1)
    (unixLines (String.ofList text).toList)).map fun p => trim (oneSpaced p)).filter (· ≠ [])) = text
  rw [String.toList_ofList, unixLines_of_not_mem bare]
  by_cases some : ps = []
  · rw [some] at key
    rw [key]
    rfl
  · have read : paragraphs [] (text.length + 1) text = ps := by
      rw [key]
      exact paragraphs_join each some (Nat.lt_succ_self _)
    have lines : (ps.map fun p => trim (oneSpaced p)) = ps := by
      refine (List.map_congr_left fun p mem => ?_).trans (List.map_id _)
      rw [oneSpaced_eq, (each p mem).2.oneSpace_eq, trim_eq, (each p mem).2.trimBlank_eq]
      rfl
    have filled : (ps.filter (· ≠ [])) = ps :=
      List.filter_eq_self.2 fun p mem => by simpa using (each p mem).1
    rw [read, lines, filled, key]

end Paragraphs

/-! ## Addresses -/

/-- What is relied on of lower-casing. -/
structure Lowers (lower : String → String) : Prop where
  twice : ∀ s, lower (lower s) = lower s
  /-- White space is left where it is. -/
  ends : ∀ s, trim s.toList = s.toList → trim (lower s).toList = (lower s).toList
  /-- And so are the angle brackets. -/
  plain : ∀ s, mailbox s.toList = none → mailbox (lower s).toList = none

theorem mailbox_eq_some {cs inner : List Char} : mailbox cs = some inner ↔
    ∃ front, trimEnd cs = front ++ '<' :: (inner ++ ['>']) ∧ inner ≠ [] ∧
      ∀ c ∈ inner, (c ≠ '<' && c ≠ '>') = true := by
  rw [mailbox]
  constructor
  · intro found
    split at found
    · next rest turned =>
      let part := rest.takeWhile fun c => c ≠ '<' && c ≠ '>'
      have shut : (if part ≠ [] && (rest.drop part.length).head? = some '<' then some part.reverse
          else none) = some inner := found
      have plain : ∀ c ∈ part, (c ≠ '<' && c ≠ '>') = true := fun c mem =>
        List.mem_takeWhile_imp (p := fun c => c ≠ '<' && c ≠ '>') mem
      have split := List.prefix_append_drop (show part <+: rest from List.takeWhile_prefix _)
      split at shut
      · next guard =>
        cases shut
        obtain ⟨filled, opened⟩ : part ≠ [] ∧ (rest.drop part.length).head? = some '<' := by
          simpa only [Bool.and_eq_true, decide_eq_true_eq] using guard
        obtain ⟨more, after⟩ := List.head?_eq_some_iff.1 opened
        rw [after] at split
        refine ⟨more.reverse, ?_, by simpa using filled, fun c mem =>
          plain c (List.mem_reverse.1 mem)⟩
        have whole := congrArg List.reverse turned
        rw [List.reverse_reverse, split] at whole
        simpa using whole
      · cases shut
    · cases found
  · rintro ⟨front, eq, filled, plain⟩
    have turned : (trimEnd cs).reverse = '>' :: (inner.reverse ++ '<' :: front.reverse) := by
      simp [eq]
    have part : (inner.reverse ++ '<' :: front.reverse).takeWhile (fun c => c ≠ '<' && c ≠ '>') =
        inner.reverse := by
      rw [List.takeWhile_append_of_pos fun c mem => plain c (List.mem_reverse.1 mem)]
      simp
    rw [turned]
    simp only [part, List.drop_left, List.reverse_reverse]
    simp [filled]

theorem mailbox_of_not_mem {cs : List Char} (shut : '>' ∉ cs) : mailbox cs = none := by
  rw [Option.eq_none_iff_forall_ne_some]
  intro inner found
  obtain ⟨front, eq, -, -⟩ := mailbox_eq_some.1 found
  refine shut ?_
  have part : trimEnd cs <+: cs := by
    rw [trimEnd, ← List.reverse_suffix, List.reverse_reverse]
    exact List.dropWhile_suffix isBlank
  exact part.subset (eq ▸ by simp)

theorem trimEnd_cons {cs : List Char} (c : Char) (filled : trimEnd cs ≠ []) :
    trimEnd (c :: cs) = c :: trimEnd cs := by
  have some : cs.reverse.dropWhile isBlank ≠ [] := fun none => filled (by rw [trimEnd, none]; rfl)
  rw [trimEnd, trimEnd, List.reverse_cons, List.dropWhile_append, List.isEmpty_eq_false_iff.2 some]
  simp

/-- Trimming an address that names no mailbox in brackets leaves it so. -/
theorem mailbox_trim {cs : List Char} (shut : mailbox cs = none) : mailbox (trim cs) = none := by
  rw [Option.eq_none_iff_forall_ne_some] at shut ⊢
  intro inner found
  obtain ⟨front, eq, facts⟩ := mailbox_eq_some.1 found
  have ends : trimEnd (trim cs) = trimEnd (cs.dropWhile isBlank) :=
    trimEnd_eq_self fun c final => last_trimEnd final
  rw [ends] at eq
  have opened : ∃ front, trimEnd cs = front ++ '<' :: (inner ++ ['>']) := by
    clear found ends shut
    induction cs with
    | nil => exact ⟨front, eq⟩
    | cons c cs ih =>
        by_cases white : isBlank c = true
        · rw [List.dropWhile_cons_of_pos white] at eq
          obtain ⟨before, whole⟩ := ih eq
          refine ⟨c :: before, ?_⟩
          rw [trimEnd_cons c (by rw [whole]; simp), whole]
          rfl
        · rw [List.dropWhile_cons_of_neg white] at eq
          exact ⟨front, eq⟩
  obtain ⟨before, whole⟩ := opened
  exact shut inner (mailbox_eq_some.2 ⟨before, whole, facts⟩)

/-- What an address is compared by: no brackets around it, nothing to trim. -/
theorem trim_mailbox (cs : List Char) : mailbox (trim ((mailbox cs).getD cs)) = none := by
  cases found : mailbox cs with
  | none => exact mailbox_trim found
  | some inner =>
      obtain ⟨-, -, -, plain⟩ := mailbox_eq_some.1 found
      refine mailbox_of_not_mem fun mem => ?_
      have := plain '>' ((trimBlank_part isBlank inner).subset mem)
      simp at this

theorem addressKey_lower {texts : Texts} (lowers : Lowers texts.lower) {s : String}
    (shut : mailbox s.toList = none) (clean : trim s.toList = s.toList) :
    addressKey texts (texts.lower s) = texts.lower s := by
  rw [addressKey, lowers.plain s shut, Option.getD_none, lowers.ends s clean, String.ofList_toList,
    lowers.twice]

theorem addressKey_again {texts : Texts} (lowers : Lowers texts.lower) (x : String) :
    addressKey texts (addressKey texts x) = addressKey texts x := by
  have shut := trim_mailbox x.toList
  have clean := trim_trim ((mailbox x.toList).getD x.toList)
  rw [addressKey.eq_1 texts x]
  generalize trim ((mailbox x.toList).getD x.toList) = cs at shut clean
  refine addressKey_lower lowers ?_ ?_
  · rw [String.toList_ofList, shut]
  · rw [String.toList_ofList, clean]

theorem lowerAll_again {texts : Texts} (lowers : Lowers texts.lower) (xs : List String) :
    lowerAll texts (lowerAll texts xs) = lowerAll texts xs := by
  rw [lowerAll, lowerAll, List.map_map]
  exact List.map_congr_left fun x _ => addressKey_again lowers x

/-! ## Keys -/

/-- A snapshot that says what a key says. -/
structure SnapshotKey.ReadBy (key : SnapshotKey) (s : DraftSnapshot) : Prop where
  recipients : s.recipients = key.recipients
  cc : s.cc = key.cc
  bcc : s.bcc = key.bcc
  subject : s.subject = key.subject
  body : s.bodyMarkdown = String.ofList key.body
  attachments : (s.attachments.map fun a => (a.filename, a.size, a.source) :
    Multiset (String × Nat × Option AttachmentSource)) = key.attachments

/-- **The key of what a key says** is the key. -/
theorem normalizeSnapshot_again {texts : Texts} (lowers : Lowers texts.lower) {provider : Bool}
    {s s' : DraftSnapshot} (read : (normalizeSnapshot texts provider s).ReadBy s') :
    normalizeSnapshot texts provider s' = normalizeSnapshot texts provider s := by
  have body : bodyKey provider s'.bodyMarkdown = bodyKey provider s.bodyMarkdown := by
    rw [read.body]
    cases provider with
    | true => exact bodyKey_provider_again s.bodyMarkdown
    | false => exact bodyKey_own_again s.bodyMarkdown
  have subject : s'.subject.map trimmed = s.subject.map trimmed := by
    have once : s'.subject = s.subject.map trimmed := read.subject
    rw [once]
    cases s.subject with
    | none => rfl
    | some x => exact congrArg some (trimmed_trimmed x)
  have all : ∀ xs ys : List String, ys = lowerAll texts xs → lowerAll texts ys = lowerAll texts xs := by
    intro xs ys once
    rw [once, lowerAll_again lowers]
  have recipients := all s.recipients s'.recipients read.recipients
  have cc := all s.cc s'.cc read.cc
  have bcc := all s.bcc s'.bcc read.bcc
  have files := read.attachments
  simp only [normalizeSnapshot] at files ⊢
  rw [recipients, cc, bcc, subject, body, files]

end Kiagent.Outbound
