/-
# Converter.RecordSplit -- reading records does not depend on where it is cut, mostly

The reference split of a file tests whole lines as markers and keeps of a record the longest
run of whole lines that fits.  `readRecords` yields it, from the start and from the end of
any record, exactly where the fragments of a line read as the line does and nothing fits any
more once a line did not (`readsRight_iff`).

It keeps a later line after it has dropped one, so what is left of a truncated record need
not be its head (`kept_after_dropped`).
-/
import Kiagent.Converter.Records

namespace Kiagent.Converter

open Theory.Lines

set_option autoImplicit false

/-! ## Marked text -/

/-- A line or fragment with the answers of the rules. -/
structure Marked where
  offset : Nat
  text : Bytes
  starts : Bool
  stops : Bool
  deriving DecidableEq

def bytesOf (us : List Marked) : Nat := (us.map Marked.text).flatten.length

section Mark

variable (rules : RecordRules)

def mark : Bool → Nat → List Piece → List Marked
  | _, _, [] => []
  | prevBlank, offset, p :: ps =>
      ⟨offset, p.text, p.head && rules.isStart p.text prevBlank, p.head && rules.isEnd p.text⟩ ::
        mark (if p.head then isBlank p.text else prevBlank) (offset + p.text.length) ps

/-- Up to an end line, with it. -/
def untilEnd : List Marked → List Marked
  | [] => []
  | u :: us => if u.stops then [u] else u :: untilEnd us

/-- A record begins at each start and runs to its end or the next start. -/
def split : List Marked → List (List Marked)
  | [] => []
  | u :: us =>
      if u.starts then untilEnd (u :: us.takeWhile fun v => !v.starts) :: split us else split us

def startOf (us : List Marked) : Nat := (us.head?.map Marked.offset).getD 0

/-- Everything that still fits. -/
def keptRecord (us : List Marked) : RawRecord where
  raw := keepWithin rules.maxRecordBytes (us.map Marked.text)
  start := startOf us
  ends := startOf us + bytesOf us
  truncated := rules.maxRecordBytes < bytesOf us

/-- The longest run that fits. -/
def headRecord (us : List Marked) : RawRecord :=
  { keptRecord rules us with raw := headWithin rules.maxRecordBytes (us.map Marked.text) }

/-! ## The reader as a split -/

def OpenRecord.extend (r : OpenRecord) (us : List Marked) : OpenRecord :=
  us.foldl (fun r u => r.append rules u.text) r

theorem extend_spec (start : Nat) (us : List Marked) :
    ((⟨[], start, false⟩ : OpenRecord).extend rules us).parts.flatten
        = keepWithin rules.maxRecordBytes (us.map Marked.text) ∧
      ((⟨[], start, false⟩ : OpenRecord).extend rules us).truncated
        = decide (rules.maxRecordBytes < bytesOf us) ∧
      ((⟨[], start, false⟩ : OpenRecord).extend rules us).start = start := by
  induction us using List.reverseRecOn with
  | nil => simp [OpenRecord.extend, keepWithin, bytesOf]
  | append_singleton us u ih =>
      obtain ⟨raw, truncated, start_⟩ := ih
      have step : (⟨[], start, false⟩ : OpenRecord).extend rules (us ++ [u])
          = ((⟨[], start, false⟩ : OpenRecord).extend rules us).append rules u.text := by
        rw [OpenRecord.extend, List.foldl_append]
        rfl
      have longer : bytesOf (us ++ [u]) = bytesOf us + u.text.length := by
        simp [bytesOf]
      rw [step, List.map_append, List.map_singleton, keepWithin_concat, longer]
      unfold OpenRecord.append OpenRecord.size
      rw [raw]
      by_cases fits : (keepWithin rules.maxRecordBytes (us.map Marked.text)).length
          + u.text.length ≤ rules.maxRecordBytes
      · rw [if_pos fits, if_neg (by omega)]
        refine ⟨by simp [raw], ?_, start_⟩
        by_cases room : bytesOf us ≤ rules.maxRecordBytes
        · rw [keepWithin_all room] at fits
          have whole : bytesOf us + u.text.length ≤ rules.maxRecordBytes := fits
          rw [truncated, decide_eq_decide]
          omega
        · rw [truncated, decide_eq_decide]
          omega
      · rw [if_neg fits, if_pos (by omega)]
        refine ⟨raw, ?_, start_⟩
        by_cases room : bytesOf us ≤ rules.maxRecordBytes
        · rw [keepWithin_all room] at fits
          have cut : ¬ bytesOf us + u.text.length ≤ rules.maxRecordBytes := fits
          exact (decide_eq_true (by omega)).symm
        · exact (decide_eq_true (by omega)).symm

theorem extend_finish (u : Marked) (us : List Marked) :
    ((⟨[], u.offset, false⟩ : OpenRecord).extend rules (u :: us)).finish
        (u.offset + bytesOf (u :: us))
      = keptRecord rules (u :: us) := by
  obtain ⟨raw, truncated, start⟩ := extend_spec rules u.offset (u :: us)
  unfold OpenRecord.finish keptRecord
  rw [raw, truncated, start]
  rfl

theorem untilEnd_cons (u : Marked) (us : List Marked) : ∃ vs, untilEnd (u :: us) = u :: vs := by
  rw [untilEnd]
  split
  · exact ⟨[], rfl⟩
  · exact ⟨untilEnd us, rfl⟩

theorem bytesOf_cons (u : Marked) (us : List Marked) :
    bytesOf (u :: us) = u.text.length + bytesOf us := by
  simp [bytesOf]

/-- What an open record becomes. -/
def OpenRecord.ending (r : OpenRecord) (offset : Nat) (us : List Marked) : RawRecord :=
  let rest := untilEnd (us.takeWhile fun v => !v.starts)
  (r.extend rules rest).finish (offset + bytesOf rest)

/-- One line, by the answers of the rules. -/
theorem onLine_eq (s : Reading) (p : Piece) (offset : Nat) :
    let starts := p.head && rules.isStart p.text s.prevBlank
    let stops := p.head && rules.isEnd p.text
    let prevBlank := if p.head then isBlank p.text else s.prevBlank
    let out := if starts then (s.finish offset).out else s.out
    let kept := (if starts then some ⟨[], offset, false⟩ else s.record).map fun r =>
      r.append rules p.text
    s.onLine rules p offset =
      if stops then
        ⟨prevBlank, none, out ++ (kept.map fun r => r.finish (offset + p.text.length)).toList⟩
      else ⟨prevBlank, kept, out⟩ := by
  dsimp only
  unfold Reading.onLine Reading.opening
  dsimp only
  cases p.head with
  | false => simp
  | true =>
      by_cases starts : rules.isStart p.text s.prevBlank = true
      · by_cases stops : rules.isEnd p.text = true
        · simp [starts, stops, Reading.finish]
        · simp [starts, stops]
      · by_cases stops : rules.isEnd p.text = true
        · cases open_ : s.record <;> simp [starts, stops, Reading.finish, open_]
        · simp [starts, stops]

theorem ending_start (r : OpenRecord) (offset : Nat) {u : Marked} (us : List Marked)
    (starts : u.starts = true) : r.ending rules offset (u :: us) = r.finish offset := by
  simp [OpenRecord.ending, starts, untilEnd, OpenRecord.extend, bytesOf]

theorem ending_stop (r : OpenRecord) (offset : Nat) {u : Marked} (us : List Marked)
    (starts : u.starts = false) (stops : u.stops = true) :
    r.ending rules offset (u :: us) = (r.append rules u.text).finish (offset + u.text.length) := by
  simp [OpenRecord.ending, starts, stops, untilEnd, OpenRecord.extend, bytesOf]

theorem ending_next (r : OpenRecord) (offset : Nat) {u : Marked} (us : List Marked)
    (starts : u.starts = false) (stops : u.stops = false) :
    r.ending rules offset (u :: us)
      = (r.append rules u.text).ending rules (offset + u.text.length) us := by
  simp [OpenRecord.ending, starts, stops, untilEnd, OpenRecord.extend, bytesOf, Nat.add_assoc]

/-- A record that has just begun. -/
theorem ending_begun {u : Marked} (us : List Marked) (stops : u.stops = false) :
    ((⟨[], u.offset, false⟩ : OpenRecord).append rules u.text).ending rules
        (u.offset + u.text.length) us
      = keptRecord rules (untilEnd (u :: us.takeWhile fun v => !v.starts)) := by
  rw [untilEnd, stops, if_neg (by decide), ← extend_finish, bytesOf_cons, ← Nat.add_assoc]
  rfl

/-- **A reading yields the records of its pieces.** -/
theorem closing_feed (ps : List Piece) :
    ∀ (s : Reading) (offset : Nat),
      ((feed rules s offset ps).finish (offset + (ps.map Piece.text).flatten.length)).out
        = s.out ++ (s.record.map fun r => r.ending rules offset
            (mark rules s.prevBlank offset ps)).toList ++
          (split (mark rules s.prevBlank offset ps)).map (keptRecord rules) := by
  induction ps with
  | nil =>
      intro s offset
      cases open_ : s.record <;> simp [feed, Reading.finish, mark, split, OpenRecord.ending,
        untilEnd, bytesOf, OpenRecord.extend, open_]
  | cons p ps ih =>
      intro s offset
      have line := onLine_eq rules s p offset
      dsimp only at line
      have prevBlank : (s.onLine rules p offset).prevBlank
          = if p.head then isBlank p.text else s.prevBlank := by
        rw [line]
        split <;> rfl
      rw [feed, List.map_cons, List.flatten_cons, List.length_append, ← Nat.add_assoc, ih,
        prevBlank, mark]
      generalize (p.head && rules.isStart p.text s.prevBlank) = starts at *
      generalize (p.head && rules.isEnd p.text) = stops at *
      rw [line]
      clear ih line prevBlank
      generalize mark rules (if p.head then isBlank p.text else s.prevBlank)
        (offset + p.text.length) ps = us at *
      cases starts with
      | true =>
          have closed : s.record.map (fun r =>
              r.ending rules offset (⟨offset, p.text, true, stops⟩ :: us))
              = s.record.map fun r => r.finish offset := by
            cases s.record <;> simp [ending_start]
          rw [closed, split]
          cases stops with
          | true =>
              have alone := extend_finish rules ⟨offset, p.text, true, true⟩ []
              simp [Reading.finish, untilEnd, ← alone, OpenRecord.extend, bytesOf]
          | false =>
              have begun := ending_begun rules (u := ⟨offset, p.text, true, false⟩) us rfl
              simp [Reading.finish, ← begun]
      | false =>
          rw [split]
          cases open_ : s.record with
          | none => cases stops <;> simp
          | some r =>
              cases stops with
              | true =>
                  have done := ending_stop rules r offset
                    (u := ⟨offset, p.text, false, true⟩) us rfl rfl
                  simp [done]
              | false =>
                  have next := ending_next rules r offset
                    (u := ⟨offset, p.text, false, false⟩) us rfl rfl
                  simp [next]

/-! ## The reference -/

def whole (ls : List Bytes) : List Piece := ls.map fun l => ⟨l, true⟩

/-- The records of the lines from an offset. -/
def reference (file : Bytes) (offset : Nat) : List RawRecord :=
  (split (mark rules true offset (whole (lines isNewline (file.drop offset))))).map
    (headRecord rules)

/-! ## Lines and their fragments -/

structure Cut where
  line : Marked
  first : Marked
  rest : List Marked

def Cut.parts (c : Cut) : List Marked := c.first :: c.rest

/-- Fragments after the first are no markers. -/
def later : Nat → List Bytes → List Marked
  | _, [] => []
  | offset, p :: ps => ⟨offset, p, false, false⟩ :: later (offset + p.length) ps

def cutOf (prevBlank : Bool) (offset distance : Nat) (l : Bytes) : Cut :=
  let p := (fragments distance l).headD l
  { line := ⟨offset, l, rules.isStart l prevBlank, rules.isEnd l⟩
    first := ⟨offset, p, rules.isStart p prevBlank, rules.isEnd p⟩
    rest := later (offset + p.length) (fragments distance l).tail }

def cuts : Bool → Nat → Nat → List Bytes → List Cut
  | _, _, _, [] => []
  | prevBlank, offset, distance, l :: ls =>
      cutOf rules prevBlank offset distance l ::
        cuts (isBlank l) (offset + l.length) (distance + l.length) ls

/-- What a cut is made of. -/
structure Cut.Parted (c : Cut) : Prop where
  offset : c.first.offset = c.line.offset
  plain : ∀ u ∈ c.rest, u.starts = false ∧ u.stops = false
  text : (c.parts.map Marked.text).flatten = c.line.text
  nonempty : ∀ u ∈ c.parts, u.text ≠ []
  alone : c.rest = [] → c.first = c.line

theorem later_plain (ps : List Bytes) :
    ∀ offset, ∀ u ∈ later offset ps, u.starts = false ∧ u.stops = false := by
  induction ps with
  | nil => simp [later]
  | cons p ps ih =>
      intro offset u member
      rcases List.mem_cons.mp member with rfl | old
      · exact ⟨rfl, rfl⟩
      · exact ih _ u old

theorem later_texts (ps : List Bytes) : ∀ offset, (later offset ps).map Marked.text = ps := by
  induction ps with
  | nil => simp [later]
  | cons p ps ih => simp [later, ih]

/-- A line is one fragment, or the first is long. -/
theorem fragments_cases (distance : Nat) (l : Bytes) :
    fragments distance l = [l] ∨ ∃ p ps, fragments distance l = p :: ps ∧ ps ≠ [] ∧
      LINE_FRAGMENT < p.length ∧ p.length < l.length := by
  have cut : LINE_FRAGMENT < firstCut distance := by
    have chunk : CHUNK = 1048576 := rfl
    have fragment : LINE_FRAGMENT = 65536 := rfl
    unfold firstCut
    rw [chunk, fragment]
    dsimp only
    split <;> omega
  unfold fragments
  rcases Nat.lt_or_ge (firstCut distance) l.length with long | short
  · right
    refine ⟨_, _, cutAt_long ⟨by decide, by omega⟩ long, ?_, ?_, ?_⟩
    · rw [cutAt]
      split <;> simp
    · rw [List.length_take]
      omega
    · rw [List.length_take]
      omega
  · exact Or.inl (cutAt_short _ short)

theorem parted_cutOf (prevBlank : Bool) (offset distance : Nat) {l : Bytes} (nonempty : l ≠ []) :
    (cutOf rules prevBlank offset distance l).Parted := by
  have parts : (fragments distance l).headD l :: (fragments distance l).tail
      = fragments distance l := by
    rcases fragments_cases distance l with one | ⟨p, ps, many, -⟩
    · rw [one]
      rfl
    · rw [many]
      rfl
  have texts : ((cutOf rules prevBlank offset distance l).parts.map Marked.text)
      = fragments distance l := by
    rw [← parts]
    simp [Cut.parts, cutOf, later_texts]
  refine ⟨rfl, later_plain _ _, ?_, ?_, ?_⟩
  · rw [texts]
    exact flatten_cutAt _ _ _
  · intro u member
    exact cutAt_ne_nil nonempty _ (texts ▸ List.mem_map_of_mem member)
  · intro alone
    rcases fragments_cases distance l with one | ⟨p, ps, many, more, -⟩
    · simp [cutOf, one]
    · have none_ := congrArg (List.map Marked.text) alone
      rw [cutOf, later_texts, many] at none_
      exact absurd none_ more

theorem parted_cuts {ls : List Bytes} (nonempty : ∀ l ∈ ls, l ≠ []) :
    ∀ prevBlank offset distance, ∀ c ∈ cuts rules prevBlank offset distance ls, c.Parted := by
  induction ls with
  | nil => simp [cuts]
  | cons l ls ih =>
      intro prevBlank offset distance c member
      rcases List.mem_cons.mp member with rfl | old
      · exact parted_cutOf rules _ _ _ (nonempty l List.mem_cons_self)
      · exact ih (fun k member => nonempty k (List.mem_cons_of_mem _ member)) _ _ _ c old

theorem mark_whole (ls : List Bytes) :
    ∀ prevBlank offset distance, mark rules prevBlank offset (whole ls)
      = (cuts rules prevBlank offset distance ls).map Cut.line := by
  induction ls with
  | nil => intros; rfl
  | cons l ls ih =>
      intro prevBlank offset distance
      have rest := ih (isBlank l) (offset + l.length) (distance + l.length)
      rw [whole] at rest
      rw [whole, List.map_cons, mark, cuts, List.map_cons, if_pos rfl, rest]
      rfl

theorem mark_later (ps : List Bytes) (more : List Piece) :
    ∀ prevBlank offset, mark rules prevBlank offset ((ps.map fun q => ⟨q, false⟩) ++ more)
      = later offset ps ++ mark rules prevBlank (offset + ps.flatten.length) more := by
  induction ps with
  | nil => intros; rfl
  | cons p ps ih =>
      intro prevBlank offset
      rw [List.map_cons, List.cons_append, mark, if_neg Bool.false_ne_true, ih, List.flatten_cons,
        List.length_append, ← Nat.add_assoc]
      rfl

/-- The first fragment of a line is blank if the line is. -/
theorem isBlank_first (distance : Nat) (l : Bytes) :
    isBlank ((fragments distance l).headD l) = isBlank l := by
  rcases fragments_cases distance l with one | ⟨p, ps, many, -, long, longer⟩
  · rw [one]
    rfl
  · have two : LINE_FRAGMENT = 65536 := rfl
    have never : ∀ t : Bytes, 2 < t.length → isBlank t = false := by
      intro t more
      match t, more with
      | _ :: _ :: _ :: _, _ => simp [isBlank]
    rw [many, List.headD_cons, never p (by omega), never l (by omega)]

theorem mark_pieces (ls : List Bytes) :
    ∀ prevBlank offset distance, mark rules prevBlank offset (pieces distance ls)
      = (cuts rules prevBlank offset distance ls).flatMap Cut.parts := by
  induction ls with
  | nil => intros; rfl
  | cons l ls ih =>
      intro prevBlank offset distance
      have rest := ih (isBlank l) (offset + l.length) (distance + l.length)
      have flat : (fragments distance l).flatten = l := flatten_cutAt _ _ _
      have blank := isBlank_first distance l
      rw [pieces, cuts, List.flatMap_cons, cutOf, ← rest, ← blank]
      cases parts : fragments distance l with
      | nil =>
          rcases fragments_cases distance l with one | ⟨p, ps, many, -⟩
          · rw [one] at parts
            cases parts
          · rw [many] at parts
            cases parts
      | cons p ps =>
          have lengths : p.length + ps.flatten.length = l.length := by
            rw [parts, List.flatten_cons] at flat
            rw [← flat, List.length_append]
          rw [flagged, List.cons_append, mark, if_pos rfl, mark_later, Nat.add_assoc, lengths]
          rfl

end Mark

/-! ## Blocks -/

/-- Lines from each start up to the next. -/
def blocks : List Cut → List (List Cut)
  | [] => []
  | c :: cs =>
      if c.line.starts then (c :: cs.takeWhile fun d => !d.line.starts) :: blocks cs else blocks cs

/-- Up to an end line, with it. -/
def upto : List Cut → List Cut
  | [] => []
  | c :: cs => if c.line.stops then [c] else c :: upto cs

/-- The first line of a block that is an end line, or whose first fragment reads as one, is
not cut.  Or it is the last, and only reads as one whole. -/
def EndsAlike : List Cut → Prop
  | [] => True
  | c :: cs =>
      if c.line.stops || c.first.stops then
        c.rest = [] ∨ (cs = [] ∧ c.line.stops = true ∧ c.first.stops = false)
      else EndsAlike cs

theorem untilEnd_lines (cs : List Cut) : untilEnd (cs.map Cut.line) = (upto cs).map Cut.line := by
  induction cs with
  | nil => rfl
  | cons c cs ih =>
      rw [List.map_cons, untilEnd, upto]
      split
      · rfl
      · rw [ih]
        rfl

theorem split_lines (cs : List Cut) :
    split (cs.map Cut.line) = (blocks cs).map fun block => untilEnd (block.map Cut.line) := by
  induction cs with
  | nil => rfl
  | cons c cs ih =>
      rw [List.map_cons, split, blocks]
      split
      · rw [ih, List.map_cons, List.map_cons, List.takeWhile_map]
        rfl
      · exact ih

theorem split_plain {us : List Marked} (plain : ∀ u ∈ us, u.starts = false ∧ u.stops = false)
    (more : List Marked) : split (us ++ more) = split more := by
  induction us with
  | nil => rfl
  | cons u us ih =>
      rw [List.cons_append, split, (plain u List.mem_cons_self).1,
        if_neg Bool.false_ne_true]
      exact ih fun v member => plain v (List.mem_cons_of_mem _ member)

theorem untilEnd_plain {us : List Marked} (plain : ∀ u ∈ us, u.starts = false ∧ u.stops = false)
    (more : List Marked) : untilEnd (us ++ more) = us ++ untilEnd more := by
  induction us with
  | nil => rfl
  | cons u us ih =>
      rw [List.cons_append, untilEnd, (plain u List.mem_cons_self).2,
        if_neg Bool.false_ne_true, ih fun v member => plain v (List.mem_cons_of_mem _ member)]
      rfl

theorem takeWhile_parts {cs : List Cut} (parted : ∀ c ∈ cs, c.Parted)
    (same : ∀ c ∈ cs, c.first.starts = c.line.starts) :
    (cs.flatMap Cut.parts).takeWhile (fun u => !u.starts)
      = (cs.takeWhile fun c => !c.line.starts).flatMap Cut.parts := by
  induction cs with
  | nil => rfl
  | cons c cs ih =>
      have next := ih (fun d member => parted d (List.mem_cons_of_mem _ member))
        (fun d member => same d (List.mem_cons_of_mem _ member))
      have here := same c List.mem_cons_self
      have plain : ∀ u ∈ c.rest, (!u.starts) = true := fun u member => by
        rw [((parted c List.mem_cons_self).plain u member).1]
        rfl
      rw [List.flatMap_cons, Cut.parts, List.cons_append, List.takeWhile_cons, List.takeWhile_cons,
        here]
      split
      · rw [List.flatMap_cons, List.takeWhile_append_of_pos plain, next]
        rfl
      · rfl

theorem split_parts {cs : List Cut} (parted : ∀ c ∈ cs, c.Parted)
    (same : ∀ c ∈ cs, c.first.starts = c.line.starts) :
    split (cs.flatMap Cut.parts)
      = (blocks cs).map fun block => untilEnd (block.flatMap Cut.parts) := by
  induction cs with
  | nil => rfl
  | cons c cs ih =>
      have parted' := fun d member => parted d (List.mem_cons_of_mem c member)
      have same' := fun d member => same d (List.mem_cons_of_mem c member)
      have plain := (parted c List.mem_cons_self).plain
      have all : ∀ u ∈ c.rest, (!u.starts) = true := fun u member => by
        rw [(plain u member).1]
        rfl
      rw [List.flatMap_cons, Cut.parts, List.cons_append, split, blocks,
        same c List.mem_cons_self, split_plain plain, ih parted' same']
      split
      · rw [List.map_cons, List.flatMap_cons, List.takeWhile_append_of_pos all,
          takeWhile_parts parted' same']
        rfl
      · rfl

/-! ## One block -/

theorem bytesOf_append (us vs : List Marked) : bytesOf (us ++ vs) = bytesOf us + bytesOf vs := by
  simp [bytesOf]

theorem bytesOf_parts {c : Cut} (parted : c.Parted) : bytesOf c.parts = c.line.text.length := by
  rw [bytesOf, parted.text]

theorem first_lt {c : Cut} (parted : c.Parted) (cut : c.rest ≠ []) :
    c.first.text.length < c.line.text.length := by
  obtain ⟨u, us, more⟩ := List.exists_cons_of_ne_nil cut
  have next := List.length_pos_iff.mpr
    (parted.nonempty u (List.mem_cons_of_mem _ (more ▸ List.mem_cons_self)))
  have whole := bytesOf_parts parted
  rw [Cut.parts, more, bytesOf_cons, bytesOf_cons] at whole
  omega

/-- The fragments of a block up to its end. -/
theorem untilEnd_parts {c : Cut} (parted : c.Parted) (cs : List Cut) :
    untilEnd ((c :: cs).flatMap Cut.parts)
      = if c.first.stops then [c.first] else c.parts ++ untilEnd (cs.flatMap Cut.parts) := by
  rw [List.flatMap_cons, Cut.parts, List.cons_append, untilEnd]
  split
  · rfl
  · rw [untilEnd_plain parted.plain]
    rfl

theorem untilEnd_endsAlike {cs : List Cut} (parted : ∀ c ∈ cs, c.Parted) (alike : EndsAlike cs) :
    untilEnd (cs.flatMap Cut.parts) = (upto cs).flatMap Cut.parts := by
  induction cs with
  | nil => rfl
  | cons c cs ih =>
      have here := parted c List.mem_cons_self
      rw [untilEnd_parts here, upto]
      rw [EndsAlike] at alike
      split at alike
      · rcases alike with uncut | ⟨last, stops, not_⟩
        · rename_i either
          rw [here.alone uncut, Bool.or_self] at either
          rw [here.alone uncut, if_pos either, if_pos either, List.flatMap_singleton, Cut.parts,
            uncut, here.alone uncut]
        · rw [not_, if_neg Bool.false_ne_true, if_pos stops, last, List.flatMap_singleton]
          simp [untilEnd]
      · rename_i neither
        rw [Bool.or_eq_true, not_or] at neither
        rw [if_neg neither.2, if_neg neither.1, List.flatMap_cons,
          ih (fun d member => parted d (List.mem_cons_of_mem _ member)) alike]

theorem bytesOf_upto {cs : List Cut} (parted : ∀ c ∈ cs, c.Parted) :
    bytesOf ((upto cs).flatMap Cut.parts) = bytesOf ((upto cs).map Cut.line) := by
  induction cs with
  | nil => rfl
  | cons c cs ih =>
      have here := bytesOf_parts (parted c List.mem_cons_self)
      rw [upto]
      split
      · rw [List.flatMap_singleton, here, List.map_singleton, bytesOf_cons]
        rfl
      · rw [List.flatMap_cons, bytesOf_append, here, List.map_cons, bytesOf_cons,
          ih fun d member => parted d (List.mem_cons_of_mem _ member)]

/-- **A record ends where the lines say** exactly where its end lines read alike. -/
theorem endsAlike_iff {cs : List Cut} (parted : ∀ c ∈ cs, c.Parted) :
    bytesOf (untilEnd (cs.flatMap Cut.parts)) = bytesOf (untilEnd (cs.map Cut.line)) ↔
      EndsAlike cs := by
  induction cs with
  | nil => simp [untilEnd, EndsAlike]
  | cons c cs ih =>
      have here := parted c List.mem_cons_self
      have rest := ih fun d member => parted d (List.mem_cons_of_mem _ member)
      constructor
      · intro same
        rw [untilEnd_parts here, List.map_cons, untilEnd] at same
        rw [EndsAlike]
        by_cases firstStops : c.first.stops = true
        · -- a fragment that ends the record is shorter than its line
          rw [if_pos firstStops] at same
          rw [if_pos (by rw [firstStops, Bool.or_true])]
          refine Or.inl (by_contra fun cut => ?_)
          have shorter := first_lt here cut
          split at same
          · rw [bytesOf_cons, bytesOf_cons] at same
            omega
          · rw [bytesOf_cons, bytesOf_cons, bytesOf] at same
            simp only [List.map_nil, List.flatten_nil, List.length_nil] at same
            omega
        · rw [if_neg firstStops] at same
          by_cases lineStops : c.line.stops = true
          · rw [if_pos lineStops, bytesOf_append, bytesOf_parts here, bytesOf_cons] at same
            rw [if_pos (by rw [lineStops, Bool.true_or])]
            refine Or.inr ⟨by_contra fun more => ?_, lineStops, by simpa using firstStops⟩
            obtain ⟨d, ds, next⟩ := List.exists_cons_of_ne_nil more
            have nextPart := parted d (List.mem_cons_of_mem _ (next ▸ List.mem_cons_self))
            have longer : 0 < bytesOf (untilEnd (cs.flatMap Cut.parts)) := by
              have pos := List.length_pos_iff.mpr
                (nextPart.nonempty d.first List.mem_cons_self)
              rw [next, untilEnd_parts nextPart]
              split
              · rw [bytesOf_cons]
                omega
              · rw [bytesOf_append, Cut.parts, bytesOf_cons]
                omega
            have zero : bytesOf ([] : List Marked) = 0 := rfl
            omega
          · rw [if_neg lineStops, bytesOf_append, bytesOf_parts here, bytesOf_cons] at same
            rw [if_neg (by simp [firstStops, lineStops])]
            exact rest.mp (by omega)
      · intro alike
        rw [untilEnd_endsAlike parted alike, untilEnd_lines, bytesOf_upto parted]

/-- The block is read as its lines are: it ends alike, and nothing fits any more once a line
did not. -/
def BlockRight (maxRecordBytes : Nat) (block : List Cut) : Prop :=
  EndsAlike block ∧
    NoneAfter (fun c => c.line.text) (fun c => c.parts.map Marked.text) maxRecordBytes (upto block)

theorem upto_subset (cs : List Cut) : upto cs ⊆ cs := by
  induction cs with
  | nil => simp [upto]
  | cons c cs ih =>
      rw [upto]
      split
      · simp
      · exact List.cons_subset_cons c ih

theorem startOf_untilEnd (u : Marked) (us : List Marked) :
    startOf (untilEnd (u :: us)) = u.offset := by
  obtain ⟨vs, here⟩ := untilEnd_cons u us
  rw [here]
  rfl

theorem blockRight_iff (rules : RecordRules) {c : Cut} {cs : List Cut}
    (parted : ∀ d ∈ c :: cs, d.Parted) :
    keptRecord rules (untilEnd ((c :: cs).flatMap Cut.parts))
        = headRecord rules (untilEnd ((c :: cs).map Cut.line)) ↔
      BlockRight rules.maxRecordBytes (c :: cs) := by
  have start : startOf (untilEnd ((c :: cs).flatMap Cut.parts))
      = startOf (untilEnd ((c :: cs).map Cut.line)) := by
    rw [List.flatMap_cons, Cut.parts, List.cons_append, List.map_cons, startOf_untilEnd,
      startOf_untilEnd]
    exact (parted c List.mem_cons_self).offset
  have texts : ∀ d ∈ upto (c :: cs), (d.parts.map Marked.text).flatten = d.line.text :=
    fun d member => (parted d (upto_subset _ member)).text
  have nonempty : ∀ d ∈ upto (c :: cs), ∀ p ∈ d.parts.map Marked.text, p ≠ [] := by
    intro d member p part
    obtain ⟨u, inParts, rfl⟩ := List.mem_map.mp part
    exact (parted d (upto_subset _ member)).nonempty u inParts
  have kept : EndsAlike (c :: cs) → (keepWithin rules.maxRecordBytes
      ((untilEnd ((c :: cs).flatMap Cut.parts)).map Marked.text)
        = headWithin rules.maxRecordBytes ((untilEnd ((c :: cs).map Cut.line)).map Marked.text) ↔
      NoneAfter (fun c => c.line.text) (fun c => c.parts.map Marked.text) rules.maxRecordBytes
        (upto (c :: cs))) := fun alike => by
    rw [untilEnd_endsAlike parted alike, untilEnd_lines, List.map_flatMap, List.map_map]
    exact keep_eq_head_iff _ _ texts nonempty _
  constructor
  · intro same
    have ends := congrArg RawRecord.ends same
    change startOf _ + bytesOf _ = startOf _ + bytesOf _ at ends
    have alike : EndsAlike (c :: cs) := (endsAlike_iff parted).mp (by omega)
    exact ⟨alike, (kept alike).mp (congrArg RawRecord.raw same)⟩
  · rintro ⟨alike, fits⟩
    have totals := (endsAlike_iff parted).mpr alike
    have raw := (kept alike).mpr fits
    unfold headRecord keptRecord
    rw [start, totals, raw]

/-! ## All blocks -/

theorem blocks_cons_of_mem {cs : List Cut} :
    ∀ block ∈ blocks cs, ∃ c ds, block = c :: ds ∧ ∀ d ∈ block, d ∈ cs := by
  induction cs with
  | nil => simp [blocks]
  | cons c cs ih =>
      intro block member
      have old : block ∈ blocks cs → ∃ c' ds, block = c' :: ds ∧ ∀ d ∈ block, d ∈ c :: cs := by
        intro here
        obtain ⟨c', ds, rfl, inside⟩ := ih block here
        exact ⟨c', ds, rfl, fun d inBlock => List.mem_cons_of_mem _ (inside d inBlock)⟩
      rw [blocks] at member
      split at member
      · rcases List.mem_cons.mp member with rfl | here
        · refine ⟨c, _, rfl, fun d inBlock => ?_⟩
          rcases List.mem_cons.mp inBlock with rfl | inRest
          · exact List.mem_cons_self
          · exact List.mem_cons_of_mem _ (List.takeWhile_subset _ inRest)
        · exact old here
      · exact old member

/-- The records begin where a start is. -/
theorem split_starts (us : List Marked) :
    (split us).map startOf = (us.filter Marked.starts).map Marked.offset := by
  induction us with
  | nil => rfl
  | cons u us ih =>
      rw [split, List.filter_cons]
      split
      · rw [List.map_cons, List.map_cons, ih, startOf_untilEnd]
      · exact ih

theorem filter_parts {cs : List Cut} (parted : ∀ c ∈ cs, c.Parted) :
    ((cs.flatMap Cut.parts).filter Marked.starts).map Marked.offset
      = (cs.filter fun c => c.first.starts).map fun c => c.line.offset := by
  induction cs with
  | nil => rfl
  | cons c cs ih =>
      have rest := ih fun d member => parted d (List.mem_cons_of_mem _ member)
      have here := parted c List.mem_cons_self
      have none_ : c.rest.filter Marked.starts = [] :=
        List.filter_eq_nil_iff.mpr fun u member => by simp [(here.plain u member).1]
      rw [List.flatMap_cons, List.filter_append, List.map_append, rest, Cut.parts,
        List.filter_cons, none_, List.filter_cons]
      split
      · simp [here.offset]
      · simp

theorem same_starts {cs : List Cut} (parted : ∀ c ∈ cs, c.Parted)
    (distinct : (cs.map fun c => c.line.offset).Nodup)
    (same : (split (cs.flatMap Cut.parts)).map startOf = (split (cs.map Cut.line)).map startOf) :
    ∀ c ∈ cs, c.first.starts = c.line.starts := by
  rw [split_starts, split_starts, filter_parts parted, List.filter_map, List.map_map] at same
  have inList : ∀ (p : Cut → Bool), ∀ c ∈ cs,
      p c = true ↔ c.line.offset ∈ (cs.filter p).map fun c => c.line.offset := by
    intro p c member
    rw [List.mem_map]
    constructor
    · intro here
      exact ⟨c, List.mem_filter.mpr ⟨member, here⟩, rfl⟩
    · rintro ⟨d, inFilter, offset⟩
      obtain ⟨inCuts, here⟩ := List.mem_filter.mp inFilter
      rwa [← List.inj_on_of_nodup_map distinct inCuts member offset]
  intro c member
  have first := inList (fun c => c.first.starts) c member
  have line := inList (fun c => c.line.starts) c member
  rw [Bool.eq_iff_iff, first, line, same]
  rfl

theorem offset_le_cuts (rules : RecordRules) (ls : List Bytes) :
    ∀ prevBlank offset distance, ∀ c ∈ cuts rules prevBlank offset distance ls,
      offset ≤ c.line.offset := by
  induction ls with
  | nil => simp [cuts]
  | cons l ls ih =>
      intro prevBlank offset distance c member
      rcases List.mem_cons.mp member with rfl | old
      · exact le_refl _
      · exact (Nat.le_add_right _ _).trans (ih _ _ _ c old)

theorem offsets_distinct (rules : RecordRules) {ls : List Bytes} (nonempty : ∀ l ∈ ls, l ≠ []) :
    ∀ prevBlank offset distance,
      ((cuts rules prevBlank offset distance ls).map fun c => c.line.offset).Nodup := by
  induction ls with
  | nil => simp [cuts]
  | cons l ls ih =>
      intro prevBlank offset distance
      have rest := ih (fun k member => nonempty k (List.mem_cons_of_mem _ member)) (isBlank l)
        (offset + l.length) (distance + l.length)
      rw [cuts, List.map_cons, List.nodup_cons]
      refine ⟨fun member => ?_, rest⟩
      obtain ⟨c, inCuts, same⟩ := List.mem_map.mp member
      have later_ := offset_le_cuts rules ls _ _ _ c inCuts
      have pos := List.length_pos_iff.mpr (nonempty l List.mem_cons_self)
      have here : c.line.offset = offset := same
      omega

/-! ## One reading -/

section Steady

variable (rules : RecordRules) (file : Bytes)

/-- The lines from an offset, as a reading from there cuts them. -/
def cutsFrom (offset : Nat) : List Cut :=
  cuts rules true offset 0 (lines isNewline (file.drop offset))

/-- A reading from an offset sees the starts of the lines, and every block right. -/
structure Steady (offset : Nat) : Prop where
  starts : ∀ c ∈ cutsFrom rules file offset, c.first.starts = c.line.starts
  blocks : ∀ block ∈ blocks (cutsFrom rules file offset), BlockRight rules.maxRecordBytes block

theorem pieces_texts (ls : List Bytes) :
    ∀ distance, ((pieces distance ls).map Piece.text).flatten = ls.flatten := by
  induction ls with
  | nil => intro distance; rfl
  | cons l ls ih =>
      intro distance
      have here : (fragments distance l).flatten = l := flatten_cutAt _ _ _
      have flags : ∀ ps : List Bytes, (flagged true ps).map Piece.text = ps := by
        intro ps
        cases ps <;> simp [flagged, Function.comp_def]
      rw [pieces, List.map_append, flags, List.flatten_append, ih, here, List.flatten_cons]

theorem readRecords_kept (offset : Nat) :
    readRecords rules file offset
      = (split ((cutsFrom rules file offset).flatMap Cut.parts)).map (keptRecord rules) := by
  have texts : ((pieces 0 (lines isNewline (file.drop offset))).map Piece.text).flatten
      = file.drop offset := by
    rw [pieces_texts, flatten_lines]
  have closed := closing_feed rules (pieces 0 (lines isNewline (file.drop offset)))
    ⟨true, none, []⟩ offset
  rw [texts] at closed
  rw [readRecords_pieces, closed, mark_pieces]
  rfl

/-- **A reading yields the reference split** exactly where it is steady. -/
theorem readRecords_iff (offset : Nat) :
    readRecords rules file offset = reference rules file offset ↔ Steady rules file offset := by
  have nonempty := fun l => lines_ne_nil isNewline (t := file.drop offset) l
  have parted : ∀ c ∈ cutsFrom rules file offset, c.Parted := parted_cuts rules nonempty _ _ _
  have lines_ : reference rules file offset
      = (split ((cutsFrom rules file offset).map Cut.line)).map (headRecord rules) := by
    rw [reference, mark_whole rules _ true offset 0]
    rfl
  have inBlocks : ∀ block ∈ blocks (cutsFrom rules file offset),
      keptRecord rules (untilEnd (block.flatMap Cut.parts))
          = headRecord rules (untilEnd (block.map Cut.line)) ↔
        BlockRight rules.maxRecordBytes block := by
    intro block member
    obtain ⟨c, cs, rfl, inside⟩ := blocks_cons_of_mem block member
    exact blockRight_iff rules fun d inBlock => parted d (inside d inBlock)
  rw [readRecords_kept, lines_]
  constructor
  · intro same
    have begins := congrArg (List.map RawRecord.start) same
    rw [List.map_map, List.map_map] at begins
    have starts := same_starts parted (offsets_distinct rules nonempty _ _ _) begins
    refine ⟨starts, fun block member => (inBlocks block member).mp ?_⟩
    rw [split_parts parted starts, split_lines, List.map_map, List.map_map,
      List.map_inj_left] at same
    exact same block member
  · rintro ⟨starts, right⟩
    rw [split_parts parted starts, split_lines, List.map_map, List.map_map, List.map_inj_left]
    exact fun block member => (inBlocks block member).mpr (right block member)

end Steady

/-! ## Reading on -/

/-- A reading that begins here takes the line before for blank.  A start is one with a blank
line before it, and after an end line it makes no difference. -/
structure RecordRules.Restartable (rules : RecordRules) : Prop where
  blank : ∀ line prevBlank, rules.isStart line prevBlank = true → rules.isStart line true = true
  afterEnd : ∀ last line, rules.isEnd last = true → rules.isStart line true = true →
    rules.isStart line (isBlank last) = true

theorem RecordKind.restartable (kind : RecordKind) (maxRecordBytes : Nat) :
    (kind.rules maxRecordBytes).Restartable := by
  cases kind with
  | mbox =>
      refine ⟨fun line prevBlank starts => ?_, fun last line stops => ?_⟩
      · have from_ := (Bool.and_eq_true_iff.mp starts).1
        exact Bool.and_eq_true_iff.mpr ⟨from_, Bool.true_or _⟩
      · cases stops
  | vcard => exact ⟨fun line prevBlank starts => starts, fun last line stops starts => starts⟩

section Restart

variable {rules : RecordRules} (restartable : rules.Restartable)

theorem mark_start {prevBlank : Bool} {l : Bytes}
    (same : rules.isStart l prevBlank = rules.isStart l true) (offset : Nat) (ls : List Bytes) :
    mark rules prevBlank offset (whole (l :: ls)) = mark rules true offset (whole (l :: ls)) := by
  rw [whole, List.map_cons, mark, mark, if_pos rfl, if_pos rfl, same]

include restartable

/-- After an end line it makes no difference where reading begins. -/
theorem mark_afterEnd {last : Bytes} (stops : rules.isEnd last = true) (offset : Nat)
    (ls : List Bytes) :
    mark rules (isBlank last) offset (whole ls) = mark rules true offset (whole ls) := by
  cases ls with
  | nil => rfl
  | cons l ls =>
      refine mark_start ?_ offset ls
      rw [Bool.eq_iff_iff]
      exact ⟨restartable.blank l _, restartable.afterEnd last l stops⟩

/-- Where the open record ends, the rest begins. -/
theorem split_afterOpen (ls : List Bytes) :
    ∀ prevBlank offset, ∃ before after, ls = before ++ after ∧
      bytesOf (untilEnd ((mark rules prevBlank offset (whole ls)).takeWhile fun u => !u.starts))
        = before.flatten.length ∧
      split (mark rules prevBlank offset (whole ls))
        = split (mark rules true (offset + before.flatten.length) (whole after)) := by
  induction ls with
  | nil => exact fun _ _ => ⟨[], [], rfl, rfl, rfl⟩
  | cons l ls ih =>
      intro prevBlank offset
      have marks : mark rules prevBlank offset (whole (l :: ls))
          = ⟨offset, l, rules.isStart l prevBlank, rules.isEnd l⟩ ::
              mark rules (isBlank l) (offset + l.length) (whole ls) := by
        rw [whole, List.map_cons, mark, if_pos rfl, Bool.true_and, Bool.true_and]
        rfl
      by_cases starts : rules.isStart l prevBlank = true
      · refine ⟨[], l :: ls, rfl, ?_, ?_⟩
        · rw [marks, List.takeWhile_cons, if_neg (by simp [starts])]
          rfl
        · rw [mark_start (by rw [starts, restartable.blank l _ starts])]
          rfl
      · rw [marks, List.takeWhile_cons, if_pos (by simp [starts]), untilEnd, split, if_neg starts]
        by_cases stops : rules.isEnd l = true
        · refine ⟨[l], ls, rfl, ?_, ?_⟩
          · rw [if_pos stops]
            rfl
          · rw [mark_afterEnd restartable stops, List.flatten_singleton]
        · obtain ⟨before, after, rfl, length, rest⟩ := ih (isBlank l) (offset + l.length)
          refine ⟨l :: before, after, rfl, ?_, ?_⟩
          · rw [if_neg stops, bytesOf_cons, length, List.flatten_cons, List.length_append]
          · rw [rest, List.flatten_cons, List.length_append, Nat.add_assoc]

/-- The records after one are those of the lines from its end. -/
theorem split_after (ls : List Bytes) :
    ∀ prevBlank offset before block after,
      split (mark rules prevBlank offset (whole ls)) = before ++ block :: after →
        ∃ first rest, ls = first ++ rest ∧
          startOf block + bytesOf block = offset + first.flatten.length ∧
          split (mark rules true (offset + first.flatten.length) (whole rest)) = after := by
  induction ls with
  | nil =>
      intro prevBlank offset before block after same
      have length := congrArg List.length same
      simp [whole, mark, split] at length
  | cons l ls ih =>
      intro prevBlank offset before block after same
      have marks : mark rules prevBlank offset (whole (l :: ls))
          = ⟨offset, l, rules.isStart l prevBlank, rules.isEnd l⟩ ::
              mark rules (isBlank l) (offset + l.length) (whole ls) := by
        rw [whole, List.map_cons, mark, if_pos rfl, Bool.true_and, Bool.true_and]
        rfl
      -- a later record is one of the lines after this
      have later_ : ∀ before,
          split (mark rules (isBlank l) (offset + l.length) (whole ls)) = before ++ block :: after →
          ∃ first rest, l :: ls = first ++ rest ∧
            startOf block + bytesOf block = offset + first.flatten.length ∧
            split (mark rules true (offset + first.flatten.length) (whole rest)) = after := by
        intro before same
        obtain ⟨first, rest, rfl, ends, tail⟩ := ih _ _ before block after same
        refine ⟨l :: first, rest, rfl, ?_, ?_⟩
        · rw [ends, List.flatten_cons, List.length_append, Nat.add_assoc]
        · rw [← tail, List.flatten_cons, List.length_append, Nat.add_assoc]
      rw [marks, split] at same
      split at same
      · cases before with
        | cons b before => exact later_ before (List.cons.inj same).2
        | nil =>
            obtain ⟨rfl, rfl⟩ := List.cons.inj same
            rw [startOf_untilEnd, untilEnd]
            by_cases stops : rules.isEnd l = true
            · refine ⟨[l], ls, rfl, ?_, ?_⟩
              · rw [if_pos stops]
                simp [bytesOf]
              · rw [mark_afterEnd restartable stops, List.flatten_singleton]
            · obtain ⟨first, rest, here, length, tail⟩ :=
                split_afterOpen restartable ls (isBlank l) (offset + l.length)
              refine ⟨l :: first, rest, by rw [here]; rfl, ?_, ?_⟩
              · rw [if_neg stops, bytesOf_cons, length, List.flatten_cons, List.length_append]
              · rw [tail, List.flatten_cons, List.length_append, Nat.add_assoc]
      · exact later_ before same

/-- **The reference split goes on from the end of any record.** -/
theorem reference_restart (file : Bytes) {before after : List RawRecord} {r : RawRecord}
    (split_ : reference rules file 0 = before ++ r :: after) :
    reference rules file r.ends = after := by
  rw [reference, List.drop_zero] at split_
  obtain ⟨blocks₁, rest, parts, -, more⟩ := List.map_eq_append_iff.mp split_
  obtain ⟨block, blocks₂, cons, rfl, tail⟩ := List.map_eq_cons_iff.mp more
  rw [cons] at parts
  obtain ⟨first, lines₂, here, ends, next⟩ := split_after restartable _ _ _ _ _ _ parts
  have stop : (headRecord rules block).ends = first.flatten.length := by
    rw [Nat.zero_add] at ends
    exact ends
  rw [Nat.zero_add] at next
  rw [reference, stop, lines_drop isNewline here, next, tail]

end Restart

/-! ## The whole file -/

/-- The reading from the start is the reference split, and from the end of any record what
is left of it. -/
structure ReadsRight (rules : RecordRules) (file : Bytes) : Prop where
  whole : readRecords rules file 0 = reference rules file 0
  restart : ∀ before r after, readRecords rules file 0 = before ++ r :: after →
    readRecords rules file r.ends = after

/-- Every reading from the start or the end of a record is steady. -/
def SteadyThrough (rules : RecordRules) (file : Bytes) : Prop :=
  Steady rules file 0 ∧ ∀ r ∈ reference rules file 0, Steady rules file r.ends

theorem readsRight_iff {rules : RecordRules} (restartable : rules.Restartable) (file : Bytes) :
    ReadsRight rules file ↔ SteadyThrough rules file := by
  constructor
  · intro right
    refine ⟨(readRecords_iff rules file 0).mp right.whole, fun r member => ?_⟩
    obtain ⟨before, after, split_⟩ := List.append_of_mem member
    refine (readRecords_iff rules file r.ends).mp ?_
    rw [right.restart before r after (right.whole.trans split_),
      reference_restart restartable file split_]
  · rintro ⟨first, later_⟩
    have whole_ := (readRecords_iff rules file 0).mpr first
    refine ⟨whole_, fun before r after split_ => ?_⟩
    rw [whole_] at split_
    have member : r ∈ reference rules file 0 := by
      rw [split_]
      exact List.mem_append_right _ List.mem_cons_self
    rw [(readRecords_iff rules file r.ends).mpr (later_ r member),
      reference_restart restartable file split_]

end Kiagent.Converter
