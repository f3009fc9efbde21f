/-
# Converter.Elements -- the elements of a container with markers

`readElements` streams what stands between two markers, wherever the lines break.  Of what
was read it carries on what is too short to hold the marker it looks for, and of an element
it keeps its head.

Reading from the end of any element goes on with the elements that are left
(`elementsRight`).
-/
import Kiagent.Converter.Records

namespace Kiagent.Converter

open Theory.Lines

set_option autoImplicit false

/-! ## Reading -/

structure OpenElement where
  start : Nat
  raw : Bytes
  truncated : Bool

structure Scanner where
  pos : Nat
  buf : Bytes
  bufStart : Nat
  element : Option OpenElement
  out : List RawRecord

def OpenElement.finish (r : OpenElement) (ends : Nat) : RawRecord :=
  { raw := r.raw, start := r.start, ends, truncated := r.truncated }

section Read

variable (opens closes : Bytes) (maxRecordBytes : Nat)

/-- What fits is kept, the rest discarded. -/
def OpenElement.keep (r : OpenElement) (b : Bytes) : OpenElement :=
  if b.length = 0 then r
  else
    let room := maxRecordBytes - r.raw.length
    { r with raw := r.raw ++ b.take room, truncated := r.truncated || room < b.length }

/-- The first bytes of the buffer are done with. -/
def Scanner.skip (s : Scanner) (n : Nat) : Scanner :=
  { s with buf := s.buf.drop n, bufStart := s.bufStart + n }

/-- From marker to marker, until one is not found. -/
def scan : Nat → Scanner → Scanner
  | 0, s => s
  | fuel + 1, s =>
      match s.element with
      | none =>
          match find opens s.buf with
          | none => s.skip (s.buf.length - (opens.length - 1))
          | some i => scan fuel { s.skip i with element := some ⟨s.bufStart + i, [], false⟩ }
      | some r =>
          match find closes s.buf with
          | none =>
              let upto := s.buf.length - (closes.length - 1)
              { s.skip upto with element := some (r.keep maxRecordBytes (s.buf.take upto)) }
          | some e =>
              let done := r.keep maxRecordBytes (s.buf.take (e + closes.length))
              scan fuel
                { s.skip (e + closes.length) with
                  element := none
                  out := s.out ++ [done.finish (s.bufStart + e + closes.length)] }

/-- An element left open at the end is truncated. -/
def Scanner.closing (s : Scanner) : List RawRecord :=
  s.out ++ (s.element.map fun r =>
    { (r.keep maxRecordBytes s.buf).finish (s.bufStart + s.buf.length) with
      truncated := true }).toList

variable (file : Bytes)

/-- Chunk by chunk, and once more at the end. -/
def scanAll : Nat → Scanner → List RawRecord
  | 0, s => s.out
  | fuel + 1, s =>
      let bytes := (file.drop s.pos).take CHUNK
      let buf := s.buf ++ bytes
      let scanned := scan opens closes maxRecordBytes (2 * buf.length + 2)
        { s with buf, pos := s.pos + bytes.length }
      if bytes.length = 0 then scanned.closing maxRecordBytes else scanAll fuel scanned

def readElements (offset : Nat) : List RawRecord :=
  scanAll opens closes maxRecordBytes file (file.length + 1) ⟨offset, [], offset, none, []⟩

/-! ## The elements of a text -/

/-- The head of an element. -/
def elementOf (start : Nat) (text : Bytes) (truncated : Bool) : RawRecord where
  raw := text.take maxRecordBytes
  start := start
  ends := start + text.length
  truncated := truncated

/-- The elements of a text that begins at an offset, one after the other. -/
inductive Elements : Nat → Bytes → List RawRecord → Prop
  | none {offset : Nat} {t : Bytes} (not_ : find opens t = none) : Elements offset t []
  | unclosed {offset i : Nat} {t : Bytes} (opened : find opens t = some i)
      (not_ : find closes (t.drop i) = none) :
      Elements offset t [elementOf maxRecordBytes (offset + i) (t.drop i) true]
  | element {offset i e : Nat} {t : Bytes} {rs : List RawRecord} (opened : find opens t = some i)
      (closed : find closes (t.drop i) = some e)
      (rest : Elements (offset + i + e + closes.length) ((t.drop i).drop (e + closes.length)) rs) :
      Elements offset t
        (elementOf maxRecordBytes (offset + i) ((t.drop i).take (e + closes.length))
          (maxRecordBytes < e + closes.length) :: rs)

/-- What is still to come of a text, with an element open. -/
def Onward (element : Option OpenElement) (offset : Nat) (t : Bytes) (rs : List RawRecord) : Prop :=
  match element with
  | none => Elements opens closes maxRecordBytes offset t rs
  | some r =>
      match find closes t with
      | none => rs = [{ (r.keep maxRecordBytes t).finish (offset + t.length) with truncated := true }]
      | some e => ∃ rest,
          rs = (r.keep maxRecordBytes (t.take (e + closes.length))).finish
            (offset + e + closes.length) :: rest ∧
          Elements opens closes maxRecordBytes (offset + e + closes.length)
            (t.drop (e + closes.length)) rest

/-! ## One element -/

theorem keep_eq (r : OpenElement) (b : Bytes) :
    r.keep maxRecordBytes b =
      { r with
        raw := r.raw ++ b.take (maxRecordBytes - r.raw.length)
        truncated := r.truncated || decide (maxRecordBytes - r.raw.length < b.length) } := by
  unfold OpenElement.keep
  split
  · rename_i empty
    rw [List.length_eq_zero_iff] at empty
    simp [empty]
  · rfl

/-- What is kept does not depend on the parts. -/
theorem keep_keep (r : OpenElement) (a b : Bytes) :
    (r.keep maxRecordBytes a).keep maxRecordBytes b = r.keep maxRecordBytes (a ++ b) := by
  rw [keep_eq, keep_eq, keep_eq]
  have room : maxRecordBytes - (r.raw ++ a.take (maxRecordBytes - r.raw.length)).length
      = maxRecordBytes - r.raw.length - a.length := by
    rw [List.length_append, List.length_take]
    omega
  dsimp only
  rw [room, List.append_assoc, ← List.take_append, List.length_append, Bool.or_assoc,
    ← Bool.decide_or]
  congr 3
  exact propext (by omega)

theorem keep_fresh (start ends : Nat) (b : Bytes) (last : ends = start + b.length) :
    ((⟨start, [], false⟩ : OpenElement).keep maxRecordBytes b).finish ends
      = elementOf maxRecordBytes start b (maxRecordBytes < b.length) := by
  rw [keep_eq, last]
  simp [OpenElement.finish, elementOf]

variable {opens closes maxRecordBytes}

theorem onward_opened {offset i : Nat} {t : Bytes} {rs : List RawRecord}
    (opened : find opens t = some i)
    (onward : Onward opens closes maxRecordBytes (some ⟨offset + i, [], false⟩) (offset + i)
      (t.drop i) rs) : Elements opens closes maxRecordBytes offset t rs := by
  unfold Onward at onward
  dsimp only at onward
  split at onward
  · rename_i not_
    rw [keep_fresh _ _ _ _ rfl] at onward
    rw [onward]
    exact .unclosed opened not_
  · rename_i e closed
    obtain ⟨rest, rfl, more⟩ := onward
    have bound := find_bound closed
    have length : ((t.drop i).take (e + closes.length)).length = e + closes.length := by
      rw [List.length_take]
      omega
    rw [keep_fresh _ _ _ _ (by rw [length, Nat.add_assoc]), length]
    exact .element opened closed more

/-- What holds no marker is passed over. -/
theorem elements_skip {offset n : Nat} {t : Bytes} {rs : List RawRecord}
    (skipped : find opens t = (find opens (t.drop n)).map (· + n))
    (rest : Elements opens closes maxRecordBytes (offset + n) (t.drop n) rs) :
    Elements opens closes maxRecordBytes offset t rs := by
  cases rest with
  | none not_ =>
      rw [not_] at skipped
      exact .none skipped
  | @unclosed _ i _ opened not_ =>
      rw [opened] at skipped
      have there : (t.drop n).drop i = t.drop (i + n) := by
        rw [List.drop_drop, Nat.add_comm]
      have here : offset + n + i = offset + (i + n) := by omega
      rw [there] at not_ ⊢
      rw [here]
      exact .unclosed skipped not_
  | @element _ i e _ rs opened closed rest =>
      rw [opened] at skipped
      have there : (t.drop n).drop i = t.drop (i + n) := by
        rw [List.drop_drop, Nat.add_comm]
      have here : offset + n + i = offset + (i + n) := by omega
      rw [there] at closed rest ⊢
      rw [here] at rest ⊢
      exact .element skipped closed rest

/-- An element is read on in parts. -/
theorem onward_skip {offset n : Nat} {t : Bytes} {r : OpenElement} {rs : List RawRecord}
    (fits : n ≤ t.length) (skipped : find closes t = (find closes (t.drop n)).map (· + n))
    (onward : Onward opens closes maxRecordBytes (some (r.keep maxRecordBytes (t.take n)))
      (offset + n) (t.drop n) rs) :
    Onward opens closes maxRecordBytes (some r) offset t rs := by
  unfold Onward at onward ⊢
  dsimp only at onward ⊢
  cases found : find closes (t.drop n) with
  | none =>
      rw [found] at onward skipped
      rw [skipped, onward]
      have length : offset + n + (t.drop n).length = offset + t.length := by
        rw [List.length_drop]
        omega
      rw [keep_keep, List.take_append_drop, length]
      rfl
  | some e =>
      rw [found] at onward skipped
      obtain ⟨rest, rfl, more⟩ := onward
      rw [skipped]
      have parts : t.take n ++ (t.drop n).take (e + closes.length)
          = t.take (e + n + closes.length) := by
        rw [← List.take_add]
        congr 1
        omega
      have left : (t.drop n).drop (e + closes.length) = t.drop (e + n + closes.length) := by
        rw [List.drop_drop]
        congr 1
        omega
      have here : offset + n + e + closes.length = offset + (e + n) + closes.length := by omega
      rw [keep_keep, parts, here]
      rw [left, here] at more
      exact ⟨rest, rfl, more⟩

/-! ## The scan -/

/-- What a scan leaves: markers it did not find, and what it found before. -/
structure Scanned (opens closes : Bytes) (maxRecordBytes : Nat) (s scanned : Scanner)
    (more : Bytes) (found : List RawRecord) : Prop where
  out : scanned.out = s.out ++ found
  pos : scanned.pos = s.pos
  reach : scanned.bufStart + scanned.buf.length = s.bufStart + s.buf.length
  noOpen : scanned.element = none → find opens scanned.buf = none
  noClose : scanned.element ≠ none → find closes scanned.buf = none
  onward : ∀ rs, Onward opens closes maxRecordBytes scanned.element scanned.bufStart
      (scanned.buf ++ more) rs →
    Onward opens closes maxRecordBytes s.element s.bufStart (s.buf ++ more) (found ++ rs)

theorem scan_spec (marked : closes ≠ []) (more : Bytes) (fuel : Nat) :
    ∀ s : Scanner, 2 * s.buf.length + (if s.element.isNone then 1 else 0) < fuel →
      ∃ found, Scanned opens closes maxRecordBytes s
        (scan opens closes maxRecordBytes fuel s) more found := by
  have width := List.length_pos_iff.mpr marked
  induction fuel with
  | zero => intro s short; omega
  | succ fuel ih =>
      intro s short
      rw [scan]
      cases open_ : s.element with
      | none =>
          dsimp only
          rw [open_, Option.isNone_none, if_pos rfl] at short
          cases found : find opens s.buf with
          | none =>
              dsimp only
              have fits : s.buf.length - (opens.length - 1) ≤ s.buf.length := Nat.sub_le _ _
              refine ⟨[], by simp [Scanner.skip], rfl, ?_, fun _ => find_last found, ?_, ?_⟩
              · simp only [Scanner.skip, List.length_drop]
                omega
              · intro still
                exact absurd open_ still
              · intro rs onward
                rw [Scanner.skip] at onward
                dsimp only at onward
                rw [open_] at onward ⊢
                have drop : s.buf.drop (s.buf.length - (opens.length - 1)) ++ more
                    = (s.buf ++ more).drop (s.buf.length - (opens.length - 1)) := by
                  rw [List.drop_append_of_le_length fits]
                rw [drop] at onward
                refine elements_skip ?_ onward
                rw [find_skip found more, drop]
          | some i =>
              dsimp only
              have bound := find_bound found
              obtain ⟨found', scanned⟩ := ih
                { s.skip i with element := some ⟨s.bufStart + i, [], false⟩ } (by
                  simp only [Scanner.skip, List.length_drop, Option.isNone_some,
                    Bool.false_eq_true, if_false]
                  omega)
              refine ⟨found', scanned.out, scanned.pos, scanned.reach.trans ?_, scanned.noOpen,
                scanned.noClose, fun rs onward => ?_⟩
              · simp only [Scanner.skip, List.length_drop]
                omega
              · have next := scanned.onward rs onward
                simp only [Scanner.skip] at next
                rw [← List.drop_append_of_le_length (by omega)] at next
                rw [open_]
                exact onward_opened (find_append found more) next
      | some r =>
          dsimp only
          rw [open_, Option.isNone_some, if_neg Bool.false_ne_true] at short
          cases found : find closes s.buf with
          | none =>
              dsimp only
              have fits : s.buf.length - (closes.length - 1) ≤ s.buf.length := Nat.sub_le _ _
              refine ⟨[], by simp [Scanner.skip], rfl, ?_, fun none_ => (by cases none_),
                fun _ => find_last found, ?_⟩
              · simp only [Scanner.skip, List.length_drop]
                omega
              · intro rs onward
                rw [Scanner.skip] at onward
                dsimp only at onward
                rw [open_]
                rw [← List.drop_append_of_le_length fits,
                  ← @List.take_append_of_le_length _ _ more _ fits] at onward
                refine onward_skip (by rw [List.length_append]; omega) ?_ onward
                rw [find_skip found more, List.drop_append_of_le_length fits]
          | some e =>
              dsimp only
              have bound := find_bound found
              obtain ⟨found', scanned⟩ := ih
                { s.skip (e + closes.length) with
                  element := none
                  out := s.out ++ [(r.keep maxRecordBytes (s.buf.take (e + closes.length))).finish
                    (s.bufStart + e + closes.length)] } (by
                  simp only [Scanner.skip, List.length_drop, Option.isNone_none, if_true]
                  omega)
              refine ⟨(r.keep maxRecordBytes (s.buf.take (e + closes.length))).finish
                (s.bufStart + e + closes.length) :: found', by rw [scanned.out]; simp, scanned.pos,
                scanned.reach.trans ?_, scanned.noOpen, scanned.noClose, fun rs onward => ?_⟩
              · simp only [Scanner.skip, List.length_drop]
                omega
              · have next := scanned.onward rs onward
                simp only [Scanner.skip] at next
                rw [← List.drop_append_of_le_length (by omega)] at next
                rw [open_]
                unfold Onward
                dsimp only
                rw [find_append found more]
                dsimp only
                rw [List.take_append_of_le_length bound]
                refine ⟨found' ++ rs, rfl, ?_⟩
                rw [Nat.add_assoc]
                exact next

/-! ## The whole file -/

theorem scanAll_spec (marked : closes ≠ []) (file : Bytes) (fuel : Nat) :
    ∀ s : Scanner, (file.drop s.pos).length < fuel → s.pos = s.bufStart + s.buf.length →
      ∃ found, scanAll opens closes maxRecordBytes file fuel s = s.out ++ found ∧
        Onward opens closes maxRecordBytes s.element s.bufStart (s.buf ++ file.drop s.pos) found := by
  induction fuel with
  | zero => intro s short; omega
  | succ fuel ih =>
      intro s short pos
      rw [scanAll]
      generalize bytes_ : (file.drop s.pos).take CHUNK = bytes
      have chunk : 0 < CHUNK := by decide
      have whole : bytes ++ (file.drop s.pos).drop CHUNK = file.drop s.pos := by
        rw [← bytes_, List.take_append_drop]
      obtain ⟨found, scanned⟩ := @scan_spec opens closes maxRecordBytes
        marked ((file.drop s.pos).drop CHUNK) (2 * (s.buf ++ bytes).length + 2)
        { s with buf := s.buf ++ bytes, pos := s.pos + bytes.length } (by
          dsimp only
          split <;> omega)
      generalize scan opens closes maxRecordBytes (2 * (s.buf ++ bytes).length + 2)
        { s with buf := s.buf ++ bytes, pos := s.pos + bytes.length } = next at scanned ⊢
      have out : next.out = s.out ++ found := scanned.out
      have onward := scanned.onward
      dsimp only at onward
      rw [List.append_assoc, whole] at onward
      by_cases done : bytes.length = 0
      · have empty : file.drop s.pos = [] := by
          rw [← bytes_, List.length_take] at done
          exact List.length_eq_zero_iff.mp (by omega)
        rw [if_pos done, Scanner.closing, out, List.append_assoc]
        refine ⟨_, rfl, onward _ ?_⟩
        rw [empty, List.drop_nil, List.append_nil]
        cases element : next.element with
        | none => exact .none (scanned.noOpen element)
        | some r =>
            unfold Onward
            dsimp only
            rw [scanned.noClose (by rw [element]; simp)]
            rfl
      · have pos' : next.pos = s.pos + bytes.length := scanned.pos
        have reach := scanned.reach
        dsimp only at reach
        rw [List.length_append] at reach
        have rest : file.drop next.pos = (file.drop s.pos).drop CHUNK := by
          rw [pos', ← List.drop_drop]
          have split_ : (file.drop s.pos).drop bytes.length
              = (bytes ++ (file.drop s.pos).drop CHUNK).drop bytes.length := by rw [whole]
          rw [split_, List.drop_left]
        have longer : (file.drop s.pos).length ≠ 0 := fun empty => by
          rw [← bytes_, List.length_take, empty] at done
          exact done (Nat.min_zero _)
        obtain ⟨more, all, later⟩ := ih next (by rw [rest, List.length_drop]; omega) (by omega)
        rw [if_neg done, all, out, List.append_assoc]
        rw [rest] at later
        exact ⟨found ++ more, rfl, onward more later⟩

/-- The elements of a text are one list. -/
theorem elements_unique {offset : Nat} {t : Bytes} {rs : List RawRecord}
    (first : Elements opens closes maxRecordBytes offset t rs) :
    ∀ {qs : List RawRecord}, Elements opens closes maxRecordBytes offset t qs → rs = qs := by
  induction first with
  | none not_ =>
      intro qs second
      cases second <;> simp_all
  | unclosed opened not_ =>
      intro qs second
      cases second <;> simp_all
  | element opened closed _ ih =>
      intro qs second
      cases second with
      | none not_ => simp_all
      | unclosed opened' not_ => simp_all
      | element opened' closed' rest =>
          obtain rfl := Option.some_inj.mp (opened.symm.trans opened')
          obtain rfl := Option.some_inj.mp (closed.symm.trans closed')
          rw [ih rest]

/-- The elements after one are those of the text from its end. -/
theorem elements_after (marked : opens ≠ []) {file : Bytes} {offset : Nat} {t : Bytes}
    {rs : List RawRecord} (all : Elements opens closes maxRecordBytes offset t rs) :
    t = file.drop offset → ∀ before r after, rs = before ++ r :: after →
      Elements opens closes maxRecordBytes r.ends (file.drop r.ends) after := by
  induction all with
  | none not_ =>
      intro _ before r after split_
      simp at split_
  | @unclosed offset i t opened not_ =>
      intro here before r after split_
      have bound := find_bound opened
      cases before with
      | cons b before => simp at split_
      | nil =>
          obtain ⟨rfl, rfl⟩ := List.cons.inj split_
          have length : t.length = file.length - offset := by rw [here, List.length_drop]
          have ends : (elementOf maxRecordBytes (offset + i) (t.drop i) true).ends
              = offset + t.length := by
            show offset + i + (t.drop i).length = offset + t.length
            rw [List.length_drop]
            omega
          rw [ends, List.drop_eq_nil_of_le (by omega)]
          exact .none (by rw [find, if_neg marked])
  | @element offset i e t rs opened closed rest ih =>
      intro here before r after split_
      have bound := find_bound closed
      have onward : (t.drop i).drop (e + closes.length)
          = file.drop (offset + i + e + closes.length) := by
        rw [here, List.drop_drop, List.drop_drop]
        congr 1
        omega
      cases before with
      | cons b before =>
          obtain ⟨-, tail⟩ := List.cons.inj split_
          exact ih onward before r after tail
      | nil =>
          obtain ⟨rfl, rfl⟩ := List.cons.inj split_
          have ends : (elementOf maxRecordBytes (offset + i)
              ((t.drop i).take (e + closes.length)) (maxRecordBytes < e + closes.length)).ends
                = offset + i + e + closes.length := by
            show offset + i + ((t.drop i).take (e + closes.length)).length = _
            rw [List.length_take]
            omega
          rw [ends, ← onward]
          exact rest

end Read

/-- The reading from the start is the elements of the file, and from the end of any element
what is left of them. -/
structure ElementsRight (opens closes : Bytes) (maxRecordBytes : Nat) (file : Bytes) : Prop where
  whole : Elements opens closes maxRecordBytes 0 file
    (readElements opens closes maxRecordBytes file 0)
  restart : ∀ before r after,
    readElements opens closes maxRecordBytes file 0 = before ++ r :: after →
      readElements opens closes maxRecordBytes file r.ends = after

theorem readElements_spec {opens closes : Bytes} (marked : closes ≠ []) (maxRecordBytes : Nat)
    (file : Bytes) (offset : Nat) :
    Elements opens closes maxRecordBytes offset (file.drop offset)
      (readElements opens closes maxRecordBytes file offset) := by
  obtain ⟨found, all, onward⟩ := @scanAll_spec opens closes maxRecordBytes
    marked file (file.length + 1) ⟨offset, [], offset, none, []⟩
    (by rw [List.length_drop]; omega) rfl
  rw [readElements, all]
  exact onward

/-- **Elements are read right, wherever reading begins.** -/
theorem elementsRight {opens closes : Bytes} (open_ : opens ≠ []) (close : closes ≠ [])
    (maxRecordBytes : Nat) (file : Bytes) : ElementsRight opens closes maxRecordBytes file where
  whole := readElements_spec close maxRecordBytes file 0
  restart before r after split_ :=
    elements_unique (readElements_spec close maxRecordBytes file r.ends)
      (elements_after open_ (readElements_spec close maxRecordBytes file 0) rfl before r after
        split_)

end Kiagent.Converter
