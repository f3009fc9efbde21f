/-
# Converter.Records -- the records of a line-oriented container

`readRecords` streams the records of a mailbox or an address book from an offset in chunks.
A line that is not complete at the end of a chunk is carried on; when the carry grows too
long it is handled in fragments, of which only the first is tested as a marker.

What it sees are the lines of the file from the offset, cut where a chunk ends
(`readRecords_pieces`), and what it yields are the records of these pieces
(`closing_feed`).
-/
import Kiagent.Theory.Lines

namespace Kiagent.Converter

open Theory.Lines

set_option autoImplicit false

abbrev Bytes := List UInt8

/-! ## Rules -/

def CHUNK : Nat := 1024 * 1024

/-- A longer line is handled in fragments. -/
def LINE_FRAGMENT : Nat := 64 * 1024

structure RawRecord where
  raw : Bytes
  start : Nat
  ends : Nat
  truncated : Bool
  deriving DecidableEq

/-- Without an end line, `isEnd` is never true. -/
structure RecordRules where
  isStart : Bytes → Bool → Bool
  isEnd : Bytes → Bool
  maxRecordBytes : Nat

def isNewline (b : UInt8) : Bool := b = 10

def isBlank (line : Bytes) : Bool := line = [] || line = [10] || line = [13, 10]

/-- White space of the first 256 characters. -/
def isSpace (b : UInt8) : Bool := (9 ≤ b && b ≤ 13) || b = 32 || b = 160

def isDigit (b : UInt8) : Bool := 48 ≤ b && b ≤ 57

/-- `/\d{4}\s*$/` -/
def endsInYear (line : Bytes) : Bool :=
  let digits := ((line.rdropWhile isSpace).reverse).take 4
  digits.length = 4 && digits.all isDigit

/-- A blank line before it, or an envelope date. -/
def isFromLine (line : Bytes) (prevBlank : Bool) : Bool :=
  line.take 5 = [70, 114, 111, 109, 32] && (prevBlank || endsInYear (line.take 200))

def upper (b : UInt8) : UInt8 := if 97 ≤ b && b ≤ 122 then b - 32 else b

/-- Trimmed, and in capitals; other letters have none among those of a marker. -/
def marker (line : Bytes) : Bytes := ((line.dropWhile isSpace).rdropWhile isSpace).map upper

def BEGIN_VCARD : Bytes := [66, 69, 71, 73, 78, 58, 86, 67, 65, 82, 68]

def END_VCARD : Bytes := [69, 78, 68, 58, 86, 67, 65, 82, 68]

inductive RecordKind where
  | mbox
  | vcard
  deriving DecidableEq

def RecordKind.rules (kind : RecordKind) (maxRecordBytes : Nat) : RecordRules :=
  match kind with
  | .mbox => { isStart := isFromLine, isEnd := fun _ => false, maxRecordBytes }
  | .vcard =>
      { isStart := fun l _ => marker l = BEGIN_VCARD
        isEnd := fun l => marker l = END_VCARD
        maxRecordBytes }

/-! ## Reading -/

/-- The open record; its size is that of the parts. -/
structure OpenRecord where
  parts : List Bytes
  start : Nat
  truncated : Bool

def OpenRecord.size (r : OpenRecord) : Nat := r.parts.flatten.length

structure Reading where
  prevBlank : Bool
  record : Option OpenRecord
  out : List RawRecord

/-- A line, or a fragment of one. -/
structure Piece where
  text : Bytes
  head : Bool

section Read

variable (rules : RecordRules)

def OpenRecord.append (r : OpenRecord) (buf : Bytes) : OpenRecord :=
  if r.size + buf.length > rules.maxRecordBytes then { r with truncated := true }
  else { r with parts := r.parts ++ [buf] }

def OpenRecord.finish (r : OpenRecord) (ends : Nat) : RawRecord :=
  { raw := r.parts.flatten, start := r.start, ends, truncated := r.truncated }

def Reading.finish (s : Reading) (ends : Nat) : Reading :=
  { s with out := s.out ++ (s.record.map fun r => r.finish ends).toList, record := none }

/-- A start closes an open record, also one that lost its end line. -/
def Reading.opening (s : Reading) (piece : Piece) (offset : Nat) : Reading :=
  if piece.head && rules.isStart piece.text s.prevBlank then
    { s.finish offset with record := some ⟨[], offset, false⟩ }
  else s

/-- One line or line fragment at an offset. -/
def Reading.onLine (s : Reading) (piece : Piece) (offset : Nat) : Reading :=
  let begun := s.opening rules piece offset
  let kept := { begun with record := begun.record.map fun r => r.append rules piece.text }
  let done :=
    if piece.head && kept.record.isSome && rules.isEnd piece.text then
      kept.finish (offset + piece.text.length)
    else kept
  if piece.head then { done with prevBlank := isBlank piece.text } else done

def feed : Reading → Nat → List Piece → Reading
  | s, _, [] => s
  | s, offset, p :: ps => feed (s.onLine rules p offset) (offset + p.text.length) ps

/-- `midLine`: the carry continues a line already fragmented. -/
structure Cursor where
  pos : Nat
  carry : Bytes
  carryStart : Nat
  midLine : Bool
  reading : Reading

/-- The first line may continue one. -/
def headed (head : Bool) : List Bytes → List Piece
  | [] => []
  | l :: ls => ⟨l, head⟩ :: ls.map fun k => ⟨k, true⟩

/-- The complete lines of the data, then the carry if it is long. -/
def Cursor.readChunk (c : Cursor) (bytes : Bytes) : Cursor :=
  let broken := breakLines isNewline (c.carry ++ bytes)
  let reading := feed rules c.reading c.carryStart (headed (!c.midLine) broken.1)
  let midLine := c.midLine && broken.1.isEmpty
  let carryStart := c.carryStart + broken.1.flatten.length
  if broken.2.length > LINE_FRAGMENT then
    { pos := c.pos + bytes.length
      carry := []
      carryStart := carryStart + broken.2.length
      midLine := true
      reading := reading.onLine rules ⟨broken.2, !midLine⟩ carryStart }
  else { pos := c.pos + bytes.length, carry := broken.2, carryStart, midLine, reading }

variable (file : Bytes)

/-- Until nothing is read; a chunk less than the fuel is left. -/
def readAll : Nat → Cursor → Cursor
  | 0, c => c
  | fuel + 1, c =>
      let bytes := (file.drop c.pos).take CHUNK
      if bytes.length = 0 then c else readAll fuel (c.readChunk rules bytes)

/-- The last line may lack its newline, and the last record its end. -/
def Cursor.closing (c : Cursor) : List RawRecord :=
  let last :=
    if c.carry.length > 0 then c.reading.onLine rules ⟨c.carry, !c.midLine⟩ c.carryStart
    else c.reading
  (last.finish c.pos).out

def readRecords (offset : Nat) : List RawRecord :=
  (readAll rules file (file.length + 1) ⟨offset, [], offset, false, ⟨true, none, []⟩⟩).closing rules

end Read

/-! ## What the reader sees -/

/-- How much of a line is read before the first cut, by its distance from where reading
began: to the end of the chunk, or of the next one. -/
def firstCut (distance : Nat) : Nat :=
  let gap := CHUNK - distance % CHUNK
  if gap > LINE_FRAGMENT then gap else gap + CHUNK

def fragments (distance : Nat) (line : Bytes) : List Bytes := cutAt CHUNK (firstCut distance) line

/-- The fragments of one line. -/
def flagged (head : Bool) : List Bytes → List Piece
  | [] => []
  | p :: ps => ⟨p, head⟩ :: ps.map fun q => ⟨q, false⟩

def pieces : Nat → List Bytes → List Piece
  | _, [] => []
  | distance, l :: ls => flagged true (fragments distance l) ++ pieces (distance + l.length) ls

/-- As `pieces`, with another first cut. -/
def piecesFrom (head : Bool) (first distance : Nat) : List Bytes → List Piece
  | [] => []
  | l :: ls => flagged head (cutAt CHUNK first l) ++ pieces (distance + l.length) ls

theorem feed_append (rules : RecordRules) (ps qs : List Piece) :
    ∀ (s : Reading) (offset : Nat), feed rules s offset (ps ++ qs)
      = feed rules (feed rules s offset ps)
          (offset + (ps.map Piece.text).flatten.length) qs := by
  induction ps with
  | nil => intro s offset; rfl
  | cons p ps ih =>
      intro s offset
      rw [List.cons_append, feed, feed, ih, List.map_cons, List.flatten_cons, List.length_append,
        Nat.add_assoc]

theorem pieces_eq_piecesFrom (distance : Nat) (ls : List Bytes) :
    pieces distance ls = piecesFrom true (firstCut distance) distance ls := by
  cases ls <;> rfl

theorem headed_texts (head : Bool) (ls : List Bytes) :
    (headed head ls).map Piece.text = ls := by
  cases ls <;> simp [headed, Function.comp_def]

/-! ### Cuts -/

section Cuts

variable {chunkStart distance : Nat} (aligned : chunkStart % CHUNK = 0)
  (inChunk : chunkStart ≤ distance)
include aligned inChunk

/-- What ends in its chunk is not cut. -/
theorem le_firstCut {n : Nat} (ends : distance + n ≤ chunkStart + CHUNK) :
    n ≤ firstCut distance := by
  have chunk : CHUNK = 1048576 := rfl
  have fragment : LINE_FRAGMENT = 65536 := rfl
  unfold firstCut
  rw [chunk] at aligned ends ⊢
  rw [fragment]
  dsimp only
  split <;> omega

/-- The cut of what is read up to the end of a chunk. -/
theorem firstCut_end {n : Nat} (ends : distance + n = chunkStart + CHUNK) :
    firstCut distance = if n > LINE_FRAGMENT then n else n + CHUNK := by
  have chunk : CHUNK = 1048576 := rfl
  have fragment : LINE_FRAGMENT = 65536 := rfl
  unfold firstCut
  rw [chunk] at aligned ends ⊢
  rw [fragment]
  dsimp only
  split <;> split <;> omega

/-- Lines that end in their chunk. -/
theorem pieces_within {ls : List Bytes} (ends : distance + ls.flatten.length ≤ chunkStart + CHUNK)
    (more : List Bytes) :
    pieces distance (ls ++ more)
      = (ls.map fun l => ⟨l, true⟩) ++ pieces (distance + ls.flatten.length) more := by
  induction ls generalizing distance with
  | nil => rfl
  | cons l ls ih =>
      rw [List.flatten_cons, List.length_append] at ends
      have short : l.length ≤ firstCut distance := le_firstCut aligned inChunk (by omega)
      rw [List.cons_append, pieces, fragments, cutAt_short _ short,
        ih (inChunk.trans (Nat.le_add_right _ _)) (by omega), List.flatten_cons,
        List.length_append, Nat.add_assoc]
      rfl

end Cuts

/-- A long carry is a fragment, and the line goes on. -/
theorem piecesFrom_long {carry : Bytes} (unfinished : ∀ b ∈ carry, isNewline b = false)
    (filled : carry ≠ []) (head : Bool) {first : Nat} (distance : Nat) {rest : Bytes}
    (whole : carry.length ≤ first) (cut : rest ≠ [] → first = carry.length) :
    piecesFrom head first distance (lines isNewline (carry ++ rest))
      = ⟨carry, head⟩ ::
          piecesFrom false CHUNK (distance + carry.length) (lines isNewline rest) := by
  have positive := List.length_pos_iff.mpr filled
  rw [lines_append_rest isNewline unfinished rest]
  cases here : lines isNewline rest with
  | nil =>
      have empty : rest = [] := by
        rw [← flatten_lines isNewline rest, here]
        rfl
      dsimp only
      rw [if_neg filled, piecesFrom, piecesFrom, cutAt_short _ whole]
      rfl
  | cons l ls =>
      have nonempty : l ≠ [] := lines_ne_nil isNewline l (here ▸ List.mem_cons_self)
      have more := List.length_pos_iff.mpr nonempty
      have there : rest ≠ [] := by
        rintro rfl
        cases here
      obtain rfl := cut there
      rw [piecesFrom, piecesFrom, cutAt_long ⟨by decide, positive⟩ (by simp; omega),
        List.take_left, List.drop_left, List.length_append, Nat.add_assoc]
      cases cutAt CHUNK CHUNK l with
      | nil => rfl
      | cons p ps => rfl

/-- A short carry is not cut before the end of the next chunk. -/
theorem piecesFrom_short {carry : Bytes} (unfinished : ∀ b ∈ carry, isNewline b = false)
    (head : Bool) {first : Nat} (distance : Nat) {rest : Bytes}
    (whole : carry.length ≤ first) (cut : rest ≠ [] → first = carry.length + CHUNK) :
    piecesFrom head first distance (lines isNewline (carry ++ rest))
      = piecesFrom head (carry.length + CHUNK) distance (lines isNewline (carry ++ rest)) := by
  by_cases there : rest = []
  · subst there
    rw [lines_append_rest isNewline unfinished, lines]
    dsimp only
    split
    · rfl
    · rw [piecesFrom, piecesFrom, cutAt_short _ whole, cutAt_short _ (Nat.le_add_right _ _)]
  · rw [cut there]

/-! ### The chunks -/

/-- Between two chunks: the carry begins at a distance from the offset, and what is left of
the file begins with a chunk. -/
structure Cursor.At (c : Cursor) (offset distance : Nat) (rest : Bytes) : Prop where
  unfinished : ∀ b ∈ c.carry, isNewline b = false
  short : c.carry.length ≤ LINE_FRAGMENT
  carryStart : c.carryStart = offset + distance
  pos : c.pos = offset + distance + c.carry.length
  aligned : rest ≠ [] → (distance + c.carry.length) % CHUNK = 0
  begun : rest ≠ [] → c.midLine = true → c.carry = []

/-- What is ahead of the reader. -/
def Cursor.ahead (c : Cursor) (distance : Nat) (rest : Bytes) : List Piece :=
  piecesFrom (!c.midLine) (c.carry.length + CHUNK) distance (lines isNewline (c.carry ++ rest))

section Chunk

variable (rules : RecordRules) {c : Cursor} {offset distance : Nat} {rest : Bytes}
  (here : c.At offset distance rest) (left : rest ≠ [])
include here left

/-- The lines that end in the chunk are whole pieces. -/
theorem ahead_broken {ls : List Bytes} {carry : Bytes}
    (broken : breakLines isNewline (c.carry ++ rest.take CHUNK) = (ls, carry)) :
    ∃ first, c.ahead distance rest = headed (!c.midLine) ls ++
        piecesFrom (!(c.midLine && ls.isEmpty)) first (distance + ls.flatten.length)
          (lines isNewline (carry ++ rest.drop CHUNK)) ∧
      carry.length ≤ first ∧
      (rest.drop CHUNK ≠ [] → first = if carry.length > LINE_FRAGMENT then carry.length
        else carry.length + CHUNK) := by
  have whole : lines isNewline (c.carry ++ rest)
      = ls ++ lines isNewline (carry ++ rest.drop CHUNK) := by
    have split_ := lines_breakLines isNewline (c.carry ++ rest.take CHUNK) (rest.drop CHUNK)
    rwa [broken, List.append_assoc, List.take_append_drop] at split_
  have lengths : ls.flatten.length + carry.length = c.carry.length + (rest.take CHUNK).length := by
    have flat := congrArg List.length (flatten_breakLines isNewline (c.carry ++ rest.take CHUNK))
    rwa [broken, List.length_append, List.length_append] at flat
  have bytes : (rest.take CHUNK).length ≤ CHUNK := List.length_take_le _ _
  have full : rest.drop CHUNK ≠ [] → (rest.take CHUNK).length = CHUNK := fun more => by
    have longer := List.length_pos_iff.mpr more
    rw [List.length_drop] at longer
    rw [List.length_take]
    omega
  have aligned := here.aligned left
  unfold Cursor.ahead
  rw [whole]
  cases ls with
  | nil =>
      refine ⟨c.carry.length + CHUNK, ?_, ?_, fun more => ?_⟩
      · simp [headed]
      · simp only [List.flatten_nil, List.length_nil] at lengths
        omega
      · have longer := full more
        simp only [List.flatten_nil, List.length_nil] at lengths
        have long : carry.length > LINE_FRAGMENT := by
          have fits : CHUNK > LINE_FRAGMENT := by decide
          omega
        rw [if_pos long]
        omega
  | cons l ls =>
      have carried : c.carry.length < l.length :=
        length_lt_breakLines isNewline here.unfinished (congrArg Prod.fst broken)
      have total : (l :: ls).flatten.length = l.length + ls.flatten.length := by
        rw [List.flatten_cons, List.length_append]
      have inChunk : distance + c.carry.length ≤ distance + (l :: ls).flatten.length := by omega
      refine ⟨firstCut (distance + (l :: ls).flatten.length), ?_, ?_, fun more => ?_⟩
      · rw [List.cons_append, piecesFrom, cutAt_short _ (by omega),
          pieces_within aligned (by omega) (by omega), pieces_eq_piecesFrom, List.isEmpty_cons,
          Bool.and_false, total, Nat.add_assoc]
        rfl
      · exact le_firstCut aligned inChunk (by omega)
      · exact firstCut_end aligned inChunk (by have longer := full more; omega)

/-- **One chunk** takes the pieces it holds from what is ahead. -/
theorem readChunk_ahead :
    ∃ later, (c.readChunk rules (rest.take CHUNK)).At offset later (rest.drop CHUNK) ∧
      feed rules c.reading c.carryStart (c.ahead distance rest)
        = feed rules (c.readChunk rules (rest.take CHUNK)).reading
            (c.readChunk rules (rest.take CHUNK)).carryStart
              ((c.readChunk rules (rest.take CHUNK)).ahead later (rest.drop CHUNK)) := by
  generalize broken : breakLines isNewline (c.carry ++ rest.take CHUNK) = parts
  obtain ⟨ls, carry⟩ := parts
  obtain ⟨first, ahead, whole, cut⟩ := ahead_broken here left broken
  have unfinished : ∀ b ∈ carry, isNewline b = false := by
    have rest_ := breakLines_rest isNewline (c.carry ++ rest.take CHUNK)
    rwa [broken] at rest_
  have lengths : ls.flatten.length + carry.length = c.carry.length + (rest.take CHUNK).length := by
    have flat := congrArg List.length (flatten_breakLines isNewline (c.carry ++ rest.take CHUNK))
    rwa [broken, List.length_append, List.length_append] at flat
  have full : rest.drop CHUNK ≠ [] → (rest.take CHUNK).length = CHUNK := fun more => by
    have longer := List.length_pos_iff.mpr more
    rw [List.length_drop] at longer
    rw [List.length_take]
    omega
  have aligned := here.aligned left
  have carryStart := here.carryStart
  have pos := here.pos
  by_cases long : carry.length > LINE_FRAGMENT
  · have next : c.readChunk rules (rest.take CHUNK) =
        { pos := c.pos + (rest.take CHUNK).length
          carry := []
          carryStart := c.carryStart + ls.flatten.length + carry.length
          midLine := true
          reading := (feed rules c.reading c.carryStart (headed (!c.midLine) ls)).onLine rules
            ⟨carry, !(c.midLine && ls.isEmpty)⟩ (c.carryStart + ls.flatten.length) } := by
      unfold Cursor.readChunk
      rw [broken]
      dsimp only
      rw [if_pos long]
    have filled : carry ≠ [] := by
      rintro rfl
      simp at long
    rw [next]
    refine ⟨distance + ls.flatten.length + carry.length,
      ⟨by simp, by simp, by dsimp only; omega, by simp only [List.length_nil]; omega,
        fun more => ?_, by simp⟩, ?_⟩
    · have longer := full more
      rw [List.length_nil, Nat.add_zero, Nat.add_assoc, lengths, ← Nat.add_assoc, longer,
        Nat.add_mod_right, aligned]
    · rw [ahead, piecesFrom_long unfinished filled _ _ whole (fun more => by
        rw [cut more, if_pos long]), feed_append, headed_texts, feed]
      simp [Cursor.ahead]
  · have next : c.readChunk rules (rest.take CHUNK) =
        { pos := c.pos + (rest.take CHUNK).length
          carry := carry
          carryStart := c.carryStart + ls.flatten.length
          midLine := c.midLine && ls.isEmpty
          reading := feed rules c.reading c.carryStart (headed (!c.midLine) ls) } := by
      unfold Cursor.readChunk
      rw [broken]
      dsimp only
      rw [if_neg long]
    rw [next]
    refine ⟨distance + ls.flatten.length, ⟨unfinished, by simpa using long, by dsimp only; omega,
      by dsimp only; omega, fun more => ?_, fun more midLine => ?_⟩, ?_⟩
    · have longer := full more
      dsimp only
      rw [Nat.add_assoc, lengths, ← Nat.add_assoc, longer, Nat.add_mod_right, aligned]
    · have longer := full more
      have fits : CHUNK > LINE_FRAGMENT := by decide
      have empty : ls = [] := by simpa using (Bool.and_eq_true_iff.mp midLine).2
      rw [empty, List.flatten_nil, List.length_nil] at lengths
      omega
    · rw [ahead, piecesFrom_short unfinished _ _ whole (fun more => by
        rw [cut more, if_neg long]), feed_append, headed_texts]
      rfl

end Chunk

/-- **The reader sees the lines of the file from the offset**, cut where a chunk ends. -/
theorem readAll_ahead (rules : RecordRules) (file : Bytes) {offset : Nat} (fuel : Nat) :
    ∀ (c : Cursor) (distance : Nat), (file.drop c.pos).length < fuel →
      c.At offset distance (file.drop c.pos) →
        (readAll rules file fuel c).closing rules
          = ((feed rules c.reading c.carryStart (c.ahead distance (file.drop c.pos))).finish
              (c.pos + (file.drop c.pos).length)).out := by
  induction fuel with
  | zero => intro c distance short; omega
  | succ fuel ih =>
      intro c distance short here
      rw [readAll]
      by_cases left : file.drop c.pos = []
      · rw [left, List.take_nil]
        rw [if_pos List.length_nil, Cursor.closing, Cursor.ahead,
          lines_append_rest isNewline here.unfinished, lines]
        dsimp only
        by_cases filled : c.carry = []
        · rw [if_pos filled, filled]
          rfl
        · rw [if_neg filled, if_pos (List.length_pos_iff.mpr filled), piecesFrom,
            cutAt_short _ (Nat.le_add_right _ _)]
          rfl
      · have longer := List.length_pos_iff.mpr left
        have chunk : 0 < CHUNK := by decide
        have pos : (c.readChunk rules ((file.drop c.pos).take CHUNK)).pos
            = c.pos + ((file.drop c.pos).take CHUNK).length := by
          unfold Cursor.readChunk
          dsimp only
          split <;> rfl
        have rest : file.drop (c.readChunk rules ((file.drop c.pos).take CHUNK)).pos
            = (file.drop c.pos).drop CHUNK := by
          rw [pos, List.length_take, List.drop_drop]
          rcases Nat.le_total CHUNK (file.drop c.pos).length with full | less
          · rw [min_eq_left full]
          · rw [min_eq_right less, List.drop_eq_nil_of_le, List.drop_eq_nil_of_le]
            · rw [List.length_drop] at less; omega
            · rw [List.length_drop]; omega
        obtain ⟨later, at_, same⟩ := readChunk_ahead rules here left
        rw [if_neg (by rw [List.length_take]; omega)]
        rw [← rest] at at_ same
        rw [ih _ later (by rw [rest, List.length_drop]; omega) at_, same]
        have reach : (c.readChunk rules ((file.drop c.pos).take CHUNK)).pos
            + (file.drop (c.readChunk rules ((file.drop c.pos).take CHUNK)).pos).length
              = c.pos + (file.drop c.pos).length := by
          rw [rest, pos, Nat.add_assoc, ← List.length_append, List.take_append_drop]
        rw [reach]

/-- **The pieces a reading yields the records of.** -/
theorem readRecords_pieces (rules : RecordRules) (file : Bytes) (offset : Nat) :
    readRecords rules file offset
      = ((feed rules ⟨true, none, []⟩ offset
          (pieces 0 (lines isNewline (file.drop offset)))).finish
            (offset + (file.drop offset).length)).out := by
  have begun : (⟨offset, [], offset, false, ⟨true, none, []⟩⟩ : Cursor).At offset 0
      (file.drop offset) :=
    ⟨by simp, by simp, rfl, rfl, fun _ => Nat.zero_mod CHUNK, fun _ _ => rfl⟩
  have cut : firstCut 0 = ([] : Bytes).length + CHUNK := by decide +kernel
  have short : (file.drop offset).length < file.length + 1 := by
    rw [List.length_drop]
    omega
  rw [readRecords, readAll_ahead rules file (file.length + 1) _ 0 short begun,
    pieces_eq_piecesFrom, cut]
  rfl

end Kiagent.Converter
