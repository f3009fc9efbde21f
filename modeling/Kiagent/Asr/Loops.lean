/-
# Asr.Loops -- phrases that a transcript repeats

A loop is a property of the text alone: one sentence that is mostly one phrase over and over
(`isLoop`), or the same sentence three times in a row.  A transcript of a file has no rows, so
its sentences stand in for them (`sentenceRows`).

What Unicode has to tell about a text, its folded form and which characters make a token, is
a parameter (`Unicode`).
-/
import Kiagent.Store.FtsQuery
import Mathlib

namespace Kiagent.Asr

open Store.FtsQuery (isSpace trim)

set_option autoImplicit false

abbrev Text := List Char

def LOOP_MIN_TOKENS : Nat := 6
def LOOP_MAX_NGRAM : Nat := 4
def LOOP_MIN_REPEATS : Nat := 3
def LOOP_IDENTICAL_ROWS : Nat := 3

inductive Speaker where
  | me
  | them
  deriving DecidableEq

structure LoopRow where
  startMs : Nat
  endMs : Nat
  speaker : Speaker
  speakerLabel : Option Text
  text : Text
  deriving DecidableEq

/-- `rowIndices` are ascending. -/
structure LoopFlag where
  speaker : Speaker
  speakerLabel : Option Text
  startMs : Nat
  endMs : Nat
  rowIndices : List Nat
  deriving DecidableEq

/-- `normal` is `.normalize('NFKC').toLowerCase()`, and `isToken` what `[\p{L}\p{N}']` matches. -/
structure Unicode where
  normal : Text → Text
  isToken : Char → Bool

variable (U : Unicode)

/-! ## One sentence -/

def Unicode.normaliseTokens (text : Text) : List Text :=
  ((U.normal text).splitOnP fun c => !U.isToken c).filter (· ≠ [])

def sameGram (tokens : List Text) (a b n : Nat) : Bool :=
  (tokens.drop a).take n = (tokens.drop b).take n

/-- How often the phrase of `n` tokens at `i` comes again from `j` on. -/
def repeatsFrom (tokens : List Text) (i n : Nat) : Nat → Nat → Nat
  | 0, _ => 0
  | fuel + 1, j =>
      if j + n ≤ tokens.length ∧ sameGram tokens i j n then repeatsFrom tokens i n fuel (j + n) + 1
      else 0

/-- Three fifths of the tokens. -/
def covers (tokens : List Text) (n i : Nat) : Bool :=
  let repeats := repeatsFrom tokens i n tokens.length (i + n) + 1
  LOOP_MIN_REPEATS ≤ repeats && 3 * tokens.length ≤ 5 * (repeats * n)

def loops (tokens : List Text) : Bool :=
  LOOP_MIN_TOKENS ≤ tokens.length &&
    (List.range LOOP_MAX_NGRAM).any fun k =>
      (k + 1) * LOOP_MIN_REPEATS ≤ tokens.length &&
        (List.range (tokens.length - k)).any fun i => covers tokens (k + 1) i

def Unicode.isLoop (text : Text) : Bool := loops (U.normaliseTokens text)

/-! ## Rows -/

def keyOf (r : LoopRow) : Text :=
  (match r.speaker with
    | .me => ['m', 'e']
    | .them => ['t', 'h', 'e', 'm']) ++ '|' :: r.speakerLabel.getD ['\x00']

def silence : LoopRow := ⟨0, 0, .me, none, []⟩

def rowAt (rows : List LoopRow) (i : Nat) : LoopRow := rows.getD i silence

/-- A map keeps the order in which its keys came. -/
def insertAt (k : Text) (i : Nat) : List (Text × List Nat) → List (Text × List Nat)
  | [] => [(k, [i])]
  | entry :: rest =>
      if entry.1 = k then (k, entry.2 ++ [i]) :: rest else entry :: insertAt k i rest

def byKey (rows : List LoopRow) : List (Text × List Nat) :=
  (List.range rows.length).foldl (fun groups i => insertAt (keyOf (rowAt rows i)) i groups) []

def Unicode.norm (text : Text) : Text := [' '].intercalate (U.normaliseTokens text)

/-- Rows with the same tokens; a row is compared with the one before it. -/
def Unicode.runs (rows : List LoopRow) (indices : List Nat) : List (List Nat) :=
  indices.splitBy fun i j => U.norm (rowAt rows i).text = U.norm (rowAt rows j).text

/-- Three of them, and not of nothing. -/
def Unicode.identical (rows : List LoopRow) (run : List Nat) : Bool :=
  LOOP_IDENTICAL_ROWS ≤ run.length && run.any fun i => U.norm (rowAt rows i).text ≠ []

def flagFor (rows : List LoopRow) (idx : List Nat) : LoopFlag :=
  let first := rowAt rows (idx.headD 0)
  { speaker := first.speaker
    speakerLabel := first.speakerLabel
    startMs := (idx.map fun i => (rowAt rows i).startMs).foldl min first.startMs
    endMs := (idx.map fun i => (rowAt rows i).endMs).foldl max first.endMs
    rowIndices := idx.insertionSort (· ≤ ·) }

/-- The runs first, then the rows outside them. -/
def Unicode.flagsOf (rows : List LoopRow) (indices : List Nat) : List LoopFlag :=
  let found := (U.runs rows indices).filter (U.identical rows)
  let consumed := found.flatten
  found.map (flagFor rows) ++
    (indices.filter fun i => i ∉ consumed && U.isLoop (rowAt rows i).text).map fun i =>
      flagFor rows [i]

def earlier (a b : LoopFlag) : Bool :=
  a.startMs < b.startMs || (a.startMs = b.startMs && a.endMs ≤ b.endMs)

def Unicode.findLoopFlags (rows : List LoopRow) : List LoopFlag :=
  ((byKey rows).flatMap fun group => U.flagsOf rows group.2).insertionSort (earlier · ·)

/-! ## Sentences -/

def CJK_STOPS : List Char := ['。', '！', '？']

def STOPS : List Char := ['.', '!', '?', '…']

def CLOSERS : List Char := ['"', '\'', '»', '“', '”', ')', ']']

/-- Where the split is: in a match of `\n+` or of `\s+`, or in a part.  Of a part it is known
whether it ends in a stop, perhaps with closers, or in a stop that needs no space. -/
inductive Cutting where
  | newlines
  | spaces
  | part (stopped stoppedCjk : Bool)

def Cutting.after (stopped : Bool) (c : Char) : Cutting :=
  .part (c ∈ STOPS || (stopped && c ∈ CLOSERS)) (c ∈ CJK_STOPS)

/-- `text.split(/\n+|(?<=[。！？])|(?<=[.!?…]["'»“”)\]]*)\s+/u)`; the empty match is not tried
where the last one ended. -/
def cut : Cutting → Text → Text → List Text
  | _, part, [] => [part]
  | .newlines, part, c :: cs =>
      if c = '\n' then cut .newlines part cs else cut (.after false c) (part ++ [c]) cs
  | .spaces, part, c :: cs =>
      if isSpace c then cut .spaces part cs else cut (.after false c) (part ++ [c]) cs
  | .part stopped stoppedCjk, part, c :: cs =>
      if c = '\n' then part :: cut .newlines [] cs
      else if stoppedCjk && part ≠ [] then part :: cut (.after false c) [c] cs
      else if stopped && isSpace c then part :: cut .spaces [] cs
      else cut (.after stopped c) (part ++ [c]) cs

def sentences (text : Text) : List Text :=
  ((cut (.part false false) [] text).map trim).filter (· ≠ [])

def sentenceRows (text : Text) : List LoopRow :=
  (sentences text).zipIdx.map fun (t, i) => ⟨i, i, .them, none, t⟩

example : sentences "Es kostet 3.5 Euro. Gut! Wirklich?\nNeu".toList
    = ["Es kostet 3.5 Euro.".toList, "Gut!".toList, "Wirklich?".toList, "Neu".toList] := by
  decide +kernel

/-! ## Removing them -/

def DEGENERATE_MIN_REMOVED_TOKENS : Nat := 50

structure Cleanup where
  text : Text
  removedTokens : Nat
  totalTokens : Nat
  degenerate : Bool

/-- All of a flag but its first row, and that too if it is a loop. -/
def Unicode.dropOf (rows : List LoopRow) (flag : LoopFlag) : List Nat :=
  match flag.rowIndices with
  | [] => []
  | first :: rest => if U.isLoop (rowAt rows first).text then first :: rest else rest

def Unicode.dropped (rows : List LoopRow) : Finset Nat :=
  ((U.findLoopFlags rows).flatMap (U.dropOf rows)).toFinset

def Unicode.removeLoops (text : Text) : Cleanup :=
  let rows := sentenceRows text
  let count := fun i => (U.normaliseTokens (rowAt rows i).text).length
  let totalTokens := ((List.range rows.length).map count).sum
  let drop := U.dropped rows
  let removedTokens := ∑ i ∈ drop, count i
  let kept := (List.range rows.length).filter fun i => i ∉ drop
  let cleaned := if drop = ∅ then text
    else [' '].intercalate (kept.map fun i => (rowAt rows i).text)
  { text := cleaned
    removedTokens
    totalTokens
    degenerate := trim cleaned = [] ||
      (DEGENERATE_MIN_REMOVED_TOKENS ≤ removedTokens && max 1 totalTokens ≤ 2 * removedTokens) }

end Kiagent.Asr
