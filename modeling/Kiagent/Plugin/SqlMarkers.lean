/-
# Plugin.SqlMarkers -- names put into a plugin's SQL

A plugin writes its SQL with `{{name}}` where a table of its own is meant.  The scanner
replaces these markers by quoted names, outside of quotes and comments; a doubled quote is to
it the end of one quoted text and the start of the next, which comes to the same
(`scan_close`).  So it takes every token of SQLite's as a whole (`scan_token`).

The quoted name may stand directly behind a quote, or before one, and there the two quotes
read as one doubled: `markersKept_iff`.
-/
import Kiagent.Db.PluginAuthorizer
import Kiagent.Theory.SqlLexer

namespace Kiagent.Plugin.SqlMarkers

open Theory.SqlLexer
open Db.PluginAuthorizer (isLogical ownedNamespace)

set_option autoImplicit false

/-! ## The scanner -/

/-- `pluginIdentifier`, of a name that is valid. -/
def pluginIdentifier (id : String) (name : List Char) : List Char :=
  '"' :: ((ownedNamespace id).toList ++ name ++ ['"'])

/-- What is before `}}`, and behind it. -/
def findClose : List Char → Option (List Char × List Char)
  | [] => none
  | [_] => none
  | c :: c' :: cs =>
      if c = '}' ∧ c' = '}' then some ([], cs)
      else (findClose (c' :: cs)).map fun r => (c :: r.1, r.2)

inductive State where
  | code
  | single
  | double
  | backtick
  | bracket
  | line
  | block
  deriving DecidableEq, Repr

def State.terminator : State → Char
  | .single => '\''
  | .double => '"'
  | .backtick => '`'
  | _ => ']'

section Scan

variable (id : String) (known : List String)

/-- Behind `{{`. -/
def marker (cs : List Char) : Except String (List Char × List Char) :=
  match findClose cs with
  | none => .error "malformed SQL marker"
  | some (name, rest) =>
      if isLogical (String.ofList name) ∧ String.ofList name ∈ known then
        .ok (pluginIdentifier id name, rest)
      else .error ("unknown SQL marker: " ++ String.ofList name)

/-- One turn of the loop: the next state, what is put out, and what is left. -/
def step (s : State) (c : Char) (cs : List Char) :
    Except String (State × List Char × List Char) :=
  match s with
  | .code =>
      if c = '\'' then .ok (.single, [c], cs)
      else if c = '"' then .ok (.double, [c], cs)
      else if c = '`' then .ok (.backtick, [c], cs)
      else if c = '[' then .ok (.bracket, [c], cs)
      else if c = '-' ∧ cs.head? = some '-' then .ok (.line, ['-', '-'], cs.tail)
      else if c = '/' ∧ cs.head? = some '*' then .ok (.block, ['/', '*'], cs.tail)
      else if c = '{' ∨ c = '}' then
        if c = '{' ∧ cs.head? = some '{' then
          (marker id known cs.tail).map fun r => (.code, r.1, r.2)
        else .error "malformed SQL marker"
      else .ok (.code, [c], cs)
  | .line => .ok (if c = '\n' then .code else .line, [c], cs)
  | .block =>
      if c = '*' ∧ cs.head? = some '/' then .ok (.code, [c, '/'], cs.tail)
      else .ok (.block, [c], cs)
  | s =>
      if c = s.terminator then
        if s ≠ .bracket ∧ cs.head? = some c then .ok (s, [c, c], cs.tail)
        else .ok (.code, [c], cs)
      else .ok (s, [c], cs)

/-- The loop, for so many turns. -/
def scanIn : Nat → State → List Char → Except String (List Char)
  | 0, _, _ => .ok []
  | _ + 1, _, [] => .ok []
  | n + 1, s, c :: cs =>
      match step id known s c cs with
      | .error e => .error e
      | .ok (s', text, rest) => (scanIn n s' rest).map fun out => text ++ out

def scan (s : State) (z : List Char) : Except String (List Char) := scanIn id known z.length s z

end Scan

/-- The objects are checked in the order they are given. -/
def formatPluginSql (id sql : String) (objects : List String) : Except String String :=
  match objects.find? fun object => !isLogical object with
  | some object => .error ("invalid logical identifier: " ++ object)
  | none => (scan id objects .code sql.toList).map String.ofList

/-! ## The tokens of a text with markers -/

inductive Piece where
  | token (t : Token)
  | marker (name : List Char)
  deriving DecidableEq, Repr

/-- The first piece of a text that is not empty. -/
def piece : List Char → Piece × List Char
  | '{' :: '{' :: cs =>
      match findClose cs with
      | some (name, rest) => (.marker name, rest)
      | none => (.token (token ('{' :: '{' :: cs)).1, (token ('{' :: '{' :: cs)).2)
  | z => (.token (token z).1, (token z).2)

def piecesIn : Nat → List Char → List Piece
  | 0, _ => []
  | _ + 1, [] => []
  | n + 1, c :: cs => (piece (c :: cs)).1 :: piecesIn n (piece (c :: cs)).2

def piecesOf (z : List Char) : List Piece := piecesIn z.length z

/-- The tokens and markers that SQLite's rules read. -/
def pieces (z : List Char) : List Piece := piecesOf (cut z)

def Piece.expand (id : String) : Piece → Token
  | .token t => t
  | .marker name => ⟨.quotedId, pluginIdentifier id name⟩

/-- A marker, or a token in double quotes. -/
def Piece.isDouble : Piece → Bool
  | .token t => t.text.head? = some '"'
  | .marker _ => true

def Piece.isMarker : Piece → Bool
  | .token _ => false
  | .marker _ => true

/-- Their quotes would stand side by side. -/
def Joins (a b : Piece) : Prop := a.isDouble ∧ b.isDouble ∧ (a.isMarker ∨ b.isMarker)

instance (a b : Piece) : Decidable (Joins a b) := by unfold Joins; infer_instance

/-- No marker stands directly beside a double quote or another marker. -/
def Apart (ps : List Piece) : Prop := ps.IsChain fun a b => ¬ Joins a b

instance (ps : List Piece) : Decidable (Apart ps) := by unfold Apart; infer_instance

/-! ## The loop -/

theorem findClose_whole (z : List Char) : ∀ r, findClose z = some r →
    z = r.1 ++ '}' :: '}' :: r.2 := by
  fun_induction findClose z with
  | case1 => exact nofun
  | case2 => exact nofun
  | case3 c c' cs close =>
      intro r same
      cases same
      obtain ⟨rfl, rfl⟩ := close
      rfl
  | case4 c c' cs open_ ih =>
      intro r same
      obtain ⟨r', later, rfl⟩ := Option.map_eq_some_iff.mp same
      rw [ih r' later]
      rfl

section Loop

variable {id : String} {known : List String}

theorem marker_whole {cs : List Char} {r : List Char × List Char}
    (read : marker id known cs = .ok r) : ∃ name, findClose cs = some (name, r.2) ∧
      isLogical (String.ofList name) = true ∧ r.1 = pluginIdentifier id name := by
  unfold marker at read
  split at read
  · cases read
  · rename_i name rest found
    split at read
    · rename_i valid
      cases read
      exact ⟨name, found, valid.1, rfl⟩
    · cases read

/-- The turns that put out what they read. -/
inductive Passes : State → State → List Char → List Char → List Char → Prop where
  | one (s s' : State) (c : Char) (cs : List Char) : Passes s s' (c :: cs) [c] cs
  | two (s s' : State) (c c' : Char) (cs : List Char) : Passes s s' (c :: c' :: cs) [c, c'] cs

theorem passes_two {s s' : State} {c c' : Char} {cs : List Char} (next : cs.head? = some c') :
    Passes s s' (c :: cs) [c, c'] cs.tail := by
  obtain ⟨rest, rfl⟩ := List.head?_eq_some_iff.mp next
  exact .two s s' c c' rest

/-- **A turn** passes on what it reads, or puts a name in the place of a marker. -/
theorem step_cases {s s' : State} {c : Char} {cs text rest : List Char}
    (run : step id known s c cs = .ok (s', text, rest)) :
    Passes s s' (c :: cs) text rest ∨
      s = .code ∧ s' = .code ∧ c = '{' ∧ ∃ cs', cs = '{' :: cs' ∧
        marker id known cs' = .ok (text, rest) := by
  unfold step at run
  split at run
  · split at run
    · cases run; exact Or.inl (.one ..)
    · split at run
      · cases run; exact Or.inl (.one ..)
      · split at run
        · cases run; exact Or.inl (.one ..)
        · split at run
          · cases run; exact Or.inl (.one ..)
          · split at run
            · rename_i dashes
              cases run
              rw [dashes.1]
              exact Or.inl (passes_two dashes.2)
            · split at run
              · rename_i slash
                cases run
                rw [slash.1]
                exact Or.inl (passes_two slash.2)
              · split at run
                · split at run
                  · rename_i brace
                    obtain ⟨rest', rfl⟩ := List.head?_eq_some_iff.mp brace.2
                    cases read : marker id known rest' with
                    | error e => rw [List.tail_cons, read] at run; cases run
                    | ok r =>
                        rw [List.tail_cons, read] at run
                        cases run
                        exact Or.inr ⟨rfl, rfl, brace.1, rest', rfl, read⟩
                  · cases run
                · cases run; exact Or.inl (.one ..)
  · cases run; exact Or.inl (.one ..)
  · split at run
    · rename_i close
      cases run
      exact Or.inl (passes_two close.2)
    · cases run; exact Or.inl (.one ..)
  · split at run
    · split at run
      · rename_i double
        cases run
        exact Or.inl (passes_two double.2)
      · cases run; exact Or.inl (.one ..)
    · cases run; exact Or.inl (.one ..)

theorem step_shorter {s s' : State} {c : Char} {cs text rest : List Char}
    (run : step id known s c cs = .ok (s', text, rest)) : rest.length < (c :: cs).length := by
  rcases step_cases run with passes | ⟨-, -, -, cs', rfl, read⟩
  · cases passes with
    | one => exact Nat.lt_succ_self _
    | two => exact Nat.lt_succ_of_lt (Nat.lt_succ_self _)
  · obtain ⟨name, found, -⟩ := marker_whole read
    have whole := congrArg List.length (findClose_whole cs' _ found)
    simp only [List.length_append, List.length_cons] at whole ⊢
    omega

theorem scanIn_enough (n : Nat) : ∀ (m : Nat) (s : State) (z : List Char), z.length ≤ n →
    z.length ≤ m → scanIn id known n s z = scanIn id known m s z := by
  induction n with
  | zero =>
      intro m s z le _
      obtain rfl := List.length_eq_zero_iff.mp (Nat.le_zero.mp le)
      cases m <;> rfl
  | succ n ih =>
      intro m s z le le'
      cases z with
      | nil => cases m <;> rfl
      | cons c cs =>
          cases m with
          | zero => cases le'
          | succ m =>
              rw [scanIn, scanIn]
              cases run : step id known s c cs with
              | error e => rfl
              | ok r =>
                  obtain ⟨s', text, rest⟩ := r
                  have less := step_shorter run
                  rw [List.length_cons] at less le le'
                  dsimp only
                  rw [ih m _ _ (by omega) (by omega)]

/-- **The loop**: a turn, and the rest. -/
theorem scan_cons (s : State) (c : Char) (cs : List Char) :
    scan id known s (c :: cs) = match step id known s c cs with
      | .error e => .error e
      | .ok (s', text, rest) => (scan id known s' rest).map fun out => text ++ out := by
  show scanIn id known (cs.length + 1) s (c :: cs) = _
  rw [scanIn]
  cases run : step id known s c cs with
  | error e => rfl
  | ok r =>
      obtain ⟨s', text, rest⟩ := r
      have less := step_shorter run
      rw [List.length_cons] at less
      dsimp only
      rw [scan, scanIn_enough cs.length _ _ _ (by omega) (le_refl _)]

theorem scan_step {s s' : State} {c : Char} {cs text rest : List Char}
    (run : step id known s c cs = .ok (s', text, rest)) :
    scan id known s (c :: cs) = (scan id known s' rest).map fun out => text ++ out := by
  rw [scan_cons, run]

/-! ## What it takes as a whole -/

theorem map_map_append (t u : List Char) (r : Except String (List Char)) :
    (r.map fun out => u ++ out).map (fun out => t ++ out) = r.map fun out => (t ++ u) ++ out := by
  cases r with
  | error e => rfl
  | ok out => exact congrArg Except.ok (List.append_assoc t u out).symm

/-- The three quotes that may be doubled. -/
def stateOf (d : Char) : State :=
  if d = '\'' then .single else if d = '"' then .double else .backtick

theorem stateOf_terminator {d : Char} (quote : isQuote d = true) :
    (stateOf d).terminator = d ∧ stateOf d ≠ .bracket ∧
      ∀ cs, step id known .code d cs = .ok (stateOf d, [d], cs) := by
  unfold isQuote at quote
  simp only [Bool.or_eq_true, decide_eq_true_eq] at quote
  rcases quote with (rfl | rfl) | rfl <;>
    exact ⟨rfl, by decide, fun cs => rfl⟩

theorem step_within {s : State} {d c : Char} (quoting : s.terminator = d)
    (kind : s ≠ .code ∧ s ≠ .line ∧ s ≠ .block) (cs : List Char) :
    step id known s c cs =
      if c = d then
        if s ≠ .bracket ∧ cs.head? = some c then .ok (s, [c, c], cs.tail) else .ok (.code, [c], cs)
      else .ok (s, [c], cs) := by
  subst quoting
  cases s with
  | code => exact absurd rfl kind.1
  | line => exact absurd rfl kind.2.1
  | block => exact absurd rfl kind.2.2
  | _ => rfl

theorem stateOf_kind (d : Char) : stateOf d ≠ .code ∧ stateOf d ≠ .line ∧ stateOf d ≠ .block := by
  unfold stateOf
  split
  · decide
  · split <;> decide

/-- **A quote** ends its text, and a doubled one begins another of its kind. -/
theorem scan_close {d : Char} (quote : isQuote d = true) (r : List Char) :
    scan id known (stateOf d) (d :: r) = (scan id known .code r).map fun out => [d] ++ out := by
  obtain ⟨terminator, bracket, opens⟩ := @stateOf_terminator id known d quote
  have within_ := @step_within id known (stateOf d) d d terminator (stateOf_kind d) r
  rw [if_pos rfl] at within_
  by_cases double : r.head? = some d
  · rw [if_pos ⟨bracket, double⟩] at within_
    obtain ⟨r, rfl⟩ := List.head?_eq_some_iff.mp double
    rw [scan_step within_, scan_step (opens r), map_map_append]
    rfl
  · rw [if_neg fun both => double both.2] at within_
    exact scan_step within_

theorem scan_inside {s : State} {d c : Char} (quoting : s.terminator = d)
    (kind : s ≠ .code ∧ s ≠ .line ∧ s ≠ .block) (other : c ≠ d) (r : List Char) :
    scan id known s (c :: r) = (scan id known s r).map fun out => [c] ++ out := by
  have within_ := @step_within id known s d c quoting kind r
  rw [if_neg other] at within_
  exact scan_step within_

theorem scan_quoted {d : Char} (quote : isQuote d = true) (z : List Char) :
    scan id known (stateOf d) z =
      (scan id known .code (quoted d z).2.1).map fun out => (quoted d z).1 ++ out := by
  obtain ⟨terminator, -, opens⟩ := @stateOf_terminator id known d quote
  generalize size : z.length = n
  induction n using Nat.strong_induction_on generalizing z with
  | _ n ih =>
      cases z with
      | nil => rfl
      | cons c t =>
          by_cases is : c = d
          · obtain rfl := is
            rw [scan_close quote]
            by_cases next : t.head? = some c
            · obtain ⟨t, rfl⟩ := List.head?_eq_some_iff.mp next
              rw [scan_step (opens t), ih t.length (by rw [← size]; simp) t rfl, quoted_double,
                map_map_append, map_map_append]
              rfl
            · rw [quoted_last next]
          · rw [scan_inside terminator (stateOf_kind d) is,
              ih t.length (by rw [← size]; simp) t rfl,
              quoted_other is, map_map_append]
            rfl

theorem scan_while {s : State} {p : Char → Bool}
    (goes : ∀ c r, p c = true →
      scan id known s (c :: r) = (scan id known s r).map fun out => [c] ++ out) (z : List Char) :
    scan id known s z =
      (scan id known s (z.span p).2).map fun out => (z.span p).1 ++ out := by
  rw [List.span_eq_takeWhile_dropWhile]
  dsimp only
  induction z with
  | nil => rfl
  | cons c z ih =>
      cases is : p c with
      | true =>
          rw [goes c z is, ih, List.takeWhile_cons_of_pos is, List.dropWhile_cons_of_pos is,
            map_map_append]
          rfl
      | false =>
          have not_ := Bool.eq_false_iff.mp is
          rw [List.takeWhile_cons_of_neg not_, List.dropWhile_cons_of_neg not_]
          cases scan id known s (c :: z) <;> rfl

theorem scan_through {s : State} {d : Char} (quoting : s.terminator = d)
    (kind : s ≠ .code ∧ s ≠ .line ∧ s ≠ .block)
    (ends : ∀ r, scan id known s (d :: r) = (scan id known .code r).map fun out => [d] ++ out)
    (z : List Char) :
    scan id known s z =
      (scan id known .code (through d z).2.1).map fun out => (through d z).1 ++ out := by
  have goes : ∀ c r, decide (c ≠ d) = true →
      scan id known s (c :: r) = (scan id known s r).map fun out => [c] ++ out :=
    fun c r other => scan_inside quoting kind (of_decide_eq_true other) r
  have stops := span_stops (· ≠ d) z
  rw [scan_while goes]
  unfold through
  generalize z.span (· ≠ d) = q at stops
  obtain ⟨text, rest⟩ := q
  cases rest with
  | nil => rfl
  | cons c rest =>
      obtain rfl : c = d := by simpa using stops c rfl
      dsimp only
      rw [ends, map_map_append]

theorem scan_bracket (r : List Char) :
    scan id known .bracket (']' :: r) = (scan id known .code r).map fun out => [']'] ++ out :=
  scan_step rfl

theorem scan_line (z : List Char) : scan id known .line z =
    (scan id known .code (z.span (· ≠ '\n')).2).map fun out => (z.span (· ≠ '\n')).1 ++ out := by
  have goes : ∀ c r, decide (c ≠ '\n') = true →
      scan id known .line (c :: r) = (scan id known .line r).map fun out => [c] ++ out := by
    intro c r other
    have run : step id known .line c r = .ok (.line, [c], r) := by
      rw [step, if_neg (of_decide_eq_true other)]
    exact scan_step run
  have stops := span_stops (· ≠ '\n') z
  rw [scan_while goes]
  generalize z.span (· ≠ '\n') = q at stops
  obtain ⟨text, rest⟩ := q
  cases rest with
  | nil => rfl
  | cons c rest =>
      obtain rfl : c = '\n' := by simpa using stops c rfl
      rfl

theorem scan_block (z : List Char) : scan id known .block z =
    (scan id known .code (untilClose z).2).map fun out => (untilClose z).1 ++ out := by
  fun_induction untilClose z with
  | case1 => rfl
  | case2 c =>
      have run : step id known .block c [] = .ok (.block, [c], []) :=
        if_neg fun close => by cases close.2
      rw [scan_step run]
      rfl
  | case3 c c' cs close =>
      obtain ⟨rfl, rfl⟩ := close
      exact scan_step rfl
  | case4 c c' cs open_ text rest read ih =>
      have run : step id known .block c (c' :: cs) = .ok (.block, [c], c' :: cs) :=
        if_neg fun close => open_ ⟨close.1, Option.some.inj close.2⟩
      rw [scan_step run, ih, read, map_map_append]
      rfl

/-- What the scanner may stop at in code. -/
def marks : List Char := ['\'', '"', '`', '[', '{', '}', '-', '/']

/-- A character it passes on. -/
structure Still (c : Char) (r : List Char) : Prop where
  plain : c ∉ ['\'', '"', '`', '[', '{', '}']
  line : ¬ (c = '-' ∧ r.head? = some '-')
  block : ¬ (c = '/' ∧ r.head? = some '*')

/-- A text it passes on, before another. -/
def Quiet : List Char → List Char → Prop
  | [], _ => True
  | c :: t, r => Still c (t ++ r) ∧ Quiet t r

theorem still_of {c : Char} (calm : c ∉ marks) (r : List Char) : Still c r := by
  unfold marks at calm
  simp only [List.mem_cons, List.not_mem_nil, or_false, not_or] at calm
  obtain ⟨h1, h2, h3, h4, h5, h6, dash, slash⟩ := calm
  exact ⟨by simp [h1, h2, h3, h4, h5, h6], fun both => dash both.1, fun both => slash both.1⟩

theorem quiet_of {t : List Char} (calm : ∀ c ∈ t, c ∉ marks) (r : List Char) : Quiet t r := by
  induction t with
  | nil => trivial
  | cons c t ih =>
      exact ⟨still_of (calm c List.mem_cons_self) _,
        ih fun d mem => calm d (List.mem_cons_of_mem _ mem)⟩

theorem Quiet.append {t u r : List Char} (first : Quiet t (u ++ r)) (second : Quiet u r) :
    Quiet (t ++ u) r := by
  induction t with
  | nil => exact second
  | cons c t ih =>
      refine ⟨?_, ih first.2⟩
      show Still c ((t ++ u) ++ r)
      rw [List.append_assoc]
      exact first.1

theorem step_still {c : Char} {r : List Char} (still : Still c r) :
    step id known .code c r = .ok (.code, [c], r) := by
  have plain := still.plain
  simp only [List.mem_cons, List.not_mem_nil, or_false, not_or] at plain
  obtain ⟨h1, h2, h3, h4, h5, h6⟩ := plain
  rw [step, if_neg h1, if_neg h2, if_neg h3, if_neg h4, if_neg still.line, if_neg still.block,
    if_neg (not_or.mpr ⟨h5, h6⟩)]

theorem scan_quiet {t r : List Char} (quiet : Quiet t r) :
    scan id known .code (t ++ r) = (scan id known .code r).map fun out => t ++ out := by
  induction t with
  | nil =>
      rw [List.nil_append]
      cases scan id known .code r <;> rfl
  | cons c t ih =>
      rw [List.cons_append, scan_step (step_still quiet.1), ih quiet.2, map_map_append]
      rfl

end Loop

/-! ## Tokens with no delimiters -/

/-- None of its characters stops the scanner. -/
def Calm (p : Char → Bool) : Prop := marks.any p = false

theorem Calm.not_mem {p : Char → Bool} (calm : Calm p) {c : Char} (is : p c = true) : c ∉ marks :=
  fun mem => List.any_eq_false.mp calm c mem is

theorem Calm.span {p : Char → Bool} (calm : Calm p) (z r : List Char) :
    Quiet (z.span p).1 r := by
  rw [List.span_eq_takeWhile_dropWhile]
  exact quiet_of (fun c mem => calm.not_mem (List.mem_takeWhile_imp mem)) r

def Reader.Quiets (R : Reader) : Prop := ∀ z, Quiet (R z).1 (R z).2

theorem quiets_before {R S : Reader} (first : Reader.Quiets R) (second : Reader.Quiets S)
    (whole : Reader.Whole S) : Reader.Quiets (R.before S) := by
  intro z
  have here := first z
  rw [← whole (R z).2] at here
  exact here.append (second (R z).2)

theorem calm_digit : Calm isDigit := rfl

theorem calm_numeral : Calm (isNumeral isDigit) := rfl

theorem calm_hex : Calm (isNumeral isHexDigit) := rfl

theorem calm_id : Calm isIdChar := rfl

theorem calm_space : Calm Theory.SqlLexer.isSpace := rfl

theorem quiets_fraction : Reader.Quiets (fraction isDigit) := by
  intro z
  unfold fraction
  split
  · exact ⟨still_of (by decide) _, calm_numeral.span _ _⟩
  · trivial

theorem quiets_exponent : Reader.Quiets exponent := by
  intro z
  unfold exponent
  split
  · rename_i c d z
    split
    · rename_i is
      have letter : c ∉ marks := by
        rcases is.1 with rfl | rfl <;> decide
      have whole := span_whole (isNumeral isDigit) z
      refine ⟨still_of letter _, ?_, calm_numeral.span _ _⟩
      rcases is.2 with digit | ⟨sign, next⟩
      · exact still_of (calm_digit.not_mem digit) _
      · rw [whole]
        obtain ⟨e, first, digit⟩ := (Option.any_eq_true isDigit z.head?).mp next
        refine ⟨?_, fun both => ?_, fun both => ?_⟩
        · rcases sign with rfl | rfl <;> decide
        · rw [first] at both
          cases Option.some.inj both.2
          cases digit
        · rw [first] at both
          cases Option.some.inj both.2
          cases digit
    · trivial
  · trivial

theorem quiet_number (z : List Char) : Quiet (number z).1.text (number z).2 := by
  have digits : Quiet (if startsHex z then hexadecimal z else decimal z).1
      (if startsHex z then hexadecimal z else decimal z).2 := by
    split
    · rename_i hex
      match z, hex with
      | c :: x :: h :: t, hex =>
          simp only [startsHex, Bool.and_eq_true, Bool.or_eq_true, decide_eq_true_eq] at hex
          obtain ⟨⟨rfl, letter⟩, -⟩ := hex
          have plain : x ∉ marks := by
            rcases letter with rfl | rfl <;> decide
          exact ⟨still_of (by decide) _, still_of plain _, calm_hex.span _ _⟩
    · exact quiets_before (fun z => calm_numeral.span z _)
        (quiets_before quiets_fraction quiets_exponent whole_exponent)
        (whole_before (whole_fraction _) whole_exponent) z
  unfold number
  generalize (if startsHex z then hexadecimal z else decimal z) = r at digits
  obtain ⟨text, z⟩ := r
  have trail := span_whole isIdChar z
  have calm := calm_id.span z (z.span isIdChar).2
  dsimp only at digits ⊢
  generalize z.span isIdChar = q at trail calm
  obtain ⟨more, rest⟩ := q
  cases more with
  | nil => exact digits
  | cons c more =>
      rw [← trail] at digits
      exact digits.append calm

theorem operators_cases {op : List Char} (listed : op ∈ operators) : op = ['-'] ∨ op = ['/'] ∨
    op = ['-', '>'] ∨ op = ['-', '>', '>'] ∨ ∀ c ∈ op, c ∉ marks := by
  have all : (operators.all fun op => op == ['-'] || (op == ['/'] || (op == ['-', '>'] ||
      (op == ['-', '>', '>'] || op.all fun c => decide (c ∉ marks))))) = true := by decide +kernel
  have here := List.all_eq_true.mp all op listed
  simpa only [Bool.or_eq_true, beq_iff_eq, List.all_eq_true, decide_eq_true_eq] using here

theorem quiet_operator {c : Char} {cs : List Char} (bare : Bare c cs) (brace : c ≠ '{' ∧ c ≠ '}')
    (last : ¬ (c = '/' ∧ cs = ['*'])) : Quiet (operator c cs).1.text (operator c cs).2 := by
  unfold operator
  split
  · rename_i op found
    have front := List.find?_some (p := fun op : List Char => op.isPrefixOf (c :: cs)) found
    obtain ⟨rest, whole⟩ := List.isPrefixOf_iff_prefix.mp front
    have left : (c :: cs).drop op.length = rest := by rw [← whole, List.drop_left]
    dsimp only
    rw [left]
    rcases operators_cases (List.mem_of_find?_eq_some found) with
      rfl | rfl | rfl | rfl | calm
    · cases whole
      exact ⟨⟨by decide, fun both => bare.line both, fun both => absurd both.1 (by decide)⟩,
        trivial⟩
    · cases whole
      refine ⟨⟨by decide, fun both => absurd both.1 (by decide), fun both => ?_⟩, trivial⟩
      exact bare.block ⟨rfl, both.2, fun same => last ⟨rfl, same⟩⟩
    · exact ⟨⟨by decide, fun both => absurd (Option.some.inj both.2) (by decide),
        fun both => absurd both.1 (by decide)⟩, still_of (by decide) _, trivial⟩
    · exact ⟨⟨by decide, fun both => absurd (Option.some.inj both.2) (by decide),
        fun both => absurd both.1 (by decide)⟩, still_of (by decide) _, still_of (by decide) _,
        trivial⟩
    · exact quiet_of calm rest
  · rename_i none_
    have absent := List.find?_eq_none.mp none_
    have other : ∀ d : Char, [d] ∈ operators → c ≠ d := by
      rintro d mem rfl
      exact absent [c] mem (by simp)
    have quote := bare.quote
    unfold isQuote at quote
    simp only [Bool.or_eq_false_iff, decide_eq_false_iff_not] at quote
    refine quiet_of (fun d mem => ?_) cs
    obtain rfl := List.mem_singleton.mp mem
    unfold marks
    simp only [List.mem_cons, List.not_mem_nil, or_false, not_or]
    exact ⟨quote.1.1, quote.1.2, quote.2, bare.bracket, brace.1, brace.2,
      other '-' (by decide +kernel), other '/' (by decide +kernel)⟩

theorem quiet_bare {c : Char} {cs : List Char} (is : Bare c cs) (brace : c ≠ '{' ∧ c ≠ '}')
    (last : ¬ (c = '/' ∧ cs = ['*'])) : Quiet (bare c cs).1.text (bare c cs).2 := by
  unfold bare
  split
  · rename_i blank
    exact ⟨still_of ((show Calm isBlank from rfl).not_mem blank) _, calm_space.span _ _⟩
  · split
    · exact quiet_number _
    · split
      · rename_i question
        exact ⟨still_of (by rw [question]; decide) _, calm_digit.span _ _⟩
      · split
        · rename_i start
          exact ⟨still_of ((show Calm isVariableStart from rfl).not_mem start) _,
            calm_id.span _ _⟩
        · split
          · rename_i bom
            exact ⟨still_of (by rw [bom]; decide) _, trivial⟩
          · split
            · rename_i letter
              exact ⟨still_of (calm_id.not_mem letter) _, calm_id.span _ _⟩
            · exact quiet_operator is brace last

/-! ## Whole tokens -/

theorem piece_marker {cs name rest : List Char} (found : findClose cs = some (name, rest)) :
    piece ('{' :: '{' :: cs) = (.marker name, rest) := by
  rw [piece, found]

theorem piece_token {c : Char} (brace : c ≠ '{') (cs : List Char) :
    piece (c :: cs) = (.token (token (c :: cs)).1, (token (c :: cs)).2) := by
  rw [piece]
  intro cs' same
  exact brace (List.cons.inj same).1

theorem piece_shorter (c : Char) (cs : List Char) :
    (piece (c :: cs)).2.length < (c :: cs).length := by
  unfold piece
  split
  · rename_i cs same
    rw [same]
    split
    · rename_i name rest found
      have whole := congrArg List.length (findClose_whole cs _ found)
      simp only [List.length_append, List.length_cons] at whole ⊢
      omega
    · exact token_shorter _ _
  · exact token_shorter _ _

theorem piecesIn_enough (n : Nat) : ∀ (m : Nat) (z : List Char), z.length ≤ n → z.length ≤ m →
    piecesIn n z = piecesIn m z := by
  induction n with
  | zero =>
      intro m z le _
      obtain rfl := List.length_eq_zero_iff.mp (Nat.le_zero.mp le)
      cases m <;> rfl
  | succ n ih =>
      intro m z le le'
      cases z with
      | nil => cases m <;> rfl
      | cons c cs =>
          cases m with
          | zero => cases le'
          | succ m =>
              have less := piece_shorter c cs
              rw [piecesIn, piecesIn, ih m _ (by omega) (by omega)]

theorem piecesOf_cons (c : Char) (cs : List Char) :
    piecesOf (c :: cs) = (piece (c :: cs)).1 :: piecesOf (piece (c :: cs)).2 := by
  have less := piece_shorter c cs
  rw [List.length_cons] at less
  show piecesIn (cs.length + 1) (c :: cs) = _
  rw [piecesIn, piecesOf, piecesIn_enough cs.length _ _ (by omega) (le_refl _)]

section Tokens

variable {id : String} {known : List String}

theorem scan_run {s s' : State} {c : Char} {cs z t u : List Char}
    (first : step id known s c cs = .ok (s', t, z)) {r : List Char}
    (later : scan id known s' z = (scan id known .code r).map fun out => u ++ out) :
    scan id known s (c :: cs) = (scan id known .code r).map fun out => t ++ u ++ out := by
  rw [scan_step first, later, map_map_append]

/-- **The scanner takes tokens whole.** -/
theorem scan_token {c : Char} {cs : List Char} (brace : c ≠ '{' ∧ c ≠ '}') :
    scan id known .code (c :: cs) =
      (scan id known .code (token (c :: cs)).2).map fun out =>
        (token (c :: cs)).1.text ++ out := by
  have rule := token_rule c cs
  generalize same : token (c :: cs) = r at rule
  cases rule with
  | line cs =>
      exact scan_run (t := ['-', '-']) rfl (scan_line cs)
  | block d ds => exact scan_run (t := ['/', '*']) rfl (scan_block (d :: ds))
  | quote c cs is => exact scan_run (t := [c]) ((stateOf_terminator is).2.2 cs) (scan_quoted is cs)
  | bracket cs =>
      exact scan_run (t := ['[']) rfl (scan_through rfl (by decide) scan_bracket cs)
  | blob c cs is =>
      have still : Still c ('\'' :: cs) := by
        rcases is with rfl | rfl <;> exact still_of (by decide) _
      have opens : step id known .code '\'' cs = .ok (.single, ['\''], cs) := rfl
      have closes := @scan_close id known '\'' rfl
      exact scan_run (step_still still) (scan_run opens (scan_through rfl (by decide) closes cs))
  | bare c cs is =>
      by_cases last : c = '/' ∧ cs = ['*']
      · obtain ⟨rfl, rfl⟩ := last
        rfl
      · have whole := bare_whole c cs
        have quiet := @scan_quiet id known _ _ (quiet_bare is brace last)
        rwa [whole] at quiet

/-- What begins a text that the scanner goes through. -/
inductive First (id : String) (known : List String) : List Char → List Char → Prop where
  | marker {cs name rest out : List Char} (found : findClose cs = some (name, rest))
      (logical : isLogical (String.ofList name) = true)
      (later : scan id known .code rest = .ok out) :
      First id known ('{' :: '{' :: cs) (pluginIdentifier id name ++ out)
  | token {c : Char} {cs out : List Char} (brace : c ≠ '{')
      (later : scan id known .code (token (c :: cs)).2 = .ok out) :
      First id known (c :: cs) ((token (c :: cs)).1.text ++ out)

theorem scan_first {c : Char} {cs out : List Char}
    (scanned : scan id known .code (c :: cs) = .ok out) : First id known (c :: cs) out := by
  by_cases brace : c = '{' ∨ c = '}'
  · have run := scanned
    rw [scan_cons, step] at run
    rw [if_neg (by rcases brace with rfl | rfl <;> decide),
      if_neg (by rcases brace with rfl | rfl <;> decide),
      if_neg (by rcases brace with rfl | rfl <;> decide),
      if_neg (by rcases brace with rfl | rfl <;> decide),
      if_neg (by rcases brace with rfl | rfl <;> simp),
      if_neg (by rcases brace with rfl | rfl <;> simp), if_pos brace] at run
    by_cases open_ : c = '{' ∧ cs.head? = some '{'
    · obtain ⟨rfl, next⟩ := open_
      obtain ⟨cs, rfl⟩ := List.head?_eq_some_iff.mp next
      rw [if_pos ⟨rfl, next⟩, List.tail_cons] at run
      cases read : marker id known cs with
      | error e => rw [read] at run; cases run
      | ok r =>
          obtain ⟨name, found, logical, text⟩ := marker_whole read
          rw [read] at run
          cases later : scan id known .code r.2 with
          | error e =>
              simp only [Except.map, later] at run
              cases run
          | ok out' =>
              simp only [Except.map, later] at run
              cases run
              rw [text]
              exact .marker found logical later
    · rw [if_neg open_] at run
      cases run
  · rw [scan_token (not_or.mp brace)] at scanned
    cases later : scan id known .code (token (c :: cs)).2 with
    | error e => rw [later] at scanned; cases scanned
    | ok out' =>
        rw [later] at scanned
        cases scanned
        exact .token (not_or.mp brace).1 later

/-- Only a marker's braces are changed, to a quote at first. -/
theorem scan_alike (z : List Char) : ∀ out, scan id known .code z = .ok out → Alike z out := by
  generalize size : z.length = n
  induction n using Nat.strong_induction_on generalizing z with
  | _ n ih =>
      intro out scanned
      cases z with
      | nil =>
          cases scanned
          exact .nil
      | cons c cs =>
          cases scan_first scanned with
          | marker found logical later => exact .fork _ _
          | @token _ _ out brace later =>
              have alike := (ih _ (size ▸ token_shorter c cs) _ rfl out later).append
                (token (c :: cs)).1.text
              rwa [token_whole] at alike

/-! ## Side by side -/

/-- The first piece is in double quotes if what is put out for it is. -/
theorem first_double {z out : List Char} (scanned : scan id known .code z = .ok out) :
    (piecesOf z).head?.any Piece.isDouble = true ↔ out.head? = some '"' := by
  cases z with
  | nil =>
      cases scanned
      exact ⟨nofun, nofun⟩
  | cons c cs =>
      rw [piecesOf_cons]
      cases scan_first scanned with
      | marker found logical later =>
          rw [piece_marker found]
          exact ⟨fun _ => rfl, fun _ => rfl⟩
      | @token _ _ out brace later =>
          have head := token_head c cs []
          rw [List.append_nil] at head
          rw [piece_token brace, token_head, List.head?_cons, Option.any_some, Piece.isDouble, head,
            decide_eq_true_eq]

theorem first_marker {z out : List Char} (scanned : scan id known .code z = .ok out) :
    (piecesOf z).head?.any Piece.isMarker = true ↔ z.head? = some '{' := by
  cases z with
  | nil => exact ⟨nofun, nofun⟩
  | cons c cs =>
      rw [piecesOf_cons]
      cases scan_first scanned with
      | marker found logical later =>
          rw [piece_marker found]
          exact ⟨fun _ => rfl, fun _ => rfl⟩
      | token brace later =>
          rw [piece_token brace]
          exact ⟨nofun, fun same => absurd (Option.some.inj same) brace⟩

theorem apart_cons (p : Piece) (ps : List Piece) :
    Apart (p :: ps) ↔ (∀ q ∈ ps.head?, ¬ Joins p q) ∧ Apart ps := by
  cases ps with
  | nil => simp [Apart]
  | cons q ps => simp [Apart]

/-- The characters of the names put in. -/
def isNameChar (c : Char) : Bool := Db.PluginAuthorizer.isLower c || c.isDigit || c == '_'

theorem hexDigit_name (n : ℕ) : isNameChar (Db.PluginAuthorizer.hexDigit n) = true := by
  unfold Db.PluginAuthorizer.hexDigit
  rw [List.getD_eq_getElem?_getD]
  cases digit : "0123456789abcdef".toList[n]? with
  | none => decide
  | some c =>
      have all : ("0123456789abcdef".toList.all isNameChar) = true := by decide
      exact List.all_eq_true.mp all c (List.mem_of_getElem? digit)

theorem namespace_names (id : String) : ∀ c ∈ (ownedNamespace id).toList, isNameChar c = true := by
  have ends : ∀ c, c ∈ "p_".toList ∨ c ∈ "__".toList → isNameChar c = true := by
    simp [isNameChar, Db.PluginAuthorizer.isLower]
  unfold ownedNamespace Db.PluginAuthorizer.hex
  intro c mem
  simp only [String.toList_append, String.toList_ofList, List.mem_append, List.mem_flatMap,
    List.mem_cons, List.not_mem_nil, or_false] at mem
  rcases mem with (first | ⟨b, -, rfl | rfl⟩) | last
  · exact ends c (Or.inl first)
  · exact hexDigit_name _
  · exact hexDigit_name _
  · exact ends c (Or.inr last)

theorem logical_names {name : List Char} (logical : isLogical (String.ofList name) = true) :
    ∀ c ∈ name, isNameChar c = true := by
  unfold isLogical at logical
  rw [String.toList_ofList] at logical
  cases name with
  | nil => cases logical
  | cons c cs =>
      rw [Bool.and_eq_true, List.all_eq_true] at logical
      intro d mem
      rcases List.mem_cons.mp mem with rfl | later
      · unfold isNameChar
        rw [logical.1, Bool.true_or, Bool.true_or]
      · exact logical.2 d later

theorem identifier_without {name : List Char} (logical : isLogical (String.ofList name) = true)
    {d : Char} (other : isNameChar d = false) : d ∉ (ownedNamespace id).toList ++ name := by
  intro mem
  have is := (List.mem_append.mp mem).elim (namespace_names id d) (logical_names logical d)
  rw [other] at is
  cases is

/-- The name put in is one token, unless a quote stands behind it. -/
theorem token_identifier {name : List Char} (logical : isLogical (String.ofList name) = true)
    {out : List Char} (next : out.head? ≠ some '"') :
    token (pluginIdentifier id name ++ out) = (⟨.quotedId, pluginIdentifier id name⟩, out) := by
  have read := quoted_plain (@identifier_without id name logical '"' rfl) next
  show token ('"' :: ((ownedNamespace id).toList ++ name ++ ['"'] ++ out)) = _
  rw [List.append_assoc _ ['"'], List.singleton_append, token_quote rfl, quotedToken, read]
  rfl

theorem lex_kept {t : Token} (some_ : t.text ≠ []) {out : List Char}
    (kept : token (t.text ++ out) = (t, out)) : lex (t.text ++ out) = t :: lex out := by
  obtain ⟨c, cs, same⟩ := List.exists_cons_of_ne_nil some_
  rw [same, List.cons_append] at kept ⊢
  rw [lex_cons, kept]

/-- A quote behind the name put in joins it. -/
theorem token_joined {name : List Char} (logical : isLogical (String.ofList name) = true)
    (more : List Char) :
    (token (pluginIdentifier id name ++ '"' :: more)).1.text ≠ pluginIdentifier id name := by
  have alone := @token_identifier id name logical ['{'] (by decide)
  have further := @token_further '"' ((ownedNamespace id).toList ++ name ++ ['"'] ++ ['{']) rfl
  rw [show '"' :: ((ownedNamespace id).toList ++ name ++ ['"'] ++ ['{'])
    = pluginIdentifier id name ++ ['{'] from rfl, alone] at further
  exact further (List.cons_ne_nil _ _) more

/-- **In code**, the tokens are kept exactly where no quotes meet. -/
theorem lexed_iff (z : List Char) : ∀ out, scan id known .code z = .ok out →
    (lex out = (piecesOf z).map (Piece.expand id) ↔ Apart (piecesOf z)) := by
  generalize size : z.length = n
  induction n using Nat.strong_induction_on generalizing z with
  | _ n ih =>
      intro out scanned
      cases z with
      | nil =>
          cases scanned
          exact ⟨fun _ => List.IsChain.nil, fun _ => rfl⟩
      | cons c cs =>
          have less := piece_shorter c cs
          rw [piecesOf_cons, apart_cons, List.map_cons]
          cases scan_first scanned with
          | @marker cs name rest out found logical later =>
              rw [piece_marker found] at less ⊢
              have rest_ := ih _ (size ▸ less) rest rfl out later
              have double := first_double later
              by_cases next : out.head? = some '"'
              · obtain ⟨q, first, twice⟩ := (Option.any_eq_true _ _).mp (double.mpr next)
                refine ⟨fun same => ?_, fun apart => ?_⟩
                · obtain ⟨more, rfl⟩ := List.head?_eq_some_iff.mp next
                  have whole : lex ('"' :: ((ownedNamespace id).toList ++ name ++ ['"'] ++
                      '"' :: more)) = _ := same
                  rw [lex_cons] at whole
                  exact absurd (congrArg Token.text (List.cons.inj whole).1)
                    (token_joined logical more)
                · exact absurd ⟨rfl, twice, Or.inl rfl⟩ (apart.1 q first)
              · have kept := lex_kept (t := ⟨.quotedId, pluginIdentifier id name⟩)
                  (List.cons_ne_nil _ _) (token_identifier logical next)
                rw [kept, ← rest_]
                refine ⟨fun same => ⟨fun q first joins => next (double.mp ?_),
                  (List.cons.inj same).2⟩, fun both => congrArg (_ :: ·) both.2⟩
                exact (Option.any_eq_true _ _).mpr ⟨q, first, joins.2.1⟩
          | @token _ _ out brace later =>
              rw [piece_token brace] at less ⊢
              have rest_ := ih _ (size ▸ less) _ rfl out later
              have double := first_double later
              have alike := scan_alike _ out later
              have head := token_head c cs []
              rw [List.append_nil] at head
              by_cases next : c = '"' ∧ out.head? = some '"'
              · obtain ⟨rfl, next⟩ := next
                obtain ⟨q, first, twice⟩ := (Option.any_eq_true _ _).mp (double.mpr next)
                have open_ : (token ('"' :: cs)).2.head? = some '{' :=
                  (alike.quote next).resolve_left (token_behind rfl cs)
                have marker_ : q.isMarker = true := by
                  obtain ⟨q', first', is⟩ := (Option.any_eq_true _ _).mp
                    ((first_marker later).mpr open_)
                  rwa [Option.some.inj (first.symm.trans first')]
                refine ⟨fun same => ?_, fun apart => ?_⟩
                · obtain ⟨more, rfl⟩ := List.head?_eq_some_iff.mp next
                  have joined := @token_further '"' cs rfl
                    (fun empty => by rw [empty] at open_; cases open_) more
                  obtain ⟨text, whole⟩ := List.head?_eq_some_iff.mp head
                  rw [whole, List.cons_append] at joined same
                  rw [lex_cons] at same
                  exact absurd ((congrArg Token.text (List.cons.inj same).1).trans whole) joined
                · refine absurd ⟨?_, twice, Or.inr marker_⟩ (apart.1 q first)
                  rw [Piece.isDouble, head]
                  rfl
              · have kept := lex_kept (token_some c cs) (token_kept alike fun quote same => ?_)
                · rw [kept, ← rest_]
                  refine ⟨fun same => ⟨fun q first joins => ?_, (List.cons.inj same).2⟩,
                    fun both => congrArg (_ :: ·) both.2⟩
                  have quoted_ := joins.1
                  rw [Piece.isDouble, head, decide_eq_true_eq] at quoted_
                  exact next ⟨Option.some.inj quoted_, double.mp
                    ((Option.any_eq_true _ _).mpr ⟨q, first, joins.2.1⟩)⟩
                · by_cases plain : c = '"'
                  · exact next ⟨plain, plain ▸ same⟩
                  · exact token_behind quote cs ((alike.head ⟨brace, plain⟩).mp same)

/-! ## Where SQLite stops -/

theorem cut_cons {c : Char} (other : c ≠ '\x00') (cs : List Char) : cut (c :: cs) = c :: cut cs :=
  List.takeWhile_cons_of_pos (decide_eq_true other)

theorem cut_head {d : Char} (other : d ≠ '\x00') (cs : List Char) :
    (cut cs).head? = some d ↔ cs.head? = some d := by
  cases cs with
  | nil => exact Iff.rfl
  | cons c cs =>
      by_cases nul : c = '\x00'
      · subst nul
        exact ⟨nofun, fun same => absurd (Option.some.inj same).symm other⟩
      · rw [cut_cons nul]
        exact Iff.rfl

theorem cut_tail {d : Char} (other : d ≠ '\x00') {cs : List Char} (head : cs.head? = some d) :
    (cut cs).tail = cut cs.tail := by
  obtain ⟨cs, rfl⟩ := List.head?_eq_some_iff.mp head
  rw [cut_cons other]
  rfl

theorem cut_append {t : List Char} (plain : '\x00' ∉ t) (r : List Char) :
    cut (t ++ r) = t ++ cut r := by
  induction t with
  | nil => rfl
  | cons c t ih =>
      rw [List.cons_append, cut_cons (fun same => plain (same ▸ List.mem_cons_self)),
        ih fun mem => plain (List.mem_cons_of_mem _ mem)]
      rfl

theorem findClose_cut {z : List Char} : ∀ {r : List Char × List Char}, findClose z = some r →
    '\x00' ∉ r.1 → findClose (cut z) = some (r.1, cut r.2) := by
  fun_induction findClose z with
  | case1 => exact nofun
  | case2 => exact nofun
  | case3 c c' cs close =>
      intro r same _
      cases same
      obtain ⟨rfl, rfl⟩ := close
      rw [cut_cons (by decide), cut_cons (by decide), findClose, if_pos ⟨rfl, rfl⟩]
  | case4 c c' cs open_ ih =>
      intro r same plain
      obtain ⟨r', later, rfl⟩ := Option.map_eq_some_iff.mp same
      have here := ih later fun mem => plain (List.mem_cons_of_mem _ mem)
      have first : c ≠ '\x00' := fun same => plain (same ▸ List.mem_cons_self)
      rw [cut_cons first]
      have second : c' ≠ '\x00' := by
        rintro rfl
        rw [show cut ('\x00' :: cs) = [] from rfl] at here
        cases here
      rw [cut_cons second] at here ⊢
      rw [findClose, if_neg open_, here]
      rfl

theorem cut_without {t : List Char} (plain : '\x00' ∉ t) : cut t = t := by
  have whole := cut_append plain []
  rw [List.append_nil] at whole
  exact whole.trans (List.append_nil t)

theorem marker_cut {cs : List Char} {r : List Char × List Char}
    (read : marker id known cs = .ok r) :
    marker id known (cut cs) = .ok (r.1, cut r.2) ∧ cut r.1 = r.1 := by
  obtain ⟨name, found, logical, text⟩ := marker_whole read
  have letters : '\x00' ∉ name := fun mem => by cases logical_names logical _ mem
  have found' := findClose_cut found letters
  refine ⟨?_, cut_without ?_⟩
  · unfold marker at read ⊢
    rw [found] at read
    rw [found']
    dsimp only at read ⊢
    split at read
    · rename_i valid
      rw [if_pos valid, text]
    · cases read
  · rw [text]
    unfold pluginIdentifier
    have inside := @identifier_without id name logical '\x00' rfl
    simp only [List.mem_cons, List.mem_append, List.not_mem_nil, or_false, not_or] at inside ⊢
    exact ⟨by decide, inside, by decide⟩

/-- What a turn reads of a text it reads up to the first NUL. -/
theorem step_cut {s s' : State} {c : Char} {cs text rest : List Char} (other : c ≠ '\x00')
    (run : step id known s c cs = .ok (s', text, rest)) :
    step id known s c (cut cs) = .ok (s', text, cut rest) ∧ cut text = text := by
  have one : cut [c] = [c] := cut_cons other []
  have two : ∀ {d : Char}, d ≠ '\x00' → cut [c, d] = [c, d] := fun plain => by
    rw [cut_cons other, cut_cons plain]
    rfl
  unfold step at run ⊢
  simp only [cut_head (show '-' ≠ '\x00' by decide), cut_head (show '*' ≠ '\x00' by decide),
    cut_head (show '/' ≠ '\x00' by decide), cut_head (show '{' ≠ '\x00' by decide),
    cut_head other]
  cases s with
  | code =>
      dsimp only at run ⊢
      by_cases quote : c = '\'' ∨ c = '"' ∨ c = '`' ∨ c = '['
      · rcases quote with rfl | rfl | rfl | rfl <;> (cases run; exact ⟨rfl, one⟩)
      · obtain ⟨single, double, backtick, bracket⟩ : c ≠ '\'' ∧ c ≠ '"' ∧ c ≠ '`' ∧ c ≠ '[' := by
          simpa only [not_or] using quote
        rw [if_neg single, if_neg double, if_neg backtick, if_neg bracket] at run ⊢
        by_cases dashes : c = '-' ∧ cs.head? = some '-'
        · rw [if_pos dashes] at run ⊢
          cases run
          rw [cut_tail (by decide) dashes.2]
          exact ⟨rfl, rfl⟩
        · rw [if_neg dashes] at run ⊢
          by_cases slash : c = '/' ∧ cs.head? = some '*'
          · rw [if_pos slash] at run ⊢
            cases run
            rw [cut_tail (by decide) slash.2]
            exact ⟨rfl, rfl⟩
          · rw [if_neg slash] at run ⊢
            by_cases brace : c = '{' ∨ c = '}'
            · rw [if_pos brace] at run ⊢
              by_cases open_ : c = '{' ∧ cs.head? = some '{'
              · rw [if_pos open_] at run ⊢
                rw [cut_tail (by decide) open_.2]
                cases read : marker id known cs.tail with
                | error e => rw [read] at run; cases run
                | ok r =>
                    obtain ⟨read', text⟩ := marker_cut read
                    rw [read] at run
                    rw [read']
                    cases run
                    exact ⟨rfl, text⟩
              · rw [if_neg open_] at run
                cases run
            · rw [if_neg brace] at run ⊢
              cases run
              exact ⟨rfl, one⟩
  | line =>
      cases run
      exact ⟨rfl, one⟩
  | block =>
      dsimp only at run ⊢
      by_cases close : c = '*' ∧ cs.head? = some '/'
      · rw [if_pos close] at run ⊢
        cases run
        rw [cut_tail (by decide) close.2]
        exact ⟨rfl, two (by decide)⟩
      · rw [if_neg close] at run ⊢
        cases run
        exact ⟨rfl, one⟩
  | _ =>
      dsimp only at run ⊢
      split at run
      · rename_i close
        rw [if_pos close]
        split at run
        · rename_i double
          rw [if_pos double]
          cases run
          rw [cut_tail other double.2]
          exact ⟨rfl, two other⟩
        · rename_i last
          rw [if_neg last]
          cases run
          exact ⟨rfl, one⟩
      · rename_i inside
        rw [if_neg inside]
        cases run
        exact ⟨rfl, one⟩

theorem scan_cut (z : List Char) : ∀ (s : State) (out : List Char),
    scan id known s z = .ok out → scan id known s (cut z) = .ok (cut out) := by
  generalize size : z.length = n
  induction n using Nat.strong_induction_on generalizing z with
  | _ n ih =>
      intro s out scanned
      cases z with
      | nil =>
          cases scanned
          rfl
      | cons c cs =>
          rw [scan_cons] at scanned
          cases run : step id known s c cs with
          | error e => rw [run] at scanned; cases scanned
          | ok r =>
              obtain ⟨s', text, rest⟩ := r
              rw [run] at scanned
              obtain ⟨out', later, rfl⟩ : ∃ out', scan id known s' rest = .ok out' ∧
                  text ++ out' = out := by
                cases later : scan id known s' rest with
                | error e => simp only [Except.map, later] at scanned; cases scanned
                | ok out' =>
                    simp only [Except.map, later] at scanned
                    exact ⟨out', rfl, Except.ok.inj scanned⟩
              by_cases nul : c = '\x00'
              · subst nul
                -- what is put out begins with what was read
                have first : cut (text ++ out') = [] := by
                  rcases step_cases run with passes | ⟨-, -, brace, -⟩
                  · cases passes <;> rfl
                  · cases brace
                rw [first]
                rfl
              · obtain ⟨run', plain⟩ := step_cut nul run
                have cut_text : cut (text ++ out') = text ++ cut out' := by
                  refine cut_append (fun mem => ?_) out'
                  rw [← plain] at mem
                  have inside := @List.mem_takeWhile_imp _ (· ≠ '\x00') _ _ mem
                  cases inside
                rw [cut_cons nul, scan_step run',
                  ih _ (size ▸ step_shorter run) rest rfl s' out' later, cut_text]
                rfl

end Tokens

end Kiagent.Plugin.SqlMarkers
