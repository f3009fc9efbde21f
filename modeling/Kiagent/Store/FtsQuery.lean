/-
# Store.FtsQuery -- the text of a search as a match expression

`tokenizeFts` cuts the user's text into terms, operators and parentheses; `ftsQuery`
compiles them.  The index knows no unary `NOT`, so each group of operands is emitted with
its negated ones behind it, each term in quotes.

The two parsing functions call each other and share the position in the tokens; here each
returns what is left of them.
-/
import Kiagent.Theory.MatchExpr

namespace Kiagent.Store.FtsQuery

open Kiagent.Theory.MatchExpr

set_option autoImplicit false

/-! ## Tokens -/

inductive FtsToken where
  | op (op : Op)
  | lparen
  | rparen
  | str (value : Text) (star : Bool) (negated : Bool)
  deriving DecidableEq

/-- JavaScript's `\s`. -/
def isSpace (c : Char) : Bool :=
  c.toNat ∈ [9, 10, 11, 12, 13, 32, 0xa0, 0x1680, 0x2028, 0x2029, 0x202f, 0x205f, 0x3000, 0xfeff] ||
    (0x2000 ≤ c.toNat && c.toNat ≤ 0x200a)

/-- `String.prototype.trim`. -/
def trim (text : Text) : Text :=
  ((text.dropWhile isSpace).reverse.dropWhile isSpace).reverse

/-- A quoted phrase with its mark of negation and its star. -/
structure Phrase where
  minus : Bool
  body : Text
  star : Bool
  rest : Text

/-- `"([^"]*)"\s*(\*)?` -/
def quotedAt (minus : Bool) : Text → Option Phrase
  | '"' :: cs =>
      match cs.dropWhile (fun c => c ≠ '"') with
      | [] => none
      | _ :: rest =>
          let body := cs.takeWhile fun c => c ≠ '"'
          match rest.dropWhile isSpace with
          | '*' :: rest => some ⟨minus, body, true, rest⟩
          | rest => some ⟨minus, body, false, rest⟩
  | _ => none

/-- `(-)?` and the phrase. -/
def phraseAt (text : Text) : Option Phrase :=
  match text with
  | '-' :: cs => quotedAt true cs
  | cs => quotedAt false cs

/-- `[^\s()]` -/
def wordChar (c : Char) : Bool := !isSpace c && c ≠ '(' && c ≠ ')'

/-- `word.replace(/["*]/g, '')` -/
def bareWord (word : Text) : Text := word.filter fun c => c ≠ '"' && c ≠ '*'

def wordToken (word : Text) : Option FtsToken :=
  match wordOp word with
  | some op => some (.op op)
  | none =>
      let negated := word.head? = some '-'
      let word := if negated then word.tail else word
      let star := word.getLast? = some '*'
      let word := bareWord word
      if word = [] then none else some (.str word star negated)

def phraseToken (p : Phrase) : Option FtsToken :=
  let value := trim p.body
  if value = [] then none else some (.str value p.star p.minus)

theorem quotedAt_rest {minus : Bool} {text : Text} {p : Phrase}
    (found : quotedAt minus text = some p) : p.rest.length < text.length := by
  unfold quotedAt at found
  split at found
  · rename_i cs
    split at found
    · cases found
    · rename_i _ c rest after
      have part : (c :: rest).length ≤ cs.length := after ▸ List.length_dropWhile_le _ _
      have spaces : (rest.dropWhile isSpace).length ≤ rest.length := List.length_dropWhile_le _ _
      dsimp only at found
      split at found
      · rename_i more starred
        rw [starred] at spaces
        cases found
        simp only [List.length_cons] at *
        omega
      · cases found
        simp only [List.length_cons] at *
        omega
  · cases found

theorem phraseAt_rest {text : Text} {p : Phrase} (found : phraseAt text = some p) :
    p.rest.length < text.length := by
  unfold phraseAt at found
  split at found
  · have shorter := quotedAt_rest found
    simp only [List.length_cons]
    omega
  · exact quotedAt_rest found

/-- The matches of the tokens' pattern from left to right. -/
def tokenizeFts (text : Text) : List FtsToken :=
  match text with
  | [] => []
  | c :: cs =>
      match _found : phraseAt (c :: cs) with
      | some p => (phraseToken p).toList ++ tokenizeFts p.rest
      | none =>
          if c = '(' then .lparen :: tokenizeFts cs
          else if c = ')' then .rparen :: tokenizeFts cs
          else if isSpace c then tokenizeFts cs
          else (wordToken ((c :: cs).takeWhile wordChar)).toList
            ++ tokenizeFts (cs.dropWhile wordChar)
termination_by text.length
decreasing_by
  · exact phraseAt_rest _found
  · simp
  · simp
  · simp
  · have shorter := List.length_dropWhile_le wordChar cs
    simp only [List.length_cons]
    omega

/-! ## The compiler -/

inductive FtsError where
  | missingClose
  | unmatchedClose
  | negationAlone
  deriving DecidableEq

def FtsError.message : FtsError → String
  | .missingClose => "search query: missing closing \")\""
  | .unmatchedClose => "search query: unmatched \")\""
  | .negationAlone =>
      "search query: negation (-term / NOT) needs at least one positive term alongside it"

/-- The stem variants of a term, when the search expands terms. -/
abbrev Expand := Option (Text → List Text)

/-- `parts.join(separator)` -/
def join (op : Op) : List Text → Text
  | [] => []
  | part :: parts => part ++ parts.flatMap fun next => opText op ++ next

def parens (text : Text) : Text := '(' :: (text ++ [')'])

variable (expand : Expand)

/-- Only positive plain terms are expanded: not phrases, not prefixes. -/
def variantsOf (negated : Bool) (value : Text) (star : Bool) : List Text :=
  match expand with
  | none => []
  | some variants => if !negated && !star && !value.any isSpace then variants value else []

def operandText (negated : Bool) (value : Text) (star : Bool) : Text :=
  let quoted := quoteText value ++ starText star
  match variantsOf expand negated value star with
  | [] => quoted
  | variants => parens (join .or (quoted :: variants.map quoteText))

/-- The end of an and-group: its positive operands, and behind them its negated ones. -/
def endGroup (positives negatives : List Text) : Except FtsError Text :=
  if positives = [] then
    if negatives = [] then .ok [] else .error .negationAlone
  else
    let expr := negatives.foldl (fun expr n => expr ++ opText .not ++ n) (join .and positives)
    .ok (if positives.length + negatives.length > 1 then parens expr else expr)

def endBranches (branches : List Text) : Text :=
  match branches.filter fun part => part ≠ [] with
  | [] => []
  | [part] => part
  | parts => parens (join .or parts)

/-- What was compiled, and the tokens left of `n`. -/
abbrev Parsed (n : Nat) := Text × { rest : List FtsToken // rest.length ≤ n }

def Parsed.widen {n m : Nat} (le : n ≤ m) (r : Parsed n) : Parsed m :=
  (r.1, ⟨r.2.1, r.2.2.trans le⟩)

mutual

def parseAnd (positives negatives : List Text) (pendingNot : Bool) (tokens : List FtsToken) :
    Except FtsError (Parsed tokens.length) :=
  match tokens with
  | [] => (endGroup positives negatives).map fun text => (text, ⟨[], le_rfl⟩)
  | .rparen :: ts => (endGroup positives negatives).map fun text => (text, ⟨.rparen :: ts, le_rfl⟩)
  | .op .or :: ts => (endGroup positives negatives).map fun text => (text, ⟨.op .or :: ts, le_rfl⟩)
  | .op .and :: ts =>
      (parseAnd positives negatives pendingNot ts).map (Parsed.widen (Nat.le_succ _))
  | .op .not :: ts => (parseAnd positives negatives true ts).map (Parsed.widen (Nat.le_succ _))
  | .str value star minus :: ts =>
      let negated := pendingNot || minus
      let operand := operandText expand negated value star
      (if negated then parseAnd positives (negatives ++ [operand]) false ts
        else parseAnd (positives ++ [operand]) negatives false ts).map
          (Parsed.widen (Nat.le_succ _))
  | .lparen :: ts =>
      match parseOr ts with
      | .error e => .error e
      | .ok (operand, ⟨.rparen :: rest, le⟩) =>
          have shorter : rest.length ≤ ts.length := (Nat.le_succ _).trans le
          (if operand = [] then parseAnd positives negatives false rest
            else if pendingNot then parseAnd positives (negatives ++ [operand]) false rest
            else parseAnd (positives ++ [operand]) negatives false rest).map
              (Parsed.widen (shorter.trans (Nat.le_succ _)))
      | .ok _ => .error .missingClose
termination_by (tokens.length, 0)
decreasing_by
  all_goals
    apply Prod.Lex.left
    simp only [List.length_cons]
    omega

def parseOr (tokens : List FtsToken) : Except FtsError (Parsed tokens.length) :=
  match parseAnd [] [] false tokens with
  | .error e => .error e
  | .ok (branch, ⟨rest, le⟩) => (parseBranches [branch] rest).map (Parsed.widen le)
termination_by (tokens.length, 2)
decreasing_by
  · exact Prod.Lex.right _ (by decide)
  · exact Prod.Lex.right' _ le (by decide)

def parseBranches (branches : List Text) (tokens : List FtsToken) :
    Except FtsError (Parsed tokens.length) :=
  match tokens with
  | .op .or :: ts =>
      match parseAnd [] [] false ts with
      | .error e => .error e
      | .ok (branch, ⟨rest, le⟩) =>
          (parseBranches (branches ++ [branch]) rest).map (Parsed.widen (le.trans (Nat.le_succ _)))
  | ts => .ok (endBranches branches, ⟨ts, le_rfl⟩)
termination_by (tokens.length, 1)
decreasing_by
  all_goals
    apply Prod.Lex.left
    simp only [List.length_cons]
    omega

end

def ftsQuery (text : Text) : Except FtsError Text :=
  match parseOr expand (tokenizeFts text) with
  | .error e => .error e
  | .ok (expr, ⟨rest, _⟩) =>
      if rest = [] then .ok (if expr = [] then quoteText [] else expr)
      else .error .unmatchedClose

/-! ## The compiler without its bounds

The parser's results with the bound on what is left forgotten, and one equation a token. -/

def andRun (positives negatives : List Text) (pendingNot : Bool) (tokens : List FtsToken) :
    Except FtsError (Text × List FtsToken) :=
  (parseAnd expand positives negatives pendingNot tokens).map fun r => (r.1, r.2.1)

def orRun (tokens : List FtsToken) : Except FtsError (Text × List FtsToken) :=
  (parseOr expand tokens).map fun r => (r.1, r.2.1)

def branchesRun (branches : List Text) (tokens : List FtsToken) :
    Except FtsError (Text × List FtsToken) :=
  (parseBranches expand branches tokens).map fun r => (r.1, r.2.1)

theorem map_widen {n m : Nat} (le : n ≤ m) (r : Except FtsError (Parsed n)) :
    ((r.map (Parsed.widen le)).map fun r => (r.1, r.2.1)) = r.map fun r => (r.1, r.2.1) := by
  cases r <;> rfl

/-- A group ends at the end, at a closing parenthesis and at `OR`. -/
theorem andRun_end (positives negatives : List Text) (pending : Bool) (stop : List FtsToken)
    (ends : stop = [] ∨ (∃ ts, stop = .rparen :: ts) ∨ ∃ ts, stop = .op .or :: ts) :
    andRun expand positives negatives pending stop
      = (endGroup positives negatives).map fun text => (text, stop) := by
  unfold andRun
  rcases ends with rfl | ⟨ts, rfl⟩ | ⟨ts, rfl⟩ <;>
    rw [parseAnd] <;> cases endGroup positives negatives <;> rfl

theorem andRun_and (positives negatives : List Text) (pending : Bool) (ts : List FtsToken) :
    andRun expand positives negatives pending (.op .and :: ts)
      = andRun expand positives negatives pending ts := by
  unfold andRun
  rw [parseAnd, map_widen]

theorem andRun_not (positives negatives : List Text) (pending : Bool) (ts : List FtsToken) :
    andRun expand positives negatives pending (.op .not :: ts)
      = andRun expand positives negatives true ts := by
  unfold andRun
  rw [parseAnd, map_widen]

theorem andRun_str (positives negatives : List Text) (pending : Bool) (value : Text)
    (star minus : Bool) (ts : List FtsToken) :
    andRun expand positives negatives pending (.str value star minus :: ts)
      = if pending || minus then
          andRun expand positives
            (negatives ++ [operandText expand (pending || minus) value star]) false ts
        else
          andRun expand (positives ++ [operandText expand (pending || minus) value star])
            negatives false ts := by
  unfold andRun
  rw [parseAnd, map_widen]
  split <;> rfl

theorem andRun_lparen (positives negatives : List Text) (pending : Bool) (ts : List FtsToken) :
    andRun expand positives negatives pending (.lparen :: ts)
      = match orRun expand ts with
        | .error e => .error e
        | .ok (operand, .rparen :: rest) =>
            if operand = [] then andRun expand positives negatives false rest
            else if pending then andRun expand positives (negatives ++ [operand]) false rest
            else andRun expand (positives ++ [operand]) negatives false rest
        | .ok _ => .error .missingClose := by
  unfold andRun orRun
  rw [parseAnd]
  cases parseOr expand ts with
  | error e => rfl
  | ok r =>
      obtain ⟨operand, rest, le⟩ := r
      cases rest with
      | nil => rfl
      | cons t rest =>
          cases t with
          | rparen =>
              show ((if operand = [] then _ else if pending then _ else _ :
                Except FtsError (Parsed rest.length)).map _).map _ = _
              rw [map_widen]
              show _ = if operand = [] then _ else if pending then _ else _
              split
              · rfl
              · split <;> rfl
          | op _ => rfl
          | lparen => rfl
          | str _ _ _ => rfl

theorem orRun_eq (ts : List FtsToken) :
    orRun expand ts = (andRun expand [] [] false ts).bind fun r => branchesRun expand [r.1] r.2 := by
  unfold orRun andRun branchesRun
  rw [parseOr]
  cases parseAnd expand [] [] false ts with
  | error e => rfl
  | ok r =>
      obtain ⟨branch, rest, le⟩ := r
      exact map_widen le _

theorem branchesRun_or (branches : List Text) (ts : List FtsToken) :
    branchesRun expand branches (.op .or :: ts)
      = (andRun expand [] [] false ts).bind fun r => branchesRun expand (branches ++ [r.1]) r.2 := by
  unfold andRun branchesRun
  rw [parseBranches]
  cases parseAnd expand [] [] false ts with
  | error e => rfl
  | ok r =>
      obtain ⟨branch, rest, le⟩ := r
      exact map_widen _ _

theorem branchesRun_end (branches : List Text) (stop : List FtsToken)
    (ends : stop = [] ∨ ∃ ts, stop = .rparen :: ts) :
    branchesRun expand branches stop = .ok (endBranches branches, stop) := by
  unfold branchesRun
  rcases ends with rfl | ⟨ts, rfl⟩ <;> rw [parseBranches] <;> first | rfl | simp

theorem ftsQuery_eq (text : Text) :
    ftsQuery expand text = (orRun expand (tokenizeFts text)).bind fun r =>
      if r.2 = [] then .ok (if r.1 = [] then quoteText [] else r.1) else .error .unmatchedClose := by
  unfold ftsQuery orRun
  cases parseOr expand (tokenizeFts text) with
  | error e => rfl
  | ok r => rfl

end Kiagent.Store.FtsQuery
