/-
# Theory.SqlLexer -- SQL text as SQLite reads it

SQLite's tokenizer, in the build without Tcl variables.  A text ends at its first NUL; each
token is as long as its rule allows, and what no rule takes is an illegal token.

Two texts are `Alike` if they are one up to a place where a brace of the first stands for a
quote of the second.  No rule but that of a quoted token tells them apart
(`token_alike`).
-/
import Mathlib

namespace Kiagent.Theory.SqlLexer

set_option autoImplicit false

/-! ## Readers -/

/-- Some text from the front, and the rest. -/
abbrev Reader := List Char → List Char × List Char

namespace Reader

def nothing : Reader := fun z => ([], z)

def taking (p : Char → Bool) : Reader := fun z => z.span p

/-- One reader, and another behind it. -/
def before (first second : Reader) : Reader := fun z =>
  let (text, z) := first z
  let (more, z) := second z
  (text ++ more, z)

end Reader

/-! ## Characters -/

/-- At the start of a token. -/
def isBlank (c : Char) : Bool := c = '\t' || c = '\n' || c = '\x0c' || c = '\r' || c = ' '

def isSpace (c : Char) : Bool := isBlank c || c = '\x0b'

def isDigit (c : Char) : Bool := '0' ≤ c && c ≤ '9'

def isHexDigit (c : Char) : Bool := isDigit c || ('a' ≤ c && c ≤ 'f') || ('A' ≤ c && c ≤ 'F')

def isLetter (c : Char) : Bool := ('a' ≤ c && c ≤ 'z') || ('A' ≤ c && c ≤ 'Z')

/-- Of a name, though a name begins with none of the digits or the dollar sign. -/
def isIdChar (c : Char) : Bool := isLetter c || isDigit c || c = '_' || c = '$' || 128 ≤ c.toNat

def isQuote (c : Char) : Bool := c = '\'' || c = '"' || c = '`'

def isVariableStart (c : Char) : Bool := c = '$' || c = '@' || c = '#' || c = ':'

/-- A digit of a number, or what separates two. -/
def isNumeral (digit : Char → Bool) (c : Char) : Bool := digit c || c = '_'

/-! ## Tokens -/

inductive Kind where
  | space
  | comment
  | string
  | quotedId
  | blob
  | id
  | integer
  | float
  | separated
  | variable_
  | operator
  | illegal
  deriving DecidableEq, Repr

structure Token where
  kind : Kind
  text : List Char
  deriving DecidableEq, Repr

/-- To the closing quote, a doubled one apart; whether there is one. -/
def quoted (d : Char) : List Char → List Char × List Char × Bool
  | [] => ([], [], false)
  | [c] => ([c], [], c = d)
  | c :: c' :: cs =>
      if c = d then
        if c' = d then
          let (text, rest, closed) := quoted d cs
          (c :: c' :: text, rest, closed)
        else ([c], c' :: cs, true)
      else
        let (text, rest, closed) := quoted d (c' :: cs)
        (c :: text, rest, closed)

/-- To the end of a comment. -/
def untilClose : Reader
  | [] => ([], [])
  | [c] => ([c], [])
  | c :: c' :: cs =>
      if c = '*' ∧ c' = '/' then ([c, c'], cs)
      else
        let (text, rest) := untilClose (c' :: cs)
        (c :: text, rest)

/-- To a character and with it; whether there is one. -/
def through (d : Char) (z : List Char) : List Char × List Char × Bool :=
  match z.span (· ≠ d) with
  | (text, c :: rest) => (text ++ [c], rest, true)
  | (text, []) => (text, [], false)

def fraction (digit : Char → Bool) : Reader
  | '.' :: z => (('.' :: (z.span (isNumeral digit)).1), (z.span (isNumeral digit)).2)
  | z => ([], z)

def exponent : Reader
  | c :: d :: z =>
      if (c = 'e' ∨ c = 'E') ∧ (isDigit d ∨ (d = '+' ∨ d = '-') ∧ z.head?.any isDigit) then
        (c :: d :: (z.span (isNumeral isDigit)).1, (z.span (isNumeral isDigit)).2)
      else ([], c :: d :: z)
  | z => ([], z)

def decimal : Reader :=
  (Reader.taking (isNumeral isDigit)).before ((fraction isDigit).before exponent)

def hexadecimal : Reader
  | c :: x :: z => (c :: x :: (z.span (isNumeral isHexDigit)).1, (z.span (isNumeral isHexDigit)).2)
  | z => ([], z)

def startsHex : List Char → Bool
  | c :: x :: h :: _ => c = '0' && (x = 'x' || x = 'X') && isHexDigit h
  | _ => false

def numberKind (text : List Char) (hex : Bool) : Kind :=
  if '_' ∈ text then .separated
  else if hex || text.all isDigit then .integer
  else .float

def number (z : List Char) : Token × List Char :=
  let (text, z') := if startsHex z then hexadecimal z else decimal z
  match z'.span isIdChar with
  | ([], _) => (⟨numberKind text (startsHex z), text⟩, z')
  | (more, rest) => (⟨.illegal, text ++ more⟩, rest)

/-- The longest first. -/
def operators : List (List Char) :=
  ["->>", "->", "-", "==", "=", "<=", "<>", "<<", "<", ">=", ">>", ">", "!=", "||", "|",
    "(", ")", ";", "+", "*", "/", "%", ",", "&", "~", "."].map String.toList

def run (kind : Kind) (p : Char → Bool) (c : Char) (cs : List Char) : Token × List Char :=
  (⟨kind, c :: (cs.span p).1⟩, (cs.span p).2)

def variable_ (c : Char) (cs : List Char) : Token × List Char :=
  (⟨if (cs.span isIdChar).1 = [] then .illegal else .variable_, c :: (cs.span isIdChar).1⟩,
    (cs.span isIdChar).2)

def operator (c : Char) (cs : List Char) : Token × List Char :=
  match operators.find? fun op => op.isPrefixOf (c :: cs) with
  | some op => (⟨.operator, op⟩, (c :: cs).drop op.length)
  | none => (⟨.illegal, [c]⟩, cs)

/-- A token with no delimiters of its own. -/
def bare (c : Char) (cs : List Char) : Token × List Char :=
  if isBlank c then run .space isSpace c cs
  else if isDigit c ∨ c = '.' ∧ cs.head?.any isDigit then number (c :: cs)
  else if c = '?' then run .variable_ isDigit c cs
  else if isVariableStart c then variable_ c cs
  else if c = '\uFEFF' then (⟨.space, [c]⟩, cs)
  else if isIdChar c then run .id isIdChar c cs
  else operator c cs

def lineComment (cs : List Char) : Token × List Char :=
  (⟨.comment, '-' :: '-' :: (cs.span (· ≠ '\n')).1⟩, (cs.span (· ≠ '\n')).2)

def blockComment (cs : List Char) : Token × List Char :=
  (⟨.comment, '/' :: '*' :: (untilClose cs).1⟩, (untilClose cs).2)

def quotedToken (c : Char) (cs : List Char) : Token × List Char :=
  (⟨if (quoted c cs).2.2 then (if c = '\'' then .string else .quotedId) else .illegal,
    c :: (quoted c cs).1⟩, (quoted c cs).2.1)

def bracketed (cs : List Char) : Token × List Char :=
  (⟨if (through ']' cs).2.2 then .quotedId else .illegal, '[' :: (through ']' cs).1⟩,
    (through ']' cs).2.1)

/-- Behind its first quote. -/
def blob (c : Char) (cs : List Char) : Token × List Char :=
  (⟨if (through '\'' cs).2.2 && (through '\'' cs).1.dropLast.all isHexDigit &&
      (through '\'' cs).1.length % 2 = 1 then .blob else .illegal,
    c :: '\'' :: (through '\'' cs).1⟩, (through '\'' cs).2.1)

/-- The first token of a text that is not empty. -/
def token : List Char → Token × List Char
  | [] => (⟨.illegal, []⟩, [])
  | c :: cs =>
      if c = '-' ∧ cs.head? = some '-' then lineComment cs.tail
      else if c = '/' ∧ cs.head? = some '*' ∧ cs ≠ ['*'] then blockComment cs.tail
      else if isQuote c then quotedToken c cs
      else if c = '[' then bracketed cs
      else if (c = 'x' ∨ c = 'X') ∧ cs.head? = some '\'' then blob c cs.tail
      else bare c cs

/-- No delimiter begins here. -/
structure Bare (c : Char) (cs : List Char) : Prop where
  line : ¬ (c = '-' ∧ cs.head? = some '-')
  block : ¬ (c = '/' ∧ cs.head? = some '*' ∧ cs ≠ ['*'])
  quote : isQuote c = false
  bracket : c ≠ '['
  blob : ¬ ((c = 'x' ∨ c = 'X') ∧ cs.head? = some '\'')

/-- Which rule reads a text. -/
inductive Rule : List Char → Token × List Char → Prop where
  | line (cs : List Char) : Rule ('-' :: '-' :: cs) (lineComment cs)
  | block (c : Char) (cs : List Char) : Rule ('/' :: '*' :: c :: cs) (blockComment (c :: cs))
  | quote (c : Char) (cs : List Char) (is : isQuote c) : Rule (c :: cs) (quotedToken c cs)
  | bracket (cs : List Char) : Rule ('[' :: cs) (bracketed cs)
  | blob (c : Char) (cs : List Char) (is : c = 'x' ∨ c = 'X') : Rule (c :: '\'' :: cs) (blob c cs)
  | bare (c : Char) (cs : List Char) (is : Bare c cs) : Rule (c :: cs) (bare c cs)

theorem token_rule (c : Char) (cs : List Char) : Rule (c :: cs) (token (c :: cs)) := by
  rw [token]
  by_cases line : c = '-' ∧ cs.head? = some '-'
  · obtain ⟨rfl, second⟩ := line
    obtain ⟨rest, rfl⟩ := List.head?_eq_some_iff.mp second
    rw [if_pos ⟨rfl, second⟩]
    exact .line rest
  · rw [if_neg line]
    by_cases block : c = '/' ∧ cs.head? = some '*' ∧ cs ≠ ['*']
    · obtain ⟨rfl, second, more⟩ := block
      obtain ⟨rest, rfl⟩ := List.head?_eq_some_iff.mp second
      rw [if_pos ⟨rfl, second, more⟩]
      cases rest with
      | nil => exact absurd rfl more
      | cons d ds => exact .block d ds
    · rw [if_neg block]
      by_cases quote : isQuote c = true
      · rw [if_pos quote]
        exact .quote c cs quote
      · rw [if_neg quote]
        by_cases bracket : c = '['
        · obtain rfl := bracket
          rw [if_pos rfl]
          exact .bracket cs
        · rw [if_neg bracket]
          by_cases blob_ : (c = 'x' ∨ c = 'X') ∧ cs.head? = some '\''
          · obtain ⟨x, second⟩ := blob_
            obtain ⟨rest, rfl⟩ := List.head?_eq_some_iff.mp second
            rw [if_pos ⟨x, second⟩]
            exact .blob c rest x
          · rw [if_neg blob_]
            exact .bare c cs ⟨line, block, Bool.eq_false_iff.mpr quote, bracket, blob_⟩

/-- The tokens of a text without NULs, in so many steps. -/
def tokensIn : Nat → List Char → List Token
  | 0, _ => []
  | _ + 1, [] => []
  | n + 1, c :: cs => (token (c :: cs)).1 :: tokensIn n (token (c :: cs)).2

def lex (z : List Char) : List Token := tokensIn z.length z

/-- What SQLite reads of a text. -/
def cut (z : List Char) : List Char := z.takeWhile (· ≠ '\x00')

def tokens (z : List Char) : List Token := lex (cut z)

/-! ## Nothing is lost -/

def Reader.Whole (R : Reader) : Prop := ∀ z, (R z).1 ++ (R z).2 = z

theorem span_whole (p : Char → Bool) (z : List Char) : (z.span p).1 ++ (z.span p).2 = z := by
  rw [List.span_eq_takeWhile_dropWhile]
  exact List.takeWhile_append_dropWhile

theorem whole_taking (p : Char → Bool) : (Reader.taking p).Whole := span_whole p

theorem whole_before {R S : Reader} (first : R.Whole) (second : S.Whole) : (R.before S).Whole := by
  intro z
  show (R z).1 ++ (S (R z).2).1 ++ (S (R z).2).2 = z
  rw [List.append_assoc, second, first]

theorem whole_fraction (digit : Char → Bool) : (fraction digit : Reader).Whole := by
  intro z
  unfold fraction
  split
  · exact congrArg (_ :: ·) (span_whole _ _)
  · rfl

theorem whole_exponent : Reader.Whole exponent := by
  intro z
  unfold exponent
  split
  · split
    · exact congrArg (fun t => _ :: _ :: t) (span_whole _ _)
    · rfl
  · rfl

theorem whole_hexadecimal : Reader.Whole hexadecimal := by
  intro z
  unfold hexadecimal
  split
  · exact congrArg (fun t => _ :: _ :: t) (span_whole _ _)
  · rfl

theorem quoted_whole (d : Char) (z : List Char) : (quoted d z).1 ++ (quoted d z).2.1 = z := by
  fun_induction quoted d z <;> simp_all

theorem untilClose_whole (z : List Char) : (untilClose z).1 ++ (untilClose z).2 = z := by
  fun_induction untilClose z with
  | case1 => rfl
  | case2 => rfl
  | case3 => rfl
  | case4 c c' cs other text rest read ih => simp_all

theorem through_whole (d : Char) (z : List Char) : (through d z).1 ++ (through d z).2.1 = z := by
  have whole := span_whole (· ≠ d) z
  unfold through
  split
  · rename_i read
    rw [read] at whole
    simpa using whole
  · rename_i read
    rw [read] at whole
    exact whole

theorem number_whole (z : List Char) : (number z).1.text ++ (number z).2 = z := by
  have whole : (if startsHex z then hexadecimal z else decimal z).1 ++
      (if startsHex z then hexadecimal z else decimal z).2 = z := by
    split
    · exact whole_hexadecimal z
    · exact whole_before (whole_taking _) (whole_before (whole_fraction _) whole_exponent) z
  unfold number
  generalize (if startsHex z then hexadecimal z else decimal z) = r at whole
  have trail := span_whole isIdChar r.2
  dsimp only
  split
  · rename_i read
    rw [read] at trail
    exact whole
  · rename_i read
    rw [read] at trail
    show r.1 ++ _ ++ _ = z
    rw [List.append_assoc, trail, whole]

theorem operator_whole (c : Char) (cs : List Char) :
    (operator c cs).1.text ++ (operator c cs).2 = c :: cs := by
  unfold operator
  split
  · rename_i op found
    have first := List.find?_some found
    obtain ⟨rest, whole⟩ := List.isPrefixOf_iff_prefix.mp first
    rw [← whole]
    simp
  · rfl

theorem bare_whole (c : Char) (cs : List Char) :
    (bare c cs).1.text ++ (bare c cs).2 = c :: cs := by
  have span := fun p => congrArg (c :: ·) (span_whole p cs)
  unfold bare
  split
  · exact span _
  · split
    · exact number_whole _
    · split
      · exact span _
      · split
        · exact span _
        · split
          · rfl
          · split
            · exact span _
            · exact operator_whole c cs

/-- **A token and the rest** are the text. -/
theorem token_whole (z : List Char) : (token z).1.text ++ (token z).2 = z := by
  cases z with
  | nil => rfl
  | cons c cs =>
      have rule := token_rule c cs
      generalize token (c :: cs) = r at rule
      cases rule with
      | line cs => exact congrArg (fun t => '-' :: '-' :: t) (span_whole _ cs)
      | block d ds => exact congrArg (fun t => '/' :: '*' :: t) (untilClose_whole (d :: ds))
      | quote c cs is => exact congrArg (c :: ·) (quoted_whole c cs)
      | bracket cs => exact congrArg ('[' :: ·) (through_whole _ _)
      | blob c cs is => exact congrArg (fun t => c :: '\'' :: t) (through_whole _ _)
      | bare c cs is => exact bare_whole c cs

theorem number_some (c : Char) (cs : List Char)
    (first : isDigit c ∨ c = '.' ∧ cs.head?.any isDigit) : (number (c :: cs)).1.text ≠ [] := by
  have some_ : (if startsHex (c :: cs) then hexadecimal (c :: cs) else decimal (c :: cs)).1 ≠ [] := by
    split
    · rename_i hex
      cases cs with
      | nil => cases hex
      | cons x cs => exact List.cons_ne_nil _ _
    · rcases first with digit | ⟨rfl, -⟩
      · have numeral : isNumeral isDigit c = true := by rw [isNumeral, digit, Bool.true_or]
        have taken : (Reader.taking (isNumeral isDigit) (c :: cs)).1 ≠ [] := by
          rw [Reader.taking, List.span_eq_takeWhile_dropWhile, List.takeWhile_cons_of_pos numeral]
          exact List.cons_ne_nil _ _
        exact fun empty => taken (List.append_eq_nil_iff.mp empty).1
      · intro empty
        have later := (List.append_eq_nil_iff.mp empty).2
        cases (List.append_eq_nil_iff.mp later).1
  unfold number
  generalize (if startsHex (c :: cs) then hexadecimal (c :: cs) else decimal (c :: cs)) = r at some_
  dsimp only
  split
  · exact some_
  · exact fun empty => some_ (List.append_eq_nil_iff.mp empty).1

theorem operator_some (c : Char) (cs : List Char) : (operator c cs).1.text ≠ [] := by
  unfold operator
  split
  · rename_i op found
    have listed := List.mem_of_find?_eq_some found
    intro empty
    obtain rfl : op = [] := empty
    exact absurd listed (by decide)
  · exact List.cons_ne_nil _ _

theorem bare_some (c : Char) (cs : List Char) : (bare c cs).1.text ≠ [] := by
  unfold bare
  split
  · exact List.cons_ne_nil _ _
  · split
    · rename_i first
      exact number_some c cs first
    · repeat' split
      all_goals first | exact List.cons_ne_nil _ _ | exact operator_some c cs

theorem token_some (c : Char) (cs : List Char) : (token (c :: cs)).1.text ≠ [] := by
  have rule := token_rule c cs
  generalize token (c :: cs) = r at rule
  cases rule with
  | bare c cs is => exact bare_some c cs
  | _ => exact List.cons_ne_nil _ _

theorem token_shorter (c : Char) (cs : List Char) :
    (token (c :: cs)).2.length < (c :: cs).length := by
  have whole := congrArg List.length (token_whole (c :: cs))
  have some_ := List.length_pos_iff.mpr (token_some c cs)
  rw [List.length_append] at whole
  omega

theorem tokensIn_enough (n : Nat) : ∀ (m : Nat) (z : List Char), z.length ≤ n → z.length ≤ m →
    tokensIn n z = tokensIn m z := by
  induction n with
  | zero =>
      intro m z le _
      obtain rfl := List.length_eq_zero_iff.mp (Nat.le_zero.mp le)
      cases m <;> rfl
  | succ n ih =>
      intro m z le le'
      cases z with
      | nil => cases m <;> rfl
      | cons c cs =>
          cases m with
          | zero => cases le'
          | succ m =>
              have less := token_shorter c cs
              rw [tokensIn, tokensIn, ih m _ (by omega) (by omega)]

/-- **The tokens of a text**: the first, and those of the rest. -/
theorem lex_cons (c : Char) (cs : List Char) :
    lex (c :: cs) = (token (c :: cs)).1 :: lex (token (c :: cs)).2 := by
  have less := token_shorter c cs
  rw [List.length_cons] at less
  show tokensIn (cs.length + 1) (c :: cs) = _
  rw [tokensIn, lex, tokensIn_enough cs.length _ _ (by omega) (le_refl _)]

/-! ## Texts that are alike -/

/-- Two texts up to a brace for a quote. -/
inductive Alike : List Char → List Char → Prop where
  | nil : Alike [] []
  | cons (c : Char) {z z' : List Char} (rest : Alike z z') : Alike (c :: z) (c :: z')
  | fork (z z' : List Char) : Alike ('{' :: z) ('"' :: z')

/-- It looks at no brace and no quote. -/
def Blind (p : Char → Bool) : Prop := p '{' = false ∧ p '"' = false

def Reader.Respects (R : Reader) : Prop :=
  ∀ z z', Alike z z' → (R z').1 = (R z).1 ∧ Alike (R z).2 (R z').2

theorem respects_span {p : Char → Bool} (blind : Blind p) {z z' : List Char} (alike : Alike z z') :
    (z'.span p).1 = (z.span p).1 ∧ Alike (z.span p).2 (z'.span p).2 := by
  rw [List.span_eq_takeWhile_dropWhile, List.span_eq_takeWhile_dropWhile]
  dsimp only
  induction alike with
  | nil => exact ⟨rfl, .nil⟩
  | cons c rest ih =>
      cases is : p c with
      | true =>
          rw [List.takeWhile_cons_of_pos is, List.takeWhile_cons_of_pos is,
            List.dropWhile_cons_of_pos is, List.dropWhile_cons_of_pos is, ih.1]
          exact ⟨rfl, ih.2⟩
      | false =>
          have not_ := Bool.eq_false_iff.mp is
          rw [List.takeWhile_cons_of_neg not_, List.takeWhile_cons_of_neg not_,
            List.dropWhile_cons_of_neg not_, List.dropWhile_cons_of_neg not_]
          exact ⟨rfl, .cons c rest⟩
  | fork z z' =>
      have brace := Bool.eq_false_iff.mp blind.1
      have quote := Bool.eq_false_iff.mp blind.2
      rw [List.takeWhile_cons_of_neg brace, List.takeWhile_cons_of_neg quote,
        List.dropWhile_cons_of_neg brace, List.dropWhile_cons_of_neg quote]
      exact ⟨rfl, .fork z z'⟩

theorem respects_before {R S : Reader} (first : R.Respects) (second : S.Respects) :
    (R.before S).Respects := by
  intro z z' alike
  obtain ⟨same, rest⟩ := first z z' alike
  obtain ⟨same', rest'⟩ := second _ _ rest
  refine ⟨?_, rest'⟩
  show (R z').1 ++ (S (R z').2).1 = (R z).1 ++ (S (R z).2).1
  rw [same, same']

/-- What is looked for at the front is there in both. -/
theorem Alike.any {p : Char → Bool} (blind : Blind p) {z z' : List Char} (alike : Alike z z') :
    z'.head?.any p = z.head?.any p := by
  cases alike with
  | nil => rfl
  | cons c rest => rfl
  | fork z z' => simp [blind.1, blind.2]

theorem fraction_other (digit : Char → Bool) {c : Char} (other : c ≠ '.') (z : List Char) :
    fraction digit (c :: z) = ([], c :: z) := by
  unfold fraction
  split
  · rename_i dot
    exact absurd (List.cons.inj dot).1 other
  · rfl

theorem respects_fraction {digit : Char → Bool} (blind : Blind (isNumeral digit)) :
    Reader.Respects (fraction digit) := by
  intro z z' alike
  cases alike with
  | nil => exact ⟨rfl, .nil⟩
  | fork z z' => exact ⟨rfl, .fork z z'⟩
  | @cons c z z' rest =>
      by_cases dot : c = '.'
      · obtain rfl := dot
        obtain ⟨same, rest'⟩ := respects_span blind rest
        exact ⟨congrArg ('.' :: ·) same, rest'⟩
      · rw [fraction_other digit dot, fraction_other digit dot]
        exact ⟨rfl, .cons c rest⟩

theorem blind_digit : Blind isDigit := ⟨by decide, by decide⟩

theorem blind_numeral : Blind (isNumeral isDigit) := ⟨by decide, by decide⟩

theorem blind_hex : Blind (isNumeral isHexDigit) := ⟨by decide, by decide⟩

theorem blind_id : Blind isIdChar := ⟨by decide, by decide⟩

theorem blind_space : Blind isSpace := ⟨by decide, by decide⟩

theorem respects_exponent : Reader.Respects exponent := by
  intro z z' alike
  cases alike with
  | nil => exact ⟨rfl, .nil⟩
  | fork z z' =>
      cases z <;> cases z' <;> exact ⟨rfl, .fork _ _⟩
  | @cons c z z' rest =>
      cases rest with
      | nil => exact ⟨rfl, .cons c .nil⟩
      | fork z z' =>
          have neither : ∀ (d : Char) (t : List Char), isDigit d = false → d ≠ '+' → d ≠ '-' →
              exponent (c :: d :: t) = ([], c :: d :: t) := by
            intro d t digit plus minus
            exact if_neg fun e => by
              rcases e.2 with is | is
              · rw [digit] at is
                cases is
              · exact is.1.elim plus minus
          rw [neither '{' z (by decide) (by decide) (by decide),
            neither '"' z' (by decide) (by decide) (by decide)]
          exact ⟨rfl, .cons c (.fork z z')⟩
      | @cons d z z' rest =>
          have ahead := rest.any blind_digit
          obtain ⟨same, rest'⟩ := respects_span blind_numeral rest
          by_cases is : (c = 'e' ∨ c = 'E') ∧
              (isDigit d ∨ (d = '+' ∨ d = '-') ∧ z.head?.any isDigit)
          · have is' := is
            rw [← ahead] at is'
            have taken : ∀ t : List Char, (c = 'e' ∨ c = 'E') ∧
                (isDigit d ∨ (d = '+' ∨ d = '-') ∧ t.head?.any isDigit) →
                exponent (c :: d :: t) = (c :: d :: (t.span (isNumeral isDigit)).1,
                  (t.span (isNumeral isDigit)).2) := fun t is => if_pos is
            rw [taken z is, taken z' is', same]
            exact ⟨rfl, rest'⟩
          · have is' := is
            rw [← ahead] at is'
            have left : ∀ t : List Char, ¬ ((c = 'e' ∨ c = 'E') ∧
                (isDigit d ∨ (d = '+' ∨ d = '-') ∧ t.head?.any isDigit)) →
                exponent (c :: d :: t) = ([], c :: d :: t) := fun t is => if_neg is
            rw [left z is, left z' is']
            exact ⟨rfl, .cons c (.cons d rest)⟩

theorem Alike.startsHex {z z' : List Char} (alike : Alike z z') : startsHex z' = startsHex z := by
  cases alike with
  | nil => rfl
  | fork z z' =>
      cases z with
      | nil => cases z' with
        | nil => rfl
        | cons _ t => cases t <;> rfl
      | cons _ t => cases t <;> cases z' with
        | nil => rfl
        | cons _ t => cases t <;> rfl
  | @cons c z z' rest =>
      cases rest with
      | nil => rfl
      | fork z z' => cases z <;> cases z' <;> simp [SqlLexer.startsHex]
      | @cons d z z' rest =>
          have ahead := rest.any (p := isHexDigit) ⟨by decide, by decide⟩
          cases z <;> cases z' <;> simp_all [SqlLexer.startsHex]

theorem respects_number {z z' : List Char} (alike : Alike z z') :
    (number z').1 = (number z).1 ∧ Alike (number z).2 (number z').2 := by
  have digits : (if SqlLexer.startsHex z' then hexadecimal z' else decimal z').1
        = (if SqlLexer.startsHex z then hexadecimal z else decimal z).1 ∧
      Alike (if SqlLexer.startsHex z then hexadecimal z else decimal z).2
        (if SqlLexer.startsHex z' then hexadecimal z' else decimal z').2 := by
    rw [alike.startsHex]
    split
    · rename_i hex
      cases alike with
      | nil => cases hex
      | fork z z' =>
          cases z with
          | nil => cases hex
          | cons x z => cases z <;> simp [SqlLexer.startsHex] at hex
      | @cons c z z' rest =>
          cases rest with
          | nil => cases hex
          | fork z z' => cases z <;> simp [SqlLexer.startsHex] at hex
          | @cons x z z' rest =>
              obtain ⟨same, rest'⟩ := respects_span blind_hex rest
              exact ⟨congrArg (fun t => c :: x :: t) same, rest'⟩
    · exact respects_before (fun _ _ => respects_span blind_numeral)
        (respects_before (respects_fraction blind_numeral) respects_exponent) z z' alike
  have trail := respects_span blind_id digits.2
  unfold number
  rw [alike.startsHex] at digits trail ⊢
  generalize (if SqlLexer.startsHex z then hexadecimal z else decimal z) = r at digits trail
  generalize (if SqlLexer.startsHex z then hexadecimal z' else decimal z') = r' at digits trail
  obtain ⟨same, rest⟩ := digits
  obtain ⟨text, z₁⟩ := r
  obtain ⟨text', z₁'⟩ := r'
  dsimp only at same rest trail ⊢
  obtain rfl := same
  generalize z₁.span isIdChar = q at trail
  generalize z₁'.span isIdChar = q' at trail
  obtain ⟨more, z₂⟩ := q
  obtain ⟨more', z₂'⟩ := q'
  obtain ⟨same, rest'⟩ := trail
  dsimp only at same rest'
  obtain rfl := same
  cases more' with
  | nil => exact ⟨rfl, rest⟩
  | cons d ds => exact ⟨rfl, rest'⟩

theorem Alike.front {op : List Char} (plain : '{' ∉ op ∧ '"' ∉ op) {z z' : List Char}
    (alike : Alike z z') : op.isPrefixOf z' = op.isPrefixOf z ∧
      (op.isPrefixOf z = true → Alike (z.drop op.length) (z'.drop op.length)) := by
  induction op generalizing z z' with
  | nil => exact ⟨rfl, fun _ => alike⟩
  | cons c op ih =>
      have behind : '{' ∉ op ∧ '"' ∉ op :=
        ⟨fun mem => plain.1 (List.mem_cons_of_mem _ mem),
          fun mem => plain.2 (List.mem_cons_of_mem _ mem)⟩
      cases alike with
      | nil => exact ⟨rfl, nofun⟩
      | @cons d z z' rest =>
          obtain ⟨same, later⟩ := ih behind rest
          rw [List.isPrefixOf, List.isPrefixOf, same]
          refine ⟨rfl, fun is => later ?_⟩
          rw [Bool.and_eq_true] at is
          exact is.2
      | fork z z' =>
          have brace : c ≠ '{' := fun same => plain.1 (same ▸ List.mem_cons_self)
          have quote : c ≠ '"' := fun same => plain.2 (same ▸ List.mem_cons_self)
          rw [List.isPrefixOf, List.isPrefixOf, beq_false_of_ne brace, beq_false_of_ne quote]
          exact ⟨rfl, nofun⟩

theorem operators_plain : ∀ op ∈ operators, '{' ∉ op ∧ '"' ∉ op := by decide +kernel

theorem respects_operator (c : Char) {z z' : List Char} (alike : Alike z z') :
    (operator c z').1 = (operator c z).1 ∧ Alike (operator c z).2 (operator c z').2 := by
  have whole : Alike (c :: z) (c :: z') := .cons c alike
  have same : operators.find? (fun op => op.isPrefixOf (c :: z'))
      = operators.find? fun op => op.isPrefixOf (c :: z) :=
    List.find?_congr fun op mem => (whole.front (operators_plain op mem)).1
  unfold operator
  rw [same]
  split
  · rename_i op found
    exact ⟨rfl, (whole.front (operators_plain op (List.mem_of_find?_eq_some found))).2
      (List.find?_some (p := fun op : List Char => op.isPrefixOf (c :: z)) found)⟩
  · exact ⟨rfl, alike⟩

theorem respects_run (kind : Kind) {p : Char → Bool} (blind : Blind p) (c : Char)
    {z z' : List Char} (alike : Alike z z') :
    (run kind p c z').1 = (run kind p c z).1 ∧ Alike (run kind p c z).2 (run kind p c z').2 := by
  obtain ⟨same, rest⟩ := respects_span blind alike
  refine ⟨?_, rest⟩
  unfold run
  rw [same]

/-- **A token with no delimiters** is the same in texts that are alike. -/
theorem respects_bare (c : Char) {z z' : List Char} (alike : Alike z z') :
    (bare c z').1 = (bare c z).1 ∧ Alike (bare c z).2 (bare c z').2 := by
  unfold bare
  rw [alike.any blind_digit]
  split
  · exact respects_run _ blind_space c alike
  · split
    · exact respects_number (.cons c alike)
    · split
      · exact respects_run _ blind_digit c alike
      · split
        · obtain ⟨same, rest⟩ := respects_span blind_id alike
          refine ⟨?_, rest⟩
          unfold variable_
          rw [same]
        · split
          · exact ⟨rfl, alike⟩
          · split
            · exact respects_run _ blind_id c alike
            · exact respects_operator c alike

theorem Alike.head {z z' : List Char} (alike : Alike z z') {c : Char} (plain : c ≠ '{' ∧ c ≠ '"') :
    z'.head? = some c ↔ z.head? = some c := by
  cases alike with
  | nil => exact Iff.rfl
  | cons d rest => exact Iff.rfl
  | fork z z' =>
      exact ⟨fun same => absurd (Option.some.inj same).symm plain.2,
        fun same => absurd (Option.some.inj same).symm plain.1⟩

/-- A quote is behind a quote or a brace. -/
theorem Alike.quote {z z' : List Char} (alike : Alike z z') :
    z'.head? = some '"' → z.head? = some '"' ∨ z.head? = some '{' := by
  intro same
  cases alike with
  | nil => cases same
  | cons d rest => exact Or.inl same
  | fork z z' => exact Or.inr rfl

theorem Alike.append (t : List Char) {z z' : List Char} (alike : Alike z z') :
    Alike (t ++ z) (t ++ z') := by
  induction t with
  | nil => exact alike
  | cons c t ih => exact .cons c ih

theorem Bare.alike {c : Char} {z z' : List Char} (bare : Bare c z) (alike : Alike z z') :
    Bare c z' := by
  refine ⟨?_, ?_, bare.quote, bare.bracket, ?_⟩
  · rw [alike.head (by decide)]
    exact bare.line
  · rintro ⟨slash, star, more⟩
    rw [alike.head (by decide)] at star
    refine bare.block ⟨slash, star, fun last => more ?_⟩
    subst last
    cases alike with
    | cons _ rest => cases rest; rfl
  · rw [alike.head (by decide)]
    exact bare.blob

theorem token_bare {c : Char} {cs : List Char} (is : Bare c cs) : token (c :: cs) = bare c cs := by
  rw [token, if_neg is.line, if_neg is.block, if_neg (Bool.eq_false_iff.mp is.quote),
    if_neg is.bracket, if_neg is.blob]

/-! ## Tokens with delimiters, before another text -/

theorem span_append {p : Char → Bool} {z : List Char} {r : List Char}
    (stops : ∀ c, r.head? = some c → p c = false) :
    ((z.span p).1 ++ r).span p = ((z.span p).1, r) := by
  rw [List.span_eq_takeWhile_dropWhile, List.span_eq_takeWhile_dropWhile]
  dsimp only
  induction z with
  | nil =>
      cases r with
      | nil => rfl
      | cons c r =>
          have not_ := Bool.eq_false_iff.mp (stops c rfl)
          rw [List.takeWhile_nil, List.nil_append, List.takeWhile_cons_of_neg not_,
            List.dropWhile_cons_of_neg not_]
  | cons c z ih =>
      cases is : p c with
      | true =>
          rw [List.takeWhile_cons_of_pos is, List.cons_append, List.takeWhile_cons_of_pos is,
            List.dropWhile_cons_of_pos is]
          exact Prod.ext (congrArg (c :: ·) (Prod.mk.inj ih).1) (Prod.mk.inj ih).2
      | false =>
          rw [List.takeWhile_cons_of_neg (Bool.eq_false_iff.mp is), List.nil_append]
          cases r with
          | nil => rfl
          | cons d r =>
              have not_ := Bool.eq_false_iff.mp (stops d rfl)
              rw [List.takeWhile_cons_of_neg not_, List.dropWhile_cons_of_neg not_]

/-- A span ends where its characters do. -/
theorem span_stops (p : Char → Bool) (z : List Char) :
    ∀ c, (z.span p).2.head? = some c → p c = false := by
  rw [List.span_eq_takeWhile_dropWhile]
  intro c first
  dsimp only at first
  have none_ := List.head?_dropWhile_not p z
  rw [first] at none_
  exact none_

theorem quoted_other {c d : Char} (other : c ≠ d) (t : List Char) :
    quoted d (c :: t) = (c :: (quoted d t).1, (quoted d t).2) := by
  cases t with
  | nil => simp [quoted, other]
  | cons c' t => rw [quoted, if_neg other]

theorem quoted_double (d : Char) (t : List Char) :
    quoted d (d :: d :: t) = (d :: d :: (quoted d t).1, (quoted d t).2) := by
  rw [quoted, if_pos rfl, if_pos rfl]

theorem quoted_last {d : Char} {t : List Char} (next : t.head? ≠ some d) :
    quoted d (d :: t) = ([d], t, true) := by
  cases t with
  | nil => simp [quoted]
  | cons c t =>
      have other : c ≠ d := fun same => next (by rw [same]; rfl)
      rw [quoted, if_pos rfl, if_neg other]

/-- A text without the quote, in quotes. -/
theorem quoted_plain {d : Char} {t : List Char} (plain : d ∉ t) {r : List Char}
    (next : r.head? ≠ some d) : quoted d (t ++ d :: r) = (t ++ [d], r, true) := by
  induction t with
  | nil => exact quoted_last next
  | cons c t ih =>
      have other : c ≠ d := fun same => plain (same ▸ List.mem_cons_self)
      rw [List.cons_append, quoted_other other, ih fun mem => plain (List.mem_cons_of_mem _ mem)]
      rfl

/-- How a quoted text goes on. -/
theorem quoted_cases (d : Char) (z : List Char) :
    (quoted d z = (z, [], false)) ∨
      ((quoted d z).2.2 = true ∧ (quoted d z).2.1.head? ≠ some d ∧
        (∀ r : List Char, r.head? ≠ some d →
          quoted d ((quoted d z).1 ++ r) = ((quoted d z).1, r, true)) ∧
        ∀ r : List Char, quoted d ((quoted d z).1 ++ d :: r) =
          ((quoted d z).1 ++ d :: (quoted d r).1, (quoted d r).2)) := by
  generalize size : z.length = n
  induction n using Nat.strong_induction_on generalizing z with
  | _ n ih =>
      cases z with
      | nil => exact Or.inl rfl
      | cons c t =>
          by_cases is : c = d
          · obtain rfl := is
            by_cases next : t.head? = some c
            · obtain ⟨t, rfl⟩ := List.head?_eq_some_iff.mp next
              rw [quoted_double]
              rcases ih t.length (by rw [← size, List.length_cons, List.length_cons]; omega) t rfl
                with open_ | ⟨closed, behind, last, further⟩
              · rw [open_]
                exact Or.inl rfl
              · refine Or.inr ⟨closed, behind, fun r first => ?_, fun r => ?_⟩
                · rw [List.cons_append, List.cons_append, quoted_double, last r first]
                · rw [List.cons_append, List.cons_append, quoted_double, further r]
                  rfl
            · rw [quoted_last next]
              refine Or.inr ⟨rfl, next, fun r first => quoted_last first, fun r => ?_⟩
              exact quoted_double c r
          · rw [quoted_other is]
            rcases ih t.length (by rw [← size, List.length_cons]; omega) t rfl
              with open_ | ⟨closed, behind, last, further⟩
            · rw [open_]
              exact Or.inl rfl
            · refine Or.inr ⟨closed, behind, fun r first => ?_, fun r => ?_⟩
              · rw [List.cons_append, quoted_other is, last r first]
              · rw [List.cons_append, quoted_other is, further r]
                rfl

theorem untilClose_open {c c' : Char} (open_ : ¬ (c = '*' ∧ c' = '/')) (t : List Char) :
    untilClose (c :: c' :: t) = (c :: (untilClose (c' :: t)).1, (untilClose (c' :: t)).2) := by
  rw [untilClose, if_neg open_]

theorem untilClose_first (c : Char) (t : List Char) :
    ∃ more, (untilClose (c :: t)).1 = c :: more := by
  cases t with
  | nil => exact ⟨[], rfl⟩
  | cons c' t =>
      by_cases close : c = '*' ∧ c' = '/'
      · rw [untilClose, if_pos close]
        exact ⟨[c'], rfl⟩
      · rw [untilClose_open close]
        exact ⟨_, rfl⟩

theorem untilClose_cases (z : List Char) :
    (untilClose z = (z, [])) ∨
      ∀ r : List Char, untilClose ((untilClose z).1 ++ r) = ((untilClose z).1, r) := by
  fun_induction untilClose z with
  | case1 => exact Or.inl rfl
  | case2 => exact Or.inl rfl
  | case3 c c' cs close =>
      refine Or.inr fun r => ?_
      obtain ⟨rfl, rfl⟩ := close
      rfl
  | case4 c c' cs open_ text rest read ih =>
      rw [read] at ih
      rcases ih with whole | again
      · exact Or.inl (by rw [(Prod.mk.inj whole).1, (Prod.mk.inj whole).2])
      · refine Or.inr fun r => ?_
        obtain ⟨more, first⟩ := untilClose_first c' cs
        rw [read] at first
        dsimp only at first again ⊢
        have here := again r
        rw [first, List.cons_append] at here
        rw [first]
        show untilClose (c :: c' :: (more ++ r)) = _
        rw [untilClose_open open_, here]

theorem through_cases (d : Char) (z : List Char) :
    (through d z = (z, [], false)) ∨
      ∀ r : List Char, through d ((through d z).1 ++ r) = ((through d z).1, r, true) := by
  have whole := span_whole (· ≠ d) z
  have stops := span_stops (· ≠ d) z
  have again := @span_append (· ≠ d) z
  unfold through
  generalize z.span (· ≠ d) = q at whole stops again
  obtain ⟨text, rest⟩ := q
  cases rest with
  | nil =>
      rw [List.append_nil] at whole
      exact Or.inl (by rw [← whole])
  | cons c rest =>
      obtain rfl : c = d := by simpa using stops c rfl
      refine Or.inr fun r => ?_
      dsimp only
      have here := again (r := c :: r) (by simp)
      dsimp only at here
      rw [List.append_assoc, List.singleton_append, here]

theorem token_line (t : List Char) : token ('-' :: '-' :: t) = lineComment t := by
  rw [token, if_pos ⟨rfl, rfl⟩]
  rfl

theorem token_block (c : Char) (t : List Char) :
    token ('/' :: '*' :: c :: t) = blockComment (c :: t) := by
  rw [token, if_neg fun both => absurd both.1 (by decide), if_pos ⟨rfl, rfl, by simp⟩]
  rfl

theorem token_quote {c : Char} (is : isQuote c = true) (t : List Char) :
    token (c :: t) = quotedToken c t := by
  have other : c ≠ '-' ∧ c ≠ '/' := by
    constructor <;> (rintro rfl; cases is)
  rw [token, if_neg fun both => other.1 both.1, if_neg fun both => other.2 both.1, if_pos is]

theorem token_bracket (t : List Char) : token ('[' :: t) = bracketed t := rfl

theorem token_blob {c : Char} (is : c = 'x' ∨ c = 'X') (t : List Char) :
    token (c :: '\'' :: t) = blob c t := by
  rcases is with rfl | rfl <;> rfl

theorem Alike.stops {p : Char → Bool} (brace : p '{' = true) {z z' : List Char}
    (alike : Alike z z') (stops : ∀ c, z.head? = some c → p c = false) :
    ∀ c, z'.head? = some c → p c = false := by
  cases alike with
  | nil => exact stops
  | cons d rest => exact stops
  | fork z z' =>
      have not_ := stops '{' rfl
      rw [brace] at not_
      cases not_

/-- **Before a text that begins as the rest did**, a token is read as it was; a quoted one, if
its quote is not doubled now. -/
theorem token_kept {c : Char} {cs out : List Char} (alike : Alike (token (c :: cs)).2 out)
    (quote : isQuote c = true → out.head? ≠ some c) :
    token ((token (c :: cs)).1.text ++ out) = ((token (c :: cs)).1, out) := by
  have whole := token_whole (c :: cs)
  by_cases last : (token (c :: cs)).2 = []
  · rw [last] at alike whole
    cases alike
    rw [whole, ← last]
  · have rule := token_rule c cs
    generalize token (c :: cs) = r at rule alike whole last
    cases rule with
    | line t =>
        have again : ((t.span (· ≠ '\n')).1 ++ out).span (· ≠ '\n') = ((t.span (· ≠ '\n')).1, out) :=
          span_append (alike.stops (by decide) (span_stops (· ≠ '\n') t))
        show token ('-' :: '-' :: ((t.span (· ≠ '\n')).1 ++ out)) = _
        rw [token_line, lineComment, again]
        rfl
    | block d t =>
        rcases untilClose_cases (d :: t) with open_ | again
        · exact absurd (Prod.mk.inj open_).2 last
        · obtain ⟨more, first⟩ := untilClose_first d t
          have here := again out
          rw [first, List.cons_append] at here
          show token ('/' :: '*' :: ((untilClose (d :: t)).1 ++ out)) = _
          rw [first, List.cons_append, token_block, blockComment, here, blockComment, first]
    | quote _ _ is =>
        rcases quoted_cases c cs with open_ | ⟨closed, -, again, -⟩
        · exact absurd (congrArg (fun q => q.2.1) open_) last
        · show token (c :: ((quoted c cs).1 ++ out)) = _
          rw [token_quote is, quotedToken, again out (quote is), quotedToken, closed]
    | bracket =>
        rcases through_cases ']' cs with open_ | again
        · exact absurd (congrArg (fun q => q.2.1) open_) last
        · have closed : (through ']' cs).2.2 = true := by
            have here := again (through ']' cs).2.1
            rw [through_whole] at here
            rw [here]
          show token ('[' :: ((through ']' cs).1 ++ out)) = _
          rw [token_bracket, bracketed, again out, bracketed, closed]
    | blob _ t is =>
        rcases through_cases '\'' t with open_ | again
        · exact absurd (congrArg (fun q => q.2.1) open_) last
        · have closed : (through '\'' t).2.2 = true := by
            have here := again (through '\'' t).2.1
            rw [through_whole] at here
            rw [here]
          show token (c :: '\'' :: ((through '\'' t).1 ++ out)) = _
          rw [token_blob is, blob, again out, blob, closed]
    | bare _ _ is =>
        obtain ⟨d, text, first⟩ := List.exists_cons_of_ne_nil (bare_some c cs)
        rw [first, List.cons_append] at whole
        obtain ⟨rfl, whole⟩ := List.cons.inj whole
        have alike' := alike.append text
        rw [whole] at alike'
        obtain ⟨kept, -⟩ := respects_bare d alike'
        have whole' := bare_whole d (text ++ out)
        rw [kept, first, List.cons_append] at whole'
        rw [first, List.cons_append, token_bare (is.alike alike')]
        exact Prod.ext kept (List.append_cancel_left (List.cons.inj whole').2)

/-- A quote behind a quoted text doubles its last, and it goes on. -/
theorem token_further {c : Char} {cs : List Char} (quote : isQuote c = true)
    (closed : (token (c :: cs)).2 ≠ []) (more : List Char) :
    (token ((token (c :: cs)).1.text ++ c :: more)).1.text ≠ (token (c :: cs)).1.text := by
  rw [token_quote quote] at closed ⊢
  rcases quoted_cases c cs with open_ | ⟨-, -, -, further⟩
  · exact absurd (congrArg (fun q => q.2.1) open_) closed
  · show (token (c :: ((quoted c cs).1 ++ c :: more))).1.text ≠ c :: (quoted c cs).1
    rw [token_quote quote, quotedToken, further]
    intro same
    have size := congrArg List.length (List.cons.inj same).2
    simp at size

/-- No quote of its own stands behind a quoted token. -/
theorem token_behind {c : Char} (quote : isQuote c = true) (cs : List Char) :
    (token (c :: cs)).2.head? ≠ some c := by
  rw [token_quote quote, quotedToken]
  rcases quoted_cases c cs with open_ | ⟨-, behind, -⟩
  · rw [open_]
    exact nofun
  · exact behind

theorem token_head (c : Char) (cs out : List Char) :
    ((token (c :: cs)).1.text ++ out).head? = some c := by
  have whole := token_whole (c :: cs)
  obtain ⟨d, text, first⟩ := List.exists_cons_of_ne_nil (token_some c cs)
  rw [first] at whole ⊢
  rw [← (List.cons.inj whole).1]
  rfl

end Kiagent.Theory.SqlLexer
