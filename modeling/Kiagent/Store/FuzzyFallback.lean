/-
# Store.FuzzyFallback -- substring hits behind a short page

Where the exact pass leaves the first page short, `extractTerms` reads the search text
again with a pattern of its own, and the page is filled with documents that contain its
positive terms as substrings and none of its negated ones.

The two patterns cut a text differently only behind a phrase's star (`Clean`).  Where they
cut alike, the second reading negates what the compiler negates exactly if each term that a
`NOT` reaches stands right behind it (`Scoped`): an empty phrase or word uses the second
reading's `NOT` up, and a negated parenthesis does not reach its other terms.
-/
import Kiagent.Store.FtsReading
import Kiagent.Store.SearchPages

namespace Kiagent.Store.FuzzyFallback

open Kiagent.Theory Kiagent.Theory.MatchExpr FtsQuery SearchIndex

set_option autoImplicit false

/-! ## The second reading -/

/-- Lower case, and the folding of the index: tables of the engine's.  A line break is a
letter of neither. -/
structure Folding where
  toLowerCase : Text → Text
  foldForNegation : Text → Text
  toLowerCase_nil (t : Text) : toLowerCase t = [] ↔ t = []
  fold_lines (a b : Text) :
    foldForNegation (a ++ '\n' :: b) = foldForNegation a ++ '\n' :: foldForNegation b

/-- `"([^"]*)"` -/
def closedQuote : Text → Option (Text × Text)
  | '"' :: cs =>
      match cs.dropWhile (fun c => c ≠ '"') with
      | [] => none
      | _ :: rest => some (cs.takeWhile (fun c => c ≠ '"'), rest)
  | _ => none

/-- `(-)?` and the phrase, its mark first. -/
def quotedTerm : Text → Option (Bool × Text × Text)
  | '-' :: cs => (closedQuote cs).map fun q => (true, q)
  | cs => (closedQuote cs).map fun q => (false, q)

theorem closedQuote_rest {text body rest : Text} (found : closedQuote text = some (body, rest)) :
    rest.length < text.length := by
  unfold closedQuote at found
  split at found
  · rename_i cs
    split at found
    · cases found
    · rename_i c rest' after
      have part : (c :: rest').length ≤ cs.length := after ▸ List.length_dropWhile_le _ _
      cases found
      simp only [List.length_cons] at *
      omega
  · cases found

theorem quotedTerm_rest {text body rest : Text} {minus : Bool}
    (found : quotedTerm text = some (minus, body, rest)) : rest.length < text.length := by
  unfold quotedTerm at found
  split at found
  · rename_i cs
    obtain ⟨q, quoted, same⟩ := Option.map_eq_some_iff.mp found
    cases same
    have shorter := closedQuote_rest quoted
    simp only [List.length_cons]
    omega
  · obtain ⟨q, quoted, same⟩ := Option.map_eq_some_iff.mp found
    cases same
    exact closedQuote_rest quoted

variable (F : Folding)

/-- `(neg ? negated : positive).push(term)`, of a term that is not empty. -/
def pushed (neg : Bool) (raw : Text) : List (Bool × Text) :=
  let term := F.toLowerCase (trim raw)
  if term = [] then [] else [(neg, term)]

/-- What is pushed from left to right. -/
def extracted (pendingNot : Bool) (text : Text) : List (Bool × Text) :=
  match text with
  | [] => []
  | c :: cs =>
      match _found : quotedTerm (c :: cs) with
      | some (minus, body, rest) =>
          pushed F (pendingNot || minus) body ++ extracted false rest
      | none =>
          if c = '(' || c = ')' || isSpace c then extracted pendingNot cs
          else
            let word := (c :: cs).takeWhile wordChar
            let rest := cs.dropWhile wordChar
            match wordOp word with
            | some .not => extracted true rest
            | some _ => extracted pendingNot rest
            | none =>
                let minus := word.head? = some '-'
                let raw := if minus then word.tail else word
                pushed F (pendingNot || minus) (bareWord raw) ++ extracted false rest
termination_by text.length
decreasing_by
  · exact quotedTerm_rest _found
  · simp
  all_goals
    have shorter := List.length_dropWhile_le wordChar cs
    simp only [List.length_cons]
    omega

structure QueryTerms where
  positive : List Text
  negated : List Text
  deriving DecidableEq

def extractTerms (text : Text) : QueryTerms where
  positive := ((extracted F false text).filter fun p => !p.1).map Prod.snd
  negated := ((extracted F false text).filter fun p => p.1).map Prod.snd

/-! ## The first reading, with what it drops -/

/-- Behind a phrase's star: a phrase, a minus or an operator, which the second reading
takes together with the star for one word. -/
def glues (rest : Text) : Bool :=
  (quotedTerm rest).isSome || (rest.takeWhile wordChar).head? = some '-' ||
    (wordOp (rest.takeWhile wordChar)).isSome

/-- A match of the tokens' pattern; an empty phrase or word makes no token. -/
structure Found where
  token : Option FtsToken
  glued : Bool

def found (text : Text) : List Found :=
  match text with
  | [] => []
  | c :: cs =>
      match _found : phraseAt (c :: cs) with
      | some p => ⟨phraseToken p, p.star && glues p.rest⟩ :: found p.rest
      | none =>
          if c = '(' then ⟨some .lparen, false⟩ :: found cs
          else if c = ')' then ⟨some .rparen, false⟩ :: found cs
          else if isSpace c then found cs
          else ⟨wordToken ((c :: cs).takeWhile wordChar), false⟩ :: found (cs.dropWhile wordChar)
termination_by text.length
decreasing_by
  · exact phraseAt_rest _found
  · simp
  · simp
  · simp
  · have shorter := List.length_dropWhile_le wordChar cs
    simp only [List.length_cons]
    omega

def items (text : Text) : List (Option FtsToken) := (found text).map Found.token

/-- No phrase, minus or operator right behind a phrase's star. -/
def Clean (text : Text) : Prop := ∀ m ∈ found text, m.glued = false

instance (text : Text) : Decidable (Clean text) := inferInstanceAs (Decidable (∀ m ∈ found text, _))

theorem found_phrase {text : Text} {p : Phrase} (phrase : phraseAt text = some p) :
    found text = ⟨phraseToken p, p.star && glues p.rest⟩ :: found p.rest := by
  cases text with
  | nil => cases phrase
  | cons c cs =>
      rw [found]
      split
      · rename_i p' phrase'
        rw [phrase] at phrase'
        cases phrase'
        rfl
      · rename_i none_
        rw [phrase] at none_
        cases none_

theorem found_other {c : Char} {cs : Text} (other : phraseAt (c :: cs) = none) :
    found (c :: cs) =
      if c = '(' then ⟨some .lparen, false⟩ :: found cs
      else if c = ')' then ⟨some .rparen, false⟩ :: found cs
      else if isSpace c then found cs
      else ⟨wordToken ((c :: cs).takeWhile wordChar), false⟩ :: found (cs.dropWhile wordChar) := by
  rw [found]
  split
  · rename_i p phrase
    rw [other] at phrase
    cases phrase
  · rfl

/-- The tokens are what is found, less what is dropped. -/
theorem tokenizeFts_items (text : Text) : tokenizeFts text = (items text).reduceOption := by
  induction h : text.length using Nat.strong_induction_on generalizing text with
  | h n ih =>
      unfold items
      cases text with
      | nil => rw [tokenizeFts, found]; rfl
      | cons c cs =>
          rw [tokenizeFts]
          split
          · rename_i p phrase
            rw [found_phrase phrase, ih _ (h ▸ phraseAt_rest phrase) p.rest rfl, List.map_cons]
            cases phraseToken p <;> rfl
          · rename_i other
            have after : (cs.dropWhile wordChar).length < n := by
              have shorter := List.length_dropWhile_le wordChar cs
              simp only [List.length_cons] at h
              omega
            have next := ih cs.length (by simp only [List.length_cons] at h; omega) cs rfl
            rw [found_other other, next, ih _ after _ rfl]
            split
            · rfl
            · split
              · rfl
              · split
                · rfl
                · rw [List.map_cons]
                  cases wordToken ((c :: cs).takeWhile wordChar) <;> rfl

/-! ## Where both cut alike -/

theorem extracted_quoted {text body rest : Text} {minus : Bool}
    (quoted : quotedTerm text = some (minus, body, rest)) (pendingNot : Bool) :
    extracted F pendingNot text = pushed F (pendingNot || minus) body ++ extracted F false rest := by
  cases text with
  | nil => cases quoted
  | cons c cs =>
      rw [extracted]
      split
      · rename_i quoted'
        rw [quoted] at quoted'
        cases quoted'
        rfl
      · rename_i none_
        rw [quoted] at none_
        cases none_

theorem extracted_other {c : Char} {cs : Text} (other : quotedTerm (c :: cs) = none)
    (pendingNot : Bool) :
    extracted F pendingNot (c :: cs) =
      if c = '(' || c = ')' || isSpace c then extracted F pendingNot cs
      else
        match wordOp ((c :: cs).takeWhile wordChar) with
        | some .not => extracted F true (cs.dropWhile wordChar)
        | some _ => extracted F pendingNot (cs.dropWhile wordChar)
        | none =>
            let word := (c :: cs).takeWhile wordChar
            let minus := word.head? = some '-'
            pushed F (pendingNot || minus) (bareWord (if minus then word.tail else word))
              ++ extracted F false (cs.dropWhile wordChar) := by
  rw [extracted]
  split
  · rename_i quoted
    rw [other] at quoted
    cases quoted
  · rfl

/-- The compiler's phrase, of what follows the quotes. -/
def starred (minus : Bool) (body rest : Text) : Phrase :=
  match rest.dropWhile isSpace with
  | '*' :: rest => ⟨minus, body, true, rest⟩
  | rest => ⟨minus, body, false, rest⟩

theorem starred_cases (minus : Bool) (body rest : Text) :
    (∃ after, rest.dropWhile isSpace = '*' :: after ∧
      starred minus body rest = ⟨minus, body, true, after⟩) ∨
      starred minus body rest = ⟨minus, body, false, rest.dropWhile isSpace⟩ := by
  unfold starred
  split
  · rename_i after star
    exact Or.inl ⟨after, star, rfl⟩
  · exact Or.inr rfl

theorem quotedAt_eq (minus : Bool) (text : Text) :
    quotedAt minus text = (closedQuote text).map fun q => starred minus q.1 q.2 := by
  cases text with
  | nil => rfl
  | cons c cs =>
      by_cases quote : c = '"'
      · subst quote
        show (match cs.dropWhile (fun c => c ≠ '"') with | [] => _ | _ :: rest => _ : Option Phrase)
          = Option.map _ (match cs.dropWhile (fun c => c ≠ '"') with | [] => _ | _ :: rest => _)
        generalize cs.dropWhile (fun c => c ≠ '"') = after
        cases after with
        | nil => rfl
        | cons c rest =>
            simp only [Option.map_some, starred]
            generalize rest.dropWhile isSpace = rest
            cases rest with
            | nil => rfl
            | cons d rest =>
                by_cases star : d = '*'
                · subst star
                  rfl
                · simp [star]
      · simp [quotedAt, closedQuote, quote]

theorem phraseAt_eq (text : Text) :
    phraseAt text = (quotedTerm text).map fun q => starred q.1 q.2.1 q.2.2 := by
  cases text with
  | nil => rfl
  | cons c cs =>
      by_cases minus : c = '-'
      · subst minus
        show quotedAt true cs = ((closedQuote cs).map _).map _
        rw [quotedAt_eq, Option.map_map]
        rfl
      · have plain : quotedTerm (c :: cs) = (closedQuote (c :: cs)).map fun q => (false, q) := by
          simp [quotedTerm, minus]
        have same : phraseAt (c :: cs) = quotedAt false (c :: cs) := by simp [phraseAt, minus]
        rw [plain, same, quotedAt_eq, Option.map_map]
        rfl

/-- A phrase begins with a quote, or a minus and a quote. -/
theorem quotedTerm_none {c : Char} {cs : Text} (quote : c ≠ '"') (minus : c ≠ '-') :
    quotedTerm (c :: cs) = none := by
  simp [quotedTerm, closedQuote, quote, minus]

theorem extracted_spaces (pendingNot : Bool) (text : Text) :
    extracted F pendingNot (text.dropWhile isSpace) = extracted F pendingNot text := by
  induction text with
  | nil => rfl
  | cons c cs ih =>
      by_cases space : isSpace c = true
      · have other : quotedTerm (c :: cs) = none :=
          quotedTerm_none (fun same => absurd (same ▸ space) (by decide))
            (fun same => absurd (same ▸ space) (by decide))
        rw [List.dropWhile_cons_of_pos space, ih, extracted_other F other, if_pos (by simp [space])]
      · rw [List.dropWhile_cons_of_neg space]

theorem pushed_nil (neg : Bool) : pushed F neg [] = [] := by
  simp [pushed, trim, (F.toLowerCase_nil []).mpr rfl]

theorem pushed_some (neg : Bool) {raw : Text} (some_ : trim raw ≠ []) :
    pushed F neg raw = [(neg, F.toLowerCase (trim raw))] :=
  if_neg fun none_ => some_ ((F.toLowerCase_nil _).mp none_)

/-- A star that glues nothing is no term. -/
theorem extracted_star {rest : Text} (free : glues rest = false) :
    extracted F false ('*' :: rest) = extracted F false rest := by
  simp only [glues, Bool.or_eq_false_iff] at free
  obtain ⟨⟨noQuote, noMinus⟩, noOp⟩ := free
  have starWord : ('*' :: rest).takeWhile wordChar = '*' :: rest.takeWhile wordChar :=
    List.takeWhile_cons_of_pos (by decide)
  have noStarOp : wordOp ('*' :: rest.takeWhile wordChar) = none := by simp [wordOp]
  have bare : bareWord ('*' :: rest.takeWhile wordChar) = bareWord (rest.takeWhile wordChar) := by
    simp [bareWord]
  rw [extracted_other F (quotedTerm_none (by decide) (by decide)), starWord, noStarOp]
  show pushed F false (bareWord ('*' :: rest.takeWhile wordChar)) ++ _ = _
  rw [bare]
  cases rest with
  | nil => exact congrArg (· ++ _) (pushed_nil F false)
  | cons c cs =>
      by_cases word : wordChar c = true
      · have other : quotedTerm (c :: cs) = none := by simpa using noQuote
        have plain : wordOp ((c :: cs).takeWhile wordChar) = none := by simpa using noOp
        have dark : (decide (c = '(') || decide (c = ')') || isSpace c) = false := by
          simp only [wordChar, Bool.and_eq_true, Bool.not_eq_true', decide_eq_true_eq] at word
          simp [word]
        rw [extracted_other F other, dark, plain, List.dropWhile_cons_of_pos word]
        simp only [of_decide_eq_false noMinus, if_false, Bool.false_eq_true]
        rfl
      · rw [List.takeWhile_cons_of_neg word, List.dropWhile_cons_of_neg word]
        exact congrArg (· ++ _) (pushed_nil F false)

/-- The second reading of the compiler's items: `seen` says that a `NOT` was read after the
last term. -/
def readAs (seen : Bool) : List (Option FtsToken) → List (Bool × Text)
  | [] => []
  | none :: ms => readAs false ms
  | some (.op .not) :: ms => readAs true ms
  | some (.str value _ minus) :: ms => (seen || minus, F.toLowerCase value) :: readAs false ms
  | some _ :: ms => readAs seen ms

theorem trim_word {word : Text} (dark : ∀ c ∈ word, isSpace c = false) : trim word = word := by
  have keep : ∀ t : Text, (∀ c ∈ t, isSpace c = false) → t.dropWhile isSpace = t := by
    intro t dark
    cases t with
    | nil => rfl
    | cons c cs => exact List.dropWhile_cons_of_neg (by simp [dark c List.mem_cons_self])
  rw [trim, keep word dark, keep _ fun c member => dark c (List.mem_reverse.mp member),
    List.reverse_reverse]

/-- A word is read alike: as an operator, as nothing or as a term. -/
theorem readAs_word (seen : Bool) (word : Text) (dark : ∀ c ∈ word, isSpace c = false)
    (rest : Bool → List (Bool × Text)) (ms : List (Option FtsToken))
    (back : ∀ seen, rest seen = readAs F seen ms) :
    (match wordOp word with
      | some .not => rest true
      | some _ => rest seen
      | none =>
          pushed F (seen || decide (word.head? = some '-'))
            (bareWord (if word.head? = some '-' then word.tail else word)) ++ rest false)
      = readAs F seen (wordToken word :: ms) := by
  unfold wordToken
  cases operator : wordOp word with
  | some o => cases o <;> exact back _
  | none =>
      have bareDark : ∀ w : Text, (∀ c ∈ w, c ∈ word) →
          trim (bareWord w) = bareWord w :=
        fun w part => trim_word fun c member => dark c (part c (List.mem_of_mem_filter member))
      have raw : trim (bareWord (if word.head? = some '-' then word.tail else word))
          = bareWord (if word.head? = some '-' then word.tail else word) := by
        split
        · exact bareDark _ fun c => List.mem_of_mem_tail
        · exact bareDark _ fun c member => member
      by_cases blank : bareWord (if word.head? = some '-' then word.tail else word) = []
      · simp [blank, pushed_nil, readAs, back]
      · simp only
        rw [pushed_some F _ (raw.symm ▸ blank), raw, back, if_neg blank]
        rfl

/-- **Of a clean text both readings have the same terms**, and the second is a reading of
the first's items. -/
theorem extracted_items (text : Text) :
    ∀ seen, Clean text → extracted F seen text = readAs F seen (items text) := by
  induction h : text.length using Nat.strong_induction_on generalizing text with
  | h n ih =>
      intro seen clean
      unfold items
      cases quoted : quotedTerm text with
      | some q =>
          obtain ⟨minus, body, rest⟩ := q
          have shorter := quotedTerm_rest quoted
          have phrase : phraseAt text = some (starred minus body rest) := by
            rw [phraseAt_eq, quoted]
            rfl
          have item := found_phrase phrase
          have term : ∀ star more,
              pushed F (seen || minus) body ++ readAs F false more
                = readAs F seen (phraseToken ⟨minus, body, star, []⟩ :: more) := by
            intro star more
            by_cases blank : trim body = []
            · simp [phraseToken, blank, readAs, pushed, (F.toLowerCase_nil []).mpr rfl]
            · rw [pushed_some F _ blank]
              simp [phraseToken, blank, readAs]
          have part : (rest.dropWhile isSpace).length ≤ rest.length := List.length_dropWhile_le _ _
          rw [extracted_quoted F quoted, ← extracted_spaces]
          unfold Clean at clean
          rcases starred_cases minus body rest with ⟨after, star, is_⟩ | is_
          · rw [is_] at item
            rw [item, List.forall_mem_cons] at clean
            have glued : glues after = false := by simpa using clean.1
            rw [star, List.length_cons] at part
            have back := ih after.length (by omega) after rfl false clean.2
            rw [star, extracted_star F glued, back, item]
            exact term true _
          · rw [is_] at item
            rw [item, List.forall_mem_cons] at clean
            rw [ih (rest.dropWhile isSpace).length (by omega) _ rfl false clean.2, item]
            exact term false _
      | none =>
          have other : phraseAt text = none := by rw [phraseAt_eq, quoted]; rfl
          cases text with
          | nil => rw [extracted, found]; rfl
          | cons c cs =>
              have after : (cs.dropWhile wordChar).length < n := by
                have shorter := List.length_dropWhile_le wordChar cs
                simp only [List.length_cons] at h
                omega
              have next := ih cs.length (by simp only [List.length_cons] at h; omega) cs rfl
              have back := ih _ after _ rfl
              unfold Clean at clean
              rw [found_other other] at clean ⊢
              rw [extracted_other F quoted]
              by_cases left : c = '('
              · rw [if_pos left] at clean ⊢
                rw [if_pos (by simp [left]), next seen fun m member =>
                  clean m (List.mem_cons_of_mem _ member)]
                rfl
              · by_cases right : c = ')'
                · rw [if_neg left, if_pos right] at clean ⊢
                  rw [if_pos (by simp [right]), next seen fun m member =>
                    clean m (List.mem_cons_of_mem _ member)]
                  rfl
                · by_cases space : isSpace c = true
                  · rw [if_neg left, if_neg right, if_pos space] at clean ⊢
                    rw [if_pos (by simp [space]), next seen clean]
                    rfl
                  · rw [if_neg left, if_neg right, if_neg space] at clean ⊢
                    have rest := fun seen => back seen fun m member =>
                      clean m (List.mem_cons_of_mem _ member)
                    rw [if_neg (by simp [left, right, space]), List.map_cons]
                    refine readAs_word F seen _ (fun d member => ?_) _ _ rest
                    have letter := List.mem_takeWhile_imp member
                    simp only [wordChar, Bool.and_eq_true, Bool.not_eq_true'] at letter
                    exact letter.1.1

/-! ## What the parse subtracts -/

/-- The terms of groups, and those of them that are subtracted: a negated operand is with
all its terms. -/
def wholeTerms (groups : List (Operands (List Text × List Text))) : List Text × List Text :=
  (groups.flatMap fun g => g.positives.flatMap Prod.fst ++ g.negatives.flatMap Prod.fst,
    groups.flatMap fun g => g.positives.flatMap Prod.snd ++ g.negatives.flatMap Prod.fst)

def subtracted (ps : Pieces) : List Text :=
  (wholeTerms (pass (fun _ value _ => ([value], [])) wholeTerms ps Walk.start).groups).2

/-- The terms from left to right, each with the parse's mark: its own minus, a `NOT` that
waits for it, or a negated parenthesis around it. -/
def marks (under pending : Bool) : Pieces → List (Bool × Text)
  | .nil => []
  | .op .and rest => marks under pending rest
  | .op .or rest => marks under false rest
  | .op .not rest => marks under true rest
  | .str value _ minus rest => (under || pending || minus, value) :: marks under false rest
  | .paren body rest => marks (under || pending) false body ++ marks under false rest

/-- The terms are the same under any marks, and in a negated parenthesis all are marked. -/
theorem mem_marks_under (ps : Pieces) (v : Text) :
    ∀ under pending pending',
      ((true, v) ∈ marks true pending ps ↔ ∃ mark, (mark, v) ∈ marks under pending' ps) := by
  induction ps with
  | nil => simp [marks]
  | op o rest ih =>
      intro under pending pending'
      cases o
      · exact ih under pending pending'
      · exact ih under false false
      · exact ih under true true
  | str value star minus rest ih =>
      intro under pending pending'
      simp only [marks, List.mem_cons, Bool.true_or, Prod.mk.injEq, true_and, ih under false false,
        exists_or]
      simp
  | paren body rest ihBody ih =>
      intro under pending pending'
      simp only [marks, List.mem_append, Bool.true_or, ihBody (under || pending') false false,
        ih under false false, exists_or]

theorem marks_bare (ps : Pieces) (bare : ps.bare = true) :
    ∀ under pending, marks under pending ps = [] := by
  induction ps with
  | nil => intro under pending; rfl
  | op o rest ih =>
      intro under pending
      cases o <;> exact ih bare under _
  | str value star minus rest _ => cases bare
  | paren body rest ihBody ih =>
      intro under pending
      rw [Pieces.bare, Bool.and_eq_true] at bare
      rw [marks, ihBody bare.1, ih bare.2, List.append_nil]

theorem mem_wholeTerms_push (w : Walk (List Text × List Text)) (negated : Bool)
    (x : List Text × List Text) (v : Text) :
    (v ∈ (wholeTerms (w.push negated x).groups).1 ↔ v ∈ (wholeTerms w.groups).1 ∨ v ∈ x.1) ∧
      (v ∈ (wholeTerms (w.push negated x).groups).2 ↔
        v ∈ (wholeTerms w.groups).2 ∨ v ∈ if negated then x.1 else x.2) := by
  unfold Walk.groups wholeTerms
  cases negated <;>
    simp only [Walk.push, List.flatMap_append, List.flatMap_singleton, List.mem_append,
      Bool.false_eq_true, if_false, if_true] <;>
    constructor <;> tauto

/-- The parse subtracts the terms it marks. -/
theorem mem_pass_terms (ps : Pieces) (v : Text) :
    ∀ w : Walk (List Text × List Text),
      (v ∈ (wholeTerms (pass (fun _ value _ => ([value], [])) wholeTerms ps w).groups).1 ↔
        v ∈ (wholeTerms w.groups).1 ∨ ∃ mark, (mark, v) ∈ marks false w.pending ps) ∧
      (v ∈ (wholeTerms (pass (fun _ value _ => ([value], [])) wholeTerms ps w).groups).2 ↔
        v ∈ (wholeTerms w.groups).2 ∨ (true, v) ∈ marks false w.pending ps) := by
  induction ps with
  | nil => intro w; simp [FtsQuery.pass, marks]
  | op o rest ih =>
      intro w
      cases o with
      | and => exact ih w
      | not => exact ih { w with pending := true }
      | or =>
          have next := ih ⟨w.groups, ⟨[], []⟩, false⟩
          have same : wholeTerms (⟨w.groups, ⟨[], []⟩, false⟩ : Walk _).groups
              = wholeTerms w.groups := by
            show wholeTerms (w.groups ++ [⟨[], []⟩]) = _
            simp [wholeTerms]
          rw [same] at next
          exact next
  | str value star minus rest ih =>
      intro w
      have next := ih (w.push (w.pending || minus) ([value], []))
      obtain ⟨all, negated⟩ := mem_wholeTerms_push w (w.pending || minus) ([value], []) v
      rw [all, negated] at next
      have idle : (w.push (w.pending || minus) ([value], [])).pending = false := rfl
      rw [idle] at next
      simp only [FtsQuery.pass, marks, List.mem_cons, Bool.false_or, Prod.mk.injEq, exists_or]
      refine ⟨next.1.trans ?_, next.2.trans ?_⟩
      · simp [or_assoc]
      · cases w.pending || minus <;> simp [or_assoc]
  | paren body rest ihBody ih =>
      intro w
      by_cases bare : body.bare = true
      · simp only [FtsQuery.pass, if_pos bare, marks, marks_bare body bare, List.nil_append]
        exact ih { w with pending := false }
      · -- The parenthesis is one operand: with its own marks, or subtracted with all its terms.
        have inside := ihBody Walk.start
        have next := ih (w.push w.pending (wholeTerms
          (FtsQuery.pass (fun _ value _ => ([value], [])) wholeTerms body Walk.start).groups))
        obtain ⟨all, negated⟩ := mem_wholeTerms_push w w.pending (wholeTerms
          (FtsQuery.pass (fun _ value _ => ([value], [])) wholeTerms body Walk.start).groups) v
        have none_ : v ∉ (wholeTerms (Walk.start : Walk (List Text × List Text)).groups).1 ∧
            v ∉ (wholeTerms (Walk.start : Walk (List Text × List Text)).groups).2 := by
          simp [wholeTerms, Walk.start, Walk.groups]
        have idle : ∀ x : List Text × List Text, (w.push w.pending x).pending = false := fun _ => rfl
        rw [all, negated, idle] at next
        rw [or_iff_right none_.1, or_iff_right none_.2] at inside
        have clear : (Walk.start : Walk (List Text × List Text)).pending = false := rfl
        rw [clear] at inside
        simp only [FtsQuery.pass, if_neg bare, marks, List.mem_append, Bool.false_or, exists_or]
        refine ⟨next.1.trans ?_, next.2.trans ?_⟩
        · rw [or_assoc, inside.1]
          have same : (∃ mark, (mark, v) ∈ marks false false body)
              ↔ ∃ mark, (mark, v) ∈ marks w.pending false body :=
            (mem_marks_under body v false false false).symm.trans
              (mem_marks_under body v w.pending false false)
          rw [same]
        · rw [or_assoc]
          cases w.pending with
          | false => rw [if_neg Bool.false_ne_true, inside.2]
          | true => rw [if_pos rfl, inside.1, mem_marks_under body v false false false]

theorem mem_subtracted (ps : Pieces) (v : Text) :
    v ∈ subtracted ps ↔ (true, v) ∈ marks false false ps := by
  refine (mem_pass_terms ps v Walk.start).2.trans (or_iff_right ?_)
  simp [wholeTerms, Walk.start, Walk.groups]

/-! ## The scope of a `NOT` in both readings -/

/-- The parse's marks from the tokens: `outer` holds what is around each open parenthesis. -/
def scopes (under : Bool) (outer : List Bool) (pending : Bool) :
    List FtsToken → List (Bool × Text)
  | [] => []
  | .op .and :: ts => scopes under outer pending ts
  | .op .or :: ts => scopes under outer false ts
  | .op .not :: ts => scopes under outer true ts
  | .lparen :: ts => scopes (under || pending) (under :: outer) false ts
  | .rparen :: ts => scopes (outer.headD false) outer.tail false ts
  | .str value _ minus :: ts => (under || pending || minus, value) :: scopes under outer false ts

theorem scopes_flat (ps : Pieces) :
    ∀ (under : Bool) (outer : List Bool) (pending : Bool) (tail : List FtsToken),
      (tail = [] ∨ ∃ ts, tail = .rparen :: ts) →
        scopes under outer pending (ps.flat ++ tail)
          = marks under pending ps ++ scopes under outer false tail := by
  induction ps with
  | nil =>
      intro under outer pending tail ends
      rcases ends with rfl | ⟨ts, rfl⟩ <;> rfl
  | op o rest ih =>
      intro under outer pending tail ends
      cases o <;> exact ih under outer _ tail ends
  | str value star minus rest ih =>
      intro under outer pending tail ends
      exact congrArg (_ :: ·) (ih under outer false tail ends)
  | paren body rest ihBody ih =>
      intro under outer pending tail ends
      have regroup : (Pieces.paren body rest).flat ++ tail
          = .lparen :: (body.flat ++ .rparen :: (rest.flat ++ tail)) := by
        simp [Pieces.flat]
      rw [regroup, scopes, ihBody _ _ _ _ (Or.inr ⟨_, rfl⟩), marks, List.append_assoc,
        ← ih under outer false tail ends]
      rfl

/-- Every term that a `NOT` reaches, and that has no minus of its own, comes with nothing
between it and a `NOT` but `AND`, `OR` and parentheses. -/
def scopedFrom (under : Bool) (outer : List Bool) (pending seen : Bool) :
    List (Option FtsToken) → Bool
  | [] => true
  | none :: ms => scopedFrom under outer pending false ms
  | some (.op .and) :: ms => scopedFrom under outer pending seen ms
  | some (.op .or) :: ms => scopedFrom under outer false seen ms
  | some (.op .not) :: ms => scopedFrom under outer true true ms
  | some .lparen :: ms => scopedFrom (under || pending) (under :: outer) false seen ms
  | some .rparen :: ms => scopedFrom (outer.headD false) outer.tail false seen ms
  | some (.str _ _ minus) :: ms =>
      (!(under || pending) || minus || seen) && scopedFrom under outer false false ms

def Scoped (text : Text) : Prop := scopedFrom false [] false false (items text) = true

instance (text : Text) : Decidable (Scoped text) := inferInstanceAs (Decidable (_ = _))

/-- Term for term the same, and negated by the second reading where by the first. -/
def Keeps (first second : List (Bool × Text)) : Prop :=
  List.Forall₂ (fun a b => b.2 = F.toLowerCase a.2 ∧ (a.1 = true → b.1 = true)) first second

theorem keeps_iff (ms : List (Option FtsToken)) :
    ∀ (under : Bool) (outer : List Bool) (pending seen : Bool),
      Keeps F (scopes under outer pending ms.reduceOption) (readAs F seen ms) ↔
        scopedFrom under outer pending seen ms = true := by
  induction ms with
  | nil => intro under outer pending seen; simp [Keeps, scopes, readAs, scopedFrom]
  | cons m ms ih =>
      intro under outer pending seen
      cases m with
      | none => exact ih under outer pending false
      | some t =>
          cases t with
          | op o => cases o <;> exact ih under outer _ _
          | lparen => exact ih _ _ false seen
          | rparen => exact ih _ _ false seen
          | str value star minus =>
              have rest := ih under outer false false
              show List.Forall₂ _ (_ :: _) (_ :: _) ↔ _
              rw [List.forall₂_cons, scopedFrom, Bool.and_eq_true, ← rest]
              refine and_congr_left fun _ => ?_
              cases under <;> cases pending <;> cases minus <;> cases seen <;> simp

/-- What the extracted lists hold is what was pushed. -/
theorem mem_extractTerms (text t : Text) :
    (t ∈ (extractTerms F text).negated ↔ (true, t) ∈ extracted F false text) ∧
      (t ∈ (extractTerms F text).positive ↔ (false, t) ∈ extracted F false text) := by
  simp [extractTerms]

theorem keeps_negated {first second : List (Bool × Text)} (keeps : Keeps F first second) {v : Text}
    (marked : (true, v) ∈ first) : (true, F.toLowerCase v) ∈ second := by
  obtain ⟨n, lt, here⟩ := List.getElem_of_mem marked
  have lt' : n < second.length := keeps.length_eq ▸ lt
  obtain ⟨same, mark⟩ := keeps.get lt lt'
  simp only [List.get_eq_getElem, here] at same mark
  have pair : second[n] = (true, F.toLowerCase v) := Prod.ext (mark trivial) same
  exact pair ▸ List.getElem_mem lt'

theorem keeps_positive {first second : List (Bool × Text)} (keeps : Keeps F first second) {t : Text}
    (plain : (false, t) ∈ second) : ∃ v, (false, v) ∈ first ∧ t = F.toLowerCase v := by
  obtain ⟨n, lt, here⟩ := List.getElem_of_mem plain
  have lt' : n < first.length := keeps.length_eq.symm ▸ lt
  obtain ⟨same, mark⟩ := keeps.get lt' lt
  simp only [List.get_eq_getElem, here] at same mark
  refine ⟨first[n].2, ?_, same⟩
  have pair : first[n] = (false, first[n].2) :=
    Prod.ext (Bool.eq_false_iff.mpr fun marked => absurd (mark marked) (by decide)) rfl
  exact pair ▸ List.getElem_mem lt'

/-! ## The fallback -/

/-- `\w` -/
def wordLetter (c : Char) : Bool := c.isAlphanum || c = '_'

/-- `/\bNOT\s*\(/`, behind a letter or not. -/
def groupedNot (behind : Bool) : Text → Bool
  | [] => false
  | c :: cs =>
      (!behind && "NOT".toList.isPrefixOf (c :: cs) &&
        decide ((((c :: cs).drop 3).dropWhile isSpace).head? = some '(')) ||
          groupedNot (wordLetter c) cs

def length16 (t : Text) : Nat := utf16Length (String.ofList t)

def toTrigramMatch (terms : List Text) : Option Text :=
  let usable := terms.filter fun t => 3 ≤ length16 t
  if usable = [] then none else some (join .and (usable.map quoteText))

/-- The expression of the fallback, where it runs: all positive terms take part, no
parenthesis is negated, and the bodies are there to be searched for negated terms. -/
def triMatch (metadata : Bool) (text : Text) : Option Text :=
  let terms := extractTerms F text
  if terms.positive.all (fun t => 3 ≤ length16 t) && !groupedNot false text &&
      !(metadata && terms.negated ≠ []) then
    toTrigramMatch terms.positive
  else none

def FUZZY_CANDIDATES : Nat := 100

/-- What the exact pass left of the page. -/
structure ShortPage where
  metadata : Bool
  exactIds : List DocumentId
  offset : Nat
  limit : Nat

variable (s : SearchStore) (trigram : Text → TriRow → Bool) (keep : DocRow → Bool)

/-- `fuzzyCandidatesSql`: the newest matches that the filters keep. -/
def fuzzyCandidates (tri : Text) : List DocRow :=
  ((sortBy (fun r : TriRow => OrderDual.toDual r.rowid) (s.tri.rows.filter (trigram tri))).filterMap
    fun r => (s.doc [.text r.docId]).filter keep).take FUZZY_CANDIDATES

def textOf (t : Option String) : Text := (t.getD "").toList

/-- A candidate without one of the negated terms; its body is selected where there are
some. -/
def unnegated (negated : List Text) (d : DocRow) : Bool :=
  let markdown := if negated = [] then none else d.markdown
  let haystack := F.foldForNegation (textOf d.title ++ '\n' :: textOf markdown)
  !(negated.map F.foldForNegation).any fun n => n <:+: haystack

/-- A title that contains a positive term, then the date, both the greatest first. -/
def rankFuzzyCandidates (positiveFolded : List Text) (cands : List DocRow) : List DocRow :=
  let titleHit := fun d : DocRow =>
    if positiveFolded.any (fun p => p <:+: F.foldForNegation (textOf d.title)) then 1 else 0
  sortBy (fun d => (toLex (OrderDual.toDual (titleHit d), OrderDual.toDual (SearchPages.originDate d)) :
    Natᵒᵈ ×ₗ Natᵒᵈ)) cands

def pickFuzzyWinners (exactIds ranked : List DocumentId) (free : Nat) : List DocumentId :=
  (ranked.filter fun id => id ∉ exactIds).take free

/-- The rows appended to the exact ones. -/
def fuzzyHits (call : ShortPage) (text : Text) : List DocRow :=
  if call.offset > 0 || call.exactIds.length ≥ call.limit then []
  else
    match triMatch F call.metadata text with
    | none => []
    | some tri =>
        let terms := extractTerms F text
        let safe := (fuzzyCandidates s trigram keep tri).filter (unnegated F terms.negated)
        let ranked := rankFuzzyCandidates F (terms.positive.map F.foldForNegation) safe
        let winnerIds := pickFuzzyWinners call.exactIds (ranked.map DocRow.id)
          (call.limit - call.exactIds.length)
        winnerIds.filterMap fun id => s.doc [.text id]

/-- The title or the body has the term in it, as the index folds them. -/
def Contains (d : DocRow) (t : Text) : Prop :=
  F.foldForNegation t <:+: F.foldForNegation (textOf d.title) ∨
    F.foldForNegation t <:+: F.foldForNegation (textOf d.markdown)

theorem unnegated_spec {negated : List Text} {d : DocRow} (safe : unnegated F negated d = true)
    {n : Text} (member : n ∈ negated) : ¬ Contains F d n := by
  intro contains
  have some_ : negated ≠ [] := List.ne_nil_of_mem member
  simp only [unnegated, if_neg some_, Bool.not_eq_true', List.any_eq_false, List.mem_map,
    forall_exists_index, and_imp, forall_apply_eq_imp_iff₂, decide_eq_true_eq, F.fold_lines] at safe
  refine safe n member ?_
  rcases contains with inTitle | inBody
  · exact inTitle.trans (List.infix_append_left)
  · exact inBody.trans ((List.suffix_cons _ _).isInfix.trans (List.suffix_append _ _).isInfix)

/-- A row appended is a candidate without a negated term. -/
theorem fuzzyHits_safe {call : ShortPage} {text : Text} {d : DocRow}
    (hit : d ∈ fuzzyHits F s trigram keep call text) :
    ∀ n ∈ (extractTerms F text).negated, ¬ Contains F d n := by
  unfold fuzzyHits at hit
  split at hit
  · cases hit
  · split at hit
    · cases hit
    · rename_i tri _
      obtain ⟨id, winner, row⟩ := List.mem_filterMap.mp hit
      have ranked := List.mem_of_mem_filter (List.mem_of_mem_take winner)
      obtain ⟨c, inRanked, rfl⟩ := List.mem_map.mp ranked
      have inSafe := (sortBy_perm _ _).mem_iff.mp inRanked
      obtain ⟨candidate, safe⟩ := List.mem_filter.mp inSafe
      obtain ⟨r, -, read⟩ := List.mem_filterMap.mp (List.mem_of_mem_take candidate)
      have found := (Option.filter_eq_some_iff.mp read).1
      -- The second read, by the candidate's id, finds the same row.
      have key : keyOf .documents c = [.text r.docId] := Table.find_key found
      have same : s.doc [.text c.id] = some c := by
        have id : [Cell.text c.id] = [.text r.docId] := key
        rw [id]
        exact found
      rw [same] at row
      cases row
      exact fun n member => unnegated_spec F safe member

/-! ## Negation in the fallback -/

/-- What a query's negation asks of the fallback. -/
structure Respects (text : Text) (ps : Pieces) : Prop where
  /-- Where the fallback runs, it negates what the parse subtracts, and each of its
  positive terms is one the parse leaves positive. -/
  terms : ∀ metadata, triMatch F metadata text ≠ none →
    (∀ v ∈ subtracted ps, F.toLowerCase v ∈ (extractTerms F text).negated) ∧
      ∀ t ∈ (extractTerms F text).positive,
        ∃ v, (false, v) ∈ marks false false ps ∧ t = F.toLowerCase v
  /-- No row that it appends contains a term the parse subtracts. -/
  hits : ∀ (s : SearchStore) (trigram : Text → TriRow → Bool) (keep : DocRow → Bool)
    (call : ShortPage), ∀ d ∈ fuzzyHits F s trigram keep call text,
      ∀ v ∈ subtracted ps, ¬ Contains F d (F.toLowerCase v)

theorem respects_of_keeps {text : Text} {ps : Pieces}
    (keeps : Keeps F (marks false false ps) (extracted F false text)) : Respects F text ps := by
  have negated : ∀ v ∈ subtracted ps, F.toLowerCase v ∈ (extractTerms F text).negated := by
    intro v sub
    rw [(mem_extractTerms F text _).1]
    exact keeps_negated F keeps ((mem_subtracted ps v).mp sub)
  constructor
  · refine fun _ _ => ⟨negated, fun t plain => ?_⟩
    rw [(mem_extractTerms F text t).2] at plain
    exact keeps_positive F keeps plain
  · exact fun s trigram keep call d hit v sub =>
      fuzzyHits_safe F s trigram keep hit _ (negated v sub)

theorem respects_of_grouped {text : Text} {ps : Pieces} (grouped : groupedNot false text = true) :
    Respects F text ps := by
  have idle : ∀ metadata, triMatch F metadata text = none := by
    intro metadata
    simp [triMatch, grouped]
  constructor
  · exact fun metadata runs => absurd (idle metadata) runs
  · intro s trigram keep call d hit
    unfold fuzzyHits at hit
    rw [idle] at hit
    split at hit <;> cases hit

/-- The terms of a clean text, one by one, are those of the second reading. -/
theorem keeps_scoped {text : Text} (clean : Clean text) {ps : Pieces}
    (flat : ps.flat = tokenizeFts text) :
    Keeps F (marks false false ps) (extracted F false text) ↔ Scoped text := by
  have passed := scopes_flat ps false [] false [] (Or.inl rfl)
  rw [List.append_nil, flat, tokenizeFts_items] at passed
  have whole := keeps_iff F (items text) false [] false false
  rw [passed, ← extracted_items F text false clean] at whole
  simp only [scopes, List.append_nil] at whole
  exact whole

/-- A term out of reach of its `NOT` is wanted instead. -/
theorem wanted_of_unscoped (ms : List (Option FtsToken)) :
    ∀ (under : Bool) (outer : List Bool) (pending seen : Bool),
      scopedFrom under outer pending seen ms = false →
        ∃ v, (true, v) ∈ scopes under outer pending ms.reduceOption ∧
          (false, F.toLowerCase v) ∈ readAs F seen ms := by
  induction ms with
  | nil => intro under outer pending seen off; cases off
  | cons m ms ih =>
      intro under outer pending seen off
      cases m with
      | none => exact ih under outer pending false off
      | some t =>
          cases t with
          | op o => cases o <;> exact ih under outer _ _ off
          | lparen => exact ih _ _ false seen off
          | rparen => exact ih _ _ false seen off
          | str value star minus =>
              show ∃ v, (true, v) ∈ _ :: _ ∧ (false, F.toLowerCase v) ∈ _ :: _
              rw [scopedFrom, Bool.and_eq_false_iff] at off
              rcases off with here | later
              · refine ⟨value, ?_⟩
                simp only [Bool.or_eq_false_iff, Bool.not_eq_false'] at here
                obtain ⟨⟨reached, plain⟩, unseen⟩ := here
                simp [reached, plain, unseen]
              · obtain ⟨v, marked, wanted⟩ := ih under outer false false later
                exact ⟨v, List.mem_cons_of_mem _ marked, List.mem_cons_of_mem _ wanted⟩

/-- **The fallback keeps to a query's negation where a `NOT` before a parenthesis keeps it
from running, or where the text is clean and each term that a `NOT` reaches comes right
behind it.**  For a clean text the last is also what it takes to read each term as the
parse does: elsewhere a term that the parse subtracts is among the positive ones. -/
theorem fuzzy_respects {expand : Expand} {text match_ : Text}
    (accepted : ftsQuery expand text = .ok match_) :
    ∃ ps : Pieces, ps.flat = tokenizeFts text ∧
      (groupedNot false text = true ∨ (Clean text ∧ Scoped text) → Respects F text ps) ∧
      (Clean text →
        (Keeps F (marks false false ps) (extracted F false text) ↔ Scoped text)) ∧
      (Clean text → ¬ Scoped text →
        ∃ v ∈ subtracted ps, F.toLowerCase v ∈ (extractTerms F text).positive) := by
  have balanced : Balanced (tokenizeFts text) := by
    by_contra unmatched
    obtain ⟨e, refused⟩ := refused_of_unmatched expand text unmatched
    rw [accepted] at refused
    cases refused
  obtain ⟨ps, flat⟩ := balanced
  refine ⟨ps, flat, ?_, fun clean => keeps_scoped F clean flat, fun clean unscoped => ?_⟩
  · rintro (grouped | ⟨clean, near⟩)
    · exact respects_of_grouped F grouped
    · exact respects_of_keeps F ((keeps_scoped F clean flat).mpr near)
  · obtain ⟨v, marked, wanted⟩ := wanted_of_unscoped F (items text) false [] false false
      (Bool.eq_false_iff.mpr unscoped)
    have passed := scopes_flat ps false [] false [] (Or.inl rfl)
    rw [List.append_nil, flat, tokenizeFts_items] at passed
    rw [passed] at marked
    refine ⟨v, (mem_subtracted ps v).mpr (by simpa [scopes] using marked), ?_⟩
    rw [(mem_extractTerms F text _).2, extracted_items F text false clean]
    exact wanted

/-! ## An empty phrase behind a `NOT` -/

def ascii : Folding where
  toLowerCase := List.map Char.toLower
  foldForNegation := List.map Char.toLower
  toLowerCase_nil _ := List.map_eq_nil_iff
  fold_lines a b := by
    rw [List.map_append, List.map_cons]
    rfl

theorem accepted_of_fed {text : Text} (ps : Pieces) (flat : ps.flat = tokenizeFts text)
    (fed : ¬ Starved ps) : ∃ match_, ftsQuery none text = .ok match_ := by
  rcases ftsQuery_result none text ps flat with ⟨starved, -⟩ | ⟨-, match_, ok, -⟩
  · exact absurd starved fed
  · exact ⟨match_, ok⟩

/-- `bar -foo` -/
def barLessFoo : Pieces := .str "bar".toList false false (.str "foo".toList false true .nil)

theorem fuzzy_respects_minus :
    ∃ ps : Pieces, ps.flat = tokenizeFts "bar -foo".toList ∧
      Respects ascii "bar -foo".toList ps := by
  have flat : barLessFoo.flat = tokenizeFts "bar -foo".toList := by decide +kernel
  obtain ⟨match_, accepted⟩ := accepted_of_fed barLessFoo flat (by unfold Starved; decide)
  obtain ⟨ps, flat, holds, -⟩ := fuzzy_respects ascii accepted
  exact ⟨ps, flat, holds (Or.inr ⟨by decide +kernel, by decide +kernel⟩)⟩

def barFoo : DocRow where
  id := "d"
  accountId := "a"
  externalId := "x"
  type := "note"
  title := some "bar"
  markdown := some "foo"
  url := none
  metadata := []
  createdAt := none
  parentId := none
  contentHash := ""
  seq := 1
  ingestSeq := none
  archivedAt := none
  languages := ""
  ingestedAt := 0
  updatedAt := 0
  scopeRootId := none

/-- The document alone, with its trigram row. -/
def oneDocument : SearchStore where
  db := Db.fresh.setTable .documents ⟨[barFoo], List.nodup_singleton _⟩
  rowid _ := 1
  fts := Table.empty
  tri := ⟨[triOf 1 barFoo], List.nodup_singleton _⟩

/-- Both terms as substrings. -/
def bothIn (tri : Text) (r : TriRow) : Bool :=
  tri = "\"bar\" AND \"foo\"".toList && "bar".toList <:+: r.body.toList &&
    "foo".toList <:+: r.body.toList

/-- `bar NOT foo` -/
def barNotFoo : Pieces :=
  .str "bar".toList false false (.op .not (.str "foo".toList false false .nil))

/-- `bar NOT "" foo` subtracts `foo`, and the fallback returns a document with it. -/
theorem fuzzy_ignores_not :
    (∃ match_, ftsQuery none "bar NOT \"\" foo".toList = .ok match_) ∧
      (∃ ps : Pieces, ps.flat = tokenizeFts "bar NOT \"\" foo".toList ∧
        "foo".toList ∈ subtracted ps) ∧
      barFoo ∈ fuzzyHits ascii oneDocument bothIn (fun _ => true) ⟨false, [], 0, 20⟩
        "bar NOT \"\" foo".toList ∧
      Contains ascii barFoo "foo".toList := by
  have flat : barNotFoo.flat = tokenizeFts "bar NOT \"\" foo".toList := by decide +kernel
  refine ⟨accepted_of_fed barNotFoo flat (by unfold Starved; decide), ⟨barNotFoo, flat, by decide⟩,
    ?_, Or.inr ?_⟩
  · decide +kernel
  · decide

end Kiagent.Store.FuzzyFallback
