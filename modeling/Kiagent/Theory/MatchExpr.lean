/-
# Theory.MatchExpr -- match expressions of a full-text index

A match expression is made of quoted phrases, with a star for a prefix, and of the binary
operators `AND`, `OR` and `NOT`.  All three are left associative; `NOT` binds closest and
`OR` loosest.  `readMatch` reads a text by that grammar and takes nothing else: no bare
word, no column filter and no operator of another kind.

`Primary t e`: wherever an operand may stand, the text `t` is read as `e`.  A quoted phrase
is one (`primary_phrase`), and so is a parenthesised chain of them (`primary_chain`).

`Widens true e e'`: the second expression is the first with alternatives beside some
phrases, none of them where it is subtracted, so it matches more (`Widens.subset`).
-/
import Mathlib

namespace Kiagent.Theory.MatchExpr

set_option autoImplicit false

abbrev Text := List Char

/-! ## Expressions -/

inductive Expr where
  | phrase (value : Text) (star : Bool)
  | and (left right : Expr)
  | or (left right : Expr)
  | not (left right : Expr)
  deriving DecidableEq

/-- What a phrase matches; the empty one matches nothing. -/
def phraseSet {D : Type} (index : Text → Bool → Set D) (value : Text) (star : Bool) : Set D :=
  if value = [] then ∅ else index value star

/-- The documents of an index that an expression matches. -/
def Expr.denote {D : Type} (index : Text → Bool → Set D) : Expr → Set D
  | .phrase value star => phraseSet index value star
  | .and left right => left.denote index ∩ right.denote index
  | .or left right => left.denote index ∪ right.denote index
  | .not left right => left.denote index \ right.denote index

/-! ## Words of an expression -/

inductive Op where
  | and
  | or
  | not
  deriving DecidableEq

inductive Tok where
  | str (value : Text)
  | star
  | lp
  | rp
  | op (op : Op)
  deriving DecidableEq

/-- Between words, in a bare word, in a quoted string, and after a quote that ends it or is
the first of two. -/
inductive Mode where
  | start
  | word (seen : Text)
  | string (seen : Text)
  | quote (seen : Text)

def wordOp (word : Text) : Option Op :=
  if word = "AND".toList then some .and
  else if word = "OR".toList then some .or
  else if word = "NOT".toList then some .not
  else none

def stepStart (c : Char) : Option (List Tok × Mode) :=
  if c = ' ' then some ([], .start)
  else if c = '(' then some ([.lp], .start)
  else if c = ')' then some ([.rp], .start)
  else if c = '*' then some ([.star], .start)
  else if c = '"' then some ([], .string [])
  else if c.isAlpha then some ([], .word [c])
  else none

/-- One character: the tokens that are complete, and the mode after it. -/
def step : Mode → Char → Option (List Tok × Mode)
  | .start, c => stepStart c
  | .word seen, c =>
      if c.isAlpha then some ([], .word (seen ++ [c]))
      else (wordOp seen).bind fun op =>
        (stepStart c).map fun next => (.op op :: next.1, next.2)
  | .string seen, c =>
      if c = '"' then some ([], .quote seen) else some ([], .string (seen ++ [c]))
  | .quote seen, c =>
      if c = '"' then some ([], .string (seen ++ [c]))
      else (stepStart c).map fun next => (.str seen :: next.1, next.2)

def finish : Mode → Option (List Tok)
  | .start => some []
  | .word seen => (wordOp seen).map fun op => [.op op]
  | .string _ => none
  | .quote seen => some [.str seen]

def lexFrom (mode : Mode) : Text → Option (List Tok)
  | [] => finish mode
  | c :: cs => (step mode c).bind fun next => (lexFrom next.2 cs).map fun rest => next.1 ++ rest

def lex (text : Text) : Option (List Tok) := lexFrom .start text

/-! ## Reading -/

/-- What stands to the left of the next operand within one pair of parentheses. -/
structure Frame where
  orLeft : Option Expr
  andLeft : Option Expr
  notLeft : Option Expr

namespace Frame

def empty : Frame := ⟨none, none, none⟩

def notDone (f : Frame) (x : Expr) : Expr := f.notLeft.elim x fun left => .not left x

def andDone (f : Frame) (x : Expr) : Expr :=
  f.andLeft.elim (f.notDone x) fun left => .and left (f.notDone x)

def orDone (f : Frame) (x : Expr) : Expr :=
  f.orLeft.elim (f.andDone x) fun left => .or left (f.andDone x)

/-- The operand and then an operator: what binds closer is complete. -/
def push (f : Frame) (x : Expr) : Op → Frame
  | .not => ⟨f.orLeft, f.andLeft, some (f.notDone x)⟩
  | .and => ⟨f.orLeft, some (f.andDone x), none⟩
  | .or => ⟨some (f.orDone x), none, none⟩

end Frame

/-- The open parentheses around `f`, and the operand just read, if any. -/
def readTokens : List Tok → List Frame → Frame → Option Expr → Option Expr
  | .str value :: .star :: ts, open_, f, none => readTokens ts open_ f (some (.phrase value true))
  | .str value :: ts, open_, f, none => readTokens ts open_ f (some (.phrase value false))
  | .lp :: ts, open_, f, none => readTokens ts (f :: open_) Frame.empty none
  | .op op :: ts, open_, f, some x => readTokens ts open_ (f.push x op) none
  | .rp :: ts, g :: open_, f, some x => readTokens ts open_ g (some (f.orDone x))
  | [], [], f, some x => some (f.orDone x)
  | _, _, _, _ => none

def readMatch (text : Text) : Option Expr :=
  (lex text).bind fun ts => readTokens ts [] Frame.empty none

/-! ## Operands -/

/-- What may follow an operand. -/
def Delimited (rest : Text) : Prop := rest = [] ∨ ∃ c cs, rest = c :: cs ∧ (c = ' ' ∨ c = ')')

/-- The text is an operand, read as the expression. -/
def Primary (t : Text) (e : Expr) : Prop :=
  t ≠ [] ∧ ∃ toks : List Tok,
    (∀ rest, Delimited rest → lex (t ++ rest) = (lex rest).map fun ts => toks ++ ts) ∧
      ∀ ts open_ f, ts.head? ≠ some .star →
        readTokens (toks ++ ts) open_ f none = readTokens ts open_ f (some e)

theorem Primary.readMatch {t : Text} {e : Expr} (primary : Primary t e) :
    readMatch t = some e := by
  obtain ⟨-, toks, lexed, read⟩ := primary
  have all := lexed [] (Or.inl rfl)
  rw [List.append_nil] at all
  have tokens : lex t = some toks := by
    rw [all]
    simp [lex, lexFrom, finish]
  have done := read [] [] Frame.empty (by simp)
  rw [List.append_nil] at done
  unfold MatchExpr.readMatch
  rw [tokens]
  show readTokens toks [] Frame.empty none = some e
  rw [done]
  rfl

/-! ### Phrases -/

/-- Quotes within a quoted string are doubled. -/
def escape (value : Text) : Text := value.flatMap fun c => if c = '"' then ['"', '"'] else [c]

def quoteText (value : Text) : Text := '"' :: (escape value ++ ['"'])

def starText (star : Bool) : Text := if star then [' ', '*'] else []

theorem lexFrom_escape (seen value rest : Text) :
    lexFrom (.string seen) (escape value ++ '"' :: rest)
      = lexFrom (.quote (seen ++ value)) rest := by
  induction value generalizing seen with
  | nil => simp [escape, lexFrom, step]
  | cons c value ih =>
      have regroup : seen ++ c :: value = (seen ++ [c]) ++ value := by simp
      rw [regroup, ← ih]
      by_cases quote : c = '"'
      · subst quote
        simp [escape, lexFrom, step, Function.comp_def]
      · simp [escape, lexFrom, step, quote]

theorem lexFrom_quote (value : Text) {rest : Text} (delimited : Delimited rest) :
    lexFrom (.quote value) rest = (lex rest).map fun ts => .str value :: ts := by
  rcases delimited with rfl | ⟨c, cs, rfl, space | close⟩
  · simp [lexFrom, finish, lex]
  · subst space
    simp [lex, lexFrom, step, stepStart]
  · subst close
    simp [lex, lexFrom, step, stepStart, Function.comp_def]

theorem primary_phrase (value : Text) (star : Bool) :
    Primary (quoteText value ++ starText star) (.phrase value star) := by
  have opened : ∀ rest, lex (quoteText value ++ rest) = lexFrom (.quote value) rest := by
    intro rest
    have inner := lexFrom_escape [] value rest
    rw [List.nil_append] at inner
    simp [lex, quoteText, lexFrom, step, stepStart, ← inner]
  refine ⟨by simp [quoteText], ?_⟩
  cases star with
  | false =>
      refine ⟨[.str value], fun rest delimited => ?_, fun ts open_ f next => ?_⟩
      · rw [starText, if_neg Bool.false_ne_true, List.append_nil, opened,
          lexFrom_quote value delimited]
        rfl
      · cases ts with
        | nil => rfl
        | cons t ts =>
            cases t with
            | star => exact absurd rfl next
            | str _ => rfl
            | lp => rfl
            | rp => rfl
            | op _ => rfl
  | true =>
      refine ⟨[.str value, .star], fun rest delimited => ?_, fun ts open_ f _ => rfl⟩
      have behind : Delimited ([' ', '*'] ++ rest) := Or.inr ⟨' ', '*' :: rest, rfl, Or.inl rfl⟩
      rw [starText, if_pos rfl, List.append_assoc, opened, lexFrom_quote value behind]
      simp [lex, lexFrom, step, stepStart, Function.comp_def]

/-! ### Chains -/

def opText : Op → Text
  | .and => " AND ".toList
  | .or => " OR ".toList
  | .not => " NOT ".toList

theorem lex_opText (op : Op) (rest : Text) :
    lex (opText op ++ rest) = (lex rest).map fun ts => .op op :: ts := by
  cases op <;> simp [opText, lex, lexFrom, step, stepStart, wordOp, Function.comp_def]

theorem delimited_opText (op : Op) (rest : Text) : Delimited (opText op ++ rest) := by
  cases op <;> exact Or.inr ⟨' ', _, rfl, Or.inl rfl⟩

/-- Operands after the first, each behind its operator. -/
abbrev Chain := List (Op × Text × Expr)

def chainText (chain : Chain) : Text := chain.flatMap fun link => opText link.1 ++ link.2.1

def chainFold (f : Frame) (x : Expr) : List (Op × Expr) → Frame × Expr
  | [] => (f, x)
  | (op, e) :: rest => chainFold (f.push x op) e rest

/-- A chain read by precedence. -/
def chainExpr (first : Expr) (rest : List (Op × Expr)) : Expr :=
  (chainFold Frame.empty first rest).1.orDone (chainFold Frame.empty first rest).2

theorem chain_read (chain : Chain) (primary : ∀ link ∈ chain, Primary link.2.1 link.2.2) :
    ∃ toks : List Tok,
      (∀ rest, Delimited rest →
        lex (chainText chain ++ rest) = (lex rest).map fun ts => toks ++ ts) ∧
      (∀ ts : List Tok, ts.head? ≠ some .star → (toks ++ ts).head? ≠ some .star) ∧
      ∀ ts open_ f x, ts.head? ≠ some .star →
        readTokens (toks ++ ts) open_ f (some x) =
          readTokens ts open_ (chainFold f x (chain.map fun link => (link.1, link.2.2))).1
            (some (chainFold f x (chain.map fun link => (link.1, link.2.2))).2) := by
  induction chain with
  | nil =>
      refine ⟨[], fun rest _ => ?_, fun ts next => next, fun ts open_ f x _ => rfl⟩
      simp [chainText]
  | cons link chain ih =>
      obtain ⟨op, t, e⟩ := link
      obtain ⟨toks, lexed, tail, read⟩ := ih fun link member =>
        primary link (List.mem_cons_of_mem _ member)
      obtain ⟨-, own, ownLexed, ownRead⟩ := primary (op, t, e) List.mem_cons_self
      have delimited : ∀ rest, Delimited rest → Delimited (chainText chain ++ rest) := by
        intro rest next
        cases chain with
        | nil => exact next
        | cons link chain =>
            rw [chainText, List.flatMap_cons, List.append_assoc, List.append_assoc]
            exact delimited_opText _ _
      refine ⟨.op op :: (own ++ toks), fun rest next => ?_, fun ts _ => by simp,
        fun ts open_ f x next => ?_⟩
      · have split : chainText ((op, t, e) :: chain) ++ rest
            = opText op ++ (t ++ (chainText chain ++ rest)) := by
          simp [chainText]
        rw [split, lex_opText, ownLexed _ (delimited rest next), lexed rest next]
        simp [Function.comp_def]
      · show readTokens ((own ++ toks) ++ ts) open_ (f.push x op) none = _
        rw [List.append_assoc, ownRead _ _ _ (tail ts next), read ts open_ _ e next]
        rfl

/-- A chain in parentheses is an operand. -/
theorem primary_chain {t : Text} {e : Expr} (first : Primary t e) (chain : Chain)
    (primary : ∀ link ∈ chain, Primary link.2.1 link.2.2) :
    Primary ('(' :: (t ++ chainText chain ++ [')']))
      (chainExpr e (chain.map fun link => (link.1, link.2.2))) := by
  obtain ⟨-, own, ownLexed, ownRead⟩ := first
  obtain ⟨toks, lexed, tail, read⟩ := chain_read chain primary
  refine ⟨by simp, .lp :: (own ++ (toks ++ [.rp])), fun rest next => ?_,
    fun ts open_ f next => ?_⟩
  · have close : Delimited (')' :: rest) := Or.inr ⟨')', rest, rfl, Or.inr rfl⟩
    have delimited : Delimited (chainText chain ++ ')' :: rest) := by
      cases chain with
      | nil => exact close
      | cons link chain =>
          rw [chainText, List.flatMap_cons, List.append_assoc, List.append_assoc]
          exact delimited_opText _ _
    have split : '(' :: (t ++ chainText chain ++ [')']) ++ rest
        = '(' :: (t ++ (chainText chain ++ ')' :: rest)) := by simp
    have opened : ∀ cs, lex ('(' :: cs) = (lex cs).map fun ts => .lp :: ts := by
      intro cs
      simp [lex, lexFrom, step, stepStart]
    have closed : lex (')' :: rest) = (lex rest).map fun ts => .rp :: ts := by
      simp [lex, lexFrom, step, stepStart]
    rw [split, opened, ownLexed _ delimited, lexed _ close, closed]
    simp [Function.comp_def]
  · show readTokens ((own ++ (toks ++ [.rp])) ++ ts) (f :: open_) Frame.empty none = _
    have regroup : (own ++ (toks ++ [Tok.rp])) ++ ts = own ++ (toks ++ Tok.rp :: ts) := by simp
    rw [regroup, ownRead _ _ _ (tail _ (by simp)), read _ _ _ _ (by simp)]
    rfl

/-! ## What chains match -/

section Denote

variable {D : Type} (index : Text → Bool → Set D)

/-- Behind `AND` and `NOT` only, a document is in all of the ones and none of the others. -/
theorem mem_chainFold_narrow (d : D) (rest : List (Op × Expr)) :
    ∀ (f : Frame) (x : Expr), f.orLeft = none → (∀ link ∈ rest, link.1 ≠ .or) →
      (d ∈ ((chainFold f x rest).1.orDone (chainFold f x rest).2).denote index ↔
        d ∈ (f.orDone x).denote index ∧
          ∀ link ∈ rest, (link.1 = .and → d ∈ link.2.denote index) ∧
            (link.1 = .not → d ∉ link.2.denote index)) := by
  induction rest with
  | nil => intro f x _ _; simp [chainFold]
  | cons link rest ih =>
      intro f x alone narrow
      obtain ⟨op, e⟩ := link
      have next := ih (f.push x op) e
        (by cases op <;> first | exact alone | exact absurd rfl (narrow _ List.mem_cons_self))
        fun link member => narrow link (List.mem_cons_of_mem _ member)
      have here : d ∈ ((f.push x op).orDone e).denote index ↔
          d ∈ (f.orDone x).denote index ∧
            (op = .and → d ∈ e.denote index) ∧ (op = .not → d ∉ e.denote index) := by
        obtain ⟨orLeft, andLeft, notLeft⟩ := f
        dsimp only at alone
        subst alone
        cases op with
        | or => exact absurd rfl (narrow _ List.mem_cons_self)
        | and =>
            cases andLeft <;> cases notLeft <;>
              simp [Frame.push, Frame.orDone, Frame.andDone, Frame.notDone, Expr.denote]
        | not =>
            cases andLeft <;> cases notLeft <;>
              simp [Frame.push, Frame.orDone, Frame.andDone, Frame.notDone, Expr.denote, and_assoc]
      rw [chainFold, next, here, List.forall_mem_cons, and_assoc]

/-- Behind `OR` only, a document is in one of them. -/
theorem mem_chainFold_wide (d : D) (rest : List (Op × Expr)) :
    ∀ (f : Frame) (x : Expr), (∀ link ∈ rest, link.1 = .or) →
      (d ∈ ((chainFold f x rest).1.orDone (chainFold f x rest).2).denote index ↔
        d ∈ (f.orDone x).denote index ∨ ∃ link ∈ rest, d ∈ link.2.denote index) := by
  induction rest with
  | nil => intro f x _; simp [chainFold]
  | cons link rest ih =>
      intro f x wide
      obtain ⟨op, e⟩ := link
      obtain rfl : op = .or := wide _ List.mem_cons_self
      have next := ih (f.push x .or) e fun link member => wide link (List.mem_cons_of_mem _ member)
      have here : d ∈ ((f.push x .or).orDone e).denote index ↔
          d ∈ (f.orDone x).denote index ∨ d ∈ e.denote index := by
        simp [Frame.push, Frame.orDone, Frame.andDone, Frame.notDone, Expr.denote]
      rw [chainFold, next, here, List.exists_mem_cons_iff, or_assoc]

end Denote

/-! ## Widening -/

/-- Alternatives are added beside phrases that count as `true`; `NOT` turns what is behind
it over. -/
inductive Widens : Bool → Expr → Expr → Prop where
  | same (pos : Bool) (e : Expr) : Widens pos e e
  | more {value : Text} {star : Bool} {e : Expr} (w : Expr) (wide : Widens true (.phrase value star) e) :
      Widens true (.phrase value star) (.or e w)
  | and {pos : Bool} {a a' b b' : Expr} (left : Widens pos a a') (right : Widens pos b b') :
      Widens pos (.and a b) (.and a' b')
  | or {pos : Bool} {a a' b b' : Expr} (left : Widens pos a a') (right : Widens pos b b') :
      Widens pos (.or a b) (.or a' b')
  | not {pos : Bool} {a a' b b' : Expr} (left : Widens pos a a') (right : Widens (!pos) b b') :
      Widens pos (.not a b) (.not a' b')

theorem Widens.denote {D : Type} (index : Text → Bool → Set D) {pos : Bool} {e e' : Expr}
    (wide : Widens pos e e') :
    if pos then e.denote index ⊆ e'.denote index else e'.denote index ⊆ e.denote index := by
  induction wide with
  | same pos e => split <;> exact subset_rfl
  | more w _ ih => exact subset_trans ih Set.subset_union_left
  | @and pos _ _ _ _ _ _ ihLeft ihRight =>
      cases pos <;> exact Set.inter_subset_inter ihLeft ihRight
  | @or pos _ _ _ _ _ _ ihLeft ihRight =>
      cases pos <;> exact Set.union_subset_union ihLeft ihRight
  | @not pos _ _ _ _ _ _ ihLeft ihRight =>
      cases pos <;> exact Set.sdiff_subset_sdiff ihLeft ihRight

/-- **Widening only adds documents.** -/
theorem Widens.subset {D : Type} (index : Text → Bool → Set D) {e e' : Expr}
    (wide : Widens true e e') : e.denote index ⊆ e'.denote index := wide.denote index

@[simp] theorem widens_and {pos : Bool} {a a' b b' : Expr} :
    Widens pos (.and a b) (.and a' b') ↔ Widens pos a a' ∧ Widens pos b b' := by
  constructor
  · intro wide
    cases wide with
    | same => exact ⟨.same _ _, .same _ _⟩
    | and left right => exact ⟨left, right⟩
  · exact fun ⟨left, right⟩ => .and left right

@[simp] theorem widens_or {pos : Bool} {a a' b b' : Expr} :
    Widens pos (.or a b) (.or a' b') ↔ Widens pos a a' ∧ Widens pos b b' := by
  constructor
  · intro wide
    cases wide with
    | same => exact ⟨.same _ _, .same _ _⟩
    | or left right => exact ⟨left, right⟩
  · exact fun ⟨left, right⟩ => .or left right

@[simp] theorem widens_not {pos : Bool} {a a' b b' : Expr} :
    Widens pos (.not a b) (.not a' b') ↔ Widens pos a a' ∧ Widens (!pos) b b' := by
  constructor
  · intro wide
    cases wide with
    | same => exact ⟨.same _ _, .same _ _⟩
    | not left right => exact ⟨left, right⟩
  · exact fun ⟨left, right⟩ => .not left right

/-- Where it counts as `false` a phrase stays as it is. -/
theorem widens_false_phrase {value : Text} {star : Bool} {e : Expr} :
    Widens false (.phrase value star) e ↔ e = .phrase value star := by
  constructor
  · intro wide
    cases wide with
    | same => rfl
  · rintro rfl
    exact .same _ _

/-- A phrase and its alternatives. -/
theorem widens_phrase_chain (value : Text) (star : Bool) (es : List Expr) (pos : Bool) :
    Widens pos (.phrase value star)
      (chainExpr (.phrase value star) (es.map fun e => (Op.or, e))) ↔ pos = true ∨ es = [] := by
  have wide : ∀ (es : List Expr) (f : Frame) (x : Expr),
      Widens true (.phrase value star) (f.orDone x) → Widens true (.phrase value star)
        ((chainFold f x (es.map fun e => (Op.or, e))).1.orDone
          (chainFold f x (es.map fun e => (Op.or, e))).2) := by
    intro es
    induction es with
    | nil => intro f x here; exact here
    | cons e es ih =>
        intro f x here
        exact ih (f.push x .or) e (.more e here)
  -- An `OR` is no phrase.
  have grown : ∀ (es : List Expr) (f : Frame) (x a : Expr), f.orLeft = some a →
      (chainFold f x (es.map fun e => (Op.or, e))).1.orDone
        (chainFold f x (es.map fun e => (Op.or, e))).2 ≠ .phrase value star := by
    intro es
    induction es with
    | nil =>
        intro f x a left
        simp [chainFold, Frame.orDone, left]
    | cons e es ih =>
        intro f x a _
        exact ih (f.push x .or) e _ rfl
  cases pos with
  | true => exact iff_of_true (wide es Frame.empty _ (.same _ _)) (Or.inl rfl)
  | false =>
      rw [widens_false_phrase]
      cases es with
      | nil => exact iff_of_true rfl (Or.inr rfl)
      | cons e es =>
          refine iff_of_false ?_ (by simp)
          exact grown es (Frame.empty.push _ .or) e _ rfl

/-! ### Chains side by side -/

/-- Two frames of one shape. -/
def Frame.Alike (f f' : Frame) : Prop :=
  f.orLeft.isSome = f'.orLeft.isSome ∧ f.andLeft.isSome = f'.andLeft.isSome ∧
    f.notLeft.isSome = f'.notLeft.isSome

theorem Frame.Alike.push {f f' : Frame} (alike : f.Alike f') (x x' : Expr) (op : Op) :
    (f.push x op).Alike (f'.push x' op) := by
  obtain ⟨sameOr, sameAnd, -⟩ := alike
  cases op with
  | and => exact ⟨sameOr, rfl, rfl⟩
  | or => exact ⟨rfl, rfl, rfl⟩
  | not => exact ⟨sameOr, sameAnd, rfl⟩

/-- Of two chains with the same operators, every operand is widened by how it counts. -/
theorem widens_push {f f' : Frame} (alike : f.Alike f') (pos : Bool) (x x' e e' : Expr) (op : Op) :
    Widens pos ((f.push x op).orDone e) ((f'.push x' op).orDone e') ↔
      Widens pos (f.orDone x) (f'.orDone x') ∧
        Widens (if op = .not then !pos else pos) e e' := by
  obtain ⟨o, a, n⟩ := f
  obtain ⟨o', a', n'⟩ := f'
  obtain ⟨sameOr, sameAnd, sameNot⟩ := alike
  dsimp only at sameOr sameAnd sameNot
  cases o <;> cases o' <;> simp at sameOr <;>
    cases a <;> cases a' <;> simp at sameAnd <;>
      cases n <;> cases n' <;> simp at sameNot <;>
        cases op <;> simp [Frame.push, Frame.orDone, Frame.andDone, Frame.notDone, and_assoc]

theorem widens_chainFold (pos : Bool) (links : List (Op × Expr × Expr)) :
    ∀ (f f' : Frame) (x x' : Expr), f.Alike f' →
      (Widens pos
        ((chainFold f x (links.map fun l => (l.1, l.2.1))).1.orDone
          (chainFold f x (links.map fun l => (l.1, l.2.1))).2)
        ((chainFold f' x' (links.map fun l => (l.1, l.2.2))).1.orDone
          (chainFold f' x' (links.map fun l => (l.1, l.2.2))).2) ↔
        Widens pos (f.orDone x) (f'.orDone x') ∧
          ∀ l ∈ links, Widens (if l.1 = .not then !pos else pos) l.2.1 l.2.2) := by
  induction links with
  | nil => intro f f' x x' _; simp [chainFold]
  | cons l links ih =>
      intro f f' x x' alike
      obtain ⟨op, e, e'⟩ := l
      have next := ih (f.push x op) (f'.push x' op) e e' (alike.push x x' op)
      rw [List.map_cons, List.map_cons, chainFold, chainFold, next,
        widens_push alike, List.forall_mem_cons, and_assoc]

theorem widens_chain (pos : Bool) (x x' : Expr) (links : List (Op × Expr × Expr)) :
    Widens pos (chainExpr x (links.map fun l => (l.1, l.2.1)))
      (chainExpr x' (links.map fun l => (l.1, l.2.2))) ↔
        Widens pos x x' ∧ ∀ l ∈ links, Widens (if l.1 = .not then !pos else pos) l.2.1 l.2.2 :=
  widens_chainFold pos links Frame.empty Frame.empty x x' ⟨rfl, rfl, rfl⟩

end Kiagent.Theory.MatchExpr
