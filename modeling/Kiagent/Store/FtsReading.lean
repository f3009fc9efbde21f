/-
# Store.FtsReading -- what a search text asks for, and that the compiled expression is it

`Pieces` is a sequence of tokens with its parentheses matched.  It is read as an `OR` of
groups, each the conjunction of its positive operands less each negated one; `NOT` and a
minus negate the next operand, and an operand without a term in it is no operand
(`meaning`).

* `ftsQuery_correct` -- the compiler refuses exactly the token sequences that are not
  matched or have a group with nothing but negated operands, and what it emits for the
  others, read by the index's grammar, matches what the text asks for;
* `ftsQuery_widens_iff` -- stem expansion only adds documents exactly where no expandable
  term stands under an odd number of negated parentheses.
-/
import Kiagent.Store.FtsQuery

namespace Kiagent.Store.FtsQuery

open Kiagent.Theory.MatchExpr

set_option autoImplicit false

/-! ## Matched tokens -/

inductive Pieces where
  | nil
  | op (op : Op) (rest : Pieces)
  | str (value : Text) (star : Bool) (minus : Bool) (rest : Pieces)
  | paren (body rest : Pieces)

namespace Pieces

def flat : Pieces → List FtsToken
  | nil => []
  | op o rest => .op o :: rest.flat
  | str value star minus rest => .str value star minus :: rest.flat
  | paren body rest => .lparen :: (body.flat ++ .rparen :: rest.flat)

/-- Without a term at any depth. -/
def bare : Pieces → Bool
  | nil => true
  | op _ rest => rest.bare
  | str _ _ _ _ => false
  | paren body rest => body.bare && rest.bare

/-- The insides of all parentheses, at any depth. -/
def inner : Pieces → List Pieces
  | nil => []
  | op _ rest => rest.inner
  | str _ _ _ rest => rest.inner
  | paren body rest => body :: (body.inner ++ rest.inner)

end Pieces

/-! ## Groups of operands -/

/-- The operands of a branch between two `OR`s. -/
structure Operands (A : Type) where
  positives : List A
  negatives : List A

/-- The groups complete, the one being read, and whether a `NOT` waits for an operand. -/
structure Walk (A : Type) where
  done : List (Operands A)
  group : Operands A
  pending : Bool

namespace Walk

variable {A : Type}

def start : Walk A := ⟨[], ⟨[], []⟩, false⟩

def groups (w : Walk A) : List (Operands A) := w.done ++ [w.group]

def push (w : Walk A) (negated : Bool) (x : A) : Walk A :=
  { w with
    group :=
      if negated then { w.group with negatives := w.group.negatives ++ [x] }
      else { w.group with positives := w.group.positives ++ [x] }
    pending := false }

end Walk

/-- The pieces from left to right: `leaf` is what a term stands for, `whole` what a pair of
parentheses with these groups does. -/
def pass {A : Type} (leaf : Bool → Text → Bool → A) (whole : List (Operands A) → A) :
    Pieces → Walk A → Walk A
  | .nil, w => w
  | .op .and rest, w => pass leaf whole rest w
  | .op .not rest, w => pass leaf whole rest { w with pending := true }
  | .op .or rest, w => pass leaf whole rest ⟨w.groups, ⟨[], []⟩, false⟩
  | .str value star minus rest, w =>
      pass leaf whole rest (w.push (w.pending || minus) (leaf (w.pending || minus) value star))
  | .paren body rest, w =>
      pass leaf whole rest
        (if body.bare then { w with pending := false }
          else w.push w.pending (whole (pass leaf whole body Walk.start).groups))

/-- A document of a group is in all its positive operands, of which there are some, and in
none of its negated ones. -/
def groupsSet {D : Type} (groups : List (Operands (Set D))) : Set D :=
  { d | ∃ g ∈ groups, g.positives ≠ [] ∧ (∀ p ∈ g.positives, d ∈ p) ∧ ∀ n ∈ g.negatives, d ∉ n }

/-- The documents of an index that the text asks for. -/
def meaning {D : Type} (index : Text → Bool → Set D) (ps : Pieces) : Set D :=
  groupsSet (pass (fun _ value star => phraseSet index value star) groupsSet ps Walk.start).groups

/-- A group with nothing but negated operands, at any depth. -/
def Starved (ps : Pieces) : Prop :=
  ∃ q ∈ ps :: ps.inner,
    ∃ g ∈ (pass (fun _ _ _ => ()) (fun _ => ()) q Walk.start).groups,
      g.positives = [] ∧ g.negatives ≠ []

def Balanced (tokens : List FtsToken) : Prop := ∃ ps : Pieces, ps.flat = tokens

/-! ## The compiler on matched tokens -/

variable (expand : Expand)

/-- What the compiler has when it is between two operands. -/
structure Progress where
  branches : List Text
  group : Operands Text
  pending : Bool

namespace Progress

def start : Progress := ⟨[], ⟨[], []⟩, false⟩

def push (w : Progress) (negated : Bool) (x : Text) : Progress :=
  { w with
    group :=
      if negated then { w.group with negatives := w.group.negatives ++ [x] }
      else { w.group with positives := w.group.positives ++ [x] }
    pending := false }

/-- From there to the end of the parentheses. -/
def run (w : Progress) (tokens : List FtsToken) : Except FtsError (Text × List FtsToken) :=
  (andRun expand w.group.positives w.group.negatives w.pending tokens).bind fun r =>
    branchesRun expand (w.branches ++ [r.1]) r.2

def close (w : Progress) : Except FtsError Text :=
  (endGroup w.group.positives w.group.negatives).map fun branch =>
    endBranches (w.branches ++ [branch])

end Progress

/-- The pieces from left to right, compiled. -/
def compile : Pieces → Progress → Except FtsError Progress
  | .nil, w => .ok w
  | .op .and rest, w => compile rest w
  | .op .not rest, w => compile rest { w with pending := true }
  | .op .or rest, w =>
      (endGroup w.group.positives w.group.negatives).bind fun branch =>
        compile rest ⟨w.branches ++ [branch], ⟨[], []⟩, false⟩
  | .str value star minus rest, w =>
      compile rest (w.push (w.pending || minus) (operandText expand (w.pending || minus) value star))
  | .paren body rest, w =>
      ((compile body Progress.start).bind Progress.close).bind fun operand =>
        compile rest (if operand = [] then { w with pending := false } else w.push w.pending operand)

theorem orRun_eq_run (tokens : List FtsToken) :
    orRun expand tokens = Progress.start.run expand tokens := orRun_eq expand tokens

/-- At the end, or at a parenthesis that closes nothing read here. -/
theorem run_stop (w : Progress) (stop : List FtsToken) (ends : stop = [] ∨ ∃ ts, stop = .rparen :: ts) :
    w.run expand stop = w.close.map fun text => (text, stop) := by
  unfold Progress.run Progress.close
  rw [andRun_end expand _ _ _ _ (ends.elim Or.inl fun close => Or.inr (Or.inl close))]
  cases endGroup w.group.positives w.group.negatives with
  | error e => rfl
  | ok branch => exact branchesRun_end expand _ _ ends

/-- The parser goes through matched tokens as `compile` does. -/
theorem run_flat (ps : Pieces) :
    ∀ (w : Progress) (tail : List FtsToken),
      w.run expand (ps.flat ++ tail) = (compile expand ps w).bind fun w => w.run expand tail := by
  induction ps with
  | nil => intro w tail; rfl
  | op o rest ih =>
      intro w tail
      rw [Pieces.flat, List.cons_append]
      cases o with
      | and =>
          rw [compile, ← ih]
          unfold Progress.run
          rw [andRun_and]
      | not =>
          rw [compile, ← ih]
          unfold Progress.run
          rw [andRun_not]
      | or =>
          rw [compile]
          conv_lhs => unfold Progress.run
          rw [andRun_end expand _ _ _ _ (Or.inr (Or.inr ⟨_, rfl⟩))]
          cases endGroup w.group.positives w.group.negatives with
          | error e => rfl
          | ok branch =>
              show branchesRun expand (w.branches ++ [branch]) (.op .or :: (rest.flat ++ tail)) =
                (compile expand rest _).bind _
              rw [branchesRun_or, ← ih]
              rfl
  | str value star minus rest ih =>
      intro w tail
      rw [Pieces.flat, List.cons_append, compile, ← ih]
      unfold Progress.run
      rw [andRun_str]
      unfold Progress.push
      cases w.pending || minus <;> rfl
  | paren body rest ihBody ih =>
      intro w tail
      have inside := ihBody Progress.start (.rparen :: (rest.flat ++ tail))
      have regroup : (Pieces.paren body rest).flat ++ tail
          = .lparen :: (body.flat ++ .rparen :: (rest.flat ++ tail)) := by
        simp [Pieces.flat]
      rw [regroup, compile]
      conv_lhs => unfold Progress.run
      rw [andRun_lparen, orRun_eq_run, inside]
      cases compile expand body Progress.start with
      | error e => rfl
      | ok w' =>
          dsimp only [Except.bind]
          rw [run_stop expand w' _ (Or.inr ⟨_, rfl⟩)]
          cases w'.close with
          | error e => rfl
          | ok operand =>
              show ((if operand = [] then _ else _ : Except FtsError (Text × List FtsToken)).bind _) =
                (compile expand rest _).bind _
              rw [← ih]
              unfold Progress.run Progress.push
              by_cases none : operand = []
              · rw [if_pos none, if_pos none]
              · rw [if_neg none, if_neg none]
                cases w.pending <;> rfl

/-! ## Tokens that are not matched -/

/-- A parenthesis is open that nothing closes. -/
inductive Unclosed : List FtsToken → Prop where
  | last (ps qs : Pieces) : Unclosed (ps.flat ++ .lparen :: qs.flat)
  | more (ps : Pieces) {body : List FtsToken} (open_ : Unclosed body) :
      Unclosed (ps.flat ++ .lparen :: body)

/-- Matched, or up to the first parenthesis that closes nothing, or with one left open. -/
theorem matched_or (tokens : List FtsToken) :
    Balanced tokens ∨ (∃ (ps : Pieces) (rest : List FtsToken), tokens = ps.flat ++ .rparen :: rest) ∨
      Unclosed tokens := by
  induction h : tokens.length using Nat.strong_induction_on generalizing tokens with
  | h n ih =>
      cases tokens with
      | nil => exact Or.inl ⟨.nil, rfl⟩
      | cons t ts =>
          have lift : ∀ (add : Pieces → Pieces), (∀ ps, (add ps).flat = t :: ps.flat) →
              Balanced (t :: ts) ∨
                (∃ (ps : Pieces) (rest : List FtsToken), t :: ts = ps.flat ++ .rparen :: rest) ∨
                  Unclosed (t :: ts) := by
            intro add flat
            rcases ih ts.length (by simp only [List.length_cons] at h; omega) ts rfl with
              ⟨ps, rfl⟩ | ⟨ps, rest, rfl⟩ | unclosed
            · exact Or.inl ⟨add ps, flat ps⟩
            · exact Or.inr (Or.inl ⟨add ps, rest, by rw [flat, List.cons_append]⟩)
            · refine Or.inr (Or.inr ?_)
              cases unclosed with
              | last ps qs =>
                  have whole := Unclosed.last (add ps) qs
                  rwa [flat, List.cons_append] at whole
              | more ps open_ =>
                  have whole := Unclosed.more (add ps) open_
                  rwa [flat, List.cons_append] at whole
          cases t with
          | op o => exact lift (.op o) fun ps => rfl
          | str value star minus => exact lift (.str value star minus) fun ps => rfl
          | rparen => exact Or.inr (Or.inl ⟨.nil, ts, rfl⟩)
          | lparen =>
              simp only [List.length_cons] at h
              rcases ih ts.length (by omega) ts rfl with ⟨ps, rfl⟩ | ⟨ps, rest, rfl⟩ | unclosed
              · exact Or.inr (Or.inr (Unclosed.last .nil ps))
              · -- The parentheses close: the rest decides.
                have shorter : rest.length < n := by
                  simp only [List.length_append, List.length_cons] at h
                  omega
                rcases ih rest.length shorter rest rfl with ⟨qs, rfl⟩ | ⟨qs, more, rfl⟩ | unclosed
                · exact Or.inl ⟨.paren ps qs, rfl⟩
                · exact Or.inr (Or.inl ⟨.paren ps qs, more, by simp [Pieces.flat]⟩)
                · refine Or.inr (Or.inr ?_)
                  cases unclosed with
                  | last qs rs =>
                      have whole := Unclosed.last (.paren ps qs) rs
                      simpa [Pieces.flat] using whole
                  | more qs open_ =>
                      have whole := Unclosed.more (.paren ps qs) open_
                      simpa [Pieces.flat] using whole
              · exact Or.inr (Or.inr (Unclosed.more .nil unclosed))

/-- The result is an error. -/
def Refused {α : Type} (r : Except FtsError α) : Prop := ∃ e, r = .error e

theorem refused_bind {α β : Type} {r : Except FtsError α} (f : α → Except FtsError β)
    (refused : ∀ a, r = .ok a → Refused (f a)) : Refused (r.bind f) := by
  cases r with
  | error e => exact ⟨e, rfl⟩
  | ok a => exact refused a rfl

theorem refused_lparen (w : Progress) (body : List FtsToken)
    (open_ : ∀ operand rest, orRun expand body ≠ .ok (operand, .rparen :: rest)) :
    Refused (w.run expand (.lparen :: body)) := by
  refine refused_bind _ fun r ran => ?_
  rw [andRun_lparen] at ran
  cases inside : orRun expand body with
  | error e => rw [inside] at ran; cases ran
  | ok r' =>
      obtain ⟨operand, rest⟩ := r'
      rw [inside] at ran
      cases rest with
      | nil => cases ran
      | cons t rest =>
          cases t with
          | rparen => exact absurd inside (open_ operand rest)
          | op _ => cases ran
          | lparen => cases ran
          | str _ _ _ => cases ran

theorem refused_unclosed {tokens : List FtsToken} (unclosed : Unclosed tokens) :
    Refused (orRun expand tokens) := by
  induction unclosed with
  | last ps qs =>
      rw [orRun_eq_run, run_flat]
      refine refused_bind _ fun w _ => refused_lparen expand w _ fun operand rest inside => ?_
      have all := run_flat expand qs Progress.start []
      rw [List.append_nil] at all
      rw [orRun_eq_run, all] at inside
      cases compiled : compile expand qs Progress.start with
      | error e => rw [compiled] at inside; cases inside
      | ok w' =>
          rw [compiled] at inside
          have stop := run_stop expand w' [] (Or.inl rfl)
          change w'.run expand [] = _ at inside
          rw [stop] at inside
          cases close : w'.close with
          | error e => rw [close] at inside; cases inside
          | ok text => rw [close] at inside; cases inside
  | more ps open_ ih =>
      rw [orRun_eq_run, run_flat]
      refine refused_bind _ fun w _ => refused_lparen expand w _ fun operand rest inside => ?_
      obtain ⟨e, error⟩ := ih
      rw [error] at inside
      cases inside

/-- The compiled text of matched tokens, or the refusal. -/
theorem ftsQuery_flat (text : Text) (ps : Pieces) (flat : ps.flat = tokenizeFts text) :
    ftsQuery expand text =
      ((compile expand ps Progress.start).bind Progress.close).map fun expr =>
        if expr = [] then quoteText [] else expr := by
  have all := run_flat expand ps Progress.start []
  rw [List.append_nil, flat] at all
  rw [ftsQuery_eq, orRun_eq_run, all]
  cases compile expand ps Progress.start with
  | error e => rfl
  | ok w =>
      have stop := run_stop expand w [] (Or.inl rfl)
      show Except.bind (w.run expand []) _ = w.close.map _
      rw [stop]
      cases w.close <;> rfl

theorem refused_of_unmatched (text : Text) (unmatched : ¬ Balanced (tokenizeFts text)) :
    Refused (ftsQuery expand text) := by
  rw [ftsQuery_eq]
  rcases matched_or (tokenizeFts text) with balanced | ⟨ps, rest, tokens⟩ | unclosed
  · exact absurd balanced unmatched
  · refine refused_bind _ fun r ran => ?_
    rw [tokens, orRun_eq_run, run_flat] at ran
    cases compiled : compile expand ps Progress.start with
    | error e => rw [compiled] at ran; cases ran
    | ok w =>
        rw [compiled] at ran
        change w.run expand (.rparen :: rest) = _ at ran
        rw [run_stop expand w _ (Or.inr ⟨rest, rfl⟩)] at ran
        cases close : w.close with
        | error e => rw [close] at ran; cases ran
        | ok text =>
            rw [close] at ran
            cases ran
            exact ⟨.unmatchedClose, by rw [if_neg (by simp)]⟩
  · obtain ⟨e, error⟩ := refused_unclosed expand unclosed
    rw [error]
    exact ⟨e, rfl⟩

/-! ## The same pass over other values -/

section Naturality

variable {A B : Type} (f : A → B)

def Operands.map (g : Operands A) : Operands B := ⟨g.positives.map f, g.negatives.map f⟩

def Walk.map (w : Walk A) : Walk B := ⟨w.done.map (Operands.map f), w.group.map f, w.pending⟩

theorem Walk.groups_map (w : Walk A) : (w.map f).groups = w.groups.map (Operands.map f) := by
  simp [Walk.groups, Walk.map]

theorem Walk.push_map (w : Walk A) (negated : Bool) (x : A) :
    (w.push negated x).map f = (w.map f).push negated (f x) := by
  cases negated <;> simp [Walk.push, Walk.map, Operands.map]

/-- What is computed from each operand may as well be computed on the way. -/
theorem pass_map (leafA : Bool → Text → Bool → A) (wholeA : List (Operands A) → A)
    (leafB : Bool → Text → Bool → B) (wholeB : List (Operands B) → B)
    (leaf : ∀ negated value star, f (leafA negated value star) = leafB negated value star)
    (whole : ∀ groups, f (wholeA groups) = wholeB (groups.map (Operands.map f))) (ps : Pieces) :
    ∀ w : Walk A, (pass leafA wholeA ps w).map f = pass leafB wholeB ps (w.map f) := by
  induction ps with
  | nil => intro w; rfl
  | op o rest ih =>
      intro w
      cases o with
      | and => exact ih w
      | not => exact ih _
      | or =>
          rw [pass, pass, ih, Walk.groups_map]
          rfl
  | str value star minus rest ih =>
      intro w
      rw [pass, pass, ih, Walk.push_map, leaf]
      rfl
  | paren body rest ihBody ih =>
      intro w
      rw [pass, pass, ih]
      split
      · rfl
      · rw [Walk.push_map, whole, ← Walk.groups_map, ihBody]
        rfl

end Naturality

/-- Only terms make operands. -/
theorem pass_groups_empty {A : Type} (leaf : Bool → Text → Bool → A)
    (whole : List (Operands A) → A) (ps : Pieces) :
    ∀ w : Walk A,
      (∀ g ∈ (pass leaf whole ps w).groups, g.positives = [] ∧ g.negatives = []) ↔
        ps.bare = true ∧ ∀ g ∈ w.groups, g.positives = [] ∧ g.negatives = [] := by
  have pushed : ∀ (w : Walk A) negated x,
      ¬ ∀ g ∈ (w.push negated x).groups, g.positives = [] ∧ g.negatives = [] := by
    intro w negated x all
    have last := all (w.push negated x).group (by simp [Walk.groups])
    cases negated <;> simp [Walk.push] at last
  induction ps with
  | nil => intro w; simp [pass, Pieces.bare]
  | op o rest ih =>
      intro w
      cases o with
      | and => exact ih w
      | not => exact ih { w with pending := true }
      | or =>
          rw [pass, ih, Pieces.bare]
          simp only [Walk.groups, List.mem_append, List.mem_singleton]
          constructor
          · rintro ⟨bare, all⟩
            exact ⟨bare, fun g member => all g (Or.inl member)⟩
          · rintro ⟨bare, all⟩
            refine ⟨bare, fun g member => ?_⟩
            rcases member with old | rfl
            · exact all g old
            · exact ⟨rfl, rfl⟩
  | str value star minus rest ih =>
      intro w
      rw [pass, ih]
      simp only [Pieces.bare, Bool.false_eq_true, false_and, iff_false, not_and]
      exact fun _ => pushed w _ _
  | paren body rest _ ih =>
      intro w
      rw [pass, ih]
      by_cases bare : body.bare
      · rw [if_pos bare, Pieces.bare, bare, Bool.true_and]
        rfl
      · rw [if_neg bare]
        simp only [Pieces.bare, bare, Bool.false_and, Bool.false_eq_true, false_and, iff_false,
          not_and]
        exact fun _ => pushed w _ _

/-! ## The expression of the pieces -/

def leafExpr (negated : Bool) (value : Text) (star : Bool) : Expr :=
  chainExpr (.phrase value star)
    ((variantsOf expand negated value star).map fun v => (.or, .phrase v false))

def groupExpr (g : Operands Expr) : Expr :=
  match g.positives with
  | [] => .phrase [] false
  | p :: ps =>
      chainExpr p (ps.map (fun e => (Op.and, e)) ++ g.negatives.map fun e => (Op.not, e))

def groupsExpr (groups : List (Operands Expr)) : Expr :=
  match (groups.filter fun g => g.positives ≠ []).map groupExpr with
  | [] => .phrase [] false
  | e :: es => chainExpr e (es.map fun e => (Op.or, e))

def exprOf (ps : Pieces) : Expr :=
  groupsExpr (pass (leafExpr expand) groupsExpr ps Walk.start).groups

/-! ### Texts of operands, groups and branches -/

theorem exists_chain (op : Op) {ts : List Text} {es : List Expr}
    (primary : List.Forall₂ Primary ts es) :
    ∃ chain : Chain, chainText chain = ts.flatMap (fun t => opText op ++ t) ∧
      chain.map (fun link => (link.1, link.2.2)) = es.map (fun e => (op, e)) ∧
        ∀ link ∈ chain, Primary link.2.1 link.2.2 := by
  induction primary with
  | nil => exact ⟨[], rfl, rfl, by simp⟩
  | @cons t e ts es here _ ih =>
      obtain ⟨chain, text, exprs, all⟩ := ih
      refine ⟨(op, t, e) :: chain, ?_, ?_, ?_⟩
      · rw [chainText, List.flatMap_cons, List.flatMap_cons, ← text]
        rfl
      · rw [List.map_cons, List.map_cons, exprs]
      · intro link member
        rcases List.mem_cons.mp member with rfl | member
        · exact here
        · exact all link member

theorem primary_operand (negated : Bool) (value : Text) (star : Bool) :
    Primary (operandText expand negated value star) (leafExpr expand negated value star) := by
  unfold operandText leafExpr
  cases variantsOf expand negated value star with
  | nil => exact primary_phrase value star
  | cons v vs =>
      have variants : List.Forall₂ Primary ((v :: vs).map quoteText)
          ((v :: vs).map fun v => Expr.phrase v false) := by
        rw [List.forall₂_map_left_iff, List.forall₂_map_right_iff, List.forall₂_same]
        intro w _
        have phrase := primary_phrase w false
        rwa [starText, if_neg Bool.false_ne_true, List.append_nil] at phrase
      obtain ⟨chain, text, exprs, all⟩ := exists_chain .or variants
      have whole := primary_chain (primary_phrase value star) chain all
      rw [text, exprs, List.map_map] at whole
      exact whole

theorem foldl_not (ns : List Text) (text : Text) :
    ns.foldl (fun expr n => expr ++ opText .not ++ n) text
      = text ++ ns.flatMap fun n => opText .not ++ n := by
  induction ns generalizing text with
  | nil => simp
  | cons n ns ih => rw [List.foldl_cons, ih, List.flatMap_cons]; simp

/-- The text of a group that is not starved. -/
def GroupText (text : Text) (g : Operands Expr) : Prop :=
  (g.positives = [] ∧ g.negatives = [] ∧ text = []) ∨
    (g.positives ≠ [] ∧ Primary text (groupExpr g))

theorem endGroup_spec {positives negatives : List Text} {g : Operands Expr}
    (pos : List.Forall₂ Primary positives g.positives)
    (neg : List.Forall₂ Primary negatives g.negatives) :
    (g.positives = [] ∧ g.negatives ≠ [] ∧ Refused (endGroup positives negatives)) ∨
      (¬ (g.positives = [] ∧ g.negatives ≠ []) ∧
        ∃ text, endGroup positives negatives = .ok text ∧ GroupText text g) := by
  obtain ⟨gPos, gNeg⟩ := g
  unfold endGroup GroupText groupExpr
  dsimp only at pos neg ⊢
  cases pos with
  | nil =>
      cases neg with
      | nil => exact Or.inr ⟨by simp, [], rfl, Or.inl ⟨rfl, rfl, rfl⟩⟩
      | cons _ _ => exact Or.inl ⟨rfl, by simp, .negationAlone, rfl⟩
  | @cons t e ts es here rest =>
      refine Or.inr ⟨by simp, _, if_neg (by simp), Or.inr ⟨by simp, ?_⟩⟩
      obtain ⟨ands, andText, andExprs, andAll⟩ := exists_chain .and rest
      obtain ⟨nots, notText, notExprs, notAll⟩ := exists_chain .not neg
      have chain := primary_chain here (ands ++ nots) fun link member =>
        (List.mem_append.mp member).elim (andAll link) (notAll link)
      have text : t ++ chainText (ands ++ nots) = negatives.foldl
          (fun expr n => expr ++ opText .not ++ n) (join .and (t :: ts)) := by
        rw [foldl_not, chainText, List.flatMap_append]
        change t ++ (chainText ands ++ chainText nots) = _
        rw [andText, notText, join, List.append_assoc]
      rw [text, List.map_append, andExprs, notExprs] at chain
      split
      · exact chain
      · rename_i single
        have alone : ts = [] ∧ negatives = [] := by
          simp only [List.length_cons] at single
          constructor <;> apply List.eq_nil_of_length_eq_zero <;> omega
        obtain ⟨rfl, rfl⟩ := alone
        cases rest
        cases neg
        rw [List.foldl_nil, join, List.flatMap_nil, List.append_nil]
        exact here

theorem endBranches_spec {texts : List Text} {groups : List (Operands Expr)}
    (each : List.Forall₂ GroupText texts groups) :
    ((∀ g ∈ groups, g.positives = []) ∧ endBranches texts = []) ∨
      ((∃ g ∈ groups, g.positives ≠ []) ∧ Primary (endBranches texts) (groupsExpr groups)) := by
  have kept : List.Forall₂ Primary (texts.filter fun part => part ≠ [])
      ((groups.filter fun g => g.positives ≠ []).map groupExpr) := by
    induction each with
    | nil => exact List.Forall₂.nil
    | @cons t g texts groups here _ ih =>
        rcases here with ⟨none, -, empty⟩ | ⟨some_, primary⟩
        · rw [List.filter_cons_of_neg (by simpa using empty),
            List.filter_cons_of_neg (by simpa using none)]
          exact ih
        · rw [List.filter_cons_of_pos (by simpa using primary.1),
            List.filter_cons_of_pos (by simpa using some_), List.map_cons]
          exact ih.cons primary
  unfold endBranches groupsExpr
  by_cases none : ∀ g ∈ groups, g.positives = []
  · refine Or.inl ⟨none, ?_⟩
    have empty : (groups.filter fun g => g.positives ≠ []) = [] :=
      List.filter_eq_nil_iff.mpr fun g member => by simpa using none g member
    rw [empty, List.map_nil] at kept
    cases h : texts.filter fun part => part ≠ [] with
    | nil => rfl
    | cons _ _ => rw [h] at kept; cases kept
  · refine Or.inr ⟨by simpa using none, ?_⟩
    have some_ : (groups.filter fun g => g.positives ≠ []) ≠ [] := fun empty =>
      none fun g member => by simpa using List.filter_eq_nil_iff.mp empty g member
    revert kept
    generalize (texts.filter fun part => part ≠ []) = parts
    cases exprs : (groups.filter fun g => g.positives ≠ []).map groupExpr with
    | nil => exact absurd (List.map_eq_nil_iff.mp exprs) some_
    | cons e es =>
        intro kept
        cases kept with
        | @cons t _ ts _ here rest =>
            obtain ⟨chain, text, pairs, all⟩ := exists_chain .or rest
            have whole := primary_chain here chain all
            rw [text, pairs] at whole
            cases ts with
            | nil =>
                cases rest
                exact here
            | cons t' ts => exact whole

/-! ### The compiled pieces -/

/-- The groups of pieces read from the start, as expressions. -/
def groupsOf (ps : Pieces) : List (Operands Expr) :=
  (pass (leafExpr expand) groupsExpr ps Walk.start).groups

def StarvedGroup {A : Type} (g : Operands A) : Prop := g.positives = [] ∧ g.negatives ≠ []

/-- Texts compiled so far, and the expressions they are. -/
structure Tracks (w : Progress) (v : Walk Expr) : Prop where
  done : List.Forall₂ GroupText w.branches v.done
  positives : List.Forall₂ Primary w.group.positives v.group.positives
  negatives : List.Forall₂ Primary w.group.negatives v.group.negatives
  pending : w.pending = v.pending

variable {expand}

theorem Tracks.push {w : Progress} {v : Walk Expr} (tracks : Tracks w v) (negated : Bool)
    {t : Text} {e : Expr} (primary : Primary t e) : Tracks (w.push negated t) (v.push negated e) := by
  obtain ⟨done, positives, negatives, -⟩ := tracks
  have one : List.Forall₂ Primary [t] [e] := List.Forall₂.cons primary List.Forall₂.nil
  cases negated with
  | true => exact ⟨done, positives, List.rel_append negatives one, rfl⟩
  | false => exact ⟨done, List.rel_append positives one, negatives, rfl⟩

theorem done_subset (ps : Pieces) : ∀ (v : Walk Expr), ∀ g ∈ v.done,
    g ∈ (pass (leafExpr expand) groupsExpr ps v).groups := by
  induction ps with
  | nil => intro v g member; exact List.mem_append_left _ member
  | op o rest ih =>
      intro v g member
      cases o with
      | and => exact ih v g member
      | not => exact ih { v with pending := true } g member
      | or => exact ih _ g (List.mem_append_left _ member)
  | str value star minus rest ih => intro v g member; exact ih _ g member
  | paren body rest _ ih =>
      intro v g member
      rw [pass]
      refine ih _ g ?_
      split
      · exact member
      · exact member

variable (expand)

/-- Some group is starved: of those the pass has at its end, or inside a parenthesis. -/
def StarvedFrom (ps : Pieces) (v : Walk Expr) : Prop :=
  (∃ q ∈ ps.inner, ∃ g ∈ groupsOf expand q, StarvedGroup g) ∨
    ∃ g ∈ (pass (leafExpr expand) groupsExpr ps v).groups, StarvedGroup g

theorem not_starved_of_text {texts : List Text} {groups : List (Operands Expr)}
    (each : List.Forall₂ GroupText texts groups) : ∀ g ∈ groups, ¬ StarvedGroup g := by
  induction each with
  | nil => intro g member; simp at member
  | cons here _ ih =>
      intro g member starved
      rcases List.mem_cons.mp member with rfl | member
      · rcases here with ⟨-, none, -⟩ | ⟨some_, -⟩
        · exact starved.2 none
        · exact some_ starved.1
      · exact ih g member starved

/-- The text compiled for groups: none where they have no operand. -/
def GroupsText (text : Text) (groups : List (Operands Expr)) : Prop :=
  ((∀ g ∈ groups, g.positives = []) ∧ text = []) ∨
    ((∃ g ∈ groups, g.positives ≠ []) ∧ Primary text (groupsExpr groups))

/-- The pieces are refused where a group is starved, and else compiled to their groups. -/
theorem compile_spec (ps : Pieces) :
    ∀ (w : Progress) (v : Walk Expr), Tracks w v →
      (StarvedFrom expand ps v ∧ Refused ((compile expand ps w).bind Progress.close)) ∨
        (¬ StarvedFrom expand ps v ∧
          ∃ text, (compile expand ps w).bind Progress.close = .ok text ∧
            GroupsText text (pass (leafExpr expand) groupsExpr ps v).groups) := by
  induction ps with
  | nil =>
      intro w v tracks
      have current : v.group ∈ v.groups := List.mem_append_right _ (List.mem_singleton_self _)
      rw [compile]
      show _ ∧ Refused w.close ∨ _ ∧ ∃ text, w.close = .ok text ∧ _
      unfold Progress.close
      rcases endGroup_spec tracks.positives tracks.negatives with
        ⟨pos, neg, e, error⟩ | ⟨fed, branch, ended, here⟩
      · exact Or.inl ⟨Or.inr ⟨v.group, current, pos, neg⟩, e, by rw [error]; rfl⟩
      · have all : List.Forall₂ GroupText (w.branches ++ [branch]) v.groups :=
          List.rel_append tracks.done (List.Forall₂.cons here List.Forall₂.nil)
        refine Or.inr ⟨?_, endBranches (w.branches ++ [branch]), by rw [ended]; rfl,
          endBranches_spec all⟩
        rintro (⟨q, member, -⟩ | ⟨g, member, starved⟩)
        · simp [Pieces.inner] at member
        · exact not_starved_of_text all g member starved
  | op o rest ih =>
      intro w v tracks
      cases o with
      | and => exact ih w v tracks
      | not =>
          exact ih { w with pending := true } { v with pending := true }
            ⟨tracks.done, tracks.positives, tracks.negatives, rfl⟩
      | or =>
          rw [compile]
          rcases endGroup_spec tracks.positives tracks.negatives with
            ⟨pos, neg, e, error⟩ | ⟨fed, branch, ended, here⟩
          · refine Or.inl ⟨Or.inr ⟨v.group, ?_, pos, neg⟩, e, by rw [error]; rfl⟩
            exact done_subset rest _ v.group
              (List.mem_append_right _ (List.mem_singleton_self _))
          · rw [ended]
            exact ih _ _ ⟨List.rel_append tracks.done (List.Forall₂.cons here List.Forall₂.nil),
              List.Forall₂.nil, List.Forall₂.nil, rfl⟩
  | str value star minus rest ih =>
      intro w v tracks
      have same := tracks.pending
      rw [compile, same]
      exact ih _ _ (tracks.push _ (primary_operand expand _ value star))
  | paren body rest ihBody ih =>
      intro w v tracks
      have split : StarvedFrom expand (.paren body rest) v ↔
          StarvedFrom expand body Walk.start ∨ StarvedFrom expand rest
            (if body.bare then { v with pending := false }
              else v.push v.pending
                (groupsExpr (pass (leafExpr expand) groupsExpr body Walk.start).groups)) := by
        unfold StarvedFrom groupsOf
        simp only [Pieces.inner, List.mem_cons, List.mem_append, or_and_right, exists_or,
          exists_eq_left]
        rw [pass]
        constructor
        · rintro ((own | inBody | inRest) | last)
          · exact Or.inl (Or.inr own)
          · exact Or.inl (Or.inl inBody)
          · exact Or.inr (Or.inl inRest)
          · exact Or.inr (Or.inr last)
        · rintro ((inBody | own) | inRest | last)
          · exact Or.inl (Or.inr (Or.inl inBody))
          · exact Or.inl (Or.inl own)
          · exact Or.inl (Or.inr (Or.inr inRest))
          · exact Or.inr last
      rw [split, compile]
      rcases ihBody Progress.start Walk.start ⟨List.Forall₂.nil, List.Forall₂.nil, List.Forall₂.nil, rfl⟩
        with ⟨starved, e, error⟩ | ⟨fed, operand, ended, here⟩
      · exact Or.inl ⟨Or.inl starved, e, by rw [error]; rfl⟩
      · rw [ended]
        change (_ ∧ Refused ((compile expand rest
            (if operand = [] then _ else _)).bind Progress.close)) ∨
          _ ∧ ∃ text, (compile expand rest (if operand = [] then _ else _)).bind Progress.close
            = .ok text ∧ _
        have empty := pass_groups_empty (leafExpr expand) groupsExpr body Walk.start
        simp only [show ¬ (StarvedFrom expand body Walk.start) from fed, false_or]
        rw [pass]
        by_cases bare : body.bare = true
        · have none := empty.mpr ⟨bare, by simp [Walk.start, Walk.groups]⟩
          rcases here with ⟨-, rfl⟩ | ⟨⟨g, member, some_⟩, -⟩
          · simp only [if_pos bare, if_true]
            exact ih { w with pending := false } { v with pending := false }
              ⟨tracks.done, tracks.positives, tracks.negatives, rfl⟩
          · exact absurd (none g member).1 some_
        · rcases here with ⟨allNone, -⟩ | ⟨-, primary⟩
          · refine absurd (empty.mp fun g member => ⟨allNone g member, ?_⟩).1 bare
            by_contra some_
            exact fed (Or.inr ⟨g, member, allNone g member, some_⟩)
          · simp only [if_neg bare, if_neg primary.1, tracks.pending]
            exact ih _ _ (tracks.push v.pending primary)

/-! ## The expression and the text -/

/-- Whether a group is starved is seen on the number of its operands. -/
theorem starvedFrom_iff (ps : Pieces) : StarvedFrom expand ps Walk.start ↔ Starved ps := by
  have counted : ∀ q : Pieces,
      (∃ g ∈ (pass (leafExpr expand) groupsExpr q Walk.start).groups, StarvedGroup g) ↔
        ∃ g ∈ (pass (fun _ _ _ => ()) (fun _ => ()) q Walk.start).groups, StarvedGroup g := by
    intro q
    have units := pass_map (fun _ => ()) (leafExpr expand) groupsExpr (fun _ _ _ => ())
      (fun _ => ()) (fun _ _ _ => rfl) (fun _ => rfl) q Walk.start
    have start : Walk.map (fun _ : Expr => ()) Walk.start = Walk.start := rfl
    rw [start] at units
    rw [← units, Walk.groups_map]
    simp [StarvedGroup, Operands.map]
  unfold StarvedFrom Starved groupsOf
  simp only [List.mem_cons, exists_eq_or_imp, counted]
  exact or_comm

/-- On matched tokens: the refusal, or the text of their expression. -/
theorem ftsQuery_result (text : Text) (ps : Pieces) (flat : ps.flat = tokenizeFts text) :
    (Starved ps ∧ Refused (ftsQuery expand text)) ∨
      (¬ Starved ps ∧ ∃ out, ftsQuery expand text = .ok out ∧
        readMatch out = some (exprOf expand ps)) := by
  have start : Tracks Progress.start Walk.start :=
    ⟨List.Forall₂.nil, List.Forall₂.nil, List.Forall₂.nil, rfl⟩
  rw [ftsQuery_flat expand text ps flat, ← starvedFrom_iff expand ps]
  rcases compile_spec expand ps Progress.start Walk.start start with
    ⟨starved, e, error⟩ | ⟨fed, expr, ended, ⟨none, rfl⟩ | ⟨some_, primary⟩⟩
  · exact Or.inl ⟨starved, e, by rw [error]; rfl⟩
  · refine Or.inr ⟨fed, quoteText [], by rw [ended]; rfl, ?_⟩
    have empty := (primary_phrase [] false).readMatch
    rw [starText, if_neg Bool.false_ne_true, List.append_nil] at empty
    have groups : ((pass (leafExpr expand) groupsExpr ps Walk.start).groups.filter
        fun g => g.positives ≠ []) = [] :=
      List.filter_eq_nil_iff.mpr fun g member => by simpa using none g member
    rw [empty, exprOf, groupsExpr, groups]
    rfl
  · refine Or.inr ⟨fed, expr, ?_, primary.readMatch⟩
    rw [ended]
    exact congrArg Except.ok (if_neg primary.1)

/-! ## What the expression matches -/

section Denote

variable {D : Type} (index : Text → Bool → Set D)

theorem mem_groupExpr (d : D) (g : Operands Expr) (some_ : g.positives ≠ []) :
    d ∈ (groupExpr g).denote index ↔
      (∀ p ∈ g.positives, d ∈ p.denote index) ∧ ∀ n ∈ g.negatives, d ∉ n.denote index := by
  obtain ⟨positives, negatives⟩ := g
  cases positives with
  | nil => exact absurd rfl some_
  | cons p ps =>
      have narrow : ∀ link ∈ ps.map (fun e => (Op.and, e)) ++ negatives.map (fun e => (Op.not, e)),
          link.1 ≠ .or := by
        intro link member
        simp only [List.mem_append, List.mem_map] at member
        rcases member with ⟨e, -, rfl⟩ | ⟨e, -, rfl⟩ <;> simp
      have chain := mem_chainFold_narrow index d _ Frame.empty p rfl narrow
      have first : (Frame.empty.orDone p).denote index = p.denote index := rfl
      unfold groupExpr chainExpr
      dsimp only
      rw [chain, first, List.forall_mem_cons, List.forall_mem_append, and_assoc]
      simp

theorem denote_groupsExpr (groups : List (Operands Expr)) :
    (groupsExpr groups).denote index
      = groupsSet (groups.map (Operands.map (Expr.denote index))) := by
  ext d
  have wanted : d ∈ groupsSet (groups.map (Operands.map (Expr.denote index))) ↔
      ∃ e ∈ (groups.filter fun g => g.positives ≠ []).map groupExpr, d ∈ e.denote index := by
    constructor
    · rintro ⟨_, member, some_, pos, neg⟩
      obtain ⟨g, inGroups, rfl⟩ := List.mem_map.mp member
      have fed : g.positives ≠ [] := by simpa [Operands.map] using some_
      refine ⟨groupExpr g, List.mem_map_of_mem (List.mem_filter.mpr ⟨inGroups, by simpa using fed⟩),
        (mem_groupExpr index d g fed).mpr ⟨fun p inPos => ?_, fun n inNeg => ?_⟩⟩
      · exact pos _ (List.mem_map_of_mem inPos)
      · exact neg _ (List.mem_map_of_mem inNeg)
    · rintro ⟨_, member, here⟩
      obtain ⟨g, kept, rfl⟩ := List.mem_map.mp member
      obtain ⟨inGroups, some_⟩ := List.mem_filter.mp kept
      have fed : g.positives ≠ [] := by simpa using some_
      obtain ⟨pos, neg⟩ := (mem_groupExpr index d g fed).mp here
      refine ⟨g.map (Expr.denote index), List.mem_map_of_mem inGroups,
        by simpa [Operands.map] using fed, ?_, ?_⟩
      · intro _ inPos
        obtain ⟨p, inG, rfl⟩ := List.mem_map.mp inPos
        exact pos p inG
      · intro _ inNeg
        obtain ⟨n, inG, rfl⟩ := List.mem_map.mp inNeg
        exact neg n inG
  rw [wanted, groupsExpr]
  cases (groups.filter fun g => g.positives ≠ []).map groupExpr with
  | nil => simp [Expr.denote, phraseSet]
  | cons e es =>
      have wide : ∀ link ∈ es.map (fun e => (Op.or, e)), link.1 = Op.or := by
        intro link member
        obtain ⟨e, -, rfl⟩ := List.mem_map.mp member
        rfl
      have chain := mem_chainFold_wide index d _ Frame.empty e wide
      have first : (Frame.empty.orDone e).denote index = e.denote index := rfl
      unfold chainExpr
      rw [chain, first, List.exists_mem_cons_iff]
      simp

/-- Without expansion the expression matches what the text asks for. -/
theorem denote_exprOf (ps : Pieces) : (exprOf none ps).denote index = meaning index ps := by
  have leaf : ∀ (negated : Bool) (value : Text) (star : Bool),
      (leafExpr none negated value star).denote index = phraseSet index value star :=
    fun _ _ _ => rfl
  have passed := pass_map (Expr.denote index) (leafExpr none) groupsExpr
    (fun _ value star => phraseSet index value star) groupsSet leaf (denote_groupsExpr index) ps
    Walk.start
  have start : Walk.map (Expr.denote index) Walk.start = Walk.start := rfl
  rw [exprOf, denote_groupsExpr, ← Walk.groups_map, passed, start]
  rfl

end Denote

section Widening

variable (variants : Text → List Text)

/-- No plain term with variants, itself not negated, stands where terms count as `false`:
under an odd number of negated parentheses, when `pos` is `true` outside. -/
def PositiveOnly : Bool → Bool → Pieces → Prop
  | _, _, .nil => True
  | pos, pending, .op .and rest => PositiveOnly pos pending rest
  | pos, _, .op .not rest => PositiveOnly pos true rest
  | pos, _, .op .or rest => PositiveOnly pos false rest
  | pos, pending, .str value star minus rest =>
      (pos = true ∨ variantsOf (some variants) (pending || minus) value star = []) ∧
        PositiveOnly pos false rest
  | pos, pending, .paren body rest =>
      PositiveOnly (if pending then !pos else pos) false body ∧ PositiveOnly pos false rest

/-- Both expressions of each operand, without and with expansion. -/
def pairs (ps : Pieces) (w : Walk (Expr × Expr)) : Walk (Expr × Expr) :=
  pass (fun negated value star =>
      (leafExpr none negated value star, leafExpr (some variants) negated value star))
    (fun groups => (groupsExpr (groups.map (Operands.map Prod.fst)),
      groupsExpr (groups.map (Operands.map Prod.snd)))) ps w

/-- Every operand of the group is widened by how it counts. -/
def WidensGroup (pos : Bool) (g : Operands (Expr × Expr)) : Prop :=
  (∀ p ∈ g.positives, Widens pos p.1 p.2) ∧ ∀ n ∈ g.negatives, Widens (!pos) n.1 n.2

theorem pairs_fst (ps : Pieces) :
    (pairs variants ps Walk.start).groups.map (Operands.map Prod.fst) = groupsOf none ps := by
  have passed := pass_map Prod.fst
    (fun negated value star =>
      (leafExpr none negated value star, leafExpr (some variants) negated value star))
    (fun groups => (groupsExpr (groups.map (Operands.map Prod.fst)),
      groupsExpr (groups.map (Operands.map Prod.snd))))
    (leafExpr none) groupsExpr (fun _ _ _ => rfl) (fun _ => rfl) ps Walk.start
  rw [← Walk.groups_map, pairs, passed]
  rfl

theorem pairs_snd (ps : Pieces) :
    (pairs variants ps Walk.start).groups.map (Operands.map Prod.snd)
      = groupsOf (some variants) ps := by
  have passed := pass_map Prod.snd
    (fun negated value star =>
      (leafExpr none negated value star, leafExpr (some variants) negated value star))
    (fun groups => (groupsExpr (groups.map (Operands.map Prod.fst)),
      groupsExpr (groups.map (Operands.map Prod.snd))))
    (leafExpr (some variants)) groupsExpr (fun _ _ _ => rfl) (fun _ => rfl) ps Walk.start
  rw [← Walk.groups_map, pairs, passed]
  rfl

theorem widens_leaf (pos negated : Bool) (value : Text) (star : Bool) :
    Widens pos (leafExpr none negated value star) (leafExpr (some variants) negated value star) ↔
      pos = true ∨ variantsOf (some variants) negated value star = [] := by
  have alternatives := widens_phrase_chain value star
    ((variantsOf (some variants) negated value star).map fun v => .phrase v false) pos
  rw [List.map_map, List.map_eq_nil_iff] at alternatives
  exact alternatives

theorem widens_group (pos : Bool) (g : Operands (Expr × Expr)) (some_ : g.positives ≠ []) :
    Widens pos (groupExpr (g.map Prod.fst)) (groupExpr (g.map Prod.snd)) ↔ WidensGroup pos g := by
  obtain ⟨positives, negatives⟩ := g
  cases positives with
  | nil => exact absurd rfl some_
  | cons p ps =>
      have chain := widens_chain pos p.1 p.2
        (ps.map (fun e => (Op.and, e)) ++ negatives.map fun e => (Op.not, e))
      simp only [List.map_append, List.map_map, Function.comp_def] at chain
      simp only [groupExpr, Operands.map, List.map_cons, List.map_map, Function.comp_def]
      rw [chain, List.forall_mem_append, List.forall_mem_map, List.forall_mem_map, WidensGroup,
        List.forall_mem_cons, and_assoc]
      exact Iff.rfl

theorem widens_groups (pos : Bool) (groups : List (Operands (Expr × Expr)))
    (fed : ∀ g ∈ groups, ¬ StarvedGroup g) :
    Widens pos (groupsExpr (groups.map (Operands.map Prod.fst)))
      (groupsExpr (groups.map (Operands.map Prod.snd))) ↔ ∀ g ∈ groups, WidensGroup pos g := by
  have kept : ∀ f : Expr × Expr → Expr,
      (groups.map (Operands.map f)).filter (fun g => g.positives ≠ [])
        = (groups.filter fun g => g.positives ≠ []).map (Operands.map f) := by
    intro f
    rw [List.filter_map]
    congr 1
    exact List.filter_congr fun g _ => by simp [Operands.map]
  have all : (∀ g ∈ groups, WidensGroup pos g) ↔
      ∀ g ∈ groups.filter fun g => g.positives ≠ [], WidensGroup pos g := by
    constructor
    · exact fun each g member => each g (List.mem_of_mem_filter member)
    · intro each g member
      by_cases none : g.positives = []
      · have noNegatives : g.negatives = [] := by
          by_contra some_
          exact fed g member ⟨none, some_⟩
        simp [WidensGroup, none, noNegatives]
      · exact each g (List.mem_filter.mpr ⟨member, by simpa using none⟩)
  have nonempty : ∀ g ∈ groups.filter fun g => g.positives ≠ [], g.positives ≠ [] :=
    fun g member => by simpa using (List.mem_filter.mp member).2
  rw [all]
  unfold groupsExpr
  rw [kept, kept]
  revert nonempty
  generalize (groups.filter fun g => g.positives ≠ []) = rest
  intro nonempty
  cases rest with
  | nil => exact iff_of_true (.same _ _) (by simp)
  | cons g gs =>
      have first := widens_group pos g (nonempty g List.mem_cons_self)
      have chain := widens_chain pos (groupExpr (g.map Prod.fst)) (groupExpr (g.map Prod.snd))
        (gs.map fun g => (Op.or, groupExpr (g.map Prod.fst), groupExpr (g.map Prod.snd)))
      simp only [List.map_map, Function.comp_def] at chain
      simp only [List.map_cons, List.map_map, Function.comp_def]
      rw [chain, first, List.forall_mem_cons, List.forall_mem_map]
      refine and_congr_right fun _ => forall₂_congr fun h member => ?_
      exact widens_group pos h (nonempty h (List.mem_cons_of_mem g member))

theorem bare_positiveOnly (ps : Pieces) (bare : ps.bare = true) :
    ∀ pos pending, PositiveOnly variants pos pending ps := by
  induction ps with
  | nil => intro pos pending; trivial
  | op o rest ih =>
      intro pos pending
      cases o <;> exact ih bare pos _
  | str value star minus rest _ => cases bare
  | paren body rest ihBody ih =>
      intro pos pending
      rw [Pieces.bare, Bool.and_eq_true] at bare
      exact ⟨ihBody bare.1 _ _, ih bare.2 _ _⟩

theorem widensGroups_push (pos negated : Bool) (w : Walk (Expr × Expr)) (x : Expr × Expr) :
    (∀ g ∈ (w.push negated x).groups, WidensGroup pos g) ↔
      (∀ g ∈ w.groups, WidensGroup pos g) ∧ Widens (if negated then !pos else pos) x.1 x.2 := by
  unfold Walk.groups
  simp only [List.forall_mem_append, List.forall_mem_singleton]
  cases negated with
  | true =>
      simp only [Walk.push, WidensGroup, List.forall_mem_append, List.forall_mem_singleton, if_true]
      tauto
  | false =>
      simp only [Walk.push, WidensGroup, List.forall_mem_append, List.forall_mem_singleton,
        Bool.false_eq_true, if_false]
      tauto

theorem pairs_fed (ps : Pieces) (fed : ∀ g ∈ groupsOf none ps, ¬ StarvedGroup g) :
    ∀ g ∈ (pairs variants ps Walk.start).groups, ¬ StarvedGroup g := by
  intro g member starved
  refine fed (g.map Prod.fst) (pairs_fst variants ps ▸ List.mem_map_of_mem member) ?_
  exact ⟨by simpa [Operands.map] using starved.1, by simpa [Operands.map] using starved.2⟩

/-- The operands of the pieces are widened by how they count exactly where no term is
expanded that counts as `false`. -/
theorem widensGroups_iff (ps : Pieces) (pos : Bool) :
    ∀ w : Walk (Expr × Expr), (∀ q ∈ ps.inner, ∀ g ∈ groupsOf none q, ¬ StarvedGroup g) →
      ((∀ g ∈ (pairs variants ps w).groups, WidensGroup pos g) ↔
        (∀ g ∈ w.groups, WidensGroup pos g) ∧ PositiveOnly variants pos w.pending ps) := by
  induction ps generalizing pos with
  | nil => intro w _; simp [pairs, pass, PositiveOnly]
  | op o rest ih =>
      intro w fed
      cases o with
      | and => exact ih pos w fed
      | not => exact ih pos { w with pending := true } fed
      | or =>
          have next := ih pos ⟨w.groups, ⟨[], []⟩, false⟩ fed
          rw [PositiveOnly]
          refine next.trans (and_congr_left fun _ => ?_)
          show (∀ g ∈ w.groups ++ [⟨[], []⟩], _) ↔ _
          rw [List.forall_mem_append, List.forall_mem_singleton]
          exact and_iff_left ⟨by simp, by simp⟩
  | str value star minus rest ih =>
      intro w fed
      have next := ih pos (w.push (w.pending || minus) (leafExpr none (w.pending || minus) value star,
        leafExpr (some variants) (w.pending || minus) value star)) fed
      rw [widensGroups_push, widens_leaf] at next
      rw [PositiveOnly]
      refine next.trans ?_
      rw [and_assoc]
      refine and_congr_right fun _ => and_congr ?_ Iff.rfl
      -- A negated term has no variants.
      cases negated : w.pending || minus with
      | false => simp
      | true => simp [variantsOf]
  | paren body rest ihBody ih =>
      intro w fed
      have inBody : ∀ q ∈ body.inner, ∀ g ∈ groupsOf none q, ¬ StarvedGroup g := fun q member =>
        fed q (List.mem_cons_of_mem _ (List.mem_append_left _ member))
      have inRest : ∀ q ∈ rest.inner, ∀ g ∈ groupsOf none q, ¬ StarvedGroup g := fun q member =>
        fed q (List.mem_cons_of_mem _ (List.mem_append_right _ member))
      rw [PositiveOnly, pairs, pass]
      change (∀ g ∈ (pairs variants rest (if body.bare then { w with pending := false }
        else w.push w.pending (groupsExpr ((pairs variants body Walk.start).groups.map
          (Operands.map Prod.fst)), groupsExpr ((pairs variants body Walk.start).groups.map
            (Operands.map Prod.snd))))).groups, WidensGroup pos g) ↔ _
      by_cases bare : body.bare = true
      · rw [if_pos bare]
        refine (ih pos { w with pending := false } inRest).trans ?_
        refine and_congr_right fun _ => ?_
        exact ⟨fun only => ⟨bare_positiveOnly variants body bare _ _, only⟩, fun both => both.2⟩
      · rw [if_neg bare]
        have inside := widens_groups (if w.pending then !pos else pos) _
          (pairs_fed variants body (fed body List.mem_cons_self))
        rw [ihBody (if w.pending then !pos else pos) Walk.start inBody] at inside
        refine (ih pos _ inRest).trans ?_
        rw [widensGroups_push, inside, and_assoc]
        refine and_congr_right fun _ => and_congr ⟨fun both => both.2, fun only => ⟨?_, only⟩⟩ Iff.rfl
        simp [Walk.start, Walk.groups, WidensGroup]

theorem fed_groups (ps : Pieces) (fed : ¬ Starved ps) :
    (∀ g ∈ groupsOf none ps, ¬ StarvedGroup g) ∧
      ∀ q ∈ ps.inner, ∀ g ∈ groupsOf none q, ¬ StarvedGroup g := by
  rw [← starvedFrom_iff none] at fed
  constructor
  · exact fun g member starved => fed (Or.inr ⟨g, member, starved⟩)
  · exact fun q inner g member starved => fed (Or.inl ⟨q, inner, g, member, starved⟩)

/-- The expanded text is the plain one with alternatives beside terms that count as
positive, and so matches all that the plain one does. -/
def OnlyWidens (plain wide : Text) : Prop :=
  ∃ e e', readMatch plain = some e ∧ readMatch wide = some e' ∧ Widens true e e' ∧
    ∀ (D : Type) (index : Text → Bool → Set D), e.denote index ⊆ e'.denote index

/-- **Expansion only widens exactly where no expandable term stands, itself not negated,
under an odd number of negated parentheses.** -/
theorem ftsQuery_widens_iff (text : Text) (ps : Pieces) (flat : ps.flat = tokenizeFts text)
    (fed : ¬ Starved ps) :
    ∃ plain wide, ftsQuery none text = .ok plain ∧ ftsQuery (some variants) text = .ok wide ∧
      (OnlyWidens plain wide ↔ PositiveOnly variants true false ps) := by
  rcases ftsQuery_result none text ps flat with ⟨starved, -⟩ | ⟨-, plain, plainOk, plainRead⟩
  · exact absurd starved fed
  rcases ftsQuery_result (some variants) text ps flat with ⟨starved, -⟩ | ⟨-, wide, wideOk, wideRead⟩
  · exact absurd starved fed
  obtain ⟨outer, inner⟩ := fed_groups ps fed
  have widened : Widens true (exprOf none ps) (exprOf (some variants) ps) ↔
      PositiveOnly variants true false ps := by
    have groups := widens_groups true _ (pairs_fed variants ps outer)
    rw [pairs_fst, pairs_snd, widensGroups_iff variants ps true Walk.start inner] at groups
    refine groups.trans ⟨fun both => both.2, fun only => ⟨?_, only⟩⟩
    simp [Walk.start, Walk.groups, WidensGroup]
  refine ⟨plain, wide, plainOk, wideOk, ?_⟩
  rw [← widened]
  constructor
  · rintro ⟨e, e', read, read', wider, -⟩
    rw [plainRead, Option.some_inj] at read
    rw [wideRead, Option.some_inj] at read'
    exact read ▸ read' ▸ wider
  · exact fun wider => ⟨_, _, plainRead, wideRead, wider, fun D index => wider.subset index⟩

end Widening

/-! ## A term in a negated parenthesis, and one beside a negated term -/

def stems (term : Text) : List Text := if term = "b".toList then ["c".toList] else []

/-- `b -a` -/
def besideNegated : Pieces := .str "b".toList false false (.str "a".toList false true .nil)

theorem ftsQuery_widens_besideNegated :
    ∃ plain wide, ftsQuery none "b -a".toList = .ok plain ∧
      ftsQuery (some stems) "b -a".toList = .ok wide ∧ OnlyWidens plain wide := by
  obtain ⟨plain, wide, plainOk, wideOk, widens⟩ :=
    ftsQuery_widens_iff stems "b -a".toList besideNegated (by decide +kernel)
      (by unfold Starved; decide)
  refine ⟨plain, wide, plainOk, wideOk, widens.mpr ⟨Or.inl rfl, Or.inl rfl, trivial⟩⟩

/-- `a NOT (b)` -/
def negatedGroup : Pieces :=
  .str "a".toList false false (.op .not (.paren (.str "b".toList false false .nil) .nil))

/-- A document with `a` and `c` but not `b` is found without expansion and not with it. -/
theorem ftsQuery_expands_negatedGroup :
    ∃ plain wide e e', ftsQuery none "a NOT (b)".toList = .ok plain ∧
      ftsQuery (some stems) "a NOT (b)".toList = .ok wide ∧
      readMatch plain = some e ∧ readMatch wide = some e' ∧
      ∃ index : Text → Bool → Set Unit, () ∈ e.denote index ∧ () ∉ e'.denote index := by
  have flat : negatedGroup.flat = tokenizeFts "a NOT (b)".toList := by decide +kernel
  have fed : ¬ Starved negatedGroup := by unfold Starved; decide
  rcases ftsQuery_result none _ negatedGroup flat with ⟨starved, -⟩ | ⟨-, plain, plainOk, plainRead⟩
  · exact absurd starved fed
  rcases ftsQuery_result (some stems) _ negatedGroup flat with
    ⟨starved, -⟩ | ⟨-, wide, wideOk, wideRead⟩
  · exact absurd starved fed
  have first : exprOf none negatedGroup
      = .not (.phrase "a".toList false) (.phrase "b".toList false) := by decide
  have second : exprOf (some stems) negatedGroup = .not (.phrase "a".toList false)
      (.or (.phrase "b".toList false) (.phrase "c".toList false)) := by decide
  refine ⟨plain, wide, _, _, plainOk, wideOk, plainRead, wideRead,
    fun value _ => { _d | value ≠ "b".toList }, ?_, ?_⟩
  · rw [first]
    simp [Expr.denote, phraseSet]
  · rw [second]
    simp [Expr.denote, phraseSet]

end Kiagent.Store.FtsQuery
