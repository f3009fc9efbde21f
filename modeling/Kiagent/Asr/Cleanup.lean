/-
# Asr.Cleanup -- what is left of a transcript

`removeLoops` keeps whole sentences: the first of a run of identical ones, unless it loops, and
every other one that does not.  It looks once, at the sentences it was given.  Where dropping
some makes others neighbours, or a space takes the place of a line break, the result may loop
again (`repeated_again`); where the kept sentences stay apart it is final (`removeLoops_spec`).
-/
import Kiagent.Asr.Loops

namespace Kiagent.Asr

open Store.FtsQuery (isSpace trim)

set_option autoImplicit false

/-- What is relied on: a space parts a text in two, and a character that ends a sentence or
parts two of them stays one that no token has, and changes no other into one. -/
structure Unicode.Parted (U : Unicode) : Prop where
  empty : U.normal [] = []
  space : ∀ a b, U.normal (a ++ ' ' :: b) = U.normal a ++ ' ' :: U.normal b
  blank : U.isToken ' ' = false
  break_ : ∀ c, isSpace c = true ∨ c ∈ CJK_STOPS → ∀ a b,
    (U.normal (a ++ c :: b)).map U.isToken
      = (U.normal a).map U.isToken ++ false :: (U.normal b).map U.isToken

/-! ## Tokens -/

def pieces {α : Type} (p : α → Bool) (l : List α) : List (List α) :=
  (l.splitOnP p).filter (· ≠ [])

theorem pieces_append {α : Type} {p : α → Bool} {c : α} (parts : p c = true) (a b : List α) :
    pieces p (a ++ c :: b) = pieces p a ++ pieces p b := by
  unfold pieces
  rw [List.splitOnP_append_cons a b parts, List.filter_append]

theorem splitOnP_map {α β : Type} (f : α → β) (p : β → Bool) (l : List α) :
    (l.map f).splitOnP p = (l.splitOnP fun a => p (f a)).map (List.map f) := by
  induction l with
  | nil => rfl
  | cons a l ih =>
      rw [List.map_cons, List.splitOnP_cons_eq_if_modifyHead, List.splitOnP_cons_eq_if_modifyHead,
        ih]
      split
      · rfl
      · cases l.splitOnP fun a => p (f a) <;> rfl

theorem pieces_map {α β : Type} (f : α → β) (p : β → Bool) (l : List α) :
    pieces p (l.map f) = (pieces (fun a => p (f a)) l).map (List.map f) := by
  have some_ : ((fun t : List β => decide (t ≠ [])) ∘ List.map f) = fun t => decide (t ≠ []) := by
    funext t
    cases t <;> rfl
  unfold pieces
  rw [splitOnP_map, List.filter_map, some_]

/-! ## Where a text is cut -/

/-- It ends in a stop, perhaps with closers behind it. -/
def stoppedBy (part : Text) : Bool :=
  part.foldl (fun stopped c => c ∈ STOPS || (stopped && c ∈ CLOSERS)) false

def stoppedCjk (part : Text) : Bool := part.getLast?.any fun c => c ∈ CJK_STOPS

/-- What the split knows of the part is so. -/
def Fits : Cutting → Text → Prop
  | .part stopped stoppedCjk', part => stopped = stoppedBy part ∧ stoppedCjk' = stoppedCjk part
  | _, part => part = []

theorem fits_after {part : Text} (c : Char) :
    Fits (.after (stoppedBy part) c) (part ++ [c]) := by
  refine ⟨?_, ?_⟩
  · show _ = stoppedBy (part ++ [c])
    rw [stoppedBy, stoppedBy, List.foldl_append]
    rfl
  · show _ = stoppedCjk (part ++ [c])
    rw [stoppedCjk, List.getLast?_concat]
    rfl

theorem fits_first (c : Char) : Fits (.after false c) [c] := @fits_after [] c

theorem fits_newlines : Fits .newlines [] := rfl

theorem fits_spaces : Fits .spaces [] := rfl

theorem stoppedCjk_spec {part : Text} (stop : stoppedCjk part = true) :
    ∃ q c, part = q ++ [c] ∧ c ∈ CJK_STOPS := by
  unfold stoppedCjk at stop
  cases last : part.getLast? with
  | none => rw [last] at stop; cases stop
  | some c =>
      rw [last] at stop
      obtain ⟨q, rfl⟩ := List.getLast?_eq_some_iff.mp last
      exact ⟨q, c, rfl, of_decide_eq_true stop⟩

/-- No line break, and no place to cut but its end. -/
def Solid (part : Text) : Prop :=
  ∀ q c r, part = q ++ c :: r →
    c ≠ '\n' ∧ stoppedCjk q = false ∧ ¬ (stoppedBy q = true ∧ isSpace c = true)

theorem solid_nil : Solid [] := fun q c r same => by simp at same

theorem solid_snoc {part : Text} {c : Char} (solid : Solid part) (line : c ≠ '\n')
    (free : stoppedCjk part = false) (open_ : ¬ (stoppedBy part = true ∧ isSpace c = true)) :
    Solid (part ++ [c]) := by
  intro q d r same
  rcases List.eq_nil_or_concat r with rfl | ⟨r', e, rfl⟩
  · obtain ⟨rfl, last⟩ := List.append_inj' same rfl
    cases last
    exact ⟨line, free, open_⟩
  · rw [List.concat_eq_append, ← List.cons_append, ← List.append_assoc] at same
    exact solid q d r' (List.append_inj' same rfl).1

theorem Solid.left {p q : Text} (solid : Solid (p ++ q)) : Solid p := fun a c r same =>
  solid a c (r ++ q) (by rw [same, List.append_assoc, List.cons_append])

theorem stop_no_space {c : Char} (space : isSpace c = true) :
    c ∉ STOPS ∧ c ∉ CLOSERS ∧ c ∉ CJK_STOPS := by
  have none_ : ∀ d ∈ STOPS ++ CLOSERS ++ CJK_STOPS, isSpace d = false := by
    simp [STOPS, CLOSERS, CJK_STOPS, isSpace]
  refine ⟨fun stop => ?_, fun closer => ?_, fun stop => ?_⟩
  · rw [none_ c (by simp [stop])] at space
    cases space
  · rw [none_ c (by simp [closer])] at space
    cases space
  · rw [none_ c (by simp [stop])] at space
    cases space

/-- **The parts** of a text have no place to cut in them. -/
theorem cut_solid (cs : Text) : ∀ (mode : Cutting) (part : Text), Fits mode part → Solid part →
    ∀ t ∈ cut mode part cs, Solid t := by
  induction cs with
  | nil =>
      intro mode part _ solid t member
      cases mode <;> rw [cut, List.mem_singleton] at member <;> rwa [member]
  | cons c cs ih =>
      intro mode part fits solid t member
      have line : ∀ {d : Char}, ¬ d = '\n' → Solid [d] := fun other =>
        solid_snoc solid_nil other rfl (by simp [stoppedBy])
      cases mode with
      | newlines =>
          cases fits
          unfold cut at member
          split at member
          · exact ih _ _ fits_newlines solid t member
          · rename_i other
            exact ih _ _ (fits_first c) (line other) t member
      | spaces =>
          cases fits
          unfold cut at member
          split at member
          · exact ih _ _ fits_spaces solid t member
          · rename_i other
            exact ih _ _ (fits_first c) (line fun same => other (same ▸ by decide)) t member
      | part stopped stopped' =>
          obtain ⟨rfl, rfl⟩ := fits
          unfold cut at member
          split at member
          · rcases List.mem_cons.mp member with rfl | more
            · exact solid
            · exact ih _ _ fits_newlines solid_nil t more
          · rename_i other
            split at member
            · rcases List.mem_cons.mp member with rfl | more
              · exact solid
              · exact ih _ _ (fits_first c) (line other) t more
            · rename_i free
              split at member
              · rcases List.mem_cons.mp member with rfl | more
                · exact solid
                · exact ih _ _ fits_spaces solid_nil t more
              · rename_i stays
                refine ih _ _ (fits_after c) (solid_snoc solid other ?_ ?_) t member
                · by_contra here
                  have stop := Bool.not_eq_false _ ▸ here
                  have some_ : part ≠ [] := by
                    rintro rfl
                    cases stop
                  exact free (by rw [stop]; simp [some_])
                · rwa [Bool.and_eq_true] at stays

/-! ## Sentences -/

/-- No space at either end. -/
structure Trimmed (t : Text) : Prop where
  first : ∀ c cs, t = c :: cs → isSpace c = false
  last : ∀ cs c, t = cs ++ [c] → isSpace c = false

structure Sentence (t : Text) : Prop extends Trimmed t where
  solid : Solid t
  some_ : t ≠ []

theorem dropWhile_first {t : Text} {c : Char} {cs : Text} (same : t.dropWhile isSpace = c :: cs) :
    isSpace c = false := by
  have head := List.head?_dropWhile_not isSpace t
  rw [same] at head
  simpa using head

theorem Trimmed.trim {t : Text} (trimmed : Trimmed t) : trim t = t := by
  have front : t.dropWhile isSpace = t := by
    cases t with
    | nil => rfl
    | cons c cs => rw [List.dropWhile_cons_of_neg (by rw [trimmed.first c cs rfl]; decide)]
  have back : t.reverse.dropWhile isSpace = t.reverse := by
    rcases List.eq_nil_or_concat t with rfl | ⟨cs, c, rfl⟩
    · rfl
    · rw [List.concat_eq_append] at trimmed ⊢
      rw [List.reverse_append, List.reverse_singleton, List.singleton_append,
        List.dropWhile_cons_of_neg (by rw [trimmed.last cs c rfl]; decide)]
  unfold Store.FtsQuery.trim
  rw [front, back, List.reverse_reverse]

/-- What a space before it leaves. -/
theorem trim_space (t : Text) : trim (' ' :: t) = trim t := by
  unfold trim
  rw [List.dropWhile_cons_of_pos (by decide)]

theorem trim_front (t : Text) : ∃ back, t.dropWhile isSpace = trim t ++ back := by
  refine ⟨((t.dropWhile isSpace).reverse.takeWhile isSpace).reverse, ?_⟩
  unfold trim
  rw [← List.reverse_append, List.takeWhile_append_dropWhile, List.reverse_reverse]

theorem trim_trimmed (t : Text) : Trimmed (trim t) := by
  refine ⟨fun c cs same => ?_, fun cs c same => ?_⟩
  · obtain ⟨back, front⟩ := trim_front t
    rw [same] at front
    exact dropWhile_first front
  · unfold trim at same
    have back := congrArg List.reverse same
    rw [List.reverse_reverse, List.reverse_append, List.reverse_singleton,
      List.singleton_append] at back
    exact dropWhile_first back

theorem Solid.tail {c : Char} {cs : Text} (solid : Solid (c :: cs)) (space : isSpace c = true) :
    Solid cs := by
  obtain ⟨stop, closer, cjk⟩ := stop_no_space space
  intro q d r same
  have whole := solid (c :: q) d r (by rw [same]; rfl)
  have same1 : stoppedBy (c :: q) = stoppedBy q := by
    rw [stoppedBy, List.foldl_cons]
    simp [stop, closer, stoppedBy]
  have same2 : stoppedCjk (c :: q) = false → stoppedCjk q = false := by
    cases q with
    | nil => exact fun _ => rfl
    | cons e es => exact fun here => by rwa [stoppedCjk, List.getLast?_cons_cons] at here
  rw [same1] at whole
  exact ⟨whole.1, same2 whole.2.1, whole.2.2⟩

theorem Solid.trim {t : Text} (solid : Solid t) : Solid (trim t) := by
  have front : Solid (t.dropWhile isSpace) := by
    induction t with
    | nil => exact solid_nil
    | cons c cs ih =>
        by_cases space : isSpace c = true
        · rw [List.dropWhile_cons_of_pos space]
          exact ih (solid.tail space)
        · rwa [List.dropWhile_cons_of_neg space]
  obtain ⟨back, whole⟩ := trim_front t
  rw [whole] at front
  exact front.left

/-- **The sentences** of a text. -/
theorem sentences_spec (text : Text) : ∀ t ∈ sentences text, Sentence t := by
  intro t member
  obtain ⟨here, some_⟩ := List.mem_filter.mp member
  obtain ⟨part, there, rfl⟩ := List.mem_map.mp here
  have solid := cut_solid text (.part false false) [] ⟨rfl, rfl⟩ solid_nil part there
  exact ⟨trim_trimmed part, solid.trim, of_decide_eq_true some_⟩

/-! ### Sentences that are put together -/

/-- A space behind it begins another sentence. -/
def Closed (t : Text) : Prop := stoppedBy t = true ∨ stoppedCjk t = true

/-- Through a part without a place to cut. -/
theorem cut_part (s : Text) : ∀ front : Text, Solid (front ++ s) → ∀ rest,
    cut (.part (stoppedBy front) (stoppedCjk front)) front (s ++ rest)
      = cut (.part (stoppedBy (front ++ s)) (stoppedCjk (front ++ s))) (front ++ s) rest := by
  induction s with
  | nil => intro front _ rest; rw [List.append_nil, List.nil_append]
  | cons c cs ih =>
      intro front solid rest
      obtain ⟨line, free, stays⟩ := solid front c cs rfl
      have next : Cutting.after (stoppedBy front) c
          = .part (stoppedBy (front ++ [c])) (stoppedCjk (front ++ [c])) := by
        obtain ⟨same, same'⟩ := @fits_after front c
        rw [← same, ← same']
        rfl
      have whole : front ++ c :: cs = (front ++ [c]) ++ cs := by simp
      rw [List.cons_append, cut, if_neg line, free, Bool.false_and, if_neg Bool.false_ne_true,
        if_neg (by rwa [Bool.and_eq_true]), next, whole]
      exact ih (front ++ [c]) (whole ▸ solid) rest

theorem solid_space {t : Text} (solid : Solid t) : Solid (' ' :: t) := by
  intro q c r same
  cases q with
  | nil =>
      rw [List.nil_append] at same
      rw [← (List.cons.inj same).1]
      exact ⟨by decide, rfl, by simp [stoppedBy]⟩
  | cons d q =>
      obtain ⟨rfl, rest⟩ := List.cons.inj same
      have here := solid q c r rest
      have free : stoppedCjk (' ' :: q) = stoppedCjk q := by
        cases q with
        | nil => rfl
        | cons e es => rw [stoppedCjk, List.getLast?_cons_cons]; rfl
      rw [free]
      exact here

def cleanOf (parts : List Text) : List Text := (parts.map trim).filter (· ≠ [])

/-- A sentence that is read, with or without a space before it. -/
theorem front_part {t front : Text} (begins : front = [] ∨ front = [' ']) (sentence : Sentence t) :
    Solid (front ++ t) ∧ trim (front ++ t) = t ∧ front ++ t ≠ [] ∧
      Cutting.part false false = .part (stoppedBy front) (stoppedCjk front) ∧
        stoppedBy (front ++ t) = stoppedBy t ∧ stoppedCjk (front ++ t) = stoppedCjk t := by
  rcases begins with rfl | rfl
  · exact ⟨sentence.solid, sentence.trim, sentence.some_, rfl, rfl, rfl⟩
  · refine ⟨solid_space sentence.solid, ?_, List.cons_ne_nil _ _, rfl, rfl, ?_⟩
    · rw [List.singleton_append, trim_space, sentence.trim]
    · obtain ⟨c, cs, rfl⟩ := List.exists_cons_of_ne_nil sentence.some_
      rw [stoppedCjk, List.singleton_append, List.getLast?_cons_cons]
      rfl

theorem cleanOf_cons {part t : Text} (trimmed : trim part = t) (some_ : t ≠ [])
    (parts : List Text) : cleanOf (part :: parts) = t :: cleanOf parts := by
  unfold cleanOf
  rw [List.map_cons, trimmed, List.filter_cons_of_pos (by simpa using some_)]

/-- After a space that the split took, or one that it left. -/
theorem cut_join_from (ts : List Text) : ∀ (t : Text) (front : Text),
    (front = [] ∨ front = [' ']) → (∀ u ∈ t :: ts, Sentence u) →
      (∀ u ∈ (t :: ts).dropLast, Closed u) →
        cleanOf (cut (.part false false) front ([' '].intercalate (t :: ts))) = t :: ts := by
  induction ts with
  | nil =>
      intro t front begins all _
      obtain ⟨solid, trimmed, -, mode, -, -⟩ := front_part begins (all t List.mem_cons_self)
      have whole := cut_part t front solid []
      rw [List.append_nil] at whole
      rw [show [' '].intercalate [t] = t by simp [List.intercalate], mode, whole, cut,
        cleanOf_cons trimmed (all t List.mem_cons_self).some_]
      rfl
  | cons u us ih =>
      intro t front begins all closed
      have more : ∀ v ∈ u :: us, Sentence v := fun v member => all v (List.mem_cons_of_mem _ member)
      have apart : ∀ v ∈ (u :: us).dropLast, Closed v := fun v member =>
        closed v (by rw [List.dropLast_cons_cons]; exact List.mem_cons_of_mem _ member)
      have ends : Closed t := closed t (by rw [List.dropLast_cons_cons]; exact List.mem_cons_self)
      obtain ⟨solid, trimmed, some_, mode, stopped, cjk⟩ :=
        front_part begins (all t List.mem_cons_self)
      rw [List.intercalate_cons_cons, List.append_assoc, List.singleton_append, mode,
        cut_part t front solid, cut, if_neg (by decide), stopped, cjk]
      by_cases stop : stoppedCjk t = true
      · -- The space stays with what follows.
        rw [stop, if_pos (by rw [Bool.true_and, decide_eq_true_eq]; exact some_),
          cleanOf_cons trimmed (all t List.mem_cons_self).some_]
        exact congrArg (t :: ·) (ih u [' '] (Or.inr rfl) more apart)
      · have dot : stoppedBy t = true := ends.resolve_right stop
        rw [Bool.not_eq_true] at stop
        rw [stop, dot, if_neg (by simp), if_pos (by decide),
          cleanOf_cons trimmed (all t List.mem_cons_self).some_]
        have rest := ih u [] (Or.inl rfl) more apart
        -- No space follows the one that was taken.
        obtain ⟨c, cs, same⟩ := List.exists_cons_of_ne_nil (all u (by simp)).some_
        have first : isSpace c = false := (all u (by simp)).first c cs same
        have line : c ≠ '\n' := by
          rintro rfl
          cases first
        obtain ⟨J, join⟩ : ∃ J, [' '].intercalate (u :: us) = c :: J := by
          rw [same]
          cases us with
          | nil => exact ⟨cs, by simp [List.intercalate]⟩
          | cons v vs => exact ⟨_, by rw [List.intercalate_cons_cons]; rfl⟩
        rw [join] at rest ⊢
        rw [cut, if_neg line, Bool.false_and, if_neg Bool.false_ne_true, Bool.false_and,
          if_neg Bool.false_ne_true] at rest
        rw [cut, if_neg (by rw [first]; decide)]
        exact congrArg (t :: ·) rest

/-- **Sentences apart**: closed ones, with a space between any two. -/
theorem sentences_join {ts : List Text} (all : ∀ t ∈ ts, Sentence t)
    (closed : ∀ t ∈ ts.dropLast, Closed t) :
    sentences ([' '].intercalate ts) = ts := by
  cases ts with
  | nil => rfl
  | cons t ts => exact cut_join_from ts t [] (Or.inl rfl) all closed

section Tokens

variable {U : Unicode}

theorem normaliseTokens_pieces (text : Text) :
    U.normaliseTokens text = pieces (fun c => !U.isToken c) (U.normal text) := rfl

def Unicode.count (U : Unicode) (text : Text) : Nat := (U.normaliseTokens text).length

/-- How many tokens there are is told by which characters make one. -/
theorem count_pattern (text : Text) :
    U.count text = (pieces (fun b => !b) ((U.normal text).map U.isToken)).length := by
  rw [pieces_map, List.length_map]
  rfl

variable (parted : U.Parted)

include parted

theorem tokens_empty : U.normaliseTokens [] = [] := by
  rw [normaliseTokens_pieces, parted.empty]
  rfl

theorem count_empty : U.count [] = 0 := by
  rw [Unicode.count, tokens_empty parted]
  rfl

theorem tokens_space (a b : Text) :
    U.normaliseTokens (a ++ ' ' :: b) = U.normaliseTokens a ++ U.normaliseTokens b := by
  rw [normaliseTokens_pieces, parted.space, pieces_append (by rw [parted.blank]; rfl)]
  rfl

theorem count_break {c : Char} (here : isSpace c = true ∨ c ∈ CJK_STOPS) (a b : Text) :
    U.count (a ++ c :: b) = U.count a + U.count b := by
  rw [count_pattern, parted.break_ c here, pieces_append rfl, List.length_append,
    count_pattern, count_pattern]

theorem count_join (ts : List Text) :
    U.count ([' '].intercalate ts) = (ts.map U.count).sum := by
  induction ts with
  | nil => exact count_empty parted
  | cons t ts ih =>
      cases ts with
      | nil => simp [List.intercalate]
      | cons u us =>
          have step : U.count (t ++ ' ' :: [' '].intercalate (u :: us))
              = U.count t + U.count ([' '].intercalate (u :: us)) := by
            rw [Unicode.count, tokens_space parted, List.length_append]
            rfl
          rw [List.intercalate_cons_cons, List.append_assoc, List.singleton_append, step, ih]
          rfl

/-! ### Nothing is counted twice or lost -/

theorem count_dropSpaces (t : Text) : U.count (t.dropWhile isSpace) = U.count t := by
  induction t with
  | nil => rfl
  | cons c cs ih =>
      by_cases space : isSpace c = true
      · have first := count_break parted (Or.inl space) [] cs
        rw [count_empty parted, Nat.zero_add] at first
        rw [List.dropWhile_cons_of_pos space, ih]
        exact first.symm
      · rw [List.dropWhile_cons_of_neg space]

theorem count_trim (t : Text) : U.count (trim t) = U.count t := by
  have ends : ∀ u : Text, U.count (u.dropWhile isSpace).reverse = U.count u.reverse := by
    intro u
    induction u with
    | nil => rfl
    | cons c cs ih =>
        by_cases space : isSpace c = true
        · have last := count_break parted (Or.inl space) cs.reverse []
          rw [count_empty parted, Nat.add_zero] at last
          rw [List.dropWhile_cons_of_pos space, ih, List.reverse_cons]
          exact last.symm
        · rw [List.dropWhile_cons_of_neg space]
  unfold trim
  rw [ends, List.reverse_reverse, count_dropSpaces parted]

/-- Of a text that is being cut. -/
theorem count_cut (cs : Text) : ∀ (mode : Cutting) (part : Text), Fits mode part →
    ((cut mode part cs).map U.count).sum = U.count (part ++ cs) := by
  induction cs with
  | nil => intro mode part _; cases mode <;> simp [cut]
  | cons c cs ih =>
      intro mode part fits
      -- A space between two matches is no part of anything.
      have skipped : isSpace c = true → U.count (c :: cs) = U.count cs := fun space => by
        have first := count_break parted (Or.inl space) [] cs
        rwa [count_empty parted, Nat.zero_add] at first
      cases mode with
      | newlines =>
          cases fits
          unfold cut
          split
          · rename_i same
            rw [ih _ _ fits_newlines]
            exact (skipped (by rw [same]; decide)).symm
          · exact ih _ _ (fits_first c)
      | spaces =>
          cases fits
          unfold cut
          split
          · rename_i space
            rw [ih _ _ fits_spaces]
            exact (skipped space).symm
          · exact ih _ _ (fits_first c)
      | part stopped stopped' =>
          obtain ⟨rfl, rfl⟩ := fits
          unfold cut
          split
          · rename_i same
            rw [List.map_cons, List.sum_cons, ih _ _ fits_newlines, List.nil_append,
              count_break parted (Or.inl (by rw [same]; decide))]
          · split
            · rename_i free
              rw [Bool.and_eq_true] at free
              obtain ⟨q, d, rfl, stop⟩ := stoppedCjk_spec free.1
              have last := count_break parted (Or.inr stop) q []
              rw [count_empty parted, Nat.add_zero] at last
              rw [List.map_cons, List.sum_cons, ih _ _ (fits_first c), last, List.append_assoc,
                List.singleton_append, List.singleton_append, count_break parted (Or.inr stop)]
            · split
              · rename_i stays
                rw [Bool.and_eq_true] at stays
                rw [List.map_cons, List.sum_cons, ih _ _ fits_spaces, List.nil_append,
                  count_break parted (Or.inl stays.2)]
              · rw [ih _ _ (fits_after c), List.append_assoc, List.singleton_append]

theorem count_sentences (text : Text) :
    ((sentences text).map U.count).sum = U.count text := by
  have whole := count_cut parted text (.part false false) [] ⟨rfl, rfl⟩
  rw [List.nil_append] at whole
  rw [← whole]
  unfold sentences
  induction cut (.part false false) [] text with
  | nil => rfl
  | cons part parts ih =>
      rw [List.map_cons, List.map_cons, List.sum_cons]
      by_cases empty : trim part = []
      · have none_ : U.count part = 0 := by
          rw [← count_trim parted, empty, count_empty parted]
        rw [empty, List.filter_cons_of_neg (by simp), ih, none_, Nat.zero_add]
      · rw [List.filter_cons_of_pos (by simpa using empty), List.map_cons, List.sum_cons, ih,
          count_trim parted]

end Tokens

/-! ## Rows -/

section Rows

variable {U : Unicode} {ts : List Text}

/-- The rows of some sentences. -/
def rowsOf (ts : List Text) : List LoopRow :=
  ts.zipIdx.map fun (t, i) => ⟨i, i, .them, none, t⟩

theorem rowsOf_length : (rowsOf ts).length = ts.length := by simp [rowsOf]

theorem rowAt_text (i : Nat) : (rowAt (rowsOf ts) i).text = ts.getD i [] := by
  unfold rowAt rowsOf
  by_cases here : i < ts.length
  · simp [List.getD, here]
  · simp [List.getD, here, silence]

theorem rowAt_key {i : Nat} (here : i < ts.length) :
    keyOf (rowAt (rowsOf ts) i) = "them|\x00".toList := by
  unfold rowAt rowsOf
  simp [List.getD, here, keyOf]

/-- All rows have one key. -/
theorem byKey_rows (some_ : ts ≠ []) :
    byKey (rowsOf ts) = [("them|\x00".toList, List.range ts.length)] := by
  unfold byKey
  rw [rowsOf_length]
  have upTo : ∀ n, 0 < n → n ≤ ts.length →
      (List.range n).foldl (fun groups i => insertAt (keyOf (rowAt (rowsOf ts) i)) i groups) []
        = [("them|\x00".toList, List.range n)] := by
    intro n
    induction n with
    | zero => exact fun none_ => absurd none_ (by omega)
    | succ n ih =>
        intro _ fits
        rw [List.range_succ, List.foldl_append]
        by_cases zero : n = 0
        · rw [zero]
          simp [insertAt, rowAt_key (show 0 < ts.length by omega)]
        · rw [ih (by omega) (by omega), List.foldl_cons, List.foldl_nil, insertAt,
            if_pos (rowAt_key (by omega)).symm, rowAt_key (by omega)]
  exact upTo ts.length (List.length_pos_iff.mpr some_) le_rfl

/-- Sorting aside, the flags are those of one sequence. -/
theorem mem_findLoopFlags {flag : LoopFlag} :
    flag ∈ U.findLoopFlags (rowsOf ts) ↔
      flag ∈ U.flagsOf (rowsOf ts) (List.range ts.length) := by
  unfold Unicode.findLoopFlags
  rw [List.mem_insertionSort]
  by_cases none_ : ts = []
  · rw [none_]
    rfl
  · rw [byKey_rows none_]
    simp

/-! ### Runs -/

variable (U ts) in
/-- The runs of identical sentences, each as long as can be. -/
def Unicode.runsOf : List (List Nat) := U.runs (rowsOf ts) (List.range ts.length)

theorem runsOf_flatten : (U.runsOf ts).flatten = List.range ts.length := List.flatten_splitBy _ _

theorem run_within {g : List Nat} (run : g ∈ U.runsOf ts) : g <:+: List.range ts.length :=
  runsOf_flatten (U := U) ▸ List.infix_of_mem_flatten run

theorem run_lt {g : List Nat} (run : g ∈ U.runsOf ts) : ∀ i ∈ g, i < ts.length := fun _ inside =>
  List.mem_range.mp ((run_within run).sublist.subset inside)

theorem run_sorted {g : List Nat} (run : g ∈ U.runsOf ts) : g.insertionSort (· ≤ ·) = g :=
  List.Pairwise.insertionSort_eq
    ((List.pairwise_lt_range.sublist (run_within run).sublist).imp Nat.le_of_lt)

/-- A row is in one run. -/
theorem run_unique {g h : List Nat} (run : g ∈ U.runsOf ts) (run' : h ∈ U.runsOf ts) {i : Nat}
    (inside : i ∈ g) (inside' : i ∈ h) : g = h := by
  have once : (U.runsOf ts).flatten.Nodup := by
    rw [runsOf_flatten]
    exact List.nodup_range
  have symmetric : Std.Symm (@List.Disjoint Nat) := ⟨fun _ _ here => here.symm⟩
  by_contra other
  exact (List.nodup_flatten.mp once).2.forall run run' other inside inside'

theorem run_of {i : Nat} (here : i < ts.length) : ∃ g ∈ U.runsOf ts, i ∈ g := by
  have member : i ∈ (U.runsOf ts).flatten := by
    rw [runsOf_flatten]
    exact List.mem_range.mpr here
  exact List.mem_flatten.mp member

variable (U ts) in
def SameNorm (i j : Nat) : Prop := U.norm (ts.getD i []) = U.norm (ts.getD j [])

instance : Std.Symm (SameNorm U ts) := ⟨fun _ _ same => Eq.symm same⟩

instance : Trans (SameNorm U ts) (SameNorm U ts) (SameNorm U ts) :=
  ⟨fun first next => Eq.trans first next⟩

theorem run_norm {g : List Nat} (run : g ∈ U.runsOf ts) : ∀ i ∈ g, ∀ j ∈ g, SameNorm U ts i j := by
  have chain : g.IsChain (SameNorm U ts) :=
    (List.isChain_of_mem_splitBy run).imp fun i j same => by
      rw [decide_eq_true_eq, rowAt_text, rowAt_text] at same
      exact same
  intro i inside j inside'
  by_cases same : i = j
  · rw [same]
    exact rfl
  · exact (List.isChain_iff_pairwise.mp chain).forall inside inside' same

theorem mem_flagsOf {flag : LoopFlag} : flag ∈ U.findLoopFlags (rowsOf ts) ↔
    (∃ g ∈ U.runsOf ts, U.identical (rowsOf ts) g = true ∧ flagFor (rowsOf ts) g = flag) ∨
      ∃ i, i < ts.length ∧ (∀ g ∈ U.runsOf ts, U.identical (rowsOf ts) g = true → i ∉ g) ∧
        U.isLoop (ts.getD i []) = true ∧ flagFor (rowsOf ts) [i] = flag := by
  rw [mem_findLoopFlags]
  unfold Unicode.flagsOf
  simp only [List.mem_append, List.mem_map, List.mem_filter, List.mem_range, Bool.and_eq_true,
    decide_eq_true_eq, rowAt_text, List.mem_flatten, not_exists, not_and, and_assoc]
  rfl

theorem mem_dropOf {g : List Nat} (sorted : g.insertionSort (· ≤ ·) = g) {i : Nat} :
    i ∈ U.dropOf (rowsOf ts) (flagFor (rowsOf ts) g) ↔
      i ∈ g.tail ∨ (i ∈ g ∧ U.isLoop (ts.getD i []) = true) := by
  unfold Unicode.dropOf flagFor
  dsimp only
  rw [sorted]
  cases g with
  | nil => simp
  | cons first rest =>
      dsimp only
      rw [rowAt_text, List.tail_cons, List.mem_cons]
      split
      · rename_i loops
        rw [List.mem_cons]
        exact ⟨fun here => here.elim (fun same => Or.inr ⟨Or.inl same, same ▸ loops⟩) Or.inl,
          fun here => here.elim Or.inr fun here => here.1⟩
      · rename_i fine
        refine ⟨Or.inl, fun here => here.elim id fun here => here.1.resolve_left fun same => ?_⟩
        exact fine (same ▸ here.2)

/-- **What is dropped** of a run: what loops, and all but the first of three or more. -/
theorem mem_dropped {g : List Nat} (run : g ∈ U.runsOf ts) {i : Nat} (inside : i ∈ g) :
    i ∈ U.dropped (rowsOf ts) ↔ U.isLoop (ts.getD i []) = true ∨
      (U.identical (rowsOf ts) g = true ∧ i ∈ g.tail) := by
  unfold Unicode.dropped
  rw [List.mem_toFinset, List.mem_flatMap]
  constructor
  · rintro ⟨flag, found, drop⟩
    rcases mem_flagsOf.mp found with ⟨h, run', long, rfl⟩ | ⟨j, -, -, loops, rfl⟩
    · rcases (mem_dropOf (run_sorted run')).mp drop with behind | ⟨-, loops⟩
      · cases run_unique run run' inside (List.mem_of_mem_tail behind)
        exact Or.inr ⟨long, behind⟩
      · exact Or.inl loops
    · rcases (mem_dropOf rfl).mp drop with none_ | ⟨-, loops⟩
      · cases none_
      · exact Or.inl loops
  · rintro (loops | ⟨long, behind⟩)
    · by_cases long : U.identical (rowsOf ts) g = true
      · exact ⟨_, mem_flagsOf.mpr (Or.inl ⟨g, run, long, rfl⟩),
          (mem_dropOf (run_sorted run)).mpr (Or.inr ⟨inside, loops⟩)⟩
      · refine ⟨_, mem_flagsOf.mpr (Or.inr ⟨i, run_lt run i inside, ?_, loops, rfl⟩),
          (mem_dropOf rfl).mpr (Or.inr ⟨List.mem_singleton_self i, loops⟩)⟩
        intro h run' long' inside'
        cases run_unique run run' inside inside'
        exact long long'
    · exact ⟨_, mem_flagsOf.mpr (Or.inl ⟨g, run, long, rfl⟩),
        (mem_dropOf (run_sorted run)).mpr (Or.inl behind)⟩

theorem dropped_lt {i : Nat} (drop : i ∈ U.dropped (rowsOf ts)) : i < ts.length := by
  unfold Unicode.dropped at drop
  rw [List.mem_toFinset, List.mem_flatMap] at drop
  obtain ⟨flag, found, drop⟩ := drop
  rcases mem_flagsOf.mp found with ⟨g, run, -, rfl⟩ | ⟨j, here, -, -, rfl⟩
  · rcases (mem_dropOf (run_sorted run)).mp drop with behind | ⟨inside, -⟩
    · exact run_lt run i (List.mem_of_mem_tail behind)
    · exact run_lt run i inside
  · rcases (mem_dropOf rfl).mp drop with none_ | ⟨inside, -⟩
    · cases none_
    · rwa [List.mem_singleton.mp inside]

theorem dropped_empty : U.dropped (rowsOf ts) = ∅ ↔ U.findLoopFlags (rowsOf ts) = [] := by
  constructor
  · intro none_
    refine List.eq_nil_iff_forall_not_mem.mpr fun flag found => ?_
    have nothing : ∀ i, i ∉ U.dropped (rowsOf ts) := fun i => by
      rw [none_]
      exact Finset.notMem_empty i
    rcases mem_flagsOf.mp found with ⟨g, run, long, -⟩ | ⟨i, here, -, loops, -⟩
    · obtain ⟨first, rest, rfl⟩ := List.exists_cons_of_ne_nil (List.ne_nil_of_mem_splitBy run)
      have three : 3 ≤ (first :: rest).length := by
        unfold Unicode.identical at long
        rw [Bool.and_eq_true] at long
        exact of_decide_eq_true long.1
      have some_ : rest ≠ [] := by
        rintro rfl
        simp at three
      obtain ⟨second, more, rfl⟩ := List.exists_cons_of_ne_nil some_
      exact nothing second ((mem_dropped run (by simp)).mpr (Or.inr ⟨long, by simp⟩))
    · obtain ⟨g, run, inside⟩ := run_of (U := U) here
      exact nothing i ((mem_dropped run inside).mpr (Or.inl loops))
  · intro none_
    unfold Unicode.dropped
    rw [none_]
    rfl

/-- No three sentences in a row are the same. -/
def Unicode.NoThree (U : Unicode) (ts : List Text) : Prop :=
  ∀ a b c, [a, b, c] <:+: ts → U.norm a = U.norm b → U.norm b = U.norm c → U.norm a = []

theorem range_texts : (List.range ts.length).map (fun i => ts.getD i []) = ts := by
  refine List.ext_getElem (by simp) fun i here _ => ?_
  simp at here
  simp [here]

/-- **No flags.** -/
theorem findLoopFlags_nil (fine : ∀ t ∈ ts, U.isLoop t = false) (apart : U.NoThree ts) :
    U.findLoopFlags (rowsOf ts) = [] := by
  refine List.eq_nil_iff_forall_not_mem.mpr fun flag found => ?_
  rcases mem_flagsOf.mp found with ⟨g, run, long, -⟩ | ⟨i, here, -, loops, -⟩
  · unfold Unicode.identical at long
    rw [Bool.and_eq_true] at long
    have three : 3 ≤ g.length := of_decide_eq_true long.1
    obtain ⟨i, inside, some_⟩ := List.any_eq_true.mp long.2
    rw [decide_eq_true_eq, rowAt_text] at some_
    rcases g with _ | ⟨x, _ | ⟨y, _ | ⟨z, more⟩⟩⟩
    · simp at three
    · simp at three
    · simp at three
    · have norms := run_norm run
      have row : [x, y, z] <:+: List.range ts.length :=
        (List.prefix_append [x, y, z] more).isInfix.trans (run_within run)
      have texts := row.map fun i => ts.getD i []
      rw [range_texts] at texts
      have none_ := apart _ _ _ texts (norms x (by simp) y (by simp))
        (norms y (by simp) z (by simp))
      exact some_ ((norms i inside x (by simp)).trans none_)
  · have member : ts.getD i [] ∈ ts := by
      rw [List.getD_eq_getElem _ _ here]
      exact List.getElem_mem here
    rw [fine _ member] at loops
    cases loops

end Rows

/-! ## The result -/

section Result

variable (U : Unicode) (text : Text)

def Unicode.keptRows (ts : List Text) : List Nat :=
  (List.range ts.length).filter fun i => i ∉ U.dropped (rowsOf ts)

/-- The sentences that are kept. -/
def Unicode.kept : List Text :=
  (U.keptRows (sentences text)).map fun i => (sentences text).getD i []

/-- `text` has a loop. -/
def Unicode.Looped : Prop := U.findLoopFlags (sentenceRows text) ≠ []

variable {U text}

theorem sentenceRows_rows (text : Text) : sentenceRows text = rowsOf (sentences text) := rfl

theorem removeLoops_clean (clean : ¬ U.Looped text) : (U.removeLoops text).text = text := by
  unfold Unicode.Looped at clean
  unfold Unicode.removeLoops
  dsimp only
  rw [sentenceRows_rows, if_pos (dropped_empty.mpr (not_not.mp clean))]

theorem removeLoops_looped (looped : U.Looped text) :
    (U.removeLoops text).text = [' '].intercalate (U.kept text) := by
  unfold Unicode.removeLoops
  dsimp only
  rw [sentenceRows_rows, if_neg fun none_ => looped (dropped_empty.mp none_)]
  unfold Unicode.kept Unicode.keptRows
  simp only [rowsOf_length, rowAt_text]

theorem kept_sublist : (U.kept text).Sublist (sentences text) := by
  have rows : (U.keptRows (sentences text)).Sublist (List.range (sentences text).length) :=
    List.filter_sublist
  have texts := rows.map fun i => (sentences text).getD i []
  rwa [range_texts] at texts

theorem kept_fine : ∀ t ∈ U.kept text, U.isLoop t = false := by
  intro t member
  obtain ⟨i, row, rfl⟩ := List.mem_map.mp member
  obtain ⟨here, kept⟩ := List.mem_filter.mp row
  obtain ⟨g, run, inside⟩ := run_of (U := U) (List.mem_range.mp here)
  by_contra loops
  rw [Bool.not_eq_false] at loops
  exact of_decide_eq_true kept ((mem_dropped run inside).mpr (Or.inl loops))

theorem totalTokens_sum :
    (U.removeLoops text).totalTokens = ((sentences text).map U.count).sum := by
  have texts : (sentences text).map U.count
      = (List.range (sentences text).length).map fun i => U.count ((sentences text).getD i []) := by
    conv_lhs => rw [← @range_texts (sentences text), List.map_map]
    rfl
  rw [texts]
  unfold Unicode.removeLoops
  dsimp only
  rw [sentenceRows_rows]
  simp only [rowsOf_length, rowAt_text]
  rfl

/-- Some of the rows. -/
theorem sum_rows (rows : List Nat) (once : rows.Nodup) :
    ((rows.map fun i => (sentences text).getD i []).map U.count).sum
      = ∑ i ∈ rows.toFinset, U.count ((sentences text).getD i []) := by
  rw [List.sum_toFinset _ once, List.map_map]
  rfl

theorem removedTokens_sum : (U.removeLoops text).removedTokens
    = ∑ i ∈ U.dropped (rowsOf (sentences text)), U.count ((sentences text).getD i []) := by
  unfold Unicode.removeLoops
  dsimp only
  rw [sentenceRows_rows]
  simp only [rowAt_text]
  rfl

/-- **No token is lost**: it is kept, or it is counted. -/
theorem removed_kept (parted : U.Parted) :
    (U.removeLoops text).removedTokens + U.count (U.removeLoops text).text
      = (U.removeLoops text).totalTokens := by
  rw [totalTokens_sum, removedTokens_sum]
  by_cases looped : U.Looped text
  · rw [removeLoops_looped looped, count_join parted]
    have all : ((sentences text).map U.count).sum
        = ∑ i ∈ (List.range (sentences text).length).toFinset,
            U.count ((sentences text).getD i []) := by
      rw [← sum_rows _ List.nodup_range, range_texts]
    have kept : ((U.kept text).map U.count).sum
        = ∑ i ∈ (List.range (sentences text).length).toFinset with
            i ∉ U.dropped (rowsOf (sentences text)), U.count ((sentences text).getD i []) := by
      unfold Unicode.kept Unicode.keptRows
      rw [sum_rows _ (List.nodup_range.filter _), List.toFinset_filter]
      simp only [decide_eq_true_eq]
    have drop : U.dropped (rowsOf (sentences text))
        = {i ∈ (List.range (sentences text).length).toFinset |
            i ∈ U.dropped (rowsOf (sentences text))} := by
      refine (Finset.filter_mem_eq_inter.trans (Finset.inter_eq_right.mpr fun i here => ?_)).symm
      rw [List.mem_toFinset, List.mem_range]
      exact dropped_lt here
    rw [all, kept]
    conv_lhs => enter [1]; rw [drop]
    exact Finset.sum_filter_add_sum_filter_not _ _ _
  · have none_ : U.dropped (rowsOf (sentences text)) = ∅ := dropped_empty.mpr (not_not.mp looped)
    rw [removeLoops_clean looped, none_, Finset.sum_empty, Nat.zero_add, count_sentences parted]

variable (U text) in
/-- No two of the kept sentences run together, and no three of them are the same. -/
def Unicode.Apart : Prop := (∀ t ∈ (U.kept text).dropLast, Closed t) ∧ U.NoThree (U.kept text)

theorem apart_sentences (looped : U.Looped text) (apart : U.Apart text) :
    sentences (U.removeLoops text).text = U.kept text := by
  rw [removeLoops_looped looped]
  exact sentences_join (fun t member => sentences_spec text t (kept_sublist.subset member)) apart.1

theorem apart_clean (apart : U.Apart text) : ¬ U.Looped (U.removeLoops text).text := by
  by_cases looped : U.Looped text
  · refine not_not.mpr ?_
    rw [sentenceRows_rows, apart_sentences looped apart]
    exact findLoopFlags_nil kept_fine apart.2
  · rwa [removeLoops_clean looped]

end Result

/-- A text and what is left of it, as the code means it. -/
structure Unicode.Cleaned (U : Unicode) (text : Text) : Prop where
  tokens : (U.removeLoops text).removedTokens + U.count (U.removeLoops text).text
    = (U.removeLoops text).totalTokens
  clean : ¬ U.Looped text → (U.removeLoops text).text = text
  looped : U.Looped text → (U.removeLoops text).text = [' '].intercalate (U.kept text)
  kept : (U.kept text).Sublist (sentences text)
  fine : ∀ t ∈ U.kept text, U.isLoop t = false
  dropped : ∀ run ∈ U.runsOf (sentences text), ∀ i ∈ run,
    i ∈ U.dropped (sentenceRows text) ↔ U.isLoop ((sentences text).getD i []) = true ∨
      (U.identical (sentenceRows text) run = true ∧ i ∈ run.tail)
  final : U.Apart text → ¬ U.Looped (U.removeLoops text).text ∧
    (U.removeLoops (U.removeLoops text).text).text = (U.removeLoops text).text ∧
      (sentences (U.removeLoops text).text).Sublist (sentences text)

/-- **Removing loops**: what is dropped, what is kept, and when nothing is left to drop. -/
theorem removeLoops_spec {U : Unicode} (parted : U.Parted) (text : Text) : U.Cleaned text where
  tokens := removed_kept parted
  clean := removeLoops_clean
  looped := removeLoops_looped
  kept := kept_sublist
  fine := kept_fine
  dropped _ run _ inside := mem_dropped run inside
  final apart := by
    refine ⟨apart_clean apart, removeLoops_clean (apart_clean apart), ?_⟩
    by_cases looped : U.Looped text
    · rw [apart_sentences looped apart]
      exact kept_sublist
    · rw [removeLoops_clean looped]

/-- Of a text in small letters and spaces, stops and line breaks. -/
def plain : Unicode := ⟨id, Char.isLower⟩

theorem plain_parted : plain.Parted where
  empty := rfl
  space _ _ := rfl
  blank := by decide
  break_ c here a b := by
    have other : c.isLower = false := by
      by_contra letter
      rw [Bool.not_eq_false] at letter
      have range : 97 ≤ c.toNat ∧ c.toNat ≤ 122 := by
        simpa [Char.isLower, UInt32.le_iff_toNat_le] using letter
      rcases here with space | stop
      · unfold Store.FtsQuery.isSpace at space
        simp at space
        omega
      · simp only [CJK_STOPS, List.mem_cons, List.not_mem_nil, or_false] at stop
        rcases stop with rfl | rfl | rfl <;> simp at range
    show (a ++ c :: b).map Char.isLower = a.map Char.isLower ++ false :: b.map Char.isLower
    rw [List.map_append, List.map_cons, other]

/-- A sentence twice, a loop, and the sentence again. -/
theorem cleaned_twice : plain.Cleaned "ja. ja. no no no no no no. ja.".toList :=
  removeLoops_spec plain_parted _

/-- Nothing loops in the result, which is final, and its sentences are some of the input's. -/
structure Unicode.Complete (U : Unicode) (text : Text) : Prop where
  final : ¬ U.Looped (U.removeLoops text).text
  again : (U.removeLoops (U.removeLoops text).text).text = (U.removeLoops text).text
  sentences : (sentences (U.removeLoops text).text).Sublist (sentences text)
  tokens : (U.removeLoops text).removedTokens + U.count (U.removeLoops text).text
    = (U.removeLoops text).totalTokens
  clean : ¬ U.Looped text → (U.removeLoops text).text = text

/-- New neighbours are a run again, and what a line break parted is one sentence. -/
theorem repeated_again : ¬ plain.Complete "ja. ja. no no no no no no. ja.".toList ∧
    ¬ plain.Complete "ja\nso\nno no no no no no".toList := by
  refine ⟨fun complete => complete.final ?_, fun complete => absurd complete.sentences ?_⟩
  · unfold Unicode.Looped
    decide +kernel
  · decide +kernel

end Kiagent.Asr
