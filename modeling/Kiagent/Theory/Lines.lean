/-
# Theory.Lines -- a text read in parts, in lines, and lines in pieces

`lines` splits a text after each terminator.  A reader that sees the text in parts breaks
off the complete lines of each part and carries the rest on; it sees the lines of the whole
(`lines_breakLines`).

A line may itself be cut into pieces (`cutAt`).  Keeping every piece that fits into a bound
is not keeping the longest run of whole lines that does, and `keep_eq_head_iff` tells when
the two agree.

A marker is found in a text by its parts: what is too short to hold it is carried on
(`find_skip`).
-/
import Mathlib

namespace Kiagent.Theory.Lines

set_option autoImplicit false

universe u v

variable {α : Type u}

/-! ## Lines -/

section Lines

variable (stop : α → Bool)

/-- Each line with its terminator, which the last may lack. -/
def lines : List α → List (List α)
  | [] => []
  | b :: bs =>
      if stop b then [b] :: lines bs
      else
        match lines bs with
        | [] => [[b]]
        | l :: ls => (b :: l) :: ls

/-- The complete lines, and the rest. -/
def breakLines : List α → List (List α) × List α
  | [] => ([], [])
  | b :: bs =>
      if stop b then ([b] :: (breakLines bs).1, (breakLines bs).2)
      else
        match (breakLines bs).1 with
        | [] => ([], b :: (breakLines bs).2)
        | l :: ls => ((b :: l) :: ls, (breakLines bs).2)

theorem flatten_lines (t : List α) : (lines stop t).flatten = t := by
  induction t with
  | nil => rfl
  | cons b bs ih =>
      rw [lines]
      split
      · simp [ih]
      · split
        · rename_i empty
          rw [empty] at ih
          simp [← ih]
        · rename_i l ls rest
          rw [rest] at ih
          simp [← ih]

theorem lines_ne_nil {t : List α} : ∀ l ∈ lines stop t, l ≠ [] := by
  induction t with
  | nil => simp [lines]
  | cons b bs ih =>
      rw [lines]
      split
      · intro l member
        rcases List.mem_cons.mp member with rfl | old
        · simp
        · exact ih l old
      · split
        · simp
        · rename_i l ls rest
          intro k member
          rcases List.mem_cons.mp member with rfl | old
          · simp
          · exact ih k (rest ▸ List.mem_cons_of_mem _ old)

/-- The lines after the first are those of the text after it. -/
theorem lines_tail {t l : List α} {ls : List (List α)} (split_ : lines stop t = l :: ls) :
    ∃ rest, t = l ++ rest ∧ lines stop rest = ls := by
  induction t generalizing l ls with
  | nil => simp [lines] at split_
  | cons b bs ih =>
      rw [lines] at split_
      split at split_
      · cases split_
        exact ⟨bs, rfl, rfl⟩
      · split at split_
        · rename_i empty
          cases split_
          refine ⟨[], ?_, rfl⟩
          have flat := flatten_lines stop bs
          rw [empty] at flat
          rw [← flat]
          rfl
        · rename_i k ks rest
          cases split_
          obtain ⟨tail, here, same⟩ := ih rest
          exact ⟨tail, by rw [here]; rfl, same⟩

theorem lines_drop {t : List α} {before after : List (List α)}
    (split_ : lines stop t = before ++ after) :
    lines stop (t.drop before.flatten.length) = after := by
  induction before generalizing t with
  | nil => exact split_
  | cons l ls ih =>
      obtain ⟨rest, rfl, here⟩ := lines_tail stop split_
      rw [List.flatten_cons, List.length_append, ← List.drop_drop, List.drop_left]
      exact ih here

/-- Text without a terminator goes in front of the first line. -/
theorem lines_append_rest {t : List α} (unfinished : ∀ b ∈ t, stop b = false) (more : List α) :
    lines stop (t ++ more)
      = match lines stop more with
        | [] => if t = [] then [] else [t]
        | l :: ls => (t ++ l) :: ls := by
  induction t with
  | nil =>
      rw [List.nil_append]
      cases lines stop more <;> simp
  | cons b bs ih =>
      have here : stop b = false := unfinished b List.mem_cons_self
      have rest := ih fun c member => unfinished c (List.mem_cons_of_mem _ member)
      rw [List.cons_append, lines, here, rest]
      cases lines stop more with
      | nil =>
          by_cases empty : bs = []
          · simp [empty]
          · simp [empty]
      | cons l ls => simp

theorem breakLines_rest (t : List α) : ∀ b ∈ (breakLines stop t).2, stop b = false := by
  induction t with
  | nil => simp [breakLines]
  | cons b bs ih =>
      rw [breakLines]
      split
      · exact ih
      · rename_i here
        split
        · intro c member
          rcases List.mem_cons.mp member with rfl | old
          · simpa using here
          · exact ih c old
        · exact ih

theorem flatten_breakLines (t : List α) :
    (breakLines stop t).1.flatten ++ (breakLines stop t).2 = t := by
  induction t with
  | nil => rfl
  | cons b bs ih =>
      rw [breakLines]
      split
      · simp [ih]
      · split
        · rename_i none_
          rw [none_] at ih
          simpa using ih
        · rename_i l ls rest
          rw [rest] at ih
          simpa using ih

/-- **The lines of a whole**, from those broken off a first part. -/
theorem lines_breakLines (t more : List α) :
    lines stop (t ++ more)
      = (breakLines stop t).1 ++ lines stop ((breakLines stop t).2 ++ more) := by
  induction t with
  | nil => rfl
  | cons b bs ih =>
      rw [List.cons_append, lines, breakLines]
      by_cases here : stop b = true
      · rw [if_pos here, if_pos here, ih]
        rfl
      · rw [if_neg here, if_neg here, ih]
        cases (breakLines stop bs).1 with
        | nil =>
            show _ = lines stop (b :: ((breakLines stop bs).2 ++ more))
            rw [lines, if_neg here]
            rfl
        | cons l ls => rfl

theorem breakLines_ne_nil {t : List α} : ∀ l ∈ (breakLines stop t).1, l ≠ [] := by
  intro l member
  have whole := lines_breakLines stop t []
  exact lines_ne_nil stop l (whole ▸ List.mem_append_left _ member)

/-- Text without a terminator is all in the first line broken off. -/
theorem length_lt_breakLines {t more l : List α} {ls : List (List α)}
    (unfinished : ∀ b ∈ t, stop b = false) (first : (breakLines stop (t ++ more)).1 = l :: ls) :
    t.length < l.length := by
  induction t generalizing l ls with
  | nil =>
      have nonempty := breakLines_ne_nil stop l (first ▸ List.mem_cons_self)
      simpa using List.length_pos_iff.mpr nonempty
  | cons b bs ih =>
      have here : stop b = false := unfinished b List.mem_cons_self
      rw [List.cons_append, breakLines, here] at first
      split at first
      · contradiction
      · split at first
        · cases first
        · rename_i k ks rest
          cases first
          have longer := ih (fun c member => unfinished c (List.mem_cons_of_mem _ member)) rest
          simpa using longer

end Lines

/-! ## Pieces -/

/-- The first piece at most `first` long, the others `step`. -/
def cutAt (step first : Nat) (l : List α) : List (List α) :=
  if l.length ≤ first ∨ first = 0 ∨ step = 0 then [l]
  else l.take first :: cutAt step step (l.drop first)
termination_by l.length
decreasing_by
  simp only [List.length_drop]
  omega

theorem cutAt_short (step : Nat) {first : Nat} {l : List α} (short : l.length ≤ first) :
    cutAt step first l = [l] := by
  rw [cutAt, if_pos (Or.inl short)]

theorem cutAt_long {step first : Nat} {l : List α} (positive : 0 < step ∧ 0 < first)
    (long : first < l.length) :
    cutAt step first l = l.take first :: cutAt step step (l.drop first) := by
  rw [cutAt, if_neg (by omega)]

theorem flatten_cutAt (step first : Nat) (l : List α) : (cutAt step first l).flatten = l := by
  induction first, l using cutAt.induct step with
  | case1 first l whole => rw [cutAt, if_pos whole, List.flatten_singleton]
  | case2 first l long ih =>
      rw [cutAt, if_neg long, List.flatten_cons, ih, List.take_append_drop]

theorem cutAt_ne_nil {step first : Nat} {l : List α} (nonempty : l ≠ []) :
    ∀ p ∈ cutAt step first l, p ≠ [] := by
  induction first, l using cutAt.induct step with
  | case1 first l whole =>
      rw [cutAt, if_pos whole]
      simpa using nonempty
  | case2 first l long ih =>
      rw [cutAt, if_neg long]
      have pos := List.length_pos_iff.mpr nonempty
      intro p member
      rcases List.mem_cons.mp member with rfl | later
      · refine List.length_pos_iff.mp ?_
        rw [List.length_take]
        omega
      · refine ih (List.length_pos_iff.mp ?_) p later
        rw [List.length_drop]
        omega

/-! ## What is kept within a bound -/

/-- Every piece that fits into the room that is left. -/
def keepWithin : Nat → List (List α) → List α
  | _, [] => []
  | room, p :: ps =>
      if p.length ≤ room then p ++ keepWithin (room - p.length) ps else keepWithin room ps

/-- The longest run of whole pieces that fits. -/
def headWithin : Nat → List (List α) → List α
  | _, [] => []
  | room, p :: ps => if p.length ≤ room then p ++ headWithin (room - p.length) ps else []

/-- Pieces that fit together are all kept. -/
theorem keepWithin_append {ps : List (List α)} {room : Nat} (fits : ps.flatten.length ≤ room)
    (qs : List (List α)) :
    keepWithin room (ps ++ qs) = ps.flatten ++ keepWithin (room - ps.flatten.length) qs := by
  induction ps generalizing room with
  | nil => rfl
  | cons p ps ih =>
      rw [List.flatten_cons, List.length_append] at fits
      rw [List.cons_append, keepWithin, if_pos (by omega), ih (by omega), List.flatten_cons,
        List.append_assoc, List.length_append, Nat.sub_sub]

theorem keepWithin_all {ps : List (List α)} {room : Nat} (fits : ps.flatten.length ≤ room) :
    keepWithin room ps = ps.flatten := by
  have whole := keepWithin_append fits []
  rwa [List.append_nil, keepWithin, List.append_nil] at whole

/-- One more piece is kept if there is room. -/
theorem keepWithin_concat (ps : List (List α)) (p : List α) (room : Nat) :
    keepWithin room (ps ++ [p])
      = if (keepWithin room ps).length + p.length ≤ room then keepWithin room ps ++ p
        else keepWithin room ps := by
  induction ps generalizing room with
  | nil => simp [keepWithin]
  | cons q qs ih =>
      rw [List.cons_append, keepWithin, keepWithin]
      by_cases fits : q.length ≤ room
      · rw [if_pos fits, if_pos fits, ih, List.length_append]
        by_cases more : (keepWithin (room - q.length) qs).length + p.length ≤ room - q.length
        · rw [if_pos more, if_pos (by omega), List.append_assoc]
        · rw [if_neg more, if_neg (by omega)]
      · rw [if_neg fits, if_neg fits, ih]

/-- Nothing is kept only where nothing fits. -/
theorem keepWithin_eq_nil {ps : List (List α)} (nonempty : ∀ p ∈ ps, p ≠ []) (room : Nat) :
    keepWithin room ps = [] ↔ ∀ p ∈ ps, room < p.length := by
  induction ps with
  | nil => simp [keepWithin]
  | cons p ps ih =>
      have rest := ih fun q member => nonempty q (List.mem_cons_of_mem _ member)
      rw [keepWithin]
      by_cases fits : p.length ≤ room
      · have here := nonempty p List.mem_cons_self
        rw [if_pos fits]
        constructor
        · intro none_
          exact absurd (List.append_eq_nil_iff.mp none_).1 here
        · intro none_
          exact absurd (none_ p List.mem_cons_self) (by omega)
      · rw [if_neg fits, rest, List.forall_mem_cons]
        exact ⟨fun none_ => ⟨by omega, none_⟩, fun none_ => none_.2⟩

section Cut

variable {X : Type v} (text : X → List α) (parts : X → List (List α))

/-- From the first line on that does not fit, no part of a line fits either. -/
def NoneAfter : Nat → List X → Prop
  | _, [] => True
  | room, x :: xs =>
      if (text x).length ≤ room then NoneAfter (room - (text x).length) xs
      else ∀ y ∈ x :: xs, ∀ p ∈ parts y, room < p.length

/-- **Keeping parts is keeping whole lines** exactly where none fits after the first line
that does not. -/
theorem keep_eq_head_iff {xs : List X} (whole : ∀ x ∈ xs, (parts x).flatten = text x)
    (nonempty : ∀ x ∈ xs, ∀ p ∈ parts x, p ≠ []) (room : Nat) :
    keepWithin room (xs.flatMap parts) = headWithin room (xs.map text) ↔
      NoneAfter text parts room xs := by
  induction xs generalizing room with
  | nil => simp [keepWithin, headWithin, NoneAfter]
  | cons x xs ih =>
      have rest := ih (fun y member => whole y (List.mem_cons_of_mem _ member))
        (fun y member => nonempty y (List.mem_cons_of_mem _ member))
      have here := whole x List.mem_cons_self
      rw [List.flatMap_cons, List.map_cons, headWithin, NoneAfter]
      by_cases fits : (text x).length ≤ room
      · rw [if_pos fits, if_pos fits, keepWithin_append (by rwa [here]), here,
          List.append_cancel_left_eq]
        exact rest _
      · rw [if_neg fits, if_neg fits, ← List.flatMap_cons, keepWithin_eq_nil]
        · simp only [List.mem_flatMap, forall_exists_index, and_imp]
          exact ⟨fun none_ y member p part => none_ p y member part,
            fun none_ p y member part => none_ y member p part⟩
        · intro p member
          obtain ⟨y, line, part⟩ := List.mem_flatMap.mp member
          exact nonempty y line p part

end Cut

/-! ## Finding a marker -/

section Find

variable [DecidableEq α] (marker : List α)

def find : List α → Option Nat
  | [] => if marker = [] then some 0 else none
  | b :: bs => if marker <+: b :: bs then some 0 else (find bs).map (· + 1)

variable {marker}

theorem find_bound {t : List α} {i : Nat} (found : find marker t = some i) :
    i + marker.length ≤ t.length := by
  induction t generalizing i with
  | nil =>
      rw [find] at found
      split at found
      · rename_i empty
        cases found
        simp [empty]
      · cases found
  | cons b bs ih =>
      rw [find] at found
      split at found
      · rename_i here
        cases found
        simpa using here.length_le
      · obtain ⟨j, later, rfl⟩ := Option.map_eq_some_iff.mp found
        have rest := ih later
        rw [List.length_cons]
        omega

/-- What is found in a part is found in the whole. -/
theorem find_append {t : List α} {i : Nat} (found : find marker t = some i) (more : List α) :
    find marker (t ++ more) = some i := by
  induction t generalizing i with
  | nil =>
      rw [find] at found
      split at found
      · rename_i empty
        cases found
        subst empty
        cases more <;> simp [find]
      · cases found
  | cons b bs ih =>
      have fits := find_bound found
      rw [find] at found
      rw [List.cons_append, find]
      split at found
      · rename_i here
        cases found
        exact if_pos (here.trans ⟨more, rfl⟩)
      · rename_i not_
        obtain ⟨j, later, rfl⟩ := Option.map_eq_some_iff.mp found
        rw [if_neg, ih later]
        · rfl
        · intro here
          exact not_ (List.prefix_of_prefix_length_le here ⟨more, rfl⟩ (by omega))

/-- **Nothing found in a part** begins before its last letters, which are too few. -/
theorem find_skip {t : List α} (none_ : find marker t = none) (more : List α) :
    find marker (t ++ more)
      = (find marker (t.drop (t.length - (marker.length - 1)) ++ more)).map
          (· + (t.length - (marker.length - 1))) := by
  induction t with
  | nil => simp
  | cons b bs ih =>
      rw [find] at none_
      split at none_
      · cases none_
      · rename_i not_
        rw [Option.map_eq_none_iff] at none_
        rcases Nat.lt_or_ge (b :: bs).length marker.length with short | long
        · have zero : (b :: bs).length - (marker.length - 1) = 0 := by omega
          rw [zero, List.drop_zero]
          simp
        · have step : (b :: bs).length - (marker.length - 1)
              = bs.length - (marker.length - 1) + 1 := by
            rw [List.length_cons] at long ⊢
            have filled : marker ≠ [] := by
              rintro rfl
              exact not_ (List.nil_prefix)
            have positive := List.length_pos_iff.mpr filled
            omega
          have never : ¬ marker <+: b :: (bs ++ more) := fun here =>
            not_ (List.prefix_of_prefix_length_le here ⟨more, rfl⟩ long)
          rw [List.cons_append, find, if_neg never, ih none_, step, List.drop_succ_cons,
            Option.map_map]
          rfl

/-- The last letters alone are too few. -/
theorem find_last {t : List α} (none_ : find marker t = none) :
    find marker (t.drop (t.length - (marker.length - 1))) = none := by
  have skipped := find_skip none_ []
  rw [List.append_nil, none_, List.append_nil] at skipped
  exact Option.map_eq_none_iff.mp skipped.symm

end Find

end Kiagent.Theory.Lines
