/-
# Theory.Words -- words found in a text, and texts on one line

`seen ws t`: the words stand in the text in this order, whatever is between them.  What is
seen in a part of a text is seen in the whole; a unit that is in no word can be cut off.

A text is flat when its only white space is single spaces between other units.  Flattening
makes a text flat, and leaves a flat one as it is.
-/
import Mathlib

namespace Kiagent.Theory

set_option autoImplicit false

universe u

variable {α : Type u}

/-! ## Words -/

section Seen

variable [DecidableEq α]

def seen : List (List α) → List α → Bool
  | [], _ => true
  | w :: ws, t => t.tails.any fun s => w.isPrefixOf s && seen ws (s.drop w.length)

theorem seen_cons {w : List α} {ws : List (List α)} {t : List α} :
    seen (w :: ws) t = true ↔ ∃ a r, t = a ++ (w ++ r) ∧ seen ws r = true := by
  simp only [seen, List.any_eq_true, List.mem_tails, Bool.and_eq_true, List.isPrefixOf_iff_prefix]
  constructor
  · rintro ⟨s, ⟨a, rfl⟩, ⟨r, rfl⟩, rest⟩
    rw [List.drop_left] at rest
    exact ⟨a, r, rfl, rest⟩
  · rintro ⟨a, r, rfl, rest⟩
    refine ⟨w ++ r, List.suffix_append .., List.prefix_append .., ?_⟩
    rwa [List.drop_left]

theorem seen_append_right {ws : List (List α)} {t : List α} (found : seen ws t = true)
    (more : List α) : seen ws (t ++ more) = true := by
  induction ws generalizing t with
  | nil => rfl
  | cons w ws ih =>
      obtain ⟨a, r, rfl, rest⟩ := seen_cons.1 found
      exact seen_cons.2 ⟨a, r ++ more, by simp, ih rest⟩

theorem seen_append_left {ws : List (List α)} {t : List α} (found : seen ws t = true)
    (more : List α) : seen ws (more ++ t) = true := by
  cases ws with
  | nil => rfl
  | cons w ws =>
      obtain ⟨a, r, rfl, rest⟩ := seen_cons.1 found
      exact seen_cons.2 ⟨more ++ a, r, by simp, rest⟩

/-- A unit that is in no word. -/
theorem seen_snoc {ws : List (List α)} {t : List α} {x : α}
    (foreign : ∀ w ∈ ws, w ≠ [] ∧ x ∉ w) : seen ws (t ++ [x]) = seen ws t := by
  rw [Bool.eq_iff_iff]
  refine ⟨fun found => ?_, fun found => seen_append_right found [x]⟩
  induction ws generalizing t with
  | nil => rfl
  | cons w ws ih =>
      obtain ⟨a, r, eq, rest⟩ := seen_cons.1 found
      obtain ⟨nonempty, out⟩ := foreign w List.mem_cons_self
      rcases List.eq_nil_or_concat r with rfl | ⟨r, y, rfl⟩
      · have ends : (t ++ [x]).getLast? = w.getLast? := by
          rw [eq, List.append_nil, List.getLast?_append_of_ne_nil _ nonempty]
        rw [List.getLast?_concat] at ends
        exact absurd (List.mem_of_getLast? ends.symm) out
      · rw [List.concat_eq_append, ← List.append_assoc, ← List.append_assoc] at eq
        obtain ⟨rfl, same⟩ := List.append_inj' eq rfl
        cases same
        rw [List.concat_eq_append] at rest
        exact seen_cons.2 ⟨a, r, by simp,
          ih (fun v mem => foreign v (List.mem_cons_of_mem _ mem)) rest⟩

/-- No occurrence of the word can begin inside `p` and end behind it. -/
def Apart (w p : List α) : Prop := ∀ s ∈ p.tails, s ≠ [] → ¬ w <+: s ∧ ¬ s <+: w

instance (w p : List α) : Decidable (Apart w p) :=
  inferInstanceAs (Decidable (∀ s ∈ p.tails, s ≠ [] → ¬ w <+: s ∧ ¬ s <+: w))

theorem seen_append {w p : List α} {ws : List (List α)} {t : List α} (apart : Apart w p) :
    seen (w :: ws) (p ++ t) = seen (w :: ws) t := by
  rw [Bool.eq_iff_iff]
  refine ⟨fun found => ?_, fun found => seen_append_left found p⟩
  obtain ⟨a, r, eq, rest⟩ := seen_cons.1 found
  rcases List.append_eq_append_iff.1 eq with ⟨b, rfl, rfl⟩ | ⟨s, rfl, same⟩
  · exact seen_cons.2 ⟨b, r, rfl, rest⟩
  · cases s with
    | nil => exact seen_cons.2 ⟨[], r, by simpa using same.symm, rest⟩
    | cons y s =>
        obtain ⟨short, long⟩ := apart (y :: s)
          ((List.mem_tails ..).2 (List.suffix_append a (y :: s))) (by simp)
        rcases List.prefix_or_prefix_of_prefix (List.prefix_append w r)
          (same ▸ List.prefix_append (y :: s) t) with inside | across
        · exact absurd inside short
        · exact absurd across long

end Seen

/-! ## One line -/

section Flat

variable (blank : α → Bool) (space : α)

/-- Every run of white space as one space. -/
def oneSpace : List α → List α
  | [] => []
  | x :: rest =>
      if blank x then
        if rest.head?.any blank then oneSpace rest else space :: oneSpace rest
      else x :: oneSpace rest

def trimBlank (t : List α) : List α := (((t.dropWhile blank).reverse).dropWhile blank).reverse

/-- White space is one space between two units that are none. -/
structure Flat (t : List α) : Prop where
  spaces : ∀ x ∈ t, blank x = true → x = space
  single : t.IsChain fun x y => blank x = true → blank y = false
  head : ∀ x ∈ t.head?, blank x = false
  last : ∀ x ∈ t.getLast?, blank x = false

instance [DecidableEq α] (t : List α) : Decidable (Flat blank space t) :=
  decidable_of_iff ((∀ x ∈ t, blank x = true → x = space) ∧
      (t.IsChain fun x y => blank x = true → blank y = false) ∧
      (∀ x ∈ t.head?, blank x = false) ∧ ∀ x ∈ t.getLast?, blank x = false)
    ⟨fun ⟨spaces, single, head, last⟩ => ⟨spaces, single, head, last⟩,
      fun flat => ⟨flat.spaces, flat.single, flat.head, flat.last⟩⟩

variable {blank : α → Bool} {space : α} {t : List α}

theorem head_oneSpace (t : List α) (isBlank : blank space = true) :
    (oneSpace blank space t).head?.any blank = t.head?.any blank := by
  induction t with
  | nil => rfl
  | cons x rest ih =>
      rw [oneSpace]
      split
      · next white =>
        split
        · next more => simp [ih, more, white]
        · simp [isBlank, white]
      · rfl

theorem oneSpace_spaces (t : List α) : ∀ x ∈ oneSpace blank space t, blank x = true → x = space := by
  induction t with
  | nil => nofun
  | cons x rest ih =>
      rw [oneSpace]
      split
      · split
        · exact ih
        · intro y mem white
          rcases List.mem_cons.1 mem with rfl | tail
          · rfl
          · exact ih y tail white
      · next dark =>
        intro y mem white
        rcases List.mem_cons.1 mem with rfl | tail
        · exact absurd white dark
        · exact ih y tail white

theorem oneSpace_single (isBlank : blank space = true) (t : List α) :
    (oneSpace blank space t).IsChain fun x y => blank x = true → blank y = false := by
  induction t with
  | nil => exact .nil
  | cons x rest ih =>
      rw [oneSpace]
      split
      · split
        · exact ih
        · next alone =>
          refine List.isChain_cons.2 ⟨fun y first _ => ?_, ih⟩
          rw [← head_oneSpace rest isBlank] at alone
          rw [Option.mem_def] at first
          simpa [first] using alone
      · next dark => exact List.isChain_cons.2 ⟨fun y _ white => absurd white dark, ih⟩

theorem trimBlank_starts (blank : α → Bool) (t : List α) : trimBlank blank t <+: t.dropWhile blank := by
  have := List.dropWhile_suffix (l := (t.dropWhile blank).reverse) blank
  rwa [← List.reverse_prefix, List.reverse_reverse] at this

theorem trimBlank_part (blank : α → Bool) (t : List α) : trimBlank blank t <:+: t :=
  (trimBlank_starts blank t).isInfix.trans (List.dropWhile_suffix blank).isInfix

theorem not_blank_of_head {x : α} (first : x ∈ (t.dropWhile blank).head?) : blank x = false := by
  have := List.head?_dropWhile_not blank t
  rw [Option.mem_def] at first
  rw [first] at this
  simpa using this

theorem head_trimBlank {x : α} (first : x ∈ (trimBlank blank t).head?) : blank x = false := by
  obtain ⟨rest, eq⟩ := trimBlank_starts blank t
  refine not_blank_of_head (t := t) ?_
  rw [← eq, List.head?_append, Option.mem_def.1 first]
  rfl

theorem last_trimBlank {x : α} (final : x ∈ (trimBlank blank t).getLast?) : blank x = false := by
  rw [trimBlank, List.getLast?_reverse] at final
  exact not_blank_of_head final

/-- A text flattened. -/
theorem flat_trimBlank (isBlank : blank space = true) (t : List α) :
    Flat blank space (trimBlank blank (oneSpace blank space t)) where
  spaces x mem := oneSpace_spaces t x ((trimBlank_part blank _).subset mem)
  single := by
    obtain ⟨a, b, eq⟩ := trimBlank_part blank (oneSpace blank space t)
    have whole : (oneSpace blank space t).IsChain fun x y => blank x = true → blank y = false :=
      oneSpace_single isBlank t
    rw [← eq] at whole
    exact whole.left_of_append.right_of_append
  head _ first := head_trimBlank first
  last _ final := last_trimBlank final

theorem trimBlank_eq_self (head : ∀ x ∈ t.head?, blank x = false)
    (last : ∀ x ∈ t.getLast?, blank x = false) : trimBlank blank t = t := by
  have front : t.dropWhile blank = t := by
    cases t with
    | nil => rfl
    | cons x rest => rw [List.dropWhile_cons_of_neg (by simp [head x rfl])]
  have back : t.reverse.dropWhile blank = t.reverse := by
    cases ends : t.reverse with
    | nil => rfl
    | cons x rest =>
        have final : x ∈ t.getLast? := by
          rw [← List.head?_reverse, ends]
          rfl
        rw [List.dropWhile_cons_of_neg (by simp [last x final])]
  rw [trimBlank, front, back, List.reverse_reverse]

theorem Flat.oneSpace_eq (flat : Flat blank space t) : oneSpace blank space t = t := by
  have single := flat.single
  have spaces := flat.spaces
  have last := flat.last
  clear flat
  induction t with
  | nil => rfl
  | cons x rest ih =>
      obtain ⟨next, chained⟩ := List.isChain_cons.1 single
      have rest_eq := ih chained (fun y mem => spaces y (List.mem_cons_of_mem _ mem)) (by
        intro y final
        cases rest with
        | nil => cases final
        | cons z rest => exact last y (by simpa using final))
      rw [oneSpace, rest_eq]
      split
      · next white =>
        have dark : ¬ rest.head?.any blank = true := by
          cases rest with
          | nil => simp
          | cons z rest => simp [next z rfl white]
        rw [if_neg dark, spaces x List.mem_cons_self white]
      · rfl

theorem Flat.trimBlank_eq (flat : Flat blank space t) : trimBlank blank t = t :=
  trimBlank_eq_self flat.head flat.last

/-- A flat text cut off, with a mark at the cut. -/
theorem Flat.cut (flat : Flat blank space t) {x : α} (dark : blank x = false) (n : ℕ)
    (positive : 0 < n) : Flat blank space (t.take n ++ [x]) where
  spaces y mem white := by
    rcases List.mem_append.1 mem with inside | mark
    · exact flat.spaces y (List.mem_of_mem_take inside) white
    · rw [List.mem_singleton.1 mark, dark] at white
      cases white
  single := by
    refine (flat.single.take n).append (.singleton x) fun y _ z first _ => ?_
    rw [← Option.some.inj first]
    exact dark
  head y first := by
    cases t with
    | nil =>
        rw [List.take_nil, List.nil_append] at first
        rw [← Option.some.inj first]
        exact dark
    | cons z rest =>
        obtain ⟨n, rfl⟩ := Nat.exists_eq_succ_of_ne_zero positive.ne'
        exact flat.head y first
  last y final := by
    rw [List.getLast?_concat] at final
    rw [← Option.some.inj final]
    exact dark

/-- A text without white space. -/
theorem Flat.of_dark (dark : ∀ x ∈ t, blank x = false) : Flat blank space t where
  spaces x mem white := by
    rw [dark x mem] at white
    cases white
  single := List.Pairwise.isChain (List.pairwise_of_forall_mem_list fun _ _ y mem _ => dark y mem)
  head x first := dark x (List.mem_of_head? first)
  last x final := dark x (List.mem_of_getLast? final)

/-- Two flat texts with a space between them. -/
theorem Flat.join {s : List α} (front : Flat blank space s) (back : Flat blank space t)
    (filled : s ≠ []) (more : t ≠ []) : Flat blank space (s ++ space :: t) where
  spaces y mem white := by
    rcases List.mem_append.1 mem with inside | rest
    · exact front.spaces y inside white
    · rcases List.mem_cons.1 rest with rfl | inside
      · rfl
      · exact back.spaces y inside white
  single := by
    refine front.single.append (List.isChain_cons.2 ⟨fun y first _ => back.head y first,
      back.single⟩) fun y final z _ white => ?_
    rw [front.last y final] at white
    cases white
  head y first := by
    rw [List.head?_append_of_ne_nil _ filled] at first
    exact front.head y first
  last y final := by
    rw [List.getLast?_append_of_ne_nil _ (by simp), List.getLast?_cons] at final
    cases ends : t.getLast? with
    | none => exact absurd (List.getLast?_eq_none_iff.1 ends) more
    | some z =>
        rw [ends] at final
        exact back.last y (by rw [ends]; exact final)

end Flat

end Kiagent.Theory
