/-
# Converter.PageBounds -- a page goes on, and is not too long

Every record ends after the offset it is read from, and within the file.  So a page of an
expander that is not the last leaves less of the file (`Advances`), and no page has more
children than its budget, or one.
-/
import Kiagent.Converter.Expand

namespace Kiagent.Converter

open Theory.Lines

set_option autoImplicit false

/-! ## Where records end -/

theorem bytesOf_mark (rules : RecordRules) (ps : List Piece) : ∀ prevBlank offset,
    bytesOf (mark rules prevBlank offset ps) = (ps.map Piece.text).flatten.length := by
  induction ps with
  | nil => intros; rfl
  | cons p ps ih =>
      intro prevBlank offset
      rw [mark, bytesOf_cons, ih, List.map_cons, List.flatten_cons, List.length_append]

/-- Marks lie one behind the other. -/
theorem mark_offset (rules : RecordRules) (before : List Marked) :
    ∀ (ps : List Piece) prevBlank offset u after,
      mark rules prevBlank offset ps = before ++ u :: after →
        u.offset = offset + bytesOf before := by
  induction before with
  | nil =>
      intro ps prevBlank offset u after same
      cases ps with
      | nil => cases same
      | cons p ps =>
          cases same
          rfl
  | cons v before ih =>
      intro ps prevBlank offset u after same
      cases ps with
      | nil => cases same
      | cons p ps =>
          rw [mark, List.cons_append] at same
          obtain ⟨first, rest⟩ := List.cons.inj same
          rw [ih ps _ _ u after rest, bytesOf_cons, ← first]
          exact Nat.add_assoc _ _ _

theorem untilEnd_front (us : List Marked) : ∃ rest, us = untilEnd us ++ rest := by
  induction us with
  | nil => exact ⟨[], rfl⟩
  | cons u us ih =>
      obtain ⟨rest, same⟩ := ih
      rw [untilEnd]
      split
      · exact ⟨us, rfl⟩
      · exact ⟨rest, by rw [List.cons_append, ← same]⟩

/-- What is split off stands in the text. -/
theorem split_within (us : List Marked) : ∀ g ∈ split us,
    ∃ before u more after, g = u :: more ∧ us = before ++ u :: more ++ after := by
  induction us with
  | nil => simp [split]
  | cons u us ih =>
      intro g member
      have later : g ∈ split us → ∃ before v more after, g = v :: more ∧
          u :: us = before ++ v :: more ++ after := fun old => by
        obtain ⟨before, v, more, after, rfl, same⟩ := ih g old
        exact ⟨u :: before, v, more, after, rfl, by rw [same]; simp⟩
      rw [split] at member
      split at member
      · rcases List.mem_cons.mp member with rfl | old
        · obtain ⟨more, first⟩ := untilEnd_cons u (us.takeWhile fun v => !v.starts)
          obtain ⟨rest, whole⟩ := untilEnd_front (u :: us.takeWhile fun v => !v.starts)
          rw [first, List.cons_append] at whole
          have taken := List.takeWhile_append_dropWhile (p := fun v : Marked => !v.starts) (l := us)
          refine ⟨[], u, more, rest ++ us.dropWhile fun v => !v.starts, first, ?_⟩
          rw [List.nil_append, List.cons_append, ← List.append_assoc, ← (List.cons.inj whole).2,
            taken]
        · exact later old
      · exact later member

/-- **The end of a record** lies behind the offset, and in the file. -/
theorem records_end (rules : RecordRules) (file : Bytes) (offset : Nat) :
    ∀ r ∈ readRecords rules file offset, offset < r.ends ∧ r.ends ≤ file.length := by
  intro r member
  have nonempty := fun l => lines_ne_nil isNewline (t := file.drop offset) l
  have marks : mark rules true offset (pieces 0 (lines isNewline (file.drop offset)))
      = (cutsFrom rules file offset).flatMap Cut.parts := mark_pieces rules _ true offset 0
  have size : bytesOf ((cutsFrom rules file offset).flatMap Cut.parts) = file.length - offset := by
    rw [← marks, bytesOf_mark, pieces_texts, flatten_lines, List.length_drop]
  rw [readRecords_kept] at member
  obtain ⟨g, inside, rfl⟩ := List.mem_map.mp member
  obtain ⟨before, u, more, after, rfl, whole⟩ := split_within _ g inside
  have starts : u.offset = offset + bytesOf before :=
    mark_offset rules before _ true offset u (more ++ after) (by rw [marks, whole]; simp)
  have some_ : u.text ≠ [] := by
    have here : u ∈ (cutsFrom rules file offset).flatMap Cut.parts := by rw [whole]; simp
    obtain ⟨c, there, part⟩ := List.mem_flatMap.mp here
    exact (parted_cuts rules nonempty _ _ _ c there).nonempty u part
  have text : 0 < u.text.length := List.length_pos_iff.mpr some_
  rw [whole, bytesOf_append, bytesOf_append, bytesOf_cons] at size
  show offset < u.offset + bytesOf (u :: more) ∧ u.offset + bytesOf (u :: more) ≤ file.length
  rw [bytesOf_cons, starts]
  omega

theorem elements_end {opens closes : Bytes} {maxRecordBytes : Nat} (open_ : opens ≠ [])
    (close : closes ≠ []) {offset : Nat} {t : Bytes} {rs : List RawRecord}
    (elements : Elements opens closes maxRecordBytes offset t rs) :
    ∀ r ∈ rs, offset < r.ends ∧ r.ends ≤ offset + t.length := by
  have marker : 0 < opens.length := List.length_pos_iff.mpr open_
  have marker' : 0 < closes.length := List.length_pos_iff.mpr close
  induction elements with
  | none _ => simp
  | @unclosed offset i t opened _ =>
      intro r member
      rw [List.mem_singleton.mp member]
      have bound := find_bound opened
      show offset < offset + i + (t.drop i).length ∧ offset + i + (t.drop i).length ≤ _
      rw [List.length_drop]
      omega
  | @element offset i e t rs opened closed _ ih =>
      intro r member
      have bound := find_bound opened
      have bound' := find_bound closed
      rw [List.length_drop] at bound'
      rcases List.mem_cons.mp member with rfl | old
      · show offset < offset + i + ((t.drop i).take (e + closes.length)).length ∧
          offset + i + ((t.drop i).take (e + closes.length)).length ≤ _
        rw [List.length_take, List.length_drop]
        omega
      · have := ih r old
        rw [List.length_drop, List.length_drop] at this
        omega

/-! ## Pages -/

section Pages

variable {σ : Type}

theorem step_items (p : Pager σ) (s : Part σ) (r : RawRecord) :
    (p.step s r).items.length ≤ s.items.length + 1 := by
  unfold Pager.step
  cases p.child r <;> simp

/-- One more child than the budget only where it has none. -/
theorem page_items (p : Pager σ) {turn : Turn} {m : Nat} (limit : turn.budget.items = some m)
    (rs : List RawRecord) : ∀ k (s : Part σ), s.items.length < max 1 m →
      (p.page turn k rs s).1.items.length ≤ max 1 m := by
  induction rs with
  | nil => exact fun k s room => Nat.le_of_lt room
  | cons r rs ih =>
      intro k s room
      have grown := step_items p s r
      rw [Pager.page]
      split
      · exact Nat.le_trans grown room
      · rename_i more
        refine ih (k + 1) (p.step s r) ?_
        have open_ : ¬ m ≤ (p.step s r).items.length := fun full => more (by
          simp [Part.spent, reached, limit, full])
        omega

/-- How much of a container is left. -/
def restOf (offset : σ → Nat) (size : Nat) : Option σ → Nat
  | none => size + 1
  | some s => size - offset s

/-- An expander whose pages come to an end, and which keeps to its budget. -/
structure Advances (expand : Option σ → Turn → ExpandResult σ) (offset : σ → Nat) (size : Nat)
    (Good : σ → Prop) : Prop where
  good : ∀ resume, (∀ s ∈ resume, Good s) → ∀ turn, ∀ s ∈ (expand resume turn).resume, Good s
  less : ∀ resume, (∀ s ∈ resume, Good s) → ∀ turn, ∀ s ∈ (expand resume turn).resume,
    restOf offset size (some s) < restOf offset size resume
  few : ∀ resume, (∀ s ∈ resume, Good s) → ∀ turn m, turn.budget.items = some m →
    (expand resume turn).items.length ≤ max 1 m

section All

theorem expandRecords_few (p : Pager σ) (read : Nat → List RawRecord) (offset : σ → Nat)
    (summary : σ → String) (tail : σ → Option σ) {turn : Turn} {m : Nat}
    (limit : turn.budget.items = some m) (s : σ) :
    (expandRecords p read offset summary tail turn s).items.length ≤ max 1 m := by
  have short := page_items p limit (read (offset s)) 0 ⟨s, [], 0⟩ (by simp)
  unfold expandRecords
  generalize p.page turn 0 (read (offset s)) ⟨s, [], 0⟩ = page at short
  obtain ⟨part_, done⟩ := page
  cases done <;> exact short

variable {p : Pager σ} {read : Nat → List RawRecord} {offset : σ → Nat} {summary : σ → String}
  {tail : σ → Option σ} {Good : σ → Prop} {init : σ}
  {expand : Option σ → Turn → ExpandResult σ}
  (paging : Paging p read offset summary tail Good init expand)
include paging

theorem expandRecords_resume {size : Nat}
    (within_ : ∀ start, ∀ r ∈ read start, start < r.ends ∧ r.ends ≤ size) {s : σ} (good : Good s)
    {turn : Turn} {s' : σ}
    (more : s' ∈ (expandRecords p read offset summary tail turn s).resume) :
    Good s' ∧ offset s < offset s' ∧ offset s' ≤ size := by
  obtain ⟨taken, left, records, part, -, some_⟩ :=
    page_spec p turn (read (offset s)) 0 ⟨s, [], 0⟩
  unfold expandRecords at more
  generalize p.page turn 0 (read (offset s)) ⟨s, [], 0⟩ = page at part some_ more
  obtain ⟨part_, done⟩ := page
  cases done with
  | true => cases more
  | false =>
      cases more
      obtain ⟨before, r, last, good', stop⟩ := foldl_moved paging taken (s := ⟨s, [], 0⟩) good
        (some_ rfl)
      rw [← part] at good' stop
      have inside : r ∈ read (offset s) := by rw [records, last]; simp
      rw [stop]
      exact ⟨good', within_ _ r inside⟩

theorem paging_advances {size : Nat}
    (within_ : ∀ start, ∀ r ∈ read start, start < r.ends ∧ r.ends ≤ size) :
    Advances expand offset size Good := by
  have here : ∀ resume, (∀ s ∈ resume, Good s) → ∃ s, Good s ∧
      (∀ turn, expand resume turn = expandRecords p read offset summary tail turn s) ∧
        ∀ n, offset s < n → n ≤ size → size - n < restOf offset size resume := by
    intro resume goods
    cases resume with
    | none => exact ⟨init, paging.begun, paging.first, fun n _ _ =>
          show size - n < size + 1 by omega⟩
    | some s =>
        have good := goods s rfl
        exact ⟨s, good, fun turn => paging.next s turn good, fun n _ _ =>
          show size - n < size - offset s by omega⟩
  refine ⟨fun resume goods turn s' more => ?_, fun resume goods turn s' more => ?_,
    fun resume goods turn m limit => ?_⟩
  · obtain ⟨s, good, same, -⟩ := here resume goods
    rw [same] at more
    exact (expandRecords_resume paging within_ good more).1
  · obtain ⟨s, good, same, smaller⟩ := here resume goods
    rw [same] at more
    obtain ⟨-, further, inside⟩ := expandRecords_resume paging within_ good more
    exact smaller _ further inside
  · obtain ⟨s, good, same, -⟩ := here resume goods
    rw [same]
    exact expandRecords_few p read offset summary tail limit s

end All

end Pages

section Containers

variable (name : String) (file : Bytes)

theorem mbox_advances (messageChild : Bytes → Bool → Option ChildItem) :
    Advances (expandMbox name file messageChild) MboxResume.offset file.length
      (fun s => s.append = false) :=
  paging_advances (mboxPaging name file messageChild) fun start => records_end _ file start

theorem vcard_advances (cardChild : Bytes → Option ChildItem) :
    Advances (expandVcard name file cardChild) VcardResume.offset file.length (fun _ => True) :=
  paging_advances (vcardPaging name file cardChild) fun start => records_end _ file start

theorem enex_advances (noteChild : Bytes → Bool → Option ChildItem) :
    Advances (expandEnex name file noteChild) VcardResume.offset file.length (fun _ => True) := by
  refine paging_advances (enexPaging name file noteChild) fun start r member => ?_
  have elements := @readElements_spec NOTE_OPEN NOTE_CLOSE (by decide) MAX_NOTE_BYTES file start
  have bounds := elements_end (by decide) (by decide) elements r member
  rw [List.length_drop] at bounds
  omega

end Containers

end Kiagent.Converter
