/-
# Converter.Expand -- a container expanded page by page

`expandMbox`, `expandVcard` and `expandEnex` turn the records of a container into children
until a budget is spent, and hand back where to go on: the end of the last record.  Where
reading goes on from the end of any record with the records that are left, every sequence
of budgets gives the children and the summary of one unbounded page (`expandRecords_pages`).

So it is with the reading itself that the pages stand and fall (`cutFree_iff`).
-/
import Kiagent.Converter.Elements
import Kiagent.Converter.RecordSplit

namespace Kiagent.Converter

open Theory.Lines

set_option autoImplicit false

/-! ## Children and budgets -/

structure ChildItem where
  key : String
  type : String
  title : String
  markdown : Option String
  createdAt : Option String
  deriving DecidableEq

/-- Without a number there is no bound. -/
structure ExpandBudget where
  items : Option Nat
  bytes : Option Nat
  ms : Option Nat

def unbounded : ExpandBudget := ⟨none, none, none⟩

/-- A budget, and what the clock says after each record. -/
structure Turn where
  budget : ExpandBudget
  elapsed : Nat → Nat

structure ExpandResult (σ : Type) where
  items : List ChildItem
  resume : Option σ
  summary : Option String
  tail : Option σ
  restart : Bool
  deriving DecidableEq

def reached (limit : Option Nat) (n : Nat) : Bool := limit.any fun m => m ≤ n

/-! ## A page -/

/-- What an expander makes of records. -/
structure Pager (σ : Type) where
  child : RawRecord → Option ChildItem
  move : σ → Nat → σ
  add : σ → ChildItem → σ

/-- A page so far. -/
structure Part (σ : Type) where
  state : σ
  items : List ChildItem
  bytes : Nat

section Page

variable {σ : Type} (p : Pager σ)

def ChildItem.byteLength (c : ChildItem) : Nat := (c.markdown.getD "").utf8ByteSize

def Pager.step (s : Part σ) (r : RawRecord) : Part σ :=
  let moved := p.move s.state r.ends
  match p.child r with
  | none => { s with state := moved }
  | some c => ⟨p.add moved c, s.items ++ [c], s.bytes + c.byteLength⟩

def Part.spent (s : Part σ) (turn : Turn) (k : Nat) : Bool :=
  reached turn.budget.items s.items.length || reached turn.budget.bytes s.bytes ||
    reached turn.budget.ms (turn.elapsed k)

/-- Until the budget is spent; with it whether the records ended. -/
def Pager.page (turn : Turn) : Nat → List RawRecord → Part σ → Part σ × Bool
  | _, [], s => (s, true)
  | k, r :: rs, s =>
      if (p.step s r).spent turn k then (p.step s r, false)
      else Pager.page turn (k + 1) rs (p.step s r)

/-- A page of the records from a state. -/
def expandRecords (read : Nat → List RawRecord) (offset : σ → Nat) (summary : σ → String)
    (tail : σ → Option σ) (turn : Turn) (state : σ) : ExpandResult σ :=
  let (part, done) := p.page turn 0 (read (offset state)) ⟨state, [], 0⟩
  if done then
    { items := part.items, resume := none, summary := some (summary part.state)
      tail := tail part.state, restart := false }
  else { items := part.items, resume := some part.state, summary := none, tail := none, restart := false }

end Page

/-! ## The expanders -/

/-- `toLocaleString('en-US')` -/
def groupDigits : List Char → List Char
  | a :: b :: c :: d :: rest => a :: b :: c :: ',' :: groupDigits (d :: rest)
  | short => short

def localeString (n : Nat) : String := String.ofList (groupDigits (toString n).toList.reverse).reverse

structure MboxResume where
  offset : Nat
  count : Nat
  first : Option String
  last : Option String
  append : Bool
  deriving DecidableEq

structure VcardResume where
  offset : Nat
  count : Nat
  deriving DecidableEq

abbrev EnexResume := VcardResume

def MAX_MESSAGE_BYTES : Nat := 8 * 1024 * 1024

def MAX_CARD_BYTES : Nat := 8 * 1024 * 1024

def MAX_NOTE_BYTES : Nat := 8 * 1024 * 1024

def FROM_ : Bytes := [70, 114, 111, 109, 32]

/-- `<note>` and `</note>` -/
def NOTE_OPEN : Bytes := [60, 110, 111, 116, 101, 62]

def NOTE_CLOSE : Bytes := [60, 47, 110, 111, 116, 101, 62]

def year (iso : Option String) : Option String := iso.map fun s => String.ofList (s.toList.take 4)

def mboxSummary (name : String) (s : MboxResume) : String :=
  let label := localeString s.count ++ " message" ++ if s.count = 1 then "" else "s"
  let span :=
    match year s.first, year s.last with
    | some a, some b => if a = b then ", " ++ a else ", " ++ a ++ "–" ++ b
    | _, _ => ""
  "# " ++ name ++ " — " ++ label ++ span

def countSummary (noun name : String) (s : VcardResume) : String :=
  "# " ++ name ++ " — " ++ localeString s.count ++ " " ++ noun ++ if s.count = 1 then "" else "s"

/-- The earliest and the latest date. -/
def MboxResume.add (s : MboxResume) (c : ChildItem) : MboxResume :=
  let counted := { s with count := s.count + 1 }
  match c.createdAt with
  | none => counted
  | some date =>
      { counted with
        first := if s.first.all fun f => date < f then some date else s.first
        last := if s.last.all fun l => date > l then some date else s.last }

def VcardResume.add (s : VcardResume) (_ : ChildItem) : VcardResume := { s with count := s.count + 1 }

def startsWithFrom (file : Bytes) (offset : Nat) : Bool := (file.drop offset).take 5 = FROM_

section Expanders

variable (name : String) (file : Bytes)

def mboxPager (messageChild : Bytes → Bool → Option ChildItem) : Pager MboxResume where
  child r := messageChild r.raw r.truncated
  move s ends := { s with offset := ends }
  add := MboxResume.add

def countPager (child : Bytes → Bool → Option ChildItem) : Pager VcardResume where
  child r := child r.raw r.truncated
  move s ends := { s with offset := ends }
  add := VcardResume.add

def mboxPage (messageChild : Bytes → Bool → Option ChildItem) (maxRecordBytes : Nat) :
    Turn → MboxResume → ExpandResult MboxResume :=
  expandRecords (mboxPager messageChild)
    (readRecords (RecordKind.mbox.rules maxRecordBytes) file) MboxResume.offset (mboxSummary name)
    fun s => some { s with append := true }

/-- A tail is only gone on with where the file goes on with a message. -/
def expandMbox (messageChild : Bytes → Bool → Option ChildItem) (resume : Option MboxResume)
    (turn : Turn) : ExpandResult MboxResume :=
  let state := { resume.getD ⟨0, 0, none, none, false⟩ with append := false }
  if resume.any MboxResume.append then
    if state.offset = file.length then
      { items := [], resume := none, summary := some (mboxSummary name state)
        tail := some { state with append := true }, restart := false }
    else if state.offset > file.length || !startsWithFrom file state.offset then
      { items := [], resume := none, summary := none, tail := none, restart := true }
    else mboxPage name file messageChild MAX_MESSAGE_BYTES turn state
  else mboxPage name file messageChild MAX_MESSAGE_BYTES turn state

def vcardPage (cardChild : Bytes → Option ChildItem) (maxRecordBytes : Nat) :
    Turn → VcardResume → ExpandResult VcardResume :=
  expandRecords (countPager fun raw _ => cardChild raw)
    (readRecords (RecordKind.vcard.rules maxRecordBytes) file) VcardResume.offset
    (countSummary "contact" name) fun _ => none

def expandVcard (cardChild : Bytes → Option ChildItem) (resume : Option VcardResume)
    (turn : Turn) : ExpandResult VcardResume :=
  vcardPage name file cardChild MAX_CARD_BYTES turn (resume.getD ⟨0, 0⟩)

/-- A malformed note is no child. -/
def expandEnex (noteChild : Bytes → Bool → Option ChildItem) (resume : Option EnexResume)
    (turn : Turn) : ExpandResult EnexResume :=
  expandRecords (countPager noteChild) (readElements NOTE_OPEN NOTE_CLOSE MAX_NOTE_BYTES file)
    VcardResume.offset (countSummary "note" name) (fun _ => none) turn (resume.getD ⟨0, 0⟩)

end Expanders

/-! ## Pages -/

section Pages

variable {σ : Type}

/-- Page after page, each from where the last one stopped. -/
def expandPages (expand : Option σ → Turn → ExpandResult σ) (turns : Nat → Turn) :
    Nat → Nat → Option σ → Option (List ChildItem × ExpandResult σ)
  | 0, _, _ => none
  | fuel + 1, n, resume =>
      let page := expand resume (turns n)
      match page.resume with
      | none => some (page.items, page)
      | some s =>
          (expandPages expand turns fuel (n + 1) (some s)).map fun (items, last) =>
            (page.items ++ items, last)

/-- Whatever the budgets, the pages end, with the children of one unbounded page and what
it says at its end. -/
def PagesRight (expand : Option σ → Turn → ExpandResult σ) : Prop :=
  ∀ turns : Nat → Turn, ∃ fuel items last,
    expandPages expand turns fuel 0 none = some (items, last) ∧
      ∀ elapsed, let one := expand none ⟨unbounded, elapsed⟩
        one.resume = none ∧ items = one.items ∧ last.summary = one.summary ∧ last.tail = one.tail

/-! ### One page -/

section One

variable (p : Pager σ)

/-- A page takes the first records, one at least if there are any. -/
theorem page_spec (turn : Turn) (rs : List RawRecord) :
    ∀ k (s : Part σ), ∃ taken left, rs = taken ++ left ∧
      (p.page turn k rs s).1 = taken.foldl p.step s ∧
      ((p.page turn k rs s).2 = true → left = []) ∧
      ((p.page turn k rs s).2 = false → taken ≠ []) := by
  induction rs with
  | nil => exact fun k s => ⟨[], [], rfl, rfl, fun _ => rfl, fun more => (by cases more)⟩
  | cons r rs ih =>
      intro k s
      rw [Pager.page]
      split
      · exact ⟨[r], rs, rfl, rfl, fun done => (by cases done), fun _ => List.cons_ne_nil _ _⟩
      · obtain ⟨taken, left, rfl, part, all, _⟩ := ih (k + 1) (p.step s r)
        exact ⟨r :: taken, left, rfl, part, all, fun _ => List.cons_ne_nil _ _⟩

theorem page_unbounded (elapsed : Nat → Nat) (rs : List RawRecord) :
    ∀ k (s : Part σ), p.page ⟨unbounded, elapsed⟩ k rs s = (rs.foldl p.step s, true) := by
  induction rs with
  | nil => exact fun k s => rfl
  | cons r rs ih =>
      intro k s
      rw [Pager.page, if_neg (by simp [Part.spent, unbounded, reached]), ih]
      rfl

/-- The children of some records do not depend on those before. -/
theorem foldl_step (rs : List RawRecord) :
    ∀ s : Part σ, (rs.foldl p.step s).state = (rs.foldl p.step ⟨s.state, [], 0⟩).state ∧
      (rs.foldl p.step s).items = s.items ++ (rs.foldl p.step ⟨s.state, [], 0⟩).items := by
  induction rs with
  | nil => intro s; simp
  | cons r rs ih =>
      intro s
      rw [List.foldl_cons, List.foldl_cons]
      have here := ih (p.step s r)
      have fresh := ih (p.step ⟨s.state, [], 0⟩ r)
      have state : (p.step s r).state = (p.step ⟨s.state, [], 0⟩ r).state := by
        unfold Pager.step
        cases p.child r <;> rfl
      have items : (p.step s r).items = s.items ++ (p.step ⟨s.state, [], 0⟩ r).items := by
        unfold Pager.step
        cases p.child r <;> simp
      rw [here.1, here.2, fresh.1, fresh.2, state, items, List.append_assoc]
      exact ⟨rfl, rfl⟩

end One

/-! ### All pages -/

/-- An expander that pages records: its states, which keep a property, hold the offset to
read on from. -/
structure Paging (p : Pager σ) (read : Nat → List RawRecord) (offset : σ → Nat)
    (summary : σ → String) (tail : σ → Option σ) (Good : σ → Prop) (init : σ)
    (expand : Option σ → Turn → ExpandResult σ) : Prop where
  begun : Good init
  moved : ∀ s ends, Good s → Good (p.move s ends) ∧ offset (p.move s ends) = ends
  added : ∀ s c, Good s → Good (p.add s c) ∧ offset (p.add s c) = offset s
  first : ∀ turn, expand none turn = expandRecords p read offset summary tail turn init
  next : ∀ s turn, Good s → expand (some s) turn = expandRecords p read offset summary tail turn s

section All

variable {p : Pager σ} {read : Nat → List RawRecord} {offset : σ → Nat} {summary : σ → String}
  {tail : σ → Option σ} {Good : σ → Prop} {init : σ}
  {expand : Option σ → Turn → ExpandResult σ}
  (paging : Paging p read offset summary tail Good init expand)
include paging

theorem step_moved {s : Part σ} (good : Good s.state) (r : RawRecord) :
    Good (p.step s r).state ∧ offset (p.step s r).state = r.ends := by
  obtain ⟨moved, at_⟩ := paging.moved s.state r.ends good
  unfold Pager.step
  cases p.child r with
  | none => exact ⟨moved, at_⟩
  | some c =>
      obtain ⟨added, still⟩ := paging.added _ c moved
      exact ⟨added, still.trans at_⟩

/-- After some records a page stands at the end of the last. -/
theorem foldl_moved (taken : List RawRecord) :
    ∀ {s : Part σ}, Good s.state → taken ≠ [] →
      ∃ before r, taken = before ++ [r] ∧ Good (taken.foldl p.step s).state ∧
        offset (taken.foldl p.step s).state = r.ends := by
  induction taken using List.reverseRecOn with
  | nil => exact fun _ none_ => absurd rfl none_
  | append_singleton before r ih =>
      intro s good _
      have kept : Good (before.foldl p.step s).state := by
        by_cases empty : before = []
        · rw [empty]
          exact good
        · obtain ⟨_, _, _, kept, _⟩ := ih good empty
          exact kept
      refine ⟨before, r, rfl, ?_⟩
      rw [List.foldl_append]
      exact step_moved paging kept r

/-- From a state on, with the records that are read from its offset. -/
theorem expandPages_spec (turns : Nat → Turn) (size : Nat) :
    ∀ (resume : Option σ) (s : σ) (n : Nat), Good s →
      (∀ turn, expand resume turn = expandRecords p read offset summary tail turn s) →
      (read (offset s)).length ≤ size →
      (∀ before r after, read (offset s) = before ++ r :: after → read r.ends = after) →
      ∃ last, expandPages expand turns (size + 1) n resume
          = some (((read (offset s)).foldl p.step ⟨s, [], 0⟩).items, last) ∧
        last.summary = some (summary ((read (offset s)).foldl p.step ⟨s, [], 0⟩).state) ∧
        last.tail = tail ((read (offset s)).foldl p.step ⟨s, [], 0⟩).state := by
  induction size with
  | zero =>
      intro resume s n good here short _
      have empty := List.length_eq_zero_iff.mp (Nat.le_zero.mp short)
      rw [expandPages, here, expandRecords, empty, Pager.page]
      exact ⟨_, rfl, rfl, rfl⟩
  | succ size ih =>
      intro resume s n good here short restarts
      obtain ⟨taken, left, records, part, all, some_⟩ :=
        page_spec p (turns n) (read (offset s)) 0 ⟨s, [], 0⟩
      rw [expandPages, here, expandRecords]
      generalize p.page (turns n) 0 (read (offset s)) ⟨s, [], 0⟩ = page at part all some_ ⊢
      obtain ⟨part_, done⟩ := page
      cases done with
      | true =>
          obtain rfl := all rfl
          rw [List.append_nil] at records
          rw [records, ← part]
          exact ⟨_, rfl, rfl, rfl⟩
      | false =>
          obtain ⟨before, r, last, good', stop⟩ := foldl_moved paging taken (s := ⟨s, [], 0⟩) good
            (some_ rfl)
          rw [← part] at good' stop
          have rest : read (offset part_.state) = left := by
            rw [stop]
            refine restarts before r left ?_
            rw [records, last, List.append_assoc]
            rfl
          have longer : taken.length ≠ 0 := fun zero => some_ rfl (List.length_eq_zero_iff.mp zero)
          have size_ := congrArg List.length records
          rw [List.length_append] at size_
          obtain ⟨final, pages, said, ended⟩ := ih (some part_.state) part_.state (n + 1) good'
            (fun turn => paging.next _ turn good') (by rw [rest]; omega) (by
              intro before' r' after' split_
              refine restarts (taken ++ before') r' after' ?_
              rw [records, ← rest, split_, List.append_assoc])
          have whole := foldl_step p left part_
          rw [rest] at pages said ended
          refine ⟨final, ?_, ?_, ?_⟩
          · dsimp only
            rw [if_neg Bool.false_ne_true]
            dsimp only
            rw [pages, Option.map_some, records, List.foldl_append, ← part, whole.2]
          · rw [said, records, List.foldl_append, ← part, whole.1]
          · rw [ended, records, List.foldl_append, ← part, whole.1]

/-- **Every sequence of budgets gives the one page.** -/
theorem expandRecords_pages
    (restarts : ∀ before r after, read (offset init) = before ++ r :: after → read r.ends = after) :
    PagesRight expand := by
  intro turns
  obtain ⟨last, pages, said, ended⟩ := expandPages_spec paging turns
    (read (offset init)).length none init 0 paging.begun paging.first (le_refl _) restarts
  refine ⟨_, _, last, pages, fun elapsed => ?_⟩
  dsimp only
  rw [paging.first, expandRecords, page_unbounded]
  exact ⟨rfl, rfl, said, ended⟩

end All

end Pages

/-! ## The containers -/

section Containers

variable (name : String) (file : Bytes)

theorem mboxPaging (messageChild : Bytes → Bool → Option ChildItem) :
    Paging (mboxPager messageChild) (readRecords (RecordKind.mbox.rules MAX_MESSAGE_BYTES) file)
      MboxResume.offset (mboxSummary name) (fun s => some { s with append := true })
      (fun s => s.append = false) ⟨0, 0, none, none, false⟩ (expandMbox name file messageChild) where
  begun := rfl
  moved s ends fresh := ⟨fresh, rfl⟩
  added s c fresh := by
    show (MboxResume.add s c).append = false ∧ (MboxResume.add s c).offset = s.offset
    unfold MboxResume.add
    cases c.createdAt <;> exact ⟨fresh, rfl⟩
  first turn := rfl
  next s turn fresh := by
    unfold expandMbox
    rw [Option.any_some, fresh, if_neg Bool.false_ne_true, Option.getD_some, ← fresh]
    rfl

theorem vcardPaging (cardChild : Bytes → Option ChildItem) :
    Paging (countPager fun raw _ => cardChild raw)
      (readRecords (RecordKind.vcard.rules MAX_CARD_BYTES) file) VcardResume.offset
      (countSummary "contact" name) (fun _ => none) (fun _ => True) ⟨0, 0⟩
      (expandVcard name file cardChild) where
  begun := trivial
  moved _ _ _ := ⟨trivial, rfl⟩
  added _ _ _ := ⟨trivial, rfl⟩
  first _ := rfl
  next _ _ _ := rfl

theorem enexPaging (noteChild : Bytes → Bool → Option ChildItem) :
    Paging (countPager noteChild) (readElements NOTE_OPEN NOTE_CLOSE MAX_NOTE_BYTES file)
      VcardResume.offset (countSummary "note" name) (fun _ => none) (fun _ => True) ⟨0, 0⟩
      (expandEnex name file noteChild) where
  begun := trivial
  moved _ _ _ := ⟨trivial, rfl⟩
  added _ _ _ := ⟨trivial, rfl⟩
  first _ := rfl
  next _ _ _ := rfl

end Containers

/-- The records of a file do not depend on where it is cut: the readings from its start and
from the end of a record, those of elements, and the pages of the containers. -/
structure CutFree (kind : RecordKind) (maxRecordBytes : Nat) (file : Bytes) : Prop where
  records : ReadsRight (kind.rules maxRecordBytes) file
  elements : ∀ opens closes : Bytes, opens ≠ [] → closes ≠ [] → ∀ maxRecordBytes,
    ElementsRight opens closes maxRecordBytes file
  mbox : kind = .mbox → maxRecordBytes = MAX_MESSAGE_BYTES →
    ∀ name messageChild, PagesRight (expandMbox name file messageChild)
  vcard : kind = .vcard → maxRecordBytes = MAX_CARD_BYTES →
    ∀ name cardChild, PagesRight (expandVcard name file cardChild)
  enex : ∀ name noteChild, PagesRight (expandEnex name file noteChild)

/-- **Reading does not depend on where it is cut** exactly where every reading, from the
start or the end of a record, is steady. -/
theorem cutFree_iff (kind : RecordKind) (maxRecordBytes : Nat) (file : Bytes) :
    CutFree kind maxRecordBytes file ↔ SteadyThrough (kind.rules maxRecordBytes) file := by
  have elements : ∀ opens closes : Bytes, opens ≠ [] → closes ≠ [] → ∀ maxRecordBytes,
      ElementsRight opens closes maxRecordBytes file := fun opens closes open_ close max =>
    elementsRight open_ close max file
  rw [← readsRight_iff (kind.restartable maxRecordBytes) file]
  constructor
  · exact CutFree.records
  · intro right
    refine ⟨right, elements, ?_, ?_, fun name noteChild => ?_⟩
    · rintro rfl rfl name messageChild
      exact expandRecords_pages (mboxPaging name file messageChild) right.restart
    · rintro rfl rfl name cardChild
      exact expandRecords_pages (vcardPaging name file cardChild) right.restart
    · exact expandRecords_pages (enexPaging name file noteChild)
        (elements NOTE_OPEN NOTE_CLOSE (by decide) (by decide) MAX_NOTE_BYTES).restart

/-! ## A later line that fits -/

/-- A line of ten letters, after which a shorter one still fits into 12 bytes. -/
def shortAfterLong : Bytes :=
  FROM_ ++ [97, 10] ++ [120, 120, 120, 120, 120, 120, 120, 120, 120, 10] ++ [121, 10]

/-- What is left of the message is not its head. -/
theorem kept_after_dropped :
    ¬ CutFree .mbox 12 shortAfterLong ∧
      (readRecords (RecordKind.mbox.rules 12) shortAfterLong 0).map RawRecord.raw
        = [FROM_ ++ [97, 10] ++ [121, 10]] := by
  have read : (readRecords (RecordKind.mbox.rules 12) shortAfterLong 0).map RawRecord.raw
      = [FROM_ ++ [97, 10] ++ [121, 10]] := by decide +kernel
  refine ⟨fun free => ?_, read⟩
  have whole := congrArg (List.map RawRecord.raw) free.records.whole
  rw [read] at whole
  exact absurd whole (by decide +kernel)

end Kiagent.Converter
