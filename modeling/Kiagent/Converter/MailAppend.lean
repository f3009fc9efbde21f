/-
# Converter.MailAppend -- a mailbox that grows

A mailbox that was read to its end is gone on with from there when it has grown, if what was
appended begins with `From `.  That the whole file has a message beginning there is not
tested: it also needs a blank line before it, or a date, and the line itself may have begun
before the end.  `Joins` says when the messages of the whole are those read before and those
read now, and the children are exactly then (`appendRight_iff`).
-/
import Kiagent.Converter.Expand

namespace Kiagent.Converter

open Theory.Lines

set_option autoImplicit false

/-! ## The messages of some lines -/

/-- `readRecords` for a mailbox. -/
def mailRules : RecordRules := RecordKind.mbox.rules MAX_MESSAGE_BYTES

/-- What a child is made of. -/
def message (r : RawRecord) : Bytes × Bool := (r.raw, r.truncated)

/-- The messages of lines at a distance from where reading began. -/
def messagesFrom (prevBlank : Bool) (offset distance : Nat) (ls : List Bytes) :
    List (Bytes × Bool) :=
  ((split ((cuts mailRules prevBlank offset distance ls).flatMap Cut.parts)).map
    (keptRecord mailRules)).map message

/-- Whether the line before the next is blank. -/
def blankAfter (prevBlank : Bool) (ls : List Bytes) : Bool :=
  (ls.getLast?.map isBlank).getD prevBlank

/-- How many of the lines are `From ` lines. -/
def fromLines : Bool → List Bytes → Nat
  | _, [] => 0
  | prevBlank, l :: ls => (isFromLine l prevBlank).toNat + fromLines (isBlank l) ls

theorem blankAfter_cons (prevBlank : Bool) (l : Bytes) (ls : List Bytes) :
    blankAfter prevBlank (l :: ls) = blankAfter (isBlank l) ls := by
  cases ls with
  | nil => rfl
  | cons k ks =>
      unfold blankAfter
      rw [List.getLast?_cons_cons]
      cases here : (k :: ks).getLast? with
      | none => simp at here
      | some last => rfl

theorem cuts_append (ls more : List Bytes) :
    ∀ prevBlank offset distance, cuts mailRules prevBlank offset distance (ls ++ more)
      = cuts mailRules prevBlank offset distance ls ++
          cuts mailRules (blankAfter prevBlank ls) (offset + ls.flatten.length)
            (distance + ls.flatten.length) more := by
  induction ls with
  | nil => intros; rfl
  | cons l ls ih =>
      intro prevBlank offset distance
      rw [List.cons_append, cuts, cuts, ih, blankAfter_cons, List.flatten_cons,
        List.length_append, Nat.add_assoc, Nat.add_assoc]
      rfl

theorem fromLines_append (ls more : List Bytes) :
    ∀ prevBlank, fromLines prevBlank (ls ++ more)
      = fromLines prevBlank ls + fromLines (blankAfter prevBlank ls) more := by
  induction ls with
  | nil => intro prevBlank; simp [fromLines, blankAfter]
  | cons l ls ih =>
      intro prevBlank
      rw [List.cons_append, fromLines, fromLines, ih, blankAfter_cons, Nat.add_assoc]

/-- A record that begins among others begins the records from there. -/
theorem split_append (us : List Marked) {v : Marked} (starts : v.starts = true)
    (vs : List Marked) : split (us ++ v :: vs) = split us ++ split (v :: vs) := by
  induction us with
  | nil => rfl
  | cons u us ih =>
      have until_ : (us ++ v :: vs).takeWhile (fun w => !w.starts)
          = us.takeWhile fun w => !w.starts := by
        rw [List.takeWhile_append]
        split
        · rename_i all
          rw [List.takeWhile_cons, if_neg (by simp [starts]), List.append_nil]
          exact ((List.takeWhile_sublist _).eq_of_length all).symm
        · rfl
      rw [List.cons_append, split, split, until_, ih]
      split <;> rfl

/-- A `From ` line is told by its first 200 bytes, which a fragment has. -/
theorem first_starts (prevBlank : Bool) (offset distance : Nat) (l : Bytes) :
    (cutOf mailRules prevBlank offset distance l).first.starts = isFromLine l prevBlank := by
  have flat : (fragments distance l).flatten = l := flatten_cutAt _ _ _
  show isFromLine ((fragments distance l).headD l) prevBlank = _
  rcases fragments_cases distance l with one | ⟨p, ps, many, -, long, -⟩
  · rw [one, List.headD_cons]
  · rw [many, List.flatten_cons] at flat
    have size : LINE_FRAGMENT = 65536 := rfl
    rw [many, List.headD_cons, ← flat]
    unfold isFromLine
    rw [List.take_append_of_le_length (by omega), List.take_append_of_le_length (by omega)]

theorem length_messagesFrom {ls : List Bytes} (nonempty : ∀ l ∈ ls, l ≠ []) :
    ∀ prevBlank offset distance,
      (messagesFrom prevBlank offset distance ls).length = fromLines prevBlank ls := by
  intro prevBlank offset distance
  have begins := congrArg List.length
    (split_starts ((cuts mailRules prevBlank offset distance ls).flatMap Cut.parts))
  rw [filter_parts (parted_cuts mailRules nonempty _ _ _)] at begins
  simp only [List.length_map] at begins
  unfold messagesFrom
  rw [List.length_map, List.length_map, begins]
  clear begins nonempty
  induction ls generalizing prevBlank offset distance with
  | nil => rfl
  | cons l ls ih =>
      rw [cuts, List.filter_cons, first_starts, fromLines,
        ← ih (isBlank l) (offset + l.length) (distance + l.length)]
      cases isFromLine l prevBlank
      · simp
      · simp [Nat.add_comm]

/-- **At a `From ` line the messages part.** -/
theorem messagesFrom_append (ls : List Bytes) (prevBlank : Bool) (offset distance : Nat)
    {l : Bytes} (starts : isFromLine l (blankAfter prevBlank ls) = true) (more : List Bytes) :
    messagesFrom prevBlank offset distance (ls ++ l :: more)
      = messagesFrom prevBlank offset distance ls ++
          messagesFrom (blankAfter prevBlank ls) (offset + ls.flatten.length)
            (distance + ls.flatten.length) (l :: more) := by
  unfold messagesFrom
  rw [cuts_append, List.flatMap_append, cuts, List.flatMap_cons, Cut.parts, List.cons_append,
    split_append _ ((first_starts _ _ _ l).trans starts), List.map_append, List.map_append]

theorem readRecords_messages (file : Bytes) (offset : Nat) :
    (readRecords mailRules file offset).map message
      = messagesFrom true offset 0 (lines isNewline (file.drop offset)) := by
  rw [readRecords_kept]
  rfl

/-! ## The join -/

/-- The complete lines of a file, and a line it ends in without a newline. -/
def fileLines (file : Bytes) : List Bytes × Bytes := breakLines isNewline file

/-- Where `appended` goes on with a message: the line it is the rest of is a `From ` line of
the whole, an unfinished line before it adds nothing to the messages of the file, and the
messages from that line on are kept as those of `appended` alone. -/
structure Joins (file appended : Bytes) : Prop where
  starts : ∀ l ∈ (lines isNewline ((fileLines file).2 ++ appended)).head?,
    isFromLine l (blankAfter true (fileLines file).1) = true
  unfinished : messagesFrom true 0 0 (lines isNewline file)
    = messagesFrom true 0 0 (fileLines file).1
  kept : messagesFrom (blankAfter true (fileLines file).1) (fileLines file).1.flatten.length
        (fileLines file).1.flatten.length (lines isNewline ((fileLines file).2 ++ appended))
      = messagesFrom true file.length 0 (lines isNewline appended)

/-- A line that begins with `From `, in what does and behind what has no newline. -/
theorem lines_from {appended before : Bytes} (from_ : appended.take 5 = FROM_)
    (unfinished : ∀ b ∈ before, isNewline b = false) :
    ∃ l more, lines isNewline appended = (FROM_ ++ l) :: more ∧
      lines isNewline (before ++ appended) = (before ++ (FROM_ ++ l)) :: more := by
  have whole : appended = FROM_ ++ appended.drop 5 := by
    rw [← from_, List.take_append_drop]
  have plain : ∀ b ∈ FROM_, isNewline b = false := by simp [FROM_, isNewline]
  have first : ∃ l more, lines isNewline appended = (FROM_ ++ l) :: more := by
    rw [whole, lines_append_rest isNewline plain]
    cases lines isNewline (appended.drop 5) with
    | nil => exact ⟨[], [], rfl⟩
    | cons l ls => exact ⟨l, ls, rfl⟩
  obtain ⟨l, more, here⟩ := first
  refine ⟨l, more, here, ?_⟩
  rw [lines_append_rest isNewline unfinished, here]

theorem isBlank_from (before l : Bytes) : isBlank (before ++ (FROM_ ++ l)) = false := by
  have long : 2 < (before ++ (FROM_ ++ l)).length := by
    have five : FROM_.length = 5 := rfl
    rw [List.length_append, List.length_append, five]
    omega
  match before ++ (FROM_ ++ l), long with
  | _ :: _ :: _ :: _, _ => simp [isBlank]

/-- **The messages of the whole** are those of the file and those read from its end on
exactly where the two join. -/
theorem messages_join {file appended : Bytes} (from_ : appended.take 5 = FROM_) :
    messagesFrom true 0 0 (lines isNewline file) ++
        messagesFrom true file.length 0 (lines isNewline appended)
      = messagesFrom true 0 0 (lines isNewline (file ++ appended)) ↔ Joins file appended := by
  generalize broken : fileLines file = parts
  obtain ⟨ls, rest⟩ := parts
  have whole := lines_breakLines isNewline file appended
  have alone := lines_breakLines isNewline file []
  have unfinished := breakLines_rest isNewline file
  have nonempty := breakLines_ne_nil isNewline (t := file)
  rw [fileLines] at broken
  rw [broken] at whole alone unfinished nonempty
  rw [List.append_nil, List.append_nil] at alone
  dsimp only at whole alone unfinished nonempty
  obtain ⟨l, more, first, joined⟩ := lines_from from_ unfinished
  have counts : ∀ t prevBlank offset distance,
      (messagesFrom prevBlank offset distance (lines isNewline t)).length
        = fromLines prevBlank (lines isNewline t) := fun t =>
    length_messagesFrom (lines_ne_nil isNewline)
  constructor
  · intro same
    -- one `From ` line more than the file has, at the join
    have count := congrArg List.length same
    rw [List.length_append, counts, counts, counts, whole, alone, first, joined,
      fromLines_append, fromLines_append, fromLines, fromLines, isBlank_from,
      show isBlank (FROM_ ++ l) = false from isBlank_from [] l,
      show isFromLine (FROM_ ++ l) true = true from rfl] at count
    have starts : isFromLine (rest ++ (FROM_ ++ l)) (blankAfter true ls) = true := by
      cases here : isFromLine (rest ++ (FROM_ ++ l)) (blankAfter true ls) with
      | true => rfl
      | false =>
          rw [here] at count
          simp only [Bool.toNat_true, Bool.toNat_false] at count
          omega
    rw [starts] at count
    rw [whole, joined, messagesFrom_append _ _ _ _ starts, ← joined] at same
    have sizes : (messagesFrom true 0 0 (lines isNewline file)).length
        = (messagesFrom true 0 0 ls).length := by
      rw [counts, length_messagesFrom nonempty, alone, fromLines_append]
      simp only [Bool.toNat_true] at count
      omega
    obtain ⟨left, right⟩ := List.append_inj same sizes
    refine ⟨?_, ?_, ?_⟩
    · rw [fileLines, broken, joined]
      simpa using starts
    · rw [fileLines, broken]
      exact left
    · rw [fileLines, broken]
      rw [Nat.zero_add] at right
      exact right.symm
  · rintro ⟨starts, left, right⟩
    rw [fileLines, broken] at starts left right
    dsimp only at starts left right
    have here : isFromLine (rest ++ (FROM_ ++ l)) (blankAfter true ls) = true :=
      starts _ (by rw [joined]; rfl)
    rw [whole, joined, messagesFrom_append _ _ _ _ here, ← joined, left, ← right,
      Nat.zero_add]

/-! ## Going on -/

section Grow

variable (messageChild : Bytes → Bool → Option ChildItem)

/-- The children of some messages. -/
def children (messages : List (Bytes × Bool)) : List ChildItem :=
  messages.filterMap fun m => messageChild m.1 m.2

/-- Counted, with the dates. -/
def MboxResume.tally (s : MboxResume) (cs : List ChildItem) : MboxResume :=
  cs.foldl MboxResume.add s

theorem add_offset (s : MboxResume) (c : ChildItem) (offset : Nat) :
    MboxResume.add { s with offset } c = { s.add c with offset } := by
  unfold MboxResume.add
  cases c.createdAt <;> rfl

theorem tally_offset (cs : List ChildItem) (offset : Nat) :
    ∀ s : MboxResume, { s with offset }.tally cs = { s.tally cs with offset } := by
  induction cs with
  | nil => intro s; rfl
  | cons c cs ih =>
      intro s
      show MboxResume.tally (MboxResume.add { s with offset } c) cs = _
      rw [add_offset, ih]
      rfl

/-- It makes no difference to the tally where reading goes on. -/
theorem tally_resumed (cs : List ChildItem) (offset : Nat) (append : Bool) :
    ∀ s : MboxResume,
      { s with offset, append }.tally cs = { s.tally cs with offset, append } := by
  induction cs with
  | nil => intro s; rfl
  | cons c cs ih =>
      intro s
      have here : MboxResume.add { s with offset, append } c = { s.add c with offset, append } := by
        unfold MboxResume.add
        cases c.createdAt <;> rfl
      show MboxResume.tally (MboxResume.add { s with offset, append } c) cs = _
      rw [here, ih]
      rfl

/-- Where some records end. -/
def endOf (s : MboxResume) (rs : List RawRecord) : Nat :=
  (rs.getLast?.map RawRecord.ends).getD s.offset

/-- Records are counted by their children, and the offset is the end of the last. -/
theorem foldl_mail (rs : List RawRecord) :
    ∀ s : MboxResume, (rs.foldl (mboxPager messageChild).step ⟨s, [], 0⟩).state
        = { s.tally (children messageChild (rs.map message)) with offset := endOf s rs } ∧
      (rs.foldl (mboxPager messageChild).step ⟨s, [], 0⟩).items
        = children messageChild (rs.map message) := by
  induction rs with
  | nil => intro s; exact ⟨rfl, rfl⟩
  | cons r rs ih =>
      intro s
      obtain ⟨state, items⟩ := foldl_step (mboxPager messageChild) rs
        ((mboxPager messageChild).step ⟨s, [], 0⟩ r)
      have last : ∀ t : MboxResume, t.offset = r.ends → endOf t rs = endOf s (r :: rs) := by
        intro t at_
        unfold endOf
        cases rs with
        | nil => exact at_
        | cons q qs =>
            rw [List.getLast?_cons_cons]
            cases here : (q :: qs).getLast? with
            | none => simp at here
            | some last => rfl
      rw [List.foldl_cons, state, items, (ih _).1, (ih _).2]
      unfold Pager.step
      dsimp only [mboxPager]
      cases kid : messageChild r.raw r.truncated with
      | none =>
          have none_ : children messageChild ((r :: rs).map message)
              = children messageChild (rs.map message) := by
            rw [List.map_cons, children, List.filterMap_cons]
            simp only [message, kid]
            rfl
          rw [none_, tally_offset, last _ rfl]
          exact ⟨rfl, rfl⟩
      | some c =>
          have one : children messageChild ((r :: rs).map message)
              = c :: children messageChild (rs.map message) := by
            rw [List.map_cons, children, List.filterMap_cons]
            simp only [message, kid]
            rfl
          have at_ : (MboxResume.add { s with offset := r.ends } c).offset = r.ends := by
            rw [add_offset]
          have counted : MboxResume.tally (MboxResume.add { s with offset := r.ends } c)
                (children messageChild (rs.map message))
              = { s.tally (c :: children messageChild (rs.map message)) with
                  offset := r.ends } := by
            rw [add_offset, tally_offset]
            rfl
          dsimp only
          rw [one, last _ at_, counted]
          exact ⟨rfl, rfl⟩

/-- A page without a bound. -/
theorem mboxPage_unbounded (name : String) (file : Bytes) (elapsed : Nat → Nat)
    (s : MboxResume) :
    mboxPage name file messageChild MAX_MESSAGE_BYTES ⟨unbounded, elapsed⟩ s
      = let rs := readRecords mailRules file s.offset
        let kids := children messageChild (rs.map message)
        { items := kids
          resume := none
          summary := some (mboxSummary name (s.tally kids))
          tail := some { s.tally kids with offset := endOf s rs, append := true }
          restart := false } := by
  obtain ⟨state, items⟩ := foldl_mail messageChild (readRecords mailRules file s.offset) s
  unfold mboxPage expandRecords
  rw [page_unbounded]
  dsimp only
  rw [if_pos rfl]
  unfold mailRules at state items ⊢
  rw [state, items]
  rfl

end Grow

/-! ## The last message -/

/-- Without an end line a message is open from the first start on. -/
theorem feed_open (ps : List Piece) :
    ∀ (s : Reading) (offset : Nat), (s.out ≠ [] → s.record.isSome = true) →
      ((feed mailRules s offset ps).out ≠ [] →
        (feed mailRules s offset ps).record.isSome = true) := by
  induction ps with
  | nil => exact fun s offset here => here
  | cons p ps ih =>
      intro s offset here
      refine ih _ _ fun some_ => ?_
      have line := onLine_eq mailRules s p offset
      have stops : mailRules.isEnd p.text = false := rfl
      dsimp only at line
      rw [stops, Bool.and_false, if_neg Bool.false_ne_true] at line
      rw [line] at some_ ⊢
      dsimp only at some_ ⊢
      split at some_
      · rename_i starts
        rw [if_pos starts]
        rfl
      · rename_i starts
        rw [if_neg starts, Option.isSome_map]
        exact here some_

/-- **A mailbox is read to its end**, if there is a message in it. -/
theorem readRecords_end {file : Bytes} (some_ : readRecords mailRules file 0 ≠ []) :
    ∃ before r, readRecords mailRules file 0 = before ++ [r] ∧ r.ends = file.length := by
  rw [readRecords_pieces, List.drop_zero, Nat.zero_add] at some_ ⊢
  have opened := feed_open (pieces 0 (lines isNewline file)) ⟨true, none, []⟩ 0
    fun none_ => absurd rfl none_
  generalize feed mailRules ⟨true, none, []⟩ 0 (pieces 0 (lines isNewline file)) = s
    at some_ opened ⊢
  cases record : s.record with
  | none =>
      rw [record] at opened
      have empty : s.out = [] := by
        by_contra more
        exact Bool.false_ne_true (opened more)
      simp [Reading.finish, record, empty] at some_
  | some r => exact ⟨s.out, r.finish file.length, by simp [Reading.finish, record], rfl⟩

/-! ## Right or not -/

/-- What is read from the end of a file after it has grown: a restart, or with the children
of the file those of the whole, as many of them, and the same summary. -/
def AppendRight (file appended : Bytes) : Prop :=
  ∀ (name : String) (messageChild : Bytes → Bool → Option ChildItem) (elapsed : Nat → Nat),
    let before := expandMbox name file messageChild none ⟨unbounded, elapsed⟩
    let later := expandMbox name (file ++ appended) messageChild before.tail ⟨unbounded, elapsed⟩
    let scratch := expandMbox name (file ++ appended) messageChild none ⟨unbounded, elapsed⟩
    later.restart = true ∨
      (before.items ++ later.items = scratch.items ∧
        later.tail.map MboxResume.count = scratch.tail.map MboxResume.count ∧
        later.summary = scratch.summary)

section Append

variable {file appended : Bytes}

/-- Where no message was read, it is read from the start. -/
theorem append_none (empty : readRecords mailRules file 0 = []) : AppendRight file appended := by
  intro name messageChild elapsed
  have before : expandMbox name file messageChild none ⟨unbounded, elapsed⟩
      = { items := [], resume := none, summary := some (mboxSummary name ⟨0, 0, none, none, false⟩)
          tail := some ⟨0, 0, none, none, true⟩, restart := false } := by
    show mboxPage name file messageChild MAX_MESSAGE_BYTES _ ⟨0, 0, none, none, false⟩ = _
    rw [mboxPage_unbounded, empty]
    rfl
  dsimp only
  rw [before]
  unfold expandMbox
  rw [Option.any_some, if_pos rfl, Option.getD_some]
  dsimp only
  split
  · rename_i nothing
    have none_ : file ++ appended = [] := List.length_eq_zero_iff.mp nothing.symm
    have fresh : readRecords mailRules [] 0 = [] := by
      rw [readRecords_kept]
      rfl
    right
    show _ = (mboxPage name _ messageChild MAX_MESSAGE_BYTES _ ⟨0, 0, none, none, false⟩).items ∧ _
    rw [none_, mboxPage_unbounded, fresh]
    exact ⟨rfl, rfl, rfl⟩
  · split
    · exact Or.inl rfl
    · exact Or.inr ⟨rfl, rfl, rfl⟩

/-- What is read at the end of a file with a message in it. -/
theorem expandMbox_tail (some_ : readRecords mailRules file 0 ≠ []) (name : String)
    (messageChild : Bytes → Bool → Option ChildItem) (elapsed : Nat → Nat) :
    let kids := children messageChild (messagesFrom true 0 0 (lines isNewline file))
    let read := (⟨0, 0, none, none, false⟩ : MboxResume).tally kids
    expandMbox name file messageChild none ⟨unbounded, elapsed⟩
      = { items := kids, resume := none, summary := some (mboxSummary name read)
          tail := some { read with offset := file.length, append := true }, restart := false } := by
  obtain ⟨before, r, records, ends⟩ := readRecords_end some_
  have at_ : endOf ⟨0, 0, none, none, false⟩ (readRecords mailRules file 0) = file.length := by
    rw [records, endOf, List.getLast?_concat]
    exact ends
  show mboxPage name file messageChild MAX_MESSAGE_BYTES _ ⟨0, 0, none, none, false⟩ = _
  rw [mboxPage_unbounded]
  dsimp only
  rw [at_, readRecords_messages, List.drop_zero]

/-- What is appended is no message, or nothing. -/
theorem append_other (some_ : readRecords mailRules file 0 ≠ [])
    (other : startsWithFrom appended 0 = false) : AppendRight file appended := by
  intro name messageChild elapsed
  dsimp only
  rw [expandMbox_tail some_]
  unfold expandMbox
  rw [Option.any_some, if_pos rfl, Option.getD_some]
  dsimp only
  split
  · rename_i nothing
    have none_ : appended = [] := by
      rw [List.length_append] at nothing
      exact List.length_eq_zero_iff.mp (by omega)
    have scratch := expandMbox_tail some_ name messageChild elapsed
    unfold expandMbox at scratch
    right
    rw [none_, List.append_nil, List.append_nil, scratch]
    exact ⟨rfl, rfl, rfl⟩
  · have notFrom : startsWithFrom (file ++ appended) file.length = false := by
      unfold startsWithFrom at other ⊢
      rwa [List.drop_left]
    rw [notFrom, Bool.not_false, Bool.or_true, if_pos rfl]
    exact Or.inl rfl

/-- A message is appended: it is read from the end on. -/
theorem expandMbox_on (from_ : appended.take 5 = FROM_) (s : MboxResume) (name : String)
    (messageChild : Bytes → Bool → Option ChildItem) (elapsed : Nat → Nat) :
    let kids := children messageChild (messagesFrom true file.length 0 (lines isNewline appended))
    let read := { s with offset := file.length, append := false }.tally kids
    ∃ offset, expandMbox name (file ++ appended) messageChild
        (some { s with offset := file.length, append := true }) ⟨unbounded, elapsed⟩
      = { items := kids, resume := none, summary := some (mboxSummary name read)
          tail := some { read with offset, append := true }, restart := false } := by
  have longer : 5 ≤ appended.length := by
    have five := congrArg List.length from_
    rw [List.length_take] at five
    have size : FROM_.length = 5 := rfl
    omega
  have on : startsWithFrom (file ++ appended) file.length = true := by
    unfold startsWithFrom
    rw [List.drop_left, from_]
    exact decide_eq_true rfl
  refine ⟨endOf { s with offset := file.length, append := false }
    (readRecords mailRules (file ++ appended) file.length), ?_⟩
  unfold expandMbox
  rw [Option.any_some, if_pos rfl, Option.getD_some]
  dsimp only
  rw [if_neg (by rw [List.length_append]; omega), on, if_neg (by simp), mboxPage_unbounded]
  dsimp only
  rw [readRecords_messages, List.drop_left]

/-- A child with its message spelt out. -/
def spelt (raw : Bytes) (truncated : Bool) : ChildItem :=
  ⟨String.ofList (raw.map fun b => Char.ofNat b.toNat), if truncated then "truncated" else "",
    "", none, none⟩

theorem spelt_injective : Function.Injective fun m : Bytes × Bool => spelt m.1 m.2 := by
  have letter : Function.Injective fun b : UInt8 => Char.ofNat b.toNat := by
    intro a b same
    have small : ∀ c : UInt8, (Char.ofNat c.toNat).toNat = c.toNat := fun c => by
      have valid : c.toNat.isValidChar := Or.inl (c.toNat_lt.trans (by decide))
      rw [Char.toNat_ofNat, if_pos valid]
    exact UInt8.toNat_inj.mp ((small a).symm.trans ((congrArg Char.toNat same).trans (small b)))
  rintro ⟨raw, truncated⟩ ⟨raw', truncated'⟩ same
  obtain ⟨key, type, -⟩ := ChildItem.mk.inj same
  have texts : raw = raw' := letter.list_map (String.ofList_injective key)
  have flags : truncated = truncated' := by
    cases truncated <;> cases truncated' <;> simp at type ⊢
  rw [texts, flags]

/-- **A mailbox that has grown is read right** exactly where no message was read of it, or what
was appended does not begin with `From `, or goes on with a message of the whole. -/
theorem appendRight_iff (file appended : Bytes) :
    AppendRight file appended ↔
      readRecords mailRules file 0 = [] ∨ startsWithFrom appended 0 = false ∨
        Joins file appended := by
  by_cases some_ : readRecords mailRules file 0 = []
  · exact ⟨fun _ => Or.inl some_, fun _ => append_none some_⟩
  by_cases other : startsWithFrom appended 0 = false
  · exact ⟨fun _ => Or.inr (Or.inl other), fun _ => append_other some_ other⟩
  have from_ : appended.take 5 = FROM_ := by
    unfold startsWithFrom at other
    simpa using other
  rw [or_iff_right some_, or_iff_right other, ← messages_join from_]
  have whole : ∀ name messageChild elapsed,
      expandMbox name (file ++ appended) messageChild none ⟨unbounded, elapsed⟩
        = mboxPage name (file ++ appended) messageChild MAX_MESSAGE_BYTES ⟨unbounded, elapsed⟩
            ⟨0, 0, none, none, false⟩ := fun _ _ _ => rfl
  constructor
  · intro right
    have here := right "" (fun raw truncated => some (spelt raw truncated)) fun _ => 0
    dsimp only at here
    rw [expandMbox_tail some_, whole, mboxPage_unbounded] at here
    obtain ⟨offset, on⟩ := @expandMbox_on file appended from_
      ((⟨0, 0, none, none, false⟩ : MboxResume).tally (children
        (fun raw truncated => some (spelt raw truncated))
          (messagesFrom true 0 0 (lines isNewline file)))) ""
      (fun raw truncated => some (spelt raw truncated)) fun _ => 0
    dsimp only at here on
    rw [on, readRecords_messages, List.drop_zero] at here
    have items := (here.resolve_left Bool.false_ne_true).1
    have spell : ∀ ms : List (Bytes × Bool),
        children (fun raw truncated => some (spelt raw truncated)) ms
          = ms.map fun m => spelt m.1 m.2 := fun ms =>
      congrFun List.filterMap_eq_map ms
    rw [spell, spell, spell, ← List.map_append] at items
    exact spelt_injective.list_map items
  · intro same name messageChild elapsed
    right
    obtain ⟨offset, on⟩ := @expandMbox_on file appended from_
      ((⟨0, 0, none, none, false⟩ : MboxResume).tally (children messageChild
        (messagesFrom true 0 0 (lines isNewline file)))) name messageChild elapsed
    rw [expandMbox_tail some_, whole, mboxPage_unbounded]
    dsimp only at on ⊢
    rw [on, readRecords_messages, List.drop_zero, ← same]
    have kids : children messageChild (messagesFrom true 0 0 (lines isNewline file) ++
          messagesFrom true file.length 0 (lines isNewline appended))
        = children messageChild (messagesFrom true 0 0 (lines isNewline file)) ++
            children messageChild (messagesFrom true file.length 0 (lines isNewline appended)) :=
      List.filterMap_append
    have tally : ∀ (s : MboxResume) (cs ds : List ChildItem),
        s.tally (cs ++ ds) = (s.tally cs).tally ds := fun s cs ds => List.foldl_append
    rw [kids, tally, tally_resumed]
    exact ⟨rfl, rfl, rfl⟩

end Append

/-! ## A message that is none of the whole -/

/-- `From a 2024`, and a line. -/
def datedMail : Bytes := FROM_ ++ [97, 32, 50, 48, 50, 52, 10, 120, 10]

/-- `From b`, and a line. -/
def undatedMail : Bytes := FROM_ ++ [98, 10, 121, 10]

/-- No blank line is before the line that was appended, and no year in it: it is read as a
message, which the whole does not have. -/
theorem undated_appended : ¬ AppendRight datedMail undatedMail := by
  intro right
  let anyChild : Bytes → Bool → Option ChildItem := fun _ _ => some ⟨"", "", "", none, none⟩
  have here := right "" anyChild fun _ => 0
  have counts :
      let before := expandMbox "" datedMail anyChild none ⟨unbounded, fun _ => 0⟩
      let later := expandMbox "" (datedMail ++ undatedMail) anyChild before.tail
        ⟨unbounded, fun _ => 0⟩
      let scratch := expandMbox "" (datedMail ++ undatedMail) anyChild none
        ⟨unbounded, fun _ => 0⟩
      later.restart = false ∧ (before.items ++ later.items).length = 2 ∧
        scratch.items.length = 1 := by
    decide +kernel
  obtain ⟨goes, two, one⟩ := counts
  rcases here with again | ⟨same, -⟩
  · exact Bool.false_ne_true (goes.symm.trans again)
  · have length := congrArg List.length same
    rw [two, one] at length
    cases length

end Kiagent.Converter
