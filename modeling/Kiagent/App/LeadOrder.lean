/-
# App.LeadOrder -- which states of an account the two feeds publish

`Past` is what every store there has been says of the one there is.  A state that was read is
the stored one of some moment (`Was`), and the log tells how old it is.
-/
import Kiagent.App.Lead

namespace Kiagent.App

open Kiagent.Theory Kiagent.Store

set_option autoImplicit false

/-! ## The stores there have been -/

/-- `base` is how far the log went at the start. -/
structure Past (base : Nat) (past : List Db) (db : Db) : Prop where
  now : db ∈ past
  low : base ≤ db.changes.counter
  log : ∀ D ∈ past, D.changes.Extends db.changes
  same : ∀ D ∈ past, ∀ a, versionOf D a = versionOf db a →
    (accountAt D a).map settled = (accountAt db a).map settled
  there : ∀ e ∈ db.changes.entries, base < e.1 → e.2.kind = .account →
    versionOf db e.2.refId = e.1 → (accountAt db e.2.refId).isSome = true
  gone : ∀ e ∈ db.changes.entries, base < e.1 → e.2.kind = .accountRemoved →
    ∃ D ∈ past, accountAt D e.2.refId = none ∧ versionOf D e.2.refId = e.1

variable {base : Nat} {past : List Db} {db db' : Db} {a : AccountId}

theorem versionOf_le (db : Db) (a : AccountId) : versionOf db a ≤ db.changes.counter :=
  SeqLog.lastAbout_le_self

/-- An entry about an account is not later than its last. -/
theorem le_versionOf {e : Nat × ChangeRow} (mem : e ∈ db.changes.entries)
    (about : e.2.isAbout a = true) : e.1 ≤ versionOf db a :=
  SeqLog.le_lastAbout mem about (db.changes.below e mem)

/-- The version an account had is the one the log of now tells. -/
theorem Past.version (was : Past base past db) {D : Db} (mem : D ∈ past) (a : AccountId) :
    db.changes.lastAbout (ChangeRow.isAbout a) D.changes.counter = versionOf D a :=
  (was.log D mem).lastAbout_eq (Nat.le_refl _)

theorem Past.version_le (was : Past base past db) {D : Db} (mem : D ∈ past) (a : AccountId) :
    versionOf D a ≤ versionOf db a := by
  rw [← was.version mem a]
  exact SeqLog.lastAbout_mono (was.log D mem).grows.counter

/-- With no new row about it an account keeps its version. -/
theorem version_quiet (log : db.changes.Extends db'.changes)
    (quiet : ∀ e ∈ db'.changes.entries, db.changes.counter < e.1 → e.2.isAbout a = false) :
    versionOf db' a = versionOf db a := by
  rw [versionOf, versionOf, ← log.lastAbout_eq (Nat.le_refl _)]
  refine Nat.le_antisymm (SeqLog.lastAbout_le fun e mem about upTo => ?_)
    (SeqLog.lastAbout_mono log.grows.counter)
  refine SeqLog.le_lastAbout mem about (Nat.not_lt.1 fun new => ?_)
  rw [quiet e mem new] at about
  cases about

/-- With a new row about it an account has a version no store before had. -/
theorem version_told {e : Nat × ChangeRow} (mem : e ∈ db'.changes.entries)
    (new : db.changes.counter < e.1) (about : e.2.isAbout a = true) :
    db.changes.counter < versionOf db' a :=
  Nat.lt_of_lt_of_le new (le_versionOf mem about)

theorem Past.start (db : Db) : Past db.changes.counter [db] db where
  now := List.mem_singleton.2 rfl
  low := Nat.le_refl _
  log := by
    intro D mem
    obtain rfl := List.mem_singleton.1 mem
    exact .refl _
  same := by
    intro D mem a _
    obtain rfl := List.mem_singleton.1 mem
    rfl
  there e mem new := absurd (db.changes.below e mem) (Nat.not_le.2 new)
  gone e mem new := absurd (db.changes.below e mem) (Nat.not_le.2 new)

/-- **A commit adds a store.** -/
theorem Past.commit (was : Past base past db) (told : Announced db db') :
    Past base (past ++ [db']) db' where
  now := List.mem_append_right _ (List.mem_singleton.2 rfl)
  low := Nat.le_trans was.low told.log.grows.counter
  log := by
    intro D mem
    rcases List.mem_append.1 mem with early | last
    · exact (was.log D early).trans told.log
    · obtain rfl := List.mem_singleton.1 last
      exact .refl _
  same := by
    intro D mem a version
    rcases List.mem_append.1 mem with early | last
    · by_cases quiet : ∀ e ∈ db'.changes.entries, db.changes.counter < e.1 →
          e.2.isAbout a = false
      · rw [version_quiet told.log quiet] at version
        rw [was.same D early a version, told.same a quiet]
      · simp only [not_forall, Bool.not_eq_false] at quiet
        obtain ⟨e, there, new, about⟩ := quiet
        have late := version_told there new about
        have old := Nat.le_trans (was.version_le early a) (versionOf_le db a)
        omega
    · obtain rfl := List.mem_singleton.1 last
      rfl
  there := by
    intro e mem low kind version
    by_cases new : db.changes.counter < e.1
    · exact told.there e mem new kind
    · have quiet : ∀ e' ∈ db'.changes.entries, db.changes.counter < e'.1 →
          e'.2.isAbout e.2.refId = false := by
        intro e' mem' new'
        refine eq_false_of_ne_true fun about => ?_
        have later := le_versionOf mem' about
        omega
      have early := told.log.old e mem (Nat.not_lt.1 new)
      rw [version_quiet told.log quiet] at version
      have was := was.there e early low kind version
      have same := congrArg Option.isSome (told.same _ quiet)
      rw [Option.isSome_map, Option.isSome_map] at same
      rw [same, was]
  gone := by
    intro e mem low kind
    by_cases new : db.changes.counter < e.1
    · exact ⟨db', List.mem_append_right _ (List.mem_singleton.2 rfl), told.gone e mem new kind⟩
    · obtain ⟨D, there, gone⟩ := was.gone e (told.log.old e mem (Nat.not_lt.1 new)) low kind
      exact ⟨D, List.mem_append_left _ there, gone⟩

/-! ## What was read -/

/-- The state was stored at a moment at which the account had the version it had when the log
went to `head`. -/
def Was (past : List Db) (db : Db) (a : AccountId) (v : Option AccountRow) (head : Nat) : Prop :=
  head ≤ db.changes.counter ∧ ∃ D ∈ past, storedOf a D = v ∧
    versionOf D a = db.changes.lastAbout (ChangeRow.isAbout a) head

variable {v : Option AccountRow} {head : Nat}

theorem Was.commit (was : Was past db a v head) (log : db.changes.Extends db'.changes) :
    Was (past ++ [db']) db' a v head := by
  obtain ⟨reached, D, mem, stored, version⟩ := was
  refine ⟨Nat.le_trans reached log.grows.counter, D, List.mem_append_left _ mem, stored, ?_⟩
  rw [version, log.lastAbout_eq reached]

/-- What is stored now. -/
theorem Past.was_now (was : Past base past db) (a : AccountId) :
    Was past db a (storedOf a db) db.changes.counter :=
  ⟨Nat.le_refl _, db, was.now, rfl, rfl⟩

theorem shows_applyChange (a : AccountId) (s : AppState) (c : Change) :
    shows a (applyChange s c) = if subjectOf c = some a then shownBy c else shows a s := by
  cases c with
  | document seq d =>
      rw [if_neg (by simp [subjectOf])]
      simp only [applyChange, applyDocument]
      split
      · rfl
      · next entry found =>
          have key := Table.find_key found
          simp only [shows, Table.find_put]
          by_cases here : AccountEntry.id { entry with
              docCount := ((entry.docCount : Int) + countDelta seq d
                (decide ((d.accountId, d.id) ∈ s.archived))).toNat
              recent := recentAfter d entry.recent } = a
          · rw [if_pos here]
            have same : d.accountId = a := key.symm.trans here
            rw [← same, found]
            rfl
          · rw [if_neg here]
  | account seq r =>
      simp only [applyChange, shows, Table.find_put, subjectOf, Option.some.injEq, shownBy]
      have key : (accountEntry s r).id = r.id := accountEntry_id s r
      rw [key]
      by_cases here : r.id = a
      · rw [if_pos here, if_pos here, Option.map_some, accountEntry]
        cases s.accounts.find r.id <;> rfl
      · rw [if_neg here, if_neg here]
  | purge seq id => rfl
  | accountRemoved seq id =>
      simp only [applyChange, shows, Table.find_erase, subjectOf, Option.some.injEq, shownBy]
      by_cases here : id = a
      · rw [if_pos here, if_pos here.symm]
        rfl
      · rw [if_neg here, if_neg (Ne.symm here)]

theorem shows_init (a : AccountId) (db : Db) : shows a (init db) = storedOf a db := by
  have each : ∀ rows : List AccountRow,
      (lookup AccountEntry.id a (rows.map (initEntry db))).map AccountEntry.account =
        (lookup (keyOf .accounts) [.text a] rows).map projected := by
    intro rows
    induction rows with
    | nil => rfl
    | cons r rows ih =>
        rw [List.map_cons, lookup_cons, lookup_cons]
        by_cases here : r.id = a
        · rw [if_pos (show AccountEntry.id (initEntry db r) = a from here),
            if_pos (show keyOf .accounts r = [.text a] by simp [keyOf, here])]
          rfl
        · rw [if_neg (show AccountEntry.id (initEntry db r) ≠ a from here),
            if_neg (show keyOf .accounts r ≠ [.text a] by simp [keyOf, here]), ih]
  exact each (accountsOf db)

/-- Changes of other accounts leave what a state shows of one. -/
theorem shows_apply_other {got : List Got} (others : ∀ g ∈ got, subjectOf g.change ≠ some a)
    (s : AppState) : shows a (apply s (got.map Got.change)) = shows a s := by
  induction got generalizing s with
  | nil => rfl
  | cons g got ih =>
      rw [List.map_cons, apply, List.foldl_cons]
      refine (ih (fun g' mem => others g' (List.mem_cons_of_mem _ mem)) _).trans ?_
      rw [shows_applyChange, if_neg (others g List.mem_cons_self)]

/-! ## The order of the reads -/

/-- Each change was read after every write of its account that the state shows already. -/
def InOrder (log : SeqLog ChangeRow) (reads : AccountId → Nat) : List Got → Prop
  | [] => True
  | g :: got =>
      (∀ a ∈ subjectOf g.change, ∀ e ∈ log.entries, e.2.isAbout a = true → e.1 ≤ reads a →
        e.1 ≤ g.head) ∧ InOrder log (readsAfter reads [g]) got

instance InOrder.decidable (log : SeqLog ChangeRow) : (reads : AccountId → Nat) →
    (got : List Got) → Decidable (InOrder log reads got)
  | _, [] => .isTrue trivial
  | reads, g :: got =>
      have : Decidable (InOrder log (readsAfter reads [g]) got) :=
        InOrder.decidable log (readsAfter reads [g]) got
      inferInstanceAs (Decidable (_ ∧ _))

/-- A change in flight shows a state its account had. -/
def Read (past : List Db) (db : Db) (g : Got) : Prop :=
  ∀ a, subjectOf g.change = some a → Was past db a (shownBy g.change) g.head

theorem readsAfter_cons (reads : AccountId → Nat) (g : Got) (got : List Got) :
    readsAfter reads (g :: got) = readsAfter (readsAfter reads [g]) got := rfl

theorem readsAfter_one (reads : AccountId → Nat) (g : Got) (a : AccountId) :
    readsAfter reads [g] a = if subjectOf g.change = some a then g.head else reads a := by
  simp only [readsAfter, List.foldl_cons, List.foldl_nil]
  cases subject : subjectOf g.change with
  | none => simp
  | some b =>
      by_cases here : a = b
      · subst here
        simp
      · simp [Function.update_of_ne here, Ne.symm here]

/-- **A batch applied in order.** What is shown of an account stays a state it had, and no older
one. -/
theorem applied_in_order {got : List Got} {s : AppState} {reads : AccountId → Nat}
    (read : ∀ g ∈ got, Read past db g) (order : InOrder db.changes reads got)
    (shown : Was past db a (shows a s) (reads a)) :
    Was past db a (shows a (apply s (got.map Got.change))) (readsAfter reads got a) ∧
      db.changes.lastAbout (ChangeRow.isAbout a) (reads a) ≤
        db.changes.lastAbout (ChangeRow.isAbout a) (readsAfter reads got a) := by
  induction got generalizing s reads with
  | nil => exact ⟨shown, Nat.le_refl _⟩
  | cons g got ih =>
      obtain ⟨first, rest⟩ := order
      have one := readsAfter_one reads g a
      have next : Was past db a (shows a (applyChange s g.change)) (readsAfter reads [g] a) := by
        rw [shows_applyChange, one]
        split
        · next subject => exact read g List.mem_cons_self a subject
        · exact shown
      have newer : db.changes.lastAbout (ChangeRow.isAbout a) (reads a) ≤
          db.changes.lastAbout (ChangeRow.isAbout a) (readsAfter reads [g] a) := by
        rw [one]
        split
        · next subject =>
            exact SeqLog.lastAbout_le fun e mem about upTo =>
              SeqLog.le_lastAbout mem about (first a subject e mem about upTo)
        · exact Nat.le_refl _
      obtain ⟨still, later⟩ := ih (fun g' mem => read g' (List.mem_cons_of_mem _ mem)) rest next
      rw [readsAfter_cons]
      exact ⟨still, Nat.le_trans newer later⟩

/-! ## Feeds in flight -/

namespace Feed

def rows (f : Feed) : List (Nat × ChangeRow) :=
  match f.stage with
  | .queried rows | .reading _ rows _ _ => rows
  | _ => []

def got (f : Feed) : List Got :=
  match f.stage with
  | .reading _ _ got _ | .ready got _ => got
  | _ => []

def high (f : Feed) : Nat :=
  match f.stage with
  | .idle => f.cursor
  | .queried rows => ((rows.getLast?).map Prod.fst).getD f.cursor
  | .reading _ _ _ high | .ready _ high => high

end Feed

/-- Rows beyond `n` were appended since the start. -/
def Above (base : Nat) (db : Db) (n : Nat) : Prop :=
  ∀ e ∈ db.changes.entries, n < e.1 → base < e.1

theorem Above.commit {n : Nat} (above : Above base db n) (low : base ≤ db.changes.counter)
    (log : db.changes.Extends db'.changes) : Above base db' n := by
  intro e mem beyond
  by_cases new : db.changes.counter < e.1
  · omega
  · exact above e (log.old e mem (Nat.not_lt.1 new)) beyond

theorem Above.at_head (base : Nat) (db : Db) : Above base db db.changes.head :=
  fun _ mem beyond => absurd (SeqLog.le_head mem) (Nat.not_le.2 beyond)

theorem Above.mono {n m : Nat} (above : Above base db n) (le : n ≤ m) : Above base db m :=
  fun e mem beyond => above e mem (Nat.lt_of_le_of_lt le beyond)

/-- What is in flight is of the log between the cursor and the window's end, in its order. -/
structure Flight (base : Nat) (past : List Db) (db : Db) (f : Feed) : Prop where
  low : Above base db f.cursor
  upTo : f.cursor ≤ f.high
  reached : f.high ≤ db.changes.counter
  rows : ∀ e ∈ f.rows, e ∈ db.changes.entries ∧ f.cursor < e.1 ∧ e.1 ≤ f.high
  got : ∀ g ∈ f.got, f.cursor < seqOf g.change ∧ seqOf g.change ≤ f.high ∧ Read past db g ∧
    ∀ a, subjectOf g.change = some a →
      ∃ e ∈ db.changes.entries, e.1 = seqOf g.change ∧ e.2.isAbout a = true
  order : (f.got.map (fun g => seqOf g.change) ++ f.rows.map Prod.fst).Pairwise (· < ·)

theorem Flight.commit {f : Feed} (flight : Flight base past db f) (low : base ≤ db.changes.counter)
    (told : Announced db db') : Flight base (past ++ [db']) db' f where
  low := flight.low.commit low told.log
  upTo := flight.upTo
  reached := Nat.le_trans flight.reached told.log.grows.counter
  rows e mem :=
    have ⟨there, between⟩ := flight.rows e mem
    ⟨told.log.grows.entries e there, between⟩
  got g mem := by
    obtain ⟨above, below, read, logged⟩ := flight.got g mem
    refine ⟨above, below, fun a subject => (read a subject).commit told.log, fun a subject => ?_⟩
    obtain ⟨e, there, both⟩ := logged a subject
    exact ⟨e, told.log.grows.entries e there, both⟩
  order := flight.order

theorem Flight.idle {n : Nat} (low : Above base db n) (reached : n ≤ db.changes.counter) :
    Flight base past db ⟨n, .idle⟩ where
  low := low
  upTo := Nat.le_refl _
  reached := reached
  rows := fun _ mem => absurd mem List.not_mem_nil
  got := fun _ mem => absurd mem List.not_mem_nil
  order := List.Pairwise.nil

/-- What is read for a row. -/
theorem readRow_some {heads : List DocRow} {e : Nat × ChangeRow} {g : Got}
    (found : readRow db heads e = some g) : seqOf g.change = e.1 ∧
      ∀ a, subjectOf g.change = some a ↔ e.2.isAbout a = true := by
  unfold readRow at found
  cases kind : e.2.kind with
  | document =>
      simp only [kind] at found
      obtain ⟨d, -, rfl⟩ := Option.map_eq_some_iff.1 found
      exact ⟨rfl, fun a => by simp [subjectOf, ChangeRow.isAbout, kind]⟩
  | account =>
      simp only [kind] at found
      obtain ⟨r, row, rfl⟩ := Option.map_eq_some_iff.1 found
      have key : keyOf .accounts r = [.text e.2.refId] := Table.find_key row
      have id : r.id = e.2.refId := by simpa [keyOf] using key
      exact ⟨rfl, fun a => by simp [subjectOf, ChangeRow.isAbout, kind, id]⟩
  | purge =>
      simp only [kind, Option.some.injEq] at found
      subst found
      exact ⟨rfl, fun a => by simp [subjectOf, ChangeRow.isAbout, kind]⟩
  | accountRemoved =>
      simp only [kind, Option.some.injEq] at found
      subst found
      exact ⟨rfl, fun a => by simp [subjectOf, ChangeRow.isAbout, kind]⟩

/-- **What is read was stored**, now or when the account was removed. -/
theorem Past.read (was : Past base past db) {heads : List DocRow} {e : Nat × ChangeRow} {g : Got}
    (mem : e ∈ db.changes.entries) (low : base < e.1) (found : readRow db heads e = some g) :
    Read past db g := by
  intro a subject
  have about := ((readRow_some found).2 a).1 subject
  unfold readRow at found
  cases kind : e.2.kind with
  | document => simp [ChangeRow.isAbout, kind] at about
  | purge => simp [ChangeRow.isAbout, kind] at about
  | account =>
      simp only [kind] at found
      obtain ⟨r, row, rfl⟩ := Option.map_eq_some_iff.1 found
      simp only [ChangeRow.isAbout, kind, decide_true, Bool.true_or, Bool.true_and,
        decide_eq_true_eq] at about
      have stored : storedOf a db = some (projected r) := by rw [storedOf, ← about, row]; rfl
      have held := was.was_now a
      rw [stored] at held
      exact held
  | accountRemoved =>
      simp only [kind, Option.some.injEq] at found
      subst found
      obtain rfl := Option.some.inj subject
      obtain ⟨D, there, none, version⟩ := was.gone e mem low kind
      refine ⟨db.changes.below e mem, D, there, by rw [storedOf, none]; rfl, ?_⟩
      rw [version]
      exact (SeqLog.lastAbout_eq mem about (Nat.le_refl _) fun _ _ _ upTo => upTo).symm

theorem feedWindow_eq (db : Db) (after : Nat) (kinds : List ChangeKind) :
    feedWindow db after kinds = ((db.changes.filter fun e =>
      kinds.isEmpty || decide (e.2.kind ∈ kinds)).since after).take feedBatch := by
  rw [feedWindow, SeqLog.since, SeqLog.since, SeqLog.filter, List.filter_comm]

/-- A window holds every row of its kinds up to its last one, and no other. -/
theorem mem_window {after : Nat} {kinds : List ChangeKind} {e : Nat × ChangeRow} :
    e ∈ feedWindow db after kinds ↔
      (e ∈ db.changes.entries ∧ (kinds.isEmpty || decide (e.2.kind ∈ kinds)) = true) ∧
        after < e.1 ∧ e.1 ≤ (((feedWindow db after kinds).getLast?).map Prod.fst).getD after := by
  rw [feedWindow_eq, SeqLog.mem_take_since, SeqLog.mem_filter]

theorem feedWindow_ascending (db : Db) (after : Nat) (kinds : List ChangeKind) :
    ((feedWindow db after kinds).map Prod.fst).Pairwise (· < ·) := by
  refine db.changes.ascending.sublist (List.Sublist.map _ ?_)
  rw [feedWindow]
  exact (List.take_sublist _ _).trans (List.filter_sublist.trans List.filter_sublist)

namespace Flight

variable {f f' : Feed}

theorem query {kinds : List ChangeKind} (flight : Flight base past db f)
    (took : f.query db kinds = some f') : Flight base past db f' := by
  unfold Feed.query at took
  split at took
  · split at took
    · obtain rfl := Option.some.inj took
      exact flight
    · next some =>
        obtain rfl := Option.some.inj took
        have all : ∀ e ∈ feedWindow db f.cursor kinds, e ∈ db.changes.entries ∧ f.cursor < e.1 ∧
            e.1 ≤ (((feedWindow db f.cursor kinds).getLast?).map Prod.fst).getD f.cursor :=
          fun e mem =>
            have ⟨there, between⟩ := mem_window.1 mem
            ⟨there.1, between⟩
        have last : ∃ e ∈ feedWindow db f.cursor kinds,
            (((feedWindow db f.cursor kinds).getLast?).map Prod.fst).getD f.cursor = e.1 :=
          ⟨_, List.getLast_mem some, by rw [List.getLast?_eq_some_getLast some]; rfl⟩
        obtain ⟨e, mem, same⟩ := last
        obtain ⟨there, above, -⟩ := all e mem
        refine ⟨flight.low, ?_, ?_, all, fun _ none => absurd none List.not_mem_nil,
          feedWindow_ascending db f.cursor kinds⟩
        · show f.cursor ≤ (((feedWindow db f.cursor kinds).getLast?).map Prod.fst).getD f.cursor
          omega
        · show (((feedWindow db f.cursor kinds).getLast?).map Prod.fst).getD f.cursor ≤ _
          rw [same]
          exact db.changes.below e there
  · cases took

theorem heads (flight : Flight base past db f) (took : f.heads db = some f') :
    Flight base past db f' := by
  unfold Feed.heads at took
  split at took
  · next rows stage =>
      obtain rfl := Option.some.inj took
      obtain ⟨cursor, _⟩ := f
      simp only at stage
      subst stage
      exact ⟨flight.low, flight.upTo, flight.reached, flight.rows,
        fun _ none => absurd none List.not_mem_nil, flight.order⟩
  · cases took

/-- The batch with the next row read. -/
theorem read_got (was : Past base past db) {cursor high : Nat} {heads : List DocRow}
    {e : Nat × ChangeRow} {rows : List (Nat × ChangeRow)} {got : List Got}
    (flight : Flight base past db ⟨cursor, .reading heads (e :: rows) got high⟩) :
    Flight base past db ⟨cursor, .reading heads rows (got ++ (readRow db heads e).toList) high⟩ := by
  obtain ⟨there, above, below⟩ := flight.rows e List.mem_cons_self
  refine ⟨flight.low, flight.upTo, flight.reached,
    fun x mem => flight.rows x (List.mem_cons_of_mem _ mem), fun g mem => ?_, ?_⟩
  · rcases List.mem_append.1 mem with early | last
    · exact flight.got g early
    · have found := Option.mem_toList.1 last
      obtain ⟨seq, subject⟩ := readRow_some found
      refine ⟨seq ▸ above, seq ▸ below,
        was.read there (flight.low e there above) found, fun a of => ?_⟩
      exact ⟨e, there, seq.symm, (subject a).1 of⟩
  · refine flight.order.sublist ?_
    show ((got ++ _).map _ ++ rows.map Prod.fst).Sublist (got.map _ ++ (e :: rows).map Prod.fst)
    rw [List.map_append, List.append_assoc, List.map_cons]
    refine List.Sublist.append_left ?_ _
    cases found : readRow db heads e with
    | none => exact List.sublist_cons_self _ _
    | some g =>
        rw [Option.toList_some, List.map_cons, List.map_nil, (readRow_some found).1]
        exact List.Sublist.refl _

theorem read (was : Past base past db) (flight : Flight base past db f)
    (took : f.read db = some f') : Flight base past db f' := by
  unfold Feed.read at took
  split at took
  · next heads e rows got high stage =>
      obtain ⟨cursor, _⟩ := f
      simp only at stage
      subst stage
      have next := read_got was flight
      dsimp only at took
      split at took
      · obtain rfl := Option.some.inj took
        exact next
      · next none =>
          rw [not_not] at none
          subst none
          split at took
          · obtain rfl := Option.some.inj took
            exact .idle (flight.low.mono flight.upTo) flight.reached
          · obtain rfl := Option.some.inj took
            exact ⟨next.low, next.upTo, next.reached, next.rows, next.got, next.order⟩
  · cases took

end Flight

/-! ## The published states of an account -/

def Phase.initialised : Phase → Bool
  | .started _ | .live => true
  | _ => false

/-- Each published state of the account is the stored one of some moment, and its version at
these moments never goes down. -/
structure InSequence (s : Led) (a : AccountId) (seen : List Db) : Prop where
  past : ∀ D ∈ seen, D ∈ s.past
  shown : s.published.map (fun p => shows a p.1) = seen.map (storedOf a)
  order : (seen.map fun D => versionOf D a).Pairwise (· ≤ ·)

/-- The stores there have been, and what is in flight. -/
structure Sound (base : Nat) (s : Led) : Prop where
  past : Past base s.past s.db
  feeds : s.tails.phase = .live →
    Flight base s.past s.db s.tails.lead ∧ Flight base s.past s.db s.tails.main
  from_ : ∀ n, s.tails.phase = .starting n ∨ s.tails.phase = .started n →
    Above base s.db n ∧ n ≤ s.db.changes.counter

/-- A batch that is ready, and the feed once it is applied. -/
theorem Flight.ready {f : Feed} {got : List Got} {high : Nat} (flight : Flight base past db f)
    (stage : f.stage = .ready got high) :
    (∀ g ∈ got, Read past db g) ∧ Flight base past db ⟨high, .idle⟩ := by
  obtain ⟨cursor, _⟩ := f
  simp only at stage
  subst stage
  exact ⟨fun g mem => (flight.got g mem).2.2.1,
    .idle (flight.low.mono flight.upTo) flight.reached⟩

/-- **What a step is**: a commit, a feed that goes on, a batch applied, or a phase of an
attempt. -/
inductive Moved (s : Led) (a : LedAct) (s' : Led) : Prop
  | same (still : s' = s)
  | commit (db' : Db) (told : Announced s.db db') (next : s' = s.commit db')
  | lead (live : s.tails.phase = .live) (f : Feed)
      (went : s.tails.lead.query s.db leadKinds = some f ∨ s.tails.lead.heads s.db = some f ∨
        s.tails.lead.read s.db = some f)
      (next : s' = { s with tails := { s.tails with lead := f } })
  | main (live : s.tails.phase = .live) (f : Feed)
      (went : s.tails.main.query s.db [] = some f ∨ s.tails.main.heads s.db = some f ∨
        s.tails.main.read s.db = some f)
      (next : s' = { s with tails := { s.tails with main := f } })
  | heading (next : s' = { s with tails := { s.tails with phase := .starting s.db.changes.head } })
  | init (leadFrom : Nat) (phase : s.tails.phase = .starting leadFrom)
      (next : s' = { s with tails := { s.tails with
        phase := .started leadFrom, state := init s.db, reads := fun _ => s.db.changes.counter } })
  | live (leadFrom : Nat) (phase : s.tails.phase = .started leadFrom)
      (next : s' = s.publish { s.tails with
        phase := .live, seq := s.db.changes.head, lead := ⟨leadFrom, .idle⟩
        main := ⟨s.db.changes.head, .idle⟩, leadSeq := leadFrom })
  | deliverLead (act : a = .deliver true) (live : s.tails.phase = .live) (got : List Got) (high : Nat)
      (stage : s.tails.lead.stage = .ready got high)
      (next : s' = s.publish (s.tails.deliverLead got high))
  | deliverMain (act : a = .deliver false) (live : s.tails.phase = .live) (got : List Got) (high : Nat)
      (stage : s.tails.main.stage = .ready got high)
      (next : s' = s.publish (s.tails.deliverMain got high))
  | retry (next : s' = { s with tails := attempt () })

theorem moved_feed {s s' : Led} {a : LedAct} {lead : Bool} {next : Feed → Option Feed}
    (took : s.feed lead next = some s')
    (left : lead = true → ∀ f, next s.tails.lead = some f →
      s.tails.lead.query s.db leadKinds = some f ∨ s.tails.lead.heads s.db = some f ∨
        s.tails.lead.read s.db = some f)
    (right : lead = false → ∀ f, next s.tails.main = some f →
      s.tails.main.query s.db [] = some f ∨ s.tails.main.heads s.db = some f ∨
        s.tails.main.read s.db = some f) : Moved s a s' := by
  unfold Led.feed at took
  split at took
  · cases took
  · next live =>
      rw [not_not] at live
      split at took
      · next side =>
          obtain ⟨f, went, rfl⟩ := Option.map_eq_some_iff.1 took
          exact .lead live f (left side f went) rfl
      · next side =>
          obtain ⟨f, went, rfl⟩ := Option.map_eq_some_iff.1 took
          exact .main live f (right (eq_false_of_ne_true side) f went) rfl

theorem moved {deps : Deps} {s s' : Led} {a : LedAct} (took : ledStep deps s a = some s') :
    Moved s a s' := by
  cases a with
  | commit now publishedAt batch =>
      rw [ledStep] at took
      split at took
      · next r committed =>
          exact .commit r.1 (announced_commitTx committed) (Option.some.inj took).symm
      · exact .same (Option.some.inj took).symm
  | connect now source identifier =>
      exact .commit _ (Kept.of_account deps now source identifier s.db).announced
        (Option.some.inj took).symm
  | write now row => exact .commit _ (Kept.of_write s.db row now).announced (Option.some.inj took).symm
  | head =>
      rw [ledStep] at took
      split at took
      · exact .heading (Option.some.inj took).symm
      · cases took
  | init =>
      rw [ledStep] at took
      split at took
      · next leadFrom phase => exact .init leadFrom phase (Option.some.inj took).symm
      · cases took
  | live =>
      rw [ledStep] at took
      split at took
      · next leadFrom phase => exact .live leadFrom phase (Option.some.inj took).symm
      · cases took
  | query lead =>
      rw [ledStep] at took
      refine moved_feed took (fun side f went => .inl ?_) fun side f went => .inl ?_
      · simpa [side] using went
      · simpa [side] using went
  | heads lead =>
      rw [ledStep] at took
      exact moved_feed took (fun _ _ went => .inr (.inl went)) fun _ _ went => .inr (.inl went)
  | read lead =>
      rw [ledStep] at took
      exact moved_feed took (fun _ _ went => .inr (.inr went)) fun _ _ went => .inr (.inr went)
  | deliver lead =>
      rw [ledStep] at took
      split at took
      · cases took
      · next live =>
          rw [not_not] at live
          split at took
          · next side =>
              split at took
              · next got high stage =>
                  exact .deliverLead (by rw [side]) live got high stage (Option.some.inj took).symm
              · cases took
          · next side =>
              split at took
              · next got high stage =>
                  exact .deliverMain (by rw [eq_false_of_ne_true side]) live got high stage
                    (Option.some.inj took).symm
              · cases took
  | retry => exact .retry (Option.some.inj took).symm

namespace Sound

variable {s s' : Led} {a : LedAct}

theorem start (db : Db) : Sound db.changes.counter (Led.start db) where
  past := .start db
  feeds := fun live => by cases live
  from_ := by
    rintro n (phase | phase) <;> cases phase

theorem went {f f' : Feed} {kinds : List ChangeKind} (sound : Sound base s)
    (flight : Flight base s.past s.db f)
    (next : f.query s.db kinds = some f' ∨ f.heads s.db = some f' ∨ f.read s.db = some f') :
    Flight base s.past s.db f' := by
  rcases next with next | next | next
  · exact flight.query next
  · exact flight.heads next
  · exact flight.read sound.past next

theorem step (sound : Sound base s) (moved : Moved s a s') : Sound base s' := by
  cases moved with
  | same still => exact still ▸ sound
  | commit db' told next =>
      subst next
      refine ⟨sound.past.commit told, fun live => ?_, fun n phase => ?_⟩
      · obtain ⟨lead, main⟩ := sound.feeds live
        exact ⟨lead.commit sound.past.low told, main.commit sound.past.low told⟩
      · obtain ⟨above, reached⟩ := sound.from_ n phase
        exact ⟨above.commit sound.past.low told.log,
          Nat.le_trans reached told.log.grows.counter⟩
  | lead live f next same =>
      subst same
      obtain ⟨left, right⟩ := sound.feeds live
      exact ⟨sound.past, fun _ => ⟨sound.went left next, right⟩, sound.from_⟩
  | main live f next same =>
      subst same
      obtain ⟨left, right⟩ := sound.feeds live
      exact ⟨sound.past, fun _ => ⟨left, sound.went right next⟩, sound.from_⟩
  | heading next =>
      subst next
      refine ⟨sound.past, fun live => (by cases live), ?_⟩
      rintro n (same | other)
      · obtain rfl := Phase.starting.inj same
        exact ⟨.at_head base s.db, s.db.changes.head_le_counter⟩
      · cases other
  | init leadFrom phase next =>
      subst next
      refine ⟨sound.past, fun live => (by cases live), ?_⟩
      rintro n (other | same)
      · cases other
      · obtain rfl := Phase.started.inj same
        exact sound.from_ _ (.inl phase)
  | live leadFrom phase next =>
      subst next
      obtain ⟨above, reached⟩ := sound.from_ _ (.inr phase)
      refine ⟨sound.past, fun _ => ⟨.idle above reached,
        .idle (.at_head base s.db) s.db.changes.head_le_counter⟩, ?_⟩
      rintro n (other | other) <;> cases other
  | deliverLead act live got high stage next =>
      subst next
      obtain ⟨left, right⟩ := sound.feeds live
      refine ⟨sound.past, fun _ => ⟨(left.ready stage).2, right⟩, ?_⟩
      rintro n (other | other) <;> exact absurd (live.symm.trans other) (by simp)
  | deliverMain act live got high stage next =>
      subst next
      obtain ⟨left, right⟩ := sound.feeds live
      refine ⟨sound.past, fun _ => ⟨left, (right.ready stage).2⟩, ?_⟩
      rintro n (other | other) <;> exact absurd (live.symm.trans other) (by simp)
  | retry next =>
      subst next
      refine ⟨sound.past, fun live => (by cases live), ?_⟩
      rintro n (other | other) <;> cases other

end Sound

/-! ## Batches applied in order -/

/-- A batch of changes is applied in the order of the reads. -/
def Clear (s : Led) : LedAct → Prop
  | .deliver true =>
      match s.tails.lead.stage with
      | .ready got _ => InOrder s.db.changes s.tails.reads got
      | _ => True
  | .deliver false =>
      match s.tails.main.stage with
      | .ready got _ => InOrder s.db.changes s.tails.reads (unled s.tails.leadSeq got)
      | _ => True
  | _ => True

structure Ordered (base : Nat) (s : Led) : Prop where
  sound : Sound base s
  shown : s.tails.phase.initialised = true → ∀ a,
    Was s.past s.db a (shows a s.tails.state) (s.tails.reads a)
  told : ∀ a, ∃ seen, InSequence s a seen ∧ (s.tails.phase.initialised = true → ∀ D ∈ seen,
    versionOf D a ≤ s.db.changes.lastAbout (ChangeRow.isAbout a) (s.tails.reads a))

namespace Ordered

variable {s s' : Led}

theorem start (db : Db) : Ordered db.changes.counter (Led.start db) where
  sound := .start db
  shown := fun phase => by cases phase
  told := fun a => ⟨[], ⟨fun _ none => absurd none List.not_mem_nil, rfl, List.Pairwise.nil⟩,
    fun phase => by cases phase⟩

/-- A commit changes nothing that was shown. -/
theorem commit (ordered : Ordered base s) (told : Announced s.db db')
    (sound : Sound base (s.commit db')) : Ordered base (s.commit db') where
  sound := sound
  shown := fun phase a => (ordered.shown phase a).commit told.log
  told := by
    intro a
    obtain ⟨seen, each, upTo⟩ := ordered.told a
    refine ⟨seen, ⟨fun D mem => List.mem_append_left _ (each.past D mem), each.shown, each.order⟩,
      fun phase D mem => ?_⟩
    have same : db'.changes.lastAbout (ChangeRow.isAbout a) (s.tails.reads a) =
        s.db.changes.lastAbout (ChangeRow.isAbout a) (s.tails.reads a) :=
      told.log.lastAbout_eq (ordered.shown phase a).1
    exact (upTo phase D mem).trans_eq same.symm

/-- A publication of a state whose accounts are as old as what was shown, or newer. -/
theorem publish {t : Tails} (ordered : Ordered base s) (sound : Sound base (s.publish t))
    (initialised : s.tails.phase.initialised = true)
    (shown : ∀ a, Was s.past s.db a (shows a t.state) (t.reads a))
    (newer : ∀ a, s.db.changes.lastAbout (ChangeRow.isAbout a) (s.tails.reads a) ≤
      s.db.changes.lastAbout (ChangeRow.isAbout a) (t.reads a)) :
    Ordered base (s.publish t) where
  sound := sound
  shown := fun _ => shown
  told := by
    intro a
    obtain ⟨seen, each, upTo⟩ := ordered.told a
    have below := fun D mem => Nat.le_trans (upTo initialised D mem) (newer a)
    obtain ⟨reached, D, mem, stored, version⟩ := shown a
    refine ⟨seen ++ [D], ⟨fun x there => ?_, ?_, ?_⟩, fun _ x there => ?_⟩
    · rcases List.mem_append.1 there with early | last
      · exact each.past x early
      · exact List.mem_singleton.1 last ▸ mem
    · show (s.published ++ [(t.state, t.seq)]).map _ = _
      rw [List.map_append, List.map_append, each.shown, List.map_singleton, List.map_singleton,
        stored]
    · rw [List.map_append, List.pairwise_append]
      refine ⟨each.order, List.pairwise_singleton _ _, ?_⟩
      intro n early m last
      obtain ⟨x, there, rfl⟩ := List.mem_map.1 early
      obtain rfl := List.mem_singleton.1 last
      exact (below x there).trans_eq version.symm
    · rcases List.mem_append.1 there with early | last
      · exact below x early
      · rw [List.mem_singleton.1 last, version]
        exact Nat.le_refl _

/-- A batch is applied in order. -/
theorem applied {t : Tails} {got : List Got} (ordered : Ordered base s)
    (sound : Sound base (s.publish t)) (live : s.tails.phase = .live)
    (read : ∀ g ∈ got, Read s.past s.db g)
    (order : InOrder s.db.changes s.tails.reads got)
    (state : t.state = App.apply s.tails.state (got.map Got.change))
    (reads : t.reads = readsAfter s.tails.reads got) : Ordered base (s.publish t) := by
  have initialised : s.tails.phase.initialised = true := by rw [live]; rfl
  have one := fun a => applied_in_order read order (ordered.shown initialised a)
  refine ordered.publish sound initialised (fun a => ?_) fun a => ?_
  · rw [state, reads]
    exact (one a).1
  · rw [reads]
    exact (one a).2

/-- Nothing is shown anew. -/
theorem quiet {t : Tails} (ordered : Ordered base s) (sound : Sound base { s with tails := t })
    (shown : t.phase.initialised = true → ∀ a, Was s.past s.db a (shows a t.state) (t.reads a))
    (upTo : t.phase.initialised = true → ∀ a, ∀ D ∈ s.past,
      (s.tails.phase.initialised = true →
        versionOf D a ≤ s.db.changes.lastAbout (ChangeRow.isAbout a) (s.tails.reads a)) →
      versionOf D a ≤ s.db.changes.lastAbout (ChangeRow.isAbout a) (t.reads a)) :
    Ordered base { s with tails := t } where
  sound := sound
  shown := shown
  told := by
    intro a
    obtain ⟨seen, each, below⟩ := ordered.told a
    exact ⟨seen, ⟨each.past, each.shown, each.order⟩, fun initialised D mem =>
      upTo initialised a D (each.past D mem) fun was => below was D mem⟩

theorem step {a : LedAct} (ordered : Ordered base s) (clear : Clear s a) (moved : Moved s a s') :
    Ordered base s' := by
  have sound := ordered.sound.step moved
  cases moved with
  | same still => exact still ▸ ordered
  | commit db' told next =>
      subst next
      exact ordered.commit told sound
  | lead live f went next =>
      subst next
      have initialised : s.tails.phase.initialised = true := by rw [live]; rfl
      exact ordered.quiet sound ordered.shown fun _ a D mem below => below initialised
  | main live f went next =>
      subst next
      have initialised : s.tails.phase.initialised = true := by rw [live]; rfl
      exact ordered.quiet sound ordered.shown fun _ a D mem below => below initialised
  | heading next =>
      subst next
      exact ordered.quiet sound (fun phase => (by cases phase)) fun phase => (by cases phase)
  | init leadFrom phase next =>
      subst next
      refine ordered.quiet sound (fun _ a => ?_) fun _ a D mem _ =>
        ordered.sound.past.version_le mem a
      exact shows_init a s.db ▸ ordered.sound.past.was_now a
  | live leadFrom phase next =>
      subst next
      have initialised : s.tails.phase.initialised = true := by rw [phase]; rfl
      exact ordered.publish sound initialised (ordered.shown initialised) fun a => Nat.le_refl _
  | deliverLead act live got high stage next =>
      subst next act
      simp only [Clear, stage] at clear
      exact ordered.applied sound live ((ordered.sound.feeds live).1.ready stage).1 clear rfl rfl
  | deliverMain act live got high stage next =>
      subst next act
      simp only [Clear, stage] at clear
      have read := ((ordered.sound.feeds live).2.ready stage).1
      exact ordered.applied sound live (fun g mem => read g (List.mem_filter.1 mem).1) clear rfl rfl
  | retry next =>
      subst next
      exact ordered.quiet sound (fun phase => (by cases phase)) fun phase => (by cases phase)

end Ordered

end Kiagent.App
