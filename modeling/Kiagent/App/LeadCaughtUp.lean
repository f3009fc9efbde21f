/-
# App.LeadCaughtUp -- the published accounts once both feeds have caught up

The lead reads every row about accounts, and the last row about an account is read with what
is stored since.  Once it is applied the main feed leaves the account alone (`Level`).  So both
feeds leave the stored account behind, up to what a commit of sync progress does not announce.

`led_exact` puts this beside the order of what is published.  `led_back` is a batch of the lead
applied after newer reads of the main feed, and a commit of sync progress no window is shown.
-/
import Kiagent.App.LeadOrder

namespace Kiagent.App

open Kiagent.Theory Kiagent.Store

set_option autoImplicit false

variable {base : Nat} {past : List Db} {db db' : Db} {a : AccountId}

/-! ## Up to date -/

/-- The state is what was stored at a moment since which the account was not written. -/
def UpToDate (past : List Db) (db : Db) (a : AccountId) (v : Option AccountRow) : Prop :=
  ∃ D ∈ past, v = storedOf a D ∧ versionOf D a = versionOf db a

theorem UpToDate.now (was : Past base past db) : UpToDate past db a (storedOf a db) :=
  ⟨db, was.now, rfl, rfl⟩

/-- An account whose last row the log had reached is not told of by a commit. -/
theorem version_kept (told : Announced db db') (small : versionOf db' a ≤ db.changes.counter) :
    versionOf db' a = versionOf db a := by
  refine version_quiet told.log fun e mem new => eq_false_of_ne_true fun about => ?_
  have late := version_told mem new about
  omega

theorem UpToDate.commit {v : Option AccountRow} (fresh : UpToDate past db a v)
    (told : Announced db db') (small : versionOf db' a ≤ db.changes.counter) :
    UpToDate (past ++ [db']) db' a v := by
  obtain ⟨D, mem, shown, version⟩ := fresh
  exact ⟨D, List.mem_append_left _ mem, shown, version.trans (version_kept told small).symm⟩

/-- The entry that speaks last of an account. -/
theorem last_entry (some : 0 < versionOf db a) :
    ∃ e ∈ db.changes.entries, e.2.isAbout a = true ∧ e.1 = versionOf db a := by
  obtain ⟨e, mem, about, -, same⟩ := SeqLog.exists_lastAbout some
  exact ⟨e, mem, about, same⟩

/-- **The last row of an account is read with what is stored.** -/
theorem Past.reads_last (was : Past base past db) {heads : List DocRow} {e : Nat × ChangeRow}
    (mem : e ∈ db.changes.entries) (low : base < e.1) (about : e.2.isAbout a = true)
    (last : e.1 = versionOf db a) :
    ∃ g, readRow db heads e = some g ∧ subjectOf g.change = some a ∧
      seqOf g.change = versionOf db a ∧ UpToDate past db a (shownBy g.change) := by
  have parts := about
  simp only [ChangeRow.isAbout, Bool.and_eq_true, Bool.or_eq_true, decide_eq_true_eq] at parts
  obtain ⟨kind | kind, rfl⟩ := parts
  · obtain ⟨r, row⟩ := Option.isSome_iff_exists.1 (was.there e mem low kind last.symm)
    have found : readRow db heads e = some ⟨.account e.1 r, db.changes.counter⟩ := by
      simp only [readRow, kind, row, Option.map_some]
    refine ⟨_, found, ((readRow_some found).2 _).2 about, last, ?_⟩
    have stored : storedOf e.2.refId db = some (projected r) := by rw [storedOf, row]; rfl
    have fresh : UpToDate past db e.2.refId (storedOf e.2.refId db) := .now was
    rw [stored] at fresh
    exact fresh
  · obtain ⟨D, there, none, version⟩ := was.gone e mem low kind
    have found : readRow db heads e = some ⟨.accountRemoved e.1 e.2.refId, e.1⟩ := by
      simp only [readRow, kind]
    refine ⟨_, found, rfl, last, D, there, ?_, version.trans last⟩
    rw [storedOf, none]
    rfl

/-! ## The lead's window -/

/-- The last row of an account in the lead's window is still to be read, or it was read last. -/
def Covers (past : List Db) (db : Db) (f : Feed) : Prop :=
  ∀ a, f.cursor < versionOf db a → versionOf db a ≤ f.high →
    (∃ e ∈ f.rows, e.1 = versionOf db a) ∨
      ∃ g ∈ f.got, subjectOf g.change = some a ∧ seqOf g.change = versionOf db a ∧
        UpToDate past db a (shownBy g.change)

namespace Covers

variable {f f' : Feed}

theorem idle {n : Nat} : Covers past db ⟨n, .idle⟩ :=
  fun _ above below => absurd above (Nat.not_lt.2 below)

theorem commit (covers : Covers past db f) (told : Announced db db')
    (reached : f.high ≤ db.changes.counter) : Covers (past ++ [db']) db' f := by
  intro a above below
  have small := Nat.le_trans below reached
  have same := version_kept told small
  rcases covers a (same ▸ above) (same ▸ below) with ⟨e, mem, last⟩ | ⟨g, mem, of, seq, fresh⟩
  · exact .inl ⟨e, mem, last.trans same.symm⟩
  · exact .inr ⟨g, mem, of, seq.trans same.symm, fresh.commit told small⟩

theorem query (covers : Covers past db f) (took : f.query db leadKinds = some f') :
    Covers past db f' := by
  unfold Feed.query at took
  split at took
  · split at took
    · exact Option.some.inj took ▸ covers
    · obtain rfl := Option.some.inj took
      intro a above below
      obtain ⟨e, mem, about, last⟩ := last_entry (Nat.lt_of_le_of_lt (Nat.zero_le _) above)
      have kind : e.2.kind ∈ leadKinds := by
        simp only [ChangeRow.isAbout, Bool.and_eq_true, Bool.or_eq_true, decide_eq_true_eq] at about
        rcases about.1 with kind | kind <;> simp [leadKinds, kind]
      refine .inl ⟨e, mem_window.2 ⟨⟨mem, ?_⟩, last ▸ above, last ▸ below⟩, last⟩
      simp [kind]
  · cases took

theorem heads (covers : Covers past db f) (took : f.heads db = some f') : Covers past db f' := by
  unfold Feed.heads at took
  split at took
  · next rows stage =>
      obtain rfl := Option.some.inj took
      obtain ⟨cursor, _⟩ := f
      simp only at stage
      subst stage
      intro a above below
      rcases covers a above below with left | ⟨g, mem, -⟩
      · exact .inl left
      · exact absurd mem List.not_mem_nil
  · cases took

/-- The next row is read. -/
theorem read_got (was : Past base past db) {cursor high : Nat} {heads : List DocRow}
    {e : Nat × ChangeRow} {rows : List (Nat × ChangeRow)} {got : List Got}
    (flight : Flight base past db ⟨cursor, .reading heads (e :: rows) got high⟩)
    (covers : Covers past db ⟨cursor, .reading heads (e :: rows) got high⟩) :
    Covers past db ⟨cursor, .reading heads rows (got ++ (readRow db heads e).toList) high⟩ := by
  intro a above below
  rcases covers a above below with ⟨x, mem, last⟩ | ⟨g, mem, rest⟩
  · rcases List.mem_cons.1 mem with rfl | later
    · obtain ⟨there, beyond, -⟩ := flight.rows x List.mem_cons_self
      obtain ⟨e', mem', about, same⟩ := last_entry (Nat.lt_of_le_of_lt (Nat.zero_le _) above)
      obtain rfl := SeqLog.eq_of_number there mem' (last.trans same.symm)
      obtain ⟨g, found, rest⟩ := was.reads_last there (flight.low x there beyond) about last
      refine .inr ⟨g, List.mem_append_right _ ?_, rest⟩
      rw [found]
      exact List.mem_singleton.2 rfl
    · exact .inl ⟨x, later, last⟩
  · exact .inr ⟨g, List.mem_append_left _ mem, rest⟩

end Covers

/-- The batch is ready: the last row of an account in the window is in it. -/
theorem Covers.ready {cursor high : Nat} {got : List Got}
    (covers : Covers past db ⟨cursor, .ready got high⟩) (above : cursor < versionOf db a)
    (below : versionOf db a ≤ high) :
    ∃ g ∈ got, subjectOf g.change = some a ∧ seqOf g.change = versionOf db a ∧
      UpToDate past db a (shownBy g.change) := by
  rcases covers a above below with ⟨e, mem, -⟩ | read
  · exact absurd mem List.not_mem_nil
  · exact read

/-! ## What a batch shows -/

/-- The last change of an account in a batch is what is shown. -/
theorem shows_apply_last {got : List Got} {g : Got} (mem : g ∈ got)
    (of : subjectOf g.change = some a)
    (sorted : (got.map fun g => seqOf g.change).Pairwise (· < ·))
    (last : ∀ g' ∈ got, subjectOf g'.change = some a → seqOf g'.change ≤ seqOf g.change)
    (s : AppState) : shows a (apply s (got.map Got.change)) = shownBy g.change := by
  obtain ⟨early, late, rfl⟩ := List.append_of_mem mem
  rw [List.map_append, List.map_cons, List.pairwise_append] at sorted
  have after := (List.pairwise_cons.1 sorted.2.1).1
  rw [List.map_append, List.map_cons, apply, List.foldl_append, List.foldl_cons]
  refine (shows_apply_other (fun g' later of' => ?_) _).trans ?_
  · have upTo := last g' (List.mem_append_right _ (List.mem_cons_of_mem _ later)) of'
    have beyond := after _ (List.mem_map_of_mem later)
    omega
  · rw [shows_applyChange, if_pos of]

theorem le_lastSeq {got : List Got} {g : Got} {n : Nat} (mem : g ∈ got)
    (sorted : (got.map fun g => seqOf g.change).Pairwise (· < ·)) :
    seqOf g.change ≤ lastSeq got n := by
  obtain ⟨before, last, rfl⟩ := List.eq_nil_or_concat got |>.resolve_left (List.ne_nil_of_mem mem)
  rw [List.concat_eq_append] at mem sorted ⊢
  rw [lastSeq, List.getLast?_concat, Option.map_some, Option.getD_some]
  rcases List.mem_append.1 mem with early | here
  · rw [List.map_append, List.pairwise_append] at sorted
    exact Nat.le_of_lt (sorted.2.2 _ (List.mem_map_of_mem early) _
      (List.mem_map_of_mem (List.mem_singleton.2 rfl)))
  · rw [List.mem_singleton.1 here]

/-- A last number is one of the batch's, or the number before. -/
theorem lastSeq_le {got : List Got} {n high : Nat} (low : n ≤ high)
    (each : ∀ g ∈ got, seqOf g.change ≤ high) : lastSeq got n ≤ high := by
  unfold lastSeq
  cases last : got.getLast? with
  | none => exact low
  | some g => exact each g (List.mem_of_getLast? last)

/-! ## Behind the lead -/

/-- What the lead has passed is up to date, and the main feed leaves it alone. -/
structure Level (base : Nat) (s : Led) : Prop where
  sound : Sound base s
  started : ∀ n, s.tails.phase = .started n → ∀ a, versionOf s.db a ≤ n →
    UpToDate s.past s.db a (shows a s.tails.state)
  covers : s.tails.phase = .live → Covers s.past s.db s.tails.lead
  seq : s.tails.phase = .live → s.tails.leadSeq ≤ s.tails.lead.cursor
  level : s.tails.phase = .live → ∀ a, versionOf s.db a ≤ s.tails.lead.cursor →
    versionOf s.db a ≤ s.tails.leadSeq ∧ UpToDate s.past s.db a (shows a s.tails.state)
  shown : s.tails.phase = .live → s.published.getLast? = some (s.tails.state, s.tails.seq)

namespace Level

variable {s s' : Led}

theorem start (db : Db) : Level db.changes.counter (Led.start db) where
  sound := .start db
  started := fun n phase => by cases phase
  covers := fun live => by cases live
  seq := fun live => by cases live
  level := fun live => by cases live
  shown := fun live => by cases live

theorem commit (level : Level base s) (told : Announced s.db db')
    (sound : Sound base (s.commit db')) : Level base (s.commit db') where
  sound := sound
  started := by
    intro n phase a small
    have reached := (level.sound.from_ n (.inr phase)).2
    have kept := version_kept told (Nat.le_trans small reached)
    exact (level.started n phase a (kept ▸ small)).commit told (Nat.le_trans small reached)
  covers := fun live => (level.covers live).commit told (level.sound.feeds live).1.reached
  seq := level.seq
  level := by
    intro live a small
    have flight := (level.sound.feeds live).1
    have reached := Nat.le_trans small (Nat.le_trans flight.upTo flight.reached)
    have kept := version_kept told reached
    obtain ⟨below, fresh⟩ := level.level live a (kept ▸ small)
    exact ⟨kept.trans_le below, fresh.commit told reached⟩
  shown := level.shown

/-- The lead goes on in its window. -/
theorem within {f : Feed} (level : Level base s) (live : s.tails.phase = .live)
    (sound : Sound base { s with tails := { s.tails with lead := f } })
    (cursor : f.cursor = s.tails.lead.cursor) (covers : Covers s.past s.db f) :
    Level base { s with tails := { s.tails with lead := f } } where
  sound := sound
  started := level.started
  covers := fun _ => covers
  seq := fun _ => (level.seq live).trans_eq cursor.symm
  level := fun _ a small => level.level live a (cursor ▸ small)
  shown := level.shown

/-- The lead reads on. -/
theorem lead {f : Feed} (level : Level base s) (live : s.tails.phase = .live)
    (went : s.tails.lead.query s.db leadKinds = some f ∨ s.tails.lead.heads s.db = some f ∨
      s.tails.lead.read s.db = some f)
    (sound : Sound base { s with tails := { s.tails with lead := f } }) :
    Level base { s with tails := { s.tails with lead := f } } := by
  have covers := level.covers live
  have flight := (level.sound.feeds live).1
  rcases went with went | went | went
  · refine level.within live sound ?_ (covers.query went)
    unfold Feed.query at went
    split at went
    · split at went <;> exact Option.some.inj went ▸ rfl
    · cases went
  · refine level.within live sound ?_ (covers.heads went)
    unfold Feed.heads at went
    split at went
    · exact Option.some.inj went ▸ rfl
    · cases went
  · unfold Feed.read at went
    split at went
    · next heads e rows got high stage =>
        obtain ⟨cursor, at_⟩ : ∃ cursor, s.tails.lead = ⟨cursor, .reading heads (e :: rows) got high⟩ :=
          ⟨s.tails.lead.cursor, by rw [← stage]⟩
        rw [at_] at covers flight
        have next := covers.read_got level.sound.past flight
        dsimp only at went
        split at went
        · obtain rfl := Option.some.inj went
          exact level.within live sound rfl (by rw [at_]; exact next)
        · next done =>
            rw [not_not] at done
            subst done
            split at went
            · next empty =>
                -- every row of the window was passed over: none was an account's last
                obtain rfl := Option.some.inj went
                rw [empty] at next
                have reached : cursor ≤ high := flight.upTo
                have low : s.tails.leadSeq ≤ cursor := by
                  have low := level.seq live
                  rwa [at_] at low
                refine ⟨sound, level.started, fun _ => Covers.idle, fun _ => Nat.le_trans low reached,
                  fun _ a small => level.level live a ?_, level.shown⟩
                rw [at_]
                refine Nat.not_lt.1 fun above => ?_
                rcases next a above small with ⟨_, mem, -⟩ | ⟨_, mem, -⟩
                · exact absurd mem List.not_mem_nil
                · exact absurd mem List.not_mem_nil
            · obtain rfl := Option.some.inj went
              exact level.within live sound rfl (by rw [at_]; exact next)
    · cases went

/-- **The lead applies a batch**, and is level with all it has passed. -/
theorem deliverLead {got : List Got} {high : Nat} (level : Level base s)
    (live : s.tails.phase = .live) (stage : s.tails.lead.stage = .ready got high)
    (sound : Sound base (s.publish (s.tails.deliverLead got high))) :
    Level base (s.publish (s.tails.deliverLead got high)) := by
  have covers := level.covers live
  have flight := (level.sound.feeds live).1
  have low := level.seq live
  obtain ⟨cursor, at_⟩ : ∃ cursor, s.tails.lead = ⟨cursor, .ready got high⟩ :=
    ⟨s.tails.lead.cursor, by rw [← stage]⟩
  rw [at_] at covers flight low
  have low : s.tails.leadSeq ≤ cursor := low
  have sorted : (got.map fun g => seqOf g.change).Pairwise (· < ·) :=
    flight.order.sublist (List.sublist_append_left _ _)
  -- a change of an account is not later than the account's last row
  have upTo : ∀ g ∈ got, ∀ a, subjectOf g.change = some a → seqOf g.change ≤ versionOf s.db a := by
    intro g mem a of
    obtain ⟨e, there, same, about⟩ := (flight.got g mem).2.2.2 a of
    exact same ▸ le_versionOf there about
  have within : ∀ g ∈ got, seqOf g.change ≤ high := fun g mem => (flight.got g mem).2.1
  have reached : cursor ≤ high := flight.upTo
  refine ⟨sound, fun n phase => absurd (live.symm.trans phase) (by simp), fun _ => Covers.idle,
    fun _ => lastSeq_le (Nat.le_trans low reached) within, fun _ a small => ?_, fun _ => ?_⟩
  · by_cases passed : versionOf s.db a ≤ cursor
    · obtain ⟨below, fresh⟩ := level.level live a (by rw [at_]; exact passed)
      have none : ∀ g ∈ got, subjectOf g.change ≠ some a := by
        intro g mem of
        have above : cursor < seqOf g.change := (flight.got g mem).1
        have last := upTo g mem a of
        omega
      refine ⟨Nat.le_trans below ?_, ?_⟩
      · cases empty : got with
        | nil => exact Nat.le_refl _
        | cons g rest =>
            have mem : g ∈ got := empty ▸ List.mem_cons_self
            have above : cursor < seqOf g.change := (flight.got g mem).1
            have last := le_lastSeq (n := s.tails.leadSeq) mem sorted
            show s.tails.leadSeq ≤ lastSeq (g :: rest) s.tails.leadSeq
            rw [← empty]
            omega
      · show UpToDate _ _ _ (shows a (App.apply s.tails.state (got.map Got.change)))
        rw [shows_apply_other none]
        exact fresh
    · obtain ⟨g, mem, of, seq, fresh⟩ := covers.ready (Nat.not_le.1 passed) small
      refine ⟨seq ▸ le_lastSeq mem sorted, ?_⟩
      show UpToDate _ _ _ (shows a (App.apply s.tails.state (got.map Got.change)))
      rw [shows_apply_last mem of sorted fun g' mem' of' => seq ▸ upTo g' mem' a of']
      exact fresh
  · exact List.getLast?_concat

/-- **The main feed applies a batch**, and leaves alone what the lead has passed. -/
theorem deliverMain {got : List Got} {high : Nat} (level : Level base s)
    (live : s.tails.phase = .live) (stage : s.tails.main.stage = .ready got high)
    (sound : Sound base (s.publish (s.tails.deliverMain got high))) :
    Level base (s.publish (s.tails.deliverMain got high)) := by
  have flight := (level.sound.feeds live).2
  obtain ⟨cursor, at_⟩ : ∃ cursor, s.tails.main = ⟨cursor, .ready got high⟩ :=
    ⟨s.tails.main.cursor, by rw [← stage]⟩
  rw [at_] at flight
  refine ⟨sound, fun n phase => absurd (live.symm.trans phase) (by simp),
    fun _ => level.covers live, fun _ => level.seq live, fun _ a small => ?_,
    fun _ => List.getLast?_concat⟩
  obtain ⟨below, fresh⟩ := level.level live a small
  have none : ∀ g ∈ unled s.tails.leadSeq got, subjectOf g.change ≠ some a := by
    intro g mem of
    obtain ⟨inBatch, kept⟩ := List.mem_filter.1 mem
    obtain ⟨e, there, same, about⟩ := (flight.got g inBatch).2.2.2 a of
    have last := le_versionOf there about
    have led : kindOf g.change ∈ leadKinds := by
      cases change : g.change <;> simp_all [subjectOf, kindOf, leadKinds]
    simp only [led, decide_true, Bool.not_true, Bool.or_false, decide_eq_true_eq] at kept
    omega
  refine ⟨below, ?_⟩
  show UpToDate _ _ _ (shows a (App.apply s.tails.state ((unled s.tails.leadSeq got).map _)))
  rw [shows_apply_other none]
  exact fresh

theorem step {a : LedAct} (level : Level base s) (moved : Moved s a s') : Level base s' := by
  have sound := level.sound.step moved
  cases moved with
  | same still => exact still ▸ level
  | commit db' told next =>
      subst next
      exact level.commit told sound
  | lead live f went next =>
      subst next
      exact level.lead live went sound
  | main live f went next =>
      subst next
      exact ⟨sound, level.started, level.covers, level.seq, level.level, level.shown⟩
  | heading next =>
      subst next
      exact ⟨sound, fun n phase => (by cases phase), fun live => (by cases live),
        fun live => (by cases live), fun live => (by cases live), fun live => (by cases live)⟩
  | init leadFrom phase next =>
      subst next
      refine ⟨sound, fun n _ a _ => ?_, fun live => (by cases live),
        fun live => (by cases live), fun live => (by cases live), fun live => (by cases live)⟩
      exact shows_init a s.db ▸ .now level.sound.past
  | live leadFrom phase next =>
      subst next
      exact ⟨sound, fun n phase => (by cases phase), fun _ => Covers.idle, fun _ => Nat.le_refl _,
        fun _ a small => ⟨small, level.started leadFrom phase a small⟩,
        fun _ => List.getLast?_concat⟩
  | deliverLead act live got high stage next =>
      subst next
      exact level.deliverLead live stage sound
  | deliverMain act live got high stage next =>
      subst next
      exact level.deliverMain live stage sound
  | retry next =>
      subst next
      exact ⟨sound, fun n phase => (by cases phase), fun live => (by cases live),
        fun live => (by cases live), fun live => (by cases live), fun live => (by cases live)⟩

end Level

/-! ## Whole runs -/

/-- No row of the log is left for either feed. -/
def BothCaughtUp (s : Led) : Prop :=
  s.tails.phase = .live ∧ s.tails.lead.stage = .idle ∧ s.tails.main.stage = .idle ∧
    ∀ e ∈ s.db.changes.entries, e.1 ≤ s.tails.main.cursor ∧
      (e.2.kind ∈ leadKinds → e.1 ≤ s.tails.lead.cursor)

instance (s : Led) : Decidable (BothCaughtUp s) := inferInstanceAs (Decidable (_ ∧ _ ∧ _ ∧ _))

instance (s : Led) : (a : LedAct) → Decidable (Clear s a)
  | .deliver true =>
      match stage : s.tails.lead.stage with
      | .ready got _ => decidable_of_iff (InOrder s.db.changes s.tails.reads got)
          (by simp only [Clear, stage])
      | .idle | .queried _ | .reading .. => .isTrue (by simp only [Clear, stage])
  | .deliver false =>
      match stage : s.tails.main.stage with
      | .ready got _ => decidable_of_iff
          (InOrder s.db.changes s.tails.reads (unled s.tails.leadSeq got))
          (by simp only [Clear, stage])
      | .idle | .queried _ | .reading .. => .isTrue (by simp only [Clear, stage])
  | .commit .. | .connect .. | .write .. | .head | .init | .live | .query _ | .heads _ | .read _
  | .retry => .isTrue trivial

/-- One feed reads a window of one row and applies it. -/
def whole (lead : Bool) : List LedAct := [.query lead, .heads lead, .read lead, .deliver lead]

def progressOf (status : Option String) : CommitBatch :=
  .account ⟨mailbox, [], none, none, status, some ⟨7, none, none⟩, none, none, none⟩

/-- An account is connected during `init`, then paused. -/
def ledRun : List LedAct :=
  [.head, .connect 0 "mail" "me", .init, .live] ++ whole true ++
    [.commit 1 none (progressOf (some "paused"))] ++ whole true ++ whole false

/-- The lead reads one account, the account is paused, the main feed shows it, and the lead
applies its batch. -/
def backRun : List LedAct :=
  [.head, .connect 0 "mail" "me", .connect 0 "mail" "you", .init, .live,
    .query true, .heads true, .read true, .commit 1 none (progressOf (some "paused"))] ++
      whole false ++ [.read true, .deliver true]

/-- A commit of sync progress within a minute of the last one that was announced. -/
def unannouncedRun : List LedAct :=
  [.head, .connect 0 "mail" "me", .init, .live] ++ whole true ++
    [.commit 100 (some 90) (progressOf none)]

end Kiagent.App
