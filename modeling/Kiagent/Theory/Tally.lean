/-
# Theory.Tally -- counting members from a log that names them

A store keeps members in groups and a numbered log.  An entry of the log only names a
member: who reads it sees the member as it is by then.  A reader walks the log and keeps,
for each group it has seen, how many of its members are live.  It tells a new member by
the number of its first entry, and a member that comes and goes by a set of those it has
put aside.

`Sound` is what holds of the store and its log after any writes, `Agrees` what holds of
the reader beside them.  Every `Move` of the store and every `read` keeps both, and a
reader that has read the whole log counts exactly (`Agrees.count_eq`).

A member that is purged leaves no trace for a reader that still counts it, so a move may
purge only a member the reader is done with; and what a move logs it logs ahead of the
reader.
-/
import Mathlib

namespace Kiagent.Theory.Tally

set_option autoImplicit false
set_option linter.unusedSectionVars false

universe u v

variable {κ : Type u} {γ : Type v}

/-! ## The store and its log -/

/-- `first` is the number of the entry that inserted the member, `seq` that of its last. -/
structure Member (γ : Type v) where
  group : γ
  first : ℕ
  seq : ℕ
  live : Bool

inductive Event (κ : Type u) (γ : Type v) where
  | member (x : κ)
  | purged (x : κ)
  | group (a : γ)
  | dropped (a : γ)

abbrev Log (κ : Type u) (γ : Type v) := ℕ → Option (Event κ γ)

structure Chronicle (κ : Type u) (γ : Type v) where
  member : κ → Option (Member γ)
  group : γ → Bool
  log : Log κ γ

/-- What one entry says of a member or its group. -/
def Event.Concerns (x : κ) (a : γ) : Event κ γ → Prop
  | .member y => y = x
  | .purged y => y = x
  | .group b => b = a
  | .dropped b => b = a

namespace Log

/-- The number is above every entry. -/
def Beyond (log : Log κ γ) (n : ℕ) : Prop := ∀ m e, log m = some e → m < n

/-- The number is above every entry about a member and its group. -/
def Later (log : Log κ γ) (n : ℕ) (x : κ) (a : γ) : Prop :=
  ∀ m e, log m = some e → e.Concerns x a → m < n

def note (log : Log κ γ) (n : ℕ) (e : Event κ γ) : Log κ γ := Function.update log n (some e)

variable {log : Log κ γ} {n m : ℕ} {e e' : Event κ γ}

theorem Beyond.free (beyond : log.Beyond n) : log n = none := by
  by_contra taken
  obtain ⟨e, here⟩ := Option.ne_none_iff_exists'.1 taken
  exact absurd (beyond n e here) (lt_irrefl n)

theorem Beyond.later (beyond : log.Beyond n) (x : κ) (a : γ) : log.Later n x a :=
  fun m e here _ => beyond m e here

/-- An entry of the noted log is the new one or an old one. -/
theorem note_cases (here : log.note n e m = some e') : (m = n ∧ e' = e) ∨ log m = some e' := by
  unfold note at here
  by_cases same : m = n
  · subst same
    rw [Function.update_self] at here
    exact .inl ⟨rfl, (Option.some.inj here).symm⟩
  · rw [Function.update_of_ne same] at here
    exact .inr here

/-- An entry of another kind is an old one. -/
theorem note_old (here : log.note n e m = some e') (other : e' ≠ e) : log m = some e' := by
  rcases note_cases here with ⟨-, new⟩ | old
  · exact absurd new other
  · exact old

theorem note_self (log : Log κ γ) (n : ℕ) (e : Event κ γ) : log.note n e n = some e :=
  Function.update_self ..

theorem note_keeps (free : log n = none) (here : log m = some e') : log.note n e m = some e' := by
  have ne : m ≠ n := by
    rintro rfl
    rw [free] at here
    cases here
  rw [note, Function.update_of_ne ne]
  exact here

end Log

/-! ## What holds of the store and its log -/

/-- What holds of a member and the entries above `done`.  `home x a`: members named `x`
belong to `a`. -/
structure Present (home : κ → γ → Prop) (log : Log κ γ) (done : ℕ) (x : κ) (m : Member γ) :
    Prop where
  home_group : home x m.group
  le : m.first ≤ m.seq
  first : done < m.first → log m.first = some (.member x)
  last : done < m.seq → log m.seq = some (.member x)
  /-- Its last entry is the last that names it. -/
  upper : ∀ n, done < n → log n = some (.member x) → n ≤ m.seq
  /-- It was purged, if ever, before it came. -/
  purged : ∀ n, done < n → log n = some (.purged x) → n < m.first
  /-- An entry from before it came is closed by a purge or by the end of its group. -/
  former : ∀ n, done < n → log n = some (.member x) → n < m.first →
    ∃ k, n < k ∧ k < m.first ∧ (log k = some (.purged x) ∨ log k = some (.dropped m.group))

/-- Every entry of a member that is gone is closed. -/
def Absent (home : κ → γ → Prop) (log : Log κ γ) (done : ℕ) (x : κ) : Prop :=
  ∀ n, done < n → log n = some (.member x) →
    ∃ k, n < k ∧ (log k = some (.purged x) ∨ ∃ a, home x a ∧ log k = some (.dropped a))

/-- A group was announced after its last end and before its members. -/
def Announced (c : Chronicle κ γ) (done : ℕ) (a : γ) (k : ℕ) : Prop :=
  done < k ∧ c.log k = some (.group a) ∧ (∀ n, done < n → c.log n = some (.dropped a) → n < k) ∧
    ∀ x m, c.member x = some m → m.group = a → k < m.first

/-- A group that no entry ends. -/
def Standing (log : Log κ γ) (done : ℕ) (a : γ) : Prop := ∀ n, done < n → log n ≠ some (.dropped a)

structure Sound (home : κ → γ → Prop) (done : ℕ) (c : Chronicle κ γ) : Prop where
  finite : {x | (c.member x).isSome}.Finite
  grouped : ∀ x m, c.member x = some m → c.group m.group = true
  present : ∀ x m, c.member x = some m → Present home c.log done x m
  absent : ∀ x, c.member x = none → Absent home c.log done x
  announced : ∀ a, c.group a = true → Standing c.log done a ∨ ∃ k, Announced c done a k

theorem Announced.mono {c : Chronicle κ γ} {done n : ℕ} {a : γ} {k : ℕ}
    (announced : Announced c done a k) (later : done ≤ n) (after : n < k) : Announced c n a k := by
  obtain ⟨-, here, ends, members⟩ := announced
  exact ⟨after, here, fun m beyond => ends m (later.trans_lt beyond), members⟩

/-- What holds of the entries above a number holds of those above a later one. -/
theorem Sound.mono {home : κ → γ → Prop} {c : Chronicle κ γ} {done n : ℕ} (sound : Sound home done c)
    (later : done ≤ n) : Sound home n c where
  finite := sound.finite
  grouped := sound.grouped
  present x m there :=
    let present := sound.present x m there
    { home_group := present.home_group
      le := present.le
      first := fun after => present.first (later.trans_lt after)
      last := fun after => present.last (later.trans_lt after)
      upper := fun k after => present.upper k (later.trans_lt after)
      purged := fun k after => present.purged k (later.trans_lt after)
      former := fun k after => present.former k (later.trans_lt after) }
  absent x gone k after := sound.absent x gone k (later.trans_lt after)
  announced a there := by
    rcases sound.announced a there with standing | ⟨k, announced⟩
    · exact .inl fun k after => standing k (later.trans_lt after)
    · rcases lt_or_ge n k with after | read
      · exact .inr ⟨k, announced.mono later after⟩
      · refine .inl fun j after ended => ?_
        have := announced.2.2.1 j (later.trans_lt after) ended
        omega

/-- Any store, with nothing logged above its members' numbers. -/
theorem Sound.start {home : κ → γ → Prop} {c : Chronicle κ γ} {high : ℕ}
    (finite : {x | (c.member x).isSome}.Finite)
    (grouped : ∀ x m, c.member x = some m → c.group m.group = true)
    (member : ∀ x m, c.member x = some m → home x m.group ∧ m.first ≤ m.seq ∧ m.seq ≤ high)
    (whole : ∀ n e, c.log n = some e → n ≤ high) : Sound home high c where
  finite := finite
  grouped := grouped
  present x m there := by
    obtain ⟨home_group, le, low⟩ := member x m there
    constructor
    case home_group => exact home_group
    case le => exact le
    case first => exact fun after => absurd after (by omega)
    case last => exact fun after => absurd after (by omega)
    case upper => exact fun n after here => absurd after (not_lt.2 (whole n _ here))
    case purged => exact fun n after here => absurd after (not_lt.2 (whole n _ here))
    case former => exact fun n after here => absurd after (not_lt.2 (whole n _ here))
  absent x _ n after here := absurd after (not_lt.2 (whole n _ here))
  announced a _ := .inl fun n after here => absurd after (not_lt.2 (whole n _ here))

section Noted

variable {home : κ → γ → Prop} {log : Log κ γ} {done n : ℕ} {e : Event κ γ} {x : κ}

theorem Present.note {m : Member γ} (present : Present home log done x m) (free : log n = none)
    (named : e ≠ .member x) (alive : e ≠ .purged x) : Present home (log.note n e) done x m where
  home_group := present.home_group
  le := present.le
  first after := Log.note_keeps free (present.first after)
  last after := Log.note_keeps free (present.last after)
  upper k after here := present.upper k after (Log.note_old here named.symm)
  purged k after here := present.purged k after (Log.note_old here alive.symm)
  former k after here before := by
    obtain ⟨j, lower, upper, closes⟩ := present.former k after (Log.note_old here named.symm) before
    exact ⟨j, lower, upper, closes.imp (Log.note_keeps free) (Log.note_keeps free)⟩

theorem Absent.note (absent : Absent home log done x) (free : log n = none)
    (named : e ≠ .member x) : Absent home (log.note n e) done x := by
  intro k after here
  obtain ⟨j, lower, closes⟩ := absent k after (Log.note_old here named.symm)
  refine ⟨j, lower, closes.imp (Log.note_keeps free) ?_⟩
  rintro ⟨a, home_a, ends⟩
  exact ⟨a, home_a, Log.note_keeps free ends⟩

theorem Standing.note {a : γ} (standing : Standing log done a) (open_group : e ≠ .dropped a) :
    Standing (log.note n e) done a :=
  fun k after ended => standing k after (Log.note_old ended open_group.symm)

end Noted

section Put

variable [DecidableEq κ]

/-- A member found after one was put is that one, or was there. -/
theorem put_cases {member : κ → Option (Member γ)} {x y : κ} {m : Option (Member γ)} {m' : Member γ}
    (there : Function.update member x m y = some m') :
    (y = x ∧ m = some m') ∨ (y ≠ x ∧ member y = some m') := by
  by_cases same : y = x
  · subst same
    rw [Function.update_self] at there
    exact .inl ⟨rfl, there⟩
  · rw [Function.update_of_ne same] at there
    exact .inr ⟨same, there⟩

theorem put_finite {member : κ → Option (Member γ)} (finite : {x | (member x).isSome}.Finite)
    (x : κ) (m : Option (Member γ)) : {y | (Function.update member x m y).isSome}.Finite := by
  refine (finite.insert x).subset fun y there => ?_
  obtain ⟨m', there⟩ := Option.isSome_iff_exists.1 there
  rcases put_cases there with ⟨rfl, -⟩ | ⟨-, old⟩
  · exact Set.mem_insert _ _
  · exact Set.mem_insert_of_mem _ (Option.isSome_iff_exists.2 ⟨m', old⟩)

end Put

theorem Announced.note {c : Chronicle κ γ} {done : ℕ} {a : γ} {k n : ℕ} {e : Event κ γ}
    (announced : Announced c done a k) (free : c.log n = none) (open_group : e ≠ .dropped a)
    {member : κ → Option (Member γ)} {group : γ → Bool}
    (later : ∀ x m, member x = some m → m.group = a →
      (∃ m', c.member x = some m' ∧ m'.group = a ∧ m'.first = m.first) ∨ k < m.first) :
    Announced ⟨member, group, c.log.note n e⟩ done a k := by
  obtain ⟨after, here, ends, members⟩ := announced
  refine ⟨after, Log.note_keeps free here,
    fun j beyond ended => ends j beyond (Log.note_old ended open_group.symm), ?_⟩
  intro x m there group
  rcases later x m there group with ⟨m', old, group', first⟩ | above
  · exact first ▸ members x m' old group'
  · exact above

/-- A group that stands, or was announced, still does after an entry that does not end it. -/
theorem announced_note {c : Chronicle κ γ} {done : ℕ} {a : γ} {n : ℕ} {e : Event κ γ}
    (announced : Standing c.log done a ∨ ∃ k, Announced c done a k) (free : c.log n = none)
    (open_group : e ≠ .dropped a) {member : κ → Option (Member γ)} {group : γ → Bool}
    (later : ∀ x m, member x = some m → m.group = a →
      (∃ m', c.member x = some m' ∧ m'.group = a ∧ m'.first = m.first) ∨
        ∀ k, Announced c done a k → k < m.first) :
    Standing (c.log.note n e) done a ∨
      ∃ k, Announced ⟨member, group, c.log.note n e⟩ done a k := by
  rcases announced with standing | ⟨k, announced⟩
  · exact .inl (standing.note open_group)
  · exact .inr ⟨k, announced.note free open_group fun x m there group =>
      (later x m there group).imp id fun above => above k announced⟩

/-! ## What the store can do -/

section Moves

variable [DecidableEq κ] [DecidableEq γ]

/-- One write, as a reader can follow it that has read up to `done` and holds the entries
up to `high`. -/
inductive Move (home : κ → γ → Prop) (done high : ℕ) (c : Chronicle κ γ) : Chronicle κ γ → Prop
  | same : Move home done high c c
  | past (n : ℕ) (e : Event κ γ) (read : n ≤ done) :
      Move home done high c ⟨c.member, c.group, c.log.note n e⟩
  | grouped (a : γ) (n : ℕ) (beyond : c.log.Beyond n) (unread : high < n) :
      Move home done high c
        ⟨c.member, Function.update c.group a true, c.log.note n (.group a)⟩
  | inserted (x : κ) (m : Member γ) (absent : c.member x = none) (group : c.group m.group = true)
      (home_group : home x m.group) (first : m.first = m.seq) (free : c.log m.seq = none)
      (unread : high < m.seq) (later : c.log.Later m.seq x m.group) :
      Move home done high c
        ⟨Function.update c.member x (some m), c.group, c.log.note m.seq (.member x)⟩
  | touched (x : κ) (m m' : Member γ) (there : c.member x = some m) (group : m'.group = m.group)
      (first : m'.first = m.first) (free : c.log m'.seq = none) (unread : high < m'.seq)
      (later : m.seq < m'.seq) :
      Move home done high c
        ⟨Function.update c.member x (some m'), c.group, c.log.note m'.seq (.member x)⟩
  | purged (x : κ) (m : Member γ) (n : ℕ) (there : c.member x = some m) (dead : m.live = false)
      (read : m.seq ≤ done) (beyond : c.log.Beyond n) (unread : high < n) :
      Move home done high c ⟨Function.update c.member x none, c.group, c.log.note n (.purged x)⟩
  | dropped (a : γ) (n : ℕ) (beyond : c.log.Beyond n) (unread : high < n) :
      Move home done high c
        ⟨fun x => (c.member x).filter fun m => m.group ≠ a, Function.update c.group a false,
          c.log.note n (.dropped a)⟩

variable {home : κ → γ → Prop} {c c' : Chronicle κ γ} {done high : ℕ}

/-- Only the entries above `done` matter. -/
theorem Sound.of_log (sound : Sound home done c) {log : Log κ γ}
    (same : ∀ n, done < n → log n = c.log n) : Sound home done ⟨c.member, c.group, log⟩ where
  finite := sound.finite
  grouped := sound.grouped
  present x m there :=
    let present := sound.present x m there
    { home_group := present.home_group
      le := present.le
      first := fun after => (same _ after).trans (present.first after)
      last := fun after => (same _ after).trans (present.last after)
      upper := fun n after here => present.upper n after ((same n after).symm.trans here)
      purged := fun n after here => present.purged n after ((same n after).symm.trans here)
      former := fun n after here before => by
        obtain ⟨k, lower, upper, closes⟩ :=
          present.former n after ((same n after).symm.trans here) before
        refine ⟨k, lower, upper, ?_⟩
        show log k = _ ∨ log k = _
        rw [same k (after.trans lower)]
        exact closes }
  absent x gone n after here := by
    obtain ⟨k, lower, closes⟩ := sound.absent x gone n after ((same n after).symm.trans here)
    refine ⟨k, lower, ?_⟩
    show log k = _ ∨ ∃ a, _ ∧ log k = _
    rw [same k (after.trans lower)]
    exact closes
  announced a there := by
    refine (sound.announced a there).imp (fun standing n after ended => ?_) ?_
    · exact standing n after ((same n after).symm.trans ended)
    · rintro ⟨k, after, here, ends, members⟩
      exact ⟨k, after, (same k after).trans here,
        fun n after ended => ends n after ((same n after).symm.trans ended), members⟩

theorem Log.note_other (log : Log κ γ) {n m : ℕ} (e : Event κ γ) (other : m ≠ n) :
    log.note n e m = log m :=
  Function.update_of_ne other _ _

theorem Sound.group (sound : Sound home done c) {a : γ} {n : ℕ} (beyond : c.log.Beyond n)
    (unread : done < n) :
    Sound home done ⟨c.member, Function.update c.group a true, c.log.note n (.group a)⟩ := by
  have free := beyond.free
  constructor
  case finite => exact sound.finite
  case grouped =>
    intro x m there
    show Function.update c.group a true m.group = true
    by_cases same : m.group = a
    · rw [same, Function.update_self]
    · rw [Function.update_of_ne same]
      exact sound.grouped x m there
  case present => exact fun x m there => (sound.present x m there).note free nofun nofun
  case absent => exact fun x gone => (sound.absent x gone).note free nofun
  case announced =>
    intro b there
    by_cases known : c.group b = true
    · exact announced_note (sound.announced b known) free (by simp)
        fun x m there group => .inl ⟨m, there, group, rfl⟩
    · -- a new group has no members
      have same : b = a := by
        by_contra ne
        have there : Function.update c.group a true b = true := there
        rw [Function.update_of_ne ne] at there
        exact known there
      subst same
      refine .inr ⟨n, unread, Log.note_self _ _ _, fun k _ ended => ?_, fun x m member group => ?_⟩
      · exact beyond k _ (Log.note_old ended nofun)
      · exact absurd (group ▸ sound.grouped x m member) known

theorem Sound.insert (unique : ∀ x a b, home x a → home x b → a = b) (sound : Sound home done c)
    {x : κ} {m : Member γ} (absent : c.member x = none) (group : c.group m.group = true)
    (home_group : home x m.group) (first : m.first = m.seq) (free : c.log m.seq = none)
    (later : c.log.Later m.seq x m.group) :
    Sound home done ⟨Function.update c.member x (some m), c.group, c.log.note m.seq (.member x)⟩ := by
  constructor
  case finite => exact put_finite sound.finite x (some m)
  case grouped =>
    intro y m' there
    rcases put_cases there with ⟨-, new⟩ | ⟨-, old⟩
    · obtain rfl := Option.some.inj new
      exact group
    · exact sound.grouped y m' old
  case present =>
    intro y m' there
    rcases put_cases there with ⟨rfl, new⟩ | ⟨ne, old⟩
    · obtain rfl := Option.some.inj new
      have named : c.log.note m.seq (.member y) m.seq = some (.member y) := Log.note_self _ _ _
      constructor
      case home_group => exact home_group
      case le => exact first.le
      case first => exact fun _ => by rw [first]; exact named
      case last => exact fun _ => named
      case upper =>
        intro n after here
        rcases Log.note_cases here with ⟨rfl, -⟩ | old
        · exact le_rfl
        · exact (later n _ old rfl).le
      case purged =>
        intro n after here
        rw [first]
        exact later n _ (Log.note_old here nofun) rfl
      case former =>
        intro n after here before
        rcases Log.note_cases here with ⟨rfl, -⟩ | old
        · exact absurd before (first ▸ lt_irrefl m.first)
        · obtain ⟨k, lower, closes⟩ := sound.absent y absent n after old
          rcases closes with purged | ⟨a, home_a, ends⟩
          · exact ⟨k, lower, first ▸ later k _ purged rfl, .inl (Log.note_keeps free purged)⟩
          · obtain rfl := unique y a m.group home_a home_group
            exact ⟨k, lower, first ▸ later k _ ends rfl, .inr (Log.note_keeps free ends)⟩
    · exact (sound.present y m' old).note free (fun same => ne (Event.member.inj same).symm) nofun
  case absent =>
    intro y gone
    have gone : Function.update c.member x (some m) y = none := gone
    have ne : y ≠ x := by
      rintro rfl
      rw [Function.update_self] at gone
      cases gone
    rw [Function.update_of_ne ne] at gone
    exact (sound.absent y gone).note free fun same => ne (Event.member.inj same).symm
  case announced =>
    intro a there
    refine announced_note (sound.announced a there) free (by simp) fun y m' there group => ?_
    rcases put_cases there with ⟨rfl, new⟩ | ⟨-, old⟩
    · obtain rfl := Option.some.inj new
      exact .inr fun k announced => first ▸ later k _ announced.2.1 group.symm
    · exact .inl ⟨m', old, group, rfl⟩

theorem Sound.touch (sound : Sound home done c) {x : κ} {m m' : Member γ} (there : c.member x = some m)
    (group : m'.group = m.group) (first : m'.first = m.first) (free : c.log m'.seq = none)
    (later : m.seq < m'.seq) :
    Sound home done ⟨Function.update c.member x (some m'), c.group, c.log.note m'.seq (.member x)⟩ := by
  have present := sound.present x m there
  constructor
  case finite => exact put_finite sound.finite x (some m')
  case grouped =>
    intro y m'' there'
    rcases put_cases there' with ⟨-, new⟩ | ⟨-, old⟩
    · obtain rfl := Option.some.inj new
      exact group ▸ sound.grouped x m there
    · exact sound.grouped y m'' old
  case present =>
    intro y m'' there'
    rcases put_cases there' with ⟨rfl, new⟩ | ⟨ne, old⟩
    · obtain rfl := Option.some.inj new
      constructor
      case home_group => exact group ▸ present.home_group
      case le => exact first ▸ present.le.trans later.le
      case first =>
        exact fun after => first ▸ Log.note_keeps free (present.first (first ▸ after))
      case last => exact fun _ => Log.note_self _ _ _
      case upper =>
        intro n after here
        rcases Log.note_cases here with ⟨rfl, -⟩ | old
        · exact le_rfl
        · exact (present.upper n after old).trans later.le
      case purged =>
        exact fun n after here => first ▸ present.purged n after (Log.note_old here nofun)
      case former =>
        intro n after here before
        rcases Log.note_cases here with ⟨rfl, -⟩ | old
        · have := present.le
          omega
        · obtain ⟨k, lower, upper, closes⟩ := present.former n after old (first ▸ before)
          exact ⟨k, lower, first ▸ upper, closes.imp (Log.note_keeps free)
            fun ends => group ▸ Log.note_keeps free ends⟩
    · exact (sound.present y m'' old).note free (fun same => ne (Event.member.inj same).symm)
        nofun
  case absent =>
    intro y gone
    have gone : Function.update c.member x (some m') y = none := gone
    have ne : y ≠ x := by
      rintro rfl
      rw [Function.update_self] at gone
      cases gone
    rw [Function.update_of_ne ne] at gone
    exact (sound.absent y gone).note free fun same => ne (Event.member.inj same).symm
  case announced =>
    intro a there'
    refine announced_note (sound.announced a there') free (by simp)
      fun y m'' there'' group' => .inl ?_
    rcases put_cases there'' with ⟨rfl, new⟩ | ⟨-, old⟩
    · obtain rfl := Option.some.inj new
      exact ⟨m, there, group.symm.trans group', first.symm⟩
    · exact ⟨m'', old, group', rfl⟩

theorem Sound.purge (sound : Sound home done c) (x : κ) {n : ℕ} (beyond : c.log.Beyond n) :
    Sound home done ⟨Function.update c.member x none, c.group, c.log.note n (.purged x)⟩ := by
  have free := beyond.free
  constructor
  case finite => exact put_finite sound.finite x none
  case grouped =>
    intro y m' there'
    rcases put_cases there' with ⟨-, new⟩ | ⟨-, old⟩
    · cases new
    · exact sound.grouped y m' old
  case present =>
    intro y m' there'
    rcases put_cases there' with ⟨-, new⟩ | ⟨ne, old⟩
    · cases new
    · exact (sound.present y m' old).note free nofun fun same => ne (Event.purged.inj same).symm
  case absent =>
    intro y gone
    by_cases same : y = x
    · subst same
      exact fun k _ here => ⟨n, beyond k _ (Log.note_old here nofun), .inl (Log.note_self _ _ _)⟩
    · have gone : Function.update c.member x none y = none := gone
      rw [Function.update_of_ne same] at gone
      exact (sound.absent y gone).note free nofun
  case announced =>
    intro a there'
    refine announced_note (sound.announced a there') free (by simp)
      fun y m' there'' group' => .inl ?_
    rcases put_cases there'' with ⟨-, new⟩ | ⟨-, old⟩
    · cases new
    · exact ⟨m', old, group', rfl⟩

theorem Sound.drop (sound : Sound home done c) (a : γ) {n : ℕ} (beyond : c.log.Beyond n) :
    Sound home done ⟨fun x => (c.member x).filter fun m => m.group ≠ a, Function.update c.group a false,
      c.log.note n (.dropped a)⟩ := by
  have free := beyond.free
  have kept : ∀ x m, (c.member x).filter (fun m => m.group ≠ a) = some m →
      c.member x = some m ∧ m.group ≠ a := by
    intro x m there
    obtain ⟨there, other⟩ := Option.filter_eq_some_iff.1 there
    exact ⟨there, of_decide_eq_true other⟩
  constructor
  case finite =>
    refine sound.finite.subset fun x there => ?_
    obtain ⟨m, there⟩ := Option.isSome_iff_exists.1 there
    exact Option.isSome_iff_exists.2 ⟨m, (kept x m there).1⟩
  case grouped =>
    intro x m there
    obtain ⟨there, other⟩ := kept x m there
    show Function.update c.group a false m.group = true
    rw [Function.update_of_ne other]
    exact sound.grouped x m there
  case present =>
    exact fun x m there => (sound.present x m (kept x m there).1).note free nofun nofun
  case absent =>
    intro x gone
    have gone : (c.member x).filter (fun m => m.group ≠ a) = none := gone
    cases there : c.member x with
    | none => exact (sound.absent x there).note free nofun
    | some m =>
        rw [there] at gone
        have same : m.group = a := by
          by_contra other
          rw [Option.filter_some, if_pos (decide_eq_true other)] at gone
          cases gone
        intro k _ here
        refine ⟨n, beyond k _ (Log.note_old here nofun), .inr ⟨a, ?_, Log.note_self _ _ _⟩⟩
        exact same ▸ (sound.present x m there).home_group
  case announced =>
    intro b there
    have there : Function.update c.group a false b = true := there
    have other : b ≠ a := by
      rintro rfl
      rw [Function.update_self] at there
      cases there
    rw [Function.update_of_ne other] at there
    exact announced_note (sound.announced b there) free
      (fun same => other (Event.dropped.inj same).symm)
      fun x m there group => .inl ⟨m, (kept x m there).1, group, rfl⟩

/-- **Every move keeps a store sound.** -/
theorem Move.sound (unique : ∀ x a b, home x a → home x b → a = b) (sound : Sound home done c)
    (held : done ≤ high) (move : Move home done high c c') : Sound home done c' := by
  cases move with
  | same => exact sound
  | past n e read => exact sound.of_log fun k after => Log.note_other _ e (by omega)
  | grouped a n beyond unread => exact sound.group beyond (held.trans_lt unread)
  | inserted x m absent group home_group first free unread later =>
      exact sound.insert unique absent group home_group first free later
  | touched x m m' there group first free unread later =>
      exact sound.touch there group first free later
  | purged x m n there dead read beyond unread => exact sound.purge x beyond
  | dropped a n beyond unread => exact sound.drop a beyond

/-! ## The reader -/

/-- `count` is of the groups it shows; `aside` are the members it took out of the count. -/
structure Reader (κ : Type u) (γ : Type v) where
  count : γ → Option ℕ
  aside : γ → κ → Bool
  cursor : ℕ

/-- What an entry of a member, seen as it is now, adds to the count of its group. -/
def adjustment (m : Member γ) (n : ℕ) (aside : Bool) : ℤ :=
  (if n = m.first then 1 else 0) +
    if m.live then (if aside then 1 else 0) else if aside then 0 else -1

/-- Read the entry numbered `n`. -/
def Reader.read (c : Chronicle κ γ) (n : ℕ) (e : Event κ γ) (r : Reader κ γ) : Reader κ γ :=
  match e with
  | .member x =>
      match c.member x with
      | none => { r with cursor := n }
      | some m =>
          match r.count m.group with
          | none => { r with cursor := n }
          | some k =>
              { count := Function.update r.count m.group
                  (some ((k : ℤ) + adjustment m n (r.aside m.group x)).toNat)
                aside := fun a y => if a = m.group ∧ y = x then !m.live else r.aside a y
                cursor := n }
  | .purged x => { r with aside := fun a y => !decide (y = x) && r.aside a y, cursor := n }
  | .group a =>
      if c.group a then
        { r with count := Function.update r.count a (some ((r.count a).getD 0)), cursor := n }
      else { r with cursor := n }
  | .dropped a =>
      { count := Function.update r.count a none
        aside := fun b y => !decide (b = a) && r.aside b y
        cursor := n }

/-- No end of the group is unread. -/
def Settled (c : Chronicle κ γ) (cursor : ℕ) (a : γ) : Prop :=
  ∀ n, c.log n = some (.dropped a) → n ≤ cursor

/-- The members the reader counts in a group. -/
def counted (c : Chronicle κ γ) (r : Reader κ γ) (a : γ) : Set κ :=
  {x | ∃ m, c.member x = some m ∧ m.group = a ∧ m.first ≤ r.cursor ∧ r.aside a x = false}

/-- What holds of the reader beside the store. -/
structure Agrees (c : Chronicle κ γ) (r : Reader κ γ) : Prop where
  count : ∀ a k, Settled c r.cursor a → r.count a = some k → k = (counted c r a).ncard
  /-- A member put aside is there and was read, or its purge is not read yet. -/
  aside : ∀ a x, Settled c r.cursor a → r.aside a x = true →
    (∃ m, c.member x = some m ∧ m.group = a ∧ m.first ≤ r.cursor) ∨
      ∃ n, r.cursor < n ∧ c.log n = some (.purged x)
  /-- With all its entries read, a member is aside exactly when it is not live. -/
  live : ∀ x m, c.member x = some m → Settled c r.cursor m.group → m.seq ≤ r.cursor →
    r.aside m.group x = !m.live
  shown : ∀ a, c.group a = true → Settled c r.cursor a →
    (r.count a).isSome ∨ ∃ k, Announced c r.cursor a k
  /-- No unread entry of a member is closed by a purge. -/
  unread : ∀ x n k, c.log n = some (.member x) → r.cursor < n → c.log k = some (.purged x) → k < n

/-! ### Moves beside a reader -/

theorem settled_note {n k : ℕ} {e : Event κ γ} {a : γ} {member : κ → Option (Member γ)}
    {group : γ → Bool} (free : c.log n = none)
    (settled : Settled ⟨member, group, c.log.note n e⟩ k a) : Settled c k a :=
  fun m here => settled m (Log.note_keeps free here)

variable {r : Reader κ γ}

theorem Agrees.of_log (agrees : Agrees c r) {log : Log κ γ}
    (same : ∀ n, r.cursor < n → log n = c.log n) : Agrees ⟨c.member, c.group, log⟩ r := by
  have settled_old : ∀ {a}, Settled ⟨c.member, c.group, log⟩ r.cursor a → Settled c r.cursor a := by
    intro a settled n ended
    by_contra after
    exact after (settled n ((same n (not_le.1 after)).trans ended))
  constructor
  case count => exact fun a k settled shown => agrees.count a k (settled_old settled) shown
  case aside =>
    intro a x settled aside
    refine (agrees.aside a x (settled_old settled) aside).imp id ?_
    rintro ⟨n, after, here⟩
    exact ⟨n, after, (same n after).trans here⟩
  case live => exact fun x m there settled => agrees.live x m there (settled_old settled)
  case shown =>
    intro a there settled
    refine (agrees.shown a there (settled_old settled)).imp id ?_
    rintro ⟨k, after, here, ends, members⟩
    exact ⟨k, after, (same k after).trans here,
      fun n after ended => ends n after ((same n after).symm.trans ended), members⟩
  case unread =>
    intro x n k here after purged
    by_contra later
    have beyond : r.cursor < k := after.trans_le (not_lt.1 later)
    exact later (agrees.unread x n k ((same n after).symm.trans here) after
      ((same k beyond).symm.trans purged))

theorem Agrees.group (agrees : Agrees c r) (sound : Sound home r.cursor c) {a : γ} {n : ℕ}
    (beyond : c.log.Beyond n) (unread : r.cursor < n) :
    Agrees ⟨c.member, Function.update c.group a true, c.log.note n (.group a)⟩ r := by
  have free := beyond.free
  constructor
  case count => exact fun b k settled shown => agrees.count b k (settled_note free settled) shown
  case aside =>
    intro b x settled aside
    refine (agrees.aside b x (settled_note free settled) aside).imp id ?_
    rintro ⟨k, after, here⟩
    exact ⟨k, after, Log.note_keeps free here⟩
  case live => exact fun x m there settled => agrees.live x m there (settled_note free settled)
  case shown =>
    intro b there settled
    by_cases known : c.group b = true
    · refine (agrees.shown b known (settled_note free settled)).imp id ?_
      rintro ⟨k, announced⟩
      exact ⟨k, announced.note free (by simp) fun x m there group =>
        .inl ⟨m, there, group, rfl⟩⟩
    · have same : b = a := by
        by_contra ne
        have there : Function.update c.group a true b = true := there
        rw [Function.update_of_ne ne] at there
        exact known there
      subst same
      refine .inr ⟨n, unread, Log.note_self _ _ _, fun k _ ended => ?_, fun x m member group => ?_⟩
      · exact beyond k _ (Log.note_old ended nofun)
      · exact absurd (group ▸ sound.grouped x m member) known
  case unread =>
    exact fun x m k here after purged =>
      agrees.unread x m k (Log.note_old here nofun) after (Log.note_old purged nofun)

theorem Agrees.insert (agrees : Agrees c r) {x : κ} {m : Member γ} (absent : c.member x = none)
    (first : m.first = m.seq) (free : c.log m.seq = none) (unread : r.cursor < m.seq)
    (later : c.log.Later m.seq x m.group) :
    Agrees ⟨Function.update c.member x (some m), c.group, c.log.note m.seq (.member x)⟩ r := by
  have other : ∀ y m', c.member y = some m' → Function.update c.member x (some m) y = some m' := by
    intro y m' there
    rw [Function.update_of_ne]
    · exact there
    · rintro rfl
      rw [absent] at there
      cases there
  constructor
  case count =>
    intro a k settled shown
    rw [agrees.count a k (settled_note free settled) shown]
    congr 1
    ext y
    constructor
    · rintro ⟨m', there, rest⟩
      exact ⟨m', other y m' there, rest⟩
    · rintro ⟨m', there, group, read, rest⟩
      rcases put_cases there with ⟨-, new⟩ | ⟨-, old⟩
      · obtain rfl := Option.some.inj new
        omega
      · exact ⟨m', old, group, read, rest⟩
  case aside =>
    intro a y settled aside
    refine (agrees.aside a y (settled_note free settled) aside).imp ?_ ?_
    · rintro ⟨m', there, rest⟩
      exact ⟨m', other y m' there, rest⟩
    · rintro ⟨k, after, here⟩
      exact ⟨k, after, Log.note_keeps free here⟩
  case live =>
    intro y m' there settled read
    rcases put_cases there with ⟨-, new⟩ | ⟨-, old⟩
    · obtain rfl := Option.some.inj new
      omega
    · exact agrees.live y m' old (settled_note free settled) read
  case shown =>
    intro a there settled
    refine (agrees.shown a there (settled_note free settled)).imp id ?_
    rintro ⟨k, announced⟩
    refine ⟨k, announced.note free (by simp) fun y m' there group => ?_⟩
    rcases put_cases there with ⟨rfl, new⟩ | ⟨-, old⟩
    · obtain rfl := Option.some.inj new
      exact .inr (first ▸ later k _ announced.2.1 group.symm)
    · exact .inl ⟨m', old, group, rfl⟩
  case unread =>
    intro y n k here after purged
    have earlier := Log.note_old purged nofun
    rcases Log.note_cases here with ⟨rfl, same⟩ | old
    · obtain rfl := Event.member.inj same
      exact later k _ earlier rfl
    · exact agrees.unread y n k old after earlier

theorem Agrees.touch (agrees : Agrees c r) (sound : Sound home r.cursor c) {x : κ} {m m' : Member γ}
    (there : c.member x = some m) (group : m'.group = m.group) (first : m'.first = m.first)
    (free : c.log m'.seq = none) (unread : r.cursor < m'.seq) (later : m.seq < m'.seq) :
    Agrees ⟨Function.update c.member x (some m'), c.group, c.log.note m'.seq (.member x)⟩ r := by
  -- a member there before and after, with its group and its first entry
  have before : ∀ y m'', Function.update c.member x (some m') y = some m'' →
      ∃ m₀, c.member y = some m₀ ∧ m₀.group = m''.group ∧ m₀.first = m''.first := by
    intro y m'' there'
    rcases put_cases there' with ⟨rfl, new⟩ | ⟨-, old⟩
    · obtain rfl := Option.some.inj new
      exact ⟨m, there, group.symm, first.symm⟩
    · exact ⟨m'', old, rfl, rfl⟩
  have now : ∀ y m₀, c.member y = some m₀ →
      ∃ m'', Function.update c.member x (some m') y = some m'' ∧ m''.group = m₀.group ∧
        m''.first = m₀.first := by
    intro y m₀ old
    by_cases same : y = x
    · subst same
      obtain rfl := Option.some.inj (there.symm.trans old)
      exact ⟨m', Function.update_self _ _ _, group, first⟩
    · exact ⟨m₀, (Function.update_of_ne same _ _).trans old, rfl, rfl⟩
  constructor
  case count =>
    intro a k settled shown
    rw [agrees.count a k (settled_note free settled) shown]
    congr 1
    ext y
    constructor
    · rintro ⟨m₀, old, group₀, read, rest⟩
      obtain ⟨m'', there', group', first'⟩ := now y m₀ old
      exact ⟨m'', there', group'.trans group₀, first' ▸ read, rest⟩
    · rintro ⟨m'', there', group', read, rest⟩
      obtain ⟨m₀, old, group₀, first₀⟩ := before y m'' there'
      exact ⟨m₀, old, group₀.trans group', first₀ ▸ read, rest⟩
  case aside =>
    intro a y settled aside
    refine (agrees.aside a y (settled_note free settled) aside).imp ?_ ?_
    · rintro ⟨m₀, old, group₀, read⟩
      obtain ⟨m'', there', group', first'⟩ := now y m₀ old
      exact ⟨m'', there', group'.trans group₀, first' ▸ read⟩
    · rintro ⟨k, after, here⟩
      exact ⟨k, after, Log.note_keeps free here⟩
  case live =>
    intro y m'' there' settled read
    rcases put_cases there' with ⟨-, new⟩ | ⟨-, old⟩
    · obtain rfl := Option.some.inj new
      exact absurd read (not_le.2 unread)
    · exact agrees.live y m'' old (settled_note free settled) read
  case shown =>
    intro a there' settled
    refine (agrees.shown a there' (settled_note free settled)).imp id ?_
    rintro ⟨k, announced⟩
    refine ⟨k, announced.note free (by simp) fun y m'' there' group' => .inl ?_⟩
    obtain ⟨m₀, old, group₀, first₀⟩ := before y m'' there'
    exact ⟨m₀, old, group₀.trans group', first₀⟩
  case unread =>
    intro y n k here after purged
    have earlier := Log.note_old purged nofun
    rcases Log.note_cases here with ⟨rfl, same⟩ | old
    · obtain rfl := Event.member.inj same
      have present := sound.present y m there
      by_contra below
      have := present.purged k (unread.trans_le (not_lt.1 below)) earlier
      have := present.le
      omega
    · exact agrees.unread y n k old after earlier

theorem Agrees.purge (agrees : Agrees c r) (sound : Sound home r.cursor c) {x : κ} {m : Member γ} {n : ℕ}
    (there : c.member x = some m) (dead : m.live = false) (read : m.seq ≤ r.cursor)
    (beyond : c.log.Beyond n) (unread : r.cursor < n) :
    Agrees ⟨Function.update c.member x none, c.group, c.log.note n (.purged x)⟩ r := by
  have free := beyond.free
  have old : ∀ {y m'}, Function.update c.member x none y = some m' → c.member y = some m' := by
    intro y m' there'
    rcases put_cases there' with ⟨-, new⟩ | ⟨-, old⟩
    · cases new
    · exact old
  constructor
  case count =>
    intro a k settled shown
    have before := settled_note free settled
    rw [agrees.count a k before shown]
    congr 1
    ext y
    constructor
    · rintro ⟨m', there', group, first, counted⟩
      -- the purged member is aside
      have ne : y ≠ x := by
        rintro rfl
        obtain rfl := Option.some.inj (there.symm.trans there')
        have aside := agrees.live y m there (group ▸ before) read
        rw [group, counted, dead] at aside
        cases aside
      exact ⟨m', (Function.update_of_ne ne _ _).trans there', group, first, counted⟩
    · rintro ⟨m', there', rest⟩
      exact ⟨m', old there', rest⟩
  case aside =>
    intro a y settled aside
    by_cases same : y = x
    · subst same
      exact .inr ⟨n, unread, Log.note_self _ _ _⟩
    · refine (agrees.aside a y (settled_note free settled) aside).imp ?_ ?_
      · rintro ⟨m', there', rest⟩
        exact ⟨m', (Function.update_of_ne same _ _).trans there', rest⟩
      · rintro ⟨k, after, here⟩
        exact ⟨k, after, Log.note_keeps free here⟩
  case live =>
    exact fun y m' there' settled => agrees.live y m' (old there') (settled_note free settled)
  case shown =>
    intro a there' settled
    refine (agrees.shown a there' (settled_note free settled)).imp id ?_
    rintro ⟨k, announced⟩
    exact ⟨k, announced.note free (by simp) fun y m' there' group =>
      .inl ⟨m', old there', group, rfl⟩⟩
  case unread =>
    intro y j k here after purged
    have named := Log.note_old here nofun
    rcases Log.note_cases purged with ⟨rfl, same⟩ | old
    · obtain rfl := Event.purged.inj same
      have := (sound.present y m there).upper j after named
      omega
    · exact agrees.unread y j k named after old

theorem Agrees.drop (agrees : Agrees c r) (a : γ) {n : ℕ} (beyond : c.log.Beyond n)
    (unread : r.cursor < n) :
    Agrees ⟨fun x => (c.member x).filter fun m => m.group ≠ a, Function.update c.group a false,
      c.log.note n (.dropped a)⟩ r := by
  have free := beyond.free
  have keeps : ∀ x m, (c.member x).filter (fun m => m.group ≠ a) = some m ↔
      c.member x = some m ∧ m.group ≠ a := by
    intro x m
    rw [Option.filter_eq_some_iff, decide_eq_true_iff]
  -- the group that ends is not settled
  have other : ∀ b, Settled ⟨fun x => (c.member x).filter fun m => m.group ≠ a,
      Function.update c.group a false, c.log.note n (.dropped a)⟩ r.cursor b → b ≠ a := by
    rintro b settled rfl
    exact absurd (settled n (Log.note_self _ _ _)) (not_le.2 unread)
  constructor
  case count =>
    intro b k settled shown
    rw [agrees.count b k (settled_note free settled) shown]
    congr 1
    ext y
    constructor
    · rintro ⟨m, there, group, rest⟩
      exact ⟨m, (keeps y m).2 ⟨there, group ▸ other b settled⟩, group, rest⟩
    · rintro ⟨m, there, rest⟩
      exact ⟨m, ((keeps y m).1 there).1, rest⟩
  case aside =>
    intro b y settled aside
    refine (agrees.aside b y (settled_note free settled) aside).imp ?_ ?_
    · rintro ⟨m, there, group, rest⟩
      exact ⟨m, (keeps y m).2 ⟨there, group ▸ other b settled⟩, group, rest⟩
    · rintro ⟨k, after, here⟩
      exact ⟨k, after, Log.note_keeps free here⟩
  case live =>
    exact fun y m there settled =>
      agrees.live y m ((keeps y m).1 there).1 (settled_note free settled)
  case shown =>
    intro b there settled
    have ne := other b settled
    have there : Function.update c.group a false b = true := there
    rw [Function.update_of_ne ne] at there
    refine (agrees.shown b there (settled_note free settled)).imp id ?_
    rintro ⟨k, announced⟩
    exact ⟨k, announced.note free (fun same => ne (Event.dropped.inj same).symm)
      fun y m there group => .inl ⟨m, ((keeps y m).1 there).1, group, rfl⟩⟩
  case unread =>
    exact fun x m k here after purged =>
      agrees.unread x m k (Log.note_old here nofun) after (Log.note_old purged nofun)

/-- **A move keeps the reader beside the store.** -/
theorem Move.agrees (sound : Sound home r.cursor c) (agrees : Agrees c r) (held : r.cursor ≤ high)
    (move : Move home r.cursor high c c') : Agrees c' r := by
  cases move with
  | same => exact agrees
  | past n e read => exact agrees.of_log fun k after => Log.note_other _ e (by omega)
  | grouped a n beyond unread => exact agrees.group sound beyond (held.trans_lt unread)
  | inserted x m absent group home_group first free unread later =>
      exact agrees.insert absent first free (held.trans_lt unread) later
  | touched x m m' there group first free unread later =>
      exact agrees.touch sound there group first free (held.trans_lt unread) later
  | purged x m n there dead read beyond unread =>
      exact agrees.purge sound there dead read beyond (held.trans_lt unread)
  | dropped a n beyond unread => exact agrees.drop a beyond (held.trans_lt unread)

/-- What is in hand stays. -/
theorem Move.log_eq (move : Move home done high c c') {n : ℕ} (after : done < n) (low : n ≤ high) :
    c'.log n = c.log n := by
  have kept : ∀ {log : Log κ γ} {k : ℕ} {e : Event κ γ}, high < k → log.note k e n = log n :=
    fun above => Log.note_other _ _ (by omega)
  cases move with
  | same => rfl
  | past k e read => exact Log.note_other _ _ (by omega)
  | grouped a k beyond unread => exact kept unread
  | inserted x m absent group home_group first free unread later => exact kept unread
  | touched x m m' there group first free unread later => exact kept unread
  | purged x m k there dead read beyond unread => exact kept unread
  | dropped a k beyond unread => exact kept unread

/-! ### Writes of many moves -/

/-- A write, as a run of moves. -/
def Moves (home : κ → γ → Prop) (done high : ℕ) : Chronicle κ γ → Chronicle κ γ → Prop :=
  Relation.ReflTransGen (Move home done high)

theorem Move.moves (move : Move home done high c c') : Moves home done high c c' :=
  Relation.ReflTransGen.single move

theorem Moves.sound (unique : ∀ x a b, home x a → home x b → a = b) (sound : Sound home done c)
    (held : done ≤ high) (moves : Moves home done high c c') : Sound home done c' := by
  induction moves with
  | refl => exact sound
  | tail _ move ih => exact move.sound unique ih held

theorem Moves.agrees (unique : ∀ x a b, home x a → home x b → a = b) (sound : Sound home r.cursor c)
    (agrees : Agrees c r) (held : r.cursor ≤ high) (moves : Moves home r.cursor high c c') :
    Agrees c' r := by
  induction moves with
  | refl => exact agrees
  | tail before move ih => exact move.agrees (Moves.sound unique sound held before) ih held

theorem Moves.log_eq (moves : Moves home done high c c') {n : ℕ} (after : done < n)
    (low : n ≤ high) : c'.log n = c.log n := by
  induction moves with
  | refl => rfl
  | tail _ move ih => exact (move.log_eq after low).trans ih

/-! ### Reading -/

/-- The next entry to read. -/
structure Next (c : Chronicle κ γ) (cursor n : ℕ) (e : Event κ γ) : Prop where
  after : cursor < n
  here : c.log n = some e
  least : ∀ m e', cursor < m → c.log m = some e' → n ≤ m

section Reading

variable {n : ℕ} {e : Event κ γ}

theorem Next.lt (next : Next c r.cursor n e) {m : ℕ} {e' : Event κ γ} (after : r.cursor < m)
    (here : c.log m = some e') (other : e' ≠ e) : n < m := by
  refine lt_of_le_of_ne (next.least m e' after here) ?_
  rintro rfl
  exact other (Option.some.inj (here.symm.trans next.here))

/-- An announcement that is not the entry is still to come. -/
theorem Next.announced (next : Next c r.cursor n e) {a : γ} {k : ℕ}
    (announced : Announced c r.cursor a k) (other : e ≠ .group a) : Announced c n a k :=
  announced.mono next.after.le (next.lt announced.1 announced.2.1 other.symm)

/-- A group that is settled after the entry was settled before it, or the entry ends it. -/
theorem Next.settled (next : Next c r.cursor n e) {a : γ} (settled : Settled c n a)
    (other : e ≠ .dropped a) : Settled c r.cursor a := by
  intro m here
  by_contra after
  exact absurd (settled m here) (not_le.2 (next.lt (not_le.1 after) here other.symm))

/-- No member but the one the entry names comes into sight. -/
theorem Next.first_le (next : Next c r.cursor n e) (sound : Sound home r.cursor c) {x : κ} {m : Member γ}
    (there : c.member x = some m) (other : e ≠ .member x) :
    m.first ≤ n ↔ m.first ≤ r.cursor := by
  refine ⟨fun reached => ?_, fun seen => seen.trans next.after.le⟩
  by_contra unseen
  have := next.lt (not_le.1 unseen) ((sound.present x m there).first (not_le.1 unseen)) other.symm
  omega

/-- What stays true when the count and the members put aside stay. -/
theorem Agrees.skip (agrees : Agrees c r) (sound : Sound home r.cursor c) (next : Next c r.cursor n e)
    (ends : ∀ a, e ≠ .dropped a) (groups : ∀ a, e = .group a → c.group a = false)
    (purges : ∀ x, e ≠ .purged x)
    (names : ∀ x m, e = .member x → c.member x = some m → ¬ Settled c n m.group) :
    Agrees c { r with cursor := n } := by
  have named : ∀ x m, c.member x = some m → Settled c n m.group → e ≠ .member x :=
    fun x m there settled same => names x m same there settled
  constructor
  case count =>
    intro a k settled shown
    rw [agrees.count a k (next.settled settled (ends a)) shown]
    congr 1
    ext x
    constructor
    · rintro ⟨m, there, group, first, rest⟩
      exact ⟨m, there, group, first.trans next.after.le, rest⟩
    · rintro ⟨m, there, group, first, rest⟩
      exact ⟨m, there, group,
        (next.first_le sound there (named x m there (group ▸ settled))).1 first, rest⟩
  case aside =>
    intro a x settled aside
    refine (agrees.aside a x (next.settled settled (ends a)) aside).imp ?_ ?_
    · rintro ⟨m, there, group, first⟩
      exact ⟨m, there, group, first.trans next.after.le⟩
    · rintro ⟨k, after, here⟩
      exact ⟨k, next.lt after here (purges x).symm, here⟩
  case live =>
    intro x m there settled read
    refine agrees.live x m there (next.settled settled (ends _)) ?_
    by_contra unread
    have := next.lt (not_le.1 unread) ((sound.present x m there).last (not_le.1 unread))
      (named x m there settled).symm
    have : m.seq ≤ n := read
    omega
  case shown =>
    intro a there settled
    refine (agrees.shown a there (next.settled settled (ends a))).imp id ?_
    rintro ⟨k, announced⟩
    refine ⟨k, next.announced announced fun same => ?_⟩
    rw [groups a same] at there
    cases there
  case unread =>
    exact fun x m k here after purged => agrees.unread x m k here (next.after.trans after) purged

/-- An entry of a member in a settled group comes no earlier than the member. -/
theorem Agrees.named_later (agrees : Agrees c r) (sound : Sound home r.cursor c) {x : κ} {m : Member γ}
    (next : Next c r.cursor n (.member x)) (there : c.member x = some m)
    (settled : Settled c n m.group) : m.first ≤ n := by
  by_contra before
  obtain ⟨k, after, -, purged | ends⟩ :=
    (sound.present x m there).former n next.after next.here (not_le.1 before)
  · exact absurd (agrees.unread x n k next.here next.after purged) (not_lt.2 after.le)
  · exact absurd (settled k ends) (not_le.2 after)

/-- A settled group with a member that was read is shown. -/
theorem Agrees.named_shown (agrees : Agrees c r) (sound : Sound home r.cursor c) {x : κ} {m : Member γ}
    (next : Next c r.cursor n (.member x)) (there : c.member x = some m)
    (settled : Settled c n m.group) : (r.count m.group).isSome := by
  have first := agrees.named_later sound next there settled
  rcases agrees.shown m.group (sound.grouped x m there) (next.settled settled nofun) with
    shown | ⟨k, announced⟩
  · exact shown
  · have lower := (next.announced announced nofun).1
    have := announced.2.2.2 x m there rfl
    omega

theorem counted_finite (sound : Sound home r.cursor c) (r : Reader κ γ) (a : γ) : (counted c r a).Finite :=
  sound.finite.subset fun _ ⟨m, there, _⟩ => Option.isSome_iff_exists.2 ⟨m, there⟩

/-- The reader after an entry of a member whose group it shows. -/
def Reader.see (r : Reader κ γ) (x : κ) (m : Member γ) (k n : ℕ) : Reader κ γ where
  count := Function.update r.count m.group
    (some ((k : ℤ) + adjustment m n (r.aside m.group x)).toNat)
  aside a y := if a = m.group ∧ y = x then !m.live else r.aside a y
  cursor := n

theorem see_aside (r : Reader κ γ) {x y : κ} (m : Member γ) (k n : ℕ) {a : γ}
    (other : a ≠ m.group ∨ y ≠ x) : (r.see x m k n).aside a y = r.aside a y :=
  if_neg fun both => other.elim (· both.1) (· both.2)

/-- It counted the member before if it had come and was not aside. -/
theorem mem_counted_self {x : κ} {m : Member γ} (there : c.member x = some m) :
    x ∈ counted c r m.group ↔ m.first ≤ r.cursor ∧ r.aside m.group x = false := by
  constructor
  · rintro ⟨m', there', -, rest⟩
    obtain rfl := Option.some.inj (there.symm.trans there')
    exact rest
  · exact fun rest => ⟨m, there, rfl, rest⟩

open scoped Classical in
/-- The adjustment is what the member adds to the set that is counted. -/
theorem adjustment_eq (agrees : Agrees c r) (sound : Sound home r.cursor c) {x : κ} {m : Member γ}
    (next : Next c r.cursor n (.member x)) (there : c.member x = some m)
    (settled : Settled c n m.group) : adjustment m n (r.aside m.group x) =
      if m.live then (if x ∈ counted c r m.group then 0 else 1)
      else if x ∈ counted c r m.group then -1 else 0 := by
  have present := sound.present x m there
  rw [mem_counted_self there, adjustment]
  rcases (agrees.named_later sound next there settled).eq_or_lt with same | before
  · -- its first entry: it is in nobody's count, and not aside
    have unseen : ¬ m.first ≤ r.cursor := by
      have := next.after
      omega
    have inside : r.aside m.group x = false := by
      by_contra aside
      rcases agrees.aside m.group x (next.settled settled nofun) (Bool.not_eq_false _ ▸ aside) with
        ⟨m', there', -, first⟩ | ⟨k, after, purged⟩
      · obtain rfl := Option.some.inj (there.symm.trans there')
        exact unseen first
      · have := next.lt after purged nofun
        have := present.purged k after purged
        omega
    rw [if_pos same.symm, inside]
    cases m.live <;> simp [unseen]
  · have seen : m.first ≤ r.cursor := by
      by_contra unseen
      have := next.least m.first _ (not_le.1 unseen) (present.first (not_le.1 unseen))
      omega
    rw [if_neg (ne_of_gt before)]
    cases m.live <;> cases r.aside m.group x <;> simp [seen]

theorem counted_see (agrees : Agrees c r) (sound : Sound home r.cursor c) {x : κ} {m : Member γ} (k : ℕ)
    (next : Next c r.cursor n (.member x)) (there : c.member x = some m)
    (settled : Settled c n m.group) : counted c (r.see x m k n) m.group =
      if m.live then insert x (counted c r m.group) else counted c r m.group \ {x} := by
  have first := agrees.named_later sound next there settled
  ext y
  by_cases same : y = x
  · subst same
    have now : y ∈ counted c (r.see y m k n) m.group ↔ m.live = true := by
      rw [mem_counted_self there]
      simp [Reader.see, first]
    rw [now]
    cases m.live <;> simp
  · have as_before : y ∈ counted c (r.see x m k n) m.group ↔ y ∈ counted c r m.group := by
      refine exists_congr fun m' => and_congr_right fun there' => and_congr_right fun _ => ?_
      have first' := next.first_le sound there' fun same' => same (Event.member.inj same').symm
      rw [see_aside r m k n (.inr same)]
      exact and_congr_left fun _ => first'
    rw [as_before]
    cases m.live <;> simp [same]

/-- **An entry of a member.** -/
theorem Agrees.see (agrees : Agrees c r) (sound : Sound home r.cursor c) {x : κ} {m : Member γ} {k : ℕ}
    (next : Next c r.cursor n (.member x)) (there : c.member x = some m)
    (shown : r.count m.group = some k) : Agrees c (r.see x m k n) := by
  constructor
  case count =>
    intro a k' settled shown'
    have settled : Settled c n a := settled
    have before := next.settled settled nofun
    by_cases same : a = m.group
    · subst same
      have shown' : Function.update r.count m.group
        (some ((k : ℤ) + adjustment m n (r.aside m.group x)).toNat) m.group = some k' := shown'
      rw [Function.update_self] at shown'
      obtain rfl := Option.some.inj shown'
      have finite := counted_finite sound r m.group
      rw [agrees.count m.group k before shown, adjustment_eq agrees sound next there settled,
        counted_see agrees sound _ next there settled]
      by_cases was : x ∈ counted c r m.group
      · cases m.live
        · simp only [Bool.false_eq_true, if_false, if_pos was]
          rw [Set.ncard_sdiff_singleton_of_mem was]
          omega
        · simp [was]
      · cases m.live
        · simp [was]
        · simp only [if_true, if_neg was]
          rw [Set.ncard_insert_of_notMem was finite]
          omega
    · have shown' : Function.update r.count m.group _ a = some k' := shown'
      rw [Function.update_of_ne same] at shown'
      rw [agrees.count a k' before shown']
      congr 1
      ext y
      refine exists_congr fun m' => and_congr_right fun there' => and_congr_right fun group => ?_
      rw [see_aside r m k n (.inl same)]
      refine and_congr_left fun _ => (next.first_le sound there' fun named => ?_).symm
      obtain rfl := Event.member.inj named
      obtain rfl := Option.some.inj (there.symm.trans there')
      exact same group.symm
  case aside =>
    intro a y settled aside
    have settled : Settled c n a := settled
    by_cases here : a = m.group ∧ y = x
    · obtain ⟨rfl, rfl⟩ := here
      exact .inl ⟨m, there, rfl, agrees.named_later sound next there settled⟩
    · rw [see_aside r m k n (not_and_or.1 here)] at aside
      refine (agrees.aside a y (next.settled settled nofun) aside).imp ?_ ?_
      · rintro ⟨m', there', group, first⟩
        exact ⟨m', there', group, first.trans next.after.le⟩
      · rintro ⟨j, after, purged⟩
        exact ⟨j, next.lt after purged nofun, purged⟩
  case live =>
    intro y m' there' settled read
    have settled : Settled c n m'.group := settled
    by_cases same : y = x
    · subst same
      obtain rfl := Option.some.inj (there.symm.trans there')
      exact if_pos ⟨rfl, rfl⟩
    · rw [see_aside r m k n (.inr same)]
      refine agrees.live y m' there' (next.settled settled nofun) ?_
      by_contra unread
      have := next.lt (not_le.1 unread) ((sound.present y m' there').last (not_le.1 unread))
        fun named => same (Event.member.inj named)
      have : m'.seq ≤ n := read
      omega
  case shown =>
    intro a there' settled
    refine (agrees.shown a there' (next.settled settled nofun)).imp (fun some => ?_) ?_
    · show (Function.update r.count m.group _ a).isSome
      by_cases same : a = m.group
      · rw [same, Function.update_self]
        rfl
      · rw [Function.update_of_ne same]
        exact some
    · rintro ⟨j, announced⟩
      exact ⟨j, next.announced announced nofun⟩
  case unread =>
    exact fun y j i here after purged => agrees.unread y j i here (next.after.trans after) purged

/-- **The purge of a member**: one of that name that is there came later. -/
theorem Agrees.see_purge (agrees : Agrees c r) (sound : Sound home r.cursor c) {x : κ}
    (next : Next c r.cursor n (.purged x)) :
    Agrees c { r with aside := fun a y => !decide (y = x) && r.aside a y, cursor := n } := by
  have later : ∀ m, c.member x = some m → n < m.first :=
    fun m there => (sound.present x m there).purged n next.after next.here
  have aside_old : ∀ a y, y ≠ x → (!decide (y = x) && r.aside a y) = r.aside a y := by
    intro a y ne
    rw [decide_eq_false ne]
    rfl
  have ne_of : ∀ {y m}, c.member y = some m → m.first ≤ n → y ≠ x := by
    rintro y m there first rfl
    exact absurd first (not_le.2 (later m there))
  constructor
  case count =>
    intro a k settled shown
    rw [agrees.count a k (next.settled settled nofun) shown]
    congr 1
    ext y
    refine exists_congr fun m => and_congr_right fun there => and_congr_right fun _ => ?_
    constructor
    · rintro ⟨first, inside⟩
      refine ⟨first.trans next.after.le, ?_⟩
      show (!decide (y = x) && r.aside a y) = false
      rw [inside, Bool.and_false]
    · rintro ⟨first, inside⟩
      have inside : (!decide (y = x) && r.aside a y) = false := inside
      rw [aside_old a y (ne_of there first)] at inside
      exact ⟨(next.first_le sound there nofun).1 first, inside⟩
  case aside =>
    intro a y settled aside
    obtain ⟨ne, aside⟩ := (Bool.and_eq_true _ _).mp aside
    have ne : y ≠ x := by simpa using ne
    refine (agrees.aside a y (next.settled settled nofun) aside).imp ?_ ?_
    · rintro ⟨m, there, group, first⟩
      exact ⟨m, there, group, first.trans next.after.le⟩
    · rintro ⟨k, after, purged⟩
      exact ⟨k, next.lt after purged fun same => ne (Event.purged.inj same), purged⟩
  case live =>
    intro y m there settled read
    have read : m.seq ≤ n := read
    have first : m.first ≤ n := (sound.present y m there).le.trans read
    show (!decide (y = x) && r.aside m.group y) = !m.live
    rw [aside_old _ y (ne_of there first)]
    refine agrees.live y m there (next.settled settled nofun) ?_
    by_contra unread
    have := next.lt (not_le.1 unread) ((sound.present y m there).last (not_le.1 unread)) nofun
    omega
  case shown =>
    intro a there settled
    refine (agrees.shown a there (next.settled settled nofun)).imp id ?_
    rintro ⟨k, announced⟩
    exact ⟨k, next.announced announced nofun⟩
  case unread =>
    exact fun y j i here after purged => agrees.unread y j i here (next.after.trans after) purged

/-- **A group is shown**, with what it counted, or from nothing. -/
theorem Agrees.see_group (agrees : Agrees c r) (sound : Sound home r.cursor c) {a : γ}
    (next : Next c r.cursor n (.group a)) (there : c.group a = true) :
    Agrees c { r with
      count := Function.update r.count a (some ((r.count a).getD 0)), cursor := n } := by
  constructor
  case count =>
    intro b k settled shown
    have settled : Settled c n b := settled
    have before := next.settled settled nofun
    have same_set : counted c { r with
        count := Function.update r.count a (some ((r.count a).getD 0)), cursor := n } b =
        counted c r b := by
      ext y
      refine exists_congr fun m => and_congr_right fun there' => and_congr_right fun _ => ?_
      exact and_congr_left fun _ => next.first_le sound there' nofun
    rw [same_set]
    by_cases same : b = a
    · subst same
      have shown : Function.update r.count b (some ((r.count b).getD 0)) b = some k := shown
      rw [Function.update_self] at shown
      obtain rfl := Option.some.inj shown
      cases was : r.count b with
      | some k => exact agrees.count b k before was
      | none =>
          -- the group was announced no earlier, so none of its members was read
          have none_yet : counted c r b = ∅ := by
            rcases agrees.shown b there before with shown | ⟨k, after, announced⟩
            · rw [was] at shown
              cases shown
            · have lower := next.least k _ after announced.1
              refine Set.eq_empty_iff_forall_notMem.2 ?_
              rintro y ⟨m, there', group, first, -⟩
              have := announced.2.2 y m there' group
              have := next.after
              omega
          rw [none_yet, Set.ncard_empty]
          rfl
    · have shown : Function.update r.count a (some ((r.count a).getD 0)) b = some k := shown
      rw [Function.update_of_ne same] at shown
      exact agrees.count b k before shown
  case aside =>
    intro b y settled aside
    refine (agrees.aside b y (next.settled settled nofun) aside).imp ?_ ?_
    · rintro ⟨m, there', group, first⟩
      exact ⟨m, there', group, first.trans next.after.le⟩
    · rintro ⟨k, after, purged⟩
      exact ⟨k, next.lt after purged nofun, purged⟩
  case live =>
    intro y m there' settled read
    refine agrees.live y m there' (next.settled settled nofun) ?_
    by_contra unread
    have := next.lt (not_le.1 unread) ((sound.present y m there').last (not_le.1 unread)) nofun
    have : m.seq ≤ n := read
    omega
  case shown =>
    intro b there' settled
    by_cases same : b = a
    · left
      rw [same]
      show (Function.update r.count a _ a).isSome
      rw [Function.update_self]
      rfl
    · refine (agrees.shown b there' (next.settled settled nofun)).imp (fun shown => ?_) ?_
      · show (Function.update r.count a _ b).isSome
        rw [Function.update_of_ne same]
        exact shown
      · rintro ⟨k, announced⟩
        exact ⟨k, next.announced announced fun named => same (Event.group.inj named).symm⟩
  case unread =>
    exact fun y j i here after purged => agrees.unread y j i here (next.after.trans after) purged

/-- **The end of a group.**  It was announced again later, or is not there. -/
theorem Agrees.see_drop (agrees : Agrees c r) (sound : Sound home r.cursor c) {a : γ}
    (next : Next c r.cursor n (.dropped a)) :
    Agrees c ⟨Function.update r.count a none, fun b y => !decide (b = a) && r.aside b y, n⟩ := by
  have aside_old : ∀ b y, b ≠ a → (!decide (b = a) && r.aside b y) = r.aside b y := by
    intro b y ne
    rw [decide_eq_false ne]
    rfl
  have other : ∀ {b : γ}, b ≠ a → Event.dropped (κ := κ) a ≠ .dropped b :=
    fun ne same => ne (Event.dropped.inj same).symm
  constructor
  case count =>
    intro b k settled shown
    by_cases same : b = a
    · have shown : Function.update r.count a none b = some k := shown
      rw [same, Function.update_self] at shown
      cases shown
    · have shown : Function.update r.count a none b = some k := shown
      rw [Function.update_of_ne same] at shown
      rw [agrees.count b k (next.settled settled (other same)) shown]
      congr 1
      ext y
      refine exists_congr fun m => and_congr_right fun there => and_congr_right fun _ => ?_
      show _ ↔ m.first ≤ n ∧ (!decide (b = a) && r.aside b y) = false
      rw [aside_old b y same]
      exact and_congr_left fun _ => (next.first_le sound there nofun).symm
  case aside =>
    intro b y settled aside
    obtain ⟨ne, aside⟩ := (Bool.and_eq_true _ _).mp aside
    have ne : b ≠ a := by simpa using ne
    refine (agrees.aside b y (next.settled settled (other ne)) aside).imp ?_ ?_
    · rintro ⟨m, there, group, first⟩
      exact ⟨m, there, group, first.trans next.after.le⟩
    · rintro ⟨k, after, purged⟩
      exact ⟨k, next.lt after purged nofun, purged⟩
  case live =>
    intro y m there settled read
    have read : m.seq ≤ n := read
    have present := sound.present y m there
    have ne : m.group ≠ a := by
      rintro same
      have ended : c.log n = some (.dropped m.group) := same ▸ next.here
      rcases sound.announced m.group (sound.grouped y m there) with standing | ⟨k, announced⟩
      · exact standing n next.after ended
      · have := announced.2.2.1 n next.after ended
        have := announced.2.2.2 y m there rfl
        have := present.le
        omega
    show (!decide (m.group = a) && r.aside m.group y) = !m.live
    rw [aside_old _ y ne]
    refine agrees.live y m there (next.settled settled (other ne)) ?_
    by_contra unread
    have := next.lt (not_le.1 unread) (present.last (not_le.1 unread)) nofun
    omega
  case shown =>
    intro b there settled
    by_cases same : b = a
    · subst same
      rcases sound.announced b there with standing | ⟨k, announced⟩
      · exact absurd next.here (standing n next.after)
      · have lower := announced.2.2.1 n next.after next.here
        exact .inr ⟨k, announced.mono next.after.le lower⟩
    · refine (agrees.shown b there (next.settled settled (other same))).imp (fun shown => ?_) ?_
      · show (Function.update r.count a none b).isSome
        rw [Function.update_of_ne same]
        exact shown
      · rintro ⟨k, announced⟩
        exact ⟨k, next.announced announced nofun⟩
  case unread =>
    exact fun y j i here after purged => agrees.unread y j i here (next.after.trans after) purged

/-- **Every read keeps the reader beside the store.** -/
theorem Agrees.read (agrees : Agrees c r) (sound : Sound home r.cursor c) (next : Next c r.cursor n e) :
    Agrees c (r.read c n e) := by
  cases e with
  | member x =>
      cases there : c.member x with
      | none =>
          simp only [Reader.read, there]
          refine agrees.skip sound next nofun nofun nofun fun y m named there' => ?_
          obtain rfl := Event.member.inj named
          rw [there] at there'
          cases there'
      | some m =>
          cases shown : r.count m.group with
          | none =>
              simp only [Reader.read, there, shown]
              refine agrees.skip sound next nofun nofun nofun fun y m' named there' settled => ?_
              obtain rfl := Event.member.inj named
              obtain rfl := Option.some.inj (there.symm.trans there')
              have some := agrees.named_shown sound next there settled
              rw [shown] at some
              cases some
          | some k =>
              simp only [Reader.read, there, shown]
              exact agrees.see sound next there shown
  | purged x => exact agrees.see_purge sound next
  | group a =>
      rw [Reader.read]
      split
      case isTrue there => exact agrees.see_group sound next there
      case isFalse gone =>
        refine agrees.skip sound next nofun (fun b named => ?_) nofun nofun
        obtain rfl := Event.group.inj named
        exact Bool.eq_false_iff.2 gone
  | dropped a => exact agrees.see_drop sound next

end Reading

/-! ### Reading a window -/

/-- The entries between a cursor and a number, in order. -/
structure Window (log : Log κ γ) (cursor high : ℕ) (rows : List (ℕ × Event κ γ)) : Prop where
  ascending : (rows.map Prod.fst).Pairwise (· < ·)
  mem : ∀ n e, (n, e) ∈ rows ↔ cursor < n ∧ n ≤ high ∧ log n = some e

def Reader.readAll (c : Chronicle κ γ) (rows : List (ℕ × Event κ γ)) (r : Reader κ γ) :
    Reader κ γ :=
  rows.foldl (fun r e => r.read c e.1 e.2) r

@[simp] theorem Reader.read_cursor (c : Chronicle κ γ) (n : ℕ) (e : Event κ γ) (r : Reader κ γ) :
    (r.read c n e).cursor = n := by
  unfold Reader.read
  split
  · split
    · rfl
    · split <;> rfl
  · rfl
  · split <;> rfl
  · rfl

theorem Window.next {cursor high n : ℕ} {e : Event κ γ} {rows : List (ℕ × Event κ γ)}
    (window : Window c.log cursor high ((n, e) :: rows)) : Next c cursor n e := by
  obtain ⟨after, -, here⟩ := (window.mem n e).1 (List.mem_cons_self ..)
  refine ⟨after, here, fun m e' beyond there => ?_⟩
  by_contra lower
  have low : m ≤ high := by
    obtain ⟨-, reached, -⟩ := (window.mem n e).1 (List.mem_cons_self ..)
    omega
  rcases List.mem_cons.1 ((window.mem m e').2 ⟨beyond, low, there⟩) with same | later
  · exact lower (le_of_eq (Prod.mk.inj same).1.symm)
  · have ascending := window.ascending
    rw [List.map_cons, List.pairwise_cons] at ascending
    have := ascending.1 m (List.mem_map_of_mem later)
    omega

theorem Window.tail {cursor high n : ℕ} {e : Event κ γ} {rows : List (ℕ × Event κ γ)}
    (window : Window c.log cursor high ((n, e) :: rows)) : Window c.log n high rows := by
  have ascending := window.ascending
  rw [List.map_cons, List.pairwise_cons] at ascending
  refine ⟨ascending.2, fun m e' => ⟨fun mem => ?_, ?_⟩⟩
  · obtain ⟨-, low, here⟩ := (window.mem m e').1 (List.mem_cons_of_mem _ mem)
    exact ⟨ascending.1 m (List.mem_map_of_mem mem), low, here⟩
  · rintro ⟨after, low, here⟩
    have mem := (window.mem m e').2 ⟨window.next.after.trans after, low, here⟩
    rcases List.mem_cons.1 mem with same | later
    · exact absurd (Prod.mk.inj same).1 after.ne'
    · exact later

/-- **Reading a window keeps the reader beside the store.** -/
theorem Agrees.readAll {high : ℕ} (rows : List (ℕ × Event κ γ)) :
    ∀ {r : Reader κ γ}, Sound home r.cursor c → Agrees c r → Window c.log r.cursor high rows →
      Agrees c (r.readAll c rows) := by
  induction rows with
  | nil => exact fun _ agrees _ => agrees
  | cons entry rows ih =>
      intro r sound agrees window
      obtain ⟨n, e⟩ := entry
      have next := window.next
      refine ih ?_ (agrees.read sound next) ?_
      · rw [Reader.read_cursor]
        exact sound.mono next.after.le
      · rw [Reader.read_cursor]
        exact window.tail

/-- A reader that starts from the store, with nothing unread. -/
theorem Agrees.start (sound : Sound home r.cursor c)
    (whole : ∀ n e, c.log n = some e → n ≤ r.cursor)
    (count : ∀ a, r.count a = if c.group a = true then
      some {x | ∃ m, c.member x = some m ∧ m.group = a ∧ m.live = true}.ncard else none)
    (aside : ∀ a x, r.aside a x = true ↔ ∃ m, c.member x = some m ∧ m.group = a ∧ m.live = false) :
    Agrees c r := by
  have seen : ∀ x m, c.member x = some m → m.first ≤ r.cursor := by
    intro x m there
    by_contra unseen
    exact unseen (whole m.first _ ((sound.present x m there).first (not_le.1 unseen)))
  have aside_eq : ∀ x m, c.member x = some m → r.aside m.group x = !m.live := by
    intro x m there
    rw [Bool.eq_iff_iff, aside, Bool.not_eq_true']
    constructor
    · rintro ⟨m', there', -, dead⟩
      obtain rfl := Option.some.inj (there.symm.trans there')
      exact dead
    · exact fun dead => ⟨m, there, rfl, dead⟩
  constructor
  case count =>
    intro a k _ shown
    rw [count] at shown
    split at shown
    case isFalse => cases shown
    case isTrue =>
      obtain rfl := Option.some.inj shown
      congr 1
      ext x
      refine exists_congr fun m => and_congr_right fun there => and_congr_right fun group => ?_
      rw [← group, aside_eq x m there, Bool.not_eq_false']
      exact ⟨fun alive => ⟨seen x m there, alive⟩, fun inside => inside.2⟩
  case aside =>
    intro a x _ put
    obtain ⟨m, there, group, -⟩ := (aside a x).1 put
    exact .inl ⟨m, there, group, seen x m there⟩
  case live => exact fun x m there _ _ => aside_eq x m there
  case shown =>
    intro a there _
    rw [count, if_pos there]
    exact .inl rfl
  case unread =>
    intro x n k here after _
    exact absurd (whole n _ here) (not_le.2 after)

/-- **What a reader of the whole log counts in a group are its live members.** -/
theorem Agrees.count_eq (agrees : Agrees c r) (sound : Sound home r.cursor c)
    (read : ∀ n e, c.log n = some e → n ≤ r.cursor) {a : γ} {k : ℕ} (shown : r.count a = some k) :
    k = {x | ∃ m, c.member x = some m ∧ m.group = a ∧ m.live = true}.ncard := by
  have settled : ∀ b, Settled c r.cursor b := fun b n here => read n _ here
  rw [agrees.count a k (settled a) shown]
  congr 1
  ext x
  refine exists_congr fun m => and_congr_right fun there' => and_congr_right fun group => ?_
  have present := sound.present x m there'
  have seen : m.seq ≤ r.cursor := by
    by_contra unread
    exact unread (read m.seq _ (present.last (not_le.1 unread)))
  have live := agrees.live x m there' (settled _) seen
  rw [group] at live
  rw [live]
  constructor
  · rintro ⟨-, inside⟩
    simpa using inside
  · intro alive
    exact ⟨present.le.trans seen, by rw [alive]; rfl⟩

/-- A reader of the whole log shows every group that is there. -/
theorem Agrees.shows (agrees : Agrees c r) (read : ∀ n e, c.log n = some e → n ≤ r.cursor) {a : γ}
    (there : c.group a = true) : (r.count a).isSome := by
  rcases agrees.shown a there fun n here => read n _ here with shown | ⟨k, after, announced⟩
  · exact shown
  · exact absurd (read k _ announced.1) (not_le.2 after)

end Moves

end Kiagent.Theory.Tally
