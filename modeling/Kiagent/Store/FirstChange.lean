/-
# Store.FirstChange -- the first change at or after an instant

The change log is numbered by an autoincrement counter and stamped as it is written, so
the stamps rise with the numbers, but numbers are missing: rows are pruned, and a number
whose transaction rolled back was never written.  `firstSeqAtOrAfter` bisects the numbers
and moves from one that has no row to the next row there is.

* `probe_spec` -- what a probe tells about the rows on either side;
* `firstSeqAtOrAfter_least` -- the answer is the least number whose stamp is not earlier,
  or one past the last number.

The log is of any rows with a stamp in any linear order: the store compares the texts of
its instants.
-/
import Kiagent.Store.Db
import Kiagent.Theory.Bisect

namespace Kiagent.Store

open Kiagent.Theory
open Kiagent.Theory.Bisect

set_option autoImplicit false

universe u v

variable {α : Type u} {τ : Type v} [LinearOrder τ]

/-! ## The queries -/

/-- `SELECT seq, at FROM changes WHERE seq >= ? ORDER BY seq LIMIT 1` -/
def rowFrom (log : SeqLog α) (n : Nat) : Option (Nat × α) :=
  log.entries.find? fun e => decide (n ≤ e.1)

/-- `SELECT MIN(seq) AS m FROM changes`, null on an empty log. -/
def minSeq (log : SeqLog α) : Option Nat := (log.entries.map Prod.fst).min?

/-! ## The bisection -/

/-- The number of the row found at `mid` when it is older than `since`. -/
def probe (stamp : α → τ) (log : SeqLog α) (since : τ) (mid : Nat) : Option Nat :=
  match rowFrom log mid with
  | none => none
  | some row => if stamp row.2 ≥ since then none else some row.1

/-- `none` when the rounds do not do. -/
def firstSeqAtOrAfter (stamp : α → τ) (log : SeqLog α) (since : τ) (rounds : Nat) :
    Option Nat :=
  match minSeq log with
  | none => some 1
  | some min =>
      (search (probe stamp log since) rounds min (log.head + 1)).map fun lo =>
        match rowFrom log lo with
        | some hit => hit.1
        | none => log.head + 1

/-- `store.firstChangeSeqAt` -/
def Db.firstChangeSeqAt (db : Db) (since : Time) (rounds : Nat) : Option Nat :=
  firstSeqAtOrAfter ChangeRow.time db.changes since rounds

/-! ## What the queries find -/

theorem rowFrom_some {log : SeqLog α} {n : Nat} {e : Nat × α} (found : rowFrom log n = some e) :
    e ∈ log.entries ∧ n ≤ e.1 :=
  ⟨List.mem_of_find?_eq_some found, by simpa using List.find?_some found⟩

/-- The row found is the first there is from the number on. -/
theorem rowFrom_least {log : SeqLog α} {n : Nat} {e x : Nat × α}
    (found : rowFrom log n = some e) (mem : x ∈ log.entries) (from_ : n ≤ x.1) : e.1 ≤ x.1 := by
  obtain ⟨_, front, back, split, before⟩ := List.find?_eq_some_iff_append.1 found
  have ascending := log.ascending
  rw [split, List.map_append, List.pairwise_append] at ascending
  rw [split] at mem
  rcases List.mem_append.1 mem with early | late
  · have := before x early
    simp at this
    omega
  · rcases List.mem_cons.1 late with rfl | later
    · exact Nat.le_refl _
    · rw [List.map_cons, List.pairwise_cons] at ascending
      exact Nat.le_of_lt (ascending.2.1.1 _ (List.mem_map_of_mem later))

theorem rowFrom_none {log : SeqLog α} {n : Nat} (nothing : rowFrom log n = none) {x : Nat × α}
    (mem : x ∈ log.entries) : x.1 < n := by
  have := List.find?_eq_none.1 nothing x mem
  simpa using this

theorem minSeq_none {log : SeqLog α} : minSeq log = none ↔ log.entries = [] := by
  simp [minSeq]

theorem minSeq_le {log : SeqLog α} {min : Nat} (least : minSeq log = some min) {x : Nat × α}
    (mem : x ∈ log.entries) : min ≤ x.1 :=
  (List.min?_eq_some_iff.1 least).2 _ (List.mem_map_of_mem mem)

/-! ## The boundary -/

/-- The stamps rise with the numbers. -/
def Rising (stamp : α → τ) (log : SeqLog α) : Prop :=
  log.entries.Pairwise fun a b => stamp a.2 ≤ stamp b.2

/-- The rows below the range are older; those at its end or above are not. -/
structure Bounds (stamp : α → τ) (log : SeqLog α) (since : τ) (lo hi : Nat) : Prop where
  ordered : lo ≤ hi
  older : ∀ e ∈ log.entries, e.1 < lo → stamp e.2 < since
  notOlder : ∀ e ∈ log.entries, hi ≤ e.1 → since ≤ stamp e.2

/-- The least number whose row is not older, or one past the last when all are. -/
def IsFirst (stamp : α → τ) (log : SeqLog α) (since : τ) (n : Nat) : Prop :=
  (∃ e ∈ log.entries, e.1 = n ∧ since ≤ stamp e.2 ∧
    ∀ x ∈ log.entries, since ≤ stamp x.2 → n ≤ x.1) ∨
  ((∀ e ∈ log.entries, stamp e.2 < since) ∧ n = log.head + 1)

theorem Rising.le {stamp : α → τ} {log : SeqLog α} (rising : Rising stamp log)
    {a b : Nat × α} (a_mem : a ∈ log.entries) (b_mem : b ∈ log.entries) (before : a.1 ≤ b.1) :
    stamp a.2 ≤ stamp b.2 := by
  have ascending := List.pairwise_map.1 log.ascending
  obtain ⟨i, i_lt, rfl⟩ := List.getElem_of_mem a_mem
  obtain ⟨j, j_lt, rfl⟩ := List.getElem_of_mem b_mem
  rcases Nat.lt_trichotomy i j with lt | rfl | gt
  · exact List.pairwise_iff_getElem.1 rising i j i_lt j_lt lt
  · exact le_refl _
  · have := List.pairwise_iff_getElem.1 ascending j i j_lt i_lt gt
    omega

/-- The number is determined by the log. -/
theorem IsFirst.unique {stamp : α → τ} {log : SeqLog α} {since : τ} {n m : Nat}
    (first : IsFirst stamp log since n) (other : IsFirst stamp log since m) : n = m := by
  rcases first with ⟨e, e_mem, rfl, e_late, e_least⟩ | ⟨all, rfl⟩ <;>
    rcases other with ⟨x, x_mem, rfl, x_late, x_least⟩ | ⟨all', rfl⟩
  · exact Nat.le_antisymm (e_least x x_mem x_late) (x_least e e_mem e_late)
  · exact absurd e_late (not_le_of_gt (all' e e_mem))
  · exact absurd x_late (not_le_of_gt (all x x_mem))
  · rfl

section Bisection

variable {stamp : α → τ} {log : SeqLog α} {since : τ} {lo hi mid : Nat}

/-- Nothing older is found from `mid` on: neither is any row of the numbers above. -/
theorem probe_none (rising : Rising stamp log) (answer : probe stamp log since mid = none)
    {e : Nat × α} (mem : e ∈ log.entries) (above : mid ≤ e.1) : since ≤ stamp e.2 := by
  unfold probe at answer
  split at answer
  · rename_i nothing
    have := rowFrom_none nothing mem
    omega
  · rename_i row found
    split at answer
    · rename_i late
      exact le_trans late (rising.le (rowFrom_some found).1 mem (rowFrom_least found mem above))
    · exact absurd answer nofun

/-- The row found is older, and so is every row up to it. -/
theorem probe_some (rising : Rising stamp log) {n : Nat}
    (answer : probe stamp log since mid = some n) :
    mid ≤ n ∧ ∃ row ∈ log.entries, row.1 = n ∧ stamp row.2 < since ∧
      ∀ e ∈ log.entries, e.1 ≤ n → stamp e.2 < since := by
  unfold probe at answer
  split at answer
  · exact absurd answer nofun
  · rename_i row found
    split at answer
    · exact absurd answer nofun
    · rename_i early
      obtain rfl := Option.some.inj answer
      obtain ⟨row_mem, above⟩ := rowFrom_some found
      have older := lt_of_not_ge early
      exact ⟨above, row, row_mem, rfl, older, fun e mem upto =>
        lt_of_le_of_lt (rising.le mem row_mem upto) older⟩

/-- Both moves keep the boundary inside: the row a move goes past lies below `hi`, since
the rows from `hi` on are not older. -/
theorem bounds_invariant (rising : Rising stamp log) :
    Invariant (probe stamp log since) (Bounds stamp log since) where
  ordered inv := inv.ordered
  down inv range answer :=
    { ordered := by unfold middle; omega
      older := inv.older
      notOlder := fun _ mem above => probe_none rising answer mem above }
  up {lo hi below} inv range answer := by
    obtain ⟨past, row, row_mem, rfl, row_older, upto⟩ := probe_some rising answer
    have inside : row.1 < hi := by
      by_contra outside
      exact absurd (inv.notOlder row row_mem (Nat.le_of_not_lt outside)) (not_le_of_gt row_older)
    exact ⟨past, ⟨inside, fun e mem below => upto e mem (Nat.le_of_lt_succ below),
      inv.notOlder⟩⟩

/-- The number a closed range stands for. -/
theorem isFirst_of_bounds (closed : Bounds stamp log since lo lo) :
    IsFirst stamp log since
      (match rowFrom log lo with
        | some hit => hit.1
        | none => log.head + 1) := by
  cases found : rowFrom log lo with
  | some hit =>
      obtain ⟨mem, above⟩ := rowFrom_some found
      refine .inl ⟨hit, mem, rfl, closed.notOlder hit mem above, fun x x_mem late => ?_⟩
      refine rowFrom_least found x_mem (Nat.le_of_not_lt fun below => ?_)
      exact absurd late (not_le_of_gt (closed.older x x_mem below))
  | none => exact .inr ⟨fun e mem => closed.older e mem (rowFrom_none found mem), rfl⟩

end Bisection

/-- **The bisection ends with the first change at or after the instant**, whatever numbers
are missing, within as many rounds as the numbers have binary digits. -/
theorem firstSeqAtOrAfter_least (stamp : α → τ) (log : SeqLog α) (since : τ)
    (rising : Rising stamp log) :
    ∃ n, IsFirst stamp log since n ∧ ∀ rounds, log.head + 1 < 2 ^ rounds →
      firstSeqAtOrAfter stamp log since (rounds + 1) = some n := by
  cases least : minSeq log with
  | none =>
      have bare := minSeq_none.1 least
      refine ⟨1, .inr ⟨by simp [bare], by simp [SeqLog.head, bare]⟩, fun rounds _ => ?_⟩
      simp [firstSeqAtOrAfter, least]
  | some min =>
      have start : Bounds stamp log since min (log.head + 1) :=
        { ordered := by
            obtain ⟨e, mem, rfl⟩ := List.mem_map.1 (List.min?_eq_some_iff.1 least).1
            exact Nat.le_succ_of_le (SeqLog.le_head mem)
          older := fun e mem below => absurd (minSeq_le least mem) (Nat.not_le_of_lt below)
          notOlder := fun e mem above => absurd (SeqLog.le_head mem) (Nat.not_le_of_lt above) }
      have ends : ∀ rounds, log.head + 1 < 2 ^ rounds → ∃ n, IsFirst stamp log since n ∧
          firstSeqAtOrAfter stamp log since (rounds + 1) = some n := by
        intro rounds fits
        obtain ⟨lo, closes, bounds⟩ :=
          search_spec (bounds_invariant rising) start (show _ < 2 ^ rounds by omega)
        exact ⟨_, isFirst_of_bounds bounds, by simp [firstSeqAtOrAfter, least, closes]⟩
      obtain ⟨n, first, _⟩ := ends _ Nat.lt_two_pow_self
      refine ⟨n, first, fun rounds fits => ?_⟩
      obtain ⟨m, also, result⟩ := ends rounds fits
      rw [result, first.unique also]

/-- Numbers 3, 4 and 9 are left, and 9 was written at the instant: the search from the
middle of the gap moves to it. -/
def prunedLog : SeqLog Nat where
  entries := [(3, 10), (4, 10), (9, 20)]
  counter := 9
  ascending := by decide
  below := by decide

theorem firstSeqAtOrAfter_least_pruned :
    ∃ n, IsFirst id prunedLog 20 n ∧ ∀ rounds, prunedLog.head + 1 < 2 ^ rounds →
      firstSeqAtOrAfter id prunedLog 20 (rounds + 1) = some n :=
  firstSeqAtOrAfter_least id prunedLog 20 (by unfold Rising; decide)

example : firstSeqAtOrAfter id prunedLog 20 5 = some 9 := by decide

end Kiagent.Store
