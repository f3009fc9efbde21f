/-
# Theory.SeqLog -- tables numbered by an autoincrement counter

A `SeqLog` is a table whose primary key is an autoincrement number: entries in
ascending order, and a counter no number exceeds.  The counter survives deletes
(numbers are never reused) and can be raised from outside, which is how a new
range is opened.

A `KeyedLog` is such a table with a second unique column, of which two writes
are made:

* `touch` -- delete the key's entry and append it again, so that its number is
  the newest (`numberOf_touch`);
* `note` -- append the key unless it is there (`numberOf_note`).

What a reader sees above a number is `since`; `mem_since_iff` says it is the
keys whose current number is above it.
-/
import Kiagent.Theory.Table

namespace Kiagent.Theory

set_option autoImplicit false

universe u

/-- Entries in ascending order of their number, below a counter. -/
structure SeqLog (α : Type u) where
  entries : List (Nat × α)
  counter : Nat
  ascending : (entries.map Prod.fst).Pairwise (· < ·)
  below : ∀ e ∈ entries, e.1 ≤ counter

namespace SeqLog

variable {α : Type u}

def empty : SeqLog α := ⟨[], 0, List.Pairwise.nil, by simp⟩

/-- The number the next append takes. -/
def next (l : SeqLog α) : Nat := l.counter + 1

def append (l : SeqLog α) (a : α) : SeqLog α where
  entries := l.entries ++ [(l.next, a)]
  counter := l.next
  ascending := by
    rw [List.map_append, List.pairwise_append]
    refine ⟨l.ascending, List.pairwise_singleton _ _, ?_⟩
    intro n mem m last
    obtain ⟨e, he, rfl⟩ := List.mem_map.1 mem
    obtain rfl : m = l.next := by simpa using last
    exact Nat.lt_succ_of_le (l.below e he)
  below := by
    intro e mem
    rcases List.mem_append.1 mem with old | new
    · exact Nat.le_succ_of_le (l.below e old)
    · obtain rfl : e = (l.next, a) := by simpa using new
      exact Nat.le_refl _

/-- Entries that satisfy `p`; the counter stays. -/
def filter (l : SeqLog α) (p : Nat × α → Bool) : SeqLog α where
  entries := l.entries.filter p
  counter := l.counter
  ascending := l.ascending.sublist (List.filter_sublist.map _)
  below e mem := l.below e (List.mem_of_mem_filter mem)

/-- Rewrite the entry numbered `n` in place. -/
def update (l : SeqLog α) (n : Nat) (f : α → α) : SeqLog α where
  entries := l.entries.map fun e => if e.1 = n then (e.1, f e.2) else e
  counter := l.counter
  ascending := by
    have same : (Prod.fst ∘ fun e : Nat × α => if e.1 = n then (e.1, f e.2) else e) = Prod.fst := by
      funext e
      simp only [Function.comp_apply]
      split <;> rfl
    rw [List.map_map, same]
    exact l.ascending
  below := by
    intro e mem
    obtain ⟨x, old, rfl⟩ := List.mem_map.1 mem
    split <;> exact l.below x old

/-- `UPDATE sqlite_sequence SET seq = max(seq, n)`. -/
def raise (l : SeqLog α) (n : Nat) : SeqLog α where
  entries := l.entries
  counter := max l.counter n
  ascending := l.ascending
  below e mem := Nat.le_trans (l.below e mem) (Nat.le_max_left _ _)

/-- The entries numbered above `n`, in order. -/
def since (l : SeqLog α) (n : Nat) : List (Nat × α) := l.entries.filter fun e => n < e.1

/-- `MAX(number)`, zero on an empty table. -/
def head (l : SeqLog α) : Nat := (l.entries.map Prod.fst).foldr max 0

/-- Put `(n, a)` at its place in the order, unless the number is taken. -/
def insertEntry (n : Nat) (a : α) : List (Nat × α) → List (Nat × α)
  | [] => [(n, a)]
  | e :: es =>
      if n < e.1 then (n, a) :: e :: es
      else if n = e.1 then e :: es
      else e :: insertEntry n a es

theorem mem_insertEntry {n : Nat} {a : α} {e : Nat × α} :
    (es : List (Nat × α)) → e ∈ insertEntry n a es → e = (n, a) ∨ e ∈ es
  | [], mem => by simpa [insertEntry] using mem
  | x :: es, mem => by
      simp only [insertEntry] at mem
      split at mem
      · simpa using mem
      · split at mem
        · exact Or.inr mem
        · rcases List.mem_cons.1 mem with rfl | tail
          · exact Or.inr List.mem_cons_self
          · rcases mem_insertEntry es tail with new | old
            · exact Or.inl new
            · exact Or.inr (List.mem_cons_of_mem _ old)

/-- After `INSERT OR IGNORE` the number is in the log, under this row or another. -/
theorem mem_insertEntry_self (n : Nat) (a : α) : (es : List (Nat × α)) →
    ∃ e ∈ insertEntry n a es, e.1 = n
  | [] => ⟨(n, a), List.mem_singleton.2 rfl, rfl⟩
  | x :: es => by
      unfold insertEntry
      split
      · exact ⟨(n, a), List.mem_cons_self .., rfl⟩
      · split
        · rename_i same
          exact ⟨x, List.mem_cons_self .., same.symm⟩
        · obtain ⟨e, mem, here⟩ := mem_insertEntry_self n a es
          exact ⟨e, List.mem_cons_of_mem _ mem, here⟩

theorem mem_insertEntry_old (n : Nat) (a : α) {e : Nat × α} : (es : List (Nat × α)) →
    e ∈ es → e ∈ insertEntry n a es
  | x :: es, mem => by
      unfold insertEntry
      split
      · exact List.mem_cons_of_mem _ mem
      · split
        · exact mem
        · rcases List.mem_cons.1 mem with rfl | tail
          · exact List.mem_cons_self ..
          · exact List.mem_cons_of_mem _ (mem_insertEntry_old n a es tail)

/-- A number that is taken stays with its row. -/
theorem insertEntry_taken {n : Nat} (a : α) : (es : List (Nat × α)) →
    (es.map Prod.fst).Pairwise (· < ·) → (∃ e ∈ es, e.1 = n) → insertEntry n a es = es
  | x :: es, sorted, taken => by
      rw [List.map_cons, List.pairwise_cons] at sorted
      unfold insertEntry
      obtain ⟨e, mem, rfl⟩ := taken
      rcases List.mem_cons.1 mem with rfl | tail
      · rw [if_neg (Nat.lt_irrefl _), if_pos rfl]
      · have after : x.1 < e.1 := sorted.1 _ (List.mem_map_of_mem tail)
        rw [if_neg (by omega), if_neg (by omega), insertEntry_taken a es sorted.2 ⟨e, tail, rfl⟩]

theorem insertEntry_ascending (n : Nat) (a : α) :
    (es : List (Nat × α)) → (es.map Prod.fst).Pairwise (· < ·) →
      ((insertEntry n a es).map Prod.fst).Pairwise (· < ·)
  | [], _ => List.pairwise_singleton _ _
  | x :: es, sorted => by
      simp only [insertEntry]
      rw [List.map_cons, List.pairwise_cons] at sorted
      split
      · rename_i first
        refine List.pairwise_cons.2 ⟨?_, List.pairwise_cons.2 sorted⟩
        intro m mem
        rcases List.mem_cons.1 mem with rfl | tail
        · exact first
        · exact Nat.lt_trans first (sorted.1 m tail)
      · split
        · exact List.pairwise_cons.2 sorted
        · refine List.pairwise_cons.2 ⟨?_, insertEntry_ascending n a es sorted.2⟩
          intro m mem
          obtain ⟨e, he, rfl⟩ := List.mem_map.1 mem
          rcases mem_insertEntry es he with rfl | old
          · omega
          · exact sorted.1 _ (List.mem_map_of_mem old)

/-- `INSERT OR IGNORE` at a given number, which the counter then covers. -/
def insertAt (l : SeqLog α) (n : Nat) (a : α) : SeqLog α where
  entries := insertEntry n a l.entries
  counter := max l.counter n
  ascending := insertEntry_ascending n a l.entries l.ascending
  below := by
    intro e mem
    rcases mem_insertEntry l.entries mem with rfl | old
    · exact Nat.le_max_right _ _
    · exact Nat.le_trans (l.below e old) (Nat.le_max_left _ _)

theorem mem_append {l : SeqLog α} {a : α} {e : Nat × α} :
    e ∈ (l.append a).entries ↔ e ∈ l.entries ∨ e = (l.next, a) := by
  simp [append]

theorem mem_filter {l : SeqLog α} {p : Nat × α → Bool} {e : Nat × α} :
    e ∈ (l.filter p).entries ↔ e ∈ l.entries ∧ p e = true := by
  simp [filter]

theorem mem_update {l : SeqLog α} {n : Nat} {f : α → α} {e : Nat × α} :
    e ∈ (l.update n f).entries ↔
      (e ∈ l.entries ∧ e.1 ≠ n) ∨ ∃ a, (n, a) ∈ l.entries ∧ e = (n, f a) := by
  simp only [update, List.mem_map]
  constructor
  · rintro ⟨x, mem, rfl⟩
    split
    · rename_i here
      exact .inr ⟨x.2, here ▸ mem, by rw [here]⟩
    · rename_i off
      exact .inl ⟨mem, off⟩
  · rintro (⟨mem, off⟩ | ⟨a, mem, rfl⟩)
    · exact ⟨e, mem, if_neg off⟩
    · exact ⟨(n, a), mem, if_pos rfl⟩

/-- The numbers of a log are unique. -/
theorem eq_of_number {l : SeqLog α} {e e' : Nat × α} (mem : e ∈ l.entries)
    (mem' : e' ∈ l.entries) (same : e.1 = e'.1) : e = e' :=
  List.inj_on_of_nodup_map (l.ascending.imp Nat.ne_of_lt) mem mem' same

theorem mem_since {l : SeqLog α} {n : Nat} {e : Nat × α} :
    e ∈ l.since n ↔ e ∈ l.entries ∧ n < e.1 := by
  simp [since]

theorem le_foldr_max : (ns : List Nat) → {n : Nat} → n ∈ ns → n ≤ ns.foldr max 0
  | m :: ns, n, mem => by
      rw [List.foldr_cons]
      rcases List.mem_cons.1 mem with rfl | tail
      · exact Nat.le_max_left _ _
      · exact Nat.le_trans (le_foldr_max ns tail) (Nat.le_max_right _ _)

theorem foldr_max_le (bound : Nat) :
    (ns : List Nat) → (∀ n ∈ ns, n ≤ bound) → ns.foldr max 0 ≤ bound
  | [], _ => Nat.zero_le _
  | m :: ns, within => by
      rw [List.foldr_cons, Nat.max_le]
      exact ⟨within m List.mem_cons_self,
        foldr_max_le bound ns fun n mem => within n (List.mem_cons_of_mem _ mem)⟩

theorem le_head {l : SeqLog α} {e : Nat × α} (mem : e ∈ l.entries) : e.1 ≤ l.head :=
  le_foldr_max _ (List.mem_map_of_mem mem)

theorem head_le_counter (l : SeqLog α) : l.head ≤ l.counter := by
  apply foldr_max_le
  intro n mem
  obtain ⟨e, he, rfl⟩ := List.mem_map.1 mem
  exact l.below e he

/-- Entries stay, and no number is given twice. -/
structure Grows (l l' : SeqLog α) : Prop where
  entries : ∀ e ∈ l.entries, e ∈ l'.entries
  counter : l.counter ≤ l'.counter

namespace Grows

theorem refl (l : SeqLog α) : Grows l l := ⟨fun _ mem => mem, Nat.le_refl _⟩

theorem trans {a b c : SeqLog α} (first : Grows a b) (second : Grows b c) : Grows a c :=
  ⟨fun e mem => second.entries e (first.entries e mem), Nat.le_trans first.counter second.counter⟩

theorem append (l : SeqLog α) (a : α) : Grows l (l.append a) :=
  ⟨fun _ mem => mem_append.2 (.inl mem), Nat.le_succ _⟩

theorem insertAt (l : SeqLog α) (n : Nat) (a : α) : Grows l (l.insertAt n a) :=
  ⟨fun _ mem => mem_insertEntry_old n a l.entries mem, Nat.le_max_left _ _⟩

theorem head {l l' : SeqLog α} (grows : Grows l l') : l.head ≤ l'.head :=
  foldr_max_le _ _ fun n mem => by
    obtain ⟨e, there, rfl⟩ := List.mem_map.1 mem
    exact le_head (grows.entries e there)

end Grows

/-- **A window of the entries above a number** holds what there is up to its last. -/
theorem mem_take_since {l : SeqLog α} {after size : Nat} {e : Nat × α} :
    e ∈ (l.since after).take size ↔ e ∈ l.entries ∧ after < e.1 ∧
      e.1 ≤ ((((l.since after).take size).getLast?).map Prod.fst).getD after := by
  have sorted : (l.since after).Pairwise fun a b => a.1 < b.1 :=
    (List.pairwise_map.1 l.ascending).sublist List.filter_sublist
  have parts := List.take_append_drop size (l.since after)
  generalize (l.since after).take size = window at parts ⊢
  rw [← parts, List.pairwise_append] at sorted
  constructor
  · intro mem
    obtain ⟨here, above⟩ := mem_since.1 (parts ▸ List.mem_append_left _ mem)
    refine ⟨here, above, ?_⟩
    cases last : window.getLast? with
    | none =>
        rw [List.getLast?_eq_none_iff.1 last] at mem
        cases mem
    | some x =>
        obtain ⟨before, rfl⟩ := List.getLast?_eq_some_iff.1 last
        rcases List.mem_append.1 mem with early | same
        · have order := (List.pairwise_append.1 sorted.1).2.2 e early x (List.mem_singleton.2 rfl)
          exact Nat.le_of_lt order
        · rw [List.mem_singleton.1 same]
          exact Nat.le_refl _
  · rintro ⟨here, above, reached⟩
    have all : e ∈ l.since after := mem_since.2 ⟨here, above⟩
    rw [← parts] at all
    rcases List.mem_append.1 all with inside | later
    · exact inside
    · cases last : window.getLast? with
      | none =>
          rw [last] at reached
          exact absurd above (Nat.not_lt.2 reached)
      | some x =>
          rw [last] at reached
          have order := sorted.2.2 x (List.mem_of_getLast? last) e later
          exact absurd order (Nat.not_lt.2 reached)

@[simp] theorem counter_append (l : SeqLog α) (a : α) : (l.append a).counter = l.counter + 1 := rfl

@[simp] theorem counter_filter (l : SeqLog α) (p : Nat × α → Bool) :
    (l.filter p).counter = l.counter := rfl

@[simp] theorem counter_raise (l : SeqLog α) (n : Nat) : (l.raise n).counter = max l.counter n := rfl

end SeqLog

/-! ## A second unique column -/

/-- An autoincrement table with one other column, which is unique. -/
structure KeyedLog (κ : Type u) extends SeqLog κ where
  keys_nodup : (entries.map Prod.snd).Nodup

namespace KeyedLog

variable {κ : Type u} [DecidableEq κ]

def empty : KeyedLog κ := ⟨SeqLog.empty, List.nodup_nil⟩

/-- The number a key currently carries. -/
def numberOf (l : KeyedLog κ) (k : κ) : Option Nat :=
  (lookup Prod.snd k l.entries).map Prod.fst

/-- The keys numbered above `n`, in the order of their numbers. -/
def keysSince (l : KeyedLog κ) (n : Nat) : List κ := (l.since n).map Prod.snd

/-- `DELETE .. WHERE key = k`. -/
def forget (l : KeyedLog κ) (k : κ) : KeyedLog κ where
  toSeqLog := l.filter fun e => !decide (e.2 = k)
  keys_nodup := l.keys_nodup.sublist (List.filter_sublist.map _)

theorem mem_forget {l : KeyedLog κ} {k : κ} {e : Nat × κ} :
    e ∈ (l.forget k).entries ↔ e ∈ l.entries ∧ e.2 ≠ k := by
  simp [forget, SeqLog.filter]

/-- Delete then insert: the key's number becomes the newest. -/
def touch (l : KeyedLog κ) (k : κ) : KeyedLog κ where
  toSeqLog := (l.forget k).append k
  keys_nodup := by
    simp only [SeqLog.append, List.map_append, List.map_cons, List.map_nil]
    rw [List.nodup_append]
    refine ⟨(l.forget k).keys_nodup, by simp, ?_⟩
    intro a mem b last
    obtain ⟨e, he, rfl⟩ := List.mem_map.1 mem
    obtain rfl : b = k := by simpa using last
    exact (mem_forget.1 he).2

/-- `INSERT OR IGNORE`: append the key unless it has an entry. -/
def note (l : KeyedLog κ) (k : κ) : KeyedLog κ :=
  if fresh : lookup Prod.snd k l.entries = none then
    { toSeqLog := l.append k
      keys_nodup := by
        simp only [SeqLog.append, List.map_append, List.map_cons, List.map_nil]
        rw [List.nodup_append]
        refine ⟨l.keys_nodup, by simp, ?_⟩
        intro a mem b last
        obtain ⟨e, he, rfl⟩ := List.mem_map.1 mem
        obtain rfl : b = k := by simpa using last
        exact lookup_eq_none_iff.1 fresh e he }
  else l

def raise (l : KeyedLog κ) (n : Nat) : KeyedLog κ := ⟨l.toSeqLog.raise n, l.keys_nodup⟩

/-- `DELETE` of every row; the counter stays. -/
def clear (l : KeyedLog κ) : KeyedLog κ where
  toSeqLog := l.filter fun _ => false
  keys_nodup := l.keys_nodup.sublist (List.filter_sublist.map _)

@[simp] theorem counter_touch (l : KeyedLog κ) (k : κ) : (l.touch k).counter = l.counter + 1 := rfl

@[simp] theorem counter_forget (l : KeyedLog κ) (k : κ) : (l.forget k).counter = l.counter := rfl

omit [DecidableEq κ] in
@[simp] theorem counter_raise (l : KeyedLog κ) (n : Nat) :
    (l.raise n).counter = max l.counter n := rfl

theorem numberOf_eq_some_iff {l : KeyedLog κ} {k : κ} {n : Nat} :
    l.numberOf k = some n ↔ (n, k) ∈ l.entries := by
  simp only [numberOf, Option.map_eq_some_iff]
  constructor
  · rintro ⟨⟨m, k'⟩, found, rfl⟩
    obtain rfl : k' = k := lookup_key found
    exact lookup_mem found
  · intro mem
    exact ⟨(n, k), (lookup_eq_some_iff l.keys_nodup).2 ⟨mem, rfl⟩, rfl⟩

theorem numberOf_le {l : KeyedLog κ} {k : κ} {n : Nat} (h : l.numberOf k = some n) :
    n ≤ l.counter :=
  l.below _ (numberOf_eq_some_iff.1 h)

theorem numberOf_le_head {l : KeyedLog κ} {k : κ} {n : Nat} (h : l.numberOf k = some n) :
    n ≤ l.head :=
  SeqLog.le_head (numberOf_eq_some_iff.1 h)

/-- What a reader sees above `n` is every key whose number is above `n`. -/
theorem mem_since_iff {l : KeyedLog κ} {n : Nat} {k : κ} :
    k ∈ l.keysSince n ↔ ∃ m, l.numberOf k = some m ∧ n < m := by
  simp only [keysSince, List.mem_map, numberOf_eq_some_iff]
  constructor
  · rintro ⟨⟨m, k'⟩, mem, rfl⟩
    exact ⟨m, SeqLog.mem_since.1 mem⟩
  · rintro ⟨m, mem⟩
    exact ⟨(m, k), SeqLog.mem_since.2 mem, rfl⟩

theorem numberOf_forget (l : KeyedLog κ) (k k' : κ) :
    (l.forget k).numberOf k' = if k' = k then none else l.numberOf k' := by
  simp only [numberOf, forget, SeqLog.filter]
  rw [lookup_filter _ _ l.keys_nodup]
  cases found : lookup Prod.snd k' l.entries with
  | none => simp
  | some e =>
      have here := lookup_key found
      by_cases same : k' = k <;> simp [Option.filter, here, same]

/-- **A touched key carries the newest number; the others keep theirs.** -/
theorem numberOf_touch (l : KeyedLog κ) (k k' : κ) :
    (l.touch k).numberOf k' = if k' = k then some (l.counter + 1) else l.numberOf k' := by
  have base := numberOf_forget l k k'
  simp only [numberOf] at base ⊢
  simp only [touch, SeqLog.append, SeqLog.next, lookup_append]
  by_cases same : k' = k
  · subst same
    have gone : lookup Prod.snd k' (l.forget k').entries = none := by simpa using base
    simp [gone, lookup_cons]
  · rw [if_neg same] at base
    simp [lookup_cons, same, Ne.symm same, base]

theorem numberOf_raise (l : KeyedLog κ) (n : Nat) (k : κ) :
    (l.raise n).numberOf k = l.numberOf k := rfl

theorem numberOf_clear (l : KeyedLog κ) (k : κ) : l.clear.numberOf k = none := by
  simp [numberOf, clear, SeqLog.filter]

/-- A noted key has a number from then on; the others keep theirs. -/
theorem numberOf_note (l : KeyedLog κ) (k k' : κ) :
    (l.note k).numberOf k' =
      if k' = k then some ((l.numberOf k).getD (l.counter + 1)) else l.numberOf k' := by
  unfold note
  split
  · rename_i fresh
    simp only [numberOf, SeqLog.append, SeqLog.next, lookup_append]
    by_cases same : k' = k
    · subst same; simp [fresh, lookup_cons]
    · simp [lookup_cons, same, Ne.symm same]
  · rename_i taken
    obtain ⟨e, found⟩ := Option.ne_none_iff_exists'.1 taken
    by_cases same : k' = k
    · subst same; simp [numberOf, found]
    · simp [same]

/-! ## Touching several keys -/

/-- Touch the keys in turn. -/
def touchAll (l : KeyedLog κ) (ks : List κ) : KeyedLog κ := ks.foldl touch l

@[simp] theorem touchAll_nil (l : KeyedLog κ) : l.touchAll [] = l := rfl

theorem touchAll_cons (l : KeyedLog κ) (k : κ) (ks : List κ) :
    l.touchAll (k :: ks) = (l.touch k).touchAll ks := rfl

theorem counter_touchAll : (ks : List κ) → (l : KeyedLog κ) →
    (l.touchAll ks).counter = l.counter + ks.length
  | [], l => rfl
  | k :: ks, l => by
      rw [touchAll_cons, counter_touchAll ks, counter_touch, List.length_cons]
      omega

theorem numberOf_touchAll_of_not_mem {k : κ} : (ks : List κ) → (l : KeyedLog κ) → k ∉ ks →
    (l.touchAll ks).numberOf k = l.numberOf k
  | [], l, _ => rfl
  | x :: xs, l, out => by
      rw [List.mem_cons, not_or] at out
      rw [touchAll_cons, numberOf_touchAll_of_not_mem xs _ out.2, numberOf_touch, if_neg out.1]

/-- A touched key ends above every number the log held before. -/
theorem numberOf_touchAll_of_mem {k : κ} : (ks : List κ) → (l : KeyedLog κ) → k ∈ ks →
    ∃ n, (l.touchAll ks).numberOf k = some n ∧ l.counter < n
  | x :: xs, l, mem => by
      rw [touchAll_cons]
      by_cases later : k ∈ xs
      · obtain ⟨n, number, above⟩ := numberOf_touchAll_of_mem xs (l.touch x) later
        rw [counter_touch] at above
        exact ⟨n, number, by omega⟩
      · obtain rfl : k = x := (List.mem_cons.1 mem).resolve_right later
        rw [numberOf_touchAll_of_not_mem xs _ later, numberOf_touch, if_pos rfl]
        exact ⟨_, rfl, Nat.lt_succ_self _⟩

/-- Numbers only grow under touches. -/
theorem numberOf_le_touchAll {k : κ} {n : Nat} (ks : List κ) (l : KeyedLog κ)
    (number : l.numberOf k = some n) : ∃ m, (l.touchAll ks).numberOf k = some m ∧ n ≤ m := by
  by_cases mem : k ∈ ks
  · obtain ⟨m, newer, above⟩ := numberOf_touchAll_of_mem ks l mem
    have bound := numberOf_le number
    exact ⟨m, newer, by omega⟩
  · exact ⟨n, by rw [numberOf_touchAll_of_not_mem ks l mem, number], Nat.le_refl _⟩

/-- Touching distinct keys numbers them in the order they are touched. -/
theorem numberOf_touchAll_getElem? {k : κ} : (ks : List κ) → (l : KeyedLog κ) → (i : Nat) →
    ks.Nodup → ks[i]? = some k → (l.touchAll ks).numberOf k = some (l.counter + 1 + i)
  | x :: xs, l, 0, nodup, at_i => by
      obtain rfl : x = k := by simpa using at_i
      rw [touchAll_cons, numberOf_touchAll_of_not_mem xs _ (List.nodup_cons.1 nodup).1,
        numberOf_touch, if_pos rfl]
  | x :: xs, l, i + 1, nodup, at_i => by
      have later : xs[i]? = some k := by simpa using at_i
      rw [touchAll_cons, numberOf_touchAll_getElem? xs _ i (List.nodup_cons.1 nodup).2 later,
        counter_touch]
      congr 1
      omega

/-- Two entries of a log, in the order of their numbers, keep that order when
every key of a selection of the log is touched. -/
theorem touchAll_keeps_order {l source : KeyedLog κ} (p : Nat × κ → Bool) {a b : Nat × κ}
    (memA : a ∈ source.entries.filter p) (memB : b ∈ source.entries.filter p)
    (lt : a.1 < b.1) :
    ∃ m n, (l.touchAll ((source.entries.filter p).map Prod.snd)).numberOf a.2 = some m ∧
      (l.touchAll ((source.entries.filter p).map Prod.snd)).numberOf b.2 = some n ∧ m < n := by
  have nodup : ((source.entries.filter p).map Prod.snd).Nodup :=
    source.keys_nodup.sublist (List.filter_sublist.map _)
  have sorted : ((source.entries.filter p).map Prod.fst).Pairwise (· < ·) :=
    source.ascending.sublist (List.filter_sublist.map _)
  obtain ⟨i, hi⟩ := List.mem_iff_getElem?.1 memA
  obtain ⟨j, hj⟩ := List.mem_iff_getElem?.1 memB
  have numberA := numberOf_touchAll_getElem? (k := a.2) _ l i nodup (by simp [hi])
  have numberB := numberOf_touchAll_getElem? (k := b.2) _ l j nodup (by simp [hj])
  refine ⟨_, _, numberA, numberB, ?_⟩
  have before : i < j := by
    by_contra late
    rcases Nat.lt_or_eq_of_le (Nat.le_of_not_lt late) with swapped | rfl
    · have at_i : ((source.entries.filter p).map Prod.fst)[i]? = some a.1 := by simp [hi]
      have at_j : ((source.entries.filter p).map Prod.fst)[j]? = some b.1 := by simp [hj]
      obtain ⟨hi', eqA⟩ := List.getElem?_eq_some_iff.1 at_i
      obtain ⟨hj', eqB⟩ := List.getElem?_eq_some_iff.1 at_j
      have descending := List.pairwise_iff_getElem.1 sorted j i hj' hi' swapped
      omega
    · obtain rfl : a = b := Option.some.inj (hi.symm.trans hj)
      exact Nat.lt_irrefl _ lt
  omega

end KeyedLog

end Kiagent.Theory
