/-
# Outbound.Spread -- times for a batch of scheduled sends

`spreadTimes` cuts the window into as many equal slots as there are drafts, draws a whole
minute in each, and shuffles them over the drafts.  With at least a minute for each draft
no two slots share a whole minute, so the times are distinct whatever is drawn.
-/
import Mathlib

namespace Kiagent.Outbound

set_option autoImplicit false

/-! ## The slots -/

/-- The first whole minute of slot `i`. -/
def slotLo (s : ℚ) (i : ℕ) : ℤ := ⌈i * s⌉

def slotHi (s : ℚ) (i : ℕ) : ℤ := max (slotLo s i) (⌈(i + 1) * s⌉ - 1)

/-- The minute drawn in slot `i`. -/
def slotMinute (s : ℚ) (rand : ℚ) (i : ℕ) : ℤ :=
  slotLo s i + ⌊rand * (slotHi s i - slotLo s i + 1)⌋

/-- The slots, in their order: one time in each. -/
def slotTimes (n : ℕ) (startMs : ℤ) (s : ℚ) (rand : ℕ → ℚ) : List ℤ :=
  (List.range n).map fun i => startMs + slotMinute s (rand i) i * 60000

/-- The shuffle, from position `i` down; `rand` is what is drawn next. -/
def shuffle (rand : ℕ → ℚ) : ℕ → ℕ → Array ℤ → Array ℤ
  | _, 0, slots => slots
  | drawn, i + 1, slots =>
      let j := ⌊rand drawn * (i + 2)⌋
      shuffle rand (drawn + 1) i (slots.swapIfInBounds (i + 1) j.toNat)

/-- `rand k` is what the `k`-th call of the random function returns; `none` is the throw. -/
def spreadTimes (n : ℕ) (startMs : ℤ) (minutes : ℕ) (rand : ℕ → ℚ) : Option (List ℤ) :=
  if n < 1 ∨ minutes < n then none
  else
    let s : ℚ := minutes / n
    some (shuffle rand n (n - 1) (slotTimes n startMs s rand).toArray).toList

/-- What a random function returns. -/
def Draws (rand : ℕ → ℚ) : Prop := ∀ k, 0 ≤ rand k ∧ rand k < 1

variable {s : ℚ} {r : ℚ} {i : ℕ}

/-- A slot of at least a minute holds a whole one. -/
theorem slotHi_eq (wide : 1 ≤ s) : slotHi s i = ⌈(i + 1) * s⌉ - 1 := by
  have longer : slotLo s i + 1 ≤ ⌈(i + 1) * s⌉ := by
    rw [slotLo, ← Int.ceil_add_one]
    apply Int.ceil_le_ceil
    linarith
  apply max_eq_right
  omega

/-- A draw is a minute of its slot. -/
theorem slotMinute_mem (low : 0 ≤ r) (high : r < 1) :
    slotLo s i ≤ slotMinute s r i ∧ slotMinute s r i ≤ slotHi s i := by
  have ordered : slotLo s i ≤ slotHi s i := le_max_left _ _
  have width : (0 : ℚ) < slotHi s i - slotLo s i + 1 := by
    have : (slotLo s i : ℚ) ≤ slotHi s i := by exact_mod_cast ordered
    linarith
  have nonneg : 0 ≤ ⌊r * (slotHi s i - slotLo s i + 1)⌋ := Int.floor_nonneg.2 (by positivity)
  have below : ⌊r * (slotHi s i - slotLo s i + 1)⌋ < slotHi s i - slotLo s i + 1 := by
    rw [Int.floor_lt]
    push_cast
    nlinarith
  rw [slotMinute]
  omega

theorem slotMinute_within (wide : 1 ≤ s) (low : 0 ≤ r) (high : r < 1) :
    i * s ≤ slotMinute s r i ∧ (slotMinute s r i : ℚ) < (i + 1) * s := by
  obtain ⟨lo, hi⟩ := slotMinute_mem (s := s) (i := i) low high
  rw [slotHi_eq wide] at hi
  exact ⟨Int.ceil_le.1 lo, Int.lt_ceil.1 (by omega)⟩

theorem slotTimes_increasing (wide : 1 ≤ s) {rand : ℕ → ℚ} (draws : Draws rand) (n : ℕ)
    (startMs : ℤ) : (slotTimes n startMs s rand).Pairwise (· < ·) := by
  refine List.Pairwise.map _ (fun i j before => ?_) List.pairwise_lt_range
  have ends := (slotMinute_within (i := i) wide (draws i).1 (draws i).2).2
  have begins := (slotMinute_within (i := j) wide (draws j).1 (draws j).2).1
  have apart : ((i : ℚ) + 1) * s ≤ j * s := by
    have : (i : ℚ) + 1 ≤ j := by exact_mod_cast before
    gcongr
  have : slotMinute s (rand i) i < slotMinute s (rand j) j := by
    exact_mod_cast (lt_of_lt_of_le ends apart).trans_le begins
  omega

/-! ## The shuffle -/

theorem shuffle_perm (rand : ℕ → ℚ) (i drawn : ℕ) (slots : Array ℤ) :
    (shuffle rand drawn i slots).toList.Perm slots.toList := by
  induction i generalizing drawn slots with
  | zero => exact List.Perm.refl _
  | succ i ih =>
      rw [shuffle]
      refine (ih _ _).trans ?_
      rw [Array.swapIfInBounds_def]
      split_ifs
      · exact Array.perm_iff_toList_perm.1 (Array.swap_perm _ _)
      · rfl
      · rfl

/-- **Distinct whole minutes of the window**, whatever is drawn: one in each of `n` equal
slots, handed to the drafts in any order. -/
theorem spreadTimes_spread {n minutes : ℕ} {startMs : ℤ} {rand : ℕ → ℚ} (several : 1 ≤ n)
    (room : n ≤ minutes) (draws : Draws rand) :
    ∃ times slots : List ℤ, spreadTimes n startMs minutes rand = some times ∧
      times.length = n ∧ times.Nodup ∧
      (∀ x ∈ times, ∃ k : ℕ, k < minutes ∧ x = startMs + k * 60000) ∧
      slots.Pairwise (· < ·) ∧ times.Perm slots ∧
      ∀ (i : ℕ) (x : ℤ), slots[i]? = some x → ∃ k : ℕ, x = startMs + k * 60000 ∧
        i * (minutes / n : ℚ) ≤ k ∧ (k : ℚ) < (i + 1) * (minutes / n : ℚ) := by
  have positive : (0 : ℚ) < n := by exact_mod_cast several
  have wide : (1 : ℚ) ≤ minutes / n := by
    rw [le_div_iff₀ positive, one_mul]
    exact_mod_cast room
  have ran : spreadTimes n startMs minutes rand =
      some (shuffle rand n (n - 1) (slotTimes n startMs (minutes / n) rand).toArray).toList := by
    rw [spreadTimes, if_neg (by omega)]
  have shuffled := shuffle_perm rand (n - 1) n (slotTimes n startMs (minutes / n) rand).toArray
  have increasing := slotTimes_increasing wide draws n startMs
  have slot : ∀ (i : ℕ) (x : ℤ), (slotTimes n startMs (minutes / n) rand)[i]? = some x → i < n ∧
      ∃ k : ℕ, x = startMs + k * 60000 ∧ i * (minutes / n : ℚ) ≤ k ∧
        (k : ℚ) < (i + 1) * (minutes / n : ℚ) := by
    intro i x here
    rw [slotTimes, List.getElem?_map] at here
    obtain ⟨j, listed, rfl⟩ := Option.map_eq_some_iff.1 here
    obtain ⟨inside, rfl⟩ := List.getElem?_eq_some_iff.1 listed
    rw [List.getElem_range]
    rw [List.length_range] at inside
    obtain ⟨begins, ends⟩ := slotMinute_within (i := i) wide (draws i).1 (draws i).2
    have nonneg : 0 ≤ slotMinute (minutes / n) (rand i) i := by
      have : (0 : ℚ) ≤ i * (minutes / n) := by positivity
      exact_mod_cast this.trans begins
    obtain ⟨k, eq⟩ := Int.eq_ofNat_of_zero_le nonneg
    rw [eq] at begins ends ⊢
    exact ⟨inside, k, rfl, by exact_mod_cast begins, by exact_mod_cast ends⟩
  refine ⟨_, _, ran, ?_, ?_, ?_, increasing, shuffled, fun i x here => (slot i x here).2⟩
  · simpa [slotTimes] using shuffled.length_eq
  · exact (shuffled.nodup_iff).2 (increasing.imp fun before => before.ne)
  · intro x mem
    obtain ⟨i, here⟩ := List.mem_iff_getElem?.1 ((shuffled.mem_iff).1 mem)
    obtain ⟨inside, k, eq, -, ends⟩ := slot i x here
    refine ⟨k, ?_, eq⟩
    have last : ((i : ℚ) + 1) * (minutes / n) ≤ minutes := by
      have : (i : ℚ) + 1 ≤ n := by exact_mod_cast inside
      calc ((i : ℚ) + 1) * (minutes / n) ≤ n * (minutes / n) := by gcongr
        _ = minutes := by field_simp
    exact_mod_cast ends.trans_le last

/-- Draws of zero: the shuffle hands the later minute to the first draft. -/
theorem spreadTimes_shuffled : ¬ ∀ (n minutes : ℕ) (startMs : ℤ) (rand : ℕ → ℚ), 1 ≤ n →
    n ≤ minutes → Draws rand → ∃ times : List ℤ, spreadTimes n startMs minutes rand = some times ∧
      times.Pairwise (· < ·) := by
  intro increasing
  obtain ⟨times, ran, ordered⟩ := increasing 2 2 0 (fun _ => 0) (by decide) (by decide)
    (fun _ => ⟨le_refl _, one_pos⟩)
  have turned : spreadTimes 2 0 2 (fun _ => 0) = some [60000, 0] := by decide +kernel
  rw [turned] at ran
  cases ran
  exact absurd ordered (by decide)

theorem spreadTimes_spread_three : 1 ≤ 3 ∧ 3 ≤ 7 ∧ ∃ times slots : List ℤ,
    spreadTimes 3 0 7 (fun _ => 1 / 2) = some times ∧ times.length = 3 ∧ times.Nodup ∧
      (∀ x ∈ times, ∃ k : ℕ, k < 7 ∧ x = 0 + k * 60000) ∧ slots.Pairwise (· < ·) ∧
      times.Perm slots ∧
      ∀ (i : ℕ) (x : ℤ), slots[i]? = some x → ∃ k : ℕ, x = 0 + k * 60000 ∧
        i * ((7 : ℕ) / (3 : ℕ) : ℚ) ≤ k ∧ (k : ℚ) < (i + 1) * ((7 : ℕ) / (3 : ℕ) : ℚ) :=
  ⟨by decide, by decide, spreadTimes_spread (by decide) (by decide)
    fun _ => ⟨by norm_num, by norm_num⟩⟩

end Kiagent.Outbound
