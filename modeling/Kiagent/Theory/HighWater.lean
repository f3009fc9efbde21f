/-
# Theory.HighWater -- replication above a high-water mark

A leader holds at most one version of each key, a stamp and a value, and gives
every new version a stamp above all earlier ones.  A follower asks for the
versions above the highest stamp it holds, and takes what it is sent.

* `Held` -- the follower has every version of the leader at or below its mark;
* `Sent` -- a mail covers the versions between the mark it was asked from and a
  bound, and is never newer than what the leader holds now.

Both survive new versions (`Held.mono`, `Sent.mono`), and a delivery restores
`Held` at a higher mark (`Held.deliver`).  `Held.latest`: at a mark no version
of the leader is above, the follower holds the leader's versions.
-/
import Mathlib.Order.MinMax

namespace Kiagent.Theory

set_option autoImplicit false

variable {κ S V : Type} [LinearOrder S]

/-- One version of each key. -/
abbrev Versions (κ S V : Type) := κ → Option (S × V)

/-- A version in the mail. -/
structure Mailed (κ S V : Type) where
  key : κ
  stamp : S
  value : V

/-- The copy has every version of the leader up to its mark. -/
def Held (leader copy : Versions κ S V) (mark : S) : Prop :=
  ∀ k s v, leader k = some (s, v) → s ≤ mark → copy k = some (s, v)

/-- The mail covers what lies above `mark` and within `bound`. -/
structure Sent (leader : Versions κ S V) (mark bound : S) (mail : List (Mailed κ S V)) : Prop where
  within : ∀ e ∈ mail, mark < e.stamp ∧ e.stamp ≤ bound
  covers : ∀ k s v, leader k = some (s, v) → mark < s → s ≤ bound → ⟨k, s, v⟩ ∈ mail
  stale : ∀ e ∈ mail, ∀ s v, leader e.key = some (s, v) → e.stamp ≤ s

variable {leader leader' copy copy' : Versions κ S V} {mark mark' bound : S}
  {mail : List (Mailed κ S V)}

/-- New versions above the mark are no debt of the copy. -/
theorem Held.mono (held : Held leader copy mark)
    (newer : ∀ k s v, leader' k = some (s, v) → leader k = some (s, v) ∨ mark < s) :
    Held leader' copy mark := by
  intro k s v version low
  rcases newer k s v version with old | fresh
  · exact held k s v old low
  · exact absurd low (not_le_of_gt fresh)

/-- New versions above the bound are no part of the mail. -/
theorem Sent.mono (sent : Sent leader mark bound mail)
    (newer : ∀ k s v, leader' k = some (s, v) → leader k = some (s, v) ∨ bound < s) :
    Sent leader' mark bound mail where
  within := sent.within
  covers k s v version above low := by
    rcases newer k s v version with old | fresh
    · exact sent.covers k s v old above low
    · exact absurd low (not_le_of_gt fresh)
  stale e mem s v version := by
    rcases newer _ s v version with old | fresh
    · exact sent.stale e mem s v old
    · exact le_of_lt (lt_of_le_of_lt (sent.within e mem).2 fresh)

/-- A mail of every version above the mark, within any bound on them. -/
theorem Sent.of_all (above : ∀ e ∈ mail, mark < e.stamp ∧ leader e.key = some (e.stamp, e.value))
    (all : ∀ k s v, leader k = some (s, v) → mark < s → ⟨k, s, v⟩ ∈ mail)
    (bounded : ∀ k s v, leader k = some (s, v) → s ≤ bound) : Sent leader mark bound mail where
  within e mem := ⟨(above e mem).1, bounded _ _ _ (above e mem).2⟩
  covers k s v version high _ := all k s v version high
  stale e mem s v version := by
    rw [(above e mem).2] at version
    obtain ⟨rfl, -⟩ := Prod.mk.inj (Option.some.inj version)
    exact le_refl _

/-- **A delivery raises the mark.**  The copy takes what was mailed and keeps the
rest; its new mark is within the bound of the mail. -/
theorem Held.deliver (held : Held leader copy mark) (sent : Sent leader mark bound mail)
    (taken : ∀ e ∈ mail, copy' e.key = some (e.stamp, e.value))
    (kept : ∀ k, (∀ e ∈ mail, e.key ≠ k) → copy' k = copy k)
    (marked : mark' ≤ max mark bound) : Held leader copy' mark' := by
  intro k s v version low
  by_cases old : s ≤ mark
  · rw [kept k, held k s v version old]
    rintro e mem rfl
    exact absurd (le_trans (sent.stale e mem s v version) old)
      (not_le_of_gt (sent.within e mem).1)
  · have above := lt_of_not_ge old
    have within : s ≤ bound := by
      rcases le_max_iff.1 (le_trans low marked) with low' | low'
      · exact absurd low' old
      · exact low'
    exact taken _ (sent.covers k s v version above within)

/-- **At a mark above every version the copy holds what the leader holds.** -/
theorem Held.latest (held : Held leader copy mark)
    (top : ∀ k s v, leader k = some (s, v) → s ≤ mark) {k : κ} {s : S} {v : V}
    (version : leader k = some (s, v)) : copy k = some (s, v) :=
  held k s v version (top k s v version)

end Kiagent.Theory
