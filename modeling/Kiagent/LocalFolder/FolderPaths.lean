/-
# LocalFolder.FolderPaths -- folders under folders, by their paths

`isUnder` reads containment off two resolved paths: the root is a prefix that ends at a
separator.  It is a partial order in which the folders above one path are comparable, so
`coveringRoots` is `Theory.Covering.tops` of it (`coveringRoots_eq_tops`).
-/
import Kiagent.Theory.Covering

namespace Kiagent.LocalFolder

open Kiagent.Theory
open Kiagent.Theory.Covering

set_option autoImplicit false

abbrev Text := List Char

/-- A resolved absolute path. -/
structure FolderPath where
  text : Text
  deriving DecidableEq, Repr

def isSeparator (c : Char) : Bool := c = '/' || c = '\\'

/-- Drive roots and `/` end with one. -/
def FolderPath.endsWithSeparator (root : FolderPath) : Bool := root.text.getLast?.any isSeparator

def isUnder (p root : FolderPath) : Bool :=
  if p = root then true
  else if !root.text.isPrefixOf p.text then false
  else if root.endsWithSeparator then true
  else p.text[root.text.length]?.any isSeparator

def coveringRoots (paths : List FolderPath) : List FolderPath :=
  paths.filter fun p => !paths.any fun r => decide (r ≠ p) && isUnder p r

/-! ## Containment is an order -/

/-- The rest of the path starts at a separator, the root's own or its first character. -/
def startsBelow (root : FolderPath) (rest : Text) : Prop :=
  root.endsWithSeparator = true ∨ rest.head?.any isSeparator = true

theorem isUnder_iff {p root : FolderPath} :
    isUnder p root = true ↔
      p = root ∨ ∃ rest, p.text = root.text ++ rest ∧ startsBelow root rest := by
  unfold isUnder startsBelow
  split
  · simp [*]
  · rename_i ne
    by_cases within : root.text <+: p.text
    · obtain ⟨rest, split⟩ := within
      have nth : p.text[root.text.length]? = rest.head? := by
        rw [← split, List.getElem?_append_right (Nat.le_refl _), Nat.sub_self,
          List.head?_eq_getElem?]
      have inside : root.text.isPrefixOf p.text = true := List.isPrefixOf_iff_prefix.2 ⟨rest, split⟩
      have only : ∀ other, p.text = root.text ++ other ↔ rest = other := fun other => by
        rw [← split, List.append_cancel_left_eq]
      simp [ne, inside, nth, only]
    · have apart : ∀ rest, p.text ≠ root.text ++ rest := fun rest same => within ⟨rest, same.symm⟩
      simp [ne, within, apart]

theorem isUnder_refl (p : FolderPath) : isUnder p p = true := isUnder_iff.2 (.inl rfl)

theorem startsBelow_append {root : FolderPath} {rest more : Text} (below : startsBelow root rest) :
    startsBelow root (rest ++ more) := by
  rcases below with own | first
  · exact .inl own
  · cases rest with
    | nil => exact absurd first nofun
    | cons c cs => exact .inr first

theorem isUnder_trans {p q root : FolderPath} (pq : isUnder p q = true)
    (qr : isUnder q root = true) : isUnder p root = true := by
  rcases isUnder_iff.1 pq with rfl | ⟨inner, split, -⟩
  · exact qr
  · rcases isUnder_iff.1 qr with rfl | ⟨outer, split', below⟩
    · exact pq
    · refine isUnder_iff.2 (.inr ⟨outer ++ inner, ?_, startsBelow_append below⟩)
      rw [split, split', List.append_assoc]

theorem isUnder_antisymm {p q : FolderPath} (pq : isUnder p q = true) (qp : isUnder q p = true) :
    p = q := by
  rcases isUnder_iff.1 pq with same | ⟨rest, split, -⟩
  · exact same
  · rcases isUnder_iff.1 qp with same | ⟨rest', split', -⟩
    · exact same.symm
    · have longer := congrArg List.length split
      have longer' := congrArg List.length split'
      rw [List.length_append] at longer longer'
      obtain rfl : rest = [] := List.length_eq_zero_iff.1 (by omega)
      rw [List.append_nil] at split
      cases p
      cases q
      exact congrArg FolderPath.mk split

/-- `p ≤ root`: the folder `root` covers `p`. -/
instance : PartialOrder FolderPath where
  le p root := isUnder p root = true
  le_refl := isUnder_refl
  le_trans _ _ _ := isUnder_trans
  le_antisymm _ _ := isUnder_antisymm

instance : DecidableLE FolderPath := fun p root =>
  inferInstanceAs (Decidable (isUnder p root = true))

theorem le_iff {p root : FolderPath} : p ≤ root ↔ isUnder p root = true := Iff.rfl

/-- A path that goes on from the root for a part of what is below it. -/
theorem isUnder_of_between {root s : FolderPath} {between more : Text}
    (longer : s.text = root.text ++ between) (below : startsBelow root (between ++ more)) :
    isUnder s root = true := by
  cases between with
  | nil =>
      cases s
      cases root
      rw [List.append_nil] at longer
      exact isUnder_iff.2 (.inl (congrArg FolderPath.mk longer))
  | cons c cs => exact isUnder_iff.2 (.inr ⟨c :: cs, longer, below⟩)

/-- Two folders above one path are prefixes of it, and the longer one goes on from the
shorter where the path does. -/
theorem isUnder_comparable {p r s : FolderPath} (pr : isUnder p r = true)
    (ps : isUnder p s = true) : isUnder r s = true ∨ isUnder s r = true := by
  rcases isUnder_iff.1 pr with rfl | ⟨rest, split, below⟩
  · exact .inl ps
  rcases isUnder_iff.1 ps with rfl | ⟨rest', split', below'⟩
  · exact .inr pr
  rw [split] at split'
  rcases List.append_eq_append_iff.1 split' with ⟨between, longer, rfl⟩ | ⟨between, longer, rfl⟩
  · exact .inr (isUnder_of_between longer below)
  · exact .inl (isUnder_of_between longer below')

instance : Forest FolderPath where
  comparable := isUnder_comparable

theorem coveringRoots_eq_tops (paths : List FolderPath) : coveringRoots paths = tops paths := by
  unfold coveringRoots tops
  simp only [le_iff, Bool.decide_eq_true]

end Kiagent.LocalFolder
