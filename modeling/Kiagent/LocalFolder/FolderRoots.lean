/-
# LocalFolder.FolderRoots -- the folders of an account, and an edit of them

A picked set of folders becomes the account's roots in `validateFolderRoots`, through
`coveringRoots`.  When the roots change, `partitionRemovedRoots` says of each root that
left whether its documents leave with it or go on under a root that covers it.

* `coveringRoots_covers`, `partitionRemovedRoots_sound` -- the roots cover what was
  picked, and an edit keeps a path in scope exactly when its root was kept, re-attributed,
  or a new root covers it; both hold of every list;
* `folderRootsSound_iff` -- no root lies under another one exactly when no folder that
  nothing else covers was picked twice: the filter compares a path with the paths that
  differ from it, and keeps each of two equal ones.
-/
import Kiagent.LocalFolder.FolderPaths
import Kiagent.Store.FtsQuery

namespace Kiagent.LocalFolder

open Kiagent.Theory
open Kiagent.Theory.Covering

set_option autoImplicit false

/-- `\x7b id, name \x7d`; the name is what the application shows. -/
structure FolderRootSelection where
  id : FolderPath
  name : Text
  deriving DecidableEq, Repr

def idsOf (roots : List FolderRootSelection) : List FolderPath :=
  roots.map FolderRootSelection.id

/-- `node:path` and the file system of the machine. -/
structure Host where
  basename : Text → Text
  resolve : Text → FolderPath
  /-- Whether a path is a directory, when it is there. -/
  isDirectory : FolderPath → Option Bool

variable (host : Host)

/-- A drive root has no last part, and is named by its path. -/
def rootName (absPath : FolderPath) : Text :=
  match host.basename absPath.text with
  | [] => absPath.text
  | name => name

def toFolderRoots (absPaths : List FolderPath) : List FolderRootSelection :=
  absPaths.map fun id => ⟨id, rootName host id⟩

@[simp] theorem idsOf_toFolderRoots (absPaths : List FolderPath) :
    idsOf (toFolderRoots host absPaths) = absPaths := by
  rw [idsOf, toFolderRoots, List.map_map]
  exact List.map_id _

/-! ## Picked folders -/

/-- What the validation refuses, with the path it names. -/
inductive RootsError where
  /-- `Local Folder: at least one folder path is required.` -/
  | noPaths
  /-- `Local Folder: a folder path is required.` -/
  | notAPath
  /-- `Local Folder: path does not exist: "…"` -/
  | doesNotExist (abs : FolderPath)
  /-- `Local Folder: path is not a directory: "…"` -/
  | notADirectory (abs : FolderPath)
  deriving DecidableEq, Repr

/-- One picked id, `none` when it is not a string. -/
def validateFolder (raw : Option Text) : Except RootsError FolderPath :=
  match raw with
  | none => .error .notAPath
  | some text =>
      if (Store.FtsQuery.trim text).length = 0 then .error .notAPath
      else
        let abs := host.resolve text
        match host.isDirectory abs with
        | none => .error (.doesNotExist abs)
        | some false => .error (.notADirectory abs)
        | some true => .ok abs

def validateFolderRoots (rawIds : List (Option Text)) :
    Except RootsError (List FolderRootSelection) :=
  if rawIds.length = 0 then .error .noPaths
  else do
    let resolved ← rawIds.mapM (validateFolder host)
    return toFolderRoots host (coveringRoots resolved)

/-! ## Removed roots -/

structure Reattribution where
  fromRoot : FolderPath
  toRoot : FolderPath
  deriving DecidableEq, Repr

structure RemovedRootPartition where
  archive : List FolderPath
  reattribute : List Reattribution
  deriving DecidableEq, Repr

/-- One root of the loop, behind the ones before it. -/
def placeRoot (next : List FolderRootSelection) (placed : RemovedRootPartition)
    (root : FolderRootSelection) : RemovedRootPartition :=
  if next.any fun n => n.id = root.id then placed
  else
    match next.find? fun n => isUnder root.id n.id with
    | some cover => { placed with reattribute := placed.reattribute ++ [⟨root.id, cover.id⟩] }
    | none => { placed with archive := placed.archive ++ [root.id] }

def partitionRemovedRoots (current next : List FolderRootSelection) : RemovedRootPartition :=
  current.foldl (placeRoot next) ⟨[], []⟩

def removedRootIds (current next : List FolderRootSelection) : List FolderPath :=
  (partitionRemovedRoots current next).archive

/-! ## Where a root goes -/

variable {current next : List FolderRootSelection}

theorem mem_idsOf {roots : List FolderRootSelection} {p : FolderPath} :
    p ∈ idsOf roots ↔ ∃ r ∈ roots, r.id = p := List.mem_map

theorem any_id {root : FolderRootSelection} :
    (next.any fun n => n.id = root.id) = true ↔ root.id ∈ idsOf next := by
  simp [mem_idsOf]

/-- The first root of the new list that covers the path. -/
def coverOf (next : List FolderRootSelection) (p : FolderPath) : Option FolderRootSelection :=
  next.find? fun n => isUnder p n.id

theorem coverOf_some {p : FolderPath} {n : FolderRootSelection} (found : coverOf next p = some n) :
    n ∈ next ∧ p ≤ n.id :=
  ⟨List.mem_of_find?_eq_some found, le_iff.2 (by simpa using List.find?_some found)⟩

theorem coverOf_none {p : FolderPath} : coverOf next p = none ↔ ¬ Covered (idsOf next) p := by
  simp [coverOf, Covered, mem_idsOf, le_iff]

theorem placeRoot_archive {placed : RemovedRootPartition} {root : FolderRootSelection}
    {p : FolderPath} : p ∈ (placeRoot next placed root).archive ↔
      p ∈ placed.archive ∨ p = root.id ∧ p ∉ idsOf next ∧ coverOf next p = none := by
  unfold placeRoot
  split
  · rename_i kept
    have := any_id.1 kept
    exact ⟨.inl, fun h => h.elim id fun ⟨same, out, _⟩ => absurd (same ▸ this) out⟩
  · rename_i left
    have out : root.id ∉ idsOf next := fun mem => left (any_id.2 mem)
    split
    · rename_i n found
      have found : coverOf next root.id = some n := found
      refine ⟨.inl, fun h => h.elim id fun ⟨same, _, none_⟩ => ?_⟩
      rw [same, found] at none_
      exact absurd none_ nofun
    · rename_i nothing
      have nothing : coverOf next root.id = none := nothing
      simp only [List.mem_append, List.mem_singleton]
      refine or_congr_right ⟨fun same => ?_, And.left⟩
      subst same
      exact ⟨rfl, out, nothing⟩

theorem placeRoot_reattribute {placed : RemovedRootPartition} {root : FolderRootSelection}
    {m : Reattribution} : m ∈ (placeRoot next placed root).reattribute ↔
      m ∈ placed.reattribute ∨ m.fromRoot = root.id ∧ m.fromRoot ∉ idsOf next ∧
        ∃ n, coverOf next m.fromRoot = some n ∧ m.toRoot = n.id := by
  unfold placeRoot
  split
  · rename_i kept
    have := any_id.1 kept
    exact ⟨.inl, fun h => h.elim id fun ⟨same, out, _⟩ => absurd (same ▸ this) out⟩
  · rename_i left
    have out : root.id ∉ idsOf next := fun mem => left (any_id.2 mem)
    split
    · rename_i n found
      have found : coverOf next root.id = some n := found
      simp only [List.mem_append, List.mem_singleton]
      refine or_congr_right ⟨?_, ?_⟩
      · rintro rfl
        exact ⟨rfl, out, n, found, rfl⟩
      · rintro ⟨same, _, cover, is, target⟩
        rw [same, found] at is
        obtain rfl := Option.some.inj is
        cases m
        exact congrArg₂ Reattribution.mk same target
    · rename_i nothing
      have nothing : coverOf next root.id = none := nothing
      refine ⟨.inl, fun h => h.elim id fun ⟨same, _, cover, is, _⟩ => ?_⟩
      rw [same, nothing] at is
      exact absurd is nofun

/-- What the roots of the loop add, one after the other. -/
theorem mem_foldl_placeRoot {β : Type} (part : RemovedRootPartition → List β) {x : β}
    {adds : FolderRootSelection → Prop}
    (step : ∀ placed root, x ∈ part (placeRoot next placed root) ↔ x ∈ part placed ∨ adds root)
    (roots : List FolderRootSelection) (placed : RemovedRootPartition) :
    x ∈ part (roots.foldl (placeRoot next) placed) ↔
      x ∈ part placed ∨ ∃ root ∈ roots, adds root := by
  induction roots generalizing placed with
  | nil => simp
  | cons root roots ih =>
      rw [List.foldl_cons, ih, step, or_assoc, List.exists_mem_cons_iff]

/-- The archived roots are the ones that left and that no new root covers. -/
theorem mem_archive {p : FolderPath} : p ∈ (partitionRemovedRoots current next).archive ↔
    p ∈ idsOf current ∧ p ∉ idsOf next ∧ coverOf next p = none := by
  rw [partitionRemovedRoots,
    mem_foldl_placeRoot RemovedRootPartition.archive fun _ _ => placeRoot_archive]
  constructor
  · rintro (none_ | ⟨root, mem, rfl, left⟩)
    · exact absurd none_ List.not_mem_nil
    · exact ⟨mem_idsOf.2 ⟨root, mem, rfl⟩, left⟩
  · rintro ⟨named, left⟩
    obtain ⟨root, root_mem, rfl⟩ := mem_idsOf.1 named
    exact .inr ⟨root, root_mem, rfl, left⟩

/-- The re-attributed roots are the ones that left and that a new root covers. -/
theorem mem_reattribute {m : Reattribution} :
    m ∈ (partitionRemovedRoots current next).reattribute ↔
      m.fromRoot ∈ idsOf current ∧ m.fromRoot ∉ idsOf next ∧
        ∃ n, coverOf next m.fromRoot = some n ∧ m.toRoot = n.id := by
  rw [partitionRemovedRoots,
    mem_foldl_placeRoot RemovedRootPartition.reattribute fun _ _ => placeRoot_reattribute]
  constructor
  · rintro (none_ | ⟨root, mem, same, left⟩)
    · exact absurd none_ List.not_mem_nil
    · exact ⟨mem_idsOf.2 ⟨root, mem, same.symm⟩, left⟩
  · rintro ⟨mem, left⟩
    obtain ⟨root, mem, same⟩ := mem_idsOf.1 mem
    exact .inr ⟨root, mem, same.symm, left⟩

/-! ## What an edit keeps -/

/-- Some root covers the path. -/
def inScope (roots : List FolderRootSelection) (p : FolderPath) : Prop := Covered (idsOf roots) p

/-- The two arrays and the scope on either side of an edit. -/
structure PartitionSound (current next : List FolderRootSelection) : Prop where
  /-- Only roots that left are named. -/
  left : ∀ p, (p ∈ removedRootIds current next ∨
    ∃ m ∈ (partitionRemovedRoots current next).reattribute, m.fromRoot = p) →
      p ∈ idsOf current ∧ p ∉ idsOf next
  /-- Each of them is in exactly one array. -/
  once : ∀ p ∈ idsOf current, p ∉ idsOf next →
    Xor (p ∈ removedRootIds current next)
      (∃ m ∈ (partitionRemovedRoots current next).reattribute, m.fromRoot = p)
  /-- A target is the one new root that covers. -/
  target : ∀ m ∈ (partitionRemovedRoots current next).reattribute,
    m.toRoot ∈ idsOf next ∧ isUnder m.fromRoot m.toRoot = true ∧
      ∀ n ∈ idsOf next, isUnder m.fromRoot n = true → n = m.toRoot
  /-- A path stays in scope with its root, with the root's cover or under a root that is new. -/
  scope : ∀ root ∈ idsOf current, ∀ p, isUnder p root = true →
    (inScope next p ↔
      root ∈ idsOf next ∨
      (∃ m ∈ (partitionRemovedRoots current next).reattribute, m.fromRoot = root) ∨
      ∃ n ∈ idsOf next, n ∉ idsOf current ∧ isUnder p n = true)

theorem reattributed_iff {p : FolderPath} (mem : p ∈ idsOf current) (out : p ∉ idsOf next) :
    (∃ m ∈ (partitionRemovedRoots current next).reattribute, m.fromRoot = p) ↔
      Covered (idsOf next) p := by
  rw [← not_iff_not, ← coverOf_none]
  constructor
  · intro none_
    cases found : coverOf next p with
    | none => rfl
    | some n => exact absurd ⟨⟨p, n.id⟩, mem_reattribute.2 ⟨mem, out, n, found, rfl⟩, rfl⟩ none_
  · rintro nothing ⟨m, m_mem, rfl⟩
    obtain ⟨_, _, n, found, _⟩ := mem_reattribute.1 m_mem
    rw [nothing] at found
    exact absurd found nofun

/-- **Where a path goes in an edit** between two lists of roots that cover one another
only as equals. -/
theorem partitionRemovedRoots_sound (current_antichain : Antichain (idsOf current))
    (next_antichain : Antichain (idsOf next)) : PartitionSound current next where
  left p named := by
    rcases named with archived | ⟨m, mem, rfl⟩
    · have := mem_archive.1 archived
      exact ⟨this.1, this.2.1⟩
    · have := mem_reattribute.1 mem
      exact ⟨this.1, this.2.1⟩
  once p mem out := by
    rw [reattributed_iff mem out, removedRootIds, mem_archive, coverOf_none]
    by_cases covered : Covered (idsOf next) p
    · exact .inr ⟨covered, fun archived => archived.2.2 covered⟩
    · exact .inl ⟨⟨mem, out, covered⟩, covered⟩
  target m mem := by
    obtain ⟨_, _, n, found, target⟩ := mem_reattribute.1 mem
    obtain ⟨n_mem, covers⟩ := coverOf_some found
    have n_mem : n.id ∈ idsOf next := mem_idsOf.2 ⟨n, n_mem, rfl⟩
    rw [target]
    exact ⟨n_mem, covers, fun other other_mem under =>
      Forest.cover_unique next_antichain other_mem n_mem under covers⟩
  scope root mem p under := by
    constructor
    · rintro ⟨n, n_mem, n_under⟩
      by_cases old : n ∈ idsOf current
      · -- Both roots were there before, and cover the path: they are one.
        obtain rfl := Forest.cover_unique current_antichain old mem n_under under
        exact .inl n_mem
      · exact .inr (.inr ⟨n, n_mem, old, n_under⟩)
    · rintro (kept | moved | ⟨n, n_mem, _, n_under⟩)
      · exact ⟨root, kept, under⟩
      · have out : root ∉ idsOf next := by
          obtain ⟨m, m_mem, rfl⟩ := moved
          exact (mem_reattribute.1 m_mem).2.1
        obtain ⟨n, n_mem, covers⟩ := (reattributed_iff mem out).1 moved
        exact ⟨n, n_mem, isUnder_trans under covers⟩
      · exact ⟨n, n_mem, n_under⟩

/-! ## Roots from any list of paths -/

theorem coveringRoots_antichain (paths : List FolderPath) : Antichain (coveringRoots paths) := by
  rw [coveringRoots_eq_tops]
  exact tops_antichain paths

/-- The roots cover exactly what the paths cover. -/
theorem coveringRoots_covers (paths : List FolderPath) (p : FolderPath) :
    Covered (coveringRoots paths) p ↔ Covered paths p := by
  rw [coveringRoots_eq_tops]
  exact covered_tops

/-- What the roots of a list of paths promise: they are different and none is under
another, they cover what the paths cover, and an edit from or into any other roots keeps
track of every path. -/
structure FolderRootsSound (paths : List FolderPath) : Prop where
  apart : (coveringRoots paths).Pairwise fun a b => ¬ isUnder a b = true ∧ ¬ isUnder b a = true
  covers : ∀ p, (∃ r ∈ coveringRoots paths, isUnder p r = true) ↔ ∃ r ∈ paths, isUnder p r = true
  edits : ∀ (host : Host) other, PartitionSound (toFolderRoots host (coveringRoots paths))
    (toFolderRoots host (coveringRoots other)) ∧
      PartitionSound (toFolderRoots host (coveringRoots other))
        (toFolderRoots host (coveringRoots paths))

theorem toFolderRoots_sound (before after : List FolderPath) :
    PartitionSound (toFolderRoots host (coveringRoots before))
      (toFolderRoots host (coveringRoots after)) :=
  partitionRemovedRoots_sound
    ((idsOf_toFolderRoots host _).symm ▸ coveringRoots_antichain before)
    ((idsOf_toFolderRoots host _).symm ▸ coveringRoots_antichain after)

/-- **The promise is kept** exactly when every path that is there twice lies under another
one. -/
theorem folderRootsSound_iff (paths : List FolderPath) :
    FolderRootsSound paths ↔
      ∀ p, 2 ≤ paths.count p → ∃ r ∈ paths, r ≠ p ∧ isUnder p r = true := by
  have apart : (coveringRoots paths).Pairwise
      (fun a b => ¬ isUnder a b = true ∧ ¬ isUnder b a = true) ↔
        ∀ p, 2 ≤ paths.count p → ∃ r ∈ paths, r ≠ p ∧ isUnder p r = true := by
    rw [coveringRoots_eq_tops]
    exact tops_apart_iff
  constructor
  · intro sound
    exact apart.1 sound.apart
  · intro once
    exact ⟨apart.2 once, coveringRoots_covers paths, fun host other =>
      ⟨toFolderRoots_sound host paths other, toFolderRoots_sound host other paths⟩⟩

/-- `/a` picked twice: both stay, and each of its files has two roots. -/
def twice : List FolderPath := [⟨['/', 'a']⟩, ⟨['/', 'a']⟩]

theorem folderRootsSound_twice : ¬ ∀ paths, FolderRootsSound paths := by
  intro sound
  have apart := (sound twice).apart
  rw [show coveringRoots twice = twice by decide] at apart
  exact absurd (List.pairwise_cons.1 apart).1 fun none_ =>
    (none_ _ (List.mem_singleton.2 rfl)).1 (by decide)

example : coveringRoots [⟨['/']⟩, ⟨['/', 'a']⟩, ⟨['/', 'a']⟩] = [⟨['/']⟩] := by decide

end Kiagent.LocalFolder
