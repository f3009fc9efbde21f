/-
# Calendar.Lanes -- the columns of the day view

`layoutLanes` places the items of a day by start.  An item takes the first lane that is
free at its start; the items placed since all lanes were last free are one cluster, and
share the width of the day evenly.

A lane is only added at an instant at which every other lane is taken (`Cluster.add`),
so a cluster has as many lanes as it has items at its fullest instant, and no colouring
of its items does with fewer (`layoutLanes_optimal`).
-/
import Mathlib

namespace Kiagent.Calendar

set_option autoImplicit false

structure Lane (T : Type) where
  item : T
  lane : Nat
  lanes : Nat
  deriving DecidableEq

/-- `clusterEnd` is `none` for minus infinity. -/
structure Layout (T : Type) where
  out : List (Lane T)
  cluster : List (Lane T)
  laneEnds : List Int
  clusterEnd : Option Int

variable {T : Type} (start ends : T → Int)

/-! ## Placing -/

def effectiveEnd (item : T) : Int := max (ends item) (start item + 1)

/-- The entries of the open cluster join `out` here, with the count they are given. -/
def Layout.close (s : Layout T) : Layout T :=
  { s with
    out := s.out ++ s.cluster.map fun p => { p with lanes := s.laneEnds.length }
    cluster := []
    laneEnds := [] }

def setEnd (laneEnds : List Int) (lane : Nat) (stop : Int) : List Int :=
  if lane < laneEnds.length then laneEnds.set lane stop else laneEnds ++ [stop]

/-- The item in the first lane free at its start, a new one if there is none. -/
def Layout.push (s : Layout T) (item : T) : Layout T :=
  let stop := effectiveEnd start ends item
  let lane := s.laneEnds.findIdx fun e => e ≤ start item
  { s with
    laneEnds := setEnd s.laneEnds lane stop
    clusterEnd :=
      if s.cluster.length = 0 then some stop
      else some (s.clusterEnd.elim stop fun e => max e stop)
    cluster := s.cluster ++ [⟨item, lane, 1⟩] }

def Layout.place (s : Layout T) (item : T) : Layout T :=
  if s.clusterEnd.all fun e => e ≤ start item then s.close.push start ends item
  else s.push start ends item

def sortByStart (items : List T) : List T :=
  items.insertionSort fun a b => start a ≤ start b

def layoutLanes (items : List T) : List (Lane T) :=
  ((sortByStart start items).foldl (Layout.place start ends) ⟨[], [], [], none⟩).close.out

/-! ## Overlaps -/

def Overlap (a b : T) : Prop :=
  start a < effectiveEnd start ends b ∧ start b < effectiveEnd start ends a

/-- The item is on at the instant. -/
def Covers (t : Int) (a : T) : Prop := start a ≤ t ∧ t < effectiveEnd start ends a

instance (t : Int) (a : T) : Decidable (Covers start ends t a) := by
  unfold Covers
  infer_instance

/-- A chain of overlaps within the list. -/
def Connected (out : List (Lane T)) : Lane T → Lane T → Prop :=
  Relation.ReflTransGen fun p q => q ∈ out ∧ Overlap start ends p.item q.item

open Classical in
/-- How many items of the cluster of `p` are on at `t`. -/
noncomputable def load (out : List (Lane T)) (p : Lane T) (t : Int) : Nat :=
  (out.filter fun q => Connected start ends out p q ∧ Covers start ends t q.item).length

theorem start_lt_effectiveEnd (a : T) : start a < effectiveEnd start ends a := by
  unfold effectiveEnd
  omega

theorem overlap_symm {a b : T} (overlap : Overlap start ends a b) : Overlap start ends b a :=
  ⟨overlap.2, overlap.1⟩

theorem overlap_of_covers {t : Int} {a b : T} (first : Covers start ends t a)
    (second : Covers start ends t b) : Overlap start ends a b := by
  obtain ⟨startA, endA⟩ := first
  obtain ⟨startB, endB⟩ := second
  constructor <;> omega

/-! ## One cluster -/

/-- Overlapping items are in different lanes. -/
def Proper (group : List (Lane T)) : Prop :=
  group.Pairwise fun p q => Overlap start ends p.item q.item → p.lane ≠ q.lane

/-- The lanes of the items on at an instant differ, so they are no more than the lanes. -/
theorem length_le_lanes (group : List (Lane T)) (proper : Proper start ends group) (t : Int)
    (n : Nat) (on : ∀ p ∈ group, p.lane < n ∧ Covers start ends t p.item) : group.length ≤ n := by
  have distinct : (group.map Lane.lane).Nodup := by
    rw [List.Nodup, List.pairwise_map]
    exact proper.imp_of_mem fun first second apart =>
      apart (overlap_of_covers start ends (on _ first).2 (on _ second).2)
  have below : group.map Lane.lane ⊆ List.range n := by
    intro lane here
    obtain ⟨p, member, rfl⟩ := List.mem_map.mp here
    exact List.mem_range.mpr (on p member).1
  simpa using (List.subperm_of_subset distinct below).length_le

/-- The cluster being filled, and what is known of its lanes: an item ends by the end of
its lane, and the last item of a lane ends with it. -/
structure Filling (cluster : List (Lane T)) (laneEnds : List Int) : Prop where
  proper : Proper start ends cluster
  inLane : ∀ p ∈ cluster, ∃ e, laneEnds[p.lane]? = some e ∧ effectiveEnd start ends p.item ≤ e
  last : ∀ (lane : Nat) (e : Int), laneEnds[lane]? = some e →
    ∃ p ∈ cluster, p.lane = lane ∧ effectiveEnd start ends p.item = e
  joined : ∀ p ∈ cluster, ∀ q ∈ cluster, Connected start ends cluster p q
  full : ∃ t, laneEnds.length ≤ (cluster.filter fun p => Covers start ends t p.item).length

theorem Connected.mono {small large : List (Lane T)} (subset : small ⊆ large) {p q : Lane T}
    (chain : Connected start ends small p q) : Connected start ends large p q :=
  Relation.ReflTransGen.mono (fun _ _ step => ⟨subset step.1, step.2⟩) _ _ chain

theorem filling_nil : Filling start ends [] [] where
  proper := List.Pairwise.nil
  inLane p member := by simp at member
  last lane e here := by simp at here
  joined p member := by simp at member
  full := ⟨0, le_rfl⟩

theorem setEnd_same (laneEnds : List Int) (lane : Nat) (stop : Int)
    (within : lane ≤ laneEnds.length) : (setEnd laneEnds lane stop)[lane]? = some stop := by
  unfold setEnd
  split
  · rename_i inside
    exact List.getElem?_set_self inside
  · have last : lane = laneEnds.length := by omega
    subst last
    simp

theorem setEnd_other (laneEnds : List Int) (lane other : Nat) (stop : Int)
    (within : lane ≤ laneEnds.length) (ne : other ≠ lane) :
    (setEnd laneEnds lane stop)[other]? = laneEnds[other]? := by
  unfold setEnd
  split
  · exact List.getElem?_set_ne (Ne.symm ne)
  · rcases Nat.lt_or_ge other laneEnds.length with inside | past
    · exact List.getElem?_append_left inside
    · rw [List.getElem?_eq_none past, List.getElem?_eq_none]
      simp only [List.length_append, List.length_cons, List.length_nil]
      omega

theorem setEnd_length (laneEnds : List Int) (lane : Nat) (stop : Int)
    (within : lane ≤ laneEnds.length) :
    (setEnd laneEnds lane stop).length = max laneEnds.length (lane + 1) := by
  unfold setEnd
  split
  · rw [List.length_set]
    omega
  · rw [List.length_append, List.length_singleton]
    omega

section Add

variable {start ends} {cluster : List (Lane T)} {laneEnds : List Int}
  (filling : Filling start ends cluster laneEnds) (item : T)
  (earlier : ∀ p ∈ cluster, start p.item ≤ start item)

include filling

/-- An item of the lane that is free at the start of the new one has ended. -/
theorem Filling.free {p : Lane T} (member : p ∈ cluster)
    (same : p.lane = laneEnds.findIdx fun e => e ≤ start item) :
    effectiveEnd start ends p.item ≤ start item := by
  obtain ⟨e, here, stops⟩ := filling.inLane p member
  obtain ⟨inside, value⟩ := List.getElem?_eq_some_iff.mp here
  have found : laneEnds.findIdx (fun e => e ≤ start item) < laneEnds.length := same ▸ inside
  have free := List.findIdx_getElem (w := found)
  simp only [← same, value, decide_eq_true_eq] at free
  exact stops.trans free

include earlier

/-- Where no lane is free, the items that end the lanes are all on at the new start. -/
theorem Filling.full_of_new
    (none : laneEnds.findIdx (fun e => e ≤ start item) = laneEnds.length) (new : Lane T)
    (itself : new.item = item ∧ new.lane = laneEnds.length) :
    laneEnds.length + 1 ≤
      ((cluster ++ [new]).filter fun p => Covers start ends (start item) p.item).length := by
  have subset : List.range (laneEnds.length + 1) ⊆
      ((cluster ++ [new]).filter fun p => Covers start ends (start item) p.item).map Lane.lane := by
    intro lane below
    rw [List.mem_range] at below
    rw [List.mem_map]
    rcases Nat.lt_or_ge lane laneEnds.length with old | fresh
    · obtain ⟨p, member, here, stops⟩ :=
        filling.last lane laneEnds[lane] (List.getElem?_eq_getElem old)
      have taken := List.not_of_lt_findIdx (none ▸ old)
      rw [decide_eq_false_iff_not, not_le] at taken
      refine ⟨p, List.mem_filter.mpr ⟨List.mem_append_left _ member, ?_⟩, here⟩
      exact decide_eq_true ⟨earlier p member, stops ▸ taken⟩
    · refine ⟨new, List.mem_filter.mpr ⟨List.mem_append_right _ (List.mem_singleton_self _), ?_⟩,
        by omega⟩
      rw [itself.1]
      exact decide_eq_true ⟨le_rfl, start_lt_effectiveEnd start ends item⟩
  have length := (List.subperm_of_subset List.nodup_range subset).length_le
  rwa [List.length_range, List.length_map] at length

/-- The next item of the cluster, in the first lane free at its start. -/
theorem Filling.add
    (touch : cluster = [] ∨ ∃ p ∈ cluster, start item < effectiveEnd start ends p.item) :
    Filling start ends
      (cluster ++ [⟨item, laneEnds.findIdx fun e => e ≤ start item, 1⟩])
      (setEnd laneEnds (laneEnds.findIdx fun e => e ≤ start item)
        (effectiveEnd start ends item)) := by
  have within : laneEnds.findIdx (fun e => e ≤ start item) ≤ laneEnds.length :=
    List.findIdx_le_length
  have after := start_lt_effectiveEnd start ends item
  generalize lane_eq : laneEnds.findIdx (fun e => e ≤ start item) = lane at within
  have free : ∀ p ∈ cluster, p.lane = lane → effectiveEnd start ends p.item ≤ start item :=
    fun p member same => filling.free item member (same.trans lane_eq.symm)
  have subset : cluster ⊆ cluster ++ [⟨item, lane, 1⟩] := List.subset_append_left _ _
  refine ⟨?_, ?_, ?_, ?_, ?_⟩
  · refine List.pairwise_append.mpr ⟨filling.proper, List.pairwise_singleton _ _, ?_⟩
    intro p member q new overlap same
    rw [List.mem_singleton] at new
    subst new
    have ended := free p member same
    have on : start item < effectiveEnd start ends p.item := overlap.2
    omega
  · intro p member
    rcases List.mem_append.mp member with old | new
    · by_cases same : p.lane = lane
      · rw [same, setEnd_same laneEnds lane _ within]
        have ended := free p old same
        exact ⟨_, rfl, by omega⟩
      · rw [setEnd_other laneEnds lane p.lane _ within same]
        exact filling.inLane p old
    · rw [List.mem_singleton] at new
      subst new
      exact ⟨_, setEnd_same laneEnds lane _ within, le_rfl⟩
  · intro other e here
    by_cases same : other = lane
    · subst same
      rw [setEnd_same laneEnds other _ within, Option.some_inj] at here
      exact ⟨_, List.mem_append_right _ (List.mem_singleton_self _), rfl, here⟩
    · rw [setEnd_other laneEnds lane other _ within same] at here
      obtain ⟨p, member, rest⟩ := filling.last other e here
      exact ⟨p, subset member, rest⟩
  · -- The new item overlaps one that was there, and those were connected.
    have link : ∀ p ∈ cluster, Connected start ends (cluster ++ [⟨item, lane, 1⟩]) p ⟨item, lane, 1⟩ ∧
        Connected start ends (cluster ++ [⟨item, lane, 1⟩]) ⟨item, lane, 1⟩ p := by
      intro p member
      obtain ⟨q, near, on⟩ := touch.resolve_left (List.ne_nil_of_mem member)
      have overlap : Overlap start ends q.item item :=
        ⟨by have := earlier q near; omega, on⟩
      have there := (filling.joined p member q near).mono start ends subset
      have back := (filling.joined q near p member).mono start ends subset
      exact ⟨there.tail ⟨List.mem_append_right _ (List.mem_singleton_self _), overlap⟩,
        Relation.ReflTransGen.head ⟨subset near, overlap_symm start ends overlap⟩ back⟩
    intro p first q second
    rcases List.mem_append.mp first with oldP | newP <;>
      rcases List.mem_append.mp second with oldQ | newQ
    · exact (filling.joined p oldP q oldQ).mono start ends subset
    · rw [List.mem_singleton] at newQ
      exact newQ ▸ (link p oldP).1
    · rw [List.mem_singleton] at newP
      exact newP ▸ (link q oldQ).2
    · rw [List.mem_singleton] at newP newQ
      subst newP newQ
      exact Relation.ReflTransGen.refl
  · rw [setEnd_length laneEnds lane _ within]
    rcases Nat.lt_or_ge lane laneEnds.length with reused | added
    · obtain ⟨t, count⟩ := filling.full
      refine ⟨t, ?_⟩
      rw [List.filter_append, List.length_append]
      omega
    · have last : lane = laneEnds.length := by omega
      subst last
      refine ⟨start item, ?_⟩
      have count := filling.full_of_new item earlier lane_eq ⟨item, laneEnds.length, 1⟩ ⟨rfl, rfl⟩
      omega

end Add

/-! ## Closed clusters -/

/-- A cluster with its count of lanes. -/
structure Closed (group : List (Lane T)) : Prop where
  proper : Proper start ends group
  joined : ∀ p ∈ group, ∀ q ∈ group, Connected start ends group p q
  counted : ∃ n, (∀ p ∈ group, p.lane < n ∧ p.lanes = n) ∧
    ∃ t, n ≤ (group.filter fun p => Covers start ends t p.item).length

/-- Nothing of the second group starts before all of the first has ended. -/
def Before (first second : List (Lane T)) : Prop :=
  ∀ p ∈ first, ∀ q ∈ second, effectiveEnd start ends p.item ≤ start q.item

theorem Connected.count {group : List (Lane T)} (n : Nat) {p q : Lane T}
    (chain : Connected start ends group p q) :
    Connected start ends (group.map fun p => { p with lanes := n }) { p with lanes := n }
      { q with lanes := n } := by
  induction chain with
  | refl => exact Relation.ReflTransGen.refl
  | tail _ step ih => exact ih.tail ⟨List.mem_map_of_mem step.1, step.2⟩

theorem Filling.closed {cluster : List (Lane T)} {laneEnds : List Int}
    (filling : Filling start ends cluster laneEnds) :
    Closed start ends (cluster.map fun p => { p with lanes := laneEnds.length }) where
  proper := List.pairwise_map.mpr filling.proper
  joined := by
    intro p first q second
    obtain ⟨p', memberP, rfl⟩ := List.mem_map.mp first
    obtain ⟨q', memberQ, rfl⟩ := List.mem_map.mp second
    exact (filling.joined p' memberP q' memberQ).count start ends laneEnds.length
  counted := by
    refine ⟨laneEnds.length, fun p member => ?_, ?_⟩
    · obtain ⟨p', memberP, rfl⟩ := List.mem_map.mp member
      obtain ⟨e, here, -⟩ := filling.inLane p' memberP
      exact ⟨(List.getElem?_eq_some_iff.mp here).1, rfl⟩
    · obtain ⟨t, count⟩ := filling.full
      exact ⟨t, by rwa [List.filter_map, List.length_map]⟩

/-! ## The sweep -/

/-- Closed clusters, one after the other. -/
def Grouped (out : List (Lane T)) : Prop :=
  ∃ groups : List (List (Lane T)), out = groups.flatten ∧
    (∀ group ∈ groups, Closed start ends group) ∧ groups.Pairwise (Before start ends)

/-- After placing the items of `seen`. -/
structure Swept (seen : List T) (s : Layout T) : Prop where
  items : s.out.map Lane.item ++ s.cluster.map Lane.item = seen
  grouped : Grouped start ends s.out
  before : Before start ends s.out s.cluster
  filling : Filling start ends s.cluster s.laneEnds
  first : s.cluster = [] → s.out = [] ∧ s.clusterEnd = none
  reach : s.cluster ≠ [] → ∃ e, s.clusterEnd = some e ∧
    (∀ p ∈ s.cluster, effectiveEnd start ends p.item ≤ e) ∧
      ∃ p ∈ s.cluster, effectiveEnd start ends p.item = e

section Sweep

variable {start ends} {seen : List T} {s : Layout T} (swept : Swept start ends seen s)

include swept

/-- Closing the cluster leaves closed clusters only. -/
theorem Swept.close_grouped : Grouped start ends s.close.out := by
  obtain ⟨groups, out, closed, apart⟩ := swept.grouped
  refine ⟨groups ++ [s.cluster.map fun p => { p with lanes := s.laneEnds.length }], ?_, ?_, ?_⟩
  · rw [List.flatten_append, ← out, List.flatten_singleton]
    rfl
  · intro group member
    rcases List.mem_append.mp member with old | new
    · exact closed group old
    · rw [List.mem_singleton] at new
      exact new ▸ swept.filling.closed
  · refine List.pairwise_append.mpr ⟨apart, List.pairwise_singleton _ _, ?_⟩
    intro group old last new p memberP q memberQ
    rw [List.mem_singleton] at new
    subst new
    obtain ⟨q', memberQ', rfl⟩ := List.mem_map.mp memberQ
    exact swept.before p (out ▸ List.mem_flatten_of_mem old memberP) q' memberQ'

variable (item : T) (sorted : ∀ a ∈ seen, start a ≤ start item)

include sorted

theorem Swept.cluster_earlier : ∀ p ∈ s.cluster, start p.item ≤ start item := fun p member =>
  sorted p.item (swept.items ▸ List.mem_append_right _ (List.mem_map_of_mem member))

/-- The first item of the next cluster. -/
theorem Swept.push_closed (free : ∀ e, s.clusterEnd = some e → e ≤ start item) :
    Swept start ends (seen ++ [item]) (s.close.push start ends item) where
  items := by
    rw [← swept.items]
    simp [Layout.close, Layout.push, Function.comp_def]
  grouped := swept.close_grouped
  before := by
    intro p member q new
    have only : q = ⟨item, 0, 1⟩ := by simpa [Layout.close, Layout.push] using new
    subst only
    show effectiveEnd start ends p.item ≤ start item
    rcases List.mem_append.mp member with old | here
    · cases cluster : s.cluster with
      | nil =>
          rw [(swept.first cluster).1] at old
          simp at old
      | cons q rest =>
          have head : q ∈ s.cluster := cluster ▸ List.mem_cons_self
          exact (swept.before p old q head).trans (swept.cluster_earlier item sorted q head)
    · obtain ⟨p', memberP, rfl⟩ := List.mem_map.mp here
      obtain ⟨e, last, stops, -⟩ := swept.reach (List.ne_nil_of_mem memberP)
      exact (stops p' memberP).trans (free e last)
  filling := (filling_nil start ends).add item (fun p member => by simp at member) (Or.inl rfl)
  first empty := by simp [Layout.push] at empty
  reach _ := by
    refine ⟨effectiveEnd start ends item, rfl, ?_, ⟨item, 0, 1⟩, ?_, rfl⟩
    · intro p member
      have only : p = ⟨item, 0, 1⟩ := by simpa [Layout.close, Layout.push] using member
      rw [only]
    · simp [Layout.close, Layout.push]

/-- The next item of the open cluster. -/
theorem Swept.push_open (e : Int) (last : s.clusterEnd = some e) (taken : start item < e) :
    Swept start ends (seen ++ [item]) (s.push start ends item) := by
  have filled : s.cluster ≠ [] := fun empty => by
    rw [(swept.first empty).2] at last
    cases last
  obtain ⟨e', last', stops, p, memberP, stopP⟩ := swept.reach filled
  obtain rfl : e' = e := by
    rw [last', Option.some_inj] at last
    exact last
  have earlier := swept.cluster_earlier item sorted
  refine ⟨?_, swept.grouped, ?_, ?_, ?_, ?_⟩
  · rw [← swept.items]
    simp [Layout.push]
  · intro q memberQ r memberR
    rcases List.mem_append.mp memberR with old | new
    · exact swept.before q memberQ r old
    · rw [List.mem_singleton] at new
      subst new
      exact (swept.before q memberQ p memberP).trans (earlier p memberP)
  · exact swept.filling.add item earlier (Or.inr ⟨p, memberP, stopP ▸ taken⟩)
  · intro empty
    simp [Layout.push] at empty
  · intro _
    have ends_ : (s.push start ends item).clusterEnd
        = some (max e' (effectiveEnd start ends item)) := by
      unfold Layout.push
      dsimp only
      rw [if_neg (by simpa using filled), last']
      rfl
    refine ⟨_, ends_, ?_, ?_⟩
    · intro q memberQ
      rcases List.mem_append.mp memberQ with old | new
      · exact (stops q old).trans (le_max_left _ _)
      · rw [List.mem_singleton] at new
        subst new
        exact le_max_right _ _
    · rcases le_total e' (effectiveEnd start ends item) with later | sooner
      · rw [max_eq_right later]
        exact ⟨_, List.mem_append_right _ (List.mem_singleton_self _), rfl⟩
      · rw [max_eq_left sooner]
        exact ⟨p, List.mem_append_left _ memberP, stopP⟩

theorem Swept.place : Swept start ends (seen ++ [item]) (s.place start ends item) := by
  unfold Layout.place
  split
  · rename_i free
    refine swept.push_closed item sorted fun e last => ?_
    rw [last] at free
    simpa using free
  · rename_i taken
    obtain ⟨e, last⟩ : ∃ e, s.clusterEnd = some e := by
      cases here : s.clusterEnd with
      | none => rw [here] at taken; simp at taken
      | some e => exact ⟨e, rfl⟩
    rw [last] at taken
    exact swept.push_open item sorted e last (by simpa using taken)

end Sweep

/-- Every item is placed, in the order of the starts. -/
theorem swept_foldl (start ends : T → Int) (rest : List T) :
    ∀ (seen : List T) (s : Layout T), Swept start ends seen s →
      (seen ++ rest).Pairwise (fun a b => start a ≤ start b) →
        Swept start ends (seen ++ rest) (rest.foldl (Layout.place start ends) s) := by
  induction rest with
  | nil =>
      intro seen s swept _
      rw [List.append_nil]
      exact swept
  | cons item rest ih =>
      intro seen s swept sorted
      have next := swept.place item fun a member =>
        (List.pairwise_append.mp sorted).2.2 a member item List.mem_cons_self
      have regroup : seen ++ item :: rest = (seen ++ [item]) ++ rest := by simp
      rw [regroup] at sorted ⊢
      exact ih (seen ++ [item]) _ next sorted

/-! ## The colouring -/

/-- What the day view relies on. -/
structure OptimalColouring (start ends : T → Int) (items : List T) (out : List (Lane T)) :
    Prop where
  once : (out.map Lane.item).Perm items
  proper : Proper start ends out
  below : ∀ p ∈ out, p.lane < p.lanes
  shared : ∀ p ∈ out, ∀ q, Connected start ends out p q → q.lanes = p.lanes
  optimal : ∀ p ∈ out, IsGreatest (Set.range (load start ends out p)) p.lanes

/-- One cluster, or two without an overlap. -/
def Separate (start ends : T → Int) (g h : List (Lane T)) : Prop :=
  g = h ∨ ∀ p ∈ g, ∀ q ∈ h, ¬ Overlap start ends p.item q.item

instance (start ends : T → Int) : Std.Symm (Separate start ends) where
  symm g h related := by
    rcases related with same | none
    · exact Or.inl same.symm
    · exact Or.inr fun p inH q inG overlap => none q inG p inH (overlap_symm start ends overlap)

section Groups

variable {start ends : T → Int} {groups : List (List (Lane T))}
  (closed : ∀ group ∈ groups, Closed start ends group)
  (apart : groups.Pairwise (Before start ends))

include apart

/-- Overlaps do not lead out of a cluster. -/
theorem same_group {g h : List (Lane T)} (memberG : g ∈ groups) (memberH : h ∈ groups)
    {p q : Lane T} (inG : p ∈ g) (inH : q ∈ h) (overlap : Overlap start ends p.item q.item) :
    g = h := by
  have separate : groups.Pairwise (Separate start ends) := by
    refine apart.imp fun {g h} before => Or.inr fun p inG q inH overlap => ?_
    have ended := before p inG q inH
    have on : start q.item < effectiveEnd start ends p.item := overlap.2
    omega
  have reflexive : ∀ g ∈ groups, Separate start ends g g := fun _ _ => Or.inl rfl
  rcases separate.forall_of_forall reflexive memberG memberH with same | none
  · exact same
  · exact absurd overlap (none p inG q inH)

theorem connected_iff {g : List (Lane T)} (member : g ∈ groups) (closed : Closed start ends g)
    {p q : Lane T} (inG : p ∈ g) : Connected start ends groups.flatten p q ↔ q ∈ g := by
  constructor
  · intro chain
    induction chain with
    | refl => exact inG
    | tail _ step ih =>
        obtain ⟨h, memberH, inH⟩ := List.mem_flatten.mp step.1
        exact same_group apart member memberH ih inH step.2 ▸ inH
  · intro inQ
    exact (closed.joined p inG q inQ).mono start ends fun r inR =>
      List.mem_flatten_of_mem member inR

theorem proper_flatten (closed : ∀ group ∈ groups, Closed start ends group) :
    Proper start ends groups.flatten := by
  refine List.pairwise_flatten.mpr ⟨fun g member => (closed g member).proper, ?_⟩
  refine apart.imp fun {g h} before p inG q inH overlap => ?_
  have ended := before p inG q inH
  have on : start q.item < effectiveEnd start ends p.item := overlap.2
  omega

/-- Never more items than lanes, and somewhere as many. -/
theorem isGreatest_load {g : List (Lane T)} (closed : Closed start ends g) (member : g ∈ groups)
    {p : Lane T} (inG : p ∈ g) (proper : Proper start ends groups.flatten) (n : Nat)
    (counted : ∀ q ∈ g, q.lane < n ∧ q.lanes = n) (t : Int)
    (full : n ≤ (g.filter fun q => Covers start ends t q.item).length) :
    IsGreatest (Set.range (load start ends groups.flatten p)) n := by
  classical
  have most : ∀ t, load start ends groups.flatten p t ≤ n := by
    intro t
    refine length_le_lanes start ends _ (proper.filter _) t n fun q on => ?_
    obtain ⟨-, chain, covers⟩ := by simpa using List.mem_filter.mp on
    exact ⟨(counted q ((connected_iff apart member closed inG).mp chain)).1, covers⟩
  have least : n ≤ load start ends groups.flatten p t := by
    have same : (g.filter fun q => Covers start ends t q.item) =
        g.filter fun q => Connected start ends groups.flatten p q ∧ Covers start ends t q.item :=
      List.filter_congr fun q inQ => by
        simp [(connected_iff apart member closed inG).mpr inQ]
    have sub := (List.sublist_flatten_of_mem member).filter fun q =>
      decide (Connected start ends groups.flatten p q ∧ Covers start ends t q.item)
    rw [same] at full
    exact full.trans sub.length_le
  refine ⟨⟨t, le_antisymm (most t) least⟩, ?_⟩
  rintro _ ⟨t', rfl⟩
  exact most t'

end Groups

/-- The layout is that of all items, by start. -/
theorem swept_layoutLanes (start ends : T → Int) (items : List T) :
    ∃ s : Layout T, layoutLanes start ends items = s.close.out ∧
      Swept start ends (sortByStart start items) s := by
  have sorted : (sortByStart start items).Pairwise fun a b => start a ≤ start b :=
    List.pairwise_insertionSort _ _
  have initial : Swept start ends [] (⟨[], [], [], none⟩ : Layout T) :=
    { items := rfl
      grouped := ⟨[], rfl, by simp, List.Pairwise.nil⟩
      before := by intro p member; simp at member
      filling := filling_nil start ends
      first := fun _ => ⟨rfl, rfl⟩
      reach := fun nonempty => absurd rfl nonempty }
  exact ⟨_, rfl, swept_foldl start ends (sortByStart start items) [] _ initial sorted⟩

/-- Every item is placed once. -/
theorem layoutLanes_perm (start ends : T → Int) (items : List T) :
    ((layoutLanes start ends items).map Lane.item).Perm items := by
  obtain ⟨s, layout, swept⟩ := swept_layoutLanes start ends items
  have placed : s.close.out.map Lane.item = sortByStart start items := by
    rw [← swept.items]
    simp [Layout.close, Function.comp_def]
  rw [layout, placed]
  exact List.perm_insertionSort _ _

/-- **The lanes of the day view are an optimal colouring**: overlapping items are side by
side, a cluster shares one count of lanes, and that count is the number of its items at
its fullest instant. -/
theorem layoutLanes_optimal (start ends : T → Int) (items : List T) :
    OptimalColouring start ends items (layoutLanes start ends items) := by
  obtain ⟨s, layout, swept⟩ := swept_layoutLanes start ends items
  obtain ⟨groups, out, closed, apart⟩ := swept.close_grouped
  have proper := proper_flatten apart closed
  refine ⟨layoutLanes_perm start ends items, ?_, ?_, ?_, ?_⟩ <;> rw [layout, out]
  · exact proper
  · intro p member
    obtain ⟨g, memberG, inG⟩ := List.mem_flatten.mp member
    obtain ⟨n, counted, -⟩ := (closed g memberG).counted
    have own := counted p inG
    omega
  · intro p member q chain
    obtain ⟨g, memberG, inG⟩ := List.mem_flatten.mp member
    obtain ⟨n, counted, -⟩ := (closed g memberG).counted
    have inQ := (connected_iff apart memberG (closed g memberG) inG).mp chain
    rw [(counted p inG).2, (counted q inQ).2]
  · intro p member
    obtain ⟨g, memberG, inG⟩ := List.mem_flatten.mp member
    obtain ⟨n, counted, t, full⟩ := (closed g memberG).counted
    rw [(counted p inG).2]
    exact isGreatest_load apart (closed g memberG) memberG inG proper n counted t full

end Kiagent.Calendar
