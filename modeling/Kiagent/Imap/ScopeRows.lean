/-
# Imap.ScopeRows -- what the picker offers and the resolver finds, as relations

The picker's tree is a computation over parent links (`climb`, `shownPaths`); `Shown` says
which mailboxes it comes to: the candidates a chain of links leads to from one that holds
messages.  The resolver's loop comes to the mailboxes that have a root (`mem_resolve`).
-/
import Kiagent.Imap.Scope

namespace Kiagent.Imap

set_option autoImplicit false

/-! ## Sets of texts -/

theorem mem_uniq {texts : List Text} {t : Text} : t ∈ uniq texts ↔ t ∈ texts :=
  List.mem_eraseDups

theorem uniq_nodup (texts : List Text) : (uniq texts).Nodup := by
  unfold uniq
  induction h : texts.length using Nat.strong_induction_on generalizing texts with
  | _ n ih =>
      cases texts with
      | nil => simp
      | cons t rest =>
          rw [List.eraseDups_cons, List.nodup_cons]
          have shorter := List.length_filter_le (fun b => !b == t) rest
          rw [List.length_cons] at h
          exact ⟨by simp, ih _ (by omega) _ rfl⟩

theorem uniq_of_nodup {texts : List Text} (distinct : texts.Nodup) : uniq texts = texts := by
  unfold uniq
  induction texts with
  | nil => rfl
  | cons t rest ih =>
      rw [List.nodup_cons] at distinct
      have kept : rest.filter (fun b => !b == t) = rest := by
        rw [List.filter_eq_self]
        intro b mem
        have : b ≠ t := fun same => distinct.1 (same ▸ mem)
        simpa using this
      rw [List.eraseDups_cons, kept, ih distinct.2]

/-! ## Mailboxes by their paths -/

variable (L : Listing)

theorem Listing.eq_of_path {f g : FolderInfo} (f_mem : f ∈ L.folders) (g_mem : g ∈ L.folders)
    (same : f.path = g.path) : f = g :=
  List.inj_on_of_nodup_map L.distinct f_mem g_mem same

theorem samePath_refl (p : Text) : samePath p p = true := by simp [samePath]

theorem covers_self (f : FolderInfo) : covers f.path f = true := by simp [covers]

theorem isRoot_iff {roots : List FolderRootSelection} {f : FolderInfo} :
    isRoot roots f = true ↔ ∃ id ∈ roots.map FolderRootSelection.id, samePath id f.path = true := by
  simp [isRoot]

/-! ## Candidates -/

/-- A mailbox of the tree that holds messages. -/
structure Mail (f : FolderInfo) : Prop where
  mem : f ∈ L.folders
  syncable : f.unsyncable = false
  plain : specialKind f = none
  outside : underSpecial f (specialPathsOf L.folders) = false

theorem mem_candidates {folders : List FolderInfo} {f : FolderInfo} :
    f ∈ candidates folders ↔ f ∈ folders ∧ f.isNonExistent = false ∧ specialKind f = none ∧
      underSpecial f (specialPathsOf folders) = false := by
  simp [candidates, and_assoc]

theorem mail_iff {f : FolderInfo} :
    Mail L f ↔ f ∈ candidates L.folders ∧ f.unsyncable = false := by
  rw [mem_candidates]
  constructor
  · rintro ⟨mem, syncable, plain, outside⟩
    refine ⟨⟨mem, ?_, plain, outside⟩, syncable⟩
    simp only [FolderInfo.unsyncable, Bool.or_eq_false_iff] at syncable
    exact syncable.2
  · rintro ⟨⟨mem, _, plain, outside⟩, syncable⟩
    exact ⟨mem, syncable, plain, outside⟩

theorem candidates_distinct : ((candidates L.folders).map FolderInfo.path).Nodup :=
  L.distinct.sublist (List.filter_sublist.map _)

/-! ## Climbing -/

section Climb

variable {cand : List FolderInfo}

/-- The parent link leads to a candidate. -/
def Up (cand : List FolderInfo) (f g : FolderInfo) : Prop := f.parent.bind (candAt cand) = some g

def Leads (cand : List FolderInfo) : FolderInfo → FolderInfo → Prop :=
  Relation.ReflTransGen (Up cand)

theorem candAt_some {id : Text} {f : FolderInfo} (found : candAt cand id = some f) :
    f ∈ cand ∧ f.path = id :=
  ⟨List.mem_of_find?_eq_some found, by simpa using List.find?_some found⟩

theorem candAt_of_mem (distinct : (cand.map FolderInfo.path).Nodup) {f : FolderInfo}
    (mem : f ∈ cand) : candAt cand f.path = some f := by
  cases found : candAt cand f.path with
  | none =>
      have := List.find?_eq_none.1 found f mem
      simp at this
  | some g =>
      obtain ⟨g_mem, same⟩ := candAt_some found
      rw [List.inj_on_of_nodup_map distinct g_mem mem same]

theorem Up.mem {f g : FolderInfo} (up : Up cand f g) : g ∈ cand := by
  obtain ⟨_, _, found⟩ := Option.bind_eq_some_iff.1 up
  exact (candAt_some found).1

theorem Leads.mem {f g : FolderInfo} (leads : Leads cand f g) (mem : f ∈ cand) : g ∈ cand := by
  induction leads with
  | refl => exact mem
  | tail _ up _ => exact up.mem

/-- The parents of shown candidates are shown. -/
def Closed (cand : List FolderInfo) (shown : List Text) : Prop :=
  ∀ c ∈ cand, c.path ∈ shown → ∀ up, Up cand c up → up.path ∈ shown

/-- All but the one that is climbed to next. -/
def ClosedBut (cand : List FolderInfo) (shown : List Text) (next : FolderInfo) : Prop :=
  ∀ c ∈ cand, c.path ∈ shown → ∀ up, Up cand c up → up.path ∈ shown ∨ up = next

/-- What a climb from `cur` comes to. -/
structure Climbed (cand : List FolderInfo) (cur : FolderInfo) (shown result : List Text) :
    Prop where
  keeps : ∀ x ∈ shown, x ∈ result
  reaches : cur.path ∈ result
  closed : Closed cand result
  only : ∀ x ∈ result, x ∈ shown ∨ ∃ g, Leads cand cur g ∧ g.path = x

def hidden (cand : List FolderInfo) (shown : List Text) : List FolderInfo :=
  cand.filter fun c => !shown.contains c.path

theorem hidden_lt {shown : List Text} {cur : FolderInfo} (mem : cur ∈ cand)
    (new : cur.path ∉ shown) :
    (hidden cand (shown ++ [cur.path])).length < (hidden cand shown).length := by
  have split : hidden cand (shown ++ [cur.path]) =
      (hidden cand shown).filter fun c => c.path ≠ cur.path := by
    unfold hidden
    rw [List.filter_filter]
    refine List.filter_congr fun c _ => ?_
    simp only [List.contains_eq_mem, List.mem_append, List.mem_singleton, Bool.decide_or,
      Bool.not_or, ne_eq, decide_not]
    exact Bool.and_comm _ _
  rw [split, List.length_filter_lt_length_iff_exists]
  exact ⟨cur, List.mem_filter.2 ⟨mem, by simpa using new⟩, by simp⟩

/-- Each round shows a candidate that was not, so as many rounds as candidates do. -/
theorem climb_spec (distinct : (cand.map FolderInfo.path).Nodup) : ∀ {rounds : Nat}
    {cur : FolderInfo} {shown : List Text}, cur ∈ cand → ClosedBut cand shown cur →
      (hidden cand shown).length ≤ rounds → Climbed cand cur shown (climb cand rounds cur shown) := by
  intro rounds
  induction rounds with
  | zero =>
      intro cur shown mem closed few
      have shows : cur.path ∈ shown := by
        by_contra new
        have : cur ∈ hidden cand shown := List.mem_filter.2 ⟨mem, by simpa using new⟩
        rw [List.length_eq_zero_iff.1 (Nat.le_zero.1 few)] at this
        exact absurd this List.not_mem_nil
      exact ⟨fun _ => id, shows, fun c c_mem is up leads => (closed c c_mem is up leads).elim id
        fun same => same ▸ shows, fun x mem => .inl mem⟩
  | succ rounds ih =>
      intro cur shown mem closed few
      unfold climb
      split
      · rename_i shows
        exact ⟨fun _ => id, shows, fun c c_mem is up leads => (closed c c_mem is up leads).elim id
          fun same => same ▸ shows, fun x mem => .inl mem⟩
      · rename_i new
        have fewer := hidden_lt mem new
        have old : ∀ c ∈ cand, c.path ∈ shown ++ [cur.path] → c.path ∈ shown ∨ c = cur := by
          intro c c_mem is
          rcases List.mem_append.1 is with is | is
          · exact .inl is
          · exact .inr (List.inj_on_of_nodup_map distinct c_mem mem (List.mem_singleton.1 is))
        split
        · rename_i next link
          have next_up : Up cand cur next := link
          have step := ih next_up.mem (fun c c_mem is up leads => by
            rcases old c c_mem is with is | rfl
            · rcases closed c c_mem is up leads with is | rfl
              · exact .inl (List.mem_append_left _ is)
              · exact .inl (List.mem_append_right _ (List.mem_singleton.2 rfl))
            · exact .inr (Option.some.inj (leads.symm.trans next_up))) (by omega)
          refine ⟨fun x is => step.keeps x (List.mem_append_left _ is),
            step.keeps _ (List.mem_append_right _ (List.mem_singleton.2 rfl)), step.closed,
            fun x is => ?_⟩
          rcases step.only x is with is | ⟨g, leads, rfl⟩
          · rcases List.mem_append.1 is with is | is
            · exact .inl is
            · exact .inr ⟨cur, .refl, (List.mem_singleton.1 is).symm⟩
          · exact .inr ⟨g, .head next_up leads, rfl⟩
        · rename_i top
          refine ⟨fun x is => List.mem_append_left _ is,
            List.mem_append_right _ (List.mem_singleton.2 rfl), fun c c_mem is up leads => ?_,
            fun x is => ?_⟩
          · rcases old c c_mem is with is | rfl
            · rcases closed c c_mem is up leads with is | rfl
              · exact List.mem_append_left _ is
              · exact List.mem_append_right _ (List.mem_singleton.2 rfl)
            · exact absurd leads (by unfold Up; rw [top]; exact nofun)
          · rcases List.mem_append.1 is with is | is
            · exact .inl is
            · exact .inr ⟨cur, .refl, (List.mem_singleton.1 is).symm⟩

/-- Shown are the candidates that a mailbox with messages leads to. -/
structure ShownBy (cand : List FolderInfo) (mail : List FolderInfo) (shown : List Text) :
    Prop where
  closed : Closed cand shown
  starts : ∀ f ∈ mail, f.unsyncable = false → f.path ∈ shown
  only : ∀ x ∈ shown, ∃ f ∈ mail, f.unsyncable = false ∧ ∃ g, Leads cand f g ∧ g.path = x

theorem shownBy_foldl (distinct : (cand.map FolderInfo.path).Nodup) (rest : List FolderInfo) :
    ∀ {before : List FolderInfo} {shown : List Text}, (∀ f ∈ rest, f ∈ cand) →
      ShownBy cand before shown → ShownBy cand (before ++ rest)
        (rest.foldl (fun shown f =>
          if f.unsyncable then shown else climb cand cand.length f shown) shown) := by
  induction rest with
  | nil => intro before shown _ by_; simpa using by_
  | cons f rest ih =>
      intro before shown within by_
      have next : ShownBy cand (before ++ [f])
          (if f.unsyncable then shown else climb cand cand.length f shown) := by
        split
        · rename_i empty
          refine ⟨by_.closed, fun g mem syncable => ?_, fun x is => ?_⟩
          · rcases List.mem_append.1 mem with mem | mem
            · exact by_.starts g mem syncable
            · rw [List.mem_singleton.1 mem, empty] at syncable
              exact absurd syncable nofun
          · obtain ⟨g, mem, rest⟩ := by_.only x is
            exact ⟨g, List.mem_append_left _ mem, rest⟩
        · rename_i full
          have climbed := climb_spec distinct (within f (List.mem_cons_self ..))
            (fun c mem is up leads => .inl (by_.closed c mem is up leads))
            (List.length_filter_le _ cand)
          refine ⟨climbed.closed, fun g mem syncable => ?_, fun x is => ?_⟩
          · rcases List.mem_append.1 mem with mem | mem
            · exact climbed.keeps _ (by_.starts g mem syncable)
            · rw [List.mem_singleton.1 mem]
              exact climbed.reaches
          · rcases climbed.only x is with is | leads
            · obtain ⟨g, mem, rest⟩ := by_.only x is
              exact ⟨g, List.mem_append_left _ mem, rest⟩
            · exact ⟨f, List.mem_append_right _ (List.mem_singleton.2 rfl), by simpa using full,
                leads⟩
      have := ih (fun g mem => within g (List.mem_cons_of_mem _ mem)) next
      rwa [List.append_assoc] at this

/-- **The shown paths** are the paths of the candidates a mailbox with messages leads to. -/
theorem mem_shownPaths (distinct : (cand.map FolderInfo.path).Nodup) {x : Text} :
    x ∈ shownPaths cand ↔
      ∃ f ∈ cand, f.unsyncable = false ∧ ∃ g, Leads cand f g ∧ g.path = x := by
  have by_ : ShownBy cand ([] ++ cand) (shownPaths cand) :=
    shownBy_foldl distinct cand (fun _ => id)
      ⟨fun _ _ is => absurd is List.not_mem_nil, fun _ mem => absurd mem List.not_mem_nil,
        fun _ is => absurd is List.not_mem_nil⟩
  rw [List.nil_append] at by_
  constructor
  · exact by_.only x
  · rintro ⟨f, mem, syncable, g, leads, rfl⟩
    induction leads with
    | refl => exact by_.starts f mem syncable
    | tail before up ih => exact by_.closed _ (Leads.mem before mem) ih _ up

end Climb

/-! ## The rows of the picker -/

/-- A mailbox of the tree: a mail folder, or one that the parent links of one lead to. -/
def Shown (f : FolderInfo) : Prop := ∃ m, Mail L m ∧ Leads (candidates L.folders) m f

variable {L}

theorem Mail.candidate {f : FolderInfo} (mail : Mail L f) : f ∈ candidates L.folders :=
  ((mail_iff L).1 mail).1

theorem Mail.shown {f : FolderInfo} (mail : Mail L f) : Shown L f := ⟨f, mail, .refl⟩

theorem Shown.candidate {f : FolderInfo} (shown : Shown L f) : f ∈ candidates L.folders := by
  obtain ⟨m, mail, leads⟩ := shown
  exact Leads.mem leads mail.candidate

theorem Shown.mem {f : FolderInfo} (shown : Shown L f) : f ∈ L.folders :=
  (mem_candidates.1 shown.candidate).1

theorem Shown.plain {f : FolderInfo} (shown : Shown L f) : specialKind f = none :=
  (mem_candidates.1 shown.candidate).2.2.1

theorem mem_shown {x : Text} :
    x ∈ shownPaths (candidates L.folders) ↔ ∃ f, Shown L f ∧ f.path = x := by
  rw [mem_shownPaths (candidates_distinct L)]
  constructor
  · rintro ⟨m, mem, syncable, f, leads, rfl⟩
    exact ⟨f, ⟨m, (mail_iff L).2 ⟨mem, syncable⟩, leads⟩, rfl⟩
  · rintro ⟨f, ⟨m, mail, leads⟩, rfl⟩
    exact ⟨m, mail.candidate, mail.syncable, f, leads, rfl⟩

variable (L)

/-- The mailbox the Trash row or the Junk row stands for. -/
def OptIn (f : FolderInfo) : Prop := optIn L.folders .trash = some f ∨ optIn L.folders .junk = some f

variable {L}

theorem optIn_some {folders : List FolderInfo} {kind : SpecialKind} {f : FolderInfo}
    (is : optIn folders kind = some f) : f ∈ folders ∧ specialKind f = some kind ∧
      f.unsyncable = false := by
  have mem : f ∈ folders.filter fun f => decide (specialKind f = some kind) && !f.unsyncable &&
      !underSpecial f (specialPathsOf folders) := by
    unfold optIn at is
    dsimp only at is
    split at is
    · rename_i marked found
      obtain rfl := Option.some.inj is
      exact List.mem_of_find?_eq_some found
    · exact List.mem_of_mem_head? is
  rw [List.mem_filter] at mem
  simp only [Bool.and_eq_true, decide_eq_true_eq, Bool.not_eq_true'] at mem
  exact ⟨mem.1, mem.2.1.1, mem.2.1.2⟩

theorem OptIn.mem {f : FolderInfo} (is : OptIn L f) : f ∈ L.folders :=
  is.elim (fun h => (optIn_some h).1) fun h => (optIn_some h).1

theorem OptIn.syncable {f : FolderInfo} (is : OptIn L f) : f.unsyncable = false :=
  is.elim (fun h => (optIn_some h).2.2) fun h => (optIn_some h).2.2

theorem OptIn.kind {f : FolderInfo} (is : OptIn L f) : isTrashOrJunk f = true := by
  unfold isTrashOrJunk
  rcases is with is | is <;> simp [(optIn_some is).2.1]

theorem optInIds_eq (folders : List FolderInfo) :
    (pickerModel folders).optInIds = (optInNodes folders).map FolderNode.id := by
  unfold pickerModel
  split <;> rfl

theorem mem_optInIds {x : Text} :
    x ∈ (pickerModel L.folders).optInIds ↔ ∃ f, OptIn L f ∧ f.path = x := by
  rw [optInIds_eq]
  simp only [optInNodes, List.map_append, List.map_map, List.mem_append, List.mem_map,
    Option.mem_toList, Function.comp_apply, OptIn, or_and_right, exists_or]

/-- What the picker offers: the rows of the tree, or All Mail, and the opt-in rows. -/
def Offered (L : Listing) (f : FolderInfo) : Prop :=
  OptIn L f ∨
    match allMailFolder L.folders with
    | some all => f = all
    | none => Shown L f

theorem node_optIn {folders : List FolderInfo} {x : Text} :
    ((optInNodes folders).find? fun n => n.id = x).isSome = true ↔
      x ∈ (optInNodes folders).map FolderNode.id := by
  simp

theorem node_allMail {folders : List FolderInfo} {all : FolderInfo} {x : Text}
    (is : allMailFolder folders = some all) : ((pickerModel folders).node x).isSome = true ↔
      x ∈ (optInNodes folders).map FolderNode.id ∨ x = all.path := by
  unfold pickerModel
  simp only [is, List.find?_isSome, List.mem_cons, decide_eq_true_eq, List.mem_map]
  constructor
  · rintro ⟨n, rfl | mem, rfl⟩
    · exact .inr rfl
    · exact .inl ⟨n, mem, rfl⟩
  · rintro (⟨n, mem, rfl⟩ | rfl)
    · exact ⟨n, .inr mem, rfl⟩
    · exact ⟨_, .inl rfl, rfl⟩

theorem node_tree {x : Text} (none_ : allMailFolder L.folders = none) :
    ((pickerModel L.folders).node x).isSome = true ↔
      x ∈ (optInNodes L.folders).map FolderNode.id ∨
        x ∈ shownPaths (candidates L.folders) := by
  rw [← node_optIn]
  unfold pickerModel
  simp only [none_]
  cases row : (optInNodes L.folders).find? fun n => n.id = x with
  | some n => simp
  | none =>
      by_cases shows : x ∈ shownPaths (candidates L.folders)
      · obtain ⟨f, shown, rfl⟩ := mem_shown.1 shows
        simp [shows, candAt_of_mem (candidates_distinct L) shown.candidate]
      · simp [shows]

/-- **The picker offers** exactly the rows. -/
theorem node_isSome {x : Text} :
    ((pickerModel L.folders).node x).isSome = true ↔ ∃ f, Offered L f ∧ f.path = x := by
  have optIns : x ∈ (optInNodes L.folders).map FolderNode.id ↔ ∃ f, OptIn L f ∧ f.path = x := by
    rw [← optInIds_eq, mem_optInIds]
  unfold Offered
  cases is : allMailFolder L.folders with
  | some all => simp [node_allMail is, optIns, or_and_right, exists_or, eq_comm]
  | none => simp [node_tree is, optIns, mem_shown, or_and_right, exists_or]

theorem Offered.mem {f : FolderInfo} (offered : Offered L f) : f ∈ L.folders := by
  rcases offered with is | row
  · exact is.mem
  · cases is : allMailFolder L.folders with
    | some all =>
        simp only [is] at row
        exact row ▸ List.mem_of_find?_eq_some is
    | none =>
        simp only [is] at row
        exact row.mem

/-! ## The accepted selections -/

def idsOf (roots : List FolderRootSelection) : List Text := roots.map FolderRootSelection.id

/-- The picked ids the picker offers, of which one is no opt-in row. -/
structure Accepted (L : Listing) (ids : List Text) : Prop where
  distinct : ids.Nodup
  offered : ∀ x ∈ ids, ∃ f, Offered L f ∧ f.path = x
  real : ∃ x ∈ ids, ¬ ∃ f, OptIn L f ∧ f.path = x

theorem validateSelection_ok {picked : List Text} {roots : List FolderRootSelection}
    (accepted : validateSelection L.folders picked = .ok roots) : Accepted L (idsOf roots) := by
  unfold validateSelection at accepted
  dsimp only at accepted
  split at accepted
  · rename_i some_
    obtain rfl := Except.ok.inj accepted
    have same : ∀ ids : List Text, idsOf (ids.map fun id => ⟨id, id⟩) = ids := fun ids => by
      rw [idsOf, List.map_map]
      exact List.map_id _
    rw [same]
    obtain ⟨x, mem, real⟩ := List.any_eq_true.1 some_
    exact ⟨(uniq_nodup picked).filter _, fun y y_mem => node_isSome.1 (List.mem_filter.1 y_mem).2,
      x, mem, fun is => by simp [mem_optInIds.2 is] at real⟩
  · exact absurd accepted nofun

/-- An accepted set of ids is kept as it is. -/
theorem validateSelection_accepted {ids : List Text} (accepted : Accepted L ids) :
    validateSelection L.folders ids = .ok (ids.map fun id => ⟨id, id⟩) := by
  have kept : (uniq ids).filter (fun id => ((pickerModel L.folders).node id).isSome) = ids := by
    rw [uniq_of_nodup accepted.distinct, List.filter_eq_self]
    exact fun x mem => node_isSome.2 (accepted.offered x mem)
  obtain ⟨x, mem, real⟩ := accepted.real
  unfold validateSelection
  dsimp only
  rw [kept, if_pos]
  exact List.any_eq_true.2 ⟨x, mem, by simpa using fun is => real (mem_optInIds.1 is)⟩

/-! ## The resolved mailboxes -/

/-- The resolver's loop comes to the mailboxes that hold messages and have a root. -/
theorem foldl_resolveOne {folders : List FolderInfo} {roots : List FolderRootSelection}
    {m : ScopedMailbox} (rest : List FolderInfo) : ∀ {out : List ScopedMailbox},
      (rest.map FolderInfo.path).Nodup → (∀ f ∈ rest, ∀ o ∈ out, o.path ≠ f.path) →
        (m ∈ rest.foldl (resolveOne folders roots) out ↔ m ∈ out ∨ ∃ f ∈ rest,
          f.unsyncable = false ∧ rootIdOf folders roots f = some m.rootId ∧ f.path = m.path) := by
  induction rest with
  | nil => simp
  | cons f rest ih =>
      intro out distinct fresh
      rw [List.map_cons, List.nodup_cons] at distinct
      have unseen : (out.any fun o => o.path = f.path) = false := by
        rw [List.any_eq_false]
        exact fun o mem => by simpa using fresh f (List.mem_cons_self ..) o mem
      have one : ∀ {o}, o ∈ resolveOne folders roots out f ↔ o ∈ out ∨
          f.unsyncable = false ∧ rootIdOf folders roots f = some o.rootId ∧ f.path = o.path := by
        intro o
        unfold resolveOne
        rw [unseen]
        cases f.unsyncable with
        | true => simp
        | false =>
            cases rootIdOf folders roots f with
            | none => simp
            | some rootId =>
                cases o
                simp [eq_comm, and_comm]
      have still : ∀ g ∈ rest, ∀ o ∈ resolveOne folders roots out f, o.path ≠ g.path := by
        intro g mem o is
        rcases one.1 is with is | ⟨_, _, same⟩
        · exact fresh g (List.mem_cons_of_mem _ mem) o is
        · rw [← same]
          exact fun clash => distinct.1 (clash ▸ List.mem_map_of_mem mem)
      rw [List.foldl_cons, ih distinct.2 still, one, or_assoc, List.exists_mem_cons_iff]

theorem mem_resolve {roots : List FolderRootSelection} {m : ScopedMailbox} :
    m ∈ resolveScopedMailboxes L.folders (some roots) ↔ ∃ f ∈ L.folders,
      f.unsyncable = false ∧ rootIdOf L.folders roots f = some m.rootId ∧ f.path = m.path := by
  have := @foldl_resolveOne L.folders roots m L.folders [] L.distinct
    fun _ _ _ mem => absurd mem List.not_mem_nil
  simpa [resolveScopedMailboxes] using this

/-- Each mailbox is resolved once, whatever the LIST is. -/
theorem resolve_nodup (folders : List FolderInfo) (roots : List FolderRootSelection) :
    ((resolveScopedMailboxes folders (some roots)).map ScopedMailbox.path).Nodup := by
  have keeps : ∀ (rest : List FolderInfo) (out : List ScopedMailbox),
      (out.map ScopedMailbox.path).Nodup →
        ((rest.foldl (resolveOne folders roots) out).map ScopedMailbox.path).Nodup := by
    intro rest
    induction rest with
    | nil => exact fun _ => id
    | cons f rest ih =>
        intro out distinct
        refine ih _ ?_
        unfold resolveOne
        split
        · exact distinct
        · rename_i unseen
          split
          · exact distinct
          · rw [List.map_append, List.nodup_append]
            simp only [Bool.or_eq_true, not_or, List.any_eq_true, not_exists, not_and,
              decide_eq_true_eq] at unseen
            refine ⟨distinct, List.nodup_singleton _, fun a mem b last => ?_⟩
            obtain ⟨o, o_mem, rfl⟩ := List.mem_map.1 mem
            rw [List.mem_map] at last
            obtain ⟨_, last, rfl⟩ := last
            rw [List.mem_singleton.1 last]
            exact unseen.2 o o_mem
  exact keeps folders [] List.nodup_nil

end Kiagent.Imap
