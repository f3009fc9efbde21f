/-
# Imap.ScopeAgree -- when the picker, the validation and the resolver agree

`Agrees` is what the three promise of a LIST: every accepted selection resolves to
mailboxes it names, each once, none of them Drafts or inside a special folder, and the
preselected roots are accepted as they are.  `agrees_iff` says of which lists this holds.
They fall apart

* when All Mail itself holds no messages, or is Drafts, or lies in a special folder: it is
  offered for its mark alone;
* when a container shows a mailbox its path is no prefix of, as separators may differ;
* when a special folder is spelt INBOX in another case than the mailboxes in it;
* when a default is a mailbox the picker does not offer: Sent is looked up by its name
  everywhere, also in Trash.
-/
import Kiagent.Imap.ScopeRows

namespace Kiagent.Imap

set_option autoImplicit false

/-! ## The promise -/

/-- In a special folder, spelt as the mailbox is or with INBOX in another case. -/
def Inside (L : Listing) (f : FolderInfo) : Prop :=
  underSpecial f (specialPathsOf L.folders) = true ∨
    ∃ s ∈ specialPathsOf L.folders, ∃ d ∈ seps f.delimiter,
      norm s.path f.delimiter ++ [d] <+: norm f.path f.delimiter

/-- What is resolved for a mailbox. -/
structure ResolvedRight (L : Listing) (ids : List Text) (m : ScopedMailbox) (f : FolderInfo) :
    Prop where
  path : f.path = m.path
  syncable : f.unsyncable = false
  root : m.rootId ∈ ids
  covered : covers m.rootId f = true
  notDrafts : specialKind f ≠ some .drafts
  outside : ¬ Inside L f
  optIn : isTrashOrJunk f = true → f.path ∈ ids

/-- What an accepted selection resolves to. -/
structure ResolvesTo (L : Listing) (roots : List FolderRootSelection)
    (out : List ScopedMailbox) : Prop where
  nonempty : out ≠ []
  once : (out.map ScopedMailbox.path).Nodup
  right : ∀ m ∈ out, ∃ f ∈ L.folders, ResolvedRight L (idsOf roots) m f
  /-- The picked mail folders that hold messages are there. -/
  complete : ∀ f ∈ L.folders, f.path ∈ idsOf roots → f.path ∉ (pickerModel L.folders).optInIds →
    f.unsyncable = false → f.path ∈ out.map ScopedMailbox.path

structure Agrees (L : Listing) : Prop where
  resolves : ∀ picked roots, validateSelection L.folders picked = .ok roots →
    ResolvesTo L roots (resolveScopedMailboxes L.folders (some roots))
  defaults : defaultRoots L.folders ≠ [] →
    validateSelection L.folders (idsOf (defaultRoots L.folders)) = .ok (defaultRoots L.folders)

/-! ## The lists it is kept for -/

/-- No Trash or Junk mailbox shares a path with another row, INBOX in another case. -/
def RowsApart (L : Listing) : Prop :=
  ∀ f ∈ L.folders, isTrashOrJunk f = true → f.unsyncable = false →
    ∀ g, Offered L g → samePath g.path f.path = true → f = g

/-- A server with an All Mail mailbox. -/
structure AllMailSound (L : Listing) (all : FolderInfo) : Prop where
  mailRow : ¬ OptIn L all
  syncable : all.unsyncable = false
  notDrafts : specialKind all ≠ some .drafts
  outside : ¬ Inside L all
  optInsOutside : ∀ t, OptIn L t → ¬ Inside L t
  apart : ∀ f ∈ L.folders, isTrashOrJunk f = true → f.unsyncable = false →
    ∀ g, Offered L g → samePath g.path f.path = true → f = g ∨ f = all

/-- The mailboxes a default is looked up among. -/
def DefaultOf (L : Listing) (f : FolderInfo) : Prop :=
  allOrInbox L.folders = some f ∨ sentFolder L.folders = some f ∨ archiveFolder L.folders = some f

/-- A default that no other one covers. -/
def TopDefault (L : Listing) (f : FolderInfo) : Prop :=
  DefaultOf L f ∧ ∀ g, DefaultOf L g → covers g.path f = true → g.path = f.path

/-- A server with folders only. -/
structure FoldersSound (L : Listing) : Prop where
  leads : ∀ f, Shown L f → ∃ m, Mail L m ∧ covers f.path m = true
  outside : ∀ m, Mail L m → ¬ Inside L m
  optInsOutside : (∃ m, Mail L m) → ∀ t, OptIn L t → ¬ Inside L t
  apart : (∃ m, Mail L m) → RowsApart L
  offered : ∀ f, TopDefault L f → OptIn L f ∨ Shown L f
  mailRow : (∃ f, TopDefault L f) → ∃ f, TopDefault L f ∧ ¬ OptIn L f

def Sound (L : Listing) : Prop :=
  match allMailFolder L.folders with
  | some all => AllMailSound L all
  | none => FoldersSound L

/-! ## The roots of a mailbox -/

variable {L : Listing} {roots : List FolderRootSelection} {ids : List Text} {f g : FolderInfo}

theorem isRoot_of_mem (mem : f.path ∈ idsOf roots) : isRoot roots f = true :=
  isRoot_iff.2 ⟨f.path, mem, samePath_refl _⟩

theorem rootIdOf_trashOrJunk {folders : List FolderInfo} {id : Text}
    (kind : isTrashOrJunk f = true) :
    rootIdOf folders roots f = some id ↔ isRoot roots f = true ∧ f.path = id := by
  unfold rootIdOf
  dsimp only
  rw [if_pos kind]
  split
  · simp [*]
  · simp [*]

theorem plain_of (kind : isTrashOrJunk f = false) (notDrafts : specialKind f ≠ some .drafts) :
    specialKind f = none := by
  unfold isTrashOrJunk at kind
  cases is : specialKind f with
  | none => rfl
  | some k => cases k <;> simp_all

theorem rootIdOf_allMail {folders : List FolderInfo} {all : FolderInfo} {id : Text}
    (is : allMailFolder folders = some all) (kind : isTrashOrJunk f = false) :
    rootIdOf folders roots f = some id ↔
      specialKind f ≠ some .drafts ∧ f = all ∧ isRoot roots f = true ∧ f.path = id := by
  unfold rootIdOf
  dsimp only
  rw [is, if_neg (by rw [kind]; exact nofun)]
  by_cases drafts : specialKind f = some .drafts
  · simp [drafts]
  · by_cases same : f = all <;> by_cases root : isRoot roots f = true <;> simp [*]

theorem rootIdOf_folders {folders : List FolderInfo} {id : Text}
    (none_ : allMailFolder folders = none) (kind : isTrashOrJunk f = false)
    (root : rootIdOf folders roots f = some id) :
    specialKind f = none ∧ underSpecial f (specialPathsOf folders) = false ∧
      id ∈ idsOf roots ∧ covers id f = true := by
  unfold rootIdOf at root
  dsimp only at root
  rw [none_, if_neg (by rw [kind]; exact nofun)] at root
  split at root
  · exact absurd root nofun
  · rename_i notDrafts
    dsimp only at root
    split at root
    · exact absurd root nofun
    · rename_i outside
      obtain ⟨r, found, rfl⟩ := Option.map_eq_some_iff.1 root
      exact ⟨plain_of kind notDrafts, by simpa using outside,
        List.mem_map_of_mem (List.mem_filter.1 (List.mem_of_find?_eq_some found)).1,
        by simpa using List.find?_some found⟩

/-- A mail folder has a root when a picked folder that is still there covers it. -/
theorem rootIdOf_mail (none_ : allMailFolder L.folders = none) (mail : Mail L f)
    (g_mem : g ∈ L.folders) (alive : g.isNonExistent = false) (picked : g.path ∈ idsOf roots)
    (covered : covers g.path f = true) : ∃ id, rootIdOf L.folders roots f = some id := by
  obtain ⟨r, r_mem, same⟩ := List.mem_map.1 picked
  unfold rootIdOf
  dsimp only
  rw [none_, if_neg (by simp [isTrashOrJunk, mail.plain]), if_neg (by simp [mail.plain])]
  dsimp only
  rw [if_neg (by simp [mail.outside])]
  have live : r ∈ roots.filter fun r =>
      L.folders.any fun g => !g.isNonExistent && samePath r.id g.path :=
    List.mem_filter.2 ⟨r_mem, List.any_eq_true.2 ⟨g, g_mem, by
      simp [alive, same, samePath_refl]⟩⟩
  cases found : (roots.filter fun r =>
      L.folders.any fun g => !g.isNonExistent && samePath r.id g.path).find?
        fun r => covers r.id f with
  | some r => exact ⟨r.id, rfl⟩
  | none =>
      have := List.find?_eq_none.1 found r live
      rw [same] at this
      exact absurd covered this

/-! ## What agreement asks of a list -/

def selections (ids : List Text) : List FolderRootSelection := ids.map fun id => ⟨id, id⟩

@[simp] theorem idsOf_selections : idsOf (selections ids) = ids := by
  rw [idsOf, selections, List.map_map]
  exact List.map_id _

theorem Agrees.resolved (agrees : Agrees L) (accepted : Accepted L ids) :
    ResolvesTo L (selections ids) (resolveScopedMailboxes L.folders (some (selections ids))) :=
  agrees.resolves ids _ (validateSelection_accepted accepted)

/-- Every mailbox with a root is resolved right. -/
theorem Agrees.right (agrees : Agrees L) (accepted : Accepted L ids) {id : Text}
    (mem : f ∈ L.folders) (syncable : f.unsyncable = false)
    (root : rootIdOf L.folders (selections ids) f = some id) :
    ResolvedRight L ids ⟨f.path, id⟩ f := by
  have resolved := agrees.resolved accepted
  obtain ⟨g, g_mem, right⟩ := resolved.right ⟨f.path, id⟩
    (mem_resolve.2 ⟨f, mem, syncable, root, rfl⟩)
  rw [idsOf_selections] at right
  obtain rfl := L.eq_of_path g_mem mem right.path
  exact right

/-- A row of the tree, or All Mail, picked with any other row. -/
theorem accepted_pair (row : Offered L f) (real : ¬ OptIn L f) (other : Offered L g) :
    Accepted L (uniq [f.path, g.path]) where
  distinct := uniq_nodup _
  offered x mem := by
    rcases List.mem_cons.1 (mem_uniq.1 mem) with rfl | mem
    · exact ⟨f, row, rfl⟩
    · exact ⟨g, other, (List.mem_singleton.1 mem).symm⟩
  real := by
    refine ⟨f.path, mem_uniq.2 (List.mem_cons_self ..), ?_⟩
    rintro ⟨t, optIn, same⟩
    exact real (L.eq_of_path optIn.mem row.mem same ▸ optIn)

theorem mem_pair {x : Text} : x ∈ uniq [f.path, g.path] ↔ x = f.path ∨ x = g.path := by
  simp [mem_uniq]

/-- A Trash or Junk mailbox that a picked row shares its path with is that row. -/
theorem Agrees.picked (agrees : Agrees L) (accepted : Accepted L ids) (mem : f ∈ L.folders)
    (kind : isTrashOrJunk f = true) (syncable : f.unsyncable = false) {x : Text} (picked : x ∈ ids)
    (same : samePath x f.path = true) : f.path ∈ ids :=
  (agrees.right accepted mem syncable ((rootIdOf_trashOrJunk kind).2
    ⟨isRoot_iff.2 ⟨x, by rwa [← idsOf, idsOf_selections], same⟩, rfl⟩)).optIn kind

/-- So it is outside every special folder. -/
theorem Agrees.optIn_outside (agrees : Agrees L) (accepted : Accepted L ids) (optIn : OptIn L f)
    (picked : f.path ∈ ids) : ¬ Inside L f :=
  (agrees.right accepted optIn.mem optIn.syncable ((rootIdOf_trashOrJunk optIn.kind).2
    ⟨isRoot_of_mem (by rwa [idsOf_selections]), rfl⟩)).outside

/-! ## Servers with All Mail -/

section AllMail

variable {all : FolderInfo}

theorem offered_allMail (is : allMailFolder L.folders = some all) :
    Offered L f ↔ OptIn L f ∨ f = all := by
  unfold Offered
  rw [is]

theorem defaultRoots_allMail (is : allMailFolder L.folders = some all) :
    defaultRoots L.folders = selections [all.path] := by
  unfold defaultRoots
  simp only [is, uniq_of_nodup (List.nodup_singleton all.path), selections]
  rw [List.filter_eq_self.2]
  intro p mem
  rw [List.mem_singleton] at mem
  subst mem
  split <;> simp

/-- What one pick of All Mail and one of each pair of rows show of the list. -/
theorem allMailSound_of_agrees (is : allMailFolder L.folders = some all) (agrees : Agrees L) :
    AllMailSound L all := by
  have all_mem : all ∈ L.folders := List.mem_of_find?_eq_some is
  have row : Offered L all := (offered_allMail is).2 (.inr rfl)
  have real : ¬ OptIn L all := by
    have default := agrees.defaults (by rw [defaultRoots_allMail is]; exact nofun)
    rw [defaultRoots_allMail is, idsOf_selections] at default
    obtain ⟨x, mem, real⟩ := (validateSelection_ok default).real
    rw [idsOf_selections, List.mem_singleton] at mem
    exact fun optIn => real ⟨all, optIn, mem.symm⟩
  have pair : ∀ {g}, Offered L g → Accepted L (uniq [all.path, g.path]) := accepted_pair row real
  -- Picked alone, All Mail is what is resolved.
  have right : ∃ id, ResolvedRight L (uniq [all.path, all.path]) ⟨all.path, id⟩ all := by
    obtain ⟨m, m_mem⟩ := List.exists_mem_of_ne_nil _ (agrees.resolved (pair row)).nonempty
    obtain ⟨f, mem, syncable, root, same⟩ := mem_resolve.1 m_mem
    have is_all : f = all := by
      cases kind : isTrashOrJunk f with
      | true =>
          have picked := (agrees.right (pair row) mem syncable root).optIn kind
          exact L.eq_of_path mem all_mem ((mem_pair.1 picked).elim id id)
      | false => exact ((rootIdOf_allMail is kind).1 root).2.1
    subst is_all
    exact ⟨_, agrees.right (pair row) mem syncable root⟩
  obtain ⟨_, right⟩ := right
  refine ⟨real, right.syncable, right.notDrafts, right.outside, fun t optIn => ?_, ?_⟩
  · exact agrees.optIn_outside (pair ((offered_allMail is).2 (.inl optIn))) optIn
      (mem_pair.2 (.inr rfl))
  · intro f mem kind syncable g offered same
    have picked := agrees.picked (pair offered) mem kind syncable (mem_pair.2 (.inr rfl)) same
    rcases mem_pair.1 picked with same | same
    · exact .inr (L.eq_of_path mem all_mem same)
    · exact .inl (L.eq_of_path mem offered.mem same)

theorem agrees_of_allMailSound (is : allMailFolder L.folders = some all)
    (sound : AllMailSound L all) : Agrees L := by
  have all_mem : all ∈ L.folders := List.mem_of_find?_eq_some is
  have row : Offered L all := (offered_allMail is).2 (.inr rfl)
  refine ⟨fun picked roots accepted => ?_, fun _ => ?_⟩
  · have accepted := validateSelection_ok accepted
    have all_picked : all.path ∈ idsOf roots := by
      obtain ⟨x, mem, real⟩ := accepted.real
      obtain ⟨g, offered, rfl⟩ := accepted.offered x mem
      rcases (offered_allMail is).1 offered with optIn | rfl
      · exact absurd ⟨g, optIn, rfl⟩ real
      · exact mem
    have all_root : rootIdOf L.folders roots all = some all.path := by
      cases kind : isTrashOrJunk all with
      | true => exact (rootIdOf_trashOrJunk kind).2 ⟨isRoot_of_mem all_picked, rfl⟩
      | false =>
          exact (rootIdOf_allMail is kind).2
            ⟨sound.notDrafts, rfl, isRoot_of_mem all_picked, rfl⟩
    have all_resolved : (⟨all.path, all.path⟩ : ScopedMailbox) ∈
        resolveScopedMailboxes L.folders (some roots) :=
      mem_resolve.2 ⟨all, all_mem, sound.syncable, all_root, rfl⟩
    have all_right : ResolvedRight L (idsOf roots) ⟨all.path, all.path⟩ all :=
      ⟨rfl, sound.syncable, all_picked, covers_self _, sound.notDrafts, sound.outside,
        fun _ => all_picked⟩
    refine ⟨List.ne_nil_of_mem all_resolved, resolve_nodup _ _, fun m m_mem => ?_, ?_⟩
    · obtain ⟨f, mem, syncable, root, same⟩ := mem_resolve.1 m_mem
      refine ⟨f, mem, ?_⟩
      obtain ⟨path, rootId⟩ := m
      obtain rfl : f.path = path := same
      cases kind : isTrashOrJunk f with
      | false =>
          obtain ⟨_, rfl, _, rfl⟩ := (rootIdOf_allMail is kind).1 root
          exact all_right
      | true =>
          obtain ⟨found, rfl⟩ := (rootIdOf_trashOrJunk kind).1 root
          obtain ⟨x, picked, same⟩ := isRoot_iff.1 found
          obtain ⟨g, offered, rfl⟩ := accepted.offered x picked
          rcases sound.apart f mem kind syncable g offered same with rfl | rfl
          · rcases (offered_allMail is).1 offered with optIn | rfl
            · refine ⟨rfl, syncable, picked, covers_self _, fun drafts => ?_,
                sound.optInsOutside f optIn, fun _ => picked⟩
              simp [isTrashOrJunk, drafts] at kind
            · exact all_right
          · exact all_right
    · intro f mem picked real _
      obtain ⟨g, offered, same⟩ := accepted.offered _ picked
      obtain rfl := L.eq_of_path offered.mem mem same
      rcases (offered_allMail is).1 offered with optIn | rfl
      · exact absurd (mem_optInIds.2 ⟨g, optIn, rfl⟩) real
      · exact List.mem_map_of_mem all_resolved
  · rw [defaultRoots_allMail is, idsOf_selections]
    have := accepted_pair row sound.mailRow row
    have alone : uniq [all.path, all.path] = [all.path] := by
      simp [uniq, List.eraseDups_cons]
    rw [alone] at this
    exact validateSelection_accepted this

end AllMail

/-! ## Servers with folders only -/

theorem Shown.not_optIn (shown : Shown L f) : ¬ OptIn L f := by
  intro optIn
  have := optIn.kind
  simp [isTrashOrJunk, shown.plain] at this

theorem DefaultOf.mem (default : DefaultOf L f) : f ∈ L.folders := by
  rcases default with is | is | is
  · unfold allOrInbox at is
    split at is
    · rename_i found
      obtain rfl := Option.some.inj is
      exact List.mem_of_find?_eq_some found
    · split at is
      · rename_i found
        obtain rfl := Option.some.inj is
        exact List.mem_of_find?_eq_some found
      · exact List.mem_of_find?_eq_some is
  · unfold sentFolder at is
    split at is
    · rename_i found
      obtain rfl := Option.some.inj is
      exact List.mem_of_find?_eq_some found
    · exact List.mem_of_find?_eq_some is
  · exact List.mem_of_find?_eq_some is

section Folders

variable (none_ : allMailFolder L.folders = none)

include none_

theorem offered_folders : Offered L f ↔ OptIn L f ∨ Shown L f := by
  unfold Offered
  rw [none_]

theorem mem_defaultRoots {x : Text} :
    x ∈ idsOf (defaultRoots L.folders) ↔ ∃ f, TopDefault L f ∧ f.path = x := by
  have paths : ∀ y, y ∈ uniq (resolveMailboxes L.folders ++
      (archiveFolder L.folders).toList.map FolderInfo.path) ↔ ∃ f, DefaultOf L f ∧ f.path = y := by
    intro y
    simp only [mem_uniq, List.mem_append, resolveMailboxes, List.map_append, List.mem_map,
      Option.mem_toList, DefaultOf, or_and_right, exists_or, or_assoc]
  have find : ∀ f, DefaultOf L f → L.folders.find? (fun g => g.path = f.path) = some f :=
    fun f default => candAt_of_mem L.distinct default.mem
  unfold defaultRoots
  simp only [none_, idsOf, List.map_map, Function.comp_def, List.map_id', List.mem_filter, paths]
  constructor
  · rintro ⟨⟨f, default, rfl⟩, top⟩
    refine ⟨f, ⟨default, fun g g_default covered => ?_⟩, rfl⟩
    simp only [find f default, Bool.not_eq_true', List.any_eq_false, paths] at top
    by_contra other
    exact top g.path ⟨g, g_default, rfl⟩ (by simp [other, covered])
  · rintro ⟨f, ⟨default, top⟩, rfl⟩
    refine ⟨⟨f, default, rfl⟩, ?_⟩
    simp only [find f default, Bool.not_eq_true', List.any_eq_false, paths]
    rintro _ ⟨g, g_default, rfl⟩ covered
    simp only [Bool.and_eq_true, decide_eq_true_eq] at covered
    exact covered.1 (top g g_default covered.2)

omit none_ in
theorem defaultRoots_nodup : (idsOf (defaultRoots L.folders)).Nodup := by
  unfold defaultRoots
  simp only [idsOf, List.map_map, Function.comp_def, List.map_id']
  exact (uniq_nodup _).filter _

omit none_ in
/-- A default is named by its path. -/
theorem selections_defaultRoots :
    selections (idsOf (defaultRoots L.folders)) = defaultRoots L.folders := by
  unfold defaultRoots
  simp only [selections, idsOf, List.map_map, Function.comp_def, List.map_id']

theorem foldersSound_of_agrees (agrees : Agrees L) : FoldersSound L := by
  have pair : ∀ {f g}, Shown L f → Offered L g → Accepted L (uniq [f.path, g.path]) :=
    fun shown => accepted_pair ((offered_folders none_).2 (.inr shown)) shown.not_optIn
  have row : ∀ {f}, Shown L f → Offered L f := fun shown => (offered_folders none_).2 (.inr shown)
  have offered : ∀ {f}, TopDefault L f → Accepted L (idsOf (defaultRoots L.folders)) := by
    intro f top
    have default := (mem_defaultRoots none_).2 ⟨f, top, rfl⟩
    refine validateSelection_ok (agrees.defaults fun empty => ?_)
    rw [empty] at default
    exact absurd default List.not_mem_nil
  refine ⟨fun f shown => ?_, fun m mail => ?_, ?_, ?_, fun f top => ?_, ?_⟩
  · have accepted := pair shown (row shown)
    obtain ⟨m, m_mem⟩ := List.exists_mem_of_ne_nil _ (agrees.resolved accepted).nonempty
    obtain ⟨g, mem, syncable, root, same⟩ := mem_resolve.1 m_mem
    cases kind : isTrashOrJunk g with
    | true =>
        have picked := (agrees.right accepted mem syncable root).optIn kind
        obtain rfl := L.eq_of_path mem shown.mem ((mem_pair.1 picked).elim id id)
        simp [isTrashOrJunk, shown.plain] at kind
    | false =>
        obtain ⟨plain, outside, picked, covered⟩ := rootIdOf_folders none_ kind root
        rw [idsOf_selections] at picked
        rw [(mem_pair.1 picked).elim id id] at covered
        exact ⟨g, ⟨mem, syncable, plain, outside⟩, covered⟩
  · have accepted := pair mail.shown (row mail.shown)
    obtain ⟨id, root⟩ := @rootIdOf_mail L (selections (uniq [m.path, m.path])) m m none_ mail
      mail.mem (mem_candidates.1 mail.candidate).2.1
      (by rw [idsOf_selections]; exact mem_pair.2 (.inl rfl)) (covers_self m)
    exact (agrees.right accepted mail.mem mail.syncable root).outside
  · rintro ⟨m, mail⟩ t optIn
    exact agrees.optIn_outside (pair mail.shown ((offered_folders none_).2 (.inl optIn))) optIn
      (mem_pair.2 (.inr rfl))
  · rintro ⟨m, mail⟩ f mem kind syncable g g_offered same
    have picked := agrees.picked (pair mail.shown g_offered) mem kind syncable
      (mem_pair.2 (.inr rfl)) same
    rcases mem_pair.1 picked with same | same
    · obtain rfl := L.eq_of_path mem mail.mem same
      simp [isTrashOrJunk, mail.plain] at kind
    · exact L.eq_of_path mem g_offered.mem same
  · obtain ⟨g, g_offered, same⟩ :=
      (offered top).offered f.path ((mem_defaultRoots none_).2 ⟨f, top, rfl⟩)
    obtain rfl := L.eq_of_path g_offered.mem top.1.mem same
    exact (offered_folders none_).1 g_offered
  · rintro ⟨f, top⟩
    obtain ⟨x, mem, real⟩ := (offered top).real
    obtain ⟨g, g_top, rfl⟩ := (mem_defaultRoots none_).1 mem
    exact ⟨g, g_top, fun optIn => real ⟨g, optIn, rfl⟩⟩

theorem agrees_of_foldersSound (sound : FoldersSound L) : Agrees L := by
  refine ⟨fun picked roots accepted => ?_, fun nonempty => ?_⟩
  · have accepted := validateSelection_ok accepted
    have rooted : ∀ {m g}, Mail L m → Shown L g → g.path ∈ idsOf roots → covers g.path m = true →
        m.path ∈ (resolveScopedMailboxes L.folders (some roots)).map ScopedMailbox.path := by
      intro m g mail shown picked covered
      obtain ⟨id, root⟩ := rootIdOf_mail none_ mail shown.mem
        (mem_candidates.1 shown.candidate).2.1 picked covered
      exact List.mem_map.2 ⟨⟨m.path, id⟩,
        mem_resolve.2 ⟨m, mail.mem, mail.syncable, root, rfl⟩, rfl⟩
    -- The picked row that is no opt-in row covers a mail folder.
    obtain ⟨x, picked, real⟩ := accepted.real
    obtain ⟨g, offered, rfl⟩ := accepted.offered x picked
    have shown : Shown L g := ((offered_folders none_).1 offered).resolve_left
      fun optIn => real ⟨g, optIn, rfl⟩
    obtain ⟨mail, is_mail, covered⟩ := sound.leads g shown
    have some_mail : ∃ m, Mail L m := ⟨mail, is_mail⟩
    refine ⟨fun empty => ?_, resolve_nodup _ _, fun m m_mem => ?_, ?_⟩
    · have := rooted is_mail shown picked covered
      rw [empty] at this
      exact absurd this List.not_mem_nil
    · obtain ⟨f, mem, syncable, root, same⟩ := mem_resolve.1 m_mem
      refine ⟨f, mem, ?_⟩
      cases kind : isTrashOrJunk f with
      | false =>
          obtain ⟨plain, outside, root_picked, root_covers⟩ := rootIdOf_folders none_ kind root
          exact ⟨same, syncable, root_picked, root_covers, by simp [plain],
            sound.outside f ⟨mem, syncable, plain, outside⟩, fun is => absurd (kind.symm.trans is)
              nofun⟩
      | true =>
          obtain ⟨found, own⟩ := (rootIdOf_trashOrJunk kind).1 root
          obtain ⟨y, y_picked, y_same⟩ := isRoot_iff.1 found
          obtain ⟨h, h_offered, rfl⟩ := accepted.offered y y_picked
          obtain rfl := sound.apart some_mail f mem kind syncable h h_offered y_same
          have optIn : OptIn L f := ((offered_folders none_).1 h_offered).resolve_right
            fun shown => by simp [isTrashOrJunk, shown.plain] at kind
          refine ⟨same, syncable, own ▸ y_picked, own ▸ covers_self f, fun drafts => ?_,
            sound.optInsOutside some_mail f optIn, fun _ => y_picked⟩
          simp [isTrashOrJunk, drafts] at kind
    · intro f mem f_picked f_real syncable
      obtain ⟨h, h_offered, h_same⟩ := accepted.offered _ f_picked
      obtain rfl := L.eq_of_path h_offered.mem mem h_same
      have h_shown : Shown L h := ((offered_folders none_).1 h_offered).resolve_left
        fun optIn => f_real (mem_optInIds.2 ⟨h, optIn, rfl⟩)
      exact rooted ((mail_iff L).2 ⟨h_shown.candidate, syncable⟩) h_shown f_picked (covers_self h)
  · have top : ∃ f, TopDefault L f := by
      obtain ⟨r, mem⟩ := List.exists_mem_of_ne_nil _ nonempty
      obtain ⟨f, top, _⟩ := (mem_defaultRoots none_).1 (List.mem_map_of_mem mem)
      exact ⟨f, top⟩
    have accepted : Accepted L (idsOf (defaultRoots L.folders)) := by
      refine ⟨defaultRoots_nodup, fun x mem => ?_, ?_⟩
      · obtain ⟨f, top, rfl⟩ := (mem_defaultRoots none_).1 mem
        exact ⟨f, (offered_folders none_).2 (sound.offered f top), rfl⟩
      · obtain ⟨f, top, real⟩ := sound.mailRow top
        refine ⟨f.path, (mem_defaultRoots none_).2 ⟨f, top, rfl⟩, ?_⟩
        rintro ⟨t, optIn, same⟩
        exact real (L.eq_of_path optIn.mem top.1.mem same ▸ optIn)
    rw [validateSelection_accepted accepted]
    exact congrArg Except.ok selections_defaultRoots

end Folders

/-- **The three functions agree** exactly on the sound lists. -/
theorem agrees_iff (L : Listing) : Agrees L ↔ Sound L := by
  unfold Sound
  cases is : allMailFolder L.folders with
  | some all => exact ⟨allMailSound_of_agrees is, agrees_of_allMailSound is⟩
  | none => exact ⟨foldersSound_of_agrees is, agrees_of_foldersSound is⟩

/-! ## A deleted Sent folder -/

def mailbox (path : String) (parent : Option String) : FolderInfo :=
  ⟨path.toList, none, [], some '/', parent.map String.toList⟩

/-- A server without marks whose only mailbox by the name of Sent was deleted. -/
def deletedSent : Listing where
  folders := [mailbox "INBOX" none, mailbox "Sent Messages" none, mailbox "Trash" none,
    mailbox "Trash/Sent" (some "Trash")]
  distinct := by decide +kernel

/-- The preselected roots are INBOX and the deleted folder, and the latter is dropped. -/
theorem agrees_deletedSent : ¬ ∀ L, Agrees L := by
  intro agrees
  have default := (agrees deletedSent).defaults (by decide +kernel)
  exact absurd default (by decide +kernel)

end Kiagent.Imap
