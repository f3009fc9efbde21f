/-
# Marketplace.Trust -- the bytes of a version are pinned by its first install

A preview compares the hash of a package with the record of what is installed, if that is of
the same version.  A version that was installed before and is not any more has no record: its
bytes are compared with nothing, and neither are those of a preview made before the version
was installed (`downgrade_unpinned`).

Where every version that is committed again was compared at its preview, all commits of a
version have one hash (`trusted_run`).
-/
import Kiagent.Marketplace.Installer
import Kiagent.Theory.Runs

namespace Kiagent.Marketplace.Installer

open Theory (Along fold_keeps)

set_option autoImplicit false

/-- A commit of a package from the marketplace. -/
structure Committed where
  id : String
  version : String
  integrity : String
  deriving DecidableEq, Repr

/-- The installer, with what was committed since an extension was installed, and the previews
that found their own version installed, by token and extension. -/
structure Watched (Data : Type) where
  state : State Data
  log : List Committed
  compared : List (Nat × String)

inductive Action (Bytes : Type) where
  | preview (outside : Outside Bytes) (ref : String)
  | commit (token : Nat) (crossDevice : Bool) (installedAt : String)
  | discard (token : Nat)
  | discardAll
  | uninstall (id : String)

section Runs

variable {Bytes Data : Type} (deps : Deps Bytes)

def start : Watched Data := ⟨⟨[], 0, ⟨fun _ => none, fun _ => none, []⟩⟩, [], []⟩

/-- The version of the manifest is installed, from the marketplace. -/
def isInstalled (installed : List InstalledRecord) (manifest : Manifest) : Bool :=
  (installed.find? fun r => r.id = manifest.id).any fun r =>
    r.version = manifest.version && r.integrity.isSome

def next (g : Watched Data) : Action Bytes → Watched Data
  | .preview outside ref =>
      match preview deps outside ref g.state with
      | .error _ => g
      | .ok (entry, s) =>
          { g with
            state := s
            compared := if isInstalled g.state.disk.installed entry.manifest then
              g.compared ++ [(entry.token, entry.manifest.id)] else g.compared }
  | .commit token crossDevice installedAt =>
      match commit token crossDevice installedAt g.state with
      | .error _ => g
      | .ok (record, s) =>
          { g with
            state := s
            log := match record.integrity with
              | some integrity => g.log ++ [⟨record.id, record.version, integrity⟩]
              | none => g.log }
  | .discard token => { g with state := discard token g.state }
  | .discardAll => { g with state := discardAll g.state }
  | .uninstall id =>
      { state := uninstall id g.state
        log := g.log.filter fun c => c.id ≠ id
        compared := g.compared.filter fun t => t.2 ≠ id }

/-- A version that is committed again was compared at its preview, and stayed installed. -/
def Compared (g : Watched Data) : Action Bytes → Prop
  | .commit token _ _ => ∀ p ∈ g.state.pending, p.token = token → p.integrity ≠ none →
      (∃ c ∈ g.log, c.id = p.manifest.id ∧ c.version = p.manifest.version) →
      (token, p.manifest.id) ∈ g.compared
  | _ => True

instance (g : Watched Data) (a : Action Bytes) : Decidable (Compared g a) := by
  cases a <;> unfold Compared <;> infer_instance

/-- All commits of a version have one hash. -/
def Pinned (log : List Committed) : Prop :=
  ∀ c ∈ log, ∀ d ∈ log, c.id = d.id → c.version = d.version → c.integrity = d.integrity

instance (log : List Committed) : Decidable (Pinned log) := by unfold Pinned; infer_instance

structure Trusted (g : Watched Data) : Prop where
  pinned : Pinned g.log
  /-- A preview of other bytes than are installed of the version is refused. -/
  refused : ∀ outside ref entry s, preview deps outside ref g.state = .ok (entry, s) →
    ∀ r, (g.state.disk.installed.find? fun r => r.id = entry.manifest.id) = some r →
      r.version = entry.manifest.version → ∀ h h', r.integrity = some h →
        entry.integrity = some h' → h = h'
  untouched : ∀ outside ref, (next deps g (.preview outside ref)).state.disk = g.state.disk

/-! ## One step -/

/-- What the pins hold of. -/
structure Sound (g : Watched Data) : Prop where
  pinned : Pinned g.log
  records : ∀ r ∈ g.state.disk.installed, ∀ h, r.integrity = some h →
    h ≠ "" ∧ ⟨r.id, r.version, h⟩ ∈ g.log
  pending : ∀ p ∈ g.state.pending, p.token < g.state.nextToken ∧ p.integrity ≠ some ""
  compared : ∀ p ∈ g.state.pending, ∀ h, p.integrity = some h →
    (p.token, p.manifest.id) ∈ g.compared → ⟨p.manifest.id, p.manifest.version, h⟩ ∈ g.log
  given : ∀ t ∈ g.compared, t.1 < g.state.nextToken

theorem stage_integrity {outside : Outside Bytes} {ref : String} {package : Package}
    {integrity : Option String} {recordRef : String}
    (staged : stage deps outside ref = .ok (package, integrity, recordRef)) :
    integrity ≠ some "" := by
  unfold stage at staged
  split at staged
  · split at staged
    · cases staged
    · rename_i answer _
      cases answer with
      | error e => cases staged
      | ok pair =>
          obtain ⟨bytes, pinnedRef⟩ := pair
          cases unpacked : deps.unpack bytes with
          | error e => simp [bind, Except.bind, unpacked] at staged
          | ok package' =>
              simp only [bind, Except.bind, unpacked, pure, Except.pure] at staged
              cases staged
              intro same
              have first := congrArg String.toList (Option.some.inj same)
              rw [String.toList_append] at first
              cases first
  · split at staged
    · cases staged
    · cases staged
      exact nofun
    · rename_i archive _
      cases archive with
      | error e => cases staged
      | ok package' =>
          cases staged
          exact nofun
    · cases staged

theorem inspect_ok {outside : Outside Bytes} {installed : List InstalledRecord} {package : Package}
    {integrity : Option String} {manifest : Manifest}
    (passed : inspect outside installed package integrity = .ok manifest) :
    integrity.any (differs installed manifest) = false := by
  unfold inspect at passed
  cases shipped : package.hasData with
  | true => simp [shipped, bind, Except.bind, throw, throwThe, MonadExceptOf.throw] at passed
  | false =>
      cases valid : package.manifest with
      | error e => simp [shipped, valid, bind, Except.bind] at passed
      | ok manifest' =>
          simp only [shipped, valid, bind, Except.bind, pure, Except.pure, throw, throwThe,
            MonadExceptOf.throw] at passed
          cases owner : taken outside.sourceIdOwners manifest' with
          | some pair => simp [owner] at passed
          | none =>
              cases other : integrity.any (differs installed manifest') with
              | true => simp [owner, other] at passed
              | false =>
                  simp only [owner, other] at passed
                  cases passed
                  exact other

/-- **A preview** that returns compared its bytes, and left the disk as it was. -/
theorem preview_ok {outside : Outside Bytes} {ref : String} {entry : PendingInstall}
    {s s' : State Data} (ran : preview deps outside ref s = .ok (entry, s')) :
    entry.token = s.nextToken ∧ s'.disk = s.disk ∧ s'.nextToken = s.nextToken + 1 ∧
      (∀ p ∈ s'.pending, p ∈ s.pending ∨ p = entry) ∧ entry.integrity ≠ some "" ∧
      entry.integrity.any (differs s.disk.installed entry.manifest) = false := by
  unfold preview at ran
  split at ran
  · cases ran
  · cases staged : stage deps outside ref with
    | error e => simp [staged, bind, Except.bind] at ran
    | ok triple =>
        obtain ⟨package, integrity, recordRef⟩ := triple
        cases passed : inspect outside s.disk.installed package integrity with
        | error e => simp [staged, passed, bind, Except.bind] at ran
        | ok manifest =>
            simp only [staged, passed, bind, Except.bind, pure, Except.pure] at ran
            cases ran
            refine ⟨rfl, rfl, rfl, fun p mem => ?_, stage_integrity deps staged, inspect_ok passed⟩
            have whole : ∀ l : List PendingInstall,
                p ∈ (if MAX_PENDING < l.length then l.tail else l) → p ∈ l := fun l mem => by
              split at mem
              · exact List.mem_of_mem_tail mem
              · exact mem
            exact (List.mem_append.mp (whole _ mem)).imp id List.mem_singleton.mp

theorem perform_installed (id : String) (d : Disk Data) (op : FileOp)
    (other : ∀ record, op ≠ .writeInstalled record) :
    (perform id d op).installed = d.installed := by
  cases op with
  | writeInstalled record => exact absurd rfl (other record)
  | dataAside =>
      show (dataAside id d).installed = _
      unfold dataAside
      split <;> rfl
  | dataBack =>
      show (dataBack id d).installed = _
      unfold dataBack
      split <;> rfl
  | _ => rfl

theorem performAll_installed (id : String) (ops : List FileOp) (d : Disk Data)
    (others : ∀ op ∈ ops, ∀ record, op ≠ .writeInstalled record) :
    (performAll id d ops).installed = d.installed := by
  induction ops generalizing d with
  | nil => rfl
  | cons op ops ih =>
      have rest := ih (perform id d op) fun o mem => others o (List.mem_cons_of_mem _ mem)
      exact rest.trans (perform_installed id d op (others op List.mem_cons_self))

theorem moveOps_others (found : Option (Dir Data)) (p : PendingInstall) (crossDevice : Bool) :
    ∀ op ∈ moveOps found p crossDevice, ∀ record, op ≠ .writeInstalled record := by
  intro op mem record same
  subst same
  unfold moveOps moveDir at mem
  cases crossDevice <;> split at mem <;> simp at mem

theorem commit_installed (found : Option (Dir Data)) (p : PendingInstall) (crossDevice : Bool)
    (installedAt id : String) (d : Disk Data) :
    (performAll id d (commitOps found p crossDevice installedAt)).installed =
      (d.installed.filter fun r => r.id ≠ p.manifest.id) ++ [p.record installedAt] := by
  have kept := performAll_installed id _ d (moveOps_others found p crossDevice)
  unfold performAll at kept
  rw [commitOps, performAll, List.foldl_cons, List.foldl_append]
  show (List.filter _ (List.foldl (perform id) d (moveOps found p crossDevice)).installed) ++ _ = _
  rw [kept]
  rfl

/-- **A commit** is of a pending install, and records it. -/
theorem commit_ok {token : Nat} {crossDevice : Bool} {installedAt : String}
    {record : InstalledRecord} {s s' : State Data}
    (ran : commit token crossDevice installedAt s = .ok (record, s')) :
    ∃ p ∈ s.pending, p.token = token ∧ record = p.record installedAt ∧
      s'.pending = s.pending.filter (fun q => q.token ≠ token) ∧ s'.nextToken = s.nextToken ∧
      s'.disk.installed =
        (s.disk.installed.filter fun r => r.id ≠ p.manifest.id) ++ [record] := by
  unfold commit find at ran
  cases found : s.pending.find? fun p => p.token = token with
  | none => simp [found, bind, Except.bind] at ran
  | some p =>
      simp only [found, bind, Except.bind, pure, Except.pure] at ran
      cases ran
      exact ⟨p, List.mem_of_find?_eq_some found, by simpa using List.find?_some found, rfl, rfl,
        rfl, commit_installed _ _ _ _ _ _⟩

/-- What passes was compared with the record, and is of the same bytes. -/
theorem same_bytes {installed : List InstalledRecord} {manifest : Manifest} {integrity : String}
    (there : isInstalled installed manifest = true)
    (nonempty : ∀ r ∈ installed, ∀ h, r.integrity = some h → h ≠ "")
    (passed : differs installed manifest integrity = false) :
    ∃ r ∈ installed, r.id = manifest.id ∧ r.version = manifest.version ∧
      r.integrity = some integrity := by
  unfold isInstalled at there
  unfold differs at passed
  cases found : installed.find? fun r => r.id = manifest.id with
  | none => simp [found] at there
  | some r =>
      have mem := List.mem_of_find?_eq_some found
      have id : r.id = manifest.id := by simpa using List.find?_some found
      simp only [found, Option.any_some, Bool.and_eq_true, decide_eq_true_eq] at there passed
      obtain ⟨h, is⟩ := Option.isSome_iff_exists.mp there.2
      have named := nonempty r mem h is
      refine ⟨r, mem, id, there.1, ?_⟩
      simp only [is, there.1, named, ne_eq, not_false_eq_true, decide_true, Bool.true_and,
        decide_eq_false_iff_not, not_not] at passed
      rw [is, passed]

variable {deps}

theorem sound_start : Sound (start : Watched Data) :=
  ⟨nofun, nofun, nofun, nofun, nofun⟩

theorem sound_preview {g : Watched Data} (sound : Sound g) (outside : Outside Bytes)
    (ref : String) : Sound (next deps g (.preview outside ref)) := by
  unfold next
  dsimp only
  cases ran : preview deps outside ref g.state with
  | error e => exact sound
  | ok pair =>
      obtain ⟨entry, s⟩ := pair
      obtain ⟨token, disk, given, pending, nonempty, passed⟩ := preview_ok deps ran
      dsimp only
      refine ⟨sound.pinned, disk ▸ sound.records, fun p mem => ?_, fun p mem h is compared => ?_,
        fun t mem => ?_⟩
      · rcases pending p mem with old | rfl
        · rw [given]
          exact ⟨Nat.lt_succ_of_lt (sound.pending p old).1, (sound.pending p old).2⟩
        · rw [given, token]
          exact ⟨Nat.lt_succ_self _, nonempty⟩
      · rcases pending p mem with old | rfl
        · refine sound.compared p old h is ?_
          split at compared
          · rcases List.mem_append.mp compared with was | last
            · exact was
            · have same : p.token = g.state.nextToken :=
                (congrArg Prod.fst (List.mem_singleton.mp last)).trans token
              exact absurd (sound.pending p old).1 (same ▸ Nat.lt_irrefl _)
          · exact compared
        · rw [is, Option.any_some] at passed
          split at compared
          · rename_i installed
            obtain ⟨r, mem', id, version, integrity⟩ := same_bytes installed
              (fun r mem h is => (sound.records r mem h is).1) passed
            have pinned := (sound.records r mem' h integrity).2
            rwa [id, version] at pinned
          · exact absurd (sound.given _ compared) (token ▸ Nat.lt_irrefl _)
      · rw [given]
        split at mem
        · rcases List.mem_append.mp mem with old | last
          · exact Nat.lt_succ_of_lt (sound.given t old)
          · rw [List.mem_singleton.mp last, token]
            exact Nat.lt_succ_self _
        · exact Nat.lt_succ_of_lt (sound.given t mem)

theorem sound_commit {g : Watched Data} (sound : Sound g) (token : Nat) (crossDevice : Bool)
    (installedAt : String)
    (compared : @Compared Bytes Data g (.commit token crossDevice installedAt)) :
    Sound (next deps g (.commit token crossDevice installedAt)) := by
  unfold next
  dsimp only
  cases ran : commit token crossDevice installedAt g.state with
  | error e => exact sound
  | ok pair =>
      obtain ⟨record, s⟩ := pair
      obtain ⟨p, mem, rfl, rfl, pending, given, installed⟩ := commit_ok ran
      dsimp only
      have still : ∀ q ∈ s.pending, q ∈ g.state.pending := fun q inside => by
        rw [pending] at inside
        exact List.mem_of_mem_filter inside
      have others : ∀ r ∈ s.disk.installed, r ∈ g.state.disk.installed ∨
          r = p.record installedAt := fun r inside => by
        rw [installed] at inside
        rcases List.mem_append.mp inside with old | last
        · exact Or.inl (List.mem_of_mem_filter old)
        · exact Or.inr (List.mem_singleton.mp last)
      show Sound ⟨s, match p.integrity with
        | some integrity => g.log ++ [⟨p.manifest.id, p.manifest.version, integrity⟩]
        | none => g.log, g.compared⟩
      cases is : p.integrity with
      | none =>
          refine ⟨sound.pinned, fun r inside h is' => ?_, fun q inside => ?_,
            fun q inside => sound.compared q (still q inside), fun t => ?_⟩
          · rcases others r inside with old | rfl
            · exact sound.records r old h is'
            · rw [PendingInstall.record, is] at is'
              cases is'
          · rw [given]
            exact sound.pending q (still q inside)
          · rw [given]
            exact sound.given t
      | some integrity =>
          have agrees : ∀ c ∈ g.log, c.id = p.manifest.id → c.version = p.manifest.version →
              c.integrity = integrity := fun c inside id version => by
            have there := compared p mem rfl (by rw [is]; nofun) ⟨c, inside, id, version⟩
            exact sound.pinned c inside _ (sound.compared p mem integrity is there) id version
          refine ⟨fun c inside d inside' id version => ?_, fun r inside h is' => ?_,
            fun q inside => ?_, fun q inside h is' there => ?_, fun t => ?_⟩
          · rcases List.mem_append.mp inside with old | last
            · rcases List.mem_append.mp inside' with old' | last'
              · exact sound.pinned c old d old' id version
              · obtain rfl := List.mem_singleton.mp last'
                exact agrees c old id version
            · obtain rfl := List.mem_singleton.mp last
              rcases List.mem_append.mp inside' with old' | last'
              · exact (agrees d old' id.symm version.symm).symm
              · obtain rfl := List.mem_singleton.mp last'
                rfl
          · rcases others r inside with old | rfl
            · exact (sound.records r old h is').imp id (List.mem_append_left _)
            · have same : integrity = h := Option.some.inj (is.symm.trans is')
              subst same
              refine ⟨fun empty => (sound.pending p mem).2 (is.trans (congrArg some empty)), ?_⟩
              exact List.mem_append_right _ (List.mem_singleton_self _)
          · rw [given]
            exact sound.pending q (still q inside)
          · exact List.mem_append_left _ (sound.compared q (still q inside) h is' there)
          · rw [given]
            exact sound.given t

/-- Fewer pending installs. -/
theorem Sound.fewer {g : Watched Data} (sound : Sound g) {pending : List PendingInstall}
    (sub : ∀ p ∈ pending, p ∈ g.state.pending) :
    Sound { g with state := { g.state with pending := pending } } :=
  { sound with
    pending := fun p mem => sound.pending p (sub p mem)
    compared := fun p mem => sound.compared p (sub p mem) }

theorem sound_uninstall {g : Watched Data} (sound : Sound g) (id : String) :
    Sound (next deps g (.uninstall id)) where
  pinned c mem d mem' :=
    sound.pinned c (List.mem_of_mem_filter mem) d (List.mem_of_mem_filter mem')
  records r mem h is := by
    obtain ⟨old, other⟩ := List.mem_filter.mp mem
    obtain ⟨nonempty, there⟩ := sound.records r old h is
    exact ⟨nonempty, List.mem_filter.mpr ⟨there, other⟩⟩
  pending := sound.pending
  compared p mem h is there := by
    obtain ⟨old, other⟩ := List.mem_filter.mp there
    exact List.mem_filter.mpr ⟨sound.compared p mem h is old, other⟩
  given t mem := sound.given t (List.mem_of_mem_filter mem)

theorem sound_next {g : Watched Data} (sound : Sound g) (a : Action Bytes)
    (compared : Compared g a) : Sound (next deps g a) := by
  cases a with
  | preview outside ref => exact sound_preview sound outside ref
  | commit token crossDevice installedAt =>
      exact sound_commit sound token crossDevice installedAt compared
  | discard token => exact sound.fewer fun p mem => List.mem_of_mem_filter mem
  | discardAll => exact sound.fewer nofun
  | uninstall id => exact sound_uninstall sound id

/-! ## Runs -/

theorem trusted_of_sound {g : Watched Data} (sound : Sound g) : Trusted deps g where
  pinned := sound.pinned
  refused outside ref entry s ran r found version h h' is is' := by
    obtain ⟨-, -, -, -, -, passed⟩ := preview_ok deps ran
    rw [is', Option.any_some] at passed
    have there : isInstalled g.state.disk.installed entry.manifest = true := by
      unfold isInstalled
      rw [found]
      simp [version, is]
    unfold differs at passed
    have nonempty := (sound.records r (List.mem_of_find?_eq_some found) h is).1
    simpa [found, is, version, nonempty] using passed
  untouched outside ref := by
    unfold next
    dsimp only
    cases ran : preview deps outside ref g.state with
    | error e => rfl
    | ok pair =>
        obtain ⟨entry, s⟩ := pair
        exact (preview_ok deps ran).2.1

variable (deps) in
/-- **Trust on first install**: where every version that is committed again was compared at
its preview, the pins hold in every state. -/
theorem trusted_run (as : List (Action Bytes))
    (compared : Along (fun g a => some (next deps g a)) Compared (start : Watched Data) as) :
    Trusted deps (as.foldl (next deps) (start : Watched Data)) :=
  trusted_of_sound (fold_keeps (I := Sound) (fun _ a sound met => sound_next sound a met)
    sound_start compared)

end Runs

/-! ## Two versions -/

/-- A package is a number: its version is the last digit, its hash the whole. -/
def numbered : Deps Nat where
  sha512 bytes := toString bytes
  unpack bytes := .ok ⟨.ok ⟨"kia.demo", toString (bytes % 10), []⟩, false, bytes⟩

def seen (bytes : Nat) : Action Nat :=
  .preview ⟨some (.ok (bytes, "github:kia/demo@v")), "", .missing, fun _ => none⟩ "github:kia/demo"

/-- The same package again, compared with what is installed. -/
theorem reinstall_trusted :
    Trusted numbered ([seen 11, .commit 0 false "", seen 11, .commit 1 false ""].foldl
      (next numbered) (start : Watched Unit)) :=
  trusted_run numbered _ (by decide +kernel)

/-- An upgrade, and back to other bytes of the first version. -/
theorem downgrade_unpinned :
    ¬ Trusted numbered ([seen 11, .commit 0 false "", seen 12, .commit 1 false "", seen 21,
      .commit 2 false ""].foldl (next numbered) (start : Watched Unit)) := by
  intro trusted
  have unpinned : ¬ Pinned ([seen 11, .commit 0 false "", seen 12, .commit 1 false "", seen 21,
      .commit 2 false ""].foldl (next numbered) (start : Watched Unit)).log := by
    decide +kernel
  exact unpinned trusted.pinned

end Kiagent.Marketplace.Installer
