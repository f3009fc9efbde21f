/-
# Marketplace.DataMove -- an extension's private data, across commits that are cut

A commit moves `data` aside, replaces the directory and moves `data` back.  Each operation may
fail, and leave part of its work, or be the last before a crash.

A commit that ends in between leaves the data in the backup.  No later commit looks for it
there: it finds no `data`, and moves none back (`Away.attempt`).  A commit that ends before
or after leaves the data at home (`Home.attempt`).  So the data is never lost, and is at home
after a commit exactly where none was cut in between (`data_kept`).
-/
import Kiagent.Marketplace.Installer

namespace Kiagent.Marketplace.Installer

set_option autoImplicit false

variable {Data : Type}

/-! ## Commits that end early -/

/-- How a commit ends: it returns, or the process is gone after so many operations, or the
operation after so many fails. -/
inductive Ending where
  | done
  | crash (n : Nat)
  | fails (n : Nat)
  deriving DecidableEq

structure Attempt where
  install : PendingInstall
  crossDevice : Bool
  installedAt : String
  ending : Ending

def Attempt.ops (a : Attempt) (d : Disk Data) : List FileOp :=
  commitOps (d.dirs a.install.manifest.id) a.install a.crossDevice a.installedAt

/-- There is a directory, without `data`. -/
def Bare (dir : Option (Dir Data)) : Prop := ∀ x, dir = some x → x.data = none

/-- What an operation that fails may leave: a removal or a copy, any part of its work. -/
def Leaves (id : String) (d d' : Disk Data) : FileOp → Prop
  | .rmBackup => ∃ data, d' = setBackup id data d
  | .rmDir => ∃ dir, d' = setDir id dir d ∧ (Bare (d.dirs id) → Bare dir)
  | .copyIn _ => ∃ dir, d' = setDir id dir d ∧ Bare dir
  | .writeInstalled _ => ∃ installed, d' = { d with installed := installed }
  | _ => d' = d

/-- A commit of the extension `id` on `d` may end with `d'`. -/
def Attempt.Ends (id : String) (d : Disk Data) (a : Attempt) (d' : Disk Data) : Prop :=
  a.install.manifest.id = id ∧
  match a.ending with
  | .done => d' = performAll id d (a.ops d)
  | .crash n => d' = performAll id d ((a.ops d).take n)
  | .fails n => ∃ op, (a.ops d)[n]? = some op ∧ Leaves id (performAll id d ((a.ops d).take n)) d' op

/-- Commits in a row, each with the disk it began on. -/
inductive Run (id : String) : Disk Data → List (Disk Data × Attempt) → Disk Data → Prop where
  | nil (d : Disk Data) : Run id d [] d
  | snoc {d d' d'' : Disk Data} {as : List (Disk Data × Attempt)} {a : Attempt}
      (run : Run id d as d') (ends : a.Ends id d' d'') : Run id d (as ++ [(d', a)]) d''

def FileOp.isAside : FileOp → Bool
  | .dataAside => true
  | _ => false

def FileOp.isBack : FileOp → Bool
  | .dataBack => true
  | _ => false

/-- The operations that were done. -/
def Attempt.performed (a : Attempt) (d : Disk Data) : List FileOp :=
  match a.ending with
  | .done => a.ops d
  | .crash n => (a.ops d).take n
  | .fails n => (a.ops d).take n

/-- The commit ended with the data moved aside, and not back. -/
def Stranded (x : Disk Data × Attempt) : Bool :=
  (x.2.performed x.1).any FileOp.isAside && !(x.2.performed x.1).any FileOp.isBack

/-! ## Where the data is -/

def Home (id : String) (data : Data) (d : Disk Data) : Prop :=
  ∃ files, d.dirs id = some ⟨files, some data⟩

def Away (id : String) (data : Data) (d : Disk Data) : Prop :=
  d.backups id = some data ∧ Bare (d.dirs id)

/-- The data is on the disk. -/
def Kept (id : String) (data : Data) (d : Disk Data) : Prop :=
  Home id data d ∨ d.backups id = some data

section Steps

variable {id : String} {data : Data} {d d' : Disk Data}

@[simp] theorem setDir_dirs (dir : Option (Dir Data)) : (setDir id dir d).dirs id = dir :=
  Function.update_self ..

@[simp] theorem setDir_backups (dir : Option (Dir Data)) :
    (setDir id dir d).backups = d.backups := rfl

@[simp] theorem setBackup_backups (data : Option Data) :
    (setBackup id data d).backups id = data := Function.update_self ..

@[simp] theorem setBackup_dirs (data : Option Data) : (setBackup id data d).dirs = d.dirs := rfl

theorem bare_none : Bare (none : Option (Dir Data)) := nofun

theorem bare_some (files : Package) : Bare (some (⟨files, none⟩ : Dir Data)) :=
  fun _ same => Option.some.inj same ▸ rfl

theorem not_away (home : Home id data d) (away : Away id data d) : False := by
  obtain ⟨files, is⟩ := home
  cases away.2 _ is

/-- An operation of a commit that finds no data. -/
theorem Away.perform (away : Away id data d) (op : FileOp) (backup : op ≠ .rmBackup)
    (back : op ≠ .dataBack) : Away id data (perform id d op) := by
  cases op with
  | rmBackup => exact absurd rfl backup
  | dataBack => exact absurd rfl back
  | mkdir => exact away
  | rmStaging => exact away
  | writeInstalled record => exact away
  | rmDir => exact ⟨away.1, by simp [Installer.perform, bare_none]⟩
  | renameIn package => exact ⟨away.1, by simp [Installer.perform, bare_some]⟩
  | copyIn package => exact ⟨away.1, by simp [Installer.perform, bare_some]⟩
  | dataAside =>
      show Away id data (dataAside id d)
      unfold dataAside
      split
      · rename_i is
        cases away.2 _ is
      · exact away

theorem Away.leaves (away : Away id data d) {op : FileOp} (backup : op ≠ .rmBackup)
    (leaves : Leaves id d d' op) : Away id data d' := by
  cases op with
  | rmBackup => exact absurd rfl backup
  | rmDir =>
      obtain ⟨dir, rfl, bare⟩ := leaves
      exact ⟨away.1, by simpa using bare away.2⟩
  | copyIn package =>
      obtain ⟨dir, rfl, bare⟩ := leaves
      exact ⟨away.1, by simpa using bare⟩
  | writeInstalled record =>
      obtain ⟨installed, rfl⟩ := leaves
      exact away
  | _ =>
      obtain rfl := leaves
      exact away

theorem Away.performAll (away : Away id data d) {ops : List FileOp}
    (calm : ∀ op ∈ ops, op ≠ .rmBackup ∧ op ≠ .dataBack) : Away id data (performAll id d ops) := by
  induction ops generalizing d with
  | nil => exact away
  | cons op ops ih =>
      obtain ⟨backup, back⟩ := calm op List.mem_cons_self
      exact ih (away.perform op backup back) fun o mem => calm o (List.mem_cons_of_mem _ mem)

/-- An operation on neither the data nor its backup. -/
def FileOp.plain : FileOp → Bool
  | .rmBackup | .dataAside | .dataBack => false
  | _ => true

theorem plain_iff {op : FileOp} : op.plain = true →
    (op ≠ .rmBackup ∧ op ≠ .dataBack) ∧ op.isAside = false := by
  cases op <;> simp [FileOp.plain, FileOp.isAside]

/-- A commit that finds no data has no operation on it. -/
theorem ops_bare {a : Attempt} (bare : Bare (d.dirs a.install.manifest.id)) :
    ∀ op ∈ a.ops d, (op ≠ .rmBackup ∧ op ≠ .dataBack) ∧ op.isAside = false := by
  have plain : (a.ops d).all FileOp.plain = true := by
    unfold Attempt.ops commitOps moveOps moveDir
    split
    · cases a.crossDevice <;> rfl
    · cases a.crossDevice <;> rfl
    · rename_i is
      cases bare _ is
  exact fun op mem => plain_iff (List.all_eq_true.mp plain op mem)

theorem Away.attempt (away : Away id data d) {a : Attempt} (ends : a.Ends id d d') :
    Away id data d' ∧ Stranded (d, a) = false := by
  obtain ⟨rfl, ended⟩ := ends
  have calm := ops_bare away.2
  have taken : ∀ n, ∀ op ∈ (a.ops d).take n, op ≠ .rmBackup ∧ op ≠ .dataBack :=
    fun n op mem => (calm op (List.mem_of_mem_take mem)).1
  refine ⟨?_, ?_⟩
  · cases ending : a.ending with
    | done =>
        rw [ending] at ended
        rw [ended]
        exact away.performAll fun op mem => (calm op mem).1
    | crash n =>
        rw [ending] at ended
        rw [ended]
        exact away.performAll (taken n)
    | fails n =>
        rw [ending] at ended
        obtain ⟨op, found, leaves⟩ := ended
        exact (away.performAll (taken n)).leaves
          (calm op (List.mem_of_getElem? found)).1.1 leaves
  · have none_ : (a.performed d).any FileOp.isAside = false := by
      rw [List.any_eq_false]
      intro op mem
      have inside : op ∈ a.ops d := by
        unfold Attempt.performed at mem
        split at mem
        · exact mem
        · exact List.mem_of_mem_take mem
        · exact List.mem_of_mem_take mem
      rw [(calm op inside).2]
      exact nofun
    unfold Stranded
    rw [none_]
    rfl

/-- An operation that leaves the data at home. -/
def FileOp.Homely : FileOp → Prop
  | .mkdir | .rmBackup | .writeInstalled _ => True
  | _ => False

theorem Home.perform (home : Home id data d) (op : FileOp) (homely : op.Homely) :
    Home id data (perform id d op) := by
  cases op with
  | mkdir => exact home
  | rmBackup => exact home
  | writeInstalled record => exact home
  | _ => exact homely.elim

theorem Home.aside (home : Home id data d) : Away id data (Installer.perform id d .dataAside) := by
  obtain ⟨files, is⟩ := home
  show Away id data (dataAside id d)
  unfold dataAside
  rw [is]
  exact ⟨by simp, by simp [bare_some]⟩

theorem Away.back (away : Away id data d) (files : Package) (is : d.dirs id = some ⟨files, none⟩) :
    Home id data (Installer.perform id d .dataBack) := by
  show Home id data (dataBack id d)
  unfold dataBack
  rw [is, away.1]
  exact ⟨files, by simp⟩

theorem Home.leaves (home : Home id data d) {op : FileOp} (homely : op.Homely ∨ op = .dataAside)
    (leaves : Leaves id d d' op) : Home id data d' := by
  cases op with
  | rmBackup =>
      obtain ⟨other, rfl⟩ := leaves
      exact home
  | writeInstalled record =>
      obtain ⟨installed, rfl⟩ := leaves
      exact home
  | mkdir =>
      obtain rfl := leaves
      exact home
  | dataAside =>
      obtain rfl := leaves
      exact home
  | _ => exact (homely.resolve_right nofun).elim

/-- Where the data is after some operations of a commit, and what comes next. -/
def Placed (id : String) (data : Data) (d : Disk Data) (ops : List FileOp) (n : Nat) : Prop :=
  let done := ops.take n
  let stranded := done.any FileOp.isAside && !done.any FileOp.isBack
  (Home id data (performAll id d done) ∧ stranded = false ∧
    ∀ op, ops[n]? = some op → op.Homely ∨ op = .dataAside) ∨
  (Away id data (performAll id d done) ∧ stranded = true ∧ ∀ op, ops[n]? = some op → op ≠ .rmBackup)

/-- **Each step of a commit that finds the data**: at home before it is moved aside and after
it is moved back, in the backup in between. -/
theorem placed_all {a : Attempt} (home : Home a.install.manifest.id data d) (n : Nat) :
    Placed a.install.manifest.id data d (a.ops d) n := by
  obtain ⟨files, is⟩ := home
  have home : Home a.install.manifest.id data d := ⟨files, is⟩
  have aside := (home.perform .rmBackup trivial).aside
  have bare := aside.perform .rmDir nofun nofun
  cases cross : a.crossDevice with
  | false =>
      have moved := bare.perform (.renameIn a.install.package) nofun nofun
      have back := moved.back a.install.package (by simp [Installer.perform])
      have last := back.perform (.writeInstalled (a.install.record a.installedAt)) trivial
      have ops : a.ops d = [.mkdir, .rmBackup, .dataAside, .rmDir, .renameIn a.install.package,
          .dataBack, .writeInstalled (a.install.record a.installedAt)] := by
        unfold Attempt.ops commitOps moveOps moveDir
        rw [is, cross]
        rfl
      rw [ops]
      match n with
      | 0 => exact Or.inl ⟨home, rfl, fun op found => by cases found; exact Or.inl trivial⟩
      | 1 => exact Or.inl ⟨home, rfl, fun op found => by cases found; exact Or.inl trivial⟩
      | 2 => exact Or.inl ⟨home, rfl, fun op found => by cases found; exact Or.inr rfl⟩
      | 3 => exact Or.inr ⟨aside, rfl, fun op found => by cases found; exact nofun⟩
      | 4 => exact Or.inr ⟨bare, rfl, fun op found => by cases found; exact nofun⟩
      | 5 => exact Or.inr ⟨moved, rfl, fun op found => by cases found; exact nofun⟩
      | 6 => exact Or.inl ⟨back, rfl, fun op found => by cases found; exact Or.inl trivial⟩
      | n + 7 =>
          unfold Placed
          rw [List.take_of_length_le (by simp)]
          exact Or.inl ⟨last, rfl, fun op found => by cases found⟩
  | true =>
      have moved := bare.perform (.copyIn a.install.package) nofun nofun
      have cleared := moved.perform .rmStaging nofun nofun
      have back := cleared.back a.install.package (by simp [Installer.perform])
      have last := back.perform (.writeInstalled (a.install.record a.installedAt)) trivial
      have ops : a.ops d = [.mkdir, .rmBackup, .dataAside, .rmDir, .copyIn a.install.package,
          .rmStaging, .dataBack, .writeInstalled (a.install.record a.installedAt)] := by
        unfold Attempt.ops commitOps moveOps moveDir
        rw [is, cross]
        rfl
      rw [ops]
      match n with
      | 0 => exact Or.inl ⟨home, rfl, fun op found => by cases found; exact Or.inl trivial⟩
      | 1 => exact Or.inl ⟨home, rfl, fun op found => by cases found; exact Or.inl trivial⟩
      | 2 => exact Or.inl ⟨home, rfl, fun op found => by cases found; exact Or.inr rfl⟩
      | 3 => exact Or.inr ⟨aside, rfl, fun op found => by cases found; exact nofun⟩
      | 4 => exact Or.inr ⟨bare, rfl, fun op found => by cases found; exact nofun⟩
      | 5 => exact Or.inr ⟨moved, rfl, fun op found => by cases found; exact nofun⟩
      | 6 => exact Or.inr ⟨cleared, rfl, fun op found => by cases found; exact nofun⟩
      | 7 => exact Or.inl ⟨back, rfl, fun op found => by cases found; exact Or.inl trivial⟩
      | n + 8 =>
          unfold Placed
          rw [List.take_of_length_le (by simp)]
          exact Or.inl ⟨last, rfl, fun op found => by cases found⟩

theorem Home.attempt (home : Home id data d) {a : Attempt} (ends : a.Ends id d d') :
    (Stranded (d, a) = true → Away id data d') ∧ (Stranded (d, a) = false → Home id data d') := by
  obtain ⟨rfl, ended⟩ := ends
  have placed := placed_all home
  have whole : (a.ops d).take (a.ops d).length = a.ops d := List.take_length
  cases ending : a.ending with
  | done =>
      have all := placed (a.ops d).length
      unfold Placed at all
      rw [ending] at ended
      rw [whole] at all
      simp only [Stranded, Attempt.performed, ending, ended]
      rcases all with ⟨home', no, -⟩ | ⟨away, yes, -⟩
      · exact ⟨fun is => absurd (is.symm.trans no) (by decide), fun _ => home'⟩
      · exact ⟨fun _ => away, fun is => absurd (is.symm.trans yes) (by decide)⟩
  | crash n =>
      have some_ := placed n
      unfold Placed at some_
      rw [ending] at ended
      simp only [Stranded, Attempt.performed, ending, ended]
      rcases some_ with ⟨home', no, -⟩ | ⟨away, yes, -⟩
      · exact ⟨fun is => absurd (is.symm.trans no) (by decide), fun _ => home'⟩
      · exact ⟨fun _ => away, fun is => absurd (is.symm.trans yes) (by decide)⟩
  | fails n =>
      have some_ := placed n
      unfold Placed at some_
      rw [ending] at ended
      obtain ⟨op, found, leaves⟩ := ended
      simp only [Stranded, Attempt.performed, ending]
      rcases some_ with ⟨home', no, next⟩ | ⟨away, yes, next⟩
      · exact ⟨fun is => absurd (is.symm.trans no) (by decide),
          fun _ => home'.leaves (next op found) leaves⟩
      · exact ⟨fun _ => away.leaves (next op found) leaves,
          fun is => absurd (is.symm.trans yes) (by decide)⟩

/-- A commit that returns is not cut in between. -/
theorem done_whole {a : Attempt} (done : a.ending = .done) : Stranded (d, a) = false := by
  have whole : (a.ops d).any FileOp.isAside = true → (a.ops d).any FileOp.isBack = true := by
    unfold Attempt.ops commitOps moveOps moveDir
    split <;> cases a.crossDevice <;> simp [FileOp.isAside, FileOp.isBack]
  unfold Stranded
  simp only [Attempt.performed, done]
  cases aside : (a.ops d).any FileOp.isAside with
  | false => rfl
  | true =>
      rw [whole aside]
      rfl

/-! ## Runs -/

theorem run_places {as : List (Disk Data × Attempt)} (home : Home id data d)
    (run : Run id d as d') :
    (Home id data d' ∧ ∀ x ∈ as, Stranded x = false) ∨
      (Away id data d' ∧ ∃ x ∈ as, Stranded x = true) := by
  induction run with
  | nil => exact Or.inl ⟨home, nofun⟩
  | @snoc d' d'' as a run ends ih =>
      rcases ih with ⟨home', none_⟩ | ⟨away, x, mem, stranded⟩
      · cases is : Stranded (d', a) with
        | false =>
            refine Or.inl ⟨(home'.attempt ends).2 is, fun x mem => ?_⟩
            rcases List.mem_append.mp mem with old | last
            · exact none_ x old
            · rwa [List.mem_singleton.mp last]
        | true =>
            exact Or.inr ⟨(home'.attempt ends).1 is, _,
              List.mem_append_right _ (List.mem_singleton_self _), is⟩
      · exact Or.inr ⟨(away.attempt ends).1, x, List.mem_append_left _ mem, stranded⟩

/-- **Private data across commits**: it is on the disk throughout, and after a commit that
returns it is at home exactly where no commit before was cut between its two moves. -/
theorem data_kept (home : Home id data d) :
    (∀ as d', Run id d as d' → Kept id data d') ∧
      ∀ as x d', Run id d (as ++ [x]) d' → x.2.ending = .done →
        (Home id data d' ↔ ∀ y ∈ as, Stranded y = false) := by
  refine ⟨fun as d' run => (run_places home run).imp And.left fun away => away.1.1,
    fun as x d' run done => ?_⟩
  rcases run_places home run with ⟨home', none_⟩ | ⟨away, y, mem, stranded⟩
  · exact ⟨fun _ y mem => none_ y (List.mem_append_left _ mem), fun _ => home'⟩
  · refine ⟨fun home' => (not_away home' away).elim, fun none_ => ?_⟩
    rcases List.mem_append.mp mem with old | last
    · exact absurd (stranded.symm.trans (none_ y old)) (by decide)
    · rw [List.mem_singleton.mp last] at stranded
      exact absurd (stranded.symm.trans (done_whole done)) (by decide)

end Steps

/-! ## Two commits -/

def demo : PendingInstall where
  token := 0
  package := ⟨.ok ⟨"kia.demo", "2", []⟩, false, 1⟩
  manifest := ⟨"kia.demo", "2", []⟩
  sizeBytes := 1
  integrity := none
  ref := ""
  origin := .marketplace

/-- The extension, with its data. -/
def demoDisk : Disk Nat where
  dirs id := if id = "kia.demo" then
    some ⟨⟨.ok ⟨"kia.demo", "1", []⟩, false, 1⟩, some 7⟩ else none
  backups _ := none
  installed := []

def demoCommit (ending : Ending) : Attempt := ⟨demo, false, "", ending⟩

/-- What a commit leaves that is cut after some operations, and the next. -/
def demoCut (n : Nat) : Disk Nat :=
  performAll "kia.demo" demoDisk (((demoCommit (.crash n)).ops demoDisk).take n)

def demoNext (n : Nat) : Disk Nat :=
  performAll "kia.demo" (demoCut n) ((demoCommit .done).ops (demoCut n))

theorem demo_run (n : Nat) : Run "kia.demo" demoDisk
    ([(demoDisk, demoCommit (.crash n))] ++ [(demoCut n, demoCommit .done)]) (demoNext n) :=
  .snoc (.snoc (.nil _) ⟨rfl, rfl⟩) ⟨rfl, rfl⟩

/-- A commit cut before it moves the data aside. -/
theorem early_kept : Home "kia.demo" 7 (demoNext 2) :=
  ((data_kept ⟨_, rfl⟩).2 _ _ _ (demo_run 2) rfl).mpr fun y mem => by
    rw [List.mem_singleton.mp mem]
    rfl

/-- A commit cut with the data aside: the next returns, and the extension has no data. -/
theorem cut_strands : Run "kia.demo" demoDisk
    ([(demoDisk, demoCommit (.crash 4))] ++ [(demoCut 4, demoCommit .done)]) (demoNext 4) ∧
      Home "kia.demo" 7 demoDisk ∧ ¬ Home "kia.demo" 7 (demoNext 4) := by
  refine ⟨demo_run 4, ⟨_, rfl⟩, fun ⟨files, is⟩ => ?_⟩
  have none_ : ((demoNext 4).dirs "kia.demo").any (fun dir => dir.data.isSome) = false := by
    decide
  rw [is] at none_
  cases none_

end Kiagent.Marketplace.Installer
