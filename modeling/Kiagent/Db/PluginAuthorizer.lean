/-
# Db.PluginAuthorizer -- what a plugin's SQL may touch

SQLite asks the authorizer once for each thing a statement does: an action code, the
names it is about, the database, and the name of the innermost trigger, view, common
table expression or subquery the access comes from.  That name is all the authorizer is
told.  `Accessor` says where it comes from: a trigger the host installed, or something
the plugin named.

The change tracker's triggers are let through by the start of that name, `sync_`.  A
plugin may start the name of an expression of its own with it, and then it reads and
writes the tracker's tables itself (`expression_reads_state`).  `confinement_iff`:
without such a name it touches only what it owns.  The role check holds always.
-/
import Mathlib

namespace Kiagent.Db.PluginAuthorizer

set_option autoImplicit false

/-! ## Names -/

def startsWith (s start : String) : Bool := start.toList.isPrefixOf s.toList

/-- `/^sqlite_/i` and its like: letters are compared without case. -/
def startsWithFold (s start : String) : Bool :=
  start.toList.isPrefixOf (s.toList.map Char.toLower)

def isLower (c : Char) : Bool := 'a' ≤ c && c ≤ 'z'

/-- `LOGICAL_RE`. -/
def isLogical (name : String) : Bool :=
  match name.toList with
  | [] => false
  | c :: cs => isLower c && cs.all fun c => isLower c || c.isDigit || c == '_'

def hexDigit (n : ℕ) : Char := "0123456789abcdef".toList.getD n '0'

/-- `Buffer.from(id, 'utf8').toString('hex')`. -/
def hex (id : String) : String :=
  String.ofList (id.toUTF8.data.toList.flatMap fun b =>
    [hexDigit (b.toNat / 16), hexDigit (b.toNat % 16)])

def ownedNamespace (pluginId : String) : String := "p_" ++ hex pluginId ++ "__"

/-- `pluginIdentifier` without its quotes; an invalid name throws. -/
def pluginIdentifier (pluginId name : String) : Option String :=
  if isLogical name then some (ownedNamespace pluginId ++ name) else none

theorem pluginIdentifier_startsWith {pluginId name table : String}
    (named : pluginIdentifier pluginId name = some table) : startsWith table "p_" = true := by
  unfold pluginIdentifier at named
  split at named
  · obtain rfl := Option.some.inj named
    simp [startsWith, ownedNamespace]
  · cases named

/-- The physical names of a list of logical ones; the first invalid one throws. -/
def identifiers (pluginId : String) : List String → Option (List String)
  | [] => some []
  | name :: names => do
      let table ← pluginIdentifier pluginId name
      let tables ← identifiers pluginId names
      some (table :: tables)

theorem identifiers_physical {pluginId : String} : {names tables : List String} →
    identifiers pluginId names = some tables →
    ∀ table ∈ tables, ∃ name, pluginIdentifier pluginId name = some table
  | [], _, named => by
      obtain rfl := Option.some.inj named
      exact nofun
  | name :: names, tables, named => by
      obtain ⟨table, first, rest⟩ := Option.bind_eq_some_iff.1 named
      obtain ⟨others, later, same⟩ := Option.bind_eq_some_iff.1 rest
      obtain rfl := Option.some.inj same
      intro other mem
      rcases List.mem_cons.1 mem with rfl | mem
      · exact ⟨name, first⟩
      · exact identifiers_physical later other mem

/-! ## The authorizer -/

/-- What an authorizer is made with.  The tables copied between devices are physical names
of the plugin's. -/
structure Options where
  hostMetadata : List String
  syncedTables : List String
  captured : List String
  physical : ∀ table ∈ syncedTables, startsWith table "p_" = true

structure Session where
  owned : List String
  refusedByRole : Option String
  privateTransaction : Bool
  schemaMode : Bool
  explicitSchemaSelect : Bool
  hostMetadataMode : Bool
  deriving DecidableEq, Repr

/-- The logical names a descriptor gives. -/
structure Descriptor where
  pluginId : String
  tables : List String
  indexes : List String
  views : List String
  triggers : List String
  synced : List String
  ownerCapture : List String
  hostMetadataTables : List String
  deriving DecidableEq, Repr

def createPluginAuthorizer (d : Descriptor) : Option (Options × Session) :=
  match identifiers d.pluginId (d.tables ++ d.indexes ++ d.views ++ d.triggers),
      named : identifiers d.pluginId d.synced, identifiers d.pluginId d.ownerCapture with
  | some owned, some syncedTables, some captured =>
      some
        ({ hostMetadata := d.hostMetadataTables
           syncedTables, captured
           physical := fun table mem =>
             have ⟨_, found⟩ := identifiers_physical named table mem
             pluginIdentifier_startsWith found },
         { owned
           refusedByRole := none
           privateTransaction := false
           schemaMode := false
           explicitSchemaSelect := false
           hostMetadataMode := false })
  | _, _, _ => none

def Session.reset (s : Session) : Session :=
  { s with explicitSchemaSelect := false, refusedByRole := none }

def Session.takeRoleRefusal (s : Session) : Option String × Session :=
  (s.refusedByRole, { s with refusedByRole := none })

def Session.setPrivateTransaction (enabled : Bool) (s : Session) : Session :=
  { s with privateTransaction := enabled }

def Session.setSchemaMode (enabled : Bool) (s : Session) : Session :=
  { s with schemaMode := enabled, explicitSchemaSelect := false }

def Session.setHostMetadataMode (enabled : Bool) (s : Session) : Session :=
  { s with hostMetadataMode := enabled }

def Session.setOwnedObjects (names : List String) (s : Session) : Session :=
  { s with owned := names }

/-! ## What SQLite asks -/

inductive TriggerKind where
  | insert
  | update
  | delete
  deriving DecidableEq, Repr

/-- Where an access comes from, when it is not the statement itself. -/
inductive Accessor where
  /-- One of the triggers the tracker installed for a copied table. -/
  | syncTrigger (kind : TriggerKind) (tbl : String)
  /-- A trigger, view, common table expression or subquery the plugin named. -/
  | own (name : String)
  deriving DecidableEq, Repr

/-- The name SQLite passes. -/
def Accessor.name : Accessor → String
  | .syncTrigger .insert tbl => "sync_i_" ++ tbl
  | .syncTrigger .update tbl => "sync_u_" ++ tbl
  | .syncTrigger .delete tbl => "sync_d_" ++ tbl
  | .own name => name

/-- One question.  `readOnly` is what the device's role answers while it is asked. -/
structure Callback where
  action : ℤ
  arg1 : Option String
  arg2 : Option String
  db : Option String
  accessor : Option Accessor
  readOnly : Bool
  deriving DecidableEq, Repr

def Callback.table (c : Callback) : String := c.arg1.getD ""
def Callback.target (c : Callback) : String := c.arg2.getD ""
def Callback.trigger (c : Callback) : String := (c.accessor.map Accessor.name).getD ""

def allowedFunctions : List String :=
  ["abs", "coalesce", "count", "date", "datetime", "glob", "ifnull", "julianday", "json",
    "json_array", "json_extract", "json_object", "length", "like", "lower", "max", "min",
    "nullif", "printf", "row_number", "round", "replace", "rtrim", "strftime", "substr", "sum",
    "total", "trim", "upper"]

def hostPragmas : List String :=
  ["foreign_key_check", "foreign_key_list", "foreign_keys", "table_info", "table_list"]

/-- `toLowerCase`, of which only a Kelvin sign has an ASCII letter besides the letters. -/
def toLowerCase (s : String) : String :=
  String.ofList (s.toList.map fun c => if c = '\u212a' then 'k' else c.toLower)

/-- `sqlite_autoindex_` in front and an underscore with a number behind are taken off. -/
def autoindexBase (table : String) : String :=
  let rest := table.toList.drop "sqlite_autoindex_".length
  let digits := rest.reverse.takeWhile Char.isDigit
  match rest.reverse.dropWhile Char.isDigit with
  | '_' :: front => if digits = [] then String.ofList rest else String.ofList front.reverse
  | _ => String.ofList rest

/-! ## The answers -/

/-- What the tracker's triggers write, and the switch they read. -/
def trackerTable (c : Callback) : Bool :=
  (c.table == "sync_rows" && [18, 9, 23, 20].contains c.action) ||
    (c.table == "sync_state" && c.action == 20) ||
    c.table == "sqlite_sequence"

/-- It is let through, whoever fired them: they are told by the start of the name. -/
def fromTracker (c : Callback) : Bool := startsWith c.trigger "sync_" && trackerTable c

/-- `sqlite_master`: the callbacks of DDL, and no read of the schema. -/
def masterAnswer (s : Session) (c : Callback) : Bool :=
  if c.action = 18 then s.schemaMode
  else if c.action = 20 ∨ c.action = 23 then
    s.hostMetadataMode || (s.schemaMode && !s.explicitSchemaSelect)
  else false

/-- A new index or trigger, `table`, on `target`. -/
def indexAnswer (o : Options) (s : Session) (c : Callback) : Bool :=
  let base := autoindexBase c.table
  (s.schemaMode && startsWithFold c.table "sqlite_autoindex_" &&
      (s.owned.contains base || (s.hostMetadataMode && o.hostMetadata.contains base))) ||
    (s.schemaMode &&
      ((s.owned.contains c.table && s.owned.contains c.target) ||
        (s.hostMetadataMode && o.hostMetadata.contains c.table &&
          o.hostMetadata.contains c.target)))

def createAnswer (o : Options) (s : Session) (c : Callback) : Bool :=
  s.schemaMode &&
    (s.owned.contains c.table ||
      (s.hostMetadataMode &&
        (o.hostMetadata.contains c.table || c.table == "sqlite_sequence")) ||
      (c.table == "sqlite_sequence" && !s.owned.isEmpty))

def schemaAnswer (o : Options) (s : Session) (c : Callback) : Bool :=
  s.schemaMode &&
    (s.owned.contains c.table || (s.hostMetadataMode && o.hostMetadata.contains c.table))

/-- One write authority per copied table: on a read-only device only what the device
captures itself is written. -/
def refusedByRole (o : Options) (c : Callback) : Bool :=
  [9, 18, 23].contains c.action && o.syncedTables.contains c.table && c.readOnly &&
    !o.captured.contains c.table

/-- The end of the chain: the access to a table.  One in the plugin's namespace that is not
owned is refused like any other. -/
def tableAnswer (o : Options) (s : Session) (c : Callback) : Bool :=
  if s.hostMetadataMode && c.table == "sqlite_sequence" then true
  else if startsWithFold c.table "sqlite_" then false
  else (s.hostMetadataMode && o.hostMetadata.contains c.table) || s.owned.contains c.table

/-- The codes of schema changes, of pragmas, attachments and virtual tables; `none` for all
others. -/
def ddlAnswer (o : Options) (s : Session) (c : Callback) : Option Bool :=
  if c.action = 1 ∨ c.action = 7 then some (indexAnswer o s c)
  else if c.action = 2 ∨ c.action = 8 then some (createAnswer o s c)
  else if [3, 4, 5, 6, 10, 11, 12, 13].contains c.action then some (schemaAnswer o s c)
  else if c.action = 27 then some (schemaAnswer o s c)
  else if c.action = 26 then some (s.schemaMode && s.owned.contains c.target)
  else if s.hostMetadataMode ∧ c.action = 19 then
    some (hostPragmas.contains (toLowerCase c.table))
  else if [19, 24, 25, 26, 27, 28, 29, 30, 32].contains c.action then some false
  else none

/-- What names no table: a function, a select. -/
def unnamedAnswer (s : Session) (c : Callback) : Bool × Session :=
  if c.action = 31 then (allowedFunctions.contains c.target, s)
  else if c.action = 21 then
    (true, { s with explicitSchemaSelect := s.schemaMode && !s.hostMetadataMode })
  else (false, s)

def OpenDb (c : Callback) : Prop :=
  c.db.getD "" = "" ∨ c.db.getD "" = "main" ∨ c.db.getD "" = "temp"

instance (c : Callback) : Decidable (OpenDb c) := inferInstanceAs (Decidable (_ ∨ _ ∨ _))

/-- The answer, `true` for 0 and `false` for 1, and the session after it. -/
def authorize (o : Options) (s : Session) (c : Callback) : Bool × Session :=
  if ¬ OpenDb c then (false, s)
  else if fromTracker c then (true, s)
  else if c.action = 22 then (s.privateTransaction, s)
  else if c.action = 33 then (true, s)
  else if c.table = "" then unnamedAnswer s c
  else if c.table = "sqlite_master" ∨ c.table = "sqlite_schema" then (masterAnswer s c, s)
  else
    match ddlAnswer o s c with
    | some allowed => (allowed, s)
    | none =>
        if refusedByRole o c then (false, { s with refusedByRole := some c.table })
        else (tableAnswer o s c, s)

/-- The answers to the questions of one statement, in their order. -/
def answers (o : Options) : Session → List Callback → List (Callback × Bool)
  | _, [] => []
  | s, c :: cs => (c, (authorize o s c).1) :: answers o (authorize o s c).2 cs

/-! ## What an access needs -/

/-- A row is deleted, inserted, read or updated. -/
def Callback.IsAccess (c : Callback) : Prop :=
  c.action = 9 ∨ c.action = 18 ∨ c.action = 20 ∨ c.action = 23

def Callback.IsWrite (c : Callback) : Prop := c.action = 9 ∨ c.action = 18 ∨ c.action = 23

instance (c : Callback) : Decidable c.IsAccess :=
  inferInstanceAs (Decidable (_ ∨ _ ∨ _ ∨ _))

instance (c : Callback) : Decidable c.IsWrite := inferInstanceAs (Decidable (_ ∨ _ ∨ _))

/-- No answer changes what is owned, nor the modes. -/
theorem authorize_modes (o : Options) (s : Session) (c : Callback) :
    (authorize o s c).2.owned = s.owned ∧ (authorize o s c).2.schemaMode = s.schemaMode ∧
      (authorize o s c).2.hostMetadataMode = s.hostMetadataMode := by
  have unnamed : (unnamedAnswer s c).2.owned = s.owned ∧
      (unnamedAnswer s c).2.schemaMode = s.schemaMode ∧
      (unnamedAnswer s c).2.hostMetadataMode = s.hostMetadataMode := by
    unfold unnamedAnswer
    split_ifs <;> exact ⟨rfl, rfl, rfl⟩
  unfold authorize
  split_ifs
  all_goals first
    | exact unnamed
    | exact ⟨rfl, rfl, rfl⟩
    | (split <;> exact ⟨rfl, rfl, rfl⟩)

theorem IsWrite.isAccess {c : Callback} (write : c.IsWrite) : c.IsAccess := by
  rcases write with code | code | code
  · exact .inl code
  · exact .inr (.inl code)
  · exact .inr (.inr (.inr code))

theorem ddlAnswer_access (o : Options) (s : Session) {c : Callback} (access : c.IsAccess) :
    ddlAnswer o s c = none := by
  unfold ddlAnswer
  rcases access with code | code | code | code <;> simp [code]

/-- An access of a named table of an open database goes by the tracker, the schema, the role
and the owner. -/
theorem authorize_access (o : Options) (s : Session) {c : Callback} (access : c.IsAccess) :
    (authorize o s c).1 =
      (decide (OpenDb c) && (fromTracker c ||
        (decide (c.table ≠ "") &&
          if c.table = "sqlite_master" ∨ c.table = "sqlite_schema" then masterAnswer s c
          else !refusedByRole o c && tableAnswer o s c))) := by
  have code : c.action ≠ 22 ∧ c.action ≠ 33 ∧ c.action ≠ 31 ∧ c.action ≠ 21 := by
    rcases access with code | code | code | code <;> rw [code] <;> decide
  unfold authorize
  rw [ddlAnswer_access o s access, if_neg code.1, if_neg code.2.1]
  by_cases opened : OpenDb c
  case neg => rw [if_pos opened, decide_eq_false opened, Bool.false_and]
  case pos =>
    rw [if_neg (not_not.2 opened), decide_eq_true opened, Bool.true_and]
    by_cases tracker : fromTracker c = true
    case pos => rw [if_pos tracker, tracker, Bool.true_or]
    case neg =>
      rw [if_neg tracker, Bool.eq_false_iff.2 tracker, Bool.false_or]
      by_cases unnamed : c.table = ""
      case pos =>
        rw [if_pos unnamed, unnamedAnswer, if_neg code.2.2.1, if_neg code.2.2.2,
          decide_eq_false (not_not.2 unnamed), Bool.false_and]
      case neg =>
        rw [if_neg unnamed, decide_eq_true unnamed, Bool.true_and]
        split_ifs with master role
        · rfl
        · rw [role]
          rfl
        · rw [Bool.eq_false_iff.2 role]
          rfl

/-! ## One statement -/

/-- Two sessions with the same owned objects in the same modes. -/
structure SameModes (s s' : Session) : Prop where
  owned : s'.owned = s.owned
  schemaMode : s'.schemaMode = s.schemaMode
  hostMetadataMode : s'.hostMetadataMode = s.hostMetadataMode

theorem SameModes.step {s s' : Session} (same : SameModes s s') (o : Options) (c : Callback) :
    SameModes s (authorize o s' c).2 := by
  obtain ⟨owned, schema, host⟩ := authorize_modes o s' c
  exact ⟨owned.trans same.owned, schema.trans same.schemaMode, host.trans same.hostMetadataMode⟩

/-- Every answer is given in a session with the modes of the first. -/
theorem answer_given {o : Options} {s₀ : Session} {c : Callback} {allowed : Bool} :
    {calls : List Callback} → {s : Session} → SameModes s₀ s → (c, allowed) ∈ answers o s calls →
    c ∈ calls ∧ ∃ s', SameModes s₀ s' ∧ (authorize o s' c).1 = allowed
  | [], _, _, mem => absurd mem List.not_mem_nil
  | first :: rest, s, same, mem => by
      rcases List.mem_cons.1 mem with here | later
      · obtain ⟨rfl, rfl⟩ := Prod.mk.inj here
        exact ⟨List.mem_cons_self .., s, same, rfl⟩
      · obtain ⟨asked, given⟩ := answer_given (same.step o first) later
        exact ⟨List.mem_cons_of_mem _ asked, given⟩

theorem answered {o : Options} {s₀ : Session} {c : Callback} : {calls : List Callback} →
    {s : Session} → SameModes s₀ s → c ∈ calls →
    ∃ s', SameModes s₀ s' ∧ (c, (authorize o s' c).1) ∈ answers o s calls
  | [], _, _, mem => absurd mem List.not_mem_nil
  | first :: rest, s, same, mem => by
      rcases List.mem_cons.1 mem with rfl | later
      · exact ⟨s, same, List.mem_cons_self ..⟩
      · obtain ⟨s', same', given⟩ := answered (same.step o first) later
        exact ⟨s', same', List.mem_cons_of_mem _ given⟩

/-- The access is made by a trigger the host installed. -/
def Callback.ByHost (c : Callback) : Prop := ∃ kind tbl, c.accessor = some (.syncTrigger kind tbl)

/-- What a plugin's statement may do. -/
structure Confinement (o : Options) (s : Session) (calls : List Callback) : Prop where
  /-- Outside schema mode it reads and writes what it owns, or the host does. -/
  access : s.schemaMode = false → ∀ c, (c, true) ∈ answers o s calls → c.IsAccess →
    c.table ∈ s.owned ∨ c.ByHost
  /-- On a read-only device it writes no copied table but those captured there. -/
  role : ∀ c allowed, (c, allowed) ∈ answers o s calls → c.IsWrite → c.table ∈ o.syncedTables →
    c.table ∉ o.captured → c.readOnly = true → allowed = false

/-- A table of the tracker is reached under a name of the plugin's that starts as the names of
the tracker's triggers do. -/
structure Disguised (s : Session) (c : Callback) : Prop where
  access : c.IsAccess
  opened : OpenDb c
  named : ∃ name, c.accessor = some (.own name) ∧ startsWith name "sync_" = true
  tracker : trackerTable c = true
  foreign : c.table ∉ s.owned

/-- Outside the host's modes nothing but ownership and the tracker's name lets an access
through. -/
theorem access_allowed {o : Options} {s : Session} {c : Callback} (access : c.IsAccess)
    (outside : s.schemaMode = false) (plugin : s.hostMetadataMode = false)
    (allowed : (authorize o s c).1 = true) :
    c.table ∈ s.owned ∨ (OpenDb c ∧ fromTracker c = true) := by
  rw [authorize_access o s access] at allowed
  obtain ⟨opened, allowed⟩ := (Bool.and_eq_true _ _).mp allowed
  rcases (Bool.or_eq_true _ _).mp allowed with tracker | owner
  · exact .inr ⟨of_decide_eq_true opened, tracker⟩
  · left
    obtain ⟨-, owner⟩ := (Bool.and_eq_true _ _).mp owner
    split at owner
    · rw [masterAnswer, outside, plugin] at owner
      split_ifs at owner
      cases owner
    · obtain ⟨-, owner⟩ := (Bool.and_eq_true _ _).mp owner
      rw [tableAnswer, plugin] at owner
      simp only [Bool.false_and, Bool.false_eq_true, if_false, Bool.false_or] at owner
      split at owner
      · cases owner
      · exact List.contains_iff_mem.1 owner

/-- The role refuses what it should, in every mode. -/
theorem role_refuses (o : Options) (s : Session) {c : Callback} (write : c.IsWrite)
    (copied : c.table ∈ o.syncedTables) (other : c.table ∉ o.captured)
    (readOnly : c.readOnly = true) : (authorize o s c).1 = false := by
  have own_name : startsWith c.table "p_" = true := o.physical c.table copied
  have refused : refusedByRole o c = true := by
    have code : [9, 18, 23].contains c.action = true := by
      rcases write with code | code | code <;> rw [code] <;> rfl
    rw [refusedByRole, code, readOnly, List.contains_iff_mem.2 copied,
      Bool.eq_false_iff.2 (mt List.contains_iff_mem.1 other)]
    rfl
  -- a physical name is none of the host's
  have ne : ∀ host : String, startsWith host "p_" = false → c.table ≠ host := by
    intro host foreign same
    rw [same, foreign] at own_name
    cases own_name
  have foreign : trackerTable c = false := by
    simp [trackerTable, ne "sync_rows" (by decide), ne "sync_state" (by decide),
      ne "sqlite_sequence" (by decide)]
  rw [authorize_access o s (IsWrite.isAccess write), fromTracker, foreign, Bool.and_false,
    Bool.false_or, if_neg, refused, Bool.not_true, Bool.false_and, Bool.and_false, Bool.and_false]
  rintro (master | master)
  · exact ne "sqlite_master" (by decide) master
  · exact ne "sqlite_schema" (by decide) master

/-- **The confinement.**  A statement keeps to what the plugin owns if and only if none of its
accesses reaches the tracker's tables under a name that passes for one of its triggers. -/
theorem confinement_iff (o : Options) (s : Session) (plugin : s.hostMetadataMode = false)
    (calls : List Callback) :
    Confinement o s calls ↔ (s.schemaMode = false → ∀ c ∈ calls, ¬ Disguised s c) := by
  constructor
  · intro confined outside c mem disguised
    obtain ⟨name, own, starts⟩ := disguised.named
    obtain ⟨s', same, given⟩ := answered (o := o) ⟨rfl, rfl, rfl⟩ mem
    have allowed : (authorize o s' c).1 = true := by
      unfold authorize
      rw [if_neg (not_not.2 disguised.opened), if_pos]
      rw [fromTracker, Callback.trigger, own, disguised.tracker]
      exact (Bool.and_true _).trans starts
    rw [allowed] at given
    rcases confined.access outside c given disguised.access with owned | ⟨kind, tbl, host⟩
    · exact disguised.foreign owned
    · rw [own] at host
      cases host
  · intro honest
    constructor
    case access =>
      intro outside c given access
      obtain ⟨mem, s', same, allowed⟩ := answer_given ⟨rfl, rfl, rfl⟩ given
      rcases access_allowed access (same.schemaMode.trans outside)
        (same.hostMetadataMode.trans plugin) allowed with owned | ⟨opened, tracker⟩
      · exact .inl (same.owned ▸ owned)
      · by_contra neither
        rw [not_or] at neither
        obtain ⟨starts, tables⟩ := (Bool.and_eq_true _ _).mp tracker
        refine honest outside c mem ⟨access, opened, ?_, tables, neither.1⟩
        cases from_where : c.accessor with
        | none =>
            rw [Callback.trigger, from_where] at starts
            cases starts
        | some accessor =>
            cases accessor with
            | syncTrigger kind tbl => exact absurd ⟨kind, tbl, from_where⟩ neither.2
            | own name =>
                rw [Callback.trigger, from_where] at starts
                exact ⟨name, rfl, starts⟩
    case role =>
      intro c allowed given write copied other readOnly
      obtain ⟨-, s', -, answer⟩ := answer_given ⟨rfl, rfl, rfl⟩ given
      exact answer ▸ role_refuses o s' write copied other readOnly

/-- The plugin `a` with one table, `notes`, that is not copied. -/
def notesOptions : Options := ⟨[], [], [], nofun⟩

def notesSession : Session := ⟨["p_61__notes"], none, false, false, false, false⟩

/-- What SQLite asks of `WITH name AS (SELECT role FROM sync_state) SELECT role FROM name`. -/
def roleThrough (name : String) : List Callback :=
  [⟨21, none, none, none, none, false⟩, ⟨21, none, none, none, some (.own name), false⟩,
    ⟨20, some "sync_state", some "role", some "main", some (.own name), false⟩]

theorem role_hidden : Confinement notesOptions notesSession (roleThrough "role") :=
  (confinement_iff notesOptions notesSession rfl (roleThrough "role")).2 fun _ c mem disguised => by
    obtain ⟨name, own, starts⟩ := disguised.named
    simp only [roleThrough, List.mem_cons, List.not_mem_nil, or_false] at mem
    rcases mem with rfl | rfl | rfl
    · cases own
    all_goals
      obtain rfl := Accessor.own.inj (Option.some.inj own)
      exact absurd starts (by decide)

/-- **A name is not a trigger.**  An expression called `sync_x` reads the host's state. -/
theorem expression_reads_state :
    ¬ Confinement notesOptions notesSession (roleThrough "sync_x") := by
  intro confined
  rcases confined.access rfl _ (by decide : (⟨20, some "sync_state", some "role", some "main",
    some (.own "sync_x"), false⟩, true) ∈ answers notesOptions notesSession (roleThrough "sync_x"))
    (by decide) with owned | ⟨kind, tbl, host⟩
  · exact absurd owned (by decide)
  · cases host

end Kiagent.Db.PluginAuthorizer
