/-
# Sync.VaultStamp -- logins, versioned and pulled

A leader stamps every login it writes with its epoch and one more than the
largest number of that epoch in the table; a follower sends the highest stamp it
holds, and takes what the leader has above it.  A removed login stays as an
empty blob with a new stamp; removing an account deletes its row.

The stamps are read off the table, so a row that is deleted takes its number
along.  `logins_replicate` holds of runs that give a stamp only while the highest
number is still in the table (`HighestKept`): every stamp is above all earlier
ones, and after a pull the follower holds the login of every account but the
device-owned ones, which are never sent, and those the leader cannot read.
-/
import Kiagent.Sync.Owned
import Kiagent.Sync.Promote
import Kiagent.Theory.HighWater
import Kiagent.Theory.Runs
import Mathlib.Data.List.MinMax
import Mathlib.Data.Prod.Lex
import Mathlib.Order.Nat

namespace Kiagent.Sync

open Kiagent.Theory
open Kiagent.Store

set_option autoImplicit false

/-! ## Stamps -/

/-- `(epoch, n)`, in `(epoch, n)` order. -/
abbrev Stamp := Nat ×ₗ Nat

def stampOf (r : VaultRow) : Stamp := toLex (r.epoch, r.n)

def stampEpoch (db : Db) : Nat := if db.state.tracking then db.state.epoch else 0

def stampN (db : Db) : Nat :=
  if db.state.tracking then maxStamp db.vault db.state.epoch + 1 else 0

/-- `NEWER`. -/
def newer (a b : Nat × Nat) : Bool :=
  decide (b.1 < a.1) || (decide (a.1 = b.1) && decide (b.2 < a.2))

theorem newer_iff (a b : Nat × Nat) : newer a b = true ↔ (toLex b : Stamp) < toLex a := by
  rw [newer, Prod.Lex.toLex_lt_toLex, Bool.or_eq_true, Bool.and_eq_true, decide_eq_true_iff,
    decide_eq_true_iff, decide_eq_true_iff]
  exact or_congr Iff.rfl (and_congr eq_comm Iff.rfl)

/-! ## The writes of the vault -/

/-- A device's keystore: what it encrypts it can read, and no ciphertext is empty. -/
structure Keystore where
  encrypt : String → String
  decrypt : String → Option String
  decrypt_encrypt : ∀ v, decrypt (encrypt v) = some v
  encrypt_ne : ∀ v, encrypt v ≠ ""

/-- `vault.save`: a leader stamps, anyone else keeps the stamp. -/
def saveLogin (account : AccountId) (blob : String) (db : Db) : Db :=
  let stamped : VaultRow := ⟨account, blob, stampEpoch db, stampN db⟩
  let row := match db.vault.find account with
    | none => stamped
    | some old => if db.state.tracking then stamped else { old with blob }
  { db with vault := db.vault.put row }

/-- `vault.delete`: a leader keeps the row as an empty blob with a new stamp. -/
def deleteLogin (account : AccountId) (db : Db) : Db :=
  match db.vault.find account with
  | none => db
  | some _ =>
      if db.state.tracking then
        { db with vault := db.vault.put ⟨account, "", stampEpoch db, stampN db⟩ }
      else { db with vault := db.vault.erase account }

/-- One entry of an offer of sources, its login already encrypted here. -/
structure OfferedSource where
  source : String
  identifier : String
  config : String
  cadence : Option String
  ownerDeviceId : Option DeviceId
  stable : Bool
  installed : Bool
  blob : Option String
  deriving DecidableEq, Repr

/-- An unstable name gets the offering device's suffix, so a retry finds it. -/
def offeredIdentifier (deviceId : DeviceId) (e : OfferedSource) : String :=
  if e.ownerDeviceId.isNone ∧ e.stable = false then
    e.identifier ++ "#" ++ String.ofList (deviceId.toList.take 8)
  else e.identifier

def offeredRow (deps : Deps) (now : Time) (deviceId : DeviceId) (e : OfferedSource) :
    AccountRow where
  id := hashedId deps "account" [e.source, offeredIdentifier deviceId e]
  source := e.source
  identifier := offeredIdentifier deviceId e
  config := e.config
  status :=
    if e.ownerDeviceId.isSome then "paused"
    else if e.installed then "connecting" else "needs-connector"
  cursor := none
  progress := none
  lastSyncAt := none
  lastError := e.ownerDeviceId.map fun owner =>
    "Owned by " ++ String.ofList (owner.toList.take 8)
  cadence := e.cadence
  createdAt := now
  ownerDeviceId := e.ownerDeviceId

/-- One entry of `importSources`: an account that is not here is created, with
its login unless the vault has a row for it.  `repeated` is an offer seen before. -/
def importSource (deps : Deps) (now : Time) (deviceId : DeviceId) (repeated : Bool)
    (e : OfferedSource) (db : Db) : Option Db :=
  let row := offeredRow deps now deviceId e
  let here := (db.rows .accounts).any fun (a : AccountRow) =>
    decide (a.source = e.source ∧ a.identifier = row.identifier)
  if here || repeated then some db
  else
    match db.find .accounts [.text row.id] with
    | some _ => none
    | none =>
        let created := (db.insertRow .accounts row).appendChange .account row.id now
        match e.blob, created.vault.find row.id with
        | some blob, none =>
            some { created with
              vault := created.vault.put ⟨row.id, blob, stampEpoch created, stampN created⟩ }
        | _, _ => some created

/-! ## A pull of logins -/

structure Secret where
  accountId : AccountId
  epoch : Nat
  n : Nat
  value : Option String
  deriving DecidableEq, Repr

/-- `account_id IN (SELECT id FROM accounts WHERE source IN ..)`. -/
def deviceOwnedAccount (db : Db) (account : AccountId) : Bool :=
  (db.find .accounts [.text account]).any fun (a : AccountRow) =>
    decide (a.source ∈ deviceOwnedSources)

/-- What a row says: no login, a login, or one this device cannot read. -/
def readSecret (keys : Keystore) (r : VaultRow) : Option Secret :=
  if r.blob = "" then some ⟨r.accountId, r.epoch, r.n, none⟩
  else (keys.decrypt r.blob).map fun v => ⟨r.accountId, r.epoch, r.n, some v⟩

/-- A login that cannot be read here is not sent. -/
def exportSecrets (keys : Keystore) (db : Db) (after : Nat × Nat) : List Secret :=
  let rows := db.vault.rows.filter fun r =>
    newer (r.epoch, r.n) after && !deviceOwnedAccount db r.accountId
  (rows.insertionSort fun a b => stampOf a ≤ stampOf b).filterMap (readSecret keys)

/-- The row an arriving login is stored as. -/
def secretRow (keys : Keystore) (s : Secret) : VaultRow :=
  ⟨s.accountId, (s.value.map keys.encrypt).getD "", s.epoch, s.n⟩

/-- Keep the newer of what is stored and what arrives. -/
def importSecret (keys : Keystore) (db : Db) (s : Secret) : Db :=
  match db.vault.find s.accountId with
  | some old =>
      if newer (s.epoch, s.n) (old.epoch, old.n) then
        { db with vault := db.vault.put (secretRow keys s) }
      else db
  | none => { db with vault := db.vault.put (secretRow keys s) }

def importSecrets (keys : Keystore) (list : List Secret) (db : Db) : Option Db :=
  if db.state.role ≠ .follower then none else some (list.foldl (importSecret keys) db)

/-- The highest stamp a device holds: `ORDER BY epoch DESC, n DESC LIMIT 1`. -/
def topStamp (db : Db) : Stamp := (db.vault.rows.map stampOf).foldr max (toLex (0, 0))

/-- An empty blob is a login that was removed on the leader. -/
def openBlob (keys : Keystore) (blob : String) : Option String :=
  if blob = "" then none else keys.decrypt blob

/-- `vault.load`, before the login is parsed. -/
def loginOf (keys : Keystore) (db : Db) (account : AccountId) : Option String :=
  (db.vault.find account).bind fun r => openBlob keys r.blob

/-! ## A leader's writes and a follower's pulls -/

inductive VaultWrite where
  | save (account : AccountId) (login : String)
  | importSource (deps : Deps) (now : Time) (deviceId : DeviceId) (repeated : Bool)
      (e : OfferedSource)
  | delete (account : AccountId)
  | removeAccount (now : Time) (id : AccountId)

/-- The account a write takes away with its login. -/
def VaultWrite.removes : VaultWrite → Option AccountId
  | .removeAccount _ id => some id
  | _ => none

def runWrite (keys : Keystore) : VaultWrite → Db → Option Db
  | .save account login, db => some (saveLogin account (keys.encrypt login) db)
  | .importSource deps now deviceId repeated e, db => importSource deps now deviceId repeated e db
  | .delete account, db => some (deleteLogin account db)
  | .removeAccount now id, db => some (removeAccount now id db).1

/-- A leader, a follower, and the logins on their way between them.  The last
three fields record the run and steer nothing. -/
structure VaultNet where
  leader : Db
  follower : Db
  mail : Option (List Secret)
  /-- The stamps given, newest first. -/
  given : List Stamp
  /-- The highest number a login of the leader's epoch has carried. -/
  highest : Nat
  /-- The accounts `removeAccount` was run for. -/
  removed : List AccountId

/-- A run starts after these removals. -/
def VaultNet.start (leader follower : Db) (removed : List AccountId) : VaultNet :=
  ⟨leader, follower, none, [], maxStamp leader.vault leader.state.epoch, removed⟩

inductive VaultAct where
  | write (w : VaultWrite)
  /-- The follower asks with its highest stamp, and the leader answers. -/
  | pull
  /-- The answer reaches the follower. -/
  | deliver

/-- The stamps of the rows a write left that were not there. -/
def stampsGiven (before after : Db) : List Stamp :=
  (after.vault.rows.filter fun r => r ∉ before.vault.rows).map stampOf

def vaultStep (leaderKeys followerKeys : Keystore) (net : VaultNet) :
    VaultAct → Option VaultNet
  | .write w => (runWrite leaderKeys w net.leader).map fun leader =>
      { net with
        leader, given := stampsGiven net.leader leader ++ net.given
        highest := max net.highest (maxStamp leader.vault leader.state.epoch)
        removed := w.removes.toList ++ net.removed }
  | .pull =>
      let after := ofLex (topStamp net.follower)
      some { net with mail := some (exportSecrets leaderKeys net.leader after) }
  | .deliver => net.mail.bind fun list =>
      (importSecrets followerKeys list net.follower).map fun follower =>
        { net with follower, mail := none }

/-- A stamp is given while the highest number of the epoch is still in the table. -/
def HighestKept (net : VaultNet) : VaultAct → Prop
  | .write w =>
      w.removes = none → net.highest ≤ maxStamp net.leader.vault net.leader.state.epoch
  | _ => True

instance (net : VaultNet) : (act : VaultAct) → Decidable (HighestKept net act)
  | .write _ => inferInstanceAs (Decidable (_ → _))
  | .pull => .isTrue trivial
  | .deliver => .isTrue trivial

/-! ## What a write does to the logins -/

section Writes

variable {keys : Keystore} {db db' : Db}

theorem le_maxStamp {vault : Table VaultRow VaultRow.accountId} {r : VaultRow}
    (mem : r ∈ vault.rows) : r.n ≤ maxStamp vault r.epoch := by
  have listed : r.n ∈ (vault.rows.filter fun x => x.epoch = r.epoch).map VaultRow.n :=
    List.mem_map_of_mem (List.mem_filter.2 ⟨mem, by simp⟩)
  exact List.le_max_of_le' 0 listed (Nat.le_refl _)

/-- The row a leader's next write of this login leaves. -/
def nextRow (db : Db) (account : AccountId) (blob : String) : VaultRow :=
  ⟨account, blob, db.state.epoch, maxStamp db.vault db.state.epoch + 1⟩

/-- **What a leader's write can do to the logins**: nothing, one row under the next
stamp, or the row of the account it removes goes.  No login it keeps starts to be
sent. -/
structure Wrote (w : VaultWrite) (db db' : Db) : Prop where
  state : db'.state = db.state
  vault : db'.vault = db.vault ∨
    (w.removes = none ∧ ∃ account blob, db'.vault = db.vault.put (nextRow db account blob)) ∨
    ∃ id, w.removes = some id ∧ db'.vault = db.vault.erase id
  unsent : ∀ account, (db'.vault.find account).isSome = true →
    deviceOwnedAccount db account = true → deviceOwnedAccount db' account = true

theorem saveLogin_wrote (tracking : db.state.tracking = true) (account : AccountId)
    (login blob : String) : Wrote (.save account login) db (saveLogin account blob db) := by
  have next : saveLogin account blob db =
      { db with vault := db.vault.put (nextRow db account blob) } := by
    unfold saveLogin nextRow stampEpoch stampN
    cases db.vault.find account <;> simp [tracking]
  rw [next]
  exact ⟨rfl, .inr (.inl ⟨rfl, account, blob, rfl⟩), fun _ _ owned => owned⟩

theorem deleteLogin_wrote (tracking : db.state.tracking = true) (account : AccountId) :
    Wrote (.delete account) db (deleteLogin account db) := by
  unfold deleteLogin
  cases db.vault.find account with
  | none => exact ⟨rfl, .inl rfl, fun _ _ owned => owned⟩
  | some row =>
      simp only [if_pos tracking]
      refine ⟨rfl, .inr (.inl ⟨rfl, account, "", ?_⟩), fun _ _ owned => owned⟩
      simp [nextRow, stampEpoch, stampN, tracking]

theorem insertRow_owned {row : AccountRow} (free : db.find .accounts [.text row.id] = none)
    {account : AccountId} (owned : deviceOwnedAccount db account = true) :
    deviceOwnedAccount (db.insertRow .accounts row) account = true := by
  have ne : account ≠ row.id := by
    rintro rfl
    rw [deviceOwnedAccount, free] at owned
    cases owned
  have kept := @Db.insertRow_find_ne db .accounts row .accounts [.text account]
    (by simpa [keyOf] using ne)
  rw [deviceOwnedAccount, kept]
  exact owned

theorem importSource_wrote (tracking : db.state.tracking = true) {deps : Deps} {now : Time}
    {device : DeviceId} {repeated : Bool} {e : OfferedSource}
    (ran : importSource deps now device repeated e db = some db') :
    Wrote (.importSource deps now device repeated e) db db' := by
  unfold importSource at ran
  dsimp only at ran
  split at ran
  · obtain rfl := Option.some.inj ran
    exact ⟨rfl, .inl rfl, fun _ _ owned => owned⟩
  · split at ran
    · cases ran
    · rename_i free
      have frame := Db.insertRow_frame db .accounts (offeredRow deps now device e)
      have owned : ∀ account, deviceOwnedAccount db account = true → deviceOwnedAccount
          (db.insertRow .accounts (offeredRow deps now device e)) account = true :=
        fun _ owned => insertRow_owned free owned
      split at ran
      · rename_i blob _ _
        obtain rfl := Option.some.inj ran
        refine ⟨frame.state, .inr (.inl ⟨rfl, (offeredRow deps now device e).id, blob, ?_⟩),
          fun account _ => owned account⟩
        simp [nextRow, stampEpoch, stampN, Db.appendChange, frame.state, frame.vault, tracking]
      · obtain rfl := Option.some.inj ran
        exact ⟨frame.state, .inl frame.vault, fun account _ => owned account⟩

/-- An account's rows but its own are gone, and its login. -/
def strippedOf (db : Db) (id : AccountId) : Db :=
  let bare := db.deleteChildren .documents id
  { bare with vault := bare.vault.erase id }

theorem strippedOf_find (id account : AccountId) :
    (strippedOf db id).find .accounts [.text account] = db.find .accounts [.text account] := by
  refine (Db.deleteChildren_find db .documents id .accounts [.text account]).trans ?_
  cases db.find .accounts [.text account] <;> rfl

theorem removeAccount_some (now : Time) {id : AccountId} {acc : AccountRow}
    (found : db.find .accounts [.text id] = some acc) :
    (removeAccount now id db).1 =
      ((strippedOf db id).deleteRow .accounts [.text id]).appendChange .accountRemoved id now := by
  simp only [removeAccount, found]
  rfl

theorem removeAccount_wrote (now : Time) (id : AccountId) :
    Wrote (.removeAccount now id) db (removeAccount now id db).1 := by
  cases found : db.find .accounts [.text id] with
  | none =>
      have same : (removeAccount now id db).1 = db := by simp only [removeAccount, found]
      rw [same]
      exact ⟨rfl, .inl rfl, fun _ _ owned => owned⟩
  | some acc =>
      rw [removeAccount_some now found]
      have children := Db.deleteChildren_frame db .documents id
      have frame := Db.deleteRow_frame (strippedOf db id) .accounts [.text id]
      have account := fun account =>
        Db.deleteAccount_find (strippedOf db id) id .accounts [.text account]
      -- Only the row's own account and login are gone; the deletion itself is opaque from here.
      generalize (strippedOf db id).deleteRow .accounts [.text id] = gone at frame account
      have vault : gone.vault = db.vault.erase id := by
        rw [frame.vault, strippedOf, children.vault]
      refine ⟨frame.state.trans children.state, .inr (.inr ⟨id, rfl, vault⟩), ?_⟩
      intro other kept owned
      have there : (gone.vault.find other).isSome = true := kept
      have ne : other ≠ id := by
        rintro rfl
        rw [vault, Table.find_erase, if_pos rfl] at there
        cases there
      have off : ((Tbl.accounts, [Cell.text other]) : Tbl × Key) ≠ (.accounts, [.text id]) := by
        simpa using ne
      rw [deviceOwnedAccount, Db.appendChange_find, account, if_neg off, strippedOf_find]
      rw [deviceOwnedAccount] at owned
      cases there : db.find .accounts [.text other] with
      | none => rw [there] at owned; cases owned
      | some row => rw [there] at owned; exact owned

/-- **Every write of a leader's run is one of these.** -/
theorem runWrite_wrote (tracking : db.state.tracking = true) {w : VaultWrite}
    (ran : runWrite keys w db = some db') : Wrote w db db' := by
  cases w with
  | save account login =>
      obtain rfl := Option.some.inj ran
      exact saveLogin_wrote tracking account login _
  | importSource deps now device repeated e => exact importSource_wrote tracking ran
  | delete account =>
      obtain rfl := Option.some.inj ran
      exact deleteLogin_wrote tracking account
  | removeAccount now id =>
      obtain rfl := Option.some.inj ran
      exact removeAccount_wrote now id

/-- A row after a write was there, or is the one under the next stamp. -/
theorem Wrote.find {w : VaultWrite} (wrote : Wrote w db db') {account : AccountId} {r : VaultRow}
    (found : db'.vault.find account = some r) :
    db.vault.find account = some r ∨
      (w.removes = none ∧ ∃ blob, r = nextRow db account blob) := by
  rcases wrote.vault with same | ⟨keeps, at_, blob, put⟩ | ⟨id, -, erased⟩
  · rw [same] at found
    exact .inl found
  · rw [put, Table.find_put] at found
    split at found
    · rename_i here
      have account' : at_ = account := here
      subst account'
      exact .inr ⟨keeps, blob, (Option.some.inj found).symm⟩
    · exact .inl found
  · rw [erased, Table.find_erase] at found
    split at found
    · cases found
    · exact .inl found

/-- Only the removed account's row goes. -/
theorem Wrote.kept {w : VaultWrite} (wrote : Wrote w db db') {account : AccountId}
    (there : (db.vault.find account).isSome = true) :
    (db'.vault.find account).isSome = true ∨ account ∈ w.removes := by
  rcases wrote.vault with same | ⟨-, at_, blob, put⟩ | ⟨id, removes, erased⟩
  · rw [same]
    exact .inl there
  · rw [put, Table.find_put]
    split
    · exact .inl rfl
    · exact .inl there
  · rw [erased, Table.find_erase]
    split
    · rename_i here
      exact .inr (here ▸ removes)
    · exact .inl there

/-- A write gives the next stamp, or none. -/
theorem Wrote.given {w : VaultWrite} (wrote : Wrote w db db') :
    stampsGiven db db' = [] ∨
      (w.removes = none ∧ ∃ account blob, nextRow db account blob ∈ db'.vault.rows ∧
        stampsGiven db db' = [stampOf (nextRow db account blob)]) := by
  rcases wrote.vault with same | ⟨keeps, account, blob, put⟩ | ⟨id, -, erased⟩
  · refine .inl ?_
    simp [stampsGiven, same]
  · refine .inr ⟨keeps, account, blob, ?_, ?_⟩
    · rw [put]
      exact Table.find_mem (Table.find_put_self _ _)
    · have fresh : nextRow db account blob ∉ db.vault.rows := fun mem =>
        absurd (le_maxStamp mem) (Nat.not_succ_le_self _)
      have only : ∀ r, r ∈ db'.vault.rows.filter (fun r => r ∉ db.vault.rows) ↔
          r ∈ [nextRow db account blob] := by
        intro r
        rw [List.mem_filter, decide_eq_true_iff, List.mem_singleton, put]
        constructor
        · rintro ⟨mem, new⟩
          exact (Table.mem_put mem).resolve_right new
        · rintro rfl
          exact ⟨Table.find_mem (Table.find_put_self _ _), fresh⟩
      have distinct : (db'.vault.rows.filter fun r => r ∉ db.vault.rows).Nodup :=
        (List.Nodup.of_map _ db'.vault.nodup).filter _
      have same := List.perm_singleton.1
        ((List.perm_ext_iff_of_nodup distinct (List.nodup_singleton _)).2 only)
      rw [stampsGiven, same]
      rfl
  · refine .inl ?_
    rw [stampsGiven, erased, List.map_eq_nil_iff, List.filter_eq_nil_iff]
    intro r mem
    simp [(Table.mem_eraseWhere.1 mem).1]

end Writes

/-! ## Logins as versions -/

section Versions

variable {keys leaderKeys followerKeys : Keystore} {db : Db}

/-- What the leader can send of each login. -/
def leaderVersions (keys : Keystore) (db : Db) : Versions AccountId Stamp (Option String) :=
  fun account => (db.vault.find account).bind fun r =>
    if deviceOwnedAccount db account then none
    else (readSecret keys r).map fun s => (stampOf r, s.value)

def followerVersions (keys : Keystore) (db : Db) : Versions AccountId Stamp (Option String) :=
  fun account => (db.vault.find account).map fun r => (stampOf r, openBlob keys r.blob)

def Secret.stamp (s : Secret) : Stamp := toLex (s.epoch, s.n)

def Secret.mailed (s : Secret) : Mailed AccountId Stamp (Option String) :=
  ⟨s.accountId, s.stamp, s.value⟩

theorem readSecret_some {r : VaultRow} {s : Secret} (read : readSecret keys r = some s) :
    s = ⟨r.accountId, r.epoch, r.n, openBlob keys r.blob⟩ := by
  unfold readSecret at read
  split at read
  · rename_i empty
    obtain rfl := Option.some.inj read
    simp [openBlob, empty]
  · rename_i full
    obtain ⟨v, opened, rfl⟩ := Option.map_eq_some_iff.1 read
    simp [openBlob, full, opened]

theorem leaderVersions_some {account : AccountId} {s : Stamp} {v : Option String} :
    leaderVersions keys db account = some (s, v) ↔
      ∃ r secret, db.vault.find account = some r ∧ deviceOwnedAccount db account = false ∧
        readSecret keys r = some secret ∧ stampOf r = s ∧ secret.value = v := by
  unfold leaderVersions
  cases db.vault.find account with
  | none => simp
  | some r =>
      cases deviceOwnedAccount db account <;> cases readSecret keys r <;> simp

theorem mem_exportSecrets {after : Stamp} {s : Secret} :
    s ∈ exportSecrets keys db (ofLex after) ↔
      after < s.stamp ∧ leaderVersions keys db s.accountId = some (s.stamp, s.value) := by
  have sorted := fun r => List.mem_insertionSort (fun a b : VaultRow => stampOf a ≤ stampOf b)
    (l := db.vault.rows.filter fun r =>
      newer (r.epoch, r.n) (ofLex after) && !deviceOwnedAccount db r.accountId) (x := r)
  simp only [exportSecrets, List.mem_filterMap, sorted, List.mem_filter, Bool.and_eq_true,
    newer_iff, Bool.not_eq_true', leaderVersions_some]
  constructor
  · rintro ⟨r, ⟨mem, above, sent⟩, read⟩
    obtain rfl := readSecret_some read
    exact ⟨above, r, _, Table.find_of_mem mem, sent, read, rfl, rfl⟩
  · rintro ⟨above, r, secret, found, sent, read, stamp, value⟩
    have here := Table.find_key found
    obtain rfl := readSecret_some read
    have same : s = ⟨r.accountId, r.epoch, r.n, openBlob keys r.blob⟩ := by
      obtain ⟨epoch, n⟩ := Prod.mk.inj (toLex_inj.1 stamp)
      obtain ⟨account, epoch', n', value'⟩ := s
      simp_all
    subst same
    exact ⟨r, ⟨Table.find_mem found, above, sent⟩, read⟩

/-- No account is sent twice. -/
theorem exportSecrets_nodup (after : Nat × Nat) :
    ((exportSecrets keys db after).map Secret.accountId).Nodup := by
  unfold exportSecrets
  dsimp only
  generalize hrows : (db.vault.rows.filter fun r =>
    newer (r.epoch, r.n) after && !deviceOwnedAccount db r.accountId) = rows
  have distinct : (rows.map VaultRow.accountId).Nodup := by
    rw [← hrows]
    exact db.vault.nodup.sublist (List.filter_sublist.map _)
  have sorted : ((rows.insertionSort fun a b => stampOf a ≤ stampOf b).map
      VaultRow.accountId).Nodup :=
    ((List.perm_insertionSort _ rows).map _).nodup_iff.2 distinct
  generalize (rows.insertionSort fun a b => stampOf a ≤ stampOf b) = listed at sorted
  have accounts : (listed.filterMap (readSecret keys)).map Secret.accountId =
      (listed.filter fun r => (readSecret keys r).isSome).map VaultRow.accountId := by
    induction listed with
    | nil => rfl
    | cons r listed ih =>
        have rest := ih (List.nodup_cons.1 sorted).2
        cases read : readSecret keys r with
        | none => simp [read, rest]
        | some s => simp [read, rest, readSecret_some read]
  rw [accounts]
  exact sorted.sublist (List.filter_sublist.map _)

/-- What a stored login reads back as. -/
theorem openBlob_secretRow (s : Secret) : openBlob keys (secretRow keys s).blob = s.value := by
  unfold secretRow openBlob
  cases s.value with
  | none => simp
  | some v => simp [keys.encrypt_ne, keys.decrypt_encrypt]

/-- A login no older than what is stored is stored. -/
theorem importSecret_find {s : Secret}
    (above : ∀ old, db.vault.find s.accountId = some old → stampOf old < s.stamp)
    (account : AccountId) :
    (importSecret keys db s).vault.find account =
      if s.accountId = account then some (secretRow keys s) else db.vault.find account := by
  have put : (importSecret keys db s).vault = db.vault.put (secretRow keys s) := by
    unfold importSecret
    cases found : db.vault.find s.accountId with
    | none => rfl
    | some old => simp only [if_pos ((newer_iff _ _).2 (above old found))]
  rw [put, Table.find_put]
  rfl

/-- **A mail of newer logins, one an account, is stored as it is.** -/
theorem importSecrets_find : (list : List Secret) → (db : Db) →
    (list.map Secret.accountId).Nodup →
    (∀ s ∈ list, ∀ old, db.vault.find s.accountId = some old → stampOf old < s.stamp) →
    (∀ s ∈ list, (list.foldl (importSecret keys) db).vault.find s.accountId =
        some (secretRow keys s)) ∧
      ∀ account, (∀ s ∈ list, s.accountId ≠ account) →
        (list.foldl (importSecret keys) db).vault.find account = db.vault.find account
  | [], _, _, _ => ⟨nofun, fun _ _ => rfl⟩
  | s :: list, db, distinct, above => by
      rw [List.map_cons, List.nodup_cons] at distinct
      have first : ∀ account, (importSecret keys db s).vault.find account =
          if s.accountId = account then some (secretRow keys s) else db.vault.find account :=
        importSecret_find (above s (List.mem_cons_self ..))
      have apart : ∀ s' ∈ list, s.accountId ≠ s'.accountId := fun s' mem same =>
        distinct.1 (same ▸ List.mem_map_of_mem mem)
      obtain ⟨stored, kept⟩ := importSecrets_find list (importSecret keys db s) distinct.2
        fun s' mem old found => by
          rw [first, if_neg (apart s' mem)] at found
          exact above s' (List.mem_cons_of_mem _ mem) old found
      constructor
      · intro s' mem
        rcases List.mem_cons.1 mem with rfl | later
        · rw [List.foldl_cons, kept _ fun s'' mem => (apart s'' mem).symm, first, if_pos rfl]
        · exact stored s' later
      · intro account other
        rw [List.foldl_cons, kept account fun s' mem => other s' (List.mem_cons_of_mem _ mem),
          first, if_neg (other s (List.mem_cons_self ..))]

theorem le_topStamp {r : VaultRow} (mem : r ∈ db.vault.rows) : stampOf r ≤ topStamp db :=
  List.le_max_of_le' _ (List.mem_map_of_mem mem) (le_refl _)

theorem topStamp_le {bound : Stamp} (all : ∀ r ∈ db.vault.rows, stampOf r ≤ bound) :
    topStamp db ≤ bound := by
  refine List.max_le_of_forall_le _ _ fun (s : Stamp) mem => ?_
  obtain ⟨r, row, rfl⟩ := List.mem_map.1 mem
  exact all r row

end Versions

/-! ## What a run keeps -/

section Run

variable {leaderKeys followerKeys : Keystore}

/-- The highest stamp of the run. -/
def VaultNet.ceiling (net : VaultNet) : Stamp := toLex (net.leader.state.epoch, net.highest)

/-- An answer on its way: above the follower's mark, and nothing up to `bound` it
was asked for is missing. -/
structure Posted (keys : Keystore) (net : VaultNet) (bound : Stamp) (list : List Secret) :
    Prop where
  low : bound ≤ net.ceiling
  sent : Sent (leaderVersions keys net.leader) (topStamp net.follower) bound
    (list.map Secret.mailed)
  distinct : (list.map Secret.accountId).Nodup
  known : ∀ s ∈ list, (net.leader.vault.find s.accountId).isSome = true ∨ s.accountId ∈ net.removed

structure Replicated (leaderKeys followerKeys : Keystore) (net : VaultNet) : Prop where
  tracking : net.leader.state.tracking = true
  leaderLow : ∀ r ∈ net.leader.vault.rows, stampOf r ≤ net.ceiling
  givenLow : ∀ s ∈ net.given, s ≤ net.ceiling
  rising : net.given.Pairwise fun later earlier => earlier < later
  followerLow : topStamp net.follower ≤ net.ceiling
  held : Held (leaderVersions leaderKeys net.leader) (followerVersions followerKeys net.follower)
    (topStamp net.follower)
  posted : ∀ list, net.mail = some list → ∃ bound, Posted leaderKeys net bound list
  known : ∀ account, (net.follower.vault.find account).isSome = true →
    (net.leader.vault.find account).isSome = true ∨ account ∈ net.removed

/-- The stamp of the next write is above the ceiling. -/
theorem ceiling_lt_nextRow {net : VaultNet}
    (kept : net.highest ≤ maxStamp net.leader.vault net.leader.state.epoch) (account : AccountId)
    (blob : String) : net.ceiling < stampOf (nextRow net.leader account blob) :=
  Prod.Lex.toLex_lt_toLex.2 (.inr ⟨rfl, Nat.lt_succ_of_le kept⟩)

/-- What is sent after a write was sent before, or is above the ceiling. -/
theorem Wrote.versions {w : VaultWrite} {db db' : Db} {ceiling : Stamp} (wrote : Wrote w db db')
    (above : w.removes = none → ∀ account blob, ceiling < stampOf (nextRow db account blob))
    {account : AccountId} {s : Stamp} {v : Option String}
    (version : leaderVersions leaderKeys db' account = some (s, v)) :
    leaderVersions leaderKeys db account = some (s, v) ∨ ceiling < s := by
  obtain ⟨r, secret, found, sent, read, rfl, rfl⟩ := leaderVersions_some.1 version
  rcases wrote.find found with old | ⟨keeps, blob, rfl⟩
  · refine .inl (leaderVersions_some.2 ⟨r, secret, old, ?_, read, rfl, rfl⟩)
    by_contra owned
    have still := wrote.unsent account (Option.isSome_iff_exists.2 ⟨r, found⟩) (by simpa using owned)
    rw [still] at sent
    cases sent
  · exact .inr (above keeps account blob)

/-- A write raises the ceiling over the rows it leaves. -/
theorem Replicated.write {net net' : VaultNet} {w : VaultWrite}
    (inv : Replicated leaderKeys followerKeys net) (kept : HighestKept net (.write w))
    (ran : vaultStep leaderKeys followerKeys net (.write w) = some net') :
    Replicated leaderKeys followerKeys net' := by
  obtain ⟨leader, wrote', rfl⟩ := Option.map_eq_some_iff.1 ran
  have wrote := runWrite_wrote inv.tracking wrote'
  have above : w.removes = none → ∀ account blob,
      net.ceiling < stampOf (nextRow net.leader account blob) := fun keeps =>
    ceiling_lt_nextRow (kept keeps)
  have versions : ∀ account s v, leaderVersions leaderKeys leader account = some (s, v) →
      leaderVersions leaderKeys net.leader account = some (s, v) ∨ net.ceiling < s :=
    fun _ _ _ version => wrote.versions above version
  have raised : net.ceiling ≤ toLex (leader.state.epoch,
      max net.highest (maxStamp leader.vault leader.state.epoch)) := by
    rw [wrote.state]
    exact Prod.Lex.toLex_le_toLex.2 (.inr ⟨rfl, Nat.le_max_left _ _⟩)
  have nextLow : ∀ account blob, nextRow net.leader account blob ∈ leader.vault.rows →
      stampOf (nextRow net.leader account blob) ≤ toLex (leader.state.epoch,
        max net.highest (maxStamp leader.vault leader.state.epoch)) := by
    intro account blob mem
    have low := le_maxStamp mem
    rw [wrote.state]
    exact Prod.Lex.toLex_le_toLex.2 (.inr ⟨rfl, Nat.le_trans low (Nat.le_max_right _ _)⟩)
  have known : ∀ account, (net.leader.vault.find account).isSome = true ∨ account ∈ net.removed →
      (leader.vault.find account).isSome = true ∨ account ∈ w.removes.toList ++ net.removed := by
    rintro account (there | removed)
    · exact (wrote.kept there).imp_right fun mem => List.mem_append_left _ (Option.mem_toList.2 mem)
    · exact .inr (List.mem_append_right _ removed)
  constructor
  · exact (congrArg SyncState.tracking wrote.state).trans inv.tracking
  · intro r mem
    rcases wrote.find (Table.find_of_mem mem) with old | ⟨-, blob, here⟩
    · exact le_trans (inv.leaderLow r (Table.find_mem old)) raised
    · rw [here] at mem ⊢
      exact nextLow _ _ mem
  · intro s mem
    rcases List.mem_append.1 mem with new | old
    · rcases wrote.given with none' | ⟨-, account, blob, there, only⟩
      · rw [none'] at new
        cases new
      · rw [only, List.mem_singleton] at new
        rw [new]
        exact nextLow account blob there
    · exact le_trans (inv.givenLow s old) raised
  · rcases wrote.given with none' | ⟨keeps, account, blob, -, only⟩
    · rw [none', List.nil_append]
      exact inv.rising
    · rw [only, List.singleton_append, List.pairwise_cons]
      exact ⟨fun s mem => lt_of_le_of_lt (inv.givenLow s mem) (above keeps account blob), inv.rising⟩
  · exact le_trans inv.followerLow raised
  · refine inv.held.mono fun account s v version => ?_
    exact (versions account s v version).imp_right (lt_of_le_of_lt inv.followerLow)
  · intro list mail
    obtain ⟨bound, posted⟩ := inv.posted list mail
    refine ⟨bound, le_trans posted.low raised, posted.sent.mono fun account s v version => ?_,
      posted.distinct, fun s mem => known s.accountId (posted.known s mem)⟩
    exact (versions account s v version).imp_right (lt_of_le_of_lt posted.low)
  · exact fun account there => known account (inv.known account there)

/-- An answer has every login above the follower's mark. -/
theorem Replicated.answer {net : VaultNet} (inv : Replicated leaderKeys followerKeys net) :
    Posted leaderKeys net net.ceiling
      (exportSecrets leaderKeys net.leader (ofLex (topStamp net.follower))) := by
  refine ⟨le_refl _, Sent.of_all ?_ ?_ ?_, exportSecrets_nodup _, ?_⟩
  · rintro e mem
    obtain ⟨s, listed, rfl⟩ := List.mem_map.1 mem
    exact mem_exportSecrets.1 listed
  · intro account s v version above
    exact List.mem_map.2 ⟨⟨account, (ofLex s).1, (ofLex s).2, v⟩,
      mem_exportSecrets.2 ⟨above, version⟩, rfl⟩
  · intro account s v version
    obtain ⟨r, -, found, -, -, rfl, -⟩ := leaderVersions_some.1 version
    exact inv.leaderLow r (Table.find_mem found)
  · intro s mem
    obtain ⟨r, -, found, -⟩ := leaderVersions_some.1 (mem_exportSecrets.1 mem).2
    exact .inl (Option.isSome_iff_exists.2 ⟨r, found⟩)

theorem Replicated.pull {net net' : VaultNet} (inv : Replicated leaderKeys followerKeys net)
    (ran : vaultStep leaderKeys followerKeys net .pull = some net') :
    Replicated leaderKeys followerKeys net' := by
  obtain rfl := Option.some.inj ran
  refine ⟨inv.tracking, inv.leaderLow, inv.givenLow, inv.rising, inv.followerLow, inv.held, ?_,
    inv.known⟩
  intro list mail
  obtain rfl := Option.some.inj mail
  obtain ⟨low, sent, distinct, known⟩ := inv.answer
  exact ⟨_, low, sent, distinct, known⟩

section Arrival

variable {net : VaultNet} {bound : Stamp} {list : List Secret} {follower : Db}

/-- What arrives is stored, and the rest stays. -/
theorem Posted.stored (posted : Posted leaderKeys net bound list)
    (taken : importSecrets followerKeys list net.follower = some follower) :
    (∀ s ∈ list, follower.vault.find s.accountId = some (secretRow followerKeys s)) ∧
      ∀ account, (∀ s ∈ list, s.accountId ≠ account) →
        follower.vault.find account = net.follower.vault.find account := by
  have run : list.foldl (importSecret followerKeys) net.follower = follower := by
    unfold importSecrets at taken
    split at taken
    · cases taken
    · exact Option.some.inj taken
  rw [← run]
  exact importSecrets_find list net.follower posted.distinct fun s mem old found =>
    lt_of_le_of_lt (le_topStamp (Table.find_mem found))
      (posted.sent.within _ (List.mem_map_of_mem mem)).1

/-- A row of the follower came with the answer, or was there. -/
theorem Posted.origin (posted : Posted leaderKeys net bound list)
    (taken : importSecrets followerKeys list net.follower = some follower) {account : AccountId}
    {r : VaultRow} (found : follower.vault.find account = some r) :
    (∃ s ∈ list, s.accountId = account ∧ stampOf r = s.stamp) ∨
      net.follower.vault.find account = some r := by
  obtain ⟨stored, kept⟩ := posted.stored taken
  by_cases listed : ∃ s ∈ list, s.accountId = account
  · obtain ⟨s, mem, rfl⟩ := listed
    rw [stored s mem] at found
    exact .inl ⟨s, mem, rfl, by rw [← Option.some.inj found]; rfl⟩
  · rw [kept account fun s mem here => listed ⟨s, mem, here⟩] at found
    exact .inr found

/-- An answer that arrives leaves nothing out up to its bound. -/
theorem Posted.held (posted : Posted leaderKeys net bound list)
    (inv : Replicated leaderKeys followerKeys net)
    (taken : importSecrets followerKeys list net.follower = some follower) {mark : Stamp}
    (marked : mark ≤ max (topStamp net.follower) bound) :
    Held (leaderVersions leaderKeys net.leader) (followerVersions followerKeys follower) mark := by
  obtain ⟨stored, kept⟩ := posted.stored taken
  refine inv.held.deliver posted.sent ?_ ?_ marked
  · intro e mem
    obtain ⟨s, listed, rfl⟩ := List.mem_map.1 mem
    have found : follower.vault.find s.mailed.key = some (secretRow followerKeys s) := stored s listed
    rw [followerVersions, found, Option.map_some, openBlob_secretRow]
    rfl
  · intro account other
    rw [followerVersions, followerVersions, kept account fun s mem =>
      other s.mailed (List.mem_map_of_mem mem)]

theorem Posted.marked (posted : Posted leaderKeys net bound list)
    (taken : importSecrets followerKeys list net.follower = some follower) :
    topStamp follower ≤ max (topStamp net.follower) bound := by
  refine topStamp_le fun r mem => ?_
  rcases posted.origin taken (Table.find_of_mem mem) with ⟨s, listed, -, stamp⟩ | old
  · rw [stamp]
    exact le_max_of_le_right (posted.sent.within _ (List.mem_map_of_mem listed)).2
  · exact le_max_of_le_left (le_topStamp (Table.find_mem old))

end Arrival

theorem Replicated.deliver {net net' : VaultNet} (inv : Replicated leaderKeys followerKeys net)
    (ran : vaultStep leaderKeys followerKeys net .deliver = some net') :
    Replicated leaderKeys followerKeys net' := by
  obtain ⟨list, mail, imported⟩ := Option.bind_eq_some_iff.1 ran
  obtain ⟨follower, taken, rfl⟩ := Option.map_eq_some_iff.1 imported
  obtain ⟨bound, posted⟩ := inv.posted list mail
  have marked := posted.marked taken
  refine ⟨inv.tracking, inv.leaderLow, inv.givenLow, inv.rising,
    le_trans marked (max_le inv.followerLow posted.low), posted.held inv taken marked, nofun, ?_⟩
  intro account there
  obtain ⟨r, found⟩ := Option.isSome_iff_exists.1 there
  rcases posted.origin taken found with ⟨s, listed, rfl, -⟩ | old
  · exact posted.known s listed
  · exact inv.known account (Option.isSome_iff_exists.2 ⟨r, old⟩)

theorem Replicated.step {net net' : VaultNet} {act : VaultAct}
    (inv : Replicated leaderKeys followerKeys net) (kept : HighestKept net act)
    (ran : vaultStep leaderKeys followerKeys net act = some net') :
    Replicated leaderKeys followerKeys net' := by
  cases act with
  | write w => exact inv.write kept ran
  | pull => exact inv.pull ran
  | deliver => exact inv.deliver ran

/-! ## Runs -/

/-- Where a run starts: a leader whose logins are of no later epoch, and a follower
that has what the leader can send up to its mark, and no other login but of accounts
removed before. -/
structure InStep (leaderKeys followerKeys : Keystore) (leader follower : Db)
    (removed : List AccountId) : Prop where
  tracking : leader.state.tracking = true
  epochs : ∀ r ∈ leader.vault.rows, r.epoch ≤ leader.state.epoch
  mark : topStamp follower ≤
    toLex (leader.state.epoch, maxStamp leader.vault leader.state.epoch)
  held : Held (leaderVersions leaderKeys leader) (followerVersions followerKeys follower)
    (topStamp follower)
  known : ∀ account, (follower.vault.find account).isSome = true →
    (leader.vault.find account).isSome = true ∨ account ∈ removed

/-- A device that has no login yet, under a leader that stamped all of its own. -/
theorem InStep.of_empty {leader follower : Db} (removed : List AccountId)
    (tracking : leader.state.tracking = true)
    (epochs : ∀ r ∈ leader.vault.rows, r.epoch ≤ leader.state.epoch)
    (stamped : ∀ r ∈ leader.vault.rows, toLex (0, 0) < stampOf r)
    (empty : follower.vault.rows = []) :
    InStep leaderKeys followerKeys leader follower removed := by
  have zero : topStamp follower = toLex (0, 0) := by
    rw [topStamp, empty]
    rfl
  refine ⟨tracking, epochs, topStamp_le (by rw [empty]; exact nofun), ?_, ?_⟩
  · intro account s v version low
    obtain ⟨r, -, found, -, -, rfl, -⟩ := leaderVersions_some.1 version
    rw [zero] at low
    exact absurd low (not_le_of_gt (stamped r (Table.find_mem found)))
  · intro account there
    have none' : follower.vault.find account = none := by
      rw [Table.find, empty]
      rfl
    rw [none'] at there
    cases there

theorem InStep.replicated {leader follower : Db} {removed : List AccountId}
    (start : InStep leaderKeys followerKeys leader follower removed) :
    Replicated leaderKeys followerKeys (.start leader follower removed) := by
  refine ⟨start.tracking, fun r mem => ?_, nofun, List.Pairwise.nil, start.mark, start.held,
    nofun, start.known⟩
  have low := le_maxStamp mem
  refine Prod.Lex.toLex_le_toLex.2 ?_
  rcases Nat.lt_or_eq_of_le (start.epochs r mem) with older | same
  · exact .inl older
  · rw [same] at low
    exact .inr ⟨same, low⟩

/-- After a pull the follower has what the leader can send. -/
theorem Replicated.pulled {net net' : VaultNet} (inv : Replicated leaderKeys followerKeys net)
    (ran : runSteps (vaultStep leaderKeys followerKeys) net [.pull, .deliver] = some net')
    {account : AccountId} {r : VaultRow} (found : net'.leader.vault.find account = some r)
    (sent : deviceOwnedAccount net'.leader account = false)
    (readable : (readSecret leaderKeys r).isSome = true) :
    loginOf followerKeys net'.follower account = loginOf leaderKeys net'.leader account := by
  obtain ⟨net₁, pulled, rest⟩ := runSteps_cons.1 ran
  obtain ⟨net₂, delivered, last⟩ := runSteps_cons.1 rest
  obtain rfl := Option.some.inj pulled
  obtain rfl := Option.some.inj last
  rw [vaultStep, Option.bind_some] at delivered
  obtain ⟨follower, taken, rfl⟩ := Option.map_eq_some_iff.1 delivered
  obtain ⟨secret, read⟩ := Option.isSome_iff_exists.1 readable
  have version : leaderVersions leaderKeys net.leader account =
      some (stampOf r, openBlob leaderKeys r.blob) := by
    refine leaderVersions_some.2 ⟨r, secret, found, sent, read, rfl, ?_⟩
    rw [readSecret_some read]
  have top : stampOf r ≤ max (topStamp net.follower) net.ceiling :=
    le_max_of_le_right (inv.leaderLow r (Table.find_mem found))
  have held := inv.answer.held inv taken (le_refl _) account _ _ version top
  obtain ⟨copy, copied, same⟩ := Option.map_eq_some_iff.1 held
  rw [loginOf, loginOf, copied, found]
  exact (Prod.mk.inj same).2

/-- **No login is lost.**  In a run that gives stamps only while the highest number
of the epoch is still in the table, every stamp is above all earlier ones; and when
the run ends with a pull, the follower has the login of each account whose row the
leader can send, and none of an account that has none and was not removed. -/
theorem logins_replicate {leader follower : Db} {removed : List AccountId}
    {acts : List VaultAct} {net : VaultNet}
    (start : InStep leaderKeys followerKeys leader follower removed)
    (kept : Along (vaultStep leaderKeys followerKeys) HighestKept
      (.start leader follower removed) acts)
    (ran : runSteps (vaultStep leaderKeys followerKeys) (.start leader follower removed) acts =
      some net) :
    net.given.Pairwise (fun later earlier => earlier < later) ∧
      ∀ net', runSteps (vaultStep leaderKeys followerKeys) net [.pull, .deliver] = some net' →
        ∀ account,
          (∀ r, net'.leader.vault.find account = some r →
            deviceOwnedAccount net'.leader account = false →
            (readSecret leaderKeys r).isSome = true →
            loginOf followerKeys net'.follower account = loginOf leaderKeys net'.leader account) ∧
          (net'.leader.vault.find account = none → account ∉ net'.removed →
            loginOf followerKeys net'.follower account = none) := by
  have inv := run_keeps (I := Replicated leaderKeys followerKeys)
    (fun _ _ _ inv kept ran => inv.step kept ran) start.replicated kept ran
  refine ⟨inv.rising, fun net' pulled account => ⟨fun r found sent readable => ?_,
    fun bare kept => ?_⟩⟩
  · exact inv.pulled pulled found sent readable
  · have quiet : Along (vaultStep leaderKeys followerKeys) HighestKept net [.pull, .deliver] :=
      ⟨trivial, fun _ _ => ⟨trivial, fun _ _ => trivial⟩⟩
    have inv' := run_keeps (I := Replicated leaderKeys followerKeys)
      (fun _ _ _ inv kept ran => inv.step kept ran) inv quiet pulled
    cases held : net'.follower.vault.find account with
    | none =>
        rw [loginOf, held]
        rfl
    | some r =>
        rcases inv'.known account (Option.isSome_iff_exists.2 ⟨r, held⟩) with there | gone
        · rw [bare] at there
          cases there
        · exact absurd gone kept

end Run

/-- A keystore that marks what it encrypts. -/
def plainKeys : Keystore where
  encrypt v := String.ofList ('#' :: v.toList)
  decrypt blob :=
    match blob.toList with
    | '#' :: v => some (String.ofList v)
    | _ => none
  decrypt_encrypt v := by simp
  encrypt_ne v := by
    intro empty
    have := congrArg String.toList empty
    simp at this

def loginAccount (id : AccountId) (source : String) : AccountRow :=
  ⟨id, source, id, "\x7b\x7d", "live", none, none, none, none, none, 0, none⟩

/-- A leader with a mail account and a WhatsApp account, and no login yet. -/
def loginLeader : Db :=
  let leading : SyncState := { SyncState.fresh with tracking := true, joined := true, epoch := 1 }
  let mail := ({ Db.fresh with state := leading }).insertRow .accounts (loginAccount "mail" "gmail")
  mail.insertRow .accounts (loginAccount "phone" "whatsapp")

def loginFollower : Db :=
  { Db.fresh with state := { SyncState.fresh with role := .follower, epoch := 1 } }

theorem loginLeader_inStep : InStep plainKeys plainKeys loginLeader loginFollower [] :=
  have bare : loginLeader.vault.rows = [] := rfl
  .of_empty [] rfl (by rw [bare]; exact nofun) (by rw [bare]; exact nofun) rfl

/-- Two saves with a pull between them, then a removal. -/
def loginRun : List VaultAct :=
  [.write (.save "mail" "one"), .pull, .write (.save "mail" "two"), .deliver,
    .write (.delete "mail"), .write (.save "mail" "three")]

theorem logins_replicate_three :
    ∃ net net', runSteps (vaultStep plainKeys plainKeys) (.start loginLeader loginFollower [])
        loginRun = some net ∧
      runSteps (vaultStep plainKeys plainKeys) net [.pull, .deliver] = some net' ∧
      net.given = [toLex (1, 4), toLex (1, 3), toLex (1, 2), toLex (1, 1)] ∧
      net.given.Pairwise (fun later earlier => earlier < later) ∧
      loginOf plainKeys net'.leader "mail" = some "three" ∧
      loginOf plainKeys net'.follower "mail" = loginOf plainKeys net'.leader "mail" := by
  have kept : Along (vaultStep plainKeys plainKeys) HighestKept (.start loginLeader loginFollower [])
      loginRun := by
    decide +kernel
  have stamps : (runSteps (vaultStep plainKeys plainKeys) (.start loginLeader loginFollower [])
      loginRun).map VaultNet.given =
        some [toLex (1, 4), toLex (1, 3), toLex (1, 2), toLex (1, 1)] := by
    decide +kernel
  obtain ⟨net, ran, given⟩ := Option.map_eq_some_iff.1 stamps
  have shown : (runSteps (vaultStep plainKeys plainKeys) (.start loginLeader loginFollower [])
      (loginRun ++ [.pull, .deliver])).map (fun net =>
        (net.leader.vault.find "mail", deviceOwnedAccount net.leader "mail",
          loginOf plainKeys net.leader "mail")) =
        some (some ⟨"mail", "#three", 1, 4⟩, false, some "three") := by
    decide +kernel
  obtain ⟨net', all, at_⟩ := Option.map_eq_some_iff.1 shown
  obtain ⟨_, ran', pulled⟩ := runSteps_append.1 all
  obtain rfl := Option.some.inj (ran.symm.trans ran')
  obtain ⟨row, sent, login⟩ := Prod.mk.inj at_ |>.imp_right Prod.mk.inj
  obtain ⟨rising, same⟩ := logins_replicate loginLeader_inStep kept ran
  exact ⟨net, net', ran, pulled, given, rising, login,
    (same net' pulled "mail").1 _ row sent (by decide +kernel)⟩

/-- **A login stays where its owner is**: a WhatsApp account's login is never sent,
so its account is on both devices and its login on one. -/
theorem ownedLogin_stays :
    ∃ net, InStep plainKeys plainKeys loginLeader loginFollower [] ∧
      runSteps (vaultStep plainKeys plainKeys) (.start loginLeader loginFollower [])
        [.write (.save "phone" "session"), .pull, .deliver] = some net ∧
      (net.leader.find .accounts [.text "phone"]).isSome = true ∧
      loginOf plainKeys net.leader "phone" = some "session" ∧
      loginOf plainKeys net.follower "phone" = none := by
  have seen : (runSteps (vaultStep plainKeys plainKeys) (.start loginLeader loginFollower [])
      [.write (.save "phone" "session"), .pull, .deliver]).map (fun net =>
        ((net.leader.find .accounts [.text "phone"]).isSome, loginOf plainKeys net.leader "phone",
          loginOf plainKeys net.follower "phone")) = some (true, some "session", none) := by
    decide +kernel
  obtain ⟨net, ran, shown⟩ := Option.map_eq_some_iff.1 seen
  simp only [Prod.mk.injEq] at shown
  exact ⟨net, loginLeader_inStep, ran, shown.1, shown.2.1, shown.2.2⟩

end Kiagent.Sync
