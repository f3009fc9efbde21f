/-
# Sync.Sources -- offers of sources, repeated and racing

A device that joins offers its sources to the leader.  `importSources` takes the offer in one
transaction with its row in `sync_offers`; the offer may come again, under its own id or under
a new one, from several devices, and among local writes of accounts.

* `importSources_exact` -- what one import keeps, creates and reports;
* `offer_once` -- an offer that was taken creates nothing when it comes again, whatever was
  removed since;
* `import_again` -- the sources of an offer that was taken are not created again under
  another id, as long as no account was removed.
-/
import Kiagent.Sync.VaultStamp
import Kiagent.Theory.Runs

namespace Kiagent.Sync

open Kiagent.Theory
open Kiagent.Store

set_option autoImplicit false

/-! ## An import -/

structure SourceOffer where
  offerId : String
  deviceId : DeviceId
  entries : List OfferedSource

structure ImportResult where
  created : List AccountId := []
  existing : List AccountId := []
  needsConnector : List AccountId := []
  needsConnectorSources : List (String × String) := []

/-- The database, and the ids in `sync_offers`. -/
structure SourceStore where
  db : Db
  offers : List String

def findSource (db : Db) (source identifier : String) : Option AccountRow :=
  (db.rows .accounts).find? fun (a : AccountRow) =>
    decide (a.source = source ∧ a.identifier = identifier)

/-- The account an entry stands for. -/
def sourceOf (deviceId : DeviceId) (db : Db) (e : OfferedSource) : Option AccountRow :=
  findSource db e.source (offeredIdentifier deviceId e)

def lacks (a : AccountRow) : Bool := a.status = "needs-connector"

def ImportResult.lacking (r : ImportResult) (e : OfferedSource) (a : AccountRow) : ImportResult :=
  if lacks a then
    { r with
      needsConnector := r.needsConnector ++ [a.id]
      needsConnectorSources := r.needsConnectorSources ++ [(e.source, e.identifier)] }
  else r

variable (deps : Deps) (now : Time)

def importEntry (deviceId : DeviceId) (repeated : Bool) (s : Db × ImportResult)
    (e : OfferedSource) : Option (Db × ImportResult) :=
  match sourceOf deviceId s.1 e with
  | some a => some (s.1, ({ s.2 with existing := s.2.existing ++ [a.id] }).lacking e a)
  | none =>
      if repeated then some s
      else (importSource deps now deviceId repeated e s.1).map fun db =>
        let row := offeredRow deps now deviceId e
        (db, ({ s.2 with created := s.2.created ++ [row.id] }).lacking e row)

/-- `none` when the transaction is rolled back: an id of a new account is taken. -/
def importSources (offer : SourceOffer) (s : SourceStore) : Option (SourceStore × ImportResult) :=
  let repeated := s.offers.contains offer.offerId
  (offer.entries.foldlM (importEntry deps now offer.deviceId repeated) (s.db, {})).map fun left =>
    (⟨left.1, if repeated then s.offers else s.offers ++ [offer.offerId]⟩, left.2)

/-! ## What an import keeps -/

/-- New accounts, and logins of theirs, and nothing else. -/
structure SourcesKept (db db' : Db) : Prop where
  accounts : ∃ new, db'.rows .accounts = db.rows .accounts ++ new
  others : ∀ t, t ≠ .accounts → db'.tables t = db.tables t
  logins : ∀ account row, db.vault.find account = some row → db'.vault.find account = some row

theorem SourcesKept.refl (db : Db) : SourcesKept db db :=
  ⟨⟨[], (List.append_nil _).symm⟩, fun _ _ => rfl, fun _ _ found => found⟩

theorem SourcesKept.trans {a b c : Db} (first : SourcesKept a b) (second : SourcesKept b c) :
    SourcesKept a c where
  accounts := by
    obtain ⟨new, rows⟩ := first.accounts
    obtain ⟨more, rows'⟩ := second.accounts
    exact ⟨new ++ more, by rw [rows', rows, List.append_assoc]⟩
  others t other := (second.others t other).trans (first.others t other)
  logins account row found := second.logins account row (first.logins account row found)

variable {deps now} {deviceId : DeviceId} {repeated : Bool} {e : OfferedSource} {db db' : Db}

theorem SourcesKept.sourceOf (kept : SourcesKept db db') {a : AccountRow}
    (found : sourceOf deviceId db e = some a) : sourceOf deviceId db' e = some a := by
  obtain ⟨new, rows⟩ := kept.accounts
  rw [Sync.sourceOf, findSource, rows, List.find?_append]
  exact Option.or_eq_some_iff.2 (.inl found)

theorem SourcesKept.find (kept : SourcesKept db db') {k : Key} {a : AccountRow}
    (found : db.find .accounts k = some a) : db'.find .accounts k = some a := by
  obtain ⟨new, rows⟩ := kept.accounts
  have key : keyOf .accounts a = k := Table.find_key found
  have mem : a ∈ db'.rows .accounts := rows ▸ List.mem_append_left _ (Table.find_mem found)
  rw [← key]
  exact Table.find_of_mem mem

theorem importSource_new (absent : sourceOf deviceId db e = none)
    (done : importSource deps now deviceId false e db = some db') :
    db.find .accounts [.text (offeredRow deps now deviceId e).id] = none ∧
      db'.rows .accounts = db.rows .accounts ++ [offeredRow deps now deviceId e] ∧
      SourcesKept db db' := by
  have away : ((db.rows .accounts).any fun (a : AccountRow) =>
      decide (a.source = e.source ∧ a.identifier = (offeredRow deps now deviceId e).identifier)) =
        false := by
    rw [List.any_eq_false]
    exact List.find?_eq_none.1 absent
  simp only [importSource, away, Bool.or_false, Bool.false_eq_true, if_false] at done
  split at done
  · cases done
  · next free =>
    have rows := Db.rows_insertRow (t := .accounts) (r := offeredRow deps now deviceId e) free
    have frame := Db.insertRow_frame db .accounts (offeredRow deps now deviceId e)
    have others : ∀ t, t ≠ .accounts →
        (db.insertRow .accounts (offeredRow deps now deviceId e)).tables t = db.tables t :=
      fun t other => Db.insertRow_tables_ne _ _ _ other
    refine ⟨free, ?_⟩
    split at done
    · next blob unset =>
      obtain rfl := Option.some.inj done
      refine ⟨rows, ⟨_, rows⟩, others, fun account row found => ?_⟩
      have before : (db.insertRow .accounts (offeredRow deps now deviceId e)).vault.find account =
          some row := by rw [frame.vault]; exact found
      rw [Table.find_put, if_neg]
      · exact before
      · rintro rfl
        cases before.symm.trans unset
    · obtain rfl := Option.some.inj done
      refine ⟨rows, ⟨_, rows⟩, others, fun account row found => ?_⟩
      show (db.insertRow .accounts (offeredRow deps now deviceId e)).vault.find account = some row
      rw [frame.vault]
      exact found

/-! ## What an import reports -/

/-- After the entries `done`, of an import that began at `db`. -/
structure Reported (deviceId : DeviceId) (repeated : Bool) (db : Db) (done : List OfferedSource)
    (s : Db × ImportResult) : Prop where
  /-- No account that was here is changed, nor its login, nor any other table. -/
  kept : SourcesKept db s.1
  /-- Each entry is reported once, under the account it stands for. -/
  once : (s.2.created ++ s.2.existing).Perm
    (done.filterMap fun e => (sourceOf deviceId s.1 e).map AccountRow.id)
  distinct : s.2.created.Nodup
  created : ∀ id ∈ s.2.created, db.find .accounts [.text id] = none ∧
    (s.1.find .accounts [.text id]).isSome
  /-- No entry of a new offer is skipped. -/
  here : repeated = false → ∀ e ∈ done, (sourceOf deviceId s.1 e).isSome
  /-- A repeated offer creates nothing. -/
  again : repeated = true → s.1 = db ∧ s.2.created = []
  needsConnector : s.2.needsConnector =
    ((done.filterMap (sourceOf deviceId s.1)).filter lacks).map AccountRow.id
  needsConnectorSources : s.2.needsConnectorSources =
    (done.filter fun e => (sourceOf deviceId s.1 e).any lacks).map fun e => (e.source, e.identifier)

variable {done : List OfferedSource} {s s' : Db × ImportResult}

theorem lacking_created (r : ImportResult) (e : OfferedSource) (a : AccountRow) :
    (r.lacking e a).created = r.created := by
  unfold ImportResult.lacking
  split <;> rfl

theorem lacking_existing (r : ImportResult) (e : OfferedSource) (a : AccountRow) :
    (r.lacking e a).existing = r.existing := by
  unfold ImportResult.lacking
  split <;> rfl

theorem lacking_needsConnector (r : ImportResult) (e : OfferedSource) (a : AccountRow) :
    (r.lacking e a).needsConnector =
      r.needsConnector ++ (if lacks a then [a.id] else []) ∧
    (r.lacking e a).needsConnectorSources =
      r.needsConnectorSources ++ (if lacks a then [(e.source, e.identifier)] else []) := by
  unfold ImportResult.lacking
  split <;> simp

/-- The next entry reports `a`, which stands for it from then on. -/
theorem Reported.next (reported : Reported deviceId repeated db done s) (kept : SourcesKept s.1 db')
    (same : repeated = true → db' = s.1) {a : AccountRow}
    (found : sourceOf deviceId db' e = some a) {r : ImportResult}
    (once : (r.created ++ r.existing).Perm (s.2.created ++ s.2.existing ++ [a.id]))
    (distinct : r.created.Nodup) (created : ∀ id ∈ r.created, db.find .accounts [.text id] = none ∧
      (db'.find .accounts [.text id]).isSome) (again : repeated = true → r.created = [])
    (needs : r.needsConnector = s.2.needsConnector)
    (sources : r.needsConnectorSources = s.2.needsConnectorSources) :
    Reported deviceId repeated db (done ++ [e]) (db', r.lacking e a) := by
  have before : ∀ d ∈ done, sourceOf deviceId db' d = sourceOf deviceId s.1 d := fun d mem => by
    cases again : repeated with
    | true => rw [same again]
    | false =>
        obtain ⟨b, there⟩ := Option.isSome_iff_exists.1 (reported.here again d mem)
        rw [there, kept.sourceOf there]
  refine ⟨reported.kept.trans kept, ?_, ?_, ?_, fun new => ?_, fun again' => ?_, ?_, ?_⟩
  · simp only [lacking_created, lacking_existing, List.filterMap_append]
    rw [List.filterMap_congr fun d mem => by rw [before d mem]]
    simpa [found] using once.trans (reported.once.append_right [a.id])
  · rwa [lacking_created]
  · rwa [lacking_created]
  · intro d mem
    rcases List.mem_append.1 mem with old | last
    · rw [before d old]
      exact reported.here new d old
    · rw [List.mem_singleton.1 last, found]
      rfl
  · exact ⟨(same again').trans (reported.again again').1, by rw [lacking_created, again again']⟩
  · rw [(lacking_needsConnector r e a).1, needs, reported.needsConnector, List.filterMap_append,
      List.filterMap_congr before]
    by_cases lack : lacks a <;> simp [found, lack]
  · rw [(lacking_needsConnector r e a).2, sources, reported.needsConnectorSources,
      List.filter_append, List.filter_congr (p := fun d => (sourceOf deviceId db' d).any lacks)
        fun d mem => by rw [before d mem]]
    by_cases lack : lacks a <;> simp [found, lack]

theorem importEntry_reported (reported : Reported deviceId repeated db done s)
    (took : importEntry deps now deviceId repeated s e = some s') :
    Reported deviceId repeated db (done ++ [e]) s' := by
  unfold importEntry at took
  split at took
  case h_1 a found =>
      obtain rfl := Option.some.inj took
      exact reported.next (SourcesKept.refl _) (fun _ => rfl) found
        (by rw [List.append_assoc]) reported.distinct reported.created
        (fun again => (reported.again again).2) rfl rfl
  case h_2 absent =>
      cases repeated with
      | true =>
          obtain rfl := Option.some.inj took
          exact ⟨reported.kept, by simpa [absent] using reported.once, reported.distinct,
            reported.created, fun new => absurd new nofun, reported.again,
            by simpa [absent] using reported.needsConnector,
            by simpa [absent] using reported.needsConnectorSources⟩
      | false =>
          obtain ⟨db', imported, rfl⟩ := Option.map_eq_some_iff.1 took
          obtain ⟨free, rows, kept⟩ := importSource_new absent imported
          have found : sourceOf deviceId db' e = some (offeredRow deps now deviceId e) := by
            rw [sourceOf, findSource, rows, List.find?_append, Option.or_eq_some_iff]
            exact .inr ⟨absent, by simp [offeredRow]⟩
          have unused : (offeredRow deps now deviceId e).id ∉ s.2.created := fun mem => by
            have there := (reported.created _ mem).2
            rw [free] at there
            cases there
          refine reported.next kept (fun again => absurd again nofun) found ?_ ?_ ?_
            (fun again => absurd again nofun) rfl rfl
          · rw [List.append_assoc, List.append_assoc]
            exact List.perm_append_comm.append_left _
          · exact List.nodup_append.2 ⟨reported.distinct, List.nodup_singleton _, by
              rintro id mem id' mem' rfl
              exact unused (List.mem_singleton.1 mem' ▸ mem)⟩
          · intro id mem
            rcases List.mem_append.1 mem with old | new
            · obtain ⟨absent', there⟩ := reported.created id old
              obtain ⟨a, there⟩ := Option.isSome_iff_exists.1 there
              exact ⟨absent', Option.isSome_iff_exists.2 ⟨a, kept.find there⟩⟩
            · rw [List.mem_singleton.1 new]
              have there : offeredRow deps now deviceId e ∈ db'.rows .accounts := by
                rw [rows]
                exact List.mem_append_right _ (List.mem_singleton.2 rfl)
              refine ⟨?_, Option.isSome_iff_exists.2 ⟨_, Table.find_of_mem there⟩⟩
              cases before : db.find .accounts [.text (offeredRow deps now deviceId e).id] with
              | none => rfl
              | some a =>
                  rw [reported.kept.find before] at free
                  cases free

theorem foldlM_reported : {es done : List OfferedSource} → {s s' : Db × ImportResult} →
    Reported deviceId repeated db done s →
    es.foldlM (importEntry deps now deviceId repeated) s = some s' →
    Reported deviceId repeated db (done ++ es) s'
  | [], _, _, _, reported, ran => by
      obtain rfl := Option.some.inj ran
      rwa [List.append_nil]
  | e :: es, done, _, _, reported, ran => by
      obtain ⟨s₁, first, rest⟩ := Option.bind_eq_some_iff.1 ran
      have := foldlM_reported (importEntry_reported reported first) rest
      rwa [List.append_assoc] at this

/-- **An import changes nothing that was here, and reports each entry once**: as created when
the store had no such account, and among those that need a connector exactly when it does. -/
theorem importSources_exact {offer : SourceOffer} {store store' : SourceStore} {r : ImportResult}
    (taken : importSources deps now offer store = some (store', r)) :
    Reported offer.deviceId (store.offers.contains offer.offerId) store.db offer.entries
      (store'.db, r) ∧ offer.offerId ∈ store'.offers := by
  obtain ⟨left, ran, same⟩ := Option.map_eq_some_iff.1 taken
  obtain ⟨rfl, rfl⟩ := Prod.mk.inj same
  have start : Reported offer.deviceId (store.offers.contains offer.offerId) store.db []
      (store.db, {}) :=
    ⟨.refl _, .nil, List.nodup_nil, nofun, fun _ => nofun, fun _ => ⟨rfl, rfl⟩, rfl, rfl⟩
  refine ⟨foldlM_reported start ran, ?_⟩
  split
  · next known => exact List.contains_iff_mem.1 known
  · exact List.mem_append_right _ (List.mem_singleton.2 rfl)

/-- A mailbox and a workspace, the workspace twice. -/
def threeEntries : SourceOffer where
  offerId := "o"
  deviceId := "device-two"
  entries :=
    let workspace : OfferedSource := ⟨"slack", "w", "\x7b\x7d", none, none, false, false, none⟩
    [⟨"gmail", "me@x", "\x7b\x7d", none, none, true, true, some "login"⟩, workspace, workspace]

theorem importSources_exact_three : ∃ store' r,
    importSources Deps.spelled 5 threeEntries ⟨Db.fresh, []⟩ = some (store', r) ∧
      r.created.length = 2 ∧ r.existing.length = 1 ∧ r.needsConnector.length = 2 ∧
      SourcesKept Db.fresh store'.db := by
  obtain ⟨store', r, taken, counts⟩ : ∃ store' r,
    importSources Deps.spelled 5 threeEntries ⟨Db.fresh, []⟩ = some (store', r) ∧
      r.created.length = 2 ∧ r.existing.length = 1 ∧ r.needsConnector.length = 2 :=
    ⟨_, _, rfl, rfl, rfl, rfl⟩
  exact ⟨store', r, taken, counts.1, counts.2.1, counts.2.2, (importSources_exact taken).1.kept⟩

/-! ## Offers among local writes -/

inductive SourceAct where
  | offer (now : Time) (offer : SourceOffer)
  /-- An account made here, which the table's two keys accept. -/
  | create (row : AccountRow)
  /-- A write of any columns but those of the keys. -/
  | set (id : AccountId) (row : AccountRow)
  | remove (now : Time) (id : AccountId)

def SourceAct.removes : SourceAct → Bool
  | .remove .. => true
  | _ => false

/-- The other columns are those of `row`. -/
def setColumns (row a : AccountRow) : AccountRow :=
  { row with id := a.id, source := a.source, identifier := a.identifier }

variable (deps) in
def sourceStep (s : SourceStore) : SourceAct → Option SourceStore
  | .offer now offer => (importSources deps now offer s).map Prod.fst
  | .create row =>
      if s.db.find .accounts [.text row.id] = none ∧
          findSource s.db row.source row.identifier = none then
        some { s with db := s.db.insertRow .accounts row }
      else none
  | .set id row => some { s with db := s.db.updateRow .accounts [.text id] (setColumns row) }
  | .remove now id => some { s with db := (removeAccount now id s.db).1 }

theorem sourceStep_offers {s s' : SourceStore} {act : SourceAct} {id : String}
    (known : id ∈ s.offers) (took : sourceStep deps s act = some s') : id ∈ s'.offers := by
  cases act with
  | offer now offer =>
      obtain ⟨⟨_, r⟩, taken, rfl⟩ := Option.map_eq_some_iff.1 took
      obtain ⟨left, -, same⟩ := Option.map_eq_some_iff.1 taken
      obtain ⟨rfl, -⟩ := Prod.mk.inj same
      dsimp only
      split
      · exact known
      · exact List.mem_append_left _ known
  | create row =>
      obtain ⟨-, rfl⟩ := Option.ite_none_right_eq_some.1 took |>.imp_right Option.some.inj
      exact known
  | set | remove =>
      obtain rfl := Option.some.inj took
      exact known

/-- The sources of the entries are all here. -/
def AllHere (deviceId : DeviceId) (es : List OfferedSource) (db : Db) : Prop :=
  ∀ e ∈ es, (sourceOf deviceId db e).isSome

theorem sourceOf_isSome : (sourceOf deviceId db e).isSome ↔ ∃ a : AccountRow,
    a ∈ db.rows .accounts ∧ a.source = e.source ∧ a.identifier = offeredIdentifier deviceId e := by
  simp only [sourceOf, findSource, List.find?_isSome, decide_eq_true_eq]

theorem AllHere.mono {es : List OfferedSource} (here : AllHere deviceId es db)
    (stay : ∀ a : AccountRow, a ∈ db.rows .accounts → ∃ b : AccountRow, b ∈ db'.rows .accounts ∧
      b.source = a.source ∧ b.identifier = a.identifier) : AllHere deviceId es db' := by
  intro e mem
  obtain ⟨a, there, source, identifier⟩ := sourceOf_isSome.1 (here e mem)
  obtain ⟨b, left, source', identifier'⟩ := stay a there
  exact sourceOf_isSome.2 ⟨b, left, source'.trans source, identifier'.trans identifier⟩

theorem sourceStep_here {es : List OfferedSource} {s s' : SourceStore} {act : SourceAct}
    (here : AllHere deviceId es s.db) (stays : act.removes = false)
    (took : sourceStep deps s act = some s') : AllHere deviceId es s'.db := by
  refine here.mono fun a mem => ?_
  cases act with
  | offer now offer =>
      obtain ⟨⟨_, r⟩, taken, rfl⟩ := Option.map_eq_some_iff.1 took
      obtain ⟨new, rows⟩ := (importSources_exact taken).1.kept.accounts
      exact ⟨a, rows ▸ List.mem_append_left _ mem, rfl, rfl⟩
  | create row =>
      obtain ⟨⟨free, -⟩, rfl⟩ := Option.ite_none_right_eq_some.1 took |>.imp_right Option.some.inj
      refine ⟨a, ?_, rfl, rfl⟩
      rw [Db.rows_insertRow (t := .accounts) (r := row) free]
      exact List.mem_append_left _ mem
  | set id row =>
      obtain rfl := Option.some.inj took
      have rows := Db.rows_updateRow s.db .accounts [.text id] (setColumns row) fun _ => rfl
      refine ⟨_, rows ▸ List.mem_map_of_mem mem, ?_⟩
      split <;> exact ⟨rfl, rfl⟩
  | remove => cases stays

/-- An import every entry of which is passed by leaves the database. -/
theorem importSources_still {offer : SourceOffer} {s : SourceStore}
    (still : ∀ e ∈ offer.entries, (sourceOf offer.deviceId s.db e).isSome ∨
      s.offers.contains offer.offerId = true) : ∃ offers r,
    importSources deps now offer s = some (⟨s.db, offers⟩, r) ∧ r.created = [] := by
  suffices folds : ∀ (es : List OfferedSource), (∀ e ∈ es, e ∈ offer.entries) →
      ∀ r : ImportResult, r.created = [] → ∃ r',
        es.foldlM (importEntry deps now offer.deviceId (s.offers.contains offer.offerId))
          (s.db, r) = some (s.db, r') ∧ r'.created = [] by
    obtain ⟨r, ran, none_⟩ := folds offer.entries (fun _ mem => mem) {} rfl
    refine ⟨if s.offers.contains offer.offerId then s.offers else s.offers ++ [offer.offerId], r,
      ?_, none_⟩
    rw [importSources, ran]
    rfl
  intro es
  induction es with
  | nil => exact fun _ r none_ => ⟨r, rfl, none_⟩
  | cons e es ih =>
      intro within r none_
      obtain ⟨r₁, first, none₁⟩ : ∃ r₁, importEntry deps now offer.deviceId
          (s.offers.contains offer.offerId) (s.db, r) e = some (s.db, r₁) ∧ r₁.created = [] := by
        unfold importEntry
        split
        · exact ⟨_, rfl, (lacking_created ..).trans none_⟩
        · next absent =>
          obtain here | again := still e (within e (List.mem_cons_self ..))
          · rw [absent] at here
            cases here
          · exact ⟨r, if_pos again, none_⟩
      obtain ⟨r', rest, none'⟩ := ih (fun e mem => within e (List.mem_cons_of_mem _ mem)) r₁ none₁
      exact ⟨r', by rw [List.foldlM_cons, first]; exact rest, none'⟩

section Runs

variable {offer : SourceOffer} {s s₁ s₂ : SourceStore} {r : ImportResult} {acts : List SourceAct}

/-- **An offer that comes again creates nothing**, whatever its entries are now, and whatever
was written or removed since it was first taken. -/
theorem offer_once (taken : importSources deps now offer s = some (s₁, r))
    (ran : runSteps (sourceStep deps) s₁ acts = some s₂) (later : Time) (again : SourceOffer)
    (same : again.offerId = offer.offerId) : ∃ offers r',
      importSources deps later again s₂ = some (⟨s₂.db, offers⟩, r') ∧ r'.created = [] := by
  have known : offer.offerId ∈ s₂.offers := run_invariant (I := fun s => offer.offerId ∈ s.offers)
    (fun _ _ _ known took => sourceStep_offers known took) (importSources_exact taken).2 ran
  exact importSources_still fun e _ => .inr (List.contains_iff_mem.2 (same ▸ known))

/-- **What was offered once is not created twice**: under another id too, the same entries
find their accounts, whatever was written since but a removal. -/
theorem import_again (taken : importSources deps now offer s = some (s₁, r))
    (new : offer.offerId ∉ s.offers) (ran : runSteps (sourceStep deps) s₁ acts = some s₂)
    (stays : ∀ act ∈ acts, act.removes = false) (later : Time) (otherId : String) :
    ∃ offers r', importSources deps later { offer with offerId := otherId } s₂ =
      some (⟨s₂.db, offers⟩, r') ∧ r'.created = [] := by
  have fresh : s.offers.contains offer.offerId = false := by
    simpa using new
  have here : AllHere offer.deviceId offer.entries s₂.db := run_keeps
    (I := fun (s : SourceStore) => AllHere offer.deviceId offer.entries s.db)
    (fun _ _ _ here stays took => sourceStep_here here stays took)
    ((importSources_exact taken).1.here fresh) (Along.of_mem stays s₁) ran
  exact importSources_still fun e mem => .inl (here e mem)

end Runs

/-- The mailbox is removed, and the offer comes again. -/
theorem offer_once_removed : ∃ s₁ r s₂ offers r',
    importSources Deps.spelled 5 threeEntries ⟨Db.fresh, []⟩ = some (s₁, r) ∧
      runSteps (sourceStep Deps.spelled) s₁ (r.created.map (.remove 6)) = some s₂ ∧
      (s₂.db.rows .accounts).length = 0 ∧
      importSources Deps.spelled 7 threeEntries s₂ = some (⟨s₂.db, offers⟩, r') ∧
      r'.created = [] := by
  obtain ⟨s₁, r, s₂, taken, ran, gone⟩ : ∃ s₁ r s₂,
    importSources Deps.spelled 5 threeEntries ⟨Db.fresh, []⟩ = some (s₁, r) ∧
      runSteps (sourceStep Deps.spelled) s₁ (r.created.map (.remove 6)) = some s₂ ∧
      (s₂.db.rows .accounts).length = 0 := ⟨_, _, _, rfl, rfl, rfl⟩
  obtain ⟨offers, r', again, none_⟩ := offer_once taken ran 7 threeEntries rfl
  exact ⟨s₁, r, s₂, offers, r', taken, ran, gone, again, none_⟩

theorem import_again_other : ∃ s₁ r offers r',
    importSources Deps.spelled 5 threeEntries ⟨Db.fresh, []⟩ = some (s₁, r) ∧
      importSources Deps.spelled 7 { threeEntries with offerId := "p" } s₁ =
        some (⟨s₁.db, offers⟩, r') ∧ r'.created = [] := by
  obtain ⟨s₁, r, taken⟩ : ∃ s₁ r,
    importSources Deps.spelled 5 threeEntries ⟨Db.fresh, []⟩ = some (s₁, r) := ⟨_, _, rfl⟩
  obtain ⟨offers, r', again, none_⟩ :=
    import_again taken (by decide)
      (show runSteps (sourceStep Deps.spelled) s₁ [] = some s₁ from rfl) nofun 7 "p"
  exact ⟨s₁, r, offers, r', taken, again, none_⟩

end Kiagent.Sync
