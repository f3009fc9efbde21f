/-
# Db.PluginNamespace -- which objects the registry takes for a plugin's

The registry reads a plugin's objects out of `sqlite_master` with `LIKE`, by the start of
their names; the underscores of that start are wildcards there.

* `like_namespace_iff` -- it selects the objects of every plugin whose id the plugin's own
  begins, and of no other;
* `verifyRegisteredObjects_isolated` -- the objects are then looked up by their names, and
  another plugin's are never taken for them;
* `checkTriggers_iff` -- the triggers are not: one in place of a view, of a plugin with a
  longer id, refuses the schema.
-/
import Kiagent.Db.PluginAuthorizer

namespace Kiagent.Db.PluginNamespace

open Kiagent.Db.PluginAuthorizer

set_option autoImplicit false

/-! ## The catalogue -/

/-- SQLite's `LIKE`, without an escape. -/
def like : List Char → List Char → Bool
  | [], s => s.isEmpty
  | c :: p, s =>
      if c = '%' then s.tails.any (like p)
      else match s with
        | [] => false
        | d :: s => (c = '_' || c.toLower = d.toLower) && like p s

/-- A row of `sqlite_master`, with the view an `INSTEAD OF` trigger names. -/
structure CatalogRow where
  name : String
  kind : String
  insteadOf : Option String
  deriving DecidableEq, Repr

inductive SchemaError where
  /-- `invalid logical identifier: …` -/
  | invalid (name : String)
  /-- `registered … … does not exist in sqlite_master` -/
  | objectMissing (kind name : String)
  /-- `registered … has sqlite kind …, expected …` -/
  | objectKind (name actual expected : String)
  /-- `trigger … references a non-owned view …` -/
  | reference (trigger target : String)
  deriving DecidableEq, Repr

def selected (pluginId : String) (catalog : List CatalogRow) : List CatalogRow :=
  catalog.filter fun r => like ((ownedNamespace pluginId).toList ++ ['%']) r.name.toList

/-- One registered object; of two rows of one name the later counts. -/
def verifyObject (pluginId : String) (catalog : List CatalogRow) (object : String × String) :
    Except SchemaError Unit :=
  match pluginIdentifier pluginId object.1 with
  | none => .error (.invalid object.1)
  | some physical =>
      match (selected pluginId catalog).reverse.find? fun r => decide (r.name = physical) with
      | none => .error (.objectMissing object.2 object.1)
      | some r =>
          if r.kind = object.2 then .ok () else .error (.objectKind object.1 r.kind object.2)

/-- `objects`: the logical names and the kinds of the descriptor. -/
def verifyRegisteredObjects (pluginId : String) (objects : List (String × String))
    (catalog : List CatalogRow) : Except SchemaError Unit :=
  objects.forM (verifyObject pluginId catalog)

/-- The last part of `validateSchemaInternal`; `names` are the physical names it owns. -/
def checkTriggers (pluginId : String) (names : List String) (catalog : List CatalogRow) :
    Option SchemaError :=
  (selected pluginId catalog).findSome? fun r =>
    if r.kind = "trigger" then r.insteadOf.bind fun target =>
      if names.contains target then none else some (.reference r.name target)
    else none

/-! ## Names -/

def hexPair (b : UInt8) : List Char := [hexDigit (b.toNat / 16), hexDigit (b.toNat % 16)]

def bytes (id : String) : List UInt8 := id.toUTF8.data.toList

def hexes (bs : List UInt8) : List Char := bs.flatMap hexPair

/-- What stands for itself in a pattern. -/
def Plain (c : Char) : Prop := c ≠ '_' ∧ c ≠ '%' ∧ c.toLower = c

theorem plain_hexDigit : ∀ n < 16, hexDigit n ≠ '_' ∧ hexDigit n ≠ '%' ∧
    (hexDigit n).toLower = hexDigit n := by decide +kernel

theorem hexDigit_injective : ∀ m < 16, ∀ n < 16, hexDigit m = hexDigit n → m = n := by
  decide +kernel

theorem plain_hexes {bs : List UInt8} {c : Char} (mem : c ∈ hexes bs) : Plain c := by
  obtain ⟨b, -, mem⟩ := List.mem_flatMap.1 mem
  have size : b.toNat < 256 := b.toNat_lt
  simp only [hexPair, List.mem_cons, List.not_mem_nil, or_false] at mem
  obtain rfl | rfl := mem <;> exact plain_hexDigit _ (by omega)

theorem hexPair_injective {b c : UInt8} (high : hexDigit (b.toNat / 16) = hexDigit (c.toNat / 16))
    (low : hexDigit (b.toNat % 16) = hexDigit (c.toNat % 16)) : b = c := by
  have := b.toNat_lt
  have := c.toNat_lt
  have := hexDigit_injective _ (by omega) _ (by omega) high
  have := hexDigit_injective _ (by omega) _ (by omega) low
  exact UInt8.toNat_inj.1 (by omega)

/-- Ids extend one another as their digits do. -/
theorem hexes_prefix_iff : {bs cs : List UInt8} → (hexes bs <+: hexes cs ↔ bs <+: cs)
  | [], cs => by simp [hexes]
  | b :: bs, [] => by simp [hexes, hexPair]
  | b :: bs, c :: cs => by
      have rest := @hexes_prefix_iff bs cs
      simp only [hexes, List.flatMap_cons, hexPair, List.cons_append, List.nil_append,
        List.cons_prefix_cons] at rest ⊢
      rw [rest]
      refine ⟨fun ⟨high, low, more⟩ => ⟨hexPair_injective high low, more⟩, ?_⟩
      rintro ⟨rfl, more⟩
      exact ⟨rfl, rfl, more⟩

theorem namespace_toList (id : String) :
    (ownedNamespace id).toList = 'p' :: '_' :: (hexes (bytes id) ++ ['_', '_']) := by
  simp [ownedNamespace, hex, hexes, bytes]
  rfl

theorem toLower_logical {c : Char} (logical : isLower c = true ∨ c.isDigit = true ∨ c = '_') :
    c.toLower = c := by
  have low : c.isUpper = false := by
    obtain lower | digit | rfl := logical
    · simp_all [isLower, Char.isUpper, Char.le_def, UInt32.le_iff_toNat_le]
      omega
    · simp_all [Char.isDigit, Char.isUpper, UInt32.le_iff_toNat_le]
      omega
    · rfl
  simp_all [Char.toLower, Char.isUpper]

/-- A physical name: the plugin's digits, and the logical name behind them. -/
theorem pluginIdentifier_toList {id name physical : String}
    (named : pluginIdentifier id name = some physical) : physical.toList =
      'p' :: '_' :: (hexes (bytes id) ++ '_' :: '_' :: name.toList) ∧
      ∀ c ∈ name.toList, c.toLower = c := by
  unfold pluginIdentifier at named
  split at named
  case isFalse => cases named
  case isTrue logical =>
    obtain rfl := Option.some.inj named
    refine ⟨by simp [namespace_toList], fun c mem => ?_⟩
    rw [isLogical] at logical
    cases letters : name.toList with
    | nil => rw [letters] at mem; cases mem
    | cons d ds =>
        rw [letters] at logical mem
        simp only [Bool.and_eq_true, List.all_eq_true, Bool.or_eq_true, beq_iff_eq] at logical
        obtain rfl | later := List.mem_cons.1 mem
        · exact toLower_logical (.inl logical.1)
        · exact toLower_logical (or_assoc.1 (logical.2 c later))

/-! ## What the pattern selects -/

theorem like_plain : {xs s : List Char} → (∀ c ∈ xs, Plain c) → (∀ c ∈ s, c.toLower = c) →
    (like (xs ++ ['_', '_', '%']) s = true ↔ xs <+: s ∧ xs.length + 2 ≤ s.length)
  | [], s, _, _ => by
      match s with
      | [] => simp [like]
      | [_] => simp [like]
      | _ :: _ :: s => simp [like, List.mem_tails]
  | c :: xs, [], plain, _ => by
      simp [like, (plain c (List.mem_cons_self ..)).2.1]
  | c :: xs, d :: s, plain, low => by
      have rest := @like_plain xs s
        (fun c mem => plain c (List.mem_cons_of_mem _ mem))
        fun c mem => low c (List.mem_cons_of_mem _ mem)
      obtain ⟨score, percent, lower⟩ := plain c (List.mem_cons_self ..)
      rw [List.cons_append, like, if_neg percent]
      simp only [score, decide_false, Bool.false_or, lower, low d (List.mem_cons_self ..),
        Bool.and_eq_true, decide_eq_true_eq, rest, List.cons_prefix_cons, List.length_cons]
      constructor
      · rintro ⟨same, front, long⟩
        exact ⟨⟨same, front⟩, by omega⟩
      · rintro ⟨⟨same, front⟩, long⟩
        exact ⟨same, front, by omega⟩

/-- Digits before an underscore are digits of the id. -/
theorem hexes_begins {bs : List UInt8} {ys rest : List Char} :
    hexes bs <+: ys ++ '_' :: rest ↔ hexes bs <+: ys := by
  refine ⟨fun front => ?_, fun front => front.trans (List.prefix_append ..)⟩
  obtain short | ⟨more, same⟩ := List.prefix_or_prefix_of_prefix front (List.prefix_append ys _)
  · exact short
  · cases more with
    | nil => exact List.append_nil ys ▸ same ▸ List.prefix_rfl
    | cons c more =>
        rw [← same] at front
        obtain ⟨t, same'⟩ := front
        rw [List.append_assoc, List.append_cancel_left_eq, List.cons_append] at same'
        obtain ⟨rfl, -⟩ := List.cons.inj same'
        have inside : '_' ∈ hexes bs := same ▸ List.mem_append_right _ (List.mem_cons_self ..)
        exact absurd rfl (plain_hexes inside).1

/-- **The pattern of an id selects the objects of the ids it begins**, byte by byte. -/
theorem like_namespace_iff {id owner name physical : String}
    (named : pluginIdentifier owner name = some physical) :
    like ((ownedNamespace id).toList ++ ['%']) physical.toList = true ↔
      bytes id <+: bytes owner := by
  obtain ⟨letters, lower⟩ := pluginIdentifier_toList named
  have low : ∀ c ∈ hexes (bytes owner) ++ '_' :: '_' :: name.toList, c.toLower = c := by
    intro c mem
    simp only [List.mem_append, List.mem_cons] at mem
    obtain digit | rfl | rfl | mem := mem
    · exact (plain_hexes digit).2.2
    · rfl
    · rfl
    · exact lower c mem
  have same := like_plain (fun c (mem : c ∈ hexes (bytes id)) => plain_hexes mem) low
  rw [hexes_begins, hexes_prefix_iff] at same
  rw [letters, namespace_toList]
  simp only [like, List.cons_append, List.append_assoc, List.nil_append]
  simp only [show ('p' : Char) ≠ '%' by decide, show ('_' : Char) ≠ '%' by decide, if_false,
    decide_true, Bool.true_or, Bool.or_true, Bool.true_and]
  rw [same]
  refine ⟨And.left, fun front => ⟨front, ?_⟩⟩
  have short := (hexes_prefix_iff.2 front).length_le
  simp only [List.length_append, List.length_cons]
  omega

theorem mem_selected {id owner name : String} {catalog : List CatalogRow} {r : CatalogRow}
    (named : pluginIdentifier owner name = some r.name) :
    r ∈ selected id catalog ↔ r ∈ catalog ∧ bytes id <+: bytes owner := by
  rw [selected, List.mem_filter, like_namespace_iff named]

/-! ## What is taken for the plugin's -/

/-- The row an object is checked against is one of its very name. -/
theorem find_selected {id name physical : String} (named : pluginIdentifier id name = some physical)
    (catalog : List CatalogRow) :
    (selected id catalog).reverse.find? (fun r => decide (r.name = physical)) =
      (catalog.filter fun r => decide (r.name = physical)).getLast? := by
  rw [← List.head?_filter, List.filter_reverse, List.head?_reverse, selected, List.filter_filter]
  congr 1
  refine List.filter_congr fun r _ => ?_
  by_cases same : r.name = physical
  · simp [same, (@like_namespace_iff id id name physical named).2 List.prefix_rfl]
  · simp [same]

/-- **No other plugin's object is taken for a registered one**: the verification reads the
rows of the plugin's own objects. -/
theorem verifyRegisteredObjects_isolated {id : String} {objects : List (String × String)}
    {catalog catalog' : List CatalogRow}
    (same : ∀ object ∈ objects, ∀ physical, pluginIdentifier id object.1 = some physical →
      catalog.filter (fun r => decide (r.name = physical)) =
        catalog'.filter fun r => decide (r.name = physical)) :
    verifyRegisteredObjects id objects catalog = verifyRegisteredObjects id objects catalog' := by
  unfold verifyRegisteredObjects
  induction objects with
  | nil => rfl
  | cons object objects ih =>
      have first : verifyObject id catalog object = verifyObject id catalog' object := by
        unfold verifyObject
        cases named : pluginIdentifier id object.1 with
        | none => rfl
        | some physical =>
            simp only [find_selected named, same object (List.mem_cons_self ..) physical named]
      have rest := ih fun object mem => same object (List.mem_cons_of_mem _ mem)
      show (verifyObject id catalog object >>= fun _ => objects.forM (verifyObject id catalog)) = _
      rw [first, rest]
      rfl

/-- A trigger of a plugin, in place of a view of the same plugin. -/
structure Installed (r : CatalogRow) (owner : String) : Prop where
  named : ∃ name, pluginIdentifier owner name = some r.name
  target : ∀ target, r.insteadOf = some target →
    ∃ view, pluginIdentifier owner view = some target

/-- **The schema of a plugin is refused for any trigger in place of a view whose owner's id
its own begins**, but those on its own views. -/
theorem checkTriggers_iff {id : String} {names : List String} {catalog : List CatalogRow}
    (owner : CatalogRow → String)
    (installed : ∀ r ∈ catalog, r.kind = "trigger" → Installed r (owner r)) :
    checkTriggers id names catalog = none ↔ ∀ r ∈ catalog, r.kind = "trigger" →
      ∀ target, r.insteadOf = some target → bytes id <+: bytes (owner r) → target ∈ names := by
  rw [checkTriggers, List.findSome?_eq_none_iff]
  constructor
  · intro none_ r mem trigger target instead front
    obtain ⟨name, named⟩ := (installed r mem trigger).named
    have passed := none_ r ((mem_selected named).2 ⟨mem, front⟩)
    rw [if_pos trigger, instead, Option.bind_some] at passed
    by_contra foreign
    rw [if_neg (by simpa using foreign)] at passed
    cases passed
  · intro own r mem
    split
    case isFalse => rfl
    case isTrue trigger =>
      cases instead : r.insteadOf with
      | none => rfl
      | some target =>
          have listed := (List.mem_filter.1 mem).1
          obtain ⟨name, named⟩ := (installed r listed trigger).named
          have inside := own r listed trigger target instead ((mem_selected named).1 mem).2
          simp [inside]

/-- The plugins `a` and `ab`: a table of the one, a trigger of the other. -/
def tableOfA : CatalogRow := ⟨"p_61__t", "table", none⟩

def triggerOfAb : CatalogRow := ⟨"p_6162__t", "trigger", some "p_6162__v"⟩

theorem verifyRegisteredObjects_isolated_ab :
    verifyRegisteredObjects "a" [("t", "table")] [tableOfA] =
      verifyRegisteredObjects "a" [("t", "table")] [tableOfA, triggerOfAb] := by
  refine verifyRegisteredObjects_isolated fun object mem physical named => ?_
  obtain rfl := List.mem_singleton.1 mem
  obtain rfl : "p_61__t" = physical := Option.some.inj (Eq.trans (by decide +kernel) named)
  decide +kernel

theorem checkTriggers_iff_ab :
    checkTriggers "a" ["p_61__t"] [tableOfA, triggerOfAb] ≠ none := fun passed => by
  have installed : ∀ r ∈ [tableOfA, triggerOfAb], r.kind = "trigger" → Installed r "ab" := by
    intro r mem trigger
    simp only [List.mem_cons, List.not_mem_nil, or_false] at mem
    obtain rfl | rfl := mem
    · exact absurd trigger (by decide)
    · exact ⟨⟨"t", by decide +kernel⟩, fun target instead =>
        ⟨"v", Eq.trans (by decide +kernel) instead⟩⟩
  exact absurd ((checkTriggers_iff (fun _ => "ab") installed).1 passed triggerOfAb (by simp) rfl
    "p_6162__v" rfl (by decide +kernel)) (by decide)

end Kiagent.Db.PluginNamespace
