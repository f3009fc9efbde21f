/-
# Attention.Validate -- what an attention item must look like

`validateAttentionItem` is asked about every item a producer publishes and about
every stored payload that is read back, each time under the policy of that
moment: a payload that was valid when it was stored need not be so later.

A producer id is two dotted words without a colon, and an item id starts with
its producer's id and a colon.  So an item id has one producer
(`producer_unique`); that is what keeps producers out of each other's items.
-/
import Mathlib

namespace Kiagent.Attention

set_option autoImplicit false

/-! ## Items -/

inductive AttentionKind where
  | waiting
  | happening
  | upcoming
  deriving DecidableEq

inductive AttentionState where
  | opened
  | resolved
  | expired
  deriving DecidableEq

inductive AttentionResolvedBy where
  | producer
  | user
  deriving DecidableEq

inductive PersonKind where
  | email
  | chatHandle
  | speaker
  deriving DecidableEq

structure ActionTarget where
  view : String
  params : Option (List (String × String))
  deriving DecidableEq

structure AttentionActionWire where
  id : String
  label : String
  target : ActionTarget
  deriving DecidableEq

structure AttentionPersonWire where
  kind : PersonKind
  personNamespace : Option String
  value : String
  deriving DecidableEq

/-- Times are finite doubles, so rationals; a revision is an integer. -/
structure AttentionItemWire where
  id : String
  producer : String
  kind : AttentionKind
  title : String
  detail : Option String
  priority : Int
  dueAt : Option Rat
  expiresAt : Option Rat
  createdAt : Rat
  updatedAt : Rat
  revision : Int
  state : AttentionState
  resolvedBy : Option AttentionResolvedBy
  actions : List AttentionActionWire
  people : Option (List AttentionPersonWire)
  deriving DecidableEq

/-- A value from outside: a producer's raw item, or what a stored text parses to.
`other` has not the fields of an item, with their types; it may have an `id`, and
`message` is what the check or the parser that meets it throws. -/
inductive Wire where
  | item (fields : AttentionItemWire)
  | other (id message : String)
  deriving DecidableEq

structure AttentionActionPolicy where
  views : List String
  paramKeys : List String

/-- The policy, and the runtime's `String.prototype.toLowerCase`. -/
structure Checks where
  policy : AttentionActionPolicy
  toLowerCase : String → String

/-! ## The checks -/

/-- `[a-z0-9-]` -/
def idChar (c : Char) : Bool := ('a' ≤ c && c ≤ 'z') || ('0' ≤ c && c ≤ '9') || c = '-'

/-- `[a-z0-9._:-]` -/
def longIdChar (c : Char) : Bool := idChar c || c = '.' || c = '_' || c = ':'

def startsWith (s start : String) : Bool := start.toList.isPrefixOf s.toList

/-- `PRODUCER_ID_RE = /^[a-z0-9-]+\.[a-z0-9-]+$/` -/
def validProducer (value : String) : Bool :=
  match value.toList.takeWhile idChar, value.toList.dropWhile idChar with
  | _ :: _, '.' :: c :: rest => (c :: rest).all idChar
  | _, _ => false

def validItemId (value producer : String) : Bool :=
  value.toList.length ≤ 120 && !value.toList.isEmpty && value.toList.all longIdChar &&
    startsWith value (producer ++ ":")

def safeText (value : String) (max : Nat) : Bool :=
  value.toList.length ≤ max && value.toList.all fun c =>
    !(c.toNat < 32 || c.toNat = 127 || c.toNat = 0x2028 || c.toNat = 0x2029)

def validTimestamp (value : Option Rat) : Bool := value.all fun t => 0 ≤ t

/-- `Number.isSafeInteger`, of an integer. -/
def isSafeInteger (value : Int) : Bool := -(2 ^ 53 - 1) ≤ value && value ≤ 2 ^ 53 - 1

def validateAction (input : AttentionActionWire) (policy : AttentionActionPolicy) :
    Except String AttentionActionWire :=
  if input.id.toList.isEmpty || 64 < input.id.toList.length || !input.id.toList.all longIdChar ||
      input.label.isEmpty || !safeText input.label 24 ||
      !policy.views.contains input.target.view then
    .error "invalid attention action"
  else if input.target.params.any fun params => params.any fun (key, value) =>
      !policy.paramKeys.contains key || !safeText value 200 then
    .error "invalid attention params"
  else .ok input

def validatePerson (input : AttentionPersonWire) (toLowerCase : String → String) :
    Except String AttentionPersonWire :=
  if input.value.isEmpty || !safeText input.value 200 ||
      (input.kind = .email && input.value ≠ toLowerCase input.value) ||
      (input.personNamespace.any fun name => !safeText name 80) ||
      (input.kind ≠ .email && input.personNamespace.all String.isEmpty) then
    .error "invalid attention person"
  else .ok input

/-- The loop over `actions`; `seen` are the ids before. -/
def validateActions (policy : AttentionActionPolicy) (seen : List String) :
    List AttentionActionWire → Except String (List AttentionActionWire)
  | [] => .ok []
  | input :: rest => do
      let action ← validateAction input policy
      if seen.contains action.id then .error "duplicate attention action"
      else do
        let actions ← validateActions policy (action.id :: seen) rest
        .ok (action :: actions)

def validatePeople (toLowerCase : String → String) :
    List AttentionPersonWire → Except String (List AttentionPersonWire)
  | [] => .ok []
  | input :: rest => do
      let person ← validatePerson input toLowerCase
      let people ← validatePeople toLowerCase rest
      .ok (person :: people)

/-- The conditions of `validateAttentionItem` on the item's own fields. -/
def validFields (input : AttentionItemWire) : Bool :=
  validProducer input.producer && validItemId input.id input.producer &&
    !input.title.isEmpty && safeText input.title 80 &&
    (input.detail.all fun detail => safeText detail 160) &&
    (input.priority = 1 || input.priority = 2 || input.priority = 3) &&
    validTimestamp input.dueAt && validTimestamp input.expiresAt &&
    validTimestamp input.createdAt && validTimestamp input.updatedAt &&
    isSafeInteger input.revision && 0 < input.revision &&
    !(input.state = .opened && input.resolvedBy ≠ none) &&
    !(input.state = .resolved && input.resolvedBy = none) &&
    !(input.state = .expired && input.resolvedBy ≠ none) &&
    input.actions.length ≤ 3 && (input.people.all fun people => people.length ≤ 8)

def validateAttentionItem (input : Wire) (c : Checks) : Except String AttentionItemWire :=
  match input with
  | .other _ message => .error message
  | .item fields => do
      if !validFields fields then .error "invalid attention item"
      else do
        let copiedActions ← validateActions c.policy [] fields.actions
        match fields.people with
        | none => .ok { fields with actions := copiedActions }
        | some people => do
            let copiedPeople ← validatePeople c.toLowerCase people
            .ok { fields with actions := copiedActions, people := some copiedPeople }

structure Rejected where
  id : String
  reason : String
  deriving DecidableEq

def safeItemId : Wire → String
  | .item fields => fields.id
  | .other id _ => id

/-- The loop of `validateBatch`; `seen` are the ids that were valid before. -/
def validateItems (c : Checks) (producer : String) (seen : List String) :
    List Wire → List AttentionItemWire × List Rejected
  | [] => ([], [])
  | raw :: rest =>
      match validateAttentionItem raw c with
      | .error reason =>
          let tail := validateItems c producer seen rest
          (tail.1, ⟨safeItemId raw, reason⟩ :: tail.2)
      | .ok item =>
          if item.producer ≠ producer || seen.contains item.id then
            let tail := validateItems c producer seen rest
            (tail.1, ⟨safeItemId raw, "producer or duplicate id mismatch"⟩ :: tail.2)
          else
            let tail := validateItems c producer (item.id :: seen) rest
            (item :: tail.1, tail.2)

/-- `none` is a batch that is not an array. -/
def validateBatch (c : Checks) (producer : String) (rawItems : Option (List Wire)) :
    List AttentionItemWire × List Rejected :=
  match rawItems with
  | none => ([], [⟨"", "invalid attention batch"⟩])
  | some items =>
      if !validProducer producer then ([], [⟨"", "invalid producer or batch"⟩])
      else validateItems c producer [] items

/-! ## What a valid item is -/

theorem bind_eq_ok {ε α β : Type} {x : Except ε α} {f : α → Except ε β} {b : β} :
    (x >>= f) = .ok b ↔ ∃ a, x = .ok a ∧ f a = .ok b := by
  cases x with
  | error e =>
      constructor
      · intro h
        cases h
      · rintro ⟨_, h, _⟩
        cases h
  | ok a =>
      constructor
      · intro h
        exact ⟨a, rfl, h⟩
      · rintro ⟨_, h, next⟩
        cases h
        exact next

theorem validateAction_eq {input action : AttentionActionWire} {policy : AttentionActionPolicy}
    (valid : validateAction input policy = .ok action) : action = input := by
  unfold validateAction at valid
  split at valid
  · cases valid
  · split at valid
    · cases valid
    · exact (Except.ok.inj valid).symm

theorem validatePerson_eq {input person : AttentionPersonWire} {toLowerCase : String → String}
    (valid : validatePerson input toLowerCase = .ok person) : person = input := by
  unfold validatePerson at valid
  split at valid
  · cases valid
  · exact (Except.ok.inj valid).symm

theorem validateActions_eq {policy : AttentionActionPolicy} :
    {inputs actions : List AttentionActionWire} → {seen : List String} →
    validateActions policy seen inputs = .ok actions → actions = inputs
  | [], _, _, valid => (Except.ok.inj valid).symm
  | input :: rest, _, seen, valid => by
      obtain ⟨action, first, valid⟩ := bind_eq_ok.1 valid
      split at valid
      · cases valid
      · obtain ⟨actions, tail, valid⟩ := bind_eq_ok.1 valid
        rw [← Except.ok.inj valid, validateAction_eq first, validateActions_eq tail]

theorem validatePeople_eq {toLowerCase : String → String} :
    {inputs people : List AttentionPersonWire} →
    validatePeople toLowerCase inputs = .ok people → people = inputs
  | [], _, valid => (Except.ok.inj valid).symm
  | input :: rest, _, valid => by
      obtain ⟨person, first, valid⟩ := bind_eq_ok.1 valid
      obtain ⟨people, tail, valid⟩ := bind_eq_ok.1 valid
      rw [← Except.ok.inj valid, validatePerson_eq first, validatePeople_eq tail]

/-- A valid value is an item, is returned field by field, and has valid fields. -/
theorem validateAttentionItem_eq {input : Wire} {c : Checks} {item : AttentionItemWire}
    (valid : validateAttentionItem input c = .ok item) :
    input = .item item ∧ validFields item = true := by
  cases input with
  | other id message => cases valid
  | item fields =>
      unfold validateAttentionItem at valid
      dsimp only at valid
      split at valid
      · cases valid
      · rename_i held
        obtain ⟨actions, copied, valid⟩ := bind_eq_ok.1 valid
        obtain rfl := validateActions_eq copied
        have same : fields = item := by
          split at valid
          · exact Except.ok.inj valid
          · rename_i people given
            obtain ⟨copies, copied, valid⟩ := bind_eq_ok.1 valid
            rw [validatePeople_eq copied, ← given] at valid
            exact Except.ok.inj valid
        subst same
        exact ⟨rfl, by simpa using held⟩

theorem validFields_producer {item : AttentionItemWire} (valid : validFields item = true) :
    validProducer item.producer = true ∧ startsWith item.id (item.producer ++ ":") = true := by
  simp only [validFields, validItemId, Bool.and_eq_true] at valid
  exact ⟨valid.1.1.1.1.1.1.1.1.1.1.1.1.1.1.1.1, by simp_all⟩

/-- What a batch lets through is valid and of its producer. -/
theorem validateItems_valid {c : Checks} {producer : String} {item : AttentionItemWire} :
    {raws : List Wire} → {seen : List String} →
    item ∈ (validateItems c producer seen raws).1 →
      Wire.item item ∈ raws ∧ item.producer = producer ∧ validFields item = true
  | [], _, mem => by cases mem
  | raw :: rest, seen, mem => by
      have later : {seen : List String} → item ∈ (validateItems c producer seen rest).1 →
          Wire.item item ∈ raw :: rest ∧ item.producer = producer ∧ validFields item = true := by
        intro seen mem
        exact (validateItems_valid mem).imp_left (List.mem_cons_of_mem _)
      unfold validateItems at mem
      split at mem
      · exact later mem
      · rename_i first valid
        split at mem
        · exact later mem
        · rename_i accepted
          obtain ⟨rfl, fields⟩ := validateAttentionItem_eq valid
          rcases List.mem_cons.1 mem with rfl | mem
          · simp only [Bool.or_eq_true, decide_eq_true_eq, not_or, not_not] at accepted
            exact ⟨List.mem_cons_self .., accepted.1, fields⟩
          · exact later mem

theorem validateBatch_valid {c : Checks} {producer : String} {rawItems : Option (List Wire)}
    {item : AttentionItemWire} (mem : item ∈ (validateBatch c producer rawItems).1) :
    ∃ raws, rawItems = some raws ∧ Wire.item item ∈ raws ∧ item.producer = producer ∧
      validFields item = true := by
  unfold validateBatch at mem
  split at mem
  · cases mem
  · rename_i raws
    split at mem
    · cases mem
    · exact ⟨raws, rfl, validateItems_valid mem⟩

theorem validateBatch_producer {c : Checks} {producer : String} {rawItems : Option (List Wire)}
    (accepted : (validateBatch c producer rawItems).2 = []) : validProducer producer = true := by
  unfold validateBatch at accepted
  split at accepted
  · cases accepted
  · split at accepted
    · cases accepted
    · rename_i valid
      simpa using valid

/-! ## One producer per id -/

theorem validProducer_colon {producer : String} (valid : validProducer producer = true) :
    ':' ∉ producer.toList := by
  have plain : ∀ l : List Char, l.all idChar = true → ':' ∉ l := by
    intro l all mem
    have colon := List.all_eq_true.1 all _ mem
    revert colon
    decide
  unfold validProducer at valid
  split at valid
  · rename_i before after
    rw [← List.takeWhile_append_dropWhile (p := idChar) (l := producer.toList), after]
    intro mem
    rcases List.mem_append.1 mem with mem | mem
    · exact plain _ List.all_takeWhile mem
    · rcases List.mem_cons.1 mem with dot | mem
      · revert dot
        decide
      · exact plain _ valid mem
  · cases valid

/-- An item id starts with the id of one producer only. -/
theorem producer_unique {id producer other : String} (valid : validProducer producer = true)
    (valid' : validProducer other = true) (starts : startsWith id (producer ++ ":") = true)
    (starts' : startsWith id (other ++ ":") = true) : producer = other := by
  -- of two prefixes of one text one is a prefix of the other; a proper one would
  -- bring its colon into the longer producer id
  have step : ∀ p q : List Char, ':' ∉ q → p ++ [':'] <+: q ++ [':'] → p = q := by
    intro p q plain before
    rcases List.prefix_concat_iff.1 before with same | inside
    · exact (List.append_inj' same rfl).1
    · exact absurd (inside.subset (by simp)) plain
  simp only [startsWith, String.toList_append, List.isPrefixOf_iff_prefix] at starts starts'
  have colon : ":".toList = [':'] := rfl
  rw [colon] at starts starts'
  apply String.toList_injective
  rcases List.prefix_or_prefix_of_prefix starts starts' with before | before
  · exact step _ _ (validProducer_colon valid') before
  · exact (step _ _ (validProducer_colon valid) before).symm

end Kiagent.Attention
