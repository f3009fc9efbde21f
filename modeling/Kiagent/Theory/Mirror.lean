/-
# Theory.Mirror -- a table that holds one computed row for each row of another

The rows of the first table are found by an identity; `pin` gives each of them its
place in the second, whose row there is `view` of the place and the row.  `Mirrors`
says that the second table holds these rows and no other.  Each lemma is one write of
the first table with the writes of the second that follow it.
-/
import Kiagent.Theory.Table

namespace Kiagent.Theory

set_option autoImplicit false

universe u v w x

variable {ι : Type u} {δ : Type v} {ρ : Type w} {ν : Type x} [DecidableEq ν]
  {key : ρ → ν}

/-- `index` holds `view (pin i) d` for each row `d`, with identity `i`, and no more. -/
structure Mirrors (pin : ι → ν) (view : ν → δ → ρ) (doc : ι → Option δ) (index : Table ρ key) :
    Prop where
  apart : ∀ i j, (doc i).isSome → (doc j).isSome → pin i = pin j → i = j
  there : ∀ i d, doc i = some d → index.find (pin i) = some (view (pin i) d)
  only : ∀ n r, index.find n = some r → ∃ i, (doc i).isSome ∧ pin i = n

namespace Mirrors

variable {pin pin' : ι → ν} {view : ν → δ → ρ} {doc doc' : ι → Option δ}
  {index index' : Table ρ key}

/-- Rows rewritten without a change of their views. -/
theorem congr (mirrors : Mirrors pin view doc index)
    (same : ∀ i, (doc' i).map (view (pin i)) = (doc i).map (view (pin i))) :
    Mirrors pin view doc' index := by
  have present : ∀ i, (doc' i).isSome = (doc i).isSome := fun i => by
    simpa using congrArg Option.isSome (same i)
  refine ⟨fun i j here here' => ?_, fun i d found => ?_, fun n r held => ?_⟩
  · rw [present] at here here'
    exact mirrors.apart i j here here'
  · have viewed := same i
    rw [found, Option.map_some] at viewed
    obtain ⟨old, there, view_eq⟩ := Option.map_eq_some_iff.1 viewed.symm
    rw [mirrors.there i old there, view_eq]
  · obtain ⟨i, here, pinned⟩ := mirrors.only n r held
    exact ⟨i, (present i).trans here, pinned⟩

/-- One row rewritten: its old view goes, its new one comes. -/
theorem rewrite (mirrors : Mirrors pin view doc index) {i : ι} {d : δ} (known : (doc i).isSome) (found : doc' i = some d)
    (same : ∀ j, j ≠ i → (doc' j).map (view (pin j)) = (doc j).map (view (pin j)))
    (written : ∀ n, index'.find n =
      if n = pin i then some (view (pin i) d) else index.find n) :
    Mirrors pin view doc' index' := by
  have present : ∀ j, (doc' j).isSome = (doc j).isSome := fun j => by
    by_cases here : j = i
    · rw [here, found, known]
      rfl
    · simpa using congrArg Option.isSome (same j here)
  refine ⟨fun j k here here' => ?_, fun j e there => ?_, fun n r held => ?_⟩
  · rw [present] at here here'
    exact mirrors.apart j k here here'
  · by_cases here : j = i
    · subst here
      obtain rfl := Option.some.inj (found.symm.trans there)
      rw [written, if_pos rfl]
    · have viewed := same j here
      rw [there, Option.map_some] at viewed
      obtain ⟨old, before, view_eq⟩ := Option.map_eq_some_iff.1 viewed.symm
      have off : pin j ≠ pin i := fun pins =>
        here (mirrors.apart j i (by rw [before]; rfl) known pins)
      rw [written, if_neg off, mirrors.there j old before, view_eq]
  · rw [written] at held
    split at held
    · rename_i pinned
      exact ⟨i, (present i).trans known, pinned.symm⟩
    · obtain ⟨j, here, pinned⟩ := mirrors.only n r held
      exact ⟨j, (present j).trans here, pinned⟩

/-- A new row, pinned to a free place. -/
theorem add (mirrors : Mirrors pin view doc index) {i : ι} {d : δ} (new : doc i = none)
    (found : doc' i = some d) (same : ∀ j, j ≠ i → doc' j = doc j)
    (pins : ∀ j, j ≠ i → pin' j = pin j) (free : ∀ j, (doc j).isSome → pin j ≠ pin' i)
    (written : ∀ n, index'.find n =
      if n = pin' i then some (view (pin' i) d) else index.find n) :
    Mirrors pin' view doc' index' := by
  have old : ∀ {j}, (doc' j).isSome → j ≠ i → (doc j).isSome ∧ pin' j = pin j :=
    fun {j} here other => ⟨same j other ▸ here, pins j other⟩
  refine ⟨fun j k here here' pinned => ?_, fun j e there => ?_, fun n r held => ?_⟩
  · by_cases first : j = i <;> by_cases second : k = i
    · exact first.trans second.symm
    · obtain ⟨known, kept⟩ := old here' second
      exact absurd (kept.symm.trans (pinned.symm.trans (congrArg pin' first))) (free k known)
    · obtain ⟨known, kept⟩ := old here first
      exact absurd (kept.symm.trans (pinned.trans (congrArg pin' second))) (free j known)
    · obtain ⟨known, kept⟩ := old here first
      obtain ⟨known', kept'⟩ := old here' second
      exact mirrors.apart j k known known' (kept.symm.trans (pinned.trans kept'))
  · by_cases here : j = i
    · subst here
      obtain rfl := Option.some.inj (found.symm.trans there)
      rw [written, if_pos rfl]
    · obtain ⟨known, kept⟩ := old (by rw [there]; rfl) here
      rw [written, kept, if_neg (free j known)]
      exact mirrors.there j e (same j here ▸ there)
  · rw [written] at held
    split at held
    · rename_i pinned
      exact ⟨i, by rw [found]; rfl, pinned.symm⟩
    · obtain ⟨j, known, pinned⟩ := mirrors.only n r held
      have other : j ≠ i := fun here => by rw [here, new] at known; cases known
      exact ⟨j, by rwa [same j other], (pins j other).trans pinned⟩

/-- Rows deleted, with the rows at their places. -/
theorem remove (mirrors : Mirrors pin view doc index) (gone : ι → Prop)
    (left : ∀ i, doc' i = doc i ∧ ¬gone i ∨ doc' i = none ∧ ((doc i).isSome → gone i))
    (written : ∀ n, index'.find n = index.find n ∧ (∀ i, (doc i).isSome → pin i = n → ¬gone i) ∨
      index'.find n = none ∧ ∃ i, (doc i).isSome ∧ pin i = n ∧ gone i) :
    Mirrors pin view doc' index' := by
  have stays : ∀ {i}, (doc' i).isSome → doc' i = doc i ∧ ¬gone i := fun {i} here =>
    (left i).resolve_right fun lost => by rw [lost.1] at here; cases here
  refine ⟨fun i j here here' => ?_, fun i d found => ?_, fun n r held => ?_⟩
  · rw [(stays here).1] at here
    rw [(stays here').1] at here'
    exact mirrors.apart i j here here'
  · obtain ⟨same, kept⟩ := stays (i := i) (by rw [found]; rfl)
    have before : doc i = some d := same ▸ found
    have held : index'.find (pin i) = index.find (pin i) := by
      refine ((written (pin i)).resolve_right fun ⟨_, j, known, pinned, lost⟩ => kept ?_).1
      exact mirrors.apart j i known (by rw [before]; rfl) pinned ▸ lost
    rw [held]
    exact mirrors.there i d before
  · rcases written n with ⟨same, kept⟩ | ⟨none, -⟩
    · rw [same] at held
      obtain ⟨i, known, pinned⟩ := mirrors.only n r held
      refine ⟨i, ?_, pinned⟩
      rcases left i with ⟨here, -⟩ | ⟨-, lost⟩
      · rwa [here]
      · exact absurd (lost known) (kept i known pinned)
    · rw [none] at held
      cases held

/-- Places that stay as they are. -/
theorem repin (mirrors : Mirrors pin view doc index)
    (same : ∀ i, (doc i).isSome → pin' i = pin i) : Mirrors pin' view doc index := by
  refine ⟨fun i j here here' pinned => ?_, fun i d found => ?_, fun n r held => ?_⟩
  · rw [same i here, same j here'] at pinned
    exact mirrors.apart i j here here' pinned
  · rw [same i (by rw [found]; rfl)]
    exact mirrors.there i d found
  · obtain ⟨i, here, pinned⟩ := mirrors.only n r held
    exact ⟨i, here, (same i here).trans pinned⟩

/-- A table filled row by row finds the last row put under a key. -/
theorem find_foldl_put (row : δ → ρ) (n : ν) : (docs : List δ) → (t : Table ρ key) →
    (docs.foldl (fun t d => t.put (row d)) t).find n =
      ((docs.reverse.find? fun d => key (row d) = n).map row).or (t.find n)
  | [], t => rfl
  | d :: docs, t => by
      rw [List.foldl_cons, find_foldl_put row n docs, Table.find_put, List.reverse_cons,
        List.find?_append]
      cases docs.reverse.find? fun d => key (row d) = n with
      | some e => rfl
      | none => by_cases here : key (row d) = n <;> simp [here]

/-- A table filled from the rows of the first one mirrors it. -/
theorem rebuild {docs : List δ} {ident : δ → ι} (keyed : ∀ n d, key (view n d) = n)
    (listed : ∀ i d, doc i = some d ↔ d ∈ docs ∧ ident d = i)
    (apart : ∀ i j, (doc i).isSome → (doc j).isSome → pin i = pin j → i = j) :
    Mirrors pin view doc
      (docs.foldl (fun t d => t.put (view (pin (ident d)) d)) (Table.empty : Table ρ key)) := by
  refine ⟨apart, fun i d found => ?_, fun n r held => ?_⟩
  · obtain ⟨mem, rfl⟩ := (listed i d).1 found
    rw [find_foldl_put]
    cases last : docs.reverse.find? fun e => key (view (pin (ident e)) e) = pin (ident d) with
    | none =>
        have off := List.find?_eq_none.1 last d (List.mem_reverse.2 mem)
        simp [keyed] at off
    | some e =>
        have there := (listed (ident e) e).2 ⟨List.mem_reverse.1 (List.mem_of_find?_eq_some last), rfl⟩
        have pins : pin (ident e) = pin (ident d) := by
          have own := List.find?_some last
          simpa [keyed] using own
        have same := apart _ _ (by rw [there]; rfl) (by rw [found]; rfl) pins
        obtain rfl := Option.some.inj (there.symm.trans (same ▸ found))
        rfl
  · rw [find_foldl_put] at held
    cases last : docs.reverse.find? fun e => key (view (pin (ident e)) e) = n with
    | none =>
        rw [last] at held
        cases held
    | some e =>
        have there := (listed (ident e) e).2 ⟨List.mem_reverse.1 (List.mem_of_find?_eq_some last), rfl⟩
        have own := List.find?_some last
        exact ⟨ident e, by rw [there]; rfl, by simpa [keyed] using own⟩

/-- **A table that mirrors holds the computed rows, each once.** -/
theorem perm {docs : List δ} {ident : δ → ι} (mirrors : Mirrors pin view doc index)
    (keyed : ∀ n d, key (view n d) = n) (listed : ∀ d, d ∈ docs ↔ doc (ident d) = some d)
    (owned : ∀ i d, doc i = some d → ident d = i) (nodup : docs.Nodup) :
    index.rows.Perm (docs.map fun d => view (pin (ident d)) d) := by
  have rows : index.rows.Nodup := .of_map _ index.nodup
  have views : (docs.map fun d => view (pin (ident d)) d).Nodup := by
    refine List.Nodup.map_on (fun d mem e mem' same => ?_) nodup
    have found := (listed d).1 mem
    have found' := (listed e).1 mem'
    have pins : pin (ident d) = pin (ident e) := by
      rw [← keyed (pin (ident d)) d, same, keyed]
    have idents := mirrors.apart _ _ (by rw [found]; rfl) (by rw [found']; rfl) pins
    exact Option.some.inj (found.symm.trans (idents ▸ found'))
  refine (List.perm_ext_iff_of_nodup rows views).2 fun r => ?_
  constructor
  · intro mem
    have held := Table.find_of_mem mem
    obtain ⟨i, known, pinned⟩ := mirrors.only _ r held
    obtain ⟨d, found⟩ := Option.isSome_iff_exists.1 known
    obtain rfl := owned i d found
    have stored := mirrors.there _ d found
    rw [pinned, held] at stored
    refine List.mem_map.2 ⟨d, (listed d).2 found, ?_⟩
    rw [pinned]
    exact (Option.some.inj stored).symm
  · intro mem
    obtain ⟨d, there, rfl⟩ := List.mem_map.1 mem
    exact Table.find_mem (mirrors.there _ d ((listed d).1 there))

end Mirrors

end Kiagent.Theory
