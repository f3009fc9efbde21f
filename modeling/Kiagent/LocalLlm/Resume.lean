/-
# LocalLlm.Resume -- what attempts to download leave behind

An attempt may die between any two writes, and a server may answer anything.  `Cut` is every
state one file can be left in: what its `.part` was, what was there with some of what arrived,
nothing, or the file itself with the expected hash.  No file reads or writes another's
(`downloadAll_cut`).

A `.part` that is wrong and shorter than the file is found out only when the file is complete,
and ends the attempt.  So a correct server completes the model once every such `.part` has
cost an attempt (`completes`), and no sooner (`two_wrong_parts`).
-/
import Kiagent.LocalLlm.Downloader

namespace Kiagent.LocalLlm

set_option autoImplicit false

/-! ## The writes of one file -/

theorem ModelFile.name_ne_partName (f : ModelFile) : f.name ≠ f.partName := by
  intro same
  have lengths := congrArg String.length same
  unfold ModelFile.partName at lengths
  rw [String.length_append] at lengths
  have tail : (".part" : String).length = 5 := by decide
  omega

namespace Disk

theorem applyAll_append (d : Disk) (first last : List Write) :
    d.applyAll (first ++ last) = (d.applyAll first).applyAll last := List.foldl_append ..

def setPart (d : Disk) (f : ModelFile) (part : Option Bytes) : Disk :=
  Function.update d f.partName part

/-- The `.part` has become the file. -/
def place (d : Disk) (f : ModelFile) (bytes : Bytes) : Disk :=
  Function.update (Function.update d f.name (some bytes)) f.partName none

variable (d : Disk) (f : ModelFile)

@[simp] theorem setPart_partName (part : Option Bytes) : d.setPart f part f.partName = part :=
  Function.update_self ..

@[simp] theorem setPart_name (part : Option Bytes) : d.setPart f part f.name = d f.name :=
  Function.update_of_ne f.name_ne_partName ..

@[simp] theorem place_partName (bytes : Bytes) : d.place f bytes f.partName = none :=
  Function.update_self ..

@[simp] theorem place_name (bytes : Bytes) : d.place f bytes f.name = some bytes := by
  rw [place, Function.update_of_ne f.name_ne_partName, Function.update_self]

theorem setPart_setPart (part part' : Option Bytes) :
    (d.setPart f part).setPart f part' = d.setPart f part' := Function.update_idem ..

theorem setPart_same (part : Option Bytes) (here : d f.partName = part) : d.setPart f part = d := by
  rw [setPart, ← here, Function.update_eq_self]

theorem place_setPart (part : Option Bytes) (bytes : Bytes) :
    (d.setPart f part).place f bytes = d.place f bytes := by
  unfold place setPart
  rw [Function.update_comm f.name_ne_partName.symm, Function.update_idem]

/-- The bytes that arrive, one after the other. -/
theorem applyAll_bytes (old bytes : Bytes) (here : d f.partName = some old) :
    d.applyAll (bytes.map (.append f.partName)) = d.setPart f (some (old ++ bytes)) := by
  induction bytes generalizing d old with
  | nil =>
      rw [List.append_nil, setPart_same d f _ here]
      rfl
  | cons b bytes ih =>
      have first : d.apply (.append f.partName b) = d.setPart f (some (old ++ [b])) := by
        simp [apply, here, setPart]
      show (d.apply _).applyAll _ = _
      rw [first, ih _ (old ++ [b]) (by simp), setPart_setPart, List.append_assoc]
      rfl

theorem apply_rename (bytes : Bytes) (here : d f.partName = some bytes) :
    d.apply (.rename f.partName f.name) = d.place f bytes := by
  simp [apply, place, here]

end Disk

/-! ## Where one file can be left -/

/-- Bytes arrive to be put after `old`. -/
inductive Sent (f : ModelFile) (d : Disk) (server : Option Nat → Answer) : Bytes → Body → Prop where
  | continued {old : Bytes} {res : Response} {body : Body} (here : d f.partName = some old)
      (some_left : 0 < old.length) (short : old.length < f.sizeBytes)
      (answer : server (some old.length) = .response res) (status : res.status = 206)
      (has : res.body = some body) : Sent f d server old body
  | fresh {start : Option Nat} {res : Response} {body : Body}
      (answer : server start = .response res)
      (asked : (start = none ∧
          ∀ old, d f.partName = some old → old = [] ∨ f.sizeBytes ≤ old.length) ∨
        ∃ old, d f.partName = some old ∧ 0 < old.length ∧ start = some old.length ∧
          res.status ≠ 206)
      (ok : 200 ≤ res.status ∧ res.status ≤ 299) (has : res.body = some body) :
      Sent f d server [] body

variable (sha256 : Bytes → String)

inductive Cut (f : ModelFile) (d : Disk) (server : Option Nat → Answer) : Disk → Prop where
  | untouched : Cut f d server d
  | cleared {bytes : Bytes} (here : d f.partName = some bytes) (full : f.sizeBytes ≤ bytes.length)
      (wrong : sha256 bytes ≠ f.sha256) : Cut f d server (d.setPart f none)
  | grown {old : Bytes} {body : Body} (sent : Sent f d server old body) (k : Nat) :
      Cut f d server (d.setPart f (some (old ++ body.bytes.take k)))
  | dropped {old : Bytes} {body : Body} (sent : Sent f d server old body)
      (enough : f.sizeBytes ≤ (old ++ body.bytes).length)
      (wrong : sha256 (old ++ body.bytes) ≠ f.sha256) : Cut f d server (d.setPart f none)
  | placed {old : Bytes} {body : Body} (sent : Sent f d server old body)
      (enough : f.sizeBytes ≤ (old ++ body.bytes).length)
      (right : sha256 (old ++ body.bytes) = f.sha256) :
      Cut f d server (d.place f (old ++ body.bytes))
  | settled {bytes : Bytes} (here : d f.partName = some bytes)
      (full : f.sizeBytes ≤ bytes.length) (right : sha256 bytes = f.sha256) :
      Cut f d server (d.place f bytes)

section OneFile

variable {sha256} {f : ModelFile} {d : Disk} {old : Bytes} {append : Bool} {body : Body}

/-- The file is opened for what is put after `old`. -/
def Opened (f : ModelFile) (d : Disk) (append : Bool) (old : Bytes) : Prop :=
  if append then d f.partName = some old else old = []

theorem applyAll_bodyWrites (opened : Opened f d append old) (bytes : Bytes) :
    d.applyAll (bodyWrites f append bytes) = d.setPart f (some (old ++ bytes)) := by
  unfold Opened at opened
  unfold bodyWrites
  cases append with
  | true => exact d.applyAll_bytes f old bytes opened
  | false =>
      obtain rfl : old = [] := by simpa using opened
      have created : d.applyAll [.create f.partName] = d.setPart f (some []) := rfl
      rw [if_neg Bool.false_ne_true, Disk.applyAll_append, created,
        Disk.applyAll_bytes _ f [] bytes (by simp), Disk.setPart_setPart]

theorem applyAll_bodyWrites_take (opened : Opened f d append old) (bytes : Bytes) (n : Nat) :
    d.applyAll ((bodyWrites f append bytes).take n) = d ∨
      ∃ k, d.applyAll ((bodyWrites f append bytes).take n) =
        d.setPart f (some (old ++ bytes.take k)) := by
  cases append with
  | true =>
      refine Or.inr ⟨n, ?_⟩
      rw [← applyAll_bodyWrites opened]
      simp [bodyWrites, List.map_take]
  | false =>
      cases n with
      | zero => exact Or.inl rfl
      | succ n =>
          refine Or.inr ⟨n, ?_⟩
          rw [← applyAll_bodyWrites opened]
          simp [bodyWrites, List.map_take]

/-- How the writes of an answer with a body end. -/
theorem receive_eq (opened : Opened f d append old) (base : Nat) :
    ∃ e, receive sha256 f d base append body =
      match body.fault with
      | some _ => ⟨bodyWrites f append body.bytes, .error e⟩
      | none =>
          if (old ++ body.bytes).length < f.sizeBytes then
            ⟨bodyWrites f append body.bytes, .error e⟩
          else if sha256 (old ++ body.bytes) ≠ f.sha256 then
            ⟨bodyWrites f append body.bytes ++ [.remove f.partName], .error e⟩
          else ⟨bodyWrites f append body.bytes ++ [.rename f.partName f.name],
            .ok (base + f.sizeBytes)⟩ := by
  have all := applyAll_bodyWrites opened body.bytes
  have size : (d.applyAll (bodyWrites f append body.bytes)).fileSize f.partName =
      (old ++ body.bytes).length := by
    rw [all, Disk.fileSize, Disk.setPart_partName]
    rfl
  have content : ((d.applyAll (bodyWrites f append body.bytes)) f.partName).getD [] =
      old ++ body.bytes := by
    rw [all, Disk.setPart_partName]
    rfl
  unfold receive
  dsimp only
  rw [size, content]
  cases body.fault with
  | some fault => exact ⟨_, rfl⟩
  | none =>
      dsimp only
      split
      · exact ⟨_, rfl⟩
      · split
        · exact ⟨_, rfl⟩
        · exact ⟨⟨none, ""⟩, rfl⟩

variable {server : Option Nat → Answer}

theorem Cut.of_nothing (result : Except DownloadError Nat) (n : Nat) :
    Cut sha256 f d server (d.applyAll ((Ran.mk [] result).writes.take n)) := by
  cases n <;> exact .untouched

/-- A last write after those of the body. -/
theorem applyAll_take_last (P : Disk → Prop) (writes : List Write) (last : Write)
    (before : ∀ n, P (d.applyAll (writes.take n))) (whole : P ((d.applyAll writes).apply last))
    (n : Nat) : P (d.applyAll ((writes ++ [last]).take n)) := by
  by_cases inside : n ≤ writes.length
  · rw [List.take_append_of_le_length inside]
    exact before n
  · rw [List.take_of_length_le (by simp; omega), Disk.applyAll_append]
    exact whole

theorem receive_cut (opened : Opened f d append old) (sent : Sent f d server old body)
    (base n : Nat) :
    Cut sha256 f d server (d.applyAll ((receive sha256 f d base append body).writes.take n)) := by
  obtain ⟨e, is⟩ := @receive_eq sha256 f d old append body opened base
  have inside : ∀ n, Cut sha256 f d server
      (d.applyAll ((bodyWrites f append body.bytes).take n)) := by
    intro n
    rcases applyAll_bodyWrites_take opened body.bytes n with same | ⟨k, same⟩
    · rw [same]
      exact .untouched
    · rw [same]
      exact .grown sent k
  have all := applyAll_bodyWrites opened body.bytes
  rw [is]
  cases body.fault with
  | some fault => exact inside n
  | none =>
      dsimp only
      split
      · exact inside n
      · rename_i enough
        split
        · rename_i wrong
          refine applyAll_take_last _ _ _ inside ?_ n
          have removed : (d.setPart f (some (old ++ body.bytes))).apply (.remove f.partName) =
              (d.setPart f (some (old ++ body.bytes))).setPart f none := rfl
          rw [all, removed, Disk.setPart_setPart]
          exact .dropped sent (not_lt.mp enough) wrong
        · rename_i right
          refine applyAll_take_last _ _ _ inside ?_ n
          rw [all, Disk.apply_rename _ f (old ++ body.bytes) (by simp), Disk.place_setPart]
          exact .placed sent (not_lt.mp enough) (not_not.mp right)

theorem transfer_cut {start : Nat} (size : start = d.fileSize f.partName)
    (short : 0 < start → start < f.sizeBytes) (base n : Nat) :
    Cut sha256 f d server (d.applyAll ((transfer sha256 f d base start
      (server (if start > 0 then some start else none))).writes.take n)) := by
  cases answer : server (if start > 0 then some start else none) with
  | failed fault => exact .of_nothing _ n
  | response res =>
      cases has : res.body with
      | none => simp only [transfer, has]; exact .of_nothing (.ok 0) n
      | some body =>
          simp only [transfer, has]
          by_cases ok : 200 ≤ res.status ∧ res.status ≤ 299
          · rw [if_neg (not_not.mpr ok)]
            have received : Cut sha256 f d server (d.applyAll ((receive sha256 f d base
                (decide (start > 0 ∧ res.status = 206)) body).writes.take n)) := by
              by_cases append : start > 0 ∧ res.status = 206
              · obtain ⟨old, here⟩ : ∃ old, d f.partName = some old := by
                  cases here : d f.partName with
                  | none => simp [Disk.fileSize, here] at size; omega
                  | some old => exact ⟨old, rfl⟩
                have length : start = old.length := by simp [size, Disk.fileSize, here]
                rw [if_pos append.1, length] at answer
                exact receive_cut (by simpa [Opened, append] using here)
                  (.continued here (length ▸ append.1) (length ▸ short append.1) answer append.2
                    has) base n
              · refine receive_cut (show Opened f d _ [] by simp [Opened, append])
                  (.fresh answer ?_ ok has) base n
                by_cases positive : start > 0
                · rw [if_pos positive]
                  cases here : d f.partName with
                  | none => simp [Disk.fileSize, here] at size; omega
                  | some old =>
                      have length : start = old.length := by simp [size, Disk.fileSize, here]
                      exact Or.inr ⟨old, rfl, length ▸ positive, congrArg some length,
                        fun status => append ⟨positive, status⟩⟩
                · refine Or.inl ⟨if_neg positive, fun old here => Or.inl ?_⟩
                  rw [← List.length_eq_zero_iff]
                  simpa [size, Disk.fileSize, here] using positive
            cases res.contentRange with
            | none => exact received
            | some cr =>
                dsimp only
                split
                · exact .of_nothing _ n
                · exact received
          · rw [if_pos ok]
            exact .of_nothing _ n

/-- After a wrong `.part` was cleared there is none. -/
theorem Cut.of_cleared {bytes : Bytes} (here : d f.partName = some bytes)
    (full : f.sizeBytes ≤ bytes.length) (wrong : sha256 bytes ≠ f.sha256) {c : Disk}
    (cut : Cut sha256 f (d.setPart f none) server c) : Cut sha256 f d server c := by
  have anew : ∀ {old body}, Sent f (d.setPart f none) server old body →
      Sent f d server old body := by
    intro old body sent
    cases sent with
    | continued here => simp at here
    | fresh answer asked ok has =>
        rcases asked with ⟨none, -⟩ | ⟨old, here, -⟩
        · refine .fresh answer (Or.inl ⟨none, fun old here' => Or.inr ?_⟩) ok has
          cases here.symm.trans here'
          exact full
        · simp at here
  cases cut with
  | untouched => exact .cleared here full wrong
  | cleared here => simp at here
  | grown sent k => rw [Disk.setPart_setPart]; exact .grown (anew sent) k
  | dropped sent enough wrong => rw [Disk.setPart_setPart]; exact .dropped (anew sent) enough wrong
  | placed sent enough right => rw [Disk.place_setPart]; exact .placed (anew sent) enough right
  | settled here => simp at here

/-- **A file is left as one of these**, whenever the process dies. -/
theorem downloadOne_cut (sha256 : Bytes → String) (f : ModelFile) (d : Disk)
    (server : Option Nat → Answer) (base n : Nat) :
    Cut sha256 f d server
      (d.applyAll ((downloadOne sha256 f d base server).writes.take n)) := by
  unfold downloadOne
  dsimp only
  split
  · rename_i full
    cases here : d f.partName with
    | none => exact .of_nothing _ n
    | some bytes =>
        have length : f.sizeBytes ≤ bytes.length := by simpa [Disk.fileSize, here] using full
        dsimp only
        split
        · rename_i right
          cases n with
          | zero => exact .untouched
          | succ n =>
              have renamed := d.apply_rename f bytes here
              rw [List.take_succ_cons, List.take_nil]
              exact (show d.applyAll [.rename f.partName f.name] = _ from renamed) ▸
                .settled here length right
        · rename_i wrong
          cases n with
          | zero => exact .untouched
          | succ n =>
              have none_left : (d.setPart f none).fileSize f.partName = 0 := by
                simp [Disk.fileSize]
              have rest := @transfer_cut sha256 f (d.setPart f none) server 0 none_left.symm
                nofun base n
              exact .of_cleared here length wrong rest
  · rename_i short
    exact transfer_cut rfl (fun _ => not_le.mp short) base n

/-! ## Each file by itself -/

/-- Two disks with the same file and the same `.part`. -/
def Agree (f : ModelFile) (d d' : Disk) : Prop :=
  d' f.name = d f.name ∧ d' f.partName = d f.partName

theorem Agree.refl (f : ModelFile) (d : Disk) : Agree f d d := ⟨rfl, rfl⟩

theorem Agree.trans {d d' d'' : Disk} (first : Agree f d d') (next : Agree f d' d'') :
    Agree f d d'' := ⟨next.1.trans first.1, next.2.trans first.2⟩

theorem Agree.setPart {d d' : Disk} (same : Agree f d d') (part : Option Bytes) :
    Agree f (d.setPart f part) (d'.setPart f part) := ⟨by simp [same.1], by simp⟩

theorem Agree.place {d d' : Disk} (bytes : Bytes) :
    Agree f (d.place f bytes) (d'.place f bytes) := ⟨by simp, by simp⟩

/-- Where a file can be left is told by its own two names. -/
theorem Cut.agree {d d' c : Disk} (same : Agree f d d') (cut : Cut sha256 f d' server c) :
    ∃ c', Cut sha256 f d server c' ∧ Agree f c' c := by
  have moved : ∀ {old body}, Sent f d' server old body → Sent f d server old body := by
    intro old body sent
    cases sent with
    | continued here positive short answer status has =>
        exact .continued (same.2 ▸ here) positive short answer status has
    | fresh answer asked ok has =>
        rw [same.2] at asked
        exact .fresh answer asked ok has
  cases cut with
  | untouched => exact ⟨d, .untouched, same⟩
  | cleared here full wrong => exact ⟨_, .cleared (same.2 ▸ here) full wrong, same.setPart none⟩
  | grown sent k => exact ⟨_, .grown (moved sent) k, same.setPart _⟩
  | dropped sent enough wrong => exact ⟨_, .dropped (moved sent) enough wrong, same.setPart _⟩
  | placed sent enough right => exact ⟨_, .placed (moved sent) enough right, .place _⟩
  | settled here full right => exact ⟨_, .settled (same.2 ▸ here) full right, .place _⟩

theorem Cut.frame {c : Disk} (cut : Cut sha256 f d server c) {name : String}
    (other : name ≠ f.name ∧ name ≠ f.partName) : c name = d name := by
  have set : ∀ part, d.setPart f part name = d name := fun part =>
    Function.update_of_ne other.2 ..
  have placed : ∀ bytes, d.place f bytes name = d name := by
    intro bytes
    rw [Disk.place, Function.update_of_ne other.2, Function.update_of_ne other.1]
  cases cut with
  | untouched => rfl
  | cleared | grown | dropped => exact set _
  | placed | settled => exact placed _

end OneFile

variable {sha256} (server : ModelFile → Option Nat → Answer)

/-- The rest of the loop, after a file. -/
theorem downloadAll_cons (f : ModelFile) (files : List ModelFile) (d : Disk) (base : Nat)
    (P : Disk → Prop) (skipped : Done d f → ∀ n,
      P (d.applyAll ((downloadAll sha256 server files d base).writes.take n)))
    (inside : ∀ n, P (d.applyAll ((downloadOne sha256 f d base (server f)).writes.take n)))
    (after : ∀ base' n, P ((d.applyAll (downloadOne sha256 f d base (server f)).writes).applyAll
      ((downloadAll sha256 server files
        (d.applyAll (downloadOne sha256 f d base (server f)).writes) base').writes.take n)))
    (n : Nat) : P (d.applyAll ((downloadAll sha256 server (f :: files) d base).writes.take n)) := by
  rw [downloadAll]
  split
  · exact skipped ‹_› n
  · dsimp only
    cases result : (downloadOne sha256 f d base (server f)).result with
    | error e => exact inside n
    | ok received =>
        dsimp only
        by_cases early : n ≤ (downloadOne sha256 f d base (server f)).writes.length
        · rw [List.take_append_of_le_length early]
          exact inside n
        · rw [List.take_append, List.take_of_length_le (by omega), Disk.applyAll_append]
          exact after received _

theorem downloadAll_frame (name : String) (files : List ModelFile)
    (other : ∀ f ∈ files, name ≠ f.name ∧ name ≠ f.partName) (d : Disk) (base n : Nat) :
    (d.applyAll ((downloadAll sha256 server files d base).writes.take n)) name = d name := by
  induction files generalizing d base n with
  | nil => cases n <;> rfl
  | cons f files ih =>
      have here := other f List.mem_cons_self
      have rest := ih fun g member => other g (List.mem_cons_of_mem _ member)
      refine downloadAll_cons server f files d base (fun c => c name = d name)
        (fun _ n => rest d base n)
        (fun n => (downloadOne_cut sha256 f d (server f) base n).frame here)
        (fun base' n => ?_) n
      have whole := (downloadOne_cut sha256 f d (server f) base
        (downloadOne sha256 f d base (server f)).writes.length).frame here
      rw [List.take_length] at whole
      rw [rest, whole]

/-- Two files of a model share no name. -/
def Apart (f g : ModelFile) : Prop :=
  f.name ≠ g.name ∧ f.name ≠ g.partName ∧ f.partName ≠ g.name ∧ f.partName ≠ g.partName

theorem downloadAll_agree {f : ModelFile} {files : List ModelFile}
    (others : ∀ g ∈ files, Apart f g) (d : Disk) (base n : Nat) :
    Agree f d (d.applyAll ((downloadAll sha256 server files d base).writes.take n)) :=
  ⟨downloadAll_frame server f.name files
      (fun g member => ⟨(others g member).1, (others g member).2.1⟩) d base n,
    downloadAll_frame server f.partName files
      (fun g member => ⟨(others g member).2.2.1, (others g member).2.2.2⟩) d base n⟩

theorem ModelDescriptor.apart_of_ne (m : ModelDescriptor) :
    m.files.Pairwise Apart := by
  refine m.distinct.imp_of_mem fun {f g} first last different =>
    ⟨different, m.apart f first g last, fun same => m.apart g last f first same.symm,
      fun same => different ?_⟩
  unfold ModelFile.partName at same
  exact (String.append_left_inj _).mp same

/-- **Each file is left as if it had been the only one.** -/
theorem downloadAll_cut (files : List ModelFile) (apart : files.Pairwise Apart) (d : Disk)
    (base n : Nat) (f : ModelFile) (member : f ∈ files) :
    ∃ c, Cut sha256 f d (server f) c ∧
      Agree f c (d.applyAll ((downloadAll sha256 server files d base).writes.take n)) := by
  induction files generalizing d base n with
  | nil => cases member
  | cons g files ih =>
      obtain ⟨others, rest⟩ := List.pairwise_cons.mp apart
      have own : ∀ n, Cut sha256 g d (server g)
          (d.applyAll ((downloadOne sha256 g d base (server g)).writes.take n)) :=
        fun n => downloadOne_cut sha256 g d (server g) base n
      have whole := own (downloadOne sha256 g d base (server g)).writes.length
      rw [List.take_length] at whole
      rcases List.mem_cons.mp member with rfl | later
      · -- The files after it leave its names alone.
        have frame := @downloadAll_agree sha256 server f files others
        refine downloadAll_cons server f files d base
          (fun c' => ∃ c, Cut sha256 f d (server f) c ∧ Agree f c c')
          (fun _ n => ⟨d, .untouched, frame d base n⟩)
          (fun n => ⟨_, own n, .refl _ _⟩) (fun base' n => ⟨_, whole, frame _ base' n⟩) n
      · have names := others f later
        have same : ∀ {c}, Cut sha256 g d (server g) c → Agree f d c := fun cut =>
          ⟨cut.frame ⟨names.1.symm, names.2.2.1.symm⟩,
            cut.frame ⟨names.2.1.symm, names.2.2.2.symm⟩⟩
        refine downloadAll_cons server g files d base
          (fun c' => ∃ c, Cut sha256 f d (server f) c ∧ Agree f c c')
          (fun _ n => ih rest d base n later) (fun n => ⟨d, .untouched, same (own n)⟩)
          (fun base' n => ?_) n
        obtain ⟨c, cut, agree⟩ := ih rest
          (d.applyAll (downloadOne sha256 g d base (server g)).writes) base' n later
        obtain ⟨c', cut', agree'⟩ := cut.agree (same whole)
        exact ⟨c', cut', agree'.trans agree⟩

/-- After any attempt, wherever it died. -/
theorem Attempt.cut (sha256 : Bytes → String) (m : ModelDescriptor) (d : Disk) (a : Attempt)
    (f : ModelFile) (member : f ∈ m.files) :
    ∃ c, Cut sha256 f d (a.server f) c ∧ Agree f c (a.after sha256 m d) := by
  have at_moment : ∀ n, ∃ c, Cut sha256 f d (a.server f) c ∧
      Agree f c (d.applyAll ((a.ran sha256 m d).writes.take n)) := by
    intro n
    unfold Attempt.ran downloadModel
    dsimp only
    split
    · exact ⟨d, .untouched, by cases n <;> exact .refl _ _⟩
    · exact downloadAll_cut a.server m.files m.apart_of_ne d _ n f member
  unfold Attempt.after
  cases a.dies with
  | none =>
      have whole := at_moment (a.ran sha256 m d).writes.length
      rwa [List.take_length] at whole
  | some n => exact at_moment n

/-! ## What is promoted, and what is kept -/

/-- The file as it was, or one with the expected hash. -/
def Promoted (sha256 : Bytes → String) (f : ModelFile) (d d' : Disk) : Prop :=
  d' f.name = d f.name ∨ ∃ bytes, d' f.name = some bytes ∧ sha256 bytes = f.sha256

theorem Attempt.promoted (sha256 : Bytes → String) (m : ModelDescriptor) (d : Disk) (a : Attempt)
    (f : ModelFile) (member : f ∈ m.files) : Promoted sha256 f d (a.after sha256 m d) := by
  obtain ⟨c, cut, agree⟩ := a.cut sha256 m d f member
  unfold Promoted
  rw [agree.1]
  cases cut with
  | untouched => exact Or.inl rfl
  | cleared | grown | dropped => exact Or.inl (d.setPart_name f _)
  | placed sent enough right => exact Or.inr ⟨_, d.place_name f _, right⟩
  | settled here full right => exact Or.inr ⟨_, d.place_name f _, right⟩

theorem afterAll_promoted (m : ModelDescriptor) (d : Disk) (attempts : List Attempt)
    (f : ModelFile) (member : f ∈ m.files) :
    Promoted sha256 f d (afterAll sha256 m d attempts) := by
  induction attempts generalizing d with
  | nil => exact Or.inl rfl
  | cons a attempts ih =>
      rcases ih (a.after sha256 m d) with same | right
      · rcases a.promoted sha256 m d f member with before | placed
        · exact Or.inl (same.trans before)
        · unfold Promoted
          rw [show afterAll sha256 m d (a :: attempts) f.name = _ from same]
          exact Or.inr placed
      · exact Or.inr right

/-- What answers the request for the rest of `part`, if it is taken, goes on with the file. -/
def ContinuedBy (content part : Bytes) (answer : Answer) : Prop :=
  ∀ res body, answer = .response res → 200 ≤ res.status ∧ res.status ≤ 299 →
    res.body = some body → (part = [] ∨ res.status = 206) ∧ part ++ body.bytes <+: content

/-- The request for the rest. -/
def restOf (part : Bytes) : Option Nat := if part = [] then none else some part.length

theorem Attempt.kept (m : ModelDescriptor) (d : Disk) (a : Attempt) (f : ModelFile)
    (member : f ∈ m.files) {content part : Bytes} (size : content.length = f.sizeBytes)
    (hash : sha256 content = f.sha256) (here : d f.partName = some part)
    (correct : part <+: content) (proper : part.length < content.length)
    (continued : ContinuedBy content part (a.server f (restOf part))) :
    (∃ part', a.after sha256 m d f.partName = some part' ∧ part <+: part' ∧ part' <+: content) ∨
      a.after sha256 m d f.name = some content := by
  obtain ⟨c, cut, agree⟩ := a.cut sha256 m d f member
  rw [agree.1, agree.2]
  have follows : ∀ {old body}, Sent f d (a.server f) old body →
      old = part ∧ part ++ body.bytes <+: content := by
    intro old body sent
    cases sent with
    | continued here' positive short answer status has =>
        obtain rfl : old = part := Option.some.inj (here'.symm.trans here)
        have asked : restOf old = some old.length := if_neg (List.ne_nil_of_length_pos positive)
        rw [asked] at continued
        exact ⟨rfl, (continued _ _ answer (by omega) has).2⟩
    | fresh answer asked ok has =>
        -- Without a `Range` nothing was there; an answer without 206 is no continuation.
        rcases asked with ⟨rfl, small⟩ | ⟨old, here', positive, rfl, status⟩
        · rcases small part here with rfl | full
          · exact ⟨rfl, (continued _ _ answer ok has).2⟩
          · omega
        · obtain rfl : old = part := Option.some.inj (here'.symm.trans here)
          rw [show restOf old = some old.length from if_neg (List.ne_nil_of_length_pos positive)]
            at continued
          rcases (continued _ _ answer ok has).1 with rfl | partial_
          · cases positive
          · exact absurd partial_ status
  have whole : ∀ {bytes : Bytes}, bytes <+: content → f.sizeBytes ≤ bytes.length →
      bytes = content := fun inside enough => inside.eq_of_length_le (size ▸ enough)
  cases cut with
  | untouched => exact Or.inl ⟨part, here, List.prefix_rfl, correct⟩
  | cleared here' full wrong =>
      cases here'.symm.trans here
      omega
  | grown sent k =>
      obtain ⟨rfl, goes_on⟩ := follows sent
      refine Or.inl ⟨_, d.setPart_partName f _, List.prefix_append _ _, ?_⟩
      exact ((List.prefix_append_right_inj _).mpr (List.take_prefix _ _)).trans goes_on
  | dropped sent enough wrong =>
      obtain ⟨rfl, goes_on⟩ := follows sent
      rw [whole goes_on enough] at wrong
      exact absurd hash wrong
  | placed sent enough right =>
      obtain ⟨rfl, goes_on⟩ := follows sent
      rw [d.place_name, whole goes_on enough]
      exact Or.inr rfl
  | settled here' full right =>
      cases here'.symm.trans here
      omega

/-! ## Against a correct server -/

/-- The file is served whole, or from where it is asked for on. -/
structure Serves (f : ModelFile) (content : Bytes) (server : Option Nat → Answer) : Prop where
  size : content.length = f.sizeBytes
  whole : ∃ cr, server none = .response ⟨200, cr, some ⟨content, none⟩⟩
  rest : ∀ start, 0 < start → start < f.sizeBytes →
    (∃ cr, (∀ header, cr = some header → rangeStart header = some start) ∧
      server (some start) = .response ⟨206, cr, some ⟨content.drop start, none⟩⟩) ∨
    ∃ cr, server (some start) = .response ⟨200, cr, some ⟨content, none⟩⟩

/-- What is left is shorter than the file, and not its start. -/
def WrongPart (f : ModelFile) (content : Bytes) (d : Disk) : Prop :=
  ∃ part, d f.partName = some part ∧ part.length < f.sizeBytes ∧ ¬ part <+: content

section Served

variable {f : ModelFile} {d : Disk} {old content : Bytes} {append : Bool} {body : Body}
  {serve : Option Nat → Answer}

/-- An attempt for a file ends with it, or without its wrong `.part`. -/
def Ends (sha256 : Bytes → String) (f : ModelFile) (content : Bytes) (d : Disk) (ran : Ran) :
    Prop :=
  (∃ received bytes, ran.result = .ok received ∧ sha256 bytes = f.sha256 ∧
      d.applyAll ran.writes = d.place f bytes) ∨
    ∃ e, ran.result = .error e ∧ WrongPart f content d ∧ d.applyAll ran.writes = d.setPart f none

theorem receive_ends (opened : Opened f d append old) (clean : body.fault = none)
    (enough : f.sizeBytes ≤ (old ++ body.bytes).length)
    (wrong : sha256 (old ++ body.bytes) ≠ f.sha256 → WrongPart f content d) (base : Nat) :
    Ends sha256 f content d (receive sha256 f d base append body) := by
  obtain ⟨e, is⟩ := @receive_eq sha256 f d old append body opened base
  have all := applyAll_bodyWrites opened body.bytes
  rw [is, clean]
  dsimp only
  rw [if_neg (by omega)]
  split
  · rename_i other
    refine Or.inr ⟨e, rfl, wrong other, ?_⟩
    rw [Disk.applyAll_append, all]
    exact d.setPart_setPart f _ none
  · rename_i right
    refine Or.inl ⟨_, _, rfl, not_not.mp right, ?_⟩
    rw [Disk.applyAll_append, all]
    exact (Disk.apply_rename _ f _ (by simp)).trans (d.place_setPart f _ _)

/-- From the start, when what is there is not used. -/
theorem transfer_whole (hash : sha256 content = f.sha256) (size : content.length = f.sizeBytes)
    (cr : Option (List Char)) (base start : Nat) :
    Ends sha256 f content d (transfer sha256 f d base start
      (.response ⟨200, cr, some ⟨content, none⟩⟩)) := by
  have received : Ends sha256 f content d
      (receive sha256 f d base (decide (start > 0 ∧ (200 : Nat) = 206)) ⟨content, none⟩) :=
    receive_ends (show Opened f d _ [] by simp [Opened]) rfl (by simp [size])
      (fun wrong => absurd hash wrong) base
  unfold transfer
  dsimp only
  rw [if_neg (by decide)]
  cases cr with
  | none => exact received
  | some header =>
      dsimp only
      rw [if_neg (by simp)]
      exact received

theorem downloadOne_ends (hash : sha256 content = f.sha256) (sized : 0 < f.sizeBytes)
    (serves : Serves f content serve) (base : Nat) :
    Ends sha256 f content d (downloadOne sha256 f d base serve) := by
  obtain ⟨whole, is_whole⟩ := serves.whole
  unfold downloadOne
  dsimp only
  split
  · rename_i full
    cases here : d f.partName with
    | none => simp [Disk.fileSize, here] at full; omega
    | some bytes =>
        dsimp only
        split
        · rename_i right
          exact Or.inl ⟨_, bytes, rfl, right, d.apply_rename f bytes here⟩
        · rw [is_whole]
          rcases transfer_whole (d := d.setPart f none) hash serves.size whole base 0 with
            ⟨received, got, result, right, after⟩ | ⟨e, result, ⟨part, none_left, -⟩, -⟩
          · exact Or.inl ⟨received, got, result, right, after.trans (d.place_setPart f none got)⟩
          · simp at none_left
  · rename_i short
    by_cases positive : d.fileSize f.partName > 0
    · rw [if_pos positive]
      rcases serves.rest _ positive (not_le.mp short) with ⟨cr, offset, is⟩ | ⟨cr, is⟩
      · obtain ⟨part, here⟩ : ∃ part, d f.partName = some part := by
          cases here : d f.partName with
          | none => simp [Disk.fileSize, here] at positive
          | some part => exact ⟨part, rfl⟩
        have length : d.fileSize f.partName = part.length := by simp [Disk.fileSize, here]
        have size := serves.size
        rw [length] at is offset positive short ⊢
        have received : Ends sha256 f content d (receive sha256 f d base
            (decide (part.length > 0 ∧ (206 : Nat) = 206)) ⟨content.drop part.length, none⟩) := by
          refine receive_ends (show Opened f d _ part by simpa [Opened, positive] using here) rfl
            (by simp; omega) (fun wrong => ⟨part, here, not_le.mp short, ?_⟩) base
          rintro ⟨tail, rfl⟩
          exact wrong (by simpa using hash)
        rw [is]
        unfold transfer
        dsimp only
        rw [if_neg (by decide)]
        cases cr with
        | none => exact received
        | some header =>
            dsimp only
            rw [if_neg (by simp [offset header rfl])]
            exact received
      · rw [is]
        exact transfer_whole hash serves.size cr base _
    · rw [if_neg positive, is_whole]
      exact transfer_whole hash serves.size whole base _

end Served

instance (f : ModelFile) (content : Bytes) (d : Disk) : Decidable (WrongPart f content d) :=
  decidable_of_iff ((d f.partName).any fun part =>
      decide (part.length < f.sizeBytes ∧ ¬ part <+: content)) (by
    unfold WrongPart
    cases d f.partName <;> simp)

/-- A file that is still to be made and has a wrong `.part`. -/
def Spoiled (content : ModelFile → Bytes) (d : Disk) (f : ModelFile) : Bool :=
  decide (¬ Done d f ∧ WrongPart f (content f) d)

def wrongParts (m : ModelDescriptor) (content : ModelFile → Bytes) (d : Disk) : Nat :=
  m.files.countP (Spoiled content d)

/-- The file is there, of the size or the hash it has to have. -/
def Present (sha256 : Bytes → String) (f : ModelFile) (d : Disk) : Prop :=
  ∃ bytes, d f.name = some bytes ∧ (bytes.length = f.sizeBytes ∨ sha256 bytes = f.sha256)

section Files

variable {f g : ModelFile} {d d' : Disk} {content : ModelFile → Bytes}

theorem Agree.spoiled (same : Agree f d d') : Spoiled content d' f = Spoiled content d f := by
  refine decide_eq_decide.mpr ?_
  unfold Done WrongPart Disk.fileSize
  rw [same.1, same.2]

theorem Agree.present (same : Agree f d d') (here : Present sha256 f d) : Present sha256 f d' := by
  unfold Present
  rw [same.1]
  exact here

theorem Apart.agree_setPart (apart : Apart g f) (part : Option Bytes) :
    Agree f d (d.setPart g part) :=
  ⟨Function.update_of_ne apart.2.2.1.symm .., Function.update_of_ne apart.2.2.2.symm ..⟩

theorem Apart.agree_place (apart : Apart g f) (bytes : Bytes) : Agree f d (d.place g bytes) := by
  constructor
  · rw [Disk.place, Function.update_of_ne apart.2.2.1.symm, Function.update_of_ne apart.1.symm]
  · rw [Disk.place, Function.update_of_ne apart.2.2.2.symm, Function.update_of_ne apart.2.1.symm]

theorem not_spoiled (none_left : d f.partName = none) : Spoiled content d f = false := by
  unfold Spoiled WrongPart
  simp [none_left]

theorem Done.present (sized : 0 < f.sizeBytes) (done : Done d f) : Present sha256 f d := by
  unfold Done Disk.fileSize at done
  cases here : d f.name with
  | none => simp [here] at done; omega
  | some bytes => exact ⟨bytes, here, Or.inl (by simpa [here] using done)⟩

end Files

/-- An attempt for some files ends with all of them there, or with one wrong `.part` less. -/
def Progress (sha256 : Bytes → String) (content : ModelFile → Bytes) (files : List ModelFile)
    (d : Disk) (ran : Ran) : Prop :=
  (∃ received, ran.result = .ok received) ∧
      (∀ f ∈ files, Present sha256 f (d.applyAll ran.writes)) ∨
    (∃ e, ran.result = .error e) ∧
      files.countP (Spoiled content (d.applyAll ran.writes)) < files.countP (Spoiled content d)

/-- **An attempt against a correct server** makes progress. -/
theorem downloadAll_ends {content : ModelFile → Bytes} (files : List ModelFile)
    (apart : files.Pairwise Apart) (sized : ∀ f ∈ files, 0 < f.sizeBytes)
    (hash : ∀ f ∈ files, sha256 (content f) = f.sha256)
    (serves : ∀ f ∈ files, Serves f (content f) (server f)) (d : Disk) (base : Nat) :
    Progress sha256 content files d (downloadAll sha256 server files d base) := by
  induction files generalizing d base with
  | nil => exact Or.inl ⟨⟨base, rfl⟩, nofun⟩
  | cons g files ih =>
      obtain ⟨others, rest⟩ := List.pairwise_cons.mp apart
      have next := ih rest (fun f member => sized f (List.mem_cons_of_mem _ member))
        (fun f member => hash f (List.mem_cons_of_mem _ member))
        fun f member => serves f (List.mem_cons_of_mem _ member)
      have frame : ∀ d' base, Agree g d'
          (d'.applyAll (downloadAll sha256 server files d' base).writes) := by
        intro d' base
        have all : Agree g d' (d'.applyAll ((downloadAll sha256 server files d' base).writes.take
            (downloadAll sha256 server files d' base).writes.length)) :=
          downloadAll_agree server others d' base _
        rwa [List.take_length] at all
      -- The other files are as spoiled as they were.
      have same : ∀ d', (∀ f ∈ files, Agree f d d') →
          files.countP (Spoiled content d') = files.countP (Spoiled content d) := fun d' agree =>
        List.countP_congr fun f member => by rw [(agree f member).spoiled]
      unfold Progress
      rw [downloadAll]
      simp only [List.countP_cons, List.forall_mem_cons]
      by_cases done : Done d g
      · rw [if_pos done]
        have here : Present sha256 g d := done.present (sized g List.mem_cons_self)
        have kept : Spoiled content _ g = Spoiled content d g := (frame d base).spoiled
        rcases next d base with ⟨ok, present⟩ | ⟨failed, fewer⟩
        · exact Or.inl ⟨ok, (frame d base).present here, present⟩
        · rw [kept]
          exact Or.inr ⟨failed, by omega⟩
      · rw [if_neg done]
        rcases downloadOne_ends (d := d) (hash g List.mem_cons_self) (sized g List.mem_cons_self)
          (serves g List.mem_cons_self) base with
          ⟨received, bytes, result, right, after⟩ | ⟨e, result, wrong, after⟩
        · rw [result]
          dsimp only
          rw [Disk.applyAll_append, after]
          have placed : Present sha256 g (d.place g bytes) :=
            ⟨bytes, d.place_name g bytes, Or.inr right⟩
          rcases next (d.place g bytes) received with ⟨ok, present⟩ | ⟨failed, fewer⟩
          · exact Or.inl ⟨ok, (frame _ _).present placed, present⟩
          · rw [(frame _ _).spoiled, not_spoiled (d.place_partName g bytes)]
            rw [same _ fun f member => (others f member).agree_place bytes] at fewer
            exact Or.inr ⟨failed, by simp; omega⟩
        · rw [result]
          dsimp only
          rw [after, same _ fun f member => (others f member).agree_setPart none,
            not_spoiled (d.setPart_partName g none)]
          have spoiled : Spoiled content d g = true := decide_eq_true ⟨done, wrong⟩
          rw [spoiled]
          exact Or.inr ⟨⟨e, rfl⟩, by simp⟩

/-- The attempt is not cut, has room enough, and every file is served. -/
structure Correct (m : ModelDescriptor) (content : ModelFile → Bytes) (a : Attempt) : Prop where
  lives : a.dies = none
  room : 3 * modelTotalBytes m ≤ 2 * a.free
  serves : ∀ f ∈ m.files, Serves f (content f) (a.server f)

theorem completes (m : ModelDescriptor) (content : ModelFile → Bytes)
    (hash : ∀ f ∈ m.files, sha256 (content f) = f.sha256) (as : List Attempt)
    (correct : ∀ a ∈ as, Correct m content a) (d : Disk)
    (enough : wrongParts m content d < as.length) :
    ∃ k ≤ wrongParts m content d, ∃ a, as[k]? = some a ∧
      (∃ received, (a.ran sha256 m (afterAll sha256 m d (as.take k))).result = .ok received) ∧
      ∀ f ∈ m.files, Present sha256 f (afterAll sha256 m d (as.take (k + 1))) := by
  induction as generalizing d with
  | nil => cases enough
  | cons a as ih =>
      have here := correct a List.mem_cons_self
      have progress : Progress sha256 content m.files d (a.ran sha256 m d) := by
        unfold Attempt.ran downloadModel
        dsimp only
        rw [if_neg (not_lt.mpr here.room)]
        exact downloadAll_ends a.server m.files m.apart_of_ne m.sized hash here.serves d _
      have after : a.after sha256 m d = d.applyAll (a.ran sha256 m d).writes := by
        unfold Attempt.after
        rw [here.lives]
      rcases progress with ⟨ok, present⟩ | ⟨-, fewer⟩
      · refine ⟨0, Nat.zero_le _, a, rfl, ok, ?_⟩
        show ∀ f ∈ m.files, Present sha256 f (a.after sha256 m d)
        rw [after]
        exact present
      · rw [← after] at fewer
        change wrongParts m content (a.after sha256 m d) < wrongParts m content d at fewer
        rw [List.length_cons] at enough
        obtain ⟨k, few, b, found, ok, present⟩ := ih
          (fun b member => correct b (List.mem_cons_of_mem _ member)) (a.after sha256 m d)
          (by omega)
        exact ⟨k + 1, by omega, b, found, ok, present⟩

/-! ## Downloads -/

/-- **Only a file with the expected hash is put in place, a correct `.part` is kept through
every attempt that goes on with it, and a correct server completes the model in at most one
attempt more than there are wrong `.part` files.** -/
theorem downloads_right (m : ModelDescriptor) (content : ModelFile → Bytes)
    (hash : ∀ f ∈ m.files, sha256 (content f) = f.sha256)
    (size : ∀ f ∈ m.files, (content f).length = f.sizeBytes) (d : Disk)
    (attempts : List Attempt) :
    let left := afterAll sha256 m d attempts
    (∀ f ∈ m.files, Promoted sha256 f d left) ∧
      (∀ a : Attempt, ∀ f ∈ m.files, ∀ part, left f.partName = some part → part <+: content f →
        part.length < (content f).length →
        ContinuedBy (content f) part (a.server f (restOf part)) →
          (∃ part', a.after sha256 m left f.partName = some part' ∧ part <+: part' ∧
            part' <+: content f) ∨ a.after sha256 m left f.name = some (content f)) ∧
      ∀ as : List Attempt, (∀ a ∈ as, Correct m content a) →
        wrongParts m content left < as.length →
        ∃ k ≤ wrongParts m content left, ∃ a, as[k]? = some a ∧
          (∃ received,
            (a.ran sha256 m (afterAll sha256 m left (as.take k))).result = .ok received) ∧
          ∀ f ∈ m.files, Present sha256 f (afterAll sha256 m left (as.take (k + 1))) := by
  intro left
  refine ⟨fun f member => afterAll_promoted m d attempts f member, ?_, ?_⟩
  · intro a f member part here correct proper continued
    exact a.kept m left f member (size f member) (hash f member) here correct proper continued
  · exact fun as correct enough => completes m content hash as correct left enough

/-! ## Two wrong parts -/

/-- A hash that is the text of the bytes. -/
def spelled (bytes : Bytes) : String := String.ofList (bytes.map fun b => Char.ofNat (65 + b.toNat))

def twoFiles : ModelDescriptor where
  files := [⟨"model.gguf", "BC", 2⟩, ⟨"mmproj.gguf", "DE", 2⟩]
  sized := by decide
  distinct := by decide
  apart := by decide

def twoContents (f : ModelFile) : Bytes := if f.name = "model.gguf" then [1, 2] else [3, 4]

def served (f : ModelFile) (start : Option Nat) : Answer :=
  match start with
  | none => .response ⟨200, none, some ⟨twoContents f, none⟩⟩
  | some n => .response ⟨206, none, some ⟨(twoContents f).drop n, none⟩⟩

def good : Attempt := ⟨6, served, none⟩

/-- Both files have a wrong byte. -/
def spoiledParts : Disk := fun name =>
  if name = "model.gguf.part" ∨ name = "mmproj.gguf.part" then some [9] else none

theorem good_correct : Correct twoFiles twoContents good where
  lives := rfl
  room := by decide
  serves f member := {
    size := by
      revert f
      decide
    whole := ⟨none, rfl⟩
    rest := fun start _ _ => Or.inl ⟨none, nofun, rfl⟩ }

def refused (ran : Ran) : Bool :=
  match ran.result with
  | .ok _ => false
  | .error e => decide (e.code = some .shaMismatch)

/-- Two attempts with a correct server, and the model is not complete. -/
theorem two_wrong_parts :
    Correct twoFiles twoContents good ∧
      (∀ f ∈ twoFiles.files, spelled (twoContents f) = f.sha256) ∧
      (∀ attempts ∈ [[], [good]],
        refused (good.ran spelled twoFiles (afterAll spelled twoFiles spoiledParts attempts))) ∧
      ¬ modelFilesPresent twoFiles (afterAll spelled twoFiles spoiledParts [good, good]) := by
  refine ⟨good_correct, by decide +kernel, by decide +kernel, ?_⟩
  unfold modelFilesPresent
  decide +kernel

/-- The third attempt completes it. -/
theorem downloads_right_two :
    ∃ k ≤ wrongParts twoFiles twoContents spoiledParts, ∃ a, [good, good, good][k]? = some a ∧
      (∃ received, (a.ran spelled twoFiles
        (afterAll spelled twoFiles spoiledParts ([good, good, good].take k))).result =
          .ok received) ∧
      ∀ f ∈ twoFiles.files, Present spelled f
        (afterAll spelled twoFiles spoiledParts ([good, good, good].take (k + 1))) := by
  have right := @downloads_right spelled twoFiles twoContents (by decide +kernel)
    (by decide +kernel) spoiledParts []
  refine right.2.2 [good, good, good] (fun a member => ?_) (by decide +kernel)
  rw [List.mem_replicate (n := 3) |>.mp member |>.2]
  exact good_correct

end Kiagent.LocalLlm
