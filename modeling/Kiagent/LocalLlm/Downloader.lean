/-
# LocalLlm.Downloader -- a model's files, downloaded in attempts

An attempt goes through the files of the model.  A file whose size is right is skipped; of any
other, what an earlier attempt left in the `.part` file is asked to be continued, and only a
`.part` with the expected hash takes the file's place.  The first error ends the attempt.

An attempt is a list of writes and what it ends in, so that a process that dies has done some
first ones of them (`Attempt.after`).
-/
import Mathlib

namespace Kiagent.LocalLlm

set_option autoImplicit false

abbrev Bytes := List UInt8

/-! ## Models -/

structure ModelFile where
  name : String
  sha256 : String
  sizeBytes : Nat
  deriving DecidableEq

def ModelFile.partName (f : ModelFile) : String := f.name ++ ".part"

/-- No file is empty, no two share a name, nor a file's name with another's `.part`. -/
structure ModelDescriptor where
  files : List ModelFile
  sized : ∀ f ∈ files, 0 < f.sizeBytes
  distinct : files.Pairwise fun f g => f.name ≠ g.name
  apart : ∀ f ∈ files, ∀ g ∈ files, f.name ≠ g.partName

def modelTotalBytes (m : ModelDescriptor) : Nat := (m.files.map ModelFile.sizeBytes).sum

/-! ## The destination -/

/-- The files of the directory. -/
abbrev Disk := String → Option Bytes

inductive Write where
  | remove (name : String)
  | create (name : String)
  | append (name : String) (byte : UInt8)
  | rename (source target : String)
  deriving DecidableEq

namespace Disk

def fileSize (d : Disk) (name : String) : Nat := ((d name).getD []).length

def apply (d : Disk) : Write → Disk
  | .remove name => Function.update d name none
  | .create name => Function.update d name (some [])
  | .append name byte => Function.update d name (some ((d name).getD [] ++ [byte]))
  | .rename source target => Function.update (Function.update d target (d source)) source none

def applyAll (d : Disk) (writes : List Write) : Disk := writes.foldl apply d

end Disk

/-! ## Answers -/

/-- An error of the network or the disk, or of the signal. -/
structure Fault where
  aborted : Bool
  message : String

/-- The bytes that arrive; before a fault, those that are on the disk by then. -/
structure Body where
  bytes : Bytes
  fault : Option Fault

structure Response where
  status : Nat
  contentRange : Option (List Char)
  body : Option Body

inductive Answer where
  | failed (fault : Fault)
  | response (r : Response)

inductive DownloadErrorCode where
  | diskFull
  | shaMismatch
  | http
  | aborted
  deriving DecidableEq

/-- Without a code where the file system throws. -/
structure DownloadError where
  code : Option DownloadErrorCode
  message : String
  deriving DecidableEq

def Fault.error (x : Fault) (aborted failed : String) : DownloadError :=
  if x.aborted then ⟨some .aborted, s!"{aborted}: {x.message}"⟩
  else ⟨some .http, s!"{failed}: {x.message}"⟩

/-- The number between `bytes ` at the start and a dash. -/
def rangeStart (header : List Char) : Option Nat :=
  if "bytes ".toList <+: header then
    let digits := (header.drop 6).takeWhile Char.isDigit
    if digits ≠ [] ∧ (header.drop (6 + digits.length)).head? = some '-' then
      some (Nat.ofDigitChars 10 digits 0)
    else none
  else none

/-! ## One file -/

/-- The writes of an attempt, and what it ends in: with the bytes received so far. -/
structure Ran where
  writes : List Write
  result : Except DownloadError Nat

variable (sha256 : Bytes → String)

/-- The stream's: `flags: append ? 'a' : 'w'`, then the bytes. -/
def bodyWrites (f : ModelFile) (append : Bool) (bytes : Bytes) : List Write :=
  (if append then [] else [.create f.partName]) ++ bytes.map (.append f.partName)

/-- From `createWriteStream` on. -/
def receive (f : ModelFile) (d : Disk) (base : Nat) (append : Bool) (body : Body) : Ran :=
  let before := if append then (d f.partName).getD [] else []
  let writes := bodyWrites f append body.bytes
  let d' := d.applyAll writes
  match body.fault with
  | some fault => ⟨writes, .error (fault.error "Download interrupted" "Download interrupted")⟩
  | none =>
      let got := d'.fileSize f.partName
      if got < f.sizeBytes then
        ⟨writes, .error ⟨some .http,
          s!"Download incomplete for {f.name}: got {got} of {f.sizeBytes} bytes"⟩⟩
      else
        let streamed := sha256 (before ++ body.bytes)
        let actual := sha256 ((d' f.partName).getD [])
        if actual ≠ f.sha256 then
          let blame :=
            if streamed = actual then "server delivered wrong bytes"
            else if streamed = f.sha256 then
              "stream was correct but the file on disk differs (write/disk fault)"
            else "stream and file disagree"
          ⟨writes ++ [.remove f.partName], .error ⟨some .shaMismatch,
            s!"Checksum mismatch for {f.name}: expected {f.sha256.take 12}…, " ++
              s!"file {actual.take 12}…, stream {streamed.take 12}… — {blame}"⟩⟩
        else ⟨writes ++ [.rename f.partName f.name], .ok (base + f.sizeBytes)⟩

/-- From the request on, which asks for what is past `start`. -/
def transfer (f : ModelFile) (d : Disk) (base start : Nat) (answer : Answer) : Ran :=
  match answer with
  | .failed fault => ⟨[], .error (fault.error "Download aborted" "Download failed")⟩
  | .response res =>
      match res.body with
      | none => ⟨[], .error ⟨some .http, s!"Download failed: HTTP {res.status}"⟩⟩
      | some body =>
          if ¬ (200 ≤ res.status ∧ res.status ≤ 299) then
            ⟨[], .error ⟨some .http, s!"Download failed: HTTP {res.status}"⟩⟩
          else
            let append := decide (start > 0 ∧ res.status = 206)
            match res.contentRange with
            | none => receive sha256 f d base append body
            | some cr =>
                if append ∧ rangeStart cr ≠ some start then
                  ⟨[], .error ⟨some .http,
                    s!"Resume offset mismatch for {f.name}: asked {start}, got {String.ofList cr}"⟩⟩
                else receive sha256 f d base append body

/-- `server` answers a request, with or without a `Range` that starts somewhere. -/
def downloadOne (f : ModelFile) (d : Disk) (base : Nat) (server : Option Nat → Answer) : Ran :=
  let start := d.fileSize f.partName
  if f.sizeBytes ≤ start then
    match d f.partName with
    | none => ⟨[], .error ⟨none, s!"ENOENT: no such file or directory, open '{f.partName}'"⟩⟩
    | some bytes =>
        if sha256 bytes = f.sha256 then
          ⟨[.rename f.partName f.name], .ok (base + f.sizeBytes)⟩
        else
          let ran := transfer sha256 f (d.apply (.remove f.partName)) base 0 (server none)
          ⟨.remove f.partName :: ran.writes, ran.result⟩
  else transfer sha256 f d base start (server (if start > 0 then some start else none))

/-! ## All files -/

/-- The size of a file is taken for its content. -/
def Done (d : Disk) (f : ModelFile) : Prop := d.fileSize f.name = f.sizeBytes

instance (d : Disk) (f : ModelFile) : Decidable (Done d f) := inferInstanceAs (Decidable (_ = _))

def downloadAll (server : ModelFile → Option Nat → Answer) :
    List ModelFile → Disk → Nat → Ran
  | [], _, base => ⟨[], .ok base⟩
  | f :: files, d, base =>
      if Done d f then downloadAll server files d base
      else
        let one := downloadOne sha256 f d base (server f)
        match one.result with
        | .error e => ⟨one.writes, .error e⟩
        | .ok received =>
            let rest := downloadAll server files (d.applyAll one.writes) received
            ⟨one.writes ++ rest.writes, rest.result⟩

/-- `free < total * 1.5` -/
def downloadModel (m : ModelDescriptor) (d : Disk) (free : Nat)
    (server : ModelFile → Option Nat → Answer) : Ran :=
  let total := modelTotalBytes m
  if 2 * free < 3 * total then
    ⟨[], .error ⟨some .diskFull,
      s!"Need ~{(3 * total + 2 ^ 31 - 1) / 2 ^ 31} GB free to download the model."⟩⟩
  else
    downloadAll sha256 server m.files d
      ((m.files.filter fun f => decide (Done d f)).map ModelFile.sizeBytes).sum

/-- True when every file is present at its exact expected size. -/
def modelFilesPresent (m : ModelDescriptor) (d : Disk) : Prop := ∀ f ∈ m.files, Done d f

/-! ## Attempts -/

/-- The process dies after so many writes, if there are as many. -/
structure Attempt where
  free : Nat
  server : ModelFile → Option Nat → Answer
  dies : Option Nat

def Attempt.ran (m : ModelDescriptor) (d : Disk) (a : Attempt) : Ran :=
  downloadModel sha256 m d a.free a.server

def Attempt.after (m : ModelDescriptor) (d : Disk) (a : Attempt) : Disk :=
  let writes := (a.ran sha256 m d).writes
  d.applyAll (match a.dies with
    | none => writes
    | some n => writes.take n)

def afterAll (m : ModelDescriptor) (d : Disk) (attempts : List Attempt) : Disk :=
  attempts.foldl (fun d a => a.after sha256 m d) d

end Kiagent.LocalLlm
