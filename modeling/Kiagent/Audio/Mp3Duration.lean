/-
# Audio.Mp3Duration -- how long an MP3 plays, from its first frames

`mp3DurationSeconds` takes the number of frames from a `Xing` or `Info` tag where there is one.
Without it the stream is taken for one of constant bitrate if its second frame has the bitrate
of the first, and what is left of the file is divided by that bitrate.

The estimate is used to bound memory, so it must not be short.  It is short where neither a
tag nor the second frame tells that the bitrate drops, and where frames of one bitrate leave out
the padding (`mp3Duration_right`).
-/
import Mathlib

namespace Kiagent.Audio

set_option autoImplicit false

abbrev Bytes := List UInt8

/-! ## Frame headers -/

inductive Version where
  | mpeg1
  | mpeg2
  | mpeg25
  deriving DecidableEq

namespace Version

def bitratesKbps : Version → List Nat
  | .mpeg1 => [0, 32, 40, 48, 56, 64, 80, 96, 112, 128, 160, 192, 224, 256, 320]
  | _ => [0, 8, 16, 24, 32, 40, 48, 56, 64, 80, 96, 112, 128, 144, 160]

def sampleRates : Version → List Nat
  | .mpeg1 => [44100, 48000, 32000]
  | .mpeg2 => [22050, 24000, 16000]
  | .mpeg25 => [11025, 12000, 8000]

def samplesPerFrame : Version → Nat
  | .mpeg1 => 1152
  | _ => 576

end Version

/-- Don't scan an entire file looking for a sync word. -/
def MAX_SYNC_SCAN_BYTES : Nat := 64 * 1024

structure FrameInfo where
  version : Version
  bitrateBps : Nat
  sampleRate : Nat
  samplesPerFrame : Nat
  frameBytes : Nat
  channels : Nat
  deriving DecidableEq

def byteAt (b : Bytes) (i : Nat) : Nat := (b.getD i 0).toNat

/-- `b[off] === 0xff && (b[off + 1] & 0xe0) === 0xe0` -/
def isSync (b : Bytes) (off : Nat) : Bool := byteAt b off = 0xff && byteAt b (off + 1) / 32 = 7

def parseFrameHeader (b : Bytes) (off : Nat) : Option FrameInfo :=
  if off + 4 > b.length then none
  else
    let b1 := byteAt b (off + 1)
    let b2 := byteAt b (off + 2)
    let b3 := byteAt b (off + 3)
    if !isSync b off then none
    else
      let version : Option Version :=
        match b1 / 8 % 4 with
        | 0 => some .mpeg25
        | 2 => some .mpeg2
        | 3 => some .mpeg1
        | _ => none
      version.bind fun version =>
        if b1 / 2 % 4 ≠ 1 then none
        else
          let bitrateIndex := b2 / 16 % 16
          if bitrateIndex = 0 ∨ bitrateIndex = 15 then none
          else
            let bitrateBps := version.bitratesKbps.getD bitrateIndex 0 * 1000
            let rateIndex := b2 / 4 % 4
            if rateIndex = 3 then none
            else
              let sampleRate := version.sampleRates.getD rateIndex 0
              let padding := b2 / 2 % 2
              let channels := if b3 / 64 % 4 = 3 then 1 else 2
              let samplesPerFrame := version.samplesPerFrame
              let frameBytes := samplesPerFrame / 8 * bitrateBps / sampleRate + padding
              if frameBytes ≤ 4 then none
              else some { version, bitrateBps, sampleRate, samplesPerFrame, frameBytes, channels }

/-- Size of an ID3v2 tag at the head of the file without its footer, or 0. -/
def id3v2Size (b : Bytes) : Nat :=
  if b.length < 10 then 0
  else if byteAt b 0 ≠ 0x49 ∨ byteAt b 1 ≠ 0x44 ∨ byteAt b 2 ≠ 0x33 then 0
  else if 128 ≤ byteAt b 6 ∨ 128 ≤ byteAt b 7 ∨ 128 ≤ byteAt b 8 ∨ 128 ≤ byteAt b 9 then 0
  else 10 + (byteAt b 6 * 2 ^ 21 + byteAt b 7 * 2 ^ 14 + byteAt b 8 * 2 ^ 7 + byteAt b 9)

/-- The first of so many offsets at which there is a header. -/
def scanFrom (b : Bytes) : Nat → Nat → Option (Nat × FrameInfo)
  | 0, _ => none
  | count + 1, i =>
      if !isSync b i then scanFrom b count (i + 1)
      else
        match parseFrameHeader b i with
        | some info => some (i, info)
        | none => scanFrom b count (i + 1)

def findFirstFrame (b : Bytes) : Option (Nat × FrameInfo) :=
  let start := min (id3v2Size b) b.length
  if b.length < 4 then none
  else
    let limit := min (b.length - 4) (start + MAX_SYNC_SCAN_BYTES)
    scanFrom b (limit + 1 - start) start

/-! ## The tag of the first frame -/

inductive VbrTag where
  | none
  | frames (frames : Nat)
  | infoNoCount
  | xingNoCount
  deriving DecidableEq

def readU32BE (b : Bytes) (off : Nat) : Nat :=
  byteAt b off * 0x1000000 + byteAt b (off + 1) * 0x10000 + byteAt b (off + 2) * 0x100 +
    byteAt b (off + 3)

def fourcc (b : Bytes) (off : Nat) : List Nat :=
  [byteAt b off, byteAt b (off + 1), byteAt b (off + 2), byteAt b (off + 3)]

/-- `'Xing'` -/
def XING : List Nat := [0x58, 0x69, 0x6e, 0x67]

/-- `'Info'` -/
def INFO : List Nat := [0x49, 0x6e, 0x66, 0x6f]

def readVbrTag (b : Bytes) (off : Nat) (info : FrameInfo) : VbrTag :=
  let sideInfo :=
    if info.version = .mpeg1 then (if info.channels = 1 then 17 else 32)
    else (if info.channels = 1 then 9 else 17)
  let tagOff := off + 4 + sideInfo
  if tagOff + 8 > b.length then .none
  else if fourcc b tagOff ≠ XING ∧ fourcc b tagOff ≠ INFO then .none
  else
    let noCount := if fourcc b tagOff = XING then VbrTag.xingNoCount else VbrTag.infoNoCount
    if readU32BE b (tagOff + 4) % 2 = 0 then noCount
    else if tagOff + 12 > b.length then noCount
    else
      let frames := readU32BE b (tagOff + 8)
      if frames = 0 then noCount else .frames frames

/-! ## The duration -/

/-- `Number.isFinite(seconds) && seconds > 0 ? seconds : null` -/
def positive (seconds : ℚ) : Option ℚ := if seconds > 0 then some seconds else none

/-- The next header, where it fits, is one of the same stream and bitrate. -/
def secondAgrees (b : Bytes) (off : Nat) (info : FrameInfo) : Bool :=
  let nextOff := off + info.frameBytes
  if nextOff + 4 ≤ b.length then
    match parseFrameHeader b nextOff with
    | none => false
    | some second =>
        second.version = info.version && second.sampleRate = info.sampleRate &&
          second.bitrateBps = info.bitrateBps
  else true

def mp3DurationSeconds (b : Bytes) : Option ℚ :=
  match findFirstFrame b with
  | none => none
  | some (off, info) =>
      match readVbrTag b off info with
      | .frames frames => positive (frames * info.samplesPerFrame / info.sampleRate)
      | .xingNoCount => none
      | _ =>
          if secondAgrees b off info then
            positive (((b.length - off : Nat) : ℚ) * 8 / info.bitrateBps)
          else none

/-! ## Streams -/

/-- The fields of a header of Layer III, of one version and rate; the bitrate's index is one
more, as the first means none. -/
structure Header (version : Version) (rate : Fin 3) where
  bitrate : Fin 14
  padding : Fin 2
  mode : Fin 4
  protection : Fin 2
  private_ : Fin 2
  rest : Fin 64

def Version.bits : Version → Nat
  | .mpeg25 => 0
  | .mpeg2 => 2
  | .mpeg1 => 3

variable {version : Version} {rate : Fin 3}

namespace Header

variable (h : Header version rate)

def bytes : Bytes :=
  [0xff, .ofNat (224 + version.bits * 8 + 2 + h.protection),
    .ofNat ((h.bitrate + 1) * 16 + rate * 4 + h.padding * 2 + h.private_),
    .ofNat (h.mode * 64 + h.rest)]

def bitrateBps : Nat := version.bitratesKbps.getD (h.bitrate + 1) 0 * 1000

def frameBytes : Nat :=
  version.samplesPerFrame / 8 * h.bitrateBps / version.sampleRates.getD rate 0 + h.padding

def info : FrameInfo where
  version
  bitrateBps := h.bitrateBps
  sampleRate := version.sampleRates.getD rate 0
  samplesPerFrame := version.samplesPerFrame
  frameBytes := h.frameBytes
  channels := if h.mode = 3 then 1 else 2

/-- The least bitrate has the shortest frames. -/
theorem frameBytes_ge : 24 ≤ h.frameBytes := by
  have all : ∀ (version : Version) (rate : Fin 3) (bitrate : Fin 14),
      24 ≤ version.samplesPerFrame / 8 * (version.bitratesKbps.getD (bitrate + 1) 0 * 1000) /
        version.sampleRates.getD rate 0 := by
    intro version
    cases version <;> decide
  exact (all version rate h.bitrate).trans (Nat.le_add_right _ _)

theorem bitrateBps_pos : 0 < h.bitrateBps := by
  have all : ∀ (version : Version) (bitrate : Fin 14),
      0 < version.bitratesKbps.getD (bitrate + 1) 0 := by
    intro version
    cases version <;> decide
  exact Nat.mul_pos (all version h.bitrate) (by decide)

end Header

theorem sampleRate_pos (version : Version) (rate : Fin 3) :
    0 < version.sampleRates.getD rate 0 := by
  revert rate
  cases version <;> decide

/-- A header, and as many bytes as the frame has then. -/
structure Frame (version : Version) (rate : Fin 3) where
  header : Header version rate
  body : Bytes
  size : 4 + body.length = header.frameBytes

def Frame.bytes (f : Frame version rate) : Bytes := f.header.bytes ++ f.body

/-- A tag of so many bytes after its own ten; with the flag for it, ten more follow. -/
structure Id3Tag where
  major : UInt8
  revision : UInt8
  flags : UInt8
  size : Fin 4 → Fin 128
  body : Bytes
  majorSet : major ≠ 0xff
  revisionSet : revision ≠ 0xff
  fits : body.length = size 0 * 2 ^ 21 + size 1 * 2 ^ 14 + size 2 * 2 ^ 7 + size 3

namespace Id3Tag

variable (t : Id3Tag)

def fields : Bytes :=
  [t.major, t.revision, t.flags, .ofNat (t.size 0), .ofNat (t.size 1), .ofNat (t.size 2),
    .ofNat (t.size 3)]

def footer : Bytes := if t.flags.toNat / 16 % 2 = 1 then [0x33, 0x44, 0x49] ++ t.fields else []

def bytes : Bytes := [0x49, 0x44, 0x33] ++ t.fields ++ t.body ++ t.footer

end Id3Tag

structure Stream (version : Version) (rate : Fin 3) where
  tag : Option Id3Tag
  frames : List (Frame version rate)

namespace Stream

variable (st : Stream version rate)

def tagBytes : Bytes :=
  match st.tag with
  | none => []
  | some t => t.bytes

def frameBytes : Bytes := st.frames.flatMap Frame.bytes

def bytes : Bytes := st.tagBytes ++ st.frameBytes

def frameSeconds (version : Version) (rate : Fin 3) : ℚ :=
  version.samplesPerFrame / version.sampleRates.getD rate 0

def playingTime : ℚ := st.frames.length * frameSeconds version rate

end Stream

/-! ## Bytes of a stream -/

theorem byteAt_append (pre b : Bytes) (k : Nat) :
    byteAt (pre ++ b) (pre.length + k) = byteAt b k := by
  unfold byteAt
  rw [List.getD_append_right _ _ _ _ (Nat.le_add_right _ _), Nat.add_sub_cancel_left]

theorem byteAt_cons_zero (x : UInt8) (b : Bytes) : byteAt (x :: b) 0 = x.toNat := rfl

theorem byteAt_cons_succ (x : UInt8) (b : Bytes) (k : Nat) :
    byteAt (x :: b) (k + 1) = byteAt b k := rfl

theorem toNat_ofNat {n : Nat} (small : n < 256) : (UInt8.ofNat n).toNat = n :=
  UInt8.toNat_ofNat_of_lt' small

/-- The four bytes of a header, wherever it stands. -/
theorem Header.byteAt_bytes (h : Header version rate) (pre post : Bytes) :
    byteAt (pre ++ (h.bytes ++ post)) pre.length = 255 ∧
      byteAt (pre ++ (h.bytes ++ post)) (pre.length + 1) =
        224 + version.bits * 8 + 2 + h.protection ∧
      byteAt (pre ++ (h.bytes ++ post)) (pre.length + 2) =
        (h.bitrate + 1) * 16 + rate * 4 + h.padding * 2 + h.private_ ∧
      byteAt (pre ++ (h.bytes ++ post)) (pre.length + 3) = h.mode * 64 + h.rest := by
  have bits : version.bits ≤ 3 := by cases version <;> decide
  have first := byteAt_append pre (h.bytes ++ post) 0
  rw [Nat.add_zero] at first
  rw [first, byteAt_append, byteAt_append, byteAt_append]
  simp only [Header.bytes, List.cons_append, byteAt_cons_zero, byteAt_cons_succ]
  refine ⟨rfl, toNat_ofNat (by omega), toNat_ofNat (by omega), toNat_ofNat (by omega)⟩

theorem parseFrameHeader_header (h : Header version rate) (pre post : Bytes) :
    parseFrameHeader (pre ++ (h.bytes ++ post)) pre.length = some h.info := by
  obtain ⟨zero, one, two, three⟩ := h.byteAt_bytes pre post
  have long : ¬ pre.length + 4 > (pre ++ (h.bytes ++ post)).length := by
    simp [Header.bytes]
  have sync : isSync (pre ++ (h.bytes ++ post)) pre.length = true := by
    have bits : version.bits ≤ 3 := by cases version <;> decide
    unfold isSync
    rw [zero, one, Bool.and_eq_true, decide_eq_true_eq, decide_eq_true_eq]
    omega
  have large := h.frameBytes_ge
  have bits : version.bits ≤ 3 := by cases version <;> decide
  have versionBits : (224 + version.bits * 8 + 2 + h.protection) / 8 % 4 = version.bits := by omega
  have layer : (224 + version.bits * 8 + 2 + h.protection) / 2 % 4 = 1 := by omega
  have index : ((h.bitrate + 1) * 16 + rate * 4 + h.padding * 2 + h.private_ : Nat) / 16 % 16 =
      h.bitrate + 1 := by omega
  have rates : ((h.bitrate + 1) * 16 + rate * 4 + h.padding * 2 + h.private_ : Nat) / 4 % 4 =
      rate := by omega
  have padding : ((h.bitrate + 1) * 16 + rate * 4 + h.padding * 2 + h.private_ : Nat) / 2 % 2 =
      h.padding := by omega
  have mode : (h.mode * 64 + h.rest : Nat) / 64 % 4 = h.mode := by omega
  unfold parseFrameHeader
  dsimp only
  rw [if_neg long, sync, one, two, three, versionBits, layer, index, rates, padding, mode]
  rw [if_neg (by decide)]
  unfold Header.info Header.frameBytes Header.bitrateBps at *
  have mono : ((h.mode : Nat) = 3) = (h.mode = 3) := by
    rw [Fin.ext_iff]
    rfl
  cases version <;>
    simp only [Version.bits, Option.bind_some, ne_eq, not_true_eq_false, if_false, mono] <;>
    rw [if_neg (by omega), if_neg (by omega), if_neg (by omega)]

/-! ## The first frame -/

theorem Header.isSync_bytes (h : Header version rate) (pre post : Bytes) :
    isSync (pre ++ (h.bytes ++ post)) pre.length = true := by
  obtain ⟨zero, one, -, -⟩ := h.byteAt_bytes pre post
  have bits : version.bits ≤ 3 := by cases version <;> decide
  unfold isSync
  rw [zero, one, Bool.and_eq_true, decide_eq_true_eq, decide_eq_true_eq]
  omega

theorem scanFrom_header (h : Header version rate) (pre post : Bytes) (count : Nat) :
    scanFrom (pre ++ (h.bytes ++ post)) (count + 1) pre.length = some (pre.length, h.info) := by
  rw [scanFrom, h.isSync_bytes, parseFrameHeader_header]
  rfl

theorem scanFrom_skip (b : Bytes) (k : Nat) :
    ∀ count i, (∀ j < k, isSync b (i + j) = false) →
      scanFrom b (count + k) i = scanFrom b count (i + k) := by
  induction k with
  | zero => exact fun count i _ => rfl
  | succ k ih =>
      intro count i quiet
      have here : isSync b i = false := quiet 0 (Nat.succ_pos k)
      rw [show count + (k + 1) = (count + k) + 1 by omega, scanFrom, here]
      show scanFrom b (count + k) (i + 1) = _
      rw [ih count (i + 1) fun j less => ?_, show i + 1 + k = i + (k + 1) by omega]
      rw [show i + 1 + j = i + (j + 1) by omega]
      exact quiet (j + 1) (by omega)

namespace Id3Tag

variable (t : Id3Tag)

theorem length_bytes : t.bytes.length = 10 + t.body.length + t.footer.length := by
  simp [bytes, fields]
  omega

theorem id3v2Size_bytes (post : Bytes) : id3v2Size (t.bytes ++ post) = 10 + t.body.length := by
  have parts : t.bytes ++ post = 0x49 :: 0x44 :: 0x33 :: t.major :: t.revision :: t.flags ::
      .ofNat (t.size 0) :: .ofNat (t.size 1) :: .ofNat (t.size 2) :: .ofNat (t.size 3) ::
        (t.body ++ t.footer ++ post) := by
    simp [bytes, fields]
  have fits := t.fits
  have digit : ∀ i, (UInt8.ofNat (t.size i)).toNat = t.size i := fun i => toNat_ofNat (by omega)
  have six : byteAt (t.bytes ++ post) 6 = t.size 0 := by rw [parts]; exact digit 0
  have seven : byteAt (t.bytes ++ post) 7 = t.size 1 := by rw [parts]; exact digit 1
  have eight : byteAt (t.bytes ++ post) 8 = t.size 2 := by rw [parts]; exact digit 2
  have nine : byteAt (t.bytes ++ post) 9 = t.size 3 := by rw [parts]; exact digit 3
  have named : ¬ (byteAt (t.bytes ++ post) 0 ≠ 0x49 ∨ byteAt (t.bytes ++ post) 1 ≠ 0x44 ∨
      byteAt (t.bytes ++ post) 2 ≠ 0x33) := by
    rw [parts]
    simp [byteAt_cons_succ, byteAt_cons_zero]
  unfold id3v2Size
  rw [if_neg (by rw [parts]; simp), if_neg named, six, seven, eight, nine, if_neg (by omega)]
  omega

/-- There is no frame in a footer. -/
theorem footer_quiet (pre post : Bytes) (j : Nat) (inside : j < t.footer.length) :
    isSync (pre ++ (t.footer ++ post)) (pre.length + j) = false := by
  unfold footer at inside ⊢
  split at inside
  · rename_i flagged
    rw [if_pos flagged]
    have major : t.major.toNat ≠ 255 := fun same => t.majorSet (UInt8.toNat_inj.mp same)
    have revision : t.revision.toNat ≠ 255 := fun same => t.revisionSet (UInt8.toNat_inj.mp same)
    have digit : ∀ i, (UInt8.ofNat (t.size i)).toNat = t.size i := fun i =>
      toNat_ofNat (by omega)
    unfold isSync
    rw [byteAt_append, show pre.length + j + 1 = pre.length + (j + 1) by omega, byteAt_append]
    have few : j < 10 := by simpa [fields] using inside
    interval_cases j <;>
      simp [fields, byteAt_cons_succ, byteAt_cons_zero, digit, major, revision] <;> omega
  · cases inside

end Id3Tag

namespace Stream

variable (st : Stream version rate) {f : Frame version rate} {rest : List (Frame version rate)}

theorem bytes_cons (frames : st.frames = f :: rest) :
    st.bytes = st.tagBytes ++ (f.header.bytes ++ (f.body ++ rest.flatMap Frame.bytes)) := by
  rw [bytes, frameBytes, frames, List.flatMap_cons, Frame.bytes, List.append_assoc]

theorem length_frame (f : Frame version rate) : f.bytes.length = f.header.frameBytes := by
  rw [← f.size, Frame.bytes, List.length_append]
  rfl

/-- **The first frame is found**, past the tag and its footer. -/
theorem findFirstFrame_bytes (frames : st.frames = f :: rest) :
    findFirstFrame st.bytes = some (st.tagBytes.length, f.header.info) := by
  have whole := st.bytes_cons frames
  have size : st.tagBytes.length + 24 ≤ st.bytes.length := by
    have frame := f.size
    have large := f.header.frameBytes_ge
    rw [whole]
    simp [Header.bytes]
    omega
  unfold findFirstFrame
  dsimp only
  rw [if_neg (by omega)]
  cases tagged : st.tag with
  | none =>
      have empty : st.tagBytes = [] := by rw [tagBytes, tagged]
      have start : id3v2Size st.bytes = 0 := by
        rw [whole, empty]
        have zero := (f.header.byteAt_bytes [] (f.body ++ rest.flatMap Frame.bytes)).1
        unfold id3v2Size
        split
        · rfl
        · rw [if_pos (Or.inl (by rw [show (0 : Nat) = ([] : Bytes).length from rfl, zero]; decide))]
      rw [start, Nat.zero_min]
      obtain ⟨count, enough⟩ : ∃ count,
          min (st.bytes.length - 4) (0 + MAX_SYNC_SCAN_BYTES) + 1 - 0 = count + 1 := ⟨min (st.bytes.length - 4) (0 + MAX_SYNC_SCAN_BYTES), by omega⟩
      rw [enough, whole, empty]
      exact scanFrom_header f.header [] _ count
  | some t =>
      have tagIs : st.tagBytes = t.bytes := by rw [tagBytes, tagged]
      have lengths := t.length_bytes
      have start : id3v2Size st.bytes = 10 + t.body.length := by
        rw [whole, tagIs]
        exact t.id3v2Size_bytes _
      rw [tagIs] at size whole
      rw [start, tagIs]
      obtain ⟨head, cut⟩ : ∃ head, t.bytes = head ++ t.footer := ⟨_, rfl⟩
      have place : head.length = 10 + t.body.length := by
        have both := congrArg List.length cut
        rw [List.length_append] at both
        omega
      have short : t.footer.length ≤ 10 := by
        unfold Id3Tag.footer
        split <;> simp [Id3Tag.fields]
      rw [Nat.min_eq_left (show 10 + t.body.length ≤ st.bytes.length by omega)]
      obtain ⟨count, enough⟩ : ∃ count, min (st.bytes.length - 4)
          (10 + t.body.length + MAX_SYNC_SCAN_BYTES) + 1 - (10 + t.body.length) =
            count + 1 + t.footer.length :=
        ⟨min (st.bytes.length - 4) (10 + t.body.length + MAX_SYNC_SCAN_BYTES) -
          (10 + t.body.length) - t.footer.length, by
            unfold MAX_SYNC_SCAN_BYTES
            omega⟩
      rw [enough, ← place, scanFrom_skip _ _ _ _ fun j inside => ?_,
        show head.length + t.footer.length = t.bytes.length by rw [cut, List.length_append], whole]
      · exact scanFrom_header f.header _ _ count
      · rw [whole, cut, List.append_assoc]
        exact t.footer_quiet head _ j inside

/-- The second frame is where it is expected, and is asked for its bitrate. -/
theorem secondAgrees_bytes (frames : st.frames = f :: rest) :
    secondAgrees st.bytes st.tagBytes.length f.header.info =
      rest.head?.all fun g => g.header.bitrateBps = f.header.bitrateBps := by
  have next : st.tagBytes.length + f.header.info.frameBytes = (st.tagBytes ++ f.bytes).length := by
    rw [List.length_append, length_frame]
    rfl
  have whole : st.bytes = (st.tagBytes ++ f.bytes) ++ rest.flatMap Frame.bytes := by
    rw [bytes, frameBytes, frames, List.flatMap_cons, List.append_assoc]
  unfold secondAgrees
  dsimp only
  rw [next]
  cases rest with
  | nil =>
      rw [if_neg]
      · rfl
      · rw [whole]
        simp
  | cons g more =>
      have second : g.bytes = g.header.bytes ++ g.body := rfl
      rw [whole, List.flatMap_cons, second, List.append_assoc g.header.bytes,
        if_pos (by simp [Header.bytes]; omega), parseFrameHeader_header]
      simp [Header.info]

/-! ## How far the estimate is short -/

def vbrTag : VbrTag :=
  match st.frames with
  | [] => .none
  | f :: _ => readVbrTag st.bytes st.tagBytes.length f.header.info

/-- A count is that of all frames, or of those after the one with the tag. -/
def CountRight : Prop :=
  ∀ n, st.vbrTag = .frames n → n = st.frames.length ∨ n + 1 = st.frames.length

/-- The bitrate of the first frame is not used, or it is not above that of the stream. -/
def Told : Prop :=
  match st.frames with
  | [] => True
  | f :: rest =>
      (∃ n, st.vbrTag = .frames n) ∨ st.vbrTag = .xingNoCount ∨
        (∃ g more, rest = g :: more ∧ g.header.bitrateBps ≠ f.header.bitrateBps) ∨
          rest.length * version.samplesPerFrame * f.header.bitrateBps ≤
            8 * st.frameBytes.length * version.sampleRates.getD rate 0

/-- The estimate from the bitrate of the first frame. -/
theorem estimate_right (frames : st.frames = f :: rest) :
    st.playingTime - frameSeconds version rate ≤
        ((st.frameBytes.length : Nat) : ℚ) * 8 / f.header.bitrateBps ↔
      rest.length * version.samplesPerFrame * f.header.bitrateBps ≤
        8 * st.frameBytes.length * version.sampleRates.getD rate 0 := by
  have bitrate : (0 : ℚ) < f.header.bitrateBps := by exact_mod_cast f.header.bitrateBps_pos
  have sampled : (0 : ℚ) < version.sampleRates.getD rate 0 := by
    exact_mod_cast sampleRate_pos version rate
  have before : st.playingTime - frameSeconds version rate =
      rest.length * version.samplesPerFrame / version.sampleRates.getD rate 0 := by
    unfold playingTime frameSeconds
    rw [frames, List.length_cons]
    push_cast
    ring
  rw [before, div_le_div_iff₀ sampled bitrate]
  constructor
  · intro held
    exact_mod_cast held.trans (le_of_eq (by ring :
      ((st.frameBytes.length : Nat) : ℚ) * 8 * version.sampleRates.getD rate 0 =
        8 * st.frameBytes.length * version.sampleRates.getD rate 0))
  · intro held
    calc (rest.length * version.samplesPerFrame * f.header.bitrateBps : ℚ)
        ≤ 8 * st.frameBytes.length * version.sampleRates.getD rate 0 := by exact_mod_cast held
      _ = st.frameBytes.length * 8 * version.sampleRates.getD rate 0 := by ring

theorem positive_pos {seconds s : ℚ} (is : positive seconds = some s) : s = seconds ∧ 0 < s := by
  unfold positive at is
  split at is
  · cases is
    exact ⟨rfl, ‹_›⟩
  · cases is

theorem mp3DurationSeconds_pos {b : Bytes} {s : ℚ} (is : mp3DurationSeconds b = some s) :
    0 < s := by
  unfold mp3DurationSeconds at is
  split at is
  · cases is
  · split at is
    · exact (positive_pos is).2
    · cases is
    · split at is
      · exact (positive_pos is).2
      · cases is

/-- Without a count the first frame's bitrate is used, where the second has it too. -/
theorem fallback_right (frames : st.frames = f :: rest) :
    (∀ s, (if secondAgrees st.bytes st.tagBytes.length f.header.info then
          positive (((st.bytes.length - st.tagBytes.length : Nat) : ℚ) * 8 /
            f.header.info.bitrateBps) else none) = some s →
          st.playingTime - frameSeconds version rate ≤ s) ↔
        (∃ g more, rest = g :: more ∧ g.header.bitrateBps ≠ f.header.bitrateBps) ∨
          rest.length * version.samplesPerFrame * f.header.bitrateBps ≤
            8 * st.frameBytes.length * version.sampleRates.getD rate 0 := by
  have second := st.secondAgrees_bytes frames
  have estimate := st.estimate_right frames
  have length : st.bytes.length - st.tagBytes.length = st.frameBytes.length := by
    rw [bytes, List.length_append, Nat.add_sub_cancel_left]
  have some_bytes : 0 < st.frameBytes.length := by
    have large := f.header.frameBytes_ge
    rw [frameBytes, frames, List.flatMap_cons, List.length_append, length_frame]
    omega
  have bitrate := f.header.bitrateBps_pos
  have above : (0 : ℚ) < (st.frameBytes.length : ℚ) * 8 / f.header.bitrateBps := by
    positivity
  have given : positive ((st.frameBytes.length : ℚ) * 8 / f.header.info.bitrateBps) =
      some ((st.frameBytes.length : ℚ) * 8 / f.header.bitrateBps) := if_pos above
  have used : (∀ s, some ((st.frameBytes.length : ℚ) * 8 / f.header.bitrateBps) = some s →
      st.playingTime - frameSeconds version rate ≤ s) ↔
        st.playingTime - frameSeconds version rate ≤
          (st.frameBytes.length : ℚ) * 8 / f.header.bitrateBps :=
    ⟨fun all => all _ rfl, fun held s same => Option.some.inj same ▸ held⟩
  rw [second, ← estimate, length, given]
  cases rest with
  | nil =>
      simp only [List.head?_nil, Option.all_none, if_true, used]
      exact (or_iff_right (by rintro ⟨g, more, none, -⟩; cases none)).symm
  | cons g more =>
      by_cases same : g.header.bitrateBps = f.header.bitrateBps
      · rw [if_pos (by simpa using same), used]
        refine (or_iff_right ?_).symm
        rintro ⟨g', more', is, other⟩
        cases is
        exact other same
      · rw [if_neg (by simpa using same)]
        exact iff_of_true nofun (Or.inl ⟨g, more, rfl, same⟩)

/-- **A duration is not short by more than a frame exactly where the bitrate of the first frame
is not used, or is not above that of the stream.** -/
theorem mp3Duration_right (right : st.CountRight) :
    (∀ s, mp3DurationSeconds st.bytes = some s →
        st.playingTime - frameSeconds version rate ≤ s) ↔ st.Told := by
  cases frames : st.frames with
  | nil =>
      have told : st.Told := by unfold Told; rw [frames]; trivial
      refine iff_of_true (fun s is => ?_) told
      have none_played : st.playingTime = 0 := by simp [playingTime, frames]
      have frame : 0 ≤ frameSeconds version rate := by unfold frameSeconds; positivity
      have after := mp3DurationSeconds_pos is
      rw [none_played]
      linarith
  | cons f rest =>
      have found := st.findFirstFrame_bytes frames
      have tag : st.vbrTag = readVbrTag st.bytes st.tagBytes.length f.header.info := by
        rw [vbrTag, frames]
      have told : st.Told ↔ (∃ n, st.vbrTag = .frames n) ∨ st.vbrTag = .xingNoCount ∨
          (∃ g more, rest = g :: more ∧ g.header.bitrateBps ≠ f.header.bitrateBps) ∨
            rest.length * version.samplesPerFrame * f.header.bitrateBps ≤
              8 * st.frameBytes.length * version.sampleRates.getD rate 0 := by
        rw [Told, frames]
      have fallback := st.fallback_right frames
      rw [told]
      unfold mp3DurationSeconds
      rw [found]
      dsimp only
      rw [← tag]
      have frame : 0 < frameSeconds version rate := by
        have sampled := sampleRate_pos version rate
        have samples : 0 < version.samplesPerFrame := by cases version <;> decide
        unfold frameSeconds
        positivity
      cases is : st.vbrTag with
      | frames n =>
          refine iff_of_true (fun s result => ?_) (Or.inl ⟨n, rfl⟩)
          rw [(positive_pos result).1]
          have count : (st.frames.length : ℚ) - 1 ≤ n := by
            rcases right n is with rfl | next
            · linarith
            · rw [← next]
              push_cast
              linarith
          have whole : (n * f.header.info.samplesPerFrame / f.header.info.sampleRate : ℚ) =
              n * frameSeconds version rate := mul_div_assoc ..
          rw [whole, playingTime, ← one_mul (frameSeconds version rate), ← mul_assoc, ← mul_assoc,
            mul_one, ← sub_mul, mul_one]
          exact mul_le_mul_of_nonneg_right count frame.le
      | xingNoCount => exact iff_of_true nofun (Or.inr (Or.inl rfl))
      | none => simpa using fallback
      | infoNoCount => simpa using fallback

end Stream

/-! ## Two streams -/

/-- Frames of 16 and of 8 kbit/s at 24 kHz. -/
def frame16 : Frame .mpeg2 1 := ⟨⟨1, 0, 3, 1, 0, 0⟩, List.replicate 44 0, by decide⟩

def frame8 : Frame .mpeg2 1 := ⟨⟨0, 0, 3, 1, 0, 0⟩, List.replicate 20 0, by decide⟩

/-- At one bitrate the 72 ms that play are reported. -/
theorem mp3Duration_right_constant :
    (Stream.mk none [frame16, frame16, frame16]).playingTime -
      Stream.frameSeconds .mpeg2 1 ≤ 9 / 125 :=
  ((Stream.mk none [frame16, frame16, frame16]).mp3Duration_right (fun n tagged => by
    rw [show (Stream.mk none [frame16, frame16, frame16]).vbrTag = .none by decide +kernel]
      at tagged
    cases tagged)).mpr (Or.inr (Or.inr (Or.inr (by decide +kernel)))) (9 / 125) (by decide +kernel)

/-- The bitrate drops after two frames: 120 ms play, and 84 are reported. -/
theorem mp3Duration_short :
    (Stream.mk none [frame16, frame16, frame8, frame8, frame8]).CountRight ∧
      mp3DurationSeconds (Stream.mk none [frame16, frame16, frame8, frame8, frame8]).bytes =
        some (21 / 250) ∧
      (Stream.mk none [frame16, frame16, frame8, frame8, frame8]).playingTime = 3 / 25 ∧
      ¬ (Stream.mk none [frame16, frame16, frame8, frame8, frame8]).playingTime -
        Stream.frameSeconds .mpeg2 1 ≤ 21 / 250 := by
  have untagged : (Stream.mk none [frame16, frame16, frame8, frame8, frame8]).vbrTag = .none := by
    decide +kernel
  refine ⟨fun n tagged => ?_, by decide +kernel, by decide +kernel, by decide +kernel⟩
  rw [untagged] at tagged
  cases tagged

end Kiagent.Audio
