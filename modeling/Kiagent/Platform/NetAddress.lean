/-
# Platform.NetAddress -- which addresses are public

An address is judged by the ranges it lies in.  An IPv6 address may hold an IPv4 address, and
is then judged as that one: `normalizeAddress` rewrites the text, by two patterns.  They miss
spellings of an IPv4-compatible address, and take others for one.

`judged_iff` says which spellings are judged by the address they denote.
-/
import Mathlib

namespace Kiagent.Platform.Net

set_option autoImplicit false

abbrev Text := List Char

/-! ## Addresses as text -/

/-- Digits to a base. -/
def digitsValue (base : Nat) (ds : List Nat) : Nat := ds.foldl (fun n d => n * base + d) 0

def decDigit (c : Char) : Option Nat :=
  if '0' ≤ c ∧ c ≤ '9' then some (c.toNat - '0'.toNat) else none

def hexDigit (c : Char) : Option Nat :=
  if '0' ≤ c ∧ c ≤ '9' then some (c.toNat - '0'.toNat)
  else if 'a' ≤ c ∧ c ≤ 'f' then some (c.toNat - 'a'.toNat + 10)
  else if 'A' ≤ c ∧ c ≤ 'F' then some (c.toNat - 'A'.toNat + 10)
  else none

/-- Up to 255, and without a leading zero. -/
def octet (t : Text) : Option Nat :=
  if t = [] ∨ 3 < t.length ∨ (t.head? = some '0' ∧ t ≠ ['0']) then none
  else (t.mapM decDigit).bind fun ds =>
    if digitsValue 10 ds ≤ 255 then some (digitsValue 10 ds) else none

/-- One to four hexadecimal digits. -/
def hextet (t : Text) : Option Nat :=
  if t = [] ∨ 4 < t.length then none else (t.mapM hexDigit).map (digitsValue 16)

/-- `net.isIPv4`, with the address. -/
def parse4 (t : Text) : Option Nat :=
  match t.splitOn '.' with
  | [a, b, c, d] => do
      let a ← octet a
      let b ← octet b
      let c ← octet c
      let d ← octet d
      pure (((a * 256 + b) * 256 + c) * 256 + d)
  | _ => none

/-- Groups; the last may be two, as a dotted quad. -/
def groups : List Text → Option (List Nat)
  | [] => some []
  | [t] =>
      match parse4 t with
      | some a => some [a / 65536, a % 65536]
      | none => (hextet t).map fun g => [g]
  | t :: ts => do
      let g ← hextet t
      let gs ← groups ts
      pure (g :: gs)

/-- The groups behind the two colons. -/
def behind (t : Text) : Option (List Nat) := if t = [] then some [] else groups (t.splitOn ':')

/-- The groups in front of them are no dotted quad. -/
def inFront (t : Text) : Option (List Nat) :=
  if t = [] then some [] else (t.splitOn ':').mapM hextet

/-- At the first two colons. -/
def cutColons : Text → Option (Text × Text)
  | c :: d :: rest =>
      if c = ':' ∧ d = ':' then some ([], rest)
      else (cutColons (d :: rest)).map fun parts => (c :: parts.1, parts.2)
  | _ => none

/-- `net.isIPv6` without a zone, with the address; two colons stand for one zero or more. -/
def parse6 (t : Text) : Option Nat :=
  match cutColons t with
  | none =>
      (groups (t.splitOn ':')).bind fun gs =>
        if gs.length = 8 then some (digitsValue 65536 gs) else none
  | some (l, r) => do
      let a ← inFront l
      let b ← behind r
      if a.length + b.length ≤ 7 then
        some (digitsValue 65536 (a ++ List.replicate (8 - a.length - b.length) 0 ++ b))
      else none

/-! ## The rules -/

structure Rule where
  reason : String
  v4 : List (String × Nat)
  v6 : List (String × Nat)

/-- The most specific come first. -/
def RULES : List Rule :=
  [ { reason := "a loopback address"
      v4 := [("127.0.0.0", 8)]
      v6 := [("::1", 128)] },
    { reason := "an unspecified address"
      v4 := [("0.0.0.0", 8)]
      v6 := [("::", 128)] },
    { reason := "a link-local address (this range holds cloud metadata endpoints)"
      v4 := [("169.254.0.0", 16)]
      v6 := [("fe80::", 10)] },
    { reason := "a private network address"
      v4 := [("10.0.0.0", 8), ("172.16.0.0", 12), ("192.168.0.0", 16)]
      v6 := [("fc00::", 7)] },
    { reason := "a carrier-grade NAT address"
      v4 := [("100.64.0.0", 10)]
      v6 := [] },
    { reason := "a multicast address"
      v4 := [("224.0.0.0", 4)]
      v6 := [("ff00::", 8)] },
    { reason := "a reserved address"
      v4 := [("192.0.0.0", 24), ("192.0.2.0", 24), ("198.18.0.0", 15), ("198.51.100.0", 24),
        ("203.0.113.0", 24), ("240.0.0.0", 4)]
      v6 := [] } ]

/-- The first bits are those of the subnet. -/
def inSubnet (bits : Nat) (parse : Text → Option Nat) (subnet : String × Nat) (a : Nat) : Bool :=
  (parse subnet.1.toList).any fun net =>
    a / 2 ^ (bits - subnet.2) = net / 2 ^ (bits - subnet.2)

def Rule.holds4 (rule : Rule) (a : Nat) : Bool := rule.v4.any fun s => inSubnet 32 parse4 s a

/-- `::ffff:0:0/96` -/
def isMapped (a : Nat) : Bool := a / 2 ^ 32 = 0xffff

/-- A block list tests a mapped address against the IPv4 subnets as well. -/
def Rule.holds6 (rule : Rule) (a : Nat) : Bool :=
  (rule.v6.any fun s => inSubnet 128 parse6 s a) || (isMapped a && rule.holds4 (a % 2 ^ 32))

def verdict4 (a : Nat) : Option String := (RULES.find? fun rule => rule.holds4 a).map Rule.reason

def verdict6 (a : Nat) : Option String := (RULES.find? fun rule => rule.holds6 a).map Rule.reason

/-! ## The text -/

def lineTerminators : List Char := ['\n', '\r', Char.ofNat 0x2028, Char.ofNat 0x2029]

def onOneLine (t : Text) : Bool := t.all fun c => c ∉ lineTerminators

/-- `.replace(/^\[|\]$/g, '')` -/
def unbracket (t : Text) : Text :=
  let t := if t.head? = some '[' then t.tail else t
  if t.getLast? = some ']' then t.dropLast else t

/-- `.replace(/%.*$/, '')` -/
def dropZone : Text → Text
  | [] => []
  | c :: cs => if c = '%' ∧ onOneLine cs then [] else c :: dropZone cs

def bareOf (ip : Text) : Text := dropZone (unbracket ip)

/-- No other letter becomes one that an address may have. -/
def lowered (t : Text) : Text := t.map Char.toLower

def FFFF : Text := ['f', 'f', 'f', 'f', ':']

def ZERO : Text := ['0', ':']

/-- `(?:…)?`, with it first. -/
def optionally (part t : Text) : List Text :=
  if part <+: t then [t.drop part.length, t] else [t]

/-- `/^::(?:ffff:)?(?:0:)?(.+)$/`, with what the last group matches. -/
def mappedTail (t : Text) : Option Text :=
  match t with
  | ':' :: ':' :: rest =>
      ((optionally FFFF rest).flatMap (optionally ZERO)).find? fun u => u ≠ [] ∧ onOneLine u
  | _ => none

/-- `/^([0-9a-f]{1,4}):([0-9a-f]{1,4})$/` of small letters. -/
def hexPair (t : Text) : Option (Nat × Nat) :=
  match t.splitOn ':' with
  | [h, l] => do
      let h ← hextet h
      let l ← hextet l
      pure (h, l)
  | _ => none

/-- Four numbers with dots between them. -/
def dottedQuad (hi lo : Nat) : Text :=
  ['.'].intercalate [Nat.toDigits 10 (hi / 256), Nat.toDigits 10 (hi % 256),
    Nat.toDigits 10 (lo / 256), Nat.toDigits 10 (lo % 256)]

/-- An IPv4-mapped or compatible address as an IPv4 address.  `::2` and friends stay. -/
def normalizeAddress (ip : Text) : Text :=
  let bare := bareOf ip
  if (parse4 bare).isSome then bare
  else
    match mappedTail (lowered bare) with
    | none => bare
    | some tail =>
        if (parse4 tail).isSome then tail
        else
          match hexPair tail with
          | none => bare
          | some (hi, lo) => if hi = 0 then bare else dottedQuad hi lo

/-- Why an address is not public, if it is not. -/
def classifyAddress (ip : Text) : Option String :=
  let addr := normalizeAddress ip
  match parse4 addr with
  | some a => verdict4 a
  | none =>
      match parse6 addr with
      | some a => verdict6 a
      | none => some "not a valid IP address"

/-! ## What a text denotes -/

inductive Address where
  | v4 (a : Nat)
  | v6 (a : Nat)
  deriving DecidableEq

/-- The address a text is, with its brackets and its zone. -/
def denote (ip : Text) : Option Address :=
  match parse4 (bareOf ip) with
  | some a => some (.v4 a)
  | none => (parse6 (bareOf ip)).map .v6

/-- `::hi:lo` with a high half. -/
def isCompatible (a : Nat) : Bool := 65536 ≤ a && a < 2 ^ 32

/-- The verdict an address deserves: that of the IPv4 address in it, if there is one. -/
def Address.verdict : Address → Option String
  | .v4 a => verdict4 a
  | .v6 a => if isMapped a || isCompatible a then verdict4 (a % 2 ^ 32) else verdict6 a

/-- A text is judged by the address it denotes. -/
def Judged (ip : Text) : Prop := ∀ a, denote ip = some a → classifyAddress ip = a.verdict

example : classifyAddress "::ffff:7f00:1".toList = some "a loopback address" := by decide +kernel

/-! ## Spellings -/

/-- An IPv4 address, as a dotted quad or as two groups. -/
def endsAs (t : Text) : Bool := (parse4 t).isSome || (hexPair t).isSome

/-- `::`, perhaps `0:`, and an IPv4 address. -/
def isShort : Text → Bool
  | ':' :: ':' :: rest =>
      (endsAs rest && !(FFFF <+: rest : Bool)) || ((ZERO <+: rest : Bool) && endsAs (rest.drop 2))
  | _ => false

/-- `::`, perhaps `0:`, and a dotted quad. -/
def isShortQuad : Text → Bool
  | ':' :: ':' :: rest =>
      (parse4 rest).isSome || ((ZERO <+: rest : Bool) && (parse4 (rest.drop 2)).isSome)
  | _ => false

/-- `::ffff:0:` and an IPv4 address that, if written as two groups, has a high half. -/
def isLong : Text → Bool
  | ':' :: ':' :: rest =>
      (FFFF ++ ZERO <+: rest : Bool) &&
        ((parse4 (rest.drop 7)).isSome || (hexPair (rest.drop 7)).any fun pair => pair.1 ≠ 0)
  | _ => false

/-- The spellings that are judged right: a compatible address is public or spelt short, one
without a high half is not spelt with a dotted quad, and what looks like a mapped address
with a zero in it is public. -/
def WellSpelt (ip : Text) : Prop :=
  ∀ a, denote ip = some (.v6 a) →
    let t := lowered (bareOf ip)
    (isCompatible a = true → verdict4 a = none ∨ isShort t = true) ∧
      (0 < a → a < 65536 → isShortQuad t = false) ∧
        (a / 2 ^ 32 = 0xffff0000 → verdict4 (a % 2 ^ 32) = none ∨ isLong t = false)

/-! ## Reading a text -/

theorem toLower_cases (c : Char) :
    c.toLower = c ∨ ∃ n : Fin 26, c = Char.ofNat (65 + n) ∧ c.toLower = Char.ofNat (97 + n) := by
  by_cases capital : 65 ≤ c.toNat ∧ c.toNat ≤ 90
  · right
    have same : c = Char.ofNat (65 + (c.toNat - 65)) := by
      rw [Nat.add_sub_cancel' capital.1, Char.ofNat_toNat]
    refine ⟨⟨c.toNat - 65, by omega⟩, same, ?_⟩
    have table : ∀ n : Fin 26, (Char.ofNat (65 + n)).toLower = Char.ofNat (97 + n) := by decide
    exact (congrArg Char.toLower same).trans (table ⟨c.toNat - 65, by omega⟩)
  · left
    have below : ¬ (c.val ≥ 'A'.val ∧ c.val ≤ 'Z'.val) := fun h => capital ⟨h.1, h.2⟩
    unfold Char.toLower
    rw [dif_neg below]

/-- A property of characters that capitals and small letters share. -/
theorem toLower_same {β : Type} (f : Char → β)
    (letters : ∀ n : Fin 26, f (Char.ofNat (97 + n)) = f (Char.ofNat (65 + n))) (c : Char) :
    f c.toLower = f c := by
  rcases toLower_cases c with same | ⟨n, capital, small⟩
  · rw [same]
  · rw [small, capital, letters]

theorem hexDigit_toLower (c : Char) : hexDigit c.toLower = hexDigit c :=
  toLower_same hexDigit (by decide) c

theorem decDigit_toLower (c : Char) : decDigit c.toLower = decDigit c :=
  toLower_same decDigit (by decide) c

/-! ### Small letters -/

theorem mapM_lowered (f : Char → Option Nat) (same : ∀ c, f c.toLower = f c) (t : Text) :
    (lowered t).mapM f = t.mapM f := by
  induction t with
  | nil => rfl
  | cons c cs ih =>
      have rest : (cs.map Char.toLower).mapM f = cs.mapM f := ih
      simp only [lowered, List.map_cons, List.mapM_cons, same, rest]

theorem splitOn_lowered {sep : Char} (plain : ∀ c : Char, (c.toLower == sep) = (c == sep))
    (t : Text) : (lowered t).splitOn sep = (t.splitOn sep).map lowered := by
  induction t with
  | nil => rfl
  | cons c cs ih =>
      have rest : (cs.map Char.toLower).splitOn sep = (cs.splitOn sep).map lowered := ih
      rw [lowered, List.map_cons, List.splitOn_cons_eq_if_modifyHead,
        List.splitOn_cons_eq_if_modifyHead, plain, rest]
      split
      · rfl
      · cases cs.splitOn sep <;> rfl

theorem splitOn_dot_lowered (t : Text) : (lowered t).splitOn '.' = (t.splitOn '.').map lowered :=
  splitOn_lowered (toLower_same (fun c => c == '.') (by decide)) t

theorem splitOn_colon_lowered (t : Text) :
    (lowered t).splitOn ':' = (t.splitOn ':').map lowered :=
  splitOn_lowered (toLower_same (fun c => c == ':') (by decide)) t

theorem octet_lowered (t : Text) : octet (lowered t) = octet t := by
  have zero : ∀ c : Char, (c.toLower = '0') = (c = '0') := fun c =>
    toLower_same (fun c => c = '0') (by decide) c
  have digits := mapM_lowered decDigit decDigit_toLower t
  unfold octet
  rw [digits]
  cases t with
  | nil => rfl
  | cons c cs =>
      cases cs with
      | nil => simp [lowered, zero]
      | cons d ds => simp [lowered, zero]

theorem hextet_lowered (t : Text) : hextet (lowered t) = hextet t := by
  unfold hextet
  rw [mapM_lowered hexDigit hexDigit_toLower]
  simp [lowered]

theorem parse4_lowered (t : Text) : parse4 (lowered t) = parse4 t := by
  unfold parse4
  rw [splitOn_dot_lowered]
  rcases t.splitOn '.' with _ | ⟨a, _ | ⟨b, _ | ⟨c, _ | ⟨d, _ | ⟨e, rest⟩⟩⟩⟩⟩ <;>
    simp [octet_lowered]

theorem groups_two (t u : Text) (us : List Text) :
    groups (t :: u :: us) = (hextet t).bind fun g => (groups (u :: us)).map fun gs => g :: gs := by
  rw [groups]
  · cases hextet t with
    | none => rfl
    | some g => cases groups (u :: us) <;> rfl
  · exact List.cons_ne_nil _ _

theorem groups_lowered (ts : List Text) : groups (ts.map lowered) = groups ts := by
  induction ts with
  | nil => rfl
  | cons t ts ih =>
      cases ts with
      | nil => simp only [List.map_cons, List.map_nil, groups, parse4_lowered, hextet_lowered]
      | cons u us =>
          rw [List.map_cons] at ih
          rw [List.map_cons, List.map_cons, groups_two, groups_two, hextet_lowered, ih]

theorem cutColons_lowered (t : Text) :
    cutColons (lowered t) = (cutColons t).map fun parts => (lowered parts.1, lowered parts.2) := by
  have colon : ∀ c : Char, (c.toLower = ':') = (c = ':') := fun c =>
    toLower_same (fun c => c = ':') (by decide) c
  induction t with
  | nil => rfl
  | cons c cs ih =>
      cases cs with
      | nil => rfl
      | cons d ds =>
          have rest : cutColons (d.toLower :: ds.map Char.toLower)
              = (cutColons (d :: ds)).map fun parts => (lowered parts.1, lowered parts.2) := ih
          rw [lowered, List.map_cons, List.map_cons, cutColons, cutColons, rest]
          simp only [colon]
          split
          · rfl
          · rw [Option.map_map, Option.map_map]
            rfl

theorem parse6_lowered (t : Text) : parse6 (lowered t) = parse6 t := by
  have front : ∀ l : Text, inFront (lowered l) = inFront l := by
    intro l
    have pieces : ∀ ts : List Text, (ts.map lowered).mapM hextet = ts.mapM hextet := by
      intro ts
      induction ts with
      | nil => rfl
      | cons u us ih => simp only [List.map_cons, List.mapM_cons, hextet_lowered, ih]
    unfold inFront
    rw [splitOn_colon_lowered, pieces]
    simp [lowered]
  have back : ∀ r : Text, behind (lowered r) = behind r := by
    intro r
    unfold behind
    rw [splitOn_colon_lowered, groups_lowered]
    simp [lowered]
  unfold parse6
  rw [cutColons_lowered, splitOn_colon_lowered, groups_lowered]
  cases cutColons t with
  | none => rfl
  | some parts =>
      obtain ⟨l, r⟩ := parts
      simp only [Option.map_some, front, back]

/-! ### Behind two colons -/

theorem digitsValue_cons (base d : Nat) (ds : List Nat) :
    digitsValue base (d :: ds) = d * base ^ ds.length + digitsValue base ds := by
  have shift : ∀ (ds : List Nat) (n : Nat), ds.foldl (fun n d => n * base + d) n
      = n * base ^ ds.length + ds.foldl (fun n d => n * base + d) 0 := by
    intro ds
    induction ds with
    | nil => simp
    | cons e es ih =>
        intro n
        rw [List.foldl_cons, List.foldl_cons, ih, ih (0 * base + e), List.length_cons, pow_succ]
        ring
  unfold digitsValue
  rw [List.foldl_cons, shift]
  simp

theorem digitsValue_zeros (base n : Nat) (ds : List Nat) :
    digitsValue base (List.replicate n 0 ++ ds) = digitsValue base ds := by
  induction n with
  | zero => rfl
  | succ n ih => rw [List.replicate_succ, List.cons_append, digitsValue_cons, ih]; simp

/-- An address that begins with two colons is its groups. -/
theorem parse6_colons (rest : Text) (a : Nat) :
    parse6 (':' :: ':' :: rest) = some a ↔
      ∃ gs, behind rest = some gs ∧ gs.length ≤ 7 ∧ a = digitsValue 65536 gs := by
  have cut : cutColons (':' :: ':' :: rest) = some ([], rest) := by simp [cutColons]
  unfold parse6
  rw [cut]
  cases read : behind rest with
  | none => simp [inFront, read]
  | some gs =>
      by_cases fits : gs.length ≤ 7
      · simp [inFront, read, fits, digitsValue_zeros, eq_comm]
      · simp [inFront, read, fits]

theorem groups_cons {t : Text} {g : Nat} (hex : hextet t = some g) {ts : List Text}
    (more : ts ≠ []) : groups (t :: ts) = (groups ts).map fun gs => g :: gs := by
  cases ts with
  | nil => exact absurd rfl more
  | cons u us => rw [groups_two, hex, Option.bind_some]

/-- A first group. -/
theorem behind_group {w v : Text} {g : Nat} (hex : hextet w = some g) (plain : ':' ∉ w)
    (more : v ≠ []) : behind (w ++ ':' :: v) = (behind v).map fun gs => g :: gs := by
  unfold behind
  rw [if_neg (by simp), if_neg more, List.splitOn_append_cons_self_of_not_mem plain,
    groups_cons hex (List.splitOn_ne_nil _ _)]

/-- Nothing may follow a last colon. -/
theorem behind_colon {w : Text} (plain : ':' ∉ w) : behind (w ++ [':']) = none := by
  unfold behind
  rw [if_neg (by simp), List.splitOn_append_cons_self_of_not_mem plain]
  show groups [w, []] = none
  cases hex : hextet w with
  | none => simp [groups, hex]
  | some g =>
      have empty : groups [[]] = none := by decide
      rw [groups_cons hex (by simp), empty]
      rfl

/-! ### What an address is made of -/

theorem mapM_digits {f : Char → Option Nat} {t : Text} {ds : List Nat} (read : t.mapM f = some ds) :
    ds.length = t.length ∧ (∀ c ∈ t, (f c).isSome = true) ∧ ∀ d ∈ ds, ∃ c ∈ t, f c = some d := by
  induction t generalizing ds with
  | nil => cases read; simp
  | cons c cs ih =>
      rw [List.mapM_cons] at read
      cases digit : f c with
      | none => rw [digit] at read; cases read
      | some d =>
          rw [digit] at read
          cases rest : cs.mapM f with
          | none => rw [rest] at read; cases read
          | some es =>
              rw [rest] at read
              cases read
              obtain ⟨length, digits, from_⟩ := ih rest
              refine ⟨by simp [length], ?_, ?_⟩
              · intro e member
                rcases List.mem_cons.mp member with rfl | old
                · rw [digit]
                  rfl
                · exact digits e old
              · intro e member
                rcases List.mem_cons.mp member with rfl | old
                · exact ⟨c, List.mem_cons_self, digit⟩
                · obtain ⟨c', there, same⟩ := from_ e old
                  exact ⟨c', List.mem_cons_of_mem _ there, same⟩

theorem hexDigit_lt {c : Char} {d : Nat} (digit : hexDigit c = some d) : d < 16 := by
  unfold hexDigit at digit
  split at digit
  · rename_i range
    cases digit
    have le : c.toNat ≤ 57 := range.2
    show c.toNat - 48 < 16
    omega
  · split at digit
    · rename_i range
      cases digit
      have le : c.toNat ≤ 102 := range.2
      show c.toNat - 97 + 10 < 16
      omega
    · split at digit
      · rename_i range
        cases digit
        have le : c.toNat ≤ 70 := range.2
        show c.toNat - 65 + 10 < 16
        omega
      · cases digit

theorem digitsValue_lt {base : Nat} {ds : List Nat} (small : ∀ d ∈ ds, d < base) :
    digitsValue base ds < base ^ ds.length := by
  induction ds with
  | nil => exact Nat.one_pos
  | cons d ds ih =>
      have rest := ih fun e member => small e (List.mem_cons_of_mem _ member)
      have first := small d List.mem_cons_self
      rw [digitsValue_cons, List.length_cons, pow_succ]
      calc d * base ^ ds.length + digitsValue base ds
          < d * base ^ ds.length + base ^ ds.length := Nat.add_lt_add_left rest _
        _ = (d + 1) * base ^ ds.length := by ring
        _ ≤ base * base ^ ds.length := Nat.mul_le_mul_right _ first
        _ = base ^ ds.length * base := Nat.mul_comm _ _

/-- A group. -/
theorem hextet_spec {t : Text} {g : Nat} (read : hextet t = some g) :
    t ≠ [] ∧ g < 65536 ∧ ∀ c ∈ t, (hexDigit c).isSome = true := by
  unfold hextet at read
  split at read
  · cases read
  · rename_i sizes
    rw [not_or, not_lt] at sizes
    obtain ⟨ds, digits, rfl⟩ := Option.map_eq_some_iff.mp read
    obtain ⟨length, all, from_⟩ := mapM_digits digits
    refine ⟨sizes.1, ?_, all⟩
    have small : ∀ d ∈ ds, d < 16 := fun d member => by
      obtain ⟨c, -, digit⟩ := from_ d member
      exact hexDigit_lt digit
    calc digitsValue 16 ds < 16 ^ ds.length := digitsValue_lt small
      _ ≤ 16 ^ 4 := Nat.pow_le_pow_right (by decide) (by omega)

theorem octet_spec {t : Text} {n : Nat} (read : octet t = some n) :
    n ≤ 255 ∧ ∀ c ∈ t, (decDigit c).isSome = true := by
  unfold octet at read
  split at read
  · cases read
  · obtain ⟨ds, digits, value⟩ := Option.bind_eq_some_iff.mp read
    split at value
    · rename_i small
      cases value
      exact ⟨small, (mapM_digits digits).2.1⟩
    · cases value

theorem mem_intercalate {sep c : Char} {ts : List Text} (member : c ∈ [sep].intercalate ts) :
    c = sep ∨ ∃ t ∈ ts, c ∈ t := by
  induction ts with
  | nil => simp [List.intercalate] at member
  | cons t ts ih =>
      cases ts with
      | nil => exact Or.inr ⟨t, List.mem_cons_self, by simpa [List.intercalate] using member⟩
      | cons u us =>
          rw [List.intercalate_cons_cons] at member
          rcases List.mem_append.mp member with front | rest
          · rcases List.mem_append.mp front with here | between
            · exact Or.inr ⟨t, List.mem_cons_self, here⟩
            · exact Or.inl (List.mem_singleton.mp between)
          · rcases ih rest with same | ⟨v, there, inside⟩
            · exact Or.inl same
            · exact Or.inr ⟨v, List.mem_cons_of_mem _ there, inside⟩

/-- A dotted quad. -/
theorem parse4_spec {t : Text} {b : Nat} (read : parse4 t = some b) :
    b < 2 ^ 32 ∧ ∀ c ∈ t, (decDigit c).isSome = true ∨ c = '.' := by
  unfold parse4 at read
  split at read
  · rename_i p q r s pieces
    obtain ⟨a, readA, read⟩ := Option.bind_eq_some_iff.mp read
    obtain ⟨b, readB, read⟩ := Option.bind_eq_some_iff.mp read
    obtain ⟨c, readC, read⟩ := Option.bind_eq_some_iff.mp read
    obtain ⟨d, readD, read⟩ := Option.bind_eq_some_iff.mp read
    cases read
    refine ⟨by have := (octet_spec readA).1; have := (octet_spec readB).1
               have := (octet_spec readC).1; have := (octet_spec readD).1; omega, ?_⟩
    intro ch member
    have whole : ['.'].intercalate (t.splitOn '.') = t := List.intercalate_splitOn '.'
    rw [pieces] at whole
    rw [← whole] at member
    rcases mem_intercalate member with dot | ⟨u, piece, inside⟩
    · exact Or.inr dot
    · refine Or.inl ?_
      simp only [List.mem_cons, List.not_mem_nil, or_false] at piece
      rcases piece with rfl | rfl | rfl | rfl
      · exact (octet_spec readA).2 ch inside
      · exact (octet_spec readB).2 ch inside
      · exact (octet_spec readC).2 ch inside
      · exact (octet_spec readD).2 ch inside
  · cases read

theorem colon_quad {t : Text} {b : Nat} (read : parse4 t = some b) : ':' ∉ t := fun member => by
  rcases (parse4_spec read).2 _ member with digit | dot
  · exact absurd digit (by decide)
  · exact absurd dot (by decide)

/-- A group is no dotted quad. -/
theorem parse4_hextet {t : Text} {g : Nat} (read : hextet t = some g) : parse4 t = none := by
  have plain : '.' ∉ t := fun member => absurd ((hextet_spec read).2.2 _ member) (by decide)
  unfold parse4
  rw [List.splitOn_eq_singleton plain]

theorem behind_quad {t : Text} {b : Nat} (read : parse4 t = some b) :
    behind t = some [b / 65536, b % 65536] := by
  have some_ : t ≠ [] := by
    rintro rfl
    cases read
  unfold behind
  rw [if_neg some_, List.splitOn_eq_singleton (colon_quad read), groups, read]

/-- Two groups. -/
theorem hexPair_spec {t : Text} {h l : Nat} (read : hexPair t = some (h, l)) :
    behind t = some [h, l] ∧ h < 65536 ∧ l < 65536 := by
  unfold hexPair at read
  split at read
  · rename_i x y pieces
    obtain ⟨h', readH, read⟩ := Option.bind_eq_some_iff.mp read
    obtain ⟨l', readL, read⟩ := Option.bind_eq_some_iff.mp read
    cases read
    have some_ : t ≠ [] := by
      rintro rfl
      cases pieces
    refine ⟨?_, (hextet_spec readH).2.1, (hextet_spec readL).2.1⟩
    unfold behind
    rw [if_neg some_, pieces, groups_two, readH, groups, parse4_hextet readL, readL]
    rfl
  · cases read

theorem digitsValue_two (x y : Nat) : digitsValue 65536 [x, y] = x * 65536 + y := by
  simp [digitsValue]

theorem groups_chars {ts : List Text} {gs : List Nat} (read : groups ts = some gs) :
    (∀ t ∈ ts, ∀ c ∈ t, (hexDigit c).isSome = true ∨ (decDigit c).isSome = true ∨ c = '.') ∧
      ∀ g ∈ gs, g < 65536 := by
  induction ts generalizing gs with
  | nil => cases read; simp
  | cons t ts ih =>
      cases ts with
      | nil =>
          rw [groups] at read
          cases quad : parse4 t with
          | some b =>
              rw [quad] at read
              cases read
              obtain ⟨small, chars⟩ := parse4_spec quad
              refine ⟨?_, ?_⟩
              · intro u member c inside
                rw [List.mem_singleton.mp member] at inside
                exact Or.inr (chars c inside)
              · intro g member
                simp only [List.mem_cons, List.not_mem_nil, or_false] at member
                omega
          | none =>
              rw [quad] at read
              obtain ⟨g, hex, rfl⟩ := Option.map_eq_some_iff.mp read
              obtain ⟨-, small, chars⟩ := hextet_spec hex
              refine ⟨?_, ?_⟩
              · intro u member c inside
                rw [List.mem_singleton.mp member] at inside
                exact Or.inl (chars c inside)
              · intro g' member
                rwa [List.mem_singleton.mp member]
      | cons u us =>
          rw [groups_two] at read
          obtain ⟨g, hex, read⟩ := Option.bind_eq_some_iff.mp read
          obtain ⟨gs', rest, rfl⟩ := Option.map_eq_some_iff.mp read
          obtain ⟨-, small, chars⟩ := hextet_spec hex
          obtain ⟨more, below⟩ := ih rest
          refine ⟨?_, ?_⟩
          · intro v member c inside
            rcases List.mem_cons.mp member with rfl | old
            · exact Or.inl (chars c inside)
            · exact more v old c inside
          · intro g' member
            rcases List.mem_cons.mp member with rfl | old
            · exact small
            · exact below g' old

theorem behind_spec {t : Text} {gs : List Nat} (read : behind t = some gs) :
    onOneLine t = true ∧ (t ≠ [] → gs ≠ []) ∧ ∀ g ∈ gs, g < 65536 := by
  unfold behind at read
  split at read
  · rename_i empty
    cases read
    rw [empty]
    exact ⟨rfl, fun some_ => absurd rfl some_, by simp⟩
  · obtain ⟨chars, small⟩ := groups_chars read
    refine ⟨List.all_eq_true.mpr fun c member => ?_, fun _ empty => ?_, small⟩
    · have whole : [':'].intercalate (t.splitOn ':') = t := List.intercalate_splitOn ':'
      rw [← whole] at member
      have ends : ∀ c ∈ lineTerminators, hexDigit c = none ∧ decDigit c = none ∧ c ≠ '.' ∧
          c ≠ ':' := by simp [lineTerminators, hexDigit, decDigit]
      rw [decide_eq_true_eq]
      intro terminator
      obtain ⟨hex, dec, dot, colon⟩ := ends c terminator
      rcases mem_intercalate member with same | ⟨u, there, inside⟩
      · exact colon same
      · rcases chars u there c inside with digit | digit | same
        · rw [hex] at digit
          cases digit
        · rw [dec] at digit
          cases digit
        · exact dot same
    · rw [empty] at read
      cases pieces : t.splitOn ':' with
      | nil => exact List.splitOn_ne_nil _ _ pieces
      | cons u us =>
          rw [pieces] at read
          cases us with
          | nil =>
              rw [groups] at read
              split at read
              · cases read
              · obtain ⟨g, -, other⟩ := Option.map_eq_some_iff.mp read
                cases other
          | cons v vs =>
              rw [groups_two] at read
              obtain ⟨g, -, read⟩ := Option.bind_eq_some_iff.mp read
              obtain ⟨gs', -, other⟩ := Option.map_eq_some_iff.mp read
              cases other

/-! ### The dotted quad that is written -/

theorem octet_digits : ∀ n : Fin 256, octet (Nat.toDigits 10 n) = some n.val := by decide +kernel

theorem parse4_dottedQuad {hi lo : Nat} (high : hi < 65536) (low : lo < 65536) :
    parse4 (dottedQuad hi lo) = some (hi * 65536 + lo) := by
  have plain : ∀ n, '.' ∉ Nat.toDigits 10 n := fun n member => by
    have digit := Nat.isDigit_of_mem_toDigits (by decide) (by decide) member
    exact absurd digit (by decide)
  have reads : ∀ n, n < 256 → octet (Nat.toDigits 10 n) = some n := fun n small =>
    octet_digits ⟨n, small⟩
  unfold parse4 dottedQuad
  rw [List.splitOn_intercalate '.' (by simp [plain]) (by simp)]
  dsimp only
  rw [reads (hi / 256) (by omega), reads (hi % 256) (by omega), reads (lo / 256) (by omega),
    reads (lo % 256) (by omega)]
  simp only [Option.bind_eq_bind, Option.bind_some, Option.pure_def, Option.some_inj]
  omega

/-! ## What a text is taken for -/

/-- The IPv4 address a tail is taken for. -/
def ending (t : Text) : Option Nat :=
  match parse4 t with
  | some b => some b
  | none => (hexPair t).bind fun pair => if pair.1 = 0 then none else some (pair.1 * 65536 + pair.2)

def taken (t : Text) : Option Nat := (mappedTail t).bind ending

theorem ending_spec {t : Text} {b : Nat} (here : ending t = some b) :
    behind t = some [b / 65536, b % 65536] ∧ b < 2 ^ 32 ∧ endsAs t = true ∧
      (b < 65536 → (parse4 t).isSome = true) := by
  unfold ending at here
  cases quad : parse4 t with
  | some c =>
      rw [quad] at here
      cases here
      refine ⟨behind_quad quad, (parse4_spec quad).1, ?_, fun _ => rfl⟩
      rw [endsAs, quad]
      rfl
  | none =>
      rw [quad] at here
      obtain ⟨⟨h, l⟩, pair, high⟩ := Option.bind_eq_some_iff.mp here
      obtain ⟨read, boundH, boundL⟩ := hexPair_spec pair
      dsimp only at high
      split at high
      · cases high
      · rename_i some_
        cases high
        refine ⟨?_, by omega, ?_, fun small => by omega⟩
        · rw [read, show (h * 65536 + l) / 65536 = h by omega,
            show (h * 65536 + l) % 65536 = l by omega]
        · rw [endsAs, pair, quad]
          rfl

theorem ending_none {t : Text} (here : ending t = none) :
    parse4 t = none ∧ ∀ h l, hexPair t = some (h, l) → h = 0 := by
  unfold ending at here
  cases quad : parse4 t with
  | some c =>
      rw [quad] at here
      cases here
  | none =>
      rw [quad] at here
      refine ⟨rfl, fun h l pair => ?_⟩
      rw [pair, Option.bind_some] at here
      by_contra some_
      rw [if_neg some_] at here
      cases here

/-- **The verdict** is that of the IPv4 address a text is taken for, if there is one. -/
theorem classify_taken {ip : Text} {a : Nat} (not4 : parse4 (bareOf ip) = none)
    (read : parse6 (bareOf ip) = some a) :
    classifyAddress ip = match taken (lowered (bareOf ip)) with
      | some b => verdict4 b
      | none => verdict6 a := by
  have still : ∀ t, t = bareOf ip →
      (match parse4 t with
        | some b => verdict4 b
        | none => match parse6 t with
          | some a => verdict6 a
          | none => some "not a valid IP address") = verdict6 a := by
    rintro t rfl
    rw [not4, read]
  unfold classifyAddress normalizeAddress taken
  dsimp only
  rw [not4]
  cases tail : mappedTail (lowered (bareOf ip)) with
  | none => exact still _ rfl
  | some u =>
      rw [Option.bind_some]
      unfold ending
      cases quad : parse4 u with
      | some b =>
          simp only [Option.isSome_none, Bool.false_eq_true, if_false, quad, Option.isSome_some,
            if_true]
      | none =>
          cases pair : hexPair u with
          | none =>
              simp only [Option.isSome_none, Bool.false_eq_true, if_false, quad, pair,
                Option.bind_none]
              exact still _ rfl
          | some found =>
              obtain ⟨h, l⟩ := found
              obtain ⟨-, high, low⟩ := hexPair_spec pair
              by_cases zero : h = 0
              · simp only [Option.isSome_none, Bool.false_eq_true, if_false, quad, pair, zero,
                  if_true, Option.bind_some]
                exact still _ rfl
              · simp only [Option.isSome_none, Bool.false_eq_true, if_false, quad, pair, zero,
                  Option.bind_some, parse4_dottedQuad high low]

/-! ### The tail -/

/-- The four ways a text behind two colons is read. -/
inductive Tail (rest : Text) (gs : List Nat) : Prop where
  | long (v : Text) (gs' : List Nat) (text : rest = FFFF ++ (ZERO ++ v))
      (tail : mappedTail (':' :: ':' :: rest) = some v) (read : behind v = some gs')
      (value : gs = 0xffff :: 0 :: gs')
  | mapped (v : Text) (gs' : List Nat) (text : rest = FFFF ++ v) (other : ¬ ZERO <+: v)
      (tail : mappedTail (':' :: ':' :: rest) = some v) (read : behind v = some gs')
      (value : gs = 0xffff :: gs')
  | zero (v : Text) (gs' : List Nat) (text : rest = ZERO ++ v)
      (tail : mappedTail (':' :: ':' :: rest) = some v) (read : behind v = some gs')
      (value : gs = 0 :: gs')
  | plain (other : ¬ FFFF <+: rest) (other' : ¬ ZERO <+: rest)
      (tail : mappedTail (':' :: ':' :: rest) = some rest)

theorem find_first {u : Text} (some_ : u ≠ []) (line : onOneLine u = true) (more : List Text) :
    (u :: more).find? (fun u => u ≠ [] ∧ onOneLine u) = some u := by
  rw [List.find?_cons_of_pos]
  simp [some_, line]

/-- A first group, and something behind it. -/
theorem behind_first {w v : Text} {g : Nat} {gs : List Nat} (hex : hextet w = some g)
    (plain : ':' ∉ w) (read : behind (w ++ ':' :: v) = some gs) :
    v ≠ [] ∧ ∃ gs', behind v = some gs' ∧ gs = g :: gs' := by
  by_cases empty : v = []
  · rw [empty, behind_colon plain] at read
    cases read
  · rw [behind_group hex plain empty] at read
    obtain ⟨gs', rest, rfl⟩ := Option.map_eq_some_iff.mp read
    exact ⟨empty, gs', rest, rfl⟩

theorem tail_cases {rest : Text} {gs : List Nat} (read : behind rest = some gs)
    (some_ : rest ≠ []) : Tail rest gs := by
  have line := (behind_spec read).1
  by_cases mapped : FFFF <+: rest
  · obtain ⟨v, rfl⟩ := mapped
    obtain ⟨someV, gs', readV, rfl⟩ :=
      @behind_first ['f', 'f', 'f', 'f'] v 0xffff gs (by decide) (by decide) read
    have first : optionally FFFF (FFFF ++ v) = [v, FFFF ++ v] := by
      rw [optionally, if_pos (List.prefix_append _ _), List.drop_left]
    by_cases zero : ZERO <+: v
    · obtain ⟨u, rfl⟩ := zero
      obtain ⟨someU, gs'', readU, rfl⟩ :=
        @behind_first ['0'] u 0 gs' (by decide) (by decide) readV
      refine .long u gs'' rfl ?_ readU rfl
      have second : optionally ZERO (ZERO ++ u) = [u, ZERO ++ u] := by
        rw [optionally, if_pos (List.prefix_append _ _), List.drop_left]
      rw [mappedTail, first, List.flatMap_cons, second]
      exact find_first someU (behind_spec readU).1 _
    · refine .mapped v gs' rfl zero ?_ readV rfl
      rw [mappedTail, first, List.flatMap_cons, optionally, if_neg zero]
      exact find_first someV (behind_spec readV).1 _
  · have first : optionally FFFF rest = [rest] := by rw [optionally, if_neg mapped]
    by_cases zero : ZERO <+: rest
    · obtain ⟨u, rfl⟩ := zero
      obtain ⟨someU, gs', readU, rfl⟩ :=
        @behind_first ['0'] u 0 gs (by decide) (by decide) read
      refine .zero u gs' rfl ?_ readU rfl
      have second : optionally ZERO (ZERO ++ u) = [u, ZERO ++ u] := by
        rw [optionally, if_pos (List.prefix_append _ _), List.drop_left]
      rw [mappedTail, first, List.flatMap_cons, second]
      exact find_first someU (behind_spec readU).1 _
    · refine .plain mapped zero ?_
      rw [mappedTail, first, List.flatMap_cons, optionally, if_neg zero]
      exact find_first some_ line _

/-- What a text is taken for, beside the address it is. -/
inductive Taking (t : Text) (a : Nat) : Option Nat → Prop where
  | long (b : Nat) (value : a = 0xffff0000 * 2 ^ 32 + b) (small : b < 2 ^ 32)
      (spelt : isLong t = true) : Taking t a (some b)
  | mapped (b : Nat) (value : a = 0xffff * 2 ^ 32 + b) (small : b < 2 ^ 32) : Taking t a (some b)
  | same (small : a < 2 ^ 32) (spelt : isShort t = true)
      (quad : a < 65536 → isShortQuad t = true) : Taking t a (some a)
  | none (long : isLong t = false) (quad : isShortQuad t = false)
      (short : isCompatible a = true → isShort t = false) : Taking t a none

theorem colon_rest {w v : Text} : parse4 (w ++ ':' :: v) = none := by
  cases read : parse4 (w ++ ':' :: v) with
  | none => rfl
  | some b => exact absurd (by simp) (colon_quad read)

theorem ends_low {t : Text} {gs : List Nat} (here : ending t = none) (read : behind t = some gs)
    (compatible : isCompatible (digitsValue 65536 gs) = true) : endsAs t = false := by
  obtain ⟨noQuad, noPair⟩ := ending_none here
  cases pair : hexPair t with
  | none => rw [endsAs, noQuad, pair]; rfl
  | some found =>
      -- Two groups with no high half are too small an address.
      obtain ⟨h, l⟩ := found
      obtain ⟨groups, -, low⟩ := hexPair_spec pair
      rw [read] at groups
      cases groups
      rw [noPair h l pair, digitsValue_two] at compatible
      unfold isCompatible at compatible
      simp only [Bool.and_eq_true, decide_eq_true_eq] at compatible
      omega

theorem not_colons {t : Text} (other : ∀ rest, t ≠ ':' :: ':' :: rest) :
    taken t = none ∧ isLong t = false ∧ isShortQuad t = false ∧ isShort t = false := by
  unfold taken mappedTail isLong isShortQuad isShort
  split
  · exact absurd rfl (other _)
  · exact ⟨rfl, rfl, rfl, rfl⟩

theorem isLong_append (v : Text) : isLong (':' :: ':' :: (FFFF ++ (ZERO ++ v)))
    = ((parse4 v).isSome || (hexPair v).any fun pair => pair.1 ≠ 0) := by
  have begins : FFFF ++ ZERO <+: FFFF ++ (ZERO ++ v) := by
    rw [← List.append_assoc]
    exact List.prefix_append _ _
  rw [isLong, decide_eq_true begins, Bool.true_and]
  rfl

theorem isLong_other {rest : Text} (other : ¬ FFFF ++ ZERO <+: rest) :
    isLong (':' :: ':' :: rest) = false := by
  rw [isLong, decide_eq_false other, Bool.false_and]

theorem isShortQuad_zero (v : Text) :
    isShortQuad (':' :: ':' :: (ZERO ++ v)) = (parse4 v).isSome := by
  have whole : parse4 (ZERO ++ v) = none := @colon_rest ['0'] v
  rw [isShortQuad, whole, decide_eq_true (List.prefix_append _ _)]
  rfl

theorem isShortQuad_other {rest : Text} (other : ¬ ZERO <+: rest) :
    isShortQuad (':' :: ':' :: rest) = (parse4 rest).isSome := by
  rw [isShortQuad, decide_eq_false other, Bool.false_and, Bool.or_false]

theorem isShort_zero (v : Text) : isShort (':' :: ':' :: (ZERO ++ v))
    = (endsAs (ZERO ++ v) || endsAs v) := by
  have zero : ¬ FFFF <+: ZERO ++ v := by simp [FFFF, ZERO]
  rw [isShort, decide_eq_false zero, decide_eq_true (List.prefix_append _ _)]
  simp [ZERO]

theorem isShort_ffff {rest : Text} (mapped : FFFF <+: rest) :
    isShort (':' :: ':' :: rest) = false := by
  have other : ¬ ZERO <+: rest := by
    obtain ⟨v, rfl⟩ := mapped
    simp [FFFF, ZERO]
  rw [isShort, decide_eq_true mapped, decide_eq_false other]
  simp

theorem isShort_other {rest : Text} (other : ¬ FFFF <+: rest) (other' : ¬ ZERO <+: rest) :
    isShort (':' :: ':' :: rest) = endsAs rest := by
  rw [isShort, decide_eq_false other, decide_eq_false other']
  simp

theorem endsAs_zero {v : Text} {gs : List Nat} (read : behind (ZERO ++ v) = some gs)
    (compatible : isCompatible (digitsValue 65536 gs) = true) : endsAs (ZERO ++ v) = false := by
  have whole : parse4 (ZERO ++ v) = none := @colon_rest ['0'] v
  refine ends_low ?_ read compatible
  unfold ending
  rw [whole]
  cases pair : hexPair (ZERO ++ v) with
  | none => rfl
  | some found =>
      obtain ⟨h, l⟩ := found
      obtain ⟨-, _, -, value⟩ :=
        @behind_first ['0'] v 0 [h, l] (by decide) (by decide) (hexPair_spec pair).1
      rw [Option.bind_some, if_pos (List.cons.inj value).1]

theorem taken_spec {t : Text} {a : Nat} (read : parse6 t = some a) : Taking t a (taken t) := by
  by_cases colons : ∃ rest, t = ':' :: ':' :: rest
  · obtain ⟨rest, rfl⟩ := colons
    obtain ⟨gs, readRest, -, value⟩ := (parse6_colons rest a).mp read
    by_cases empty : rest = []
    · rw [empty]
      exact .none rfl rfl fun _ => rfl
    · have kind : ∀ v, mappedTail (':' :: ':' :: rest) = some v →
          taken (':' :: ':' :: rest) = ending v := fun v tail => by
        rw [taken, tail, Option.bind_some]
      rcases tail_cases readRest empty with ⟨v, gs', rfl, tail, readV, rfl⟩ |
        ⟨v, gs', rfl, other, tail, readV, rfl⟩ | ⟨v, gs', rfl, tail, readV, rfl⟩ |
        ⟨other, other', tail⟩
      · -- `::ffff:0:`
        have quad : isShortQuad (':' :: ':' :: (FFFF ++ (ZERO ++ v))) = false := by
          rw [isShortQuad_other (by simp [FFFF, ZERO]),
            show parse4 (FFFF ++ (ZERO ++ v)) = none from
              @colon_rest ['f', 'f', 'f', 'f'] (ZERO ++ v)]
          rfl
        rw [kind v tail]
        cases ends : ending v with
        | some b =>
            obtain ⟨pair, small, spelt, -⟩ := ending_spec ends
            rw [readV] at pair
            cases pair
            refine .long b ?_ small ?_
            · rw [value]
              simp only [digitsValue, List.foldl_cons, List.foldl_nil]
              omega
            · rw [isLong_append]
              unfold ending at ends
              cases dotted : parse4 v with
              | some c => rfl
              | none =>
                  rw [dotted] at ends
                  obtain ⟨⟨h, l⟩, found, high⟩ := Option.bind_eq_some_iff.mp ends
                  rw [found]
                  by_cases zero : h = 0
                  · rw [if_pos zero] at high
                    cases high
                  · simp [zero]
        | none =>
            obtain ⟨noQuad, noPair⟩ := ending_none ends
            refine .none ?_ quad fun _ => isShort_ffff (List.prefix_append _ _)
            rw [isLong_append, noQuad]
            cases found : hexPair v with
            | none => rfl
            | some pair => simp [noPair pair.1 pair.2 found]
      · -- `::ffff:`
        have quad : isShortQuad (':' :: ':' :: (FFFF ++ v)) = false := by
          rw [isShortQuad_other (by simp [FFFF, ZERO]),
            show parse4 (FFFF ++ v) = none from @colon_rest ['f', 'f', 'f', 'f'] v]
          rfl
        have long : ¬ FFFF ++ ZERO <+: FFFF ++ v := by
          rwa [List.prefix_append_right_inj]
        rw [kind v tail]
        cases ends : ending v with
        | some b =>
            obtain ⟨pair, small, -, -⟩ := ending_spec ends
            rw [readV] at pair
            cases pair
            refine .mapped b ?_ small
            rw [value]
            simp only [digitsValue, List.foldl_cons, List.foldl_nil]
            omega
        | none =>
            exact .none (isLong_other long) quad fun _ => isShort_ffff (List.prefix_append _ _)
      · -- `::0:`
        have long : ¬ FFFF ++ ZERO <+: ZERO ++ v := by simp [FFFF, ZERO]
        rw [kind v tail]
        cases ends : ending v with
        | some b =>
            obtain ⟨pair, small, spelt, dotted⟩ := ending_spec ends
            rw [readV] at pair
            cases pair
            have same : a = b := by
              rw [value]
              simp only [digitsValue, List.foldl_cons, List.foldl_nil]
              omega
            rw [← same]
            refine .same (by omega) ?_ fun low => ?_
            · rw [isShort_zero, spelt, Bool.or_true]
            · rw [isShortQuad_zero]
              exact dotted (by omega)
        | none =>
            refine .none (isLong_other long) ?_ fun compatible => ?_
            · rw [isShortQuad_zero, (ending_none ends).1]
              rfl
            · rw [value] at compatible
              have tailLow : digitsValue 65536 gs' = digitsValue 65536 (0 :: gs') := by
                simp [digitsValue]
              rw [isShort_zero, endsAs_zero readRest compatible,
                ends_low ends readV (by rwa [tailLow])]
              rfl
      · -- Neither.
        have long : ¬ FFFF ++ ZERO <+: rest := fun begins =>
          other ((List.prefix_append _ _).trans begins)
        rw [kind rest tail]
        cases ends : ending rest with
        | some b =>
            obtain ⟨pair, small, spelt, dotted⟩ := ending_spec ends
            rw [readRest] at pair
            cases pair
            have same : a = b := by
              rw [value, digitsValue_two]
              omega
            rw [← same]
            refine .same (by omega) ?_ fun low => ?_
            · rw [isShort_other other other', spelt]
            · rw [isShortQuad_other other']
              exact dotted (by omega)
        | none =>
            refine .none (isLong_other long) ?_ fun compatible => ?_
            · rw [isShortQuad_other other', (ending_none ends).1]
              rfl
            · rw [isShort_other other other']
              rw [value] at compatible
              exact ends_low ends readRest compatible
  · have other : ∀ rest, t ≠ ':' :: ':' :: rest := fun rest same => colons ⟨rest, same⟩
    obtain ⟨nothing, long, quad, short⟩ := not_colons other
    rw [nothing]
    exact .none long quad fun _ => short

/-! ## Verdicts -/

/-- The IPv6 subnets are `::`, `::1` and high ones. -/
theorem v6_subnets : ∀ rule ∈ RULES, ∀ s ∈ rule.v6, (parse6 s.1.toList).any fun net =>
    (s.2 = 128 && net < 2) || 2 ^ 112 ≤ net / 2 ^ (128 - s.2) * 2 ^ (128 - s.2) := by
  decide +kernel

theorem v6_outside {a : Nat} (low : 2 ≤ a) (high : a < 2 ^ 112) {rule : Rule}
    (member : rule ∈ RULES) : (rule.v6.any fun s => inSubnet 128 parse6 s a) = false := by
  refine List.any_eq_false.mpr fun s subnet inside => ?_
  have table := v6_subnets rule member s subnet
  unfold inSubnet at inside
  cases net : parse6 s.1.toList with
  | none => rw [net] at table; cases table
  | some n =>
      rw [net] at table inside
      simp only [Option.any_some, Bool.or_eq_true, Bool.and_eq_true, decide_eq_true_eq]
        at table inside
      rcases table with ⟨whole, small⟩ | large
      · rw [whole] at inside
        simp only [Nat.sub_self, pow_zero, Nat.div_one] at inside
        omega
      · rw [← inside] at large
        have := Nat.div_mul_le_self a (2 ^ (128 - s.2))
        omega

theorem verdict6_outside {a : Nat} (low : 2 ≤ a) (high : a < 2 ^ 112)
    (other : isMapped a = false) : verdict6 a = none := by
  have none_ : (RULES.find? fun rule => rule.holds6 a) = none := by
    refine List.find?_eq_none.mpr fun rule member holds => ?_
    rw [Rule.holds6, v6_outside low high member, other] at holds
    cases holds
  rw [verdict6, none_]
  rfl

theorem isMapped_bounds {a : Nat} (mapped : isMapped a = true) : 2 ≤ a ∧ a < 2 ^ 112 := by
  unfold isMapped at mapped
  rw [decide_eq_true_eq] at mapped
  omega

theorem verdict6_mapped {a : Nat} (mapped : isMapped a = true) :
    verdict6 a = verdict4 (a % 2 ^ 32) := by
  obtain ⟨low, high⟩ := isMapped_bounds mapped
  have same : (RULES.find? fun rule => rule.holds6 a)
      = RULES.find? fun rule => rule.holds4 (a % 2 ^ 32) := by
    refine List.find?_congr fun rule member => ?_
    rw [Rule.holds6, v6_outside low high member, mapped, Bool.false_or, Bool.true_and]
  rw [verdict6, verdict4, same]

/-- `0.0.0.0/8` -/
theorem verdict4_low {a : Nat} (low : a < 2 ^ 24) :
    verdict4 a = some "an unspecified address" := by
  have loopback : inSubnet 32 parse4 ("127.0.0.0", 8) a = false := by
    have net : parse4 "127.0.0.0".toList = some (127 * 2 ^ 24) := by decide +kernel
    rw [inSubnet, net, Option.any_some, decide_eq_false_iff_not]
    show ¬ a / 2 ^ 24 = 127 * 2 ^ 24 / 2 ^ 24
    omega
  have unspecified : inSubnet 32 parse4 ("0.0.0.0", 8) a = true := by
    have net : parse4 "0.0.0.0".toList = some 0 := by decide +kernel
    rw [inSubnet, net, Option.any_some, decide_eq_true_eq]
    show a / 2 ^ 24 = 0 / 2 ^ 24
    omega
  have found : (RULES.find? fun rule => rule.holds4 a).map Rule.reason
      = some "an unspecified address" := by
    rw [RULES, List.find?_cons_of_neg, List.find?_cons_of_pos]
    · rfl
    · simp [Rule.holds4, unspecified]
    · simp [Rule.holds4, loopback]
  exact found

theorem verdict6_low {a : Nat} (some_ : 0 < a) (low : a < 65536) :
    verdict6 a ≠ some "an unspecified address" := by
  by_cases one : a = 1
  · rw [one]
    decide +kernel
  · rw [verdict6_outside (by omega) (by omega) (by rw [isMapped, decide_eq_false_iff_not]; omega)]
    exact nofun

theorem verdict_zero : verdict6 0 = verdict4 0 := by decide +kernel

/-! ## Judged by what it denotes -/

/-- One IPv6 address, two texts. -/
def Alike (ip ip' : Text) : Prop :=
  ∀ a, denote ip = some (.v6 a) → denote ip' = some (.v6 a) →
    classifyAddress ip = classifyAddress ip'

def AlikeSpelt (ip ip' : Text) : Prop :=
  ∀ a, denote ip = some (.v6 a) → denote ip' = some (.v6 a) → (WellSpelt ip ↔ WellSpelt ip')

/-- What a misspelt address is taken for is settled by the address. -/
def misread (a : Nat) : Option String :=
  if isCompatible a then none else verdict4 (a % 2 ^ 32)

theorem denote_v6 {ip : Text} {a : Nat} (read : denote ip = some (.v6 a)) :
    parse4 (bareOf ip) = none ∧ parse6 (bareOf ip) = some a := by
  unfold denote at read
  cases quad : parse4 (bareOf ip) with
  | some b => rw [quad] at read; cases read
  | none =>
      rw [quad] at read
      obtain ⟨b, six, same⟩ := Option.map_eq_some_iff.mp read
      cases same
      exact ⟨rfl, six⟩

theorem verdict_embedded {a : Nat} (embedded : isMapped a = true ∨ isCompatible a = true) :
    (Address.v6 a).verdict = verdict4 (a % 2 ^ 32) := by
  rw [Address.verdict, if_pos (by rcases embedded with mapped | compatible <;> simp [*])]

theorem verdict_other {a : Nat} (notMapped : isMapped a = false)
    (notCompatible : isCompatible a = false) : (Address.v6 a).verdict = verdict6 a := by
  rw [Address.verdict, notMapped, notCompatible]
  rfl

theorem isCompatible_iff {a : Nat} : isCompatible a = true ↔ 65536 ≤ a ∧ a < 2 ^ 32 := by
  rw [isCompatible, Bool.and_eq_true, decide_eq_true_eq, decide_eq_true_eq]

theorem isCompatible_no {a : Nat} : isCompatible a = false ↔ a < 65536 ∨ 2 ^ 32 ≤ a := by
  rw [← Bool.not_eq_true, isCompatible_iff]
  omega

theorem isMapped_iff {a : Nat} : isMapped a = true ↔ a / 2 ^ 32 = 0xffff := by
  rw [isMapped, decide_eq_true_eq]

theorem isMapped_no {a : Nat} : isMapped a = false ↔ a / 2 ^ 32 ≠ 0xffff := by
  rw [isMapped, decide_eq_false_iff_not]

/-- `WellSpelt`, of an address and its text. -/
def Spelt (t : Text) (a : Nat) : Prop :=
  (isCompatible a = true → verdict4 a = none ∨ isShort t = true) ∧
    (0 < a → a < 65536 → isShortQuad t = false) ∧
      (a / 2 ^ 32 = 0xffff0000 → verdict4 (a % 2 ^ 32) = none ∨ isLong t = false)

theorem wellSpelt_v6 {ip : Text} {a : Nat} (read : denote ip = some (.v6 a)) :
    WellSpelt ip ↔ Spelt (lowered (bareOf ip)) a := by
  refine ⟨fun spelt => spelt a read, fun holds b read' => ?_⟩
  rw [read] at read'
  cases read'
  exact holds

/-- Right when well spelt, and only then. -/
def Outcome (t : Text) (a : Nat) (verdict : Option String) : Prop :=
  (Spelt t a ∧ verdict = (Address.v6 a).verdict) ∨
    (¬ Spelt t a ∧ verdict = misread a ∧ misread a ≠ (Address.v6 a).verdict)

theorem outcome_long {t : Text} {a b : Nat} (value : a = 0xffff0000 * 2 ^ 32 + b)
    (small : b < 2 ^ 32) (long : isLong t = true) : Outcome t a (verdict4 b) := by
  have notCompatible : isCompatible a = false := isCompatible_no.mpr (by omega)
  have notMapped : isMapped a = false := isMapped_no.mpr (by omega)
  have deserves : (Address.v6 a).verdict = none := by
    rw [verdict_other notMapped notCompatible]
    exact verdict6_outside (by omega) (by omega) notMapped
  have half : a % 2 ^ 32 = b := by omega
  by_cases isPublic : verdict4 b = none
  · refine Or.inl ⟨⟨?_, fun _ low => ?_, fun _ => Or.inl ?_⟩, ?_⟩
    · rw [notCompatible]
      exact nofun
    · omega
    · rwa [half]
    · rw [deserves, isPublic]
  · refine Or.inr ⟨fun spelt => ?_, ?_, ?_⟩
    · rcases spelt.2.2 (by omega) with public_ | short
      · rw [half] at public_
        exact isPublic public_
      · rw [long] at short
        cases short
    · rw [misread, notCompatible, half]
      rfl
    · rw [misread, notCompatible, half, deserves]
      exact isPublic

theorem outcome_mapped {t : Text} {a b : Nat} (value : a = 0xffff * 2 ^ 32 + b)
    (small : b < 2 ^ 32) : Outcome t a (verdict4 b) := by
  have half : a % 2 ^ 32 = b := by omega
  refine Or.inl ⟨⟨fun compatible => ?_, fun _ low => ?_, fun other => ?_⟩, ?_⟩
  · have := isCompatible_iff.mp compatible
    omega
  · omega
  · omega
  · rw [verdict_embedded (Or.inl (isMapped_iff.mpr (by omega))), half]

theorem outcome_same {t : Text} {a : Nat} (small : a < 2 ^ 32) (short : isShort t = true)
    (quad : a < 65536 → isShortQuad t = true) : Outcome t a (verdict4 a) := by
  have notMapped : isMapped a = false := isMapped_no.mpr (by omega)
  have half : a % 2 ^ 32 = a := Nat.mod_eq_of_lt small
  by_cases high : 65536 ≤ a
  · refine Or.inl ⟨⟨fun _ => Or.inr short, fun _ low => ?_, fun other => ?_⟩, ?_⟩
    · omega
    · omega
    · rw [verdict_embedded (Or.inr (isCompatible_iff.mpr ⟨high, small⟩)), half]
  · have notCompatible : isCompatible a = false := isCompatible_no.mpr (by omega)
    by_cases zero : a = 0
    · refine Or.inl ⟨⟨fun _ => Or.inr short, fun some_ => ?_, fun other => ?_⟩, ?_⟩
      · omega
      · omega
      · rw [verdict_other notMapped notCompatible, zero, verdict_zero]
    · refine Or.inr ⟨fun spelt => ?_, ?_, ?_⟩
      · have dotted := spelt.2.1 (by omega) (by omega)
        rw [quad (by omega)] at dotted
        cases dotted
      · rw [misread, notCompatible, half]
        rfl
      · rw [misread, notCompatible, half, verdict_other notMapped notCompatible]
        show verdict4 a ≠ verdict6 a
        rw [verdict4_low (by omega)]
        exact (verdict6_low (by omega) (by omega)).symm

theorem outcome_none {t : Text} {a : Nat} (notLong : isLong t = false)
    (notQuad : isShortQuad t = false)
    (notShort : isCompatible a = true → isShort t = false) : Outcome t a (verdict6 a) := by
  have rest : (0 < a → a < 65536 → isShortQuad t = false) ∧
      (a / 2 ^ 32 = 0xffff0000 → verdict4 (a % 2 ^ 32) = none ∨ isLong t = false) :=
    ⟨fun _ _ => notQuad, fun _ => Or.inr notLong⟩
  by_cases compatible : isCompatible a = true
  · have bounds := isCompatible_iff.mp compatible
    have notMapped : isMapped a = false := isMapped_no.mpr (by omega)
    have verdict : verdict6 a = none := verdict6_outside (by omega) (by omega) notMapped
    have deserves : (Address.v6 a).verdict = verdict4 a := by
      rw [verdict_embedded (Or.inr compatible), Nat.mod_eq_of_lt bounds.2]
    by_cases isPublic : verdict4 a = none
    · refine Or.inl ⟨⟨fun _ => Or.inl isPublic, rest⟩, ?_⟩
      rw [verdict, deserves, isPublic]
    · refine Or.inr ⟨fun spelt => ?_, ?_, ?_⟩
      · rcases spelt.1 compatible with public_ | short
        · exact isPublic public_
        · rw [notShort compatible] at short
          cases short
      · rw [misread, if_pos compatible, verdict]
      · rw [misread, if_pos compatible, deserves]
        exact Ne.symm isPublic
  · refine Or.inl ⟨⟨fun yes => absurd yes compatible, rest⟩, ?_⟩
    by_cases mapped : isMapped a = true
    · rw [verdict_embedded (Or.inl mapped), verdict6_mapped mapped]
    · rw [verdict_other (Bool.not_eq_true _ ▸ mapped) (Bool.not_eq_true _ ▸ compatible)]

theorem verdict_outcome {ip : Text} {a : Nat} (read : denote ip = some (.v6 a)) :
    Outcome (lowered (bareOf ip)) a (classifyAddress ip) := by
  obtain ⟨not4, six⟩ := denote_v6 read
  rw [classify_taken not4 six]
  have taking := taken_spec ((parse6_lowered (bareOf ip)).trans six)
  generalize taken (lowered (bareOf ip)) = found at taking
  cases taking with
  | long b value small spelt => exact outcome_long value small spelt
  | mapped b value small => exact outcome_mapped value small
  | same small spelt quad => exact outcome_same small spelt quad
  | none long quad short => exact outcome_none long quad short

theorem classify_v4 {ip : Text} {a : Nat} (read : denote ip = some (.v4 a)) :
    classifyAddress ip = verdict4 a := by
  have quad : parse4 (bareOf ip) = some a := by
    unfold denote at read
    cases quad : parse4 (bareOf ip) with
    | some b =>
        rw [quad] at read
        cases read
        rfl
    | none =>
        rw [quad] at read
        obtain ⟨b, -, other⟩ := Option.map_eq_some_iff.mp read
        cases other
  have same : normalizeAddress ip = bareOf ip := by
    unfold normalizeAddress
    dsimp only
    rw [if_pos (by rw [quad]; rfl)]
  unfold classifyAddress
  dsimp only
  rw [same, quad]

/-- Well spelt, exactly when right. -/
theorem verdict_v6 {ip : Text} {a : Nat} (read : denote ip = some (.v6 a)) :
    classifyAddress ip = (Address.v6 a).verdict ↔ WellSpelt ip := by
  rw [wellSpelt_v6 read]
  rcases verdict_outcome read with ⟨spelt, verdict⟩ | ⟨misspelt, verdict, wrong⟩
  · exact ⟨fun _ => spelt, fun _ => verdict⟩
  · rw [verdict]
    exact ⟨fun right => absurd right wrong, fun spelt => absurd spelt misspelt⟩

/-- **Judged by what it denotes**: exactly the well-spelt addresses are, and two texts of one
IPv6 address are judged alike when both or neither are. -/
theorem judged_iff (ip ip' : Text) :
    (Judged ip ↔ WellSpelt ip) ∧ (Alike ip ip' ↔ AlikeSpelt ip ip') := by
  refine ⟨⟨fun judged a read => ?_, fun spelt a read => ?_⟩, forall_congr' fun a =>
    forall_congr' fun read => forall_congr' fun read' => ?_⟩
  · exact (verdict_v6 read).mp (judged _ read) a read
  · cases a with
    | v4 a => exact classify_v4 read
    | v6 a => exact (verdict_v6 read).mpr spelt
  · rw [wellSpelt_v6 read, wellSpelt_v6 read']
    rcases verdict_outcome read with ⟨spelt, verdict⟩ | ⟨misspelt, verdict, wrong⟩ <;>
      rcases verdict_outcome read' with ⟨spelt', verdict'⟩ | ⟨misspelt', verdict', wrong'⟩
    · simp [spelt, spelt', verdict, verdict']
    · simp [spelt, misspelt', verdict, verdict', wrong'.symm]
    · simp [misspelt, spelt', verdict, verdict', wrong]
    · simp [misspelt, misspelt', verdict, verdict']

/-- Loopback, as eight groups. -/
theorem eight_groups : ¬ Judged "0:0:0:0:0:0:7f00:1".toList := by
  intro judged
  have compatible := judged (.v6 0x7f000001) (by decide +kernel)
  exact absurd compatible (by decide +kernel)

end Kiagent.Platform.Net
