/-
# Outbound.ErrorCopy -- the classifier of send failures, run twice

A failed send stores the summary that `shapeOutboundError` made of its error, and every page
shapes that summary again.  The summary is cut at 200 units.  For the classes decided by the
head of a text, or by a summary the classifier wrote itself, the second pass finds what the
first did.  The `auth` and `unsupported` classes are decided by a marker anywhere in the text,
and a cut can take it away: `reshape_iff` is exactly when.

Texts are lists of UTF-16 code units.
-/
import Kiagent.Theory.Words

namespace Kiagent.Outbound.ErrorCopy

set_option autoImplicit false

open Kiagent.Theory

/-! ## Texts -/

abbrev Text := List ℕ

/-- The units of a text in the basic plane. -/
def units (s : String) : Text := s.toList.map Char.toNat

/-- What `\s` matches. -/
def isBlank (u : ℕ) : Bool :=
  u ∈ [9, 10, 11, 12, 13, 32, 0xa0, 0x1680, 0x2028, 0x2029, 0x202f, 0x205f, 0x3000, 0xfeff] ||
    (0x2000 ≤ u && u ≤ 0x200a)

def isDigit (u : ℕ) : Bool := 48 ≤ u && u ≤ 57

def SPACE : ℕ := 32

def ELLIPSIS : ℕ := 0x2026

/-- The `i` flag folds the ASCII letters; nothing else folds onto them. -/
def lower (t : Text) : Text := t.map fun u => if 65 ≤ u && u ≤ 90 then u + 32 else u

def singleLine (t : Text) : Text := trimBlank isBlank (oneSpace isBlank SPACE t)

def truncate (t : Text) (n : ℕ) : Text :=
  if t.length ≤ n then t else t.take (n - 1) ++ [ELLIPSIS]

/-! ## Markers -/

def quotaMarkers (t : Text) : Bool :=
  seen [units "ratelimitexceeded"] (lower t) || seen [units "userratelimitexceeded"] (lower t) ||
    seen [units "quotaexceeded"] (lower t) || (units "rate-limited:").isPrefixOf (lower t)

/-- `bearerFetch` fails with `${errorPrefix} ${status} ${url} ${body}`. -/
def httpStatus (t : Text) : Option Text :=
  let head := t.takeWhile fun u => !isBlank u
  match t.drop head.length with
  | before :: a :: b :: c :: after :: _ =>
      if head ≠ [] && before = SPACE && isDigit a && isDigit b && isDigit c && after = SPACE then
        some [a, b, c]
      else none
  | _ => none

def smtpTransient (t : Text) : Option Text :=
  if (units "smtp transient ").isPrefixOf t then
    match t.drop 15 with
    | a :: b :: c :: after :: _ =>
        if isDigit a && isDigit b && isDigit c && after = 58 then some [a, b, c] else none
    | _ => none
  else none

/-- On one line `.*` is anything. -/
def authMarkers (t : Text) : Bool :=
  seen [units "reconnect ", units " in settings"] (lower t) ||
    seen [units "no gmail credentials"] (lower t) ||
    seen [units "access_token_scope_insufficient"] (lower t) ||
    seen [units "insufficientpermissions"] (lower t)

def UNSUPPORTED (t : Text) : Bool := seen [units "is not supported yet"] t

def NOT_SENT (t : Text) : Bool := (units "not sent: ").isPrefixOf t

def isShapedSummary (t : Text) : Bool :=
  t = units "send failed with no error message" || (units "send failed: ").isPrefixOf t

/-! ## The classifier -/

inductive OutboundErrorKind where
  | transient
  | auth
  | unsupported
  | unknown
  deriving DecidableEq

structure ShapedOutboundError where
  kind : OutboundErrorKind
  summary : Text
  message : Text
  canRetry : Bool
  deriving DecidableEq

def BUSY_MESSAGE : Text := units
  "The mail service is busy right now — this message was NOT sent. Try again in a moment."

def UNKNOWN_MESSAGE : Text := units
  "Something went wrong and the app could not confirm delivery. If this was a network problem the message MAY still have been sent — check your Sent folder before re-sending."

def UNSUPPORTED_MESSAGE : Text := units
  "This account type cannot send messages yet — ask your assistant to use a supported account."

/-- A quota rejection: not of a text rejected before, and not of a status that is no quota's. -/
def quotaTest (t : Text) : Bool :=
  let status := httpStatus t
  let statusAllowsQuota := status = none || status = some (units "403") || status = some (units "429")
  !isShapedSummary t && ((quotaMarkers t && statusAllowsQuota) || status = some (units "429"))

def authTest (t : Text) : Bool := httpStatus t = some (units "401") || authMarkers t

/-- The reason of a `not sent: ` text, without its full stop. -/
def reasonOf (t : Text) : Text :=
  ((t.drop 10).reverse.dropWhile fun u => u = 46 || isBlank u).reverse

def smtpSummary (code : Text) : Text :=
  units "rate-limited: the mail server deferred the send (SMTP " ++ code ++
    units ") — nothing was sent"

def httpSummary (status : Text) : Text :=
  units "rate-limited: the mail service rejected the send (HTTP " ++ status ++
    units ") — nothing was sent"

def shapeText (t : Text) : ShapedOutboundError :=
  if t = [] then
    ⟨.unknown, units "send failed with no error message", UNKNOWN_MESSAGE, false⟩
  else if NOT_SENT t then
    ⟨.transient, truncate t 200, units "This message was NOT sent — " ++ reasonOf t ++ units ".",
      true⟩
  else match smtpTransient t with
  | some code =>
      ⟨.transient, smtpSummary code, BUSY_MESSAGE, true⟩
  | none =>
      if quotaTest t then
        if (units "rate-limited:").isPrefixOf t then
          ⟨.transient, truncate t 200, BUSY_MESSAGE, true⟩
        else
          ⟨.transient, httpSummary ((httpStatus t).getD (units "403")), BUSY_MESSAGE, true⟩
      else if authTest t then
        ⟨.auth, truncate t 200, truncate t 200 ++ units ". Then tap Try again.", true⟩
      else if UNSUPPORTED t then
        ⟨.unsupported, truncate t 200, UNSUPPORTED_MESSAGE, false⟩
      else
        ⟨.unknown, if isShapedSummary t then truncate t 220
          else units "send failed: " ++ truncate t 200, UNKNOWN_MESSAGE, false⟩

/-- Every test reads the one flattened text. -/
def textOf (raw : Text) : Text := singleLine (trimBlank isBlank raw)

def shapeOutboundError (raw : Text) : ShapedOutboundError := shapeText (textOf raw)

/-! ## Classes -/

/-- The failures that are proven to have sent nothing and are worth another try. -/
def transientTest (t : Text) : Bool := NOT_SENT t || (smtpTransient t).isSome || quotaTest t

def kindOf (t : Text) : OutboundErrorKind :=
  if transientTest t then .transient
  else if authTest t then .auth
  else if UNSUPPORTED t then .unsupported
  else .unknown

def OutboundErrorKind.canRetry : OutboundErrorKind → Bool
  | .transient | .auth => true
  | .unsupported | .unknown => false

/-- The class is what decides whether a send can be tried again. -/
theorem shapeText_kind (t : Text) :
    (shapeText t).kind = kindOf t ∧ (shapeText t).canRetry = (kindOf t).canRetry := by
  by_cases empty : t = []
  · subst empty
    decide
  rw [shapeText, if_neg empty, kindOf, transientTest]
  by_cases early : NOT_SENT t = true
  · simp [early, OutboundErrorKind.canRetry]
  rw [if_neg early]
  cases code : smtpTransient t with
  | some code => simp [OutboundErrorKind.canRetry]
  | none =>
      simp only [Bool.not_eq_true] at early
      simp only [early, Option.isSome_none, Bool.or_false, Bool.false_or]
      split_ifs <;> exact ⟨rfl, rfl⟩

/-! ## Flat texts -/

theorem textOf_flat (raw : Text) : Flat isBlank SPACE (textOf raw) :=
  flat_trimBlank (by decide) _

theorem textOf_eq {t : Text} (flat : Flat isBlank SPACE t) : textOf t = t := by
  rw [textOf, flat.trimBlank_eq, singleLine, flat.oneSpace_eq, flat.trimBlank_eq]

/-! ## What a cut keeps -/

/-- The text cut before unit `n`, as `truncate` leaves it. -/
def cutAt (n : ℕ) (t : Text) : Text := t.take n ++ [ELLIPSIS]

theorem truncate_of_le {t : Text} {n : ℕ} (short : t.length ≤ n) : truncate t n = t := if_pos short

theorem truncate_of_lt {t : Text} {n : ℕ} (long : n < t.length) :
    truncate t n = cutAt (n - 1) t := if_neg (by omega)

theorem isPrefixOf_take {p t : Text} {n : ℕ} (fits : p.length ≤ n) :
    p.isPrefixOf (t.take n) = p.isPrefixOf t := by
  rw [Bool.eq_iff_iff, List.isPrefixOf_iff_prefix, List.isPrefixOf_iff_prefix,
    List.prefix_take_iff]
  exact and_iff_left fits

theorem isPrefixOf_cutAt {p t : Text} {n : ℕ} (fits : p.length ≤ n) (long : n ≤ t.length) :
    p.isPrefixOf (cutAt n t) = p.isPrefixOf t := by
  rw [← isPrefixOf_take (t := t) fits, ← isPrefixOf_take (t := cutAt n t) fits, cutAt,
    List.take_append_of_le_length (by simpa using long), List.take_take, min_self]

@[simp]
theorem lower_append (a b : Text) : lower (a ++ b) = lower a ++ lower b := List.map_append

theorem lower_take (t : Text) (n : ℕ) : lower (t.take n) = (lower t).take n := List.map_take

theorem seen_cutAt {ws : List Text} {t : Text} {n : ℕ}
    (foreign : ∀ w ∈ ws, w ≠ [] ∧ ELLIPSIS ∉ w) :
    seen ws (cutAt n t) = seen ws (t.take n) := seen_snoc foreign

theorem seen_lower_cutAt {ws : List Text} {t : Text} {n : ℕ}
    (foreign : ∀ w ∈ ws, w ≠ [] ∧ ELLIPSIS ∉ w) :
    seen ws (lower (cutAt n t)) = seen ws (lower (t.take n)) := by
  rw [cutAt, lower_append]
  exact seen_snoc foreign

theorem seen_of_take {ws : List Text} {t : Text} {n : ℕ} (found : seen ws (t.take n) = true) :
    seen ws t = true := by
  have := seen_append_right found (t.drop n)
  rwa [List.take_append_drop] at this

theorem seen_lower_of_take {ws : List Text} {t : Text} {n : ℕ}
    (found : seen ws (lower (t.take n)) = true) : seen ws (lower t) = true := by
  rw [lower_take] at found
  exact seen_of_take found

theorem takeWhile_head {head rest : Text} (dark : ∀ u ∈ head, isBlank u = false) :
    ((head ++ SPACE :: rest).takeWhile fun u => !isBlank u) = head := by
  rw [List.takeWhile_append_of_pos (by simpa using dark)]
  simp [show isBlank SPACE = true by decide]

/-- A status stands behind the first word. -/
theorem httpStatus_eq_some {t s : Text} : httpStatus t = some s ↔
    ∃ head rest, t = head ++ SPACE :: (s ++ SPACE :: rest) ∧ head ≠ [] ∧
      (∀ u ∈ head, isBlank u = false) ∧ s.length = 3 ∧ ∀ d ∈ s, isDigit d = true := by
  constructor
  · intro found
    rw [httpStatus] at found
    split at found
    · next before a b c after rest shape =>
      split at found
      · next guard =>
        cases found
        obtain ⟨⟨⟨⟨⟨nonempty, rfl⟩, da⟩, db⟩, dc⟩, rfl⟩ : (((((t.takeWhile fun u => !isBlank u) ≠ [] ∧
            before = SPACE) ∧ isDigit a = true) ∧ isDigit b = true) ∧ isDigit c = true) ∧
            after = SPACE := by simpa only [Bool.and_eq_true, decide_eq_true_eq] using guard
        refine ⟨t.takeWhile fun u => !isBlank u, rest, ?_, nonempty, ?_, rfl, by simp [da, db, dc]⟩
        · have head : (t.takeWhile fun u => !isBlank u) <+: t := List.takeWhile_prefix _
          have split := List.prefix_append_drop head
          rw [shape] at split
          exact split
        · intro u mem
          simpa using List.mem_takeWhile_imp mem
      · cases found
    · cases found
  · rintro ⟨head, rest, rfl, nonempty, dark, three, digits⟩
    obtain ⟨a, b, c, rfl⟩ := List.length_eq_three.1 three
    have here : isDigit a = true ∧ isDigit b = true ∧ isDigit c = true := by simpa using digits
    rw [httpStatus]
    simp only [takeWhile_head dark, List.drop_left, List.cons_append, List.nil_append]
    simp [nonempty, here]

theorem httpStatus_append {t s : Text} (found : httpStatus t = some s) (more : Text) :
    httpStatus (t ++ more) = some s := by
  obtain ⟨head, rest, rfl, facts⟩ := httpStatus_eq_some.1 found
  exact httpStatus_eq_some.2 ⟨head, rest ++ more, by simp, facts⟩

theorem httpStatus_of_take {t s : Text} {n : ℕ} (found : httpStatus (t.take n) = some s) :
    httpStatus t = some s := by
  have := httpStatus_append found (t.drop n)
  rwa [List.take_append_drop] at this

theorem httpStatus_cutAt (t : Text) (n : ℕ) : httpStatus (cutAt n t) = httpStatus (t.take n) := by
  refine Option.ext fun s => ⟨fun found => ?_, fun found => httpStatus_append found [ELLIPSIS]⟩
  obtain ⟨head, rest, eq, facts⟩ := httpStatus_eq_some.1 found
  rcases List.eq_nil_or_concat rest with rfl | ⟨rest, x, rfl⟩
  · have ends := congrArg List.getLast? eq
    rw [cutAt, List.getLast?_concat] at ends
    rw [← List.cons_append, ← List.append_assoc, List.getLast?_concat] at ends
    have : ELLIPSIS = SPACE := Option.some.inj ends
    exact absurd this (by decide)
  · have longer : t.take n ++ [ELLIPSIS] = (head ++ SPACE :: (s ++ SPACE :: rest)) ++ [x] := by
      rw [← cutAt, eq]
      simp
    exact httpStatus_eq_some.2 ⟨head, rest, (List.append_inj' longer rfl).1, facts⟩

/-- Another word behind the first. -/
theorem httpStatus_none {head rest : Text} {u : ℕ} (dark : ∀ u ∈ head, isBlank u = false)
    (letter : isDigit u = false) : httpStatus (head ++ SPACE :: u :: rest) = none := by
  rw [httpStatus]
  simp only [takeWhile_head dark, List.drop_left]
  split
  · next shape =>
    cases shape
    simp [letter]
  · rfl

/-- Only the first 19 units are read. -/
theorem smtpTransient_take (t : Text) : smtpTransient (t.take 19) = smtpTransient t := by
  have fits : (units "smtp transient ").length ≤ 19 := by decide
  rw [smtpTransient, smtpTransient, isPrefixOf_take fits, List.drop_take]
  rcases t.drop 15 with - | ⟨a, - | ⟨b, - | ⟨c, - | ⟨d, rest⟩⟩⟩⟩ <;> rfl

theorem smtpTransient_cutAt {t : Text} {n : ℕ} (deep : 19 ≤ n) (long : n ≤ t.length) :
    smtpTransient (cutAt n t) = smtpTransient t := by
  rw [← smtpTransient_take t, ← smtpTransient_take (cutAt n t), cutAt,
    List.take_append_of_le_length (by simp; omega), List.take_take, min_eq_left deep]

/-! ## The tests behind a cut -/

section Cut

variable {t : Text} {n : ℕ}

theorem notSent_cutAt (deep : 40 ≤ n) (long : n < t.length) : NOT_SENT (cutAt n t) = NOT_SENT t :=
  isPrefixOf_cutAt (le_trans (by decide) deep) long.le

theorem length_cutAt (long : n < t.length) : (cutAt n t).length = n + 1 := by
  simp [cutAt, min_eq_left long.le]

theorem isShapedSummary_eq (long : 40 ≤ t.length) :
    isShapedSummary t = (units "send failed: ").isPrefixOf t := by
  have other : t ≠ units "send failed with no error message" := by
    rintro rfl
    exact absurd long (by decide)
  simp [isShapedSummary, other]

theorem isShapedSummary_cutAt (deep : 40 ≤ n) (long : n < t.length) :
    isShapedSummary (cutAt n t) = isShapedSummary t := by
  rw [isShapedSummary_eq (by rw [length_cutAt long]; omega), isShapedSummary_eq (by omega)]
  exact isPrefixOf_cutAt (le_trans (by decide) deep) long.le

theorem isShapedSummary_take (deep : 40 ≤ n) (long : n < t.length) :
    isShapedSummary (t.take n) = isShapedSummary t := by
  rw [isShapedSummary_eq (by simp; omega), isShapedSummary_eq (by omega)]
  exact isPrefixOf_take (le_trans (by decide) deep)

theorem quotaMarkers_cutAt (deep : 40 ≤ n) (long : n < t.length) :
    quotaMarkers (cutAt n t) = quotaMarkers (t.take n) := by
  have front : (units "rate-limited:").isPrefixOf (lower (cutAt n t)) =
      (units "rate-limited:").isPrefixOf (lower (t.take n)) := by
    have fits : (units "rate-limited:").length ≤ n := le_trans (by decide) deep
    rw [cutAt, lower_append, lower_take, isPrefixOf_take fits, ← isPrefixOf_take fits,
      List.take_append_of_le_length (by simp [lower]; omega), List.take_take, min_self,
      isPrefixOf_take fits]
  rw [quotaMarkers, quotaMarkers, front, seen_lower_cutAt (by decide),
    seen_lower_cutAt (by decide), seen_lower_cutAt (by decide)]

theorem quotaTest_cutAt (deep : 40 ≤ n) (long : n < t.length) :
    quotaTest (cutAt n t) = quotaTest (t.take n) := by
  rw [quotaTest, quotaTest, isShapedSummary_cutAt deep long, isShapedSummary_take deep long,
    quotaMarkers_cutAt deep long, httpStatus_cutAt]

theorem authMarkers_cutAt : authMarkers (cutAt n t) = authMarkers (t.take n) := by
  rw [authMarkers, authMarkers, seen_lower_cutAt (by decide),
    seen_lower_cutAt (by decide), seen_lower_cutAt (by decide),
    seen_lower_cutAt (by decide)]

theorem authTest_cutAt : authTest (cutAt n t) = authTest (t.take n) := by
  rw [authTest, authTest, httpStatus_cutAt, authMarkers_cutAt]

theorem unsupported_cutAt : UNSUPPORTED (cutAt n t) = UNSUPPORTED (t.take n) :=
  seen_cutAt (by decide)

theorem authMarkers_of_take (found : authMarkers (t.take n) = true) : authMarkers t = true := by
  simp only [authMarkers, Bool.or_eq_true] at found ⊢
  rcases found with ((one | two) | three) | four
  · exact .inl (.inl (.inl (seen_lower_of_take one)))
  · exact .inl (.inl (.inr (seen_lower_of_take two)))
  · exact .inl (.inr (seen_lower_of_take three))
  · exact .inr (seen_lower_of_take four)

theorem authTest_of_take (found : authTest (t.take n) = true) : authTest t = true := by
  simp only [authTest, Bool.or_eq_true, decide_eq_true_eq] at found ⊢
  exact found.imp httpStatus_of_take authMarkers_of_take

theorem unsupported_of_take (found : UNSUPPORTED (t.take n) = true) : UNSUPPORTED t = true :=
  seen_of_take found

theorem authMarkers_of_truncate (found : authMarkers (truncate t n) = true) :
    authMarkers t = true := by
  rw [truncate] at found
  split at found
  · exact found
  · exact authMarkers_of_take (authMarkers_cutAt.symm.trans found)

theorem unsupported_of_truncate (found : UNSUPPORTED (truncate t n) = true) :
    UNSUPPORTED t = true := by
  rw [truncate] at found
  split at found
  · exact found
  · exact unsupported_of_take (unsupported_cutAt.symm.trans found)

end Cut

/-! ## The second pass -/

theorem truncate_flat {t : Text} (flat : Flat isBlank SPACE t) {n : ℕ} (some : 1 < n) :
    Flat isBlank SPACE (truncate t n) := by
  rw [truncate]
  split
  · exact flat
  · exact flat.cut (by decide) (n - 1) (by omega)

/-- The tests that read the head of a text find in its cut what they found before. -/
theorem notSent_truncate (t : Text) : NOT_SENT (truncate t 200) = NOT_SENT t := by
  by_cases short : t.length ≤ 200
  · rw [truncate_of_le short]
  · rw [truncate_of_lt (by omega), notSent_cutAt (by decide) (by omega)]

theorem dark_digit {u : ℕ} (digit : isDigit u = true) : isBlank u = false := by
  simp only [isDigit, Bool.and_eq_true, decide_eq_true_eq] at digit
  obtain ⟨lo, hi⟩ := digit
  simp only [isBlank, Bool.or_eq_false_iff, Bool.and_eq_false_iff, decide_eq_false_iff_not]
  simp
  omega

/-- The summaries that name a status. -/
theorem flat_named {front code : Text} (flat : Flat isBlank SPACE front) (filled : front ≠ [])
    (digits : ∀ d ∈ code, isDigit d = true) :
    Flat isBlank SPACE (front ++ SPACE :: (code ++ units ") — nothing was sent")) := by
  have tail : Flat isBlank SPACE (units "— nothing was sent") := by decide
  have word : Flat isBlank SPACE (code ++ [41]) := by
    refine Flat.of_dark fun u mem => ?_
    rcases List.mem_append.1 mem with inside | last
    · exact dark_digit (digits u inside)
    · rw [List.mem_singleton.1 last]
      decide
  have split : code ++ units ") — nothing was sent" =
      (code ++ [41]) ++ SPACE :: units "— nothing was sent" := by
    have : units ") — nothing was sent" = [41] ++ SPACE :: units "— nothing was sent" := by
      decide
    rw [this, List.append_assoc]
  rw [split]
  exact flat.join (word.join tail (by simp) (by decide)) filled (by simp)

theorem dark_units {s : String} (dark : ((units s).all fun u => !isBlank u) = true) :
    ∀ u ∈ units s, isBlank u = false := by simpa using dark

theorem isPrefixOf_unlike {p q : Text} (unlike : ¬ p <+: q ∧ ¬ q <+: p) (rest : Text) :
    p.isPrefixOf (q ++ rest) = false := by
  rw [Bool.eq_false_iff, Ne, List.isPrefixOf_iff_prefix]
  intro begins
  rcases List.prefix_or_prefix_of_prefix begins (List.prefix_append q rest) with inside | across
  · exact unlike.1 inside
  · exact unlike.2 across

theorem isShapedSummary_starts {t : Text} (shaped : isShapedSummary t = true) :
    (units "send failed").isPrefixOf t = true := by
  simp only [isShapedSummary, Bool.or_eq_true, decide_eq_true_eq] at shaped
  rcases shaped with rfl | front
  · decide +kernel
  · rw [List.isPrefixOf_iff_prefix] at front ⊢
    have : units "send failed" <+: units "send failed: " := by decide
    exact this.trans front

theorem isShapedSummary_unlike {q : Text}
    (unlike : ¬ units "send failed" <+: q ∧ ¬ q <+: units "send failed") (rest : Text) :
    isShapedSummary (q ++ rest) = false := by
  rw [Bool.eq_false_iff]
  intro shaped
  have starts := isShapedSummary_starts shaped
  rw [isPrefixOf_unlike unlike rest] at starts
  cases starts

/-- The classifier's own `rate-limited:` summaries. -/
theorem quotaTest_own (rest : Text) : quotaTest (units "rate-limited: the mail " ++ rest) = true := by
  have shape : units "rate-limited: the mail " ++ rest =
      units "rate-limited:" ++ SPACE :: 116 :: (units "he mail " ++ rest) := by
    have : units "rate-limited: the mail " =
      units "rate-limited:" ++ SPACE :: 116 :: units "he mail " := by decide
    rw [this, List.append_assoc, List.cons_append, List.cons_append]
  have status : httpStatus (units "rate-limited: the mail " ++ rest) = none := by
    rw [shape]
    exact httpStatus_none (dark_units (by decide)) (by decide)
  have marked : quotaMarkers (units "rate-limited: the mail " ++ rest) = true := by
    have front : (units "rate-limited:").isPrefixOf
        (lower (units "rate-limited: the mail " ++ rest)) = true := by
      have whole : lower (units "rate-limited: the mail ") =
          units "rate-limited:" ++ units " the mail " := by decide
      rw [lower_append, whole, List.append_assoc, List.isPrefixOf_iff_prefix]
      exact List.prefix_append ..
    rw [quotaMarkers, front, Bool.or_true]
  have fresh : isShapedSummary (units "rate-limited: the mail " ++ rest) = false :=
    isShapedSummary_unlike (by decide) rest
  simp [quotaTest, status, marked, fresh]

theorem textOf_named {front code : Text} (flat : Flat isBlank SPACE front) (filled : front ≠ [])
    (digits : ∀ d ∈ code, isDigit d = true) :
    textOf (front ++ [SPACE] ++ code ++ units ") — nothing was sent") =
      front ++ [SPACE] ++ code ++ units ") — nothing was sent" := by
  have := flat_named flat filled digits
  rw [List.append_assoc, List.append_assoc]
  exact textOf_eq this

theorem smtpTransient_digits {t code : Text} (found : smtpTransient t = some code) :
    ∀ d ∈ code, isDigit d = true := by
  rw [smtpTransient] at found
  split at found
  · split at found
    · split at found
      · next guard =>
        cases found
        simp only [Bool.and_eq_true] at guard
        simp [guard.1.1.1, guard.1.1.2, guard.1.2]
      · cases found
    · cases found
  · cases found

theorem httpStatus_digits (t : Text) : ∀ d ∈ (httpStatus t).getD (units "403"),
    isDigit d = true := by
  cases found : httpStatus t with
  | none => decide +kernel
  | some code =>
      obtain ⟨-, -, -, -, -, -, digits⟩ := httpStatus_eq_some.1 found
      exact digits

/-- The statuses with which a quota marker is believed. -/
theorem quotaTest_status {t code : Text} (quota : quotaTest t = true)
    (found : httpStatus t = some code) : code = units "403" ∨ code = units "429" := by
  simp only [quotaTest, found, Bool.and_eq_true, Bool.or_eq_true, decide_eq_true_eq] at quota
  rcases quota.2 with ⟨-, (none | forbidden) | busy⟩ | busy
  · cases none
  · exact .inl (Option.some.inj forbidden)
  · exact .inr (Option.some.inj busy)
  · exact .inr (Option.some.inj busy)

/-- A `rate-limited:` text, cut. -/
theorem quotaTest_truncate {t : Text} (quota : quotaTest t = true)
    (front : (units "rate-limited:").isPrefixOf t = true) : quotaTest (truncate t 200) = true := by
  by_cases short : t.length ≤ 200
  · rwa [truncate_of_le short]
  rw [truncate_of_lt (by omega), quotaTest_cutAt (by decide) (by omega)]
  have fresh : isShapedSummary (t.take 199) = false := by
    rw [isShapedSummary_take (by decide) (by omega)]
    simp only [quotaTest, Bool.and_eq_true, Bool.not_eq_true'] at quota
    exact quota.1
  have marked : quotaMarkers (t.take 199) = true := by
    have lowered : (units "rate-limited:").isPrefixOf (lower (t.take 199)) = true := by
      rw [lower_take, isPrefixOf_take (by decide)]
      rw [List.isPrefixOf_iff_prefix] at front ⊢
      have : lower (units "rate-limited:") = units "rate-limited:" := by decide
      rw [← this]
      exact front.map _
    rw [quotaMarkers, lowered, Bool.or_true]
  cases found : httpStatus (t.take 199) with
  | none => simp [quotaTest, fresh, marked, found]
  | some code =>
      rcases quotaTest_status quota (httpStatus_of_take found) with rfl | rfl <;>
        simp [quotaTest, fresh, marked, found]

theorem transientTest_own (rest : Text) :
    transientTest (units "rate-limited: the mail " ++ rest) = true := by
  rw [transientTest, quotaTest_own, Bool.or_true]

theorem transientTest_smtpSummary {code : Text} (digits : ∀ d ∈ code, isDigit d = true) :
    transientTest (textOf (smtpSummary code)) = true := by
  have shape : units "rate-limited: the mail server deferred the send (SMTP " =
      units "rate-limited: the mail " ++ units "server deferred the send (SMTP" ++ [SPACE] := by
    decide
  have flat : Flat isBlank SPACE
      (units "rate-limited: the mail " ++ units "server deferred the send (SMTP") := by
    decide +kernel
  rw [smtpSummary, shape, textOf_named flat (by simp [units]) digits]
  simp only [List.append_assoc]
  exact transientTest_own _

theorem transientTest_httpSummary {status : Text} (digits : ∀ d ∈ status, isDigit d = true) :
    transientTest (textOf (httpSummary status)) = true := by
  have shape : units "rate-limited: the mail service rejected the send (HTTP " =
      units "rate-limited: the mail " ++ units "service rejected the send (HTTP" ++ [SPACE] := by
    decide
  have flat : Flat isBlank SPACE
      (units "rate-limited: the mail " ++ units "service rejected the send (HTTP") := by
    decide +kernel
  rw [httpSummary, shape, textOf_named flat (by simp [units]) digits]
  simp only [List.append_assoc]
  exact transientTest_own _

/-- What is worth another try stays so. -/
theorem transientTest_again {t : Text} (flat : Flat isBlank SPACE t)
    (early : transientTest t = true) : transientTest (textOf (shapeText t).summary) = true := by
  have filled : t ≠ [] := by
    rintro rfl
    exact absurd early (by decide)
  rw [shapeText, if_neg filled]
  by_cases unsent : NOT_SENT t = true
  · rw [if_pos unsent, textOf_eq (truncate_flat flat (by decide)), transientTest,
      notSent_truncate, unsent, Bool.true_or, Bool.true_or]
  rw [if_neg unsent]
  cases code : smtpTransient t with
  | some code => exact transientTest_smtpSummary (smtpTransient_digits ‹_›)
  | none =>
      have quota : quotaTest t = true := by
        simpa [transientTest, Bool.not_eq_true _ ▸ unsent, code] using early
      simp only [quota, if_true]
      by_cases limited : (units "rate-limited:").isPrefixOf t = true
      · rw [if_pos limited, textOf_eq (truncate_flat flat (by decide)), transientTest,
          quotaTest_truncate quota limited, Bool.or_true]
      · rw [if_neg limited]
        exact transientTest_httpSummary (httpStatus_digits t)

theorem kindOf_eq_unknown {t : Text} : kindOf t = .unknown ↔
    transientTest t = false ∧ authTest t = false ∧ UNSUPPORTED t = false := by
  rw [kindOf]
  split_ifs with early auth unsupported <;> simp [*]

theorem truncate_ne_nil {t : Text} (filled : t ≠ []) : truncate t 200 ≠ [] := by
  rw [truncate]
  split
  · exact filled
  · simp

/-- A text that is no class's, behind the classifier's own words. -/
theorem kindOf_wrapped {t : Text} (foreign : authMarkers t = false) (known : UNSUPPORTED t = false) :
    kindOf (units "send failed: " ++ t) = .unknown := by
  have shaped : isShapedSummary (units "send failed: " ++ t) = true := by
    rw [isShapedSummary, Bool.or_eq_true, List.isPrefixOf_iff_prefix]
    exact .inr (List.prefix_append ..)
  have status : httpStatus (units "send failed: " ++ t) = none := by
    have shape : units "send failed: " = units "send" ++ SPACE :: 102 :: units "ailed: " := by
      decide
    rw [shape, List.append_assoc, List.cons_append, List.cons_append]
    exact httpStatus_none (dark_units (by decide)) (by decide)
  have smtp : smtpTransient (units "send failed: " ++ t) = none := by
    rw [smtpTransient, isPrefixOf_unlike (by decide)]
    rfl
  refine kindOf_eq_unknown.2 ⟨?_, ?_, ?_⟩
  · rw [transientTest, NOT_SENT, isPrefixOf_unlike (by decide), smtp, quotaTest, shaped]
    rfl
  · rw [authTest, status, authMarkers, lower_append, seen_append (by decide),
      seen_append (by decide), seen_append (by decide),
      seen_append (by decide), ← authMarkers, foreign]
    rfl
  · rw [UNSUPPORTED, seen_append (by decide), ← UNSUPPORTED, known]

/-- A failure of no class stays of none. -/
theorem kindOf_unknown_again {t : Text} (flat : Flat isBlank SPACE t)
    (unknown : kindOf t = .unknown) : kindOf (textOf (shapeText t).summary) = .unknown := by
  by_cases filled : t = []
  · subst filled
    decide
  obtain ⟨late, foreign, known⟩ := kindOf_eq_unknown.1 unknown
  obtain ⟨⟨unsent, smtp⟩, quota⟩ : (NOT_SENT t = false ∧ smtpTransient t = none) ∧
      quotaTest t = false := by simpa [transientTest] using late
  have markers : authMarkers t = false := by
    simp only [authTest, Bool.or_eq_false_iff] at foreign
    exact foreign.2
  have summary : (shapeText t).summary = if isShapedSummary t then truncate t 220
      else units "send failed: " ++ truncate t 200 := by
    simp [shapeText, filled, unsent, smtp, quota, foreign, known]
  rw [summary]
  split
  · next shaped =>
    rw [textOf_eq (truncate_flat flat (by decide))]
    by_cases short : t.length ≤ 220
    · rwa [truncate_of_le short]
    rw [truncate_of_lt (by omega)]
    refine kindOf_eq_unknown.2 ⟨?_, ?_, ?_⟩
    · rw [transientTest, notSent_cutAt (by decide) (by omega), unsent,
        smtpTransient_cutAt (by decide) (by omega), smtp, quotaTest,
        isShapedSummary_cutAt (by decide) (by omega), shaped]
      rfl
    · rw [Bool.eq_false_iff]
      intro found
      rw [authTest_cutAt] at found
      rw [authTest_of_take found] at foreign
      cases foreign
    · rw [Bool.eq_false_iff]
      intro found
      rw [unsupported_cutAt] at found
      rw [unsupported_of_take found] at known
      cases known
  · have split : units "send failed: " = units "send failed:" ++ [SPACE] := by decide
    have whole : Flat isBlank SPACE (units "send failed: " ++ truncate t 200) := by
      rw [split, List.append_assoc]
      exact Flat.join (by decide) (truncate_flat flat (by decide)) (by decide)
        (truncate_ne_nil filled)
    rw [textOf_eq whole]
    refine kindOf_wrapped ?_ ?_
    · rw [Bool.eq_false_iff]
      intro found
      rw [authMarkers_of_truncate found] at markers
      cases markers
    · rw [Bool.eq_false_iff]
      intro found
      rw [unsupported_of_truncate found] at known
      cases known

/-- A cut text past the tests that read its head. -/
theorem kindOf_cutAt {t : Text} (late : transientTest t = false) (long : 200 < t.length) :
    kindOf (cutAt 199 t) =
      if quotaTest (t.take 199) then .transient
      else if authTest (t.take 199) then .auth
      else if UNSUPPORTED (t.take 199) then .unsupported
      else .unknown := by
  obtain ⟨⟨unsent, smtp⟩, -⟩ : (NOT_SENT t = false ∧ smtpTransient t = none) ∧
      quotaTest t = false := by simpa [transientTest] using late
  rw [kindOf, transientTest, notSent_cutAt (by decide) (by omega), unsent,
    smtpTransient_cutAt (by decide) (by omega), smtp, quotaTest_cutAt (by decide) (by omega),
    authTest_cutAt, unsupported_cutAt]
  rfl

/-! ## The fixed point -/

/-- What decided the class of a flattened text is in the part the summary keeps: of a text
that is cut, and is of a class decided by a marker anywhere in it. -/
def KeepsMarkers (t : Text) : Prop :=
  t.length ≤ 200 ∨ transientTest t = true ∨ (authTest t = false ∧ UNSUPPORTED t = false) ∨
    quotaTest (t.take 199) = false ∧
      if authTest t then authTest (t.take 199) = true else UNSUPPORTED (t.take 199) = true

/-- The class of a stored summary. -/
theorem kindOf_again {t : Text} (flat : Flat isBlank SPACE t) :
    kindOf (textOf (shapeText t).summary) = kindOf t ↔ KeepsMarkers t := by
  by_cases early : transientTest t = true
  · simp [kindOf, transientTest_again flat early, early, KeepsMarkers]
  rw [Bool.not_eq_true] at early
  obtain ⟨⟨unsent, smtp⟩, quota⟩ : (NOT_SENT t = false ∧ smtpTransient t = none) ∧
      quotaTest t = false := by simpa [transientTest] using early
  by_cases unknown : authTest t = false ∧ UNSUPPORTED t = false
  · have none : kindOf t = .unknown := kindOf_eq_unknown.2 ⟨early, unknown⟩
    rw [kindOf_unknown_again flat none, none]
    simp [KeepsMarkers, unknown]
  have filled : t ≠ [] := by
    rintro rfl
    exact unknown (by decide)
  have summary : (shapeText t).summary = truncate t 200 := by
    rw [Bool.eq_false_iff, Bool.eq_false_iff, ← not_or, not_not] at unknown
    by_cases auth : authTest t = true
    · simp [shapeText, filled, unsent, smtp, quota, auth]
    · simp [shapeText, filled, unsent, smtp, quota, auth, unknown.resolve_left auth]
  rw [summary, textOf_eq (truncate_flat flat (by decide))]
  by_cases short : t.length ≤ 200
  · simp [truncate_of_le short, KeepsMarkers, short]
  rw [truncate_of_lt (by omega), kindOf_cutAt early (by omega), kindOf, KeepsMarkers]
  cases auth : authTest t with
  | true =>
      simp only [early, short, if_true, if_false, false_or, Bool.false_eq_true]
      cases quotaTest (t.take 199) <;> cases authTest (t.take 199) <;>
        cases UNSUPPORTED (t.take 199) <;> simp
  | false =>
      have kept : authTest (t.take 199) = false := by
        rw [Bool.eq_false_iff]
        intro found
        rw [authTest_of_take found] at auth
        cases auth
      have known : UNSUPPORTED t = true := by simpa [auth] using unknown
      simp only [early, short, known, kept, if_true, if_false, false_or, Bool.false_eq_true]
      cases quotaTest (t.take 199) <;> cases UNSUPPORTED (t.take 199) <;> simp

/-- **Shaping a summary again** finds its kind and its retry exactly when the cut has not
taken what decided them. -/
theorem reshape_iff (raw : Text) :
    ((shapeOutboundError (shapeOutboundError raw).summary).kind = (shapeOutboundError raw).kind ∧
      (shapeOutboundError (shapeOutboundError raw).summary).canRetry =
        (shapeOutboundError raw).canRetry) ↔ KeepsMarkers (textOf raw) := by
  rw [← kindOf_again (textOf_flat raw)]
  simp only [shapeOutboundError, (shapeText_kind _).1, (shapeText_kind _).2]
  exact ⟨And.left, fun same => ⟨same, congrArg _ same⟩⟩

/-- Gmail's answer to a token without the scope to send: its markers come late. -/
def scopeRejection : Text :=
  [units "gmail 403 ",
    units "https://gmail.googleapis.com/gmail/v1/users/me/messages/send ",
    units "\x7b \"error\": \x7b \"code\": 403, ",
    units "\"message\": \"Request had insufficient authentication scopes.\", ",
    units "\"errors\": [ \x7b \"message\": \"Insufficient Permission\", ",
    units "\"domain\": \"global\", \"reason\": \"insufficientPermissions\" \x7d ], ",
    units "\"status\": \"PERMISSION_DENIED\" \x7d \x7d"].flatten

/-- A quota word in a long first token, before a status that it is not believed with. -/
def longToken : Text :=
  units "rateLimitExceeded" ++ List.replicate 190 97 ++ units " 500 it is not supported yet"

theorem reshape_reclassifies :
    ((shapeOutboundError scopeRejection).kind = .auth ∧
      (shapeOutboundError (shapeOutboundError scopeRejection).summary).kind = .unknown) ∧
    ((shapeOutboundError longToken).canRetry = false ∧
      (shapeOutboundError (shapeOutboundError longToken).summary).canRetry = true) ∧
    ¬ ∀ raw, (shapeOutboundError (shapeOutboundError raw).summary).kind =
        (shapeOutboundError raw).kind ∧
      (shapeOutboundError (shapeOutboundError raw).summary).canRetry =
        (shapeOutboundError raw).canRetry := by
  have scope : (shapeOutboundError scopeRejection).kind = .auth ∧
      (shapeOutboundError (shapeOutboundError scopeRejection).summary).kind = .unknown := by
    decide +kernel
  refine ⟨scope, by decide +kernel, fun all => ?_⟩
  have same := (all scopeRejection).1
  rw [scope.1, scope.2] at same
  cases same

end Kiagent.Outbound.ErrorCopy
