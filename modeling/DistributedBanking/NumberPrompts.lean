import Mathlib.Data.List.DropRight
import DistributedBanking.LongestPrefix
import DistributedBanking.Prompts

/-!
# Numbers at the console

`stoll` and `stod` convert the longest numeric prefix of a line and leave the
rest of it alone, and the prompts do not look at that rest. So a line with
something behind its number is taken for the number, and `stod` also knows
infinities and NaNs.
-/

namespace DistributedBanking.ClientInput
open ClientProtocol LongestPrefix

section Trim

theorem dropWhile_prefix {α : Type} {p : α → Bool} {l t : List α} (hl : l.dropWhile p = l)
    (ht : t <+: l) : t.dropWhile p = t := by
  rw [List.dropWhile_eq_self_iff] at hl ⊢
  intro hpos
  rw [ht.getElem hpos]
  exact hl (hpos.trans_le ht.length_le)

theorem dropWhile_trimString (line : Bytes) :
    (trimString line).dropWhile isspace = trimString line :=
  dropWhile_prefix (List.dropWhile_idempotent isspace line)
    (List.rdropWhile_prefix isspace (l := line.dropWhile isspace))

end Trim

section Integers

def digitsValue (digits : Bytes) : ℕ := digits.foldl (fun acc c => acc * 10 + (c.toNat - 48)) 0

structure Digits (digits : Bytes) : Prop where
  nonempty : digits ≠ []
  all : ∀ d ∈ digits, isdigit d = true

/-- Decimal integer literals and their values. -/
inductive IntegerLiteral : Bytes → ℤ → Prop
  | unsigned {digits : Bytes} (h : Digits digits) : IntegerLiteral digits (digitsValue digits)
  | positive {digits : Bytes} (h : Digits digits) :
      IntegerLiteral (43 :: digits) (digitsValue digits)
  | negative {digits : Bytes} (h : Digits digits) :
      IntegerLiteral (45 :: digits) (-(digitsValue digits : ℤ))

def StartsWith (line : Bytes) (v : ℤ) (rest : Bytes) : Prop :=
  ∃ text, line = text ++ rest ∧ IntegerLiteral text v ∧ ∀ d ∈ rest.head?, isdigit d = false

theorem startsWith_nil {line : Bytes} {v : ℤ} : StartsWith line v [] ↔ IntegerLiteral line v := by
  constructor
  · intro hstarts
    obtain ⟨text, hline, hliteral, -⟩ := hstarts
    rwa [hline, List.append_nil]
  · intro h
    exact ⟨line, (List.append_nil line).symm, h, fun d hd => by cases hd⟩

def signed (negative : Bool) (rest : Bytes) : Except NumberError ℤ :=
  let digits := rest.takeWhile isdigit
  if digits.isEmpty then .error .invalidArgument
  else
    let v : ℤ := if negative then -(digitsValue digits : ℤ) else digitsValue digits
    if v < -2 ^ 63 ∨ v > 2 ^ 63 - 1 then .error .outOfRange else .ok v

theorem takeWhile_digits {digits rest : Bytes} (h : Digits digits)
    (hrest : ∀ d ∈ rest.head?, isdigit d = false) :
    (digits ++ rest).takeWhile isdigit = digits := by
  rw [List.takeWhile_append_of_pos h.all]
  cases rest with
  | nil => rw [List.takeWhile_nil, List.append_nil]
  | cons d rest =>
    have hd : ¬ isdigit d = true := by simp [hrest d rfl]
    rw [List.takeWhile_cons_of_neg hd, List.append_nil]

theorem head?_dropWhile_digits (str : Bytes) :
    ∀ d ∈ (str.dropWhile isdigit).head?, isdigit d = false := by
  intro d hd
  have h := List.head?_dropWhile_not isdigit str
  rw [Option.mem_def.mp hd] at h
  exact h

theorem signed_ok_iff {negative : Bool} {str : Bytes} {v : ℤ} :
    signed negative str = .ok v ↔
      (-2 ^ 63 ≤ v ∧ v ≤ 2 ^ 63 - 1) ∧ ∃ digits rest, str = digits ++ rest ∧ Digits digits ∧
        (∀ d ∈ rest.head?, isdigit d = false) ∧
        v = if negative then -(digitsValue digits : ℤ) else digitsValue digits := by
  constructor
  · intro h
    have hall : ∀ d ∈ str.takeWhile isdigit, isdigit d = true := fun d hd =>
      List.mem_takeWhile_imp hd
    have hsplit : str = str.takeWhile isdigit ++ str.dropWhile isdigit :=
      List.takeWhile_append_dropWhile.symm
    rw [signed] at h
    by_cases hempty : (str.takeWhile isdigit).isEmpty = true
    · rw [if_pos hempty] at h
      cases h
    rw [if_neg hempty] at h
    dsimp only at h
    generalize hw : (if negative then -(digitsValue (str.takeWhile isdigit) : ℤ)
      else digitsValue (str.takeWhile isdigit)) = w at h
    by_cases hrange : w < -2 ^ 63 ∨ w > 2 ^ 63 - 1
    · rw [if_pos hrange] at h
      cases h
    rw [if_neg hrange] at h
    cases h
    rw [not_or, not_lt, not_lt] at hrange
    exact ⟨hrange, _, _, hsplit, ⟨fun hnil => hempty (by rw [hnil]; rfl), hall⟩,
      head?_dropWhile_digits str, hw.symm⟩
  · intro hread
    obtain ⟨hrange, digits, rest, hstr, hdigits, hrest, hv⟩ := hread
    have htake : str.takeWhile isdigit = digits := by
      rw [hstr]
      exact takeWhile_digits hdigits hrest
    have hnonempty : ¬ digits.isEmpty = true := by
      rw [List.isEmpty_iff]
      exact hdigits.nonempty
    have hfits : ¬ (v < -2 ^ 63 ∨ v > 2 ^ 63 - 1) := by
      rw [not_or, not_lt, not_lt]
      exact hrange
    rw [signed, htake, if_neg hnonempty, ← hv]
    exact if_neg hfits

theorem stoll_minus (str : Bytes) : stoll (45 :: str) = signed true str := rfl

theorem stoll_plus (str : Bytes) : stoll (43 :: str) = signed false str := rfl

theorem stoll_unsigned {line : Bytes} (htrim : line.dropWhile isspace = line)
    (hsign : ∀ c ∈ line.head?, c ≠ 45 ∧ c ≠ 43) : stoll line = signed false line := by
  rw [stoll, htrim]
  split
  rename_i negative rest heq
  split at heq
  · exact absurd rfl (hsign 45 rfl).1
  · exact absurd rfl (hsign 43 rfl).2
  · cases heq
    rfl

theorem isdigit_ne_sign {c : UInt8} (h : isdigit c = true) : c ≠ 45 ∧ c ≠ 43 := by
  constructor
  · rintro rfl
    cases h
  · rintro rfl
    cases h

theorem stoll_ok_iff {line : Bytes} (htrim : line.dropWhile isspace = line) {v : ℤ} :
    stoll line = .ok v ↔ (-2 ^ 63 ≤ v ∧ v ≤ 2 ^ 63 - 1) ∧ ∃ rest, StartsWith line v rest := by
  constructor
  · intro h
    by_cases hminus : ∃ str, line = 45 :: str
    · obtain ⟨str, rfl⟩ := hminus
      rw [stoll_minus] at h
      obtain ⟨hrange, digits, rest, rfl, hdigits, hrest, rfl⟩ := signed_ok_iff.mp h
      exact ⟨hrange, rest, 45 :: digits, rfl, .negative hdigits, hrest⟩
    by_cases hplus : ∃ str, line = 43 :: str
    · obtain ⟨str, rfl⟩ := hplus
      rw [stoll_plus] at h
      obtain ⟨hrange, digits, rest, rfl, hdigits, hrest, rfl⟩ := signed_ok_iff.mp h
      exact ⟨hrange, rest, 43 :: digits, rfl, .positive hdigits, hrest⟩
    · have hsign : ∀ c ∈ line.head?, c ≠ 45 ∧ c ≠ 43 := by
        intro c hc
        obtain ⟨str, hstr⟩ := List.head?_eq_some_iff.mp hc
        exact ⟨fun h45 => hminus ⟨str, h45 ▸ hstr⟩, fun h43 => hplus ⟨str, h43 ▸ hstr⟩⟩
      rw [stoll_unsigned htrim hsign] at h
      obtain ⟨hrange, digits, rest, rfl, hdigits, hrest, rfl⟩ := signed_ok_iff.mp h
      exact ⟨hrange, rest, digits, rfl, .unsigned hdigits, hrest⟩
  · intro hread
    obtain ⟨hrange, rest, text, hline, hliteral, hrest⟩ := hread
    cases hliteral with
    | unsigned hdigits =>
      have hsign : ∀ c ∈ line.head?, c ≠ 45 ∧ c ≠ 43 := by
        intro c hc
        rw [hline, List.head?_append_of_ne_nil _ hdigits.nonempty] at hc
        exact isdigit_ne_sign (hdigits.all c (List.mem_of_mem_head? hc))
      rw [stoll_unsigned htrim hsign]
      exact signed_ok_iff.mpr ⟨hrange, _, rest, hline, hdigits, hrest, rfl⟩
    | positive hdigits =>
      rw [hline, List.cons_append, stoll_plus]
      exact signed_ok_iff.mpr ⟨hrange, _, rest, rfl, hdigits, hrest, rfl⟩
    | negative hdigits =>
      rw [hline, List.cons_append, stoll_minus]
      exact signed_ok_iff.mpr ⟨hrange, _, rest, rfl, hdigits, hrest, rfl⟩

theorem convertUint32_ok_iff {line : Bytes} (htrim : line.dropWhile isspace = line) {v : UInt32} :
    convertUint32 line = .ok v ↔ ∃ rest, StartsWith line v.toNat rest := by
  have hlt := v.toNat_lt
  rw [convertUint32]
  constructor
  · intro h
    rcases hstoll : stoll line with err | w
    · rw [hstoll] at h
      cases h
    rw [hstoll] at h
    dsimp only at h
    split_ifs at h with hrange
    cases h
    obtain ⟨-, rest, hstarts⟩ := (stoll_ok_iff htrim).mp hstoll
    have hw : ((UInt32.ofNat w.toNat).toNat : ℤ) = w := by
      rw [UInt32.toNat_ofNat_of_lt' (show w.toNat < 2 ^ 32 by omega)]
      omega
    exact ⟨rest, by rw [hw]; exact hstarts⟩
  · intro hstarts
    have hstoll := (stoll_ok_iff htrim).mpr ⟨⟨by omega, by omega⟩, hstarts⟩
    rw [hstoll]
    dsimp only
    rw [if_neg (by omega), Int.toNat_natCast, UInt32.ofNat_toNat]

end Integers
section Doubles

def isxdigit (c : UInt8) : Bool := isdigit c || (65 ≤ c && c ≤ 70) || (97 ≤ c && c ≤ 102)

def dropSign : Bytes → Bytes
  | 43 :: rest => rest
  | 45 :: rest => rest
  | text => text

def isExponent (marker : UInt8) : Bytes → Bool
  | [] => true
  | c :: rest => toupper c = marker && !(dropSign rest).isEmpty && (dropSign rest).all isdigit

def isNumber (digit : UInt8 → Bool) (marker : UInt8) (text : Bytes) : Bool :=
  match text.dropWhile digit with
  | 46 :: rest =>
    !((text.takeWhile digit).isEmpty && (rest.takeWhile digit).isEmpty) &&
      isExponent marker (rest.dropWhile digit)
  | rest => !(text.takeWhile digit).isEmpty && isExponent marker rest

/-- A decimal or a hexadecimal numeral of `strtod` in the C locale. -/
def isFiniteNumeral (text : Bytes) : Bool :=
  match dropSign text with
  | 48 :: x :: rest =>
    if toupper x = 88 then isNumber isxdigit 80 rest else isNumber isdigit 69 (48 :: x :: rest)
  | rest => isNumber isdigit 69 rest

/-- The other spellings that `strtod` knows: `inf`, `infinity`, `nan`, `nan(chars)`. -/
def isSpecialNumeral (text : Bytes) : Bool :=
  let word := (dropSign text).map toupper
  word = ascii "INF" || word = ascii "INFINITY" || word = ascii "NAN" ||
    (word.take 4 = ascii "NAN(" && word.getLast? = some 41 &&
      ((word.drop 4).dropLast.all fun c => isalnum c || c = 95))

def isNumeral (text : Bytes) : Bool := isFiniteNumeral text || isSpecialNumeral text

/-- `std::stod`; `round` is the library's conversion of a numeral, if the result fits. -/
def stod (round : Bytes → Option UInt64) (str : Bytes) : Except NumberError UInt64 :=
  match longestPrefix isNumeral (str.dropWhile isspace) with
  | none => .error .invalidArgument
  | some text =>
    match round text with
    | none => .error .outOfRange
    | some v => .ok v

variable {round : Bytes → Option UInt64} {line : Bytes}

theorem stod_ok_iff (htrim : line.dropWhile isspace = line) {v : UInt64} :
    stod round line = .ok v ↔
      ∃ text, longestPrefix isNumeral line = some text ∧ round text = some v := by
  rw [stod, htrim]
  rcases longestPrefix isNumeral line with _ | text
  · simp
  · rcases hround : round text with _ | w
    · simp [hround]
    · simp [hround]

example : longestPrefix isNumeral (ascii "1.5e+3.7") = some (ascii "1.5e+3") := by decide +kernel
example : longestPrefix isNumeral (ascii "0xg") = some (ascii "0") := by decide +kernel
example : longestPrefix isNumeral (ascii "infinit") = some (ascii "inf") := by decide +kernel

end Doubles

section Returned
variable {α : Type} {convert : Bytes → Except NumberError α} {prompt : String}

def Open (c : Console) (k : ℕ) : Prop := ∀ j ≤ k, c.entry j ≠ quit

structure First (P : Bytes → Prop) (c : Console) (k : ℕ) : Prop where
  within : k < maxTries
  stays : Open c k
  holds : P (c.entry k)
  earlier : ∀ j < k, ¬ P (c.entry j)

theorem First.congr {P Q : Bytes → Prop} {c : Console} {k : ℕ}
    (hPQ : ∀ j, P (c.entry j) ↔ Q (c.entry j)) (h : First P c k) : First Q c k :=
  ⟨h.within, h.stays, (hPQ k).mp h.holds, fun j hj => mt (hPQ j).mpr (h.earlier j hj)⟩

theorem mapError_ok_iff {x : Except NumberError α} {v : α} :
    x.mapError (numberError prompt) = .ok v ↔ x = .ok v := by
  cases x with
  | error err => simp [Except.mapError]
  | ok w => simp [Except.mapError]

theorem mapError_error_iff {x : Except NumberError α} :
    (∃ msg, x.mapError (numberError prompt) = .error msg) ↔ ¬ ∃ v, x = .ok v := by
  cases x with
  | error err => simp [Except.mapError]
  | ok w => simp [Except.mapError]

theorem getValidatedNumber_returns {c c' : Console} {v : α}
    (h : (getValidatedNumber convert prompt).run.run c = (.ok v, c')) :
    ∃ k, First (fun line => ∃ v, convert line = .ok v) c k ∧ convert (c.entry k) = .ok v ∧
      c'.lines = c.lines.drop (k + 1) := by
  obtain ⟨k, hk, hreaches, hvalue, hlines⟩ := getValidated_returns h
  have hconvert := mapError_ok_iff.mp hvalue
  exact ⟨k, ⟨hk, hreaches.stays, ⟨v, hconvert⟩, fun j hj =>
    mapError_error_iff.mp (hreaches.refused j hj)⟩, hconvert, hlines⟩

theorem getValidatedNumber_of_first (prompt : String) {c : Console} {k : ℕ} {v : α}
    (h : First (fun line => ∃ v, convert line = .ok v) c k)
    (hconvert : convert (c.entry k) = .ok v) :
    ∃ c', (getValidatedNumber convert prompt).run.run c = (.ok v, c') ∧
      c'.lines = c.lines.drop (k + 1) := by
  have hreaches : Reaches (fun input => (convert input).mapError (numberError prompt)) c k :=
    ⟨h.stays, fun j hj => mapError_error_iff.mpr (h.earlier j hj)⟩
  obtain ⟨out, hrun⟩ : ∃ out, (getValidatedNumber convert prompt).run.run c =
      (.ok v, ⟨c.lines.drop (k + 1), out⟩) :=
    getValidated_of_reaches h.within hreaches (mapError_ok_iff.mpr hconvert)
  exact ⟨_, hrun, rfl⟩

end Returned

section Uint32
variable (prompt : String) (c : Console)

/-- A value is returned only if one of the five lines, before any quit, is entirely that number. -/
def Uint32Sound : Prop :=
  ∀ v c', (getValidatedNumber convertUint32 prompt).run.run c = (.ok v, c') →
    ∃ j < maxTries, Open c j ∧ IntegerLiteral (c.entry j) v.toNat

def NumberAhead (line : Bytes) : Prop := ∃ (v : UInt32) (rest : Bytes), StartsWith line v.toNat rest

/-- Nothing stands behind the first number that fits, or a later line is that number alone. -/
def Uint32Clean : Prop :=
  ∀ k, First NumberAhead c k → ∀ (v : UInt32) rest, StartsWith (c.entry k) v.toNat rest →
    rest = [] ∨ ∃ j, k < j ∧ j < maxTries ∧ Open c j ∧ IntegerLiteral (c.entry j) v.toNat

variable {prompt c}

theorem convertUint32_entry (k : ℕ) {v : UInt32} :
    convertUint32 (c.entry k) = .ok v ↔ ∃ rest, StartsWith (c.entry k) v.toNat rest :=
  convertUint32_ok_iff (dropWhile_trimString _)

theorem numberAhead_iff (k : ℕ) :
    (∃ v, convertUint32 (c.entry k) = .ok v) ↔ NumberAhead (c.entry k) :=
  exists_congr fun _ => convertUint32_entry k

theorem IntegerLiteral.ne_nil {text : Bytes} {v : ℤ} (h : IntegerLiteral text v) : text ≠ [] := by
  cases h with
  | unsigned hdigits => exact hdigits.nonempty
  | positive => exact List.cons_ne_nil _ _
  | negative => exact List.cons_ne_nil _ _

theorem IntegerLiteral.tail_digits {text : Bytes} {v : ℤ} (h : IntegerLiteral text v) :
    ∀ d ∈ text.tail, isdigit d = true := by
  cases h with
  | unsigned hdigits => exact fun d hd => hdigits.all d (List.mem_of_mem_tail hd)
  | positive hdigits => exact hdigits.all
  | negative hdigits => exact hdigits.all

theorem StartsWith.rest_eq_nil {line rest : Bytes} {v w : ℤ} (h : StartsWith line v rest)
    (hliteral : IntegerLiteral line w) : rest = [] := by
  obtain ⟨text, rfl, htext, hrest⟩ := h
  cases rest with
  | nil => rfl
  | cons d rest =>
    have hd : d ∈ (text ++ d :: rest).tail := by
      rw [List.tail_append_of_ne_nil htext.ne_nil]
      exact List.mem_append_right _ List.mem_cons_self
    have hnot := hrest d rfl
    rw [hliteral.tail_digits d hd] at hnot
    cases hnot

theorem uint32_sound_iff : Uint32Sound prompt c ↔ Uint32Clean c := by
  constructor
  · intro hsound k hfirst v rest hstarts
    have hconvert := (convertUint32_entry k).mpr ⟨rest, hstarts⟩
    obtain ⟨c', hrun, -⟩ := getValidatedNumber_of_first prompt
      (hfirst.congr fun j => (numberAhead_iff j).symm) hconvert
    obtain ⟨j, hj, hopen, hliteral⟩ := hsound v c' hrun
    rcases lt_trichotomy j k with hlt | heq | hgt
    · exact absurd ⟨v, [], startsWith_nil.mpr hliteral⟩ (hfirst.earlier j hlt)
    · rw [heq] at hliteral
      exact .inl (hstarts.rest_eq_nil hliteral)
    · exact .inr ⟨j, hgt, hj, hopen, hliteral⟩
  · intro hclean v c' hrun
    obtain ⟨k, hfirst, hconvert, -⟩ := getValidatedNumber_returns hrun
    obtain ⟨rest, hstarts⟩ := (convertUint32_entry k).mp hconvert
    rcases hclean k (hfirst.congr numberAhead_iff) v rest hstarts with
      hrest | ⟨j, -, hj, hopen, hliteral⟩
    · rw [hrest] at hstarts
      exact ⟨k, hfirst.within, hfirst.stays, startsWith_nil.mp hstarts⟩
    · exact ⟨j, hj, hopen, hliteral⟩

end Uint32

section Double
variable (round : Bytes → Option UInt64) (prompt : String) (c : Console)

/-- A value is returned only for a line, the last one taken, that is entirely a finite numeral. -/
def DoubleSound : Prop :=
  ∀ v c', (getValidatedNumber (stod round) prompt).run.run c = (.ok v, c') →
    ∃ k, k < c.lines.length ∧ c'.lines = c.lines.drop (k + 1) ∧ isFiniteNumeral (c.entry k)

def NumeralAhead (line : Bytes) : Prop :=
  ∃ text v, longestPrefix isNumeral line = some text ∧ round text = some v

/-- Nothing stands behind the first numeral that fits, and it is neither infinite nor a NaN. -/
def DoubleClean : Prop :=
  ∀ k, First (NumeralAhead round) c k → ∀ text, longestPrefix isNumeral (c.entry k) = some text →
    text = c.entry k ∧ isFiniteNumeral text

variable {round prompt c}

theorem stod_entry (k : ℕ) {v : UInt64} :
    stod round (c.entry k) = .ok v ↔
      ∃ text, longestPrefix isNumeral (c.entry k) = some text ∧ round text = some v :=
  stod_ok_iff (dropWhile_trimString _)

theorem numeralAhead_iff (k : ℕ) :
    (∃ v, stod round (c.entry k) = .ok v) ↔ NumeralAhead round (c.entry k) := by
  rw [NumeralAhead, exists_comm]
  exact exists_congr fun _ => stod_entry k

theorem lt_length_of_numeral {k : ℕ} {text : Bytes}
    (h : longestPrefix isNumeral (c.entry k) = some text) : k < c.lines.length := by
  by_contra hlen
  obtain ⟨hstart, hnumeral⟩ := longestPrefix_spec h
  have hempty : c.entry k = [] := by
    rw [Console.entry, List.getD_eq_getElem?_getD, List.getElem?_eq_none (not_lt.mp hlen)]
    rfl
  rw [hempty, List.prefix_nil] at hstart
  rw [hstart] at hnumeral
  exact absurd hnumeral (by decide +kernel)

theorem double_sound_iff : DoubleSound round prompt c ↔ DoubleClean round c := by
  constructor
  · intro hsound k hfirst text htext
    obtain ⟨text', v, htext', hround⟩ := hfirst.holds
    obtain ⟨c', hrun, hlines⟩ := getValidatedNumber_of_first prompt
      (hfirst.congr fun j => (numeralAhead_iff j).symm)
      ((stod_entry k).mpr ⟨text', htext', hround⟩)
    obtain ⟨j, hj, hdrop, hfinite⟩ := hsound v c' hrun
    have hk := lt_length_of_numeral htext
    have hjk : j = k := by
      have hlengths := congrArg List.length (hlines.symm.trans hdrop)
      rw [List.length_drop, List.length_drop] at hlengths
      omega
    rw [hjk] at hfinite
    have hself : longestPrefix isNumeral (c.entry k) = some (c.entry k) :=
      longestPrefix_self (by rw [isNumeral, hfinite]; rfl)
    rw [hself] at htext
    cases htext
    exact ⟨rfl, hfinite⟩
  · intro hclean v c' hrun
    obtain ⟨k, hfirst, hconvert, hlines⟩ := getValidatedNumber_returns hrun
    obtain ⟨text, htext, -⟩ := (stod_entry k).mp hconvert
    obtain ⟨hwhole, hfinite⟩ := hclean k (hfirst.congr numeralAhead_iff) text htext
    rw [hwhole] at hfinite
    exact ⟨k, lt_length_of_numeral htext, hlines, hfinite⟩

end Double

/-- Both number prompts accept numbers only as long as no line goes on behind its number. -/
theorem number_prompts_iff (round : Bytes → Option UInt64) (prompt : String) (c : Console) :
    (Uint32Sound prompt c ↔ Uint32Clean c) ∧ (DoubleSound round prompt c ↔ DoubleClean round c) :=
  ⟨uint32_sound_iff, double_sound_iff⟩

/-- "12abc" is taken for an account number, and "nan" for an amount. -/
theorem garbage_accepted :
    ((getValidatedNumber convertUint32 "Account Number").run.run ⟨[ascii "12abc"], []⟩).1 = .ok 12 ∧
      ¬ Uint32Sound "Account Number" ⟨[ascii "12abc"], []⟩ ∧
      ¬ DoubleSound (fun _ => some 0x7FF8000000000000) "Desired Amount" ⟨[ascii "nan"], []⟩ := by
  refine ⟨by decide +kernel, ?_, ?_⟩
  · intro hsound
    obtain ⟨j, -, -, hliteral⟩ := hsound 12 _ (Prod.ext (by decide +kernel) rfl)
    cases j with
    | zero => exact absurd (hliteral.tail_digits 97 (by decide +kernel)) (by decide)
    | succ j => exact hliteral.ne_nil rfl
  · intro hsound
    obtain ⟨k, hk, -, hfinite⟩ := hsound 0x7FF8000000000000 _ (Prod.ext (by decide +kernel) rfl)
    rw [Nat.lt_one_iff.mp hk] at hfinite
    exact absurd hfinite (by decide +kernel)

end DistributedBanking.ClientInput
