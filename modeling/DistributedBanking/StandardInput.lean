import Mathlib.Data.List.TakeWhile
import DistributedBanking.Prompts

/-!
# Standard input

`BankIO` reads `std::cin`, a stream of bytes with two flags; an operation on a
stream that is not good reads nothing and sets `failbit`. `linesOf` are the
lines that successive calls of `read_line` return, and `typed` runs the prompts
on the stream. A stream is settled when only its end can have set a flag.
-/

namespace DistributedBanking.Stdin
open ClientProtocol ClientInput

def newline : UInt8 := 10

def unsigned : Bytes → Bytes
  | [] => []
  | c :: rest => if c = 43 ∨ c = 45 then rest else c :: rest

def signedValue (text : Bytes) : ℤ :=
  let magnitude : ℕ :=
    ((unsigned text).takeWhile isdigit).foldl (fun acc c => acc * 10 + (c.toNat - 48)) 0
  if text.head? = some 45 then -magnitude else magnitude

structure Cin where
  rest : Bytes
  eofbit : Bool := false
  failbit : Bool := false
  deriving DecidableEq, Repr

namespace Cin

def good (cin : Cin) : Bool := !cin.eofbit && !cin.failbit

def clear (cin : Cin) : Cin := ⟨cin.rest, false, false⟩

def peek (cin : Cin) : Option UInt8 × Cin :=
  if !cin.good then (none, { cin with failbit := true })
  else
    match cin.rest with
    | [] => (none, { cin with eofbit := true })
    | c :: _ => (some c, cin)

/-- `std::cin.ignore()`. -/
def ignore (cin : Cin) : Cin :=
  if !cin.good then { cin with failbit := true }
  else
    match cin.rest with
    | [] => { cin with eofbit := true }
    | _ :: rest => { cin with rest }

/-- `std::cin.ignore(max, '\n')`. -/
def ignoreLine (cin : Cin) : Cin :=
  if !cin.good then { cin with failbit := true }
  else
    match cin.rest.dropWhile (· ≠ newline) with
    | [] => ⟨[], true, false⟩
    | _ :: rest => { cin with rest }

/-- `std::cin.get()`. -/
def get (cin : Cin) : Cin :=
  if !cin.good then { cin with failbit := true }
  else
    match cin.rest with
    | [] => ⟨[], true, true⟩
    | _ :: rest => { cin with rest }

/-- `std::getline(std::cin, input)` with an empty `input`. -/
def getline (cin : Cin) : Bytes × Cin :=
  if !cin.good then ([], { cin with failbit := true })
  else if cin.rest = [] then ([], ⟨[], true, true⟩)
  else
    match cin.rest.dropWhile (· ≠ newline) with
    | [] => (cin.rest, ⟨[], true, false⟩)
    | _ :: rest => (cin.rest.takeWhile (· ≠ newline), { cin with rest })

/-- `std::cin >> input` with an `int` that is 0: a number out of range gives the nearest one. -/
def extractInt (cin : Cin) : ℤ × Cin :=
  if !cin.good then (0, { cin with failbit := true })
  else
    let text := cin.rest.dropWhile isspace
    if text = [] then (0, ⟨[], true, true⟩)
    else
      let digits := (unsigned text).takeWhile isdigit
      let rest := (unsigned text).dropWhile isdigit
      let v := signedValue text
      if digits = [] then (0, ⟨rest, rest.isEmpty, true⟩)
      else if v < -2 ^ 31 then (-2 ^ 31, ⟨rest, rest.isEmpty, true⟩)
      else if 2 ^ 31 - 1 < v then (2 ^ 31 - 1, ⟨rest, rest.isEmpty, true⟩)
      else (v, ⟨rest, rest.isEmpty, false⟩)

end Cin

def ensureCleanBuffer (cin : Cin) : Cin :=
  let (next, cin) := cin.peek
  if next = some newline then cin.ignore else cin

def readLine (cin : Cin) : Bytes × Cin :=
  let (input, cin) := (ensureCleanBuffer cin).getline
  if cin.failbit then (input, cin.clear) else (input, cin)

def readInt (cin : Cin) : ℤ × Cin :=
  let (input, cin) := cin.extractInt
  if cin.failbit then (input, cin.clear.ignoreLine) else (input, cin)

def waitForEnter (cin : Cin) : Cin := cin.ignoreLine.get

def Settled (cin : Cin) : Prop := cin.eofbit = true ∨ cin.failbit = true → cin.rest = []

def afterBreak : Bytes → Bytes
  | [] => []
  | c :: rest => if c = newline then rest else c :: rest

def nextLine (text : Bytes) : Bytes := (afterBreak text).takeWhile (· ≠ newline)

def afterLine (text : Bytes) : Bytes := ((afterBreak text).dropWhile (· ≠ newline)).tail

theorem good_of_settled {cin : Cin} (h : Settled cin) (hrest : cin.rest ≠ []) :
    cin.good = true := by
  have hflags : ¬ (cin.eofbit = true ∨ cin.failbit = true) := fun hset => hrest (h hset)
  simp_all [Cin.good]

theorem getline_good (text : Bytes) :
    (Cin.getline ⟨text, false, false⟩).1 = text.takeWhile (· ≠ newline) ∧
      (Cin.getline ⟨text, false, false⟩).2.rest = (text.dropWhile (· ≠ newline)).tail ∧
      Settled (Cin.getline ⟨text, false, false⟩).2 := by
  by_cases hempty : text = []
  · subst hempty
    exact ⟨rfl, rfl, fun _ => rfl⟩
  have hread : Cin.getline ⟨text, false, false⟩ =
      match text.dropWhile (· ≠ newline) with
      | [] => (text, ⟨[], true, false⟩)
      | _ :: rest => (text.takeWhile (· ≠ newline), ⟨rest, false, false⟩) := by
    simp only [Cin.getline, Cin.good, Bool.not_false, Bool.and_self, Bool.not_true,
      Bool.false_eq_true, if_false, if_neg hempty]
  rw [hread]
  cases hline : text.dropWhile (· ≠ newline) with
  | nil =>
    have hall := List.dropWhile_eq_nil_iff.1 hline
    exact ⟨(List.takeWhile_eq_self_iff.mpr hall).symm, rfl, fun _ => rfl⟩
  | cons c rest => exact ⟨rfl, rfl, fun hset => by simp at hset⟩

theorem ensureCleanBuffer_good {text : Bytes} (h : text ≠ []) :
    ensureCleanBuffer ⟨text, false, false⟩ = ⟨afterBreak text, false, false⟩ := by
  cases text with
  | nil => exact absurd rfl h
  | cons c rest =>
    by_cases hc : c = newline
    · simp [ensureCleanBuffer, Cin.peek, Cin.ignore, Cin.good, afterBreak, hc]
    · simp [ensureCleanBuffer, Cin.peek, Cin.good, afterBreak, hc]

theorem readLine_settled {cin : Cin} (h : Settled cin) :
    (readLine cin).1 = nextLine cin.rest ∧ (readLine cin).2.rest = afterLine cin.rest ∧
      Settled (readLine cin).2 := by
  obtain ⟨text, eofbit, failbit⟩ := cin
  by_cases hempty : text = []
  · subst hempty
    cases eofbit <;> cases failbit <;> exact ⟨rfl, rfl, fun _ => rfl⟩
  have hflags : eofbit = false ∧ failbit = false := by
    have hgood := good_of_settled h hempty
    simpa [Cin.good] using hgood
  obtain ⟨rfl, rfl⟩ := hflags
  obtain ⟨hline, hrest, hsettled⟩ := getline_good (afterBreak text)
  rw [readLine, ensureCleanBuffer_good hempty]
  dsimp only
  split_ifs with hfail
  · exact ⟨hline, hrest, fun hset => by simp [Cin.clear] at hset⟩
  · exact ⟨hline, hrest, hsettled⟩

theorem ignoreLine_good (text : Bytes) :
    (Cin.ignoreLine ⟨text, false, false⟩).rest = (text.dropWhile (· ≠ newline)).tail ∧
      Settled (Cin.ignoreLine ⟨text, false, false⟩) := by
  have hread : Cin.ignoreLine ⟨text, false, false⟩ =
      match text.dropWhile (· ≠ newline) with
      | [] => ⟨[], true, false⟩
      | _ :: rest => ⟨rest, false, false⟩ := by
    simp [Cin.ignoreLine, Cin.good]
  rw [hread]
  cases text.dropWhile (· ≠ newline) with
  | nil => exact ⟨rfl, fun _ => rfl⟩
  | cons c rest => exact ⟨rfl, fun hset => by simp at hset⟩

theorem get_settled {cin : Cin} (h : Settled cin) :
    cin.get.rest = cin.rest.tail ∧ Settled cin.get := by
  obtain ⟨text, eofbit, failbit⟩ := cin
  cases text with
  | nil => cases eofbit <;> cases failbit <;> exact ⟨rfl, fun _ => rfl⟩
  | cons c rest =>
    have hgood := good_of_settled h (List.cons_ne_nil c rest)
    have hflags : eofbit = false ∧ failbit = false := by simpa [Cin.good] using hgood
    obtain ⟨rfl, rfl⟩ := hflags
    exact ⟨rfl, fun hset => by simp [Cin.get, Cin.good] at hset⟩

theorem waitForEnter_settled {cin : Cin} (h : Settled cin) :
    (waitForEnter cin).rest = (cin.rest.dropWhile (· ≠ newline)).tail.tail ∧
      Settled (waitForEnter cin) := by
  have hline : cin.ignoreLine.rest = (cin.rest.dropWhile (· ≠ newline)).tail ∧
      Settled cin.ignoreLine := by
    obtain ⟨text, eofbit, failbit⟩ := cin
    by_cases hempty : text = []
    · subst hempty
      cases eofbit <;> cases failbit <;> exact ⟨rfl, fun _ => rfl⟩
    have hgood := good_of_settled h hempty
    have hflags : eofbit = false ∧ failbit = false := by simpa [Cin.good] using hgood
    obtain ⟨rfl, rfl⟩ := hflags
    exact ignoreLine_good text
  obtain ⟨hrest, hsettled⟩ := get_settled hline.2
  rw [hline.1] at hrest
  exact ⟨hrest, hsettled⟩

theorem length_dropWhile_lt {α : Type} {p : α → Bool} {l : List α} (h : l.takeWhile p ≠ []) :
    (l.dropWhile p).length < l.length := by
  have hsplit := congrArg List.length (List.takeWhile_append_dropWhile (p := p) (l := l))
  have hpos := List.length_pos_iff.mpr h
  rw [List.length_append] at hsplit
  omega

theorem length_unsigned_le (text : Bytes) : (unsigned text).length ≤ text.length := by
  cases text with
  | nil => exact le_rfl
  | cons c rest =>
    rw [unsigned]
    split_ifs
    · exact Nat.le_succ _
    · exact le_rfl

theorem extractInt_good (text : Bytes) :
    (Cin.extractInt ⟨text, false, false⟩).1 = 0 ∧
        (Cin.extractInt ⟨text, false, false⟩).2.failbit = true ∨
      (Cin.extractInt ⟨text, false, false⟩).2.rest.length < text.length ∧
        ((Cin.extractInt ⟨text, false, false⟩).2.failbit = false →
          Settled (Cin.extractInt ⟨text, false, false⟩).2) := by
  simp only [Cin.extractInt, Cin.good, Bool.not_false, Bool.and_self, Bool.not_true,
    Bool.false_eq_true, if_false]
  by_cases hblank : text.dropWhile isspace = []
  · simp [hblank]
  rw [if_neg hblank]
  have hskip := List.length_dropWhile_le isspace text
  have hsign := length_unsigned_le (text.dropWhile isspace)
  by_cases hdigits : (unsigned (text.dropWhile isspace)).takeWhile isdigit = []
  · simp [hdigits]
  rw [if_neg hdigits]
  have htaken := length_dropWhile_lt hdigits
  right
  split_ifs with hlow hhigh
  · exact ⟨by dsimp only; omega, fun hfail => by cases hfail⟩
  · exact ⟨by dsimp only; omega, fun hfail => by cases hfail⟩
  · refine ⟨by dsimp only; omega, fun _ hset => ?_⟩
    simpa using hset

theorem readInt_settled {cin : Cin} (h : Settled cin) :
    Settled (readInt cin).2 ∧
      ((readInt cin).1 ≠ 0 → (readInt cin).2.rest.length < cin.rest.length) := by
  obtain ⟨text, eofbit, failbit⟩ := cin
  by_cases hempty : text = []
  · subst hempty
    cases eofbit <;> cases failbit <;> exact ⟨fun _ => rfl, fun hne => absurd rfl hne⟩
  have hgood := good_of_settled h hempty
  have hflags : eofbit = false ∧ failbit = false := by simpa [Cin.good] using hgood
  obtain ⟨rfl, rfl⟩ := hflags
  have hextract := extractInt_good text
  rw [readInt]
  generalize Cin.extractInt ⟨text, false, false⟩ = out at hextract
  obtain ⟨v, cin⟩ := out
  have hline := ignoreLine_good cin.rest
  have hshort := List.length_dropWhile_le (· ≠ newline) cin.rest
  dsimp only at hextract ⊢
  split_ifs with hfail
  · refine ⟨hline.2, fun hne => ?_⟩
    obtain ⟨hzero, -⟩ | ⟨hlt, -⟩ := hextract
    · exact absurd hzero hne
    · rw [show cin.clear.ignoreLine.rest = _ from hline.1, List.length_tail]
      omega
  · obtain ⟨-, hset⟩ | ⟨hlt, hsettled⟩ := hextract
    · exact absurd hset hfail
    · exact ⟨hsettled (by simpa using hfail), fun _ => hlt⟩

def linesUpTo : ℕ → Bytes → List Bytes
  | 0, _ => []
  | fuel + 1, text => if text = [] then [] else nextLine text :: linesUpTo fuel (afterLine text)

/-- The lines that successive calls of `read_line` return, before the empty ones at the end. -/
def linesOf (text : Bytes) : List Bytes := linesUpTo text.length text

theorem length_afterLine_lt {text : Bytes} (h : text ≠ []) :
    (afterLine text).length < text.length := by
  cases text with
  | nil => exact absurd rfl h
  | cons c rest =>
    have hshort := List.length_dropWhile_le (· ≠ newline) rest
    rw [afterLine, afterBreak, List.length_tail, List.length_cons]
    split_ifs with hc
    · omega
    · rw [List.dropWhile_cons_of_pos (by simpa using hc)]
      omega

theorem linesUpTo_eq {fuel : ℕ} {text : Bytes} (h : text.length ≤ fuel) :
    linesUpTo fuel text = linesOf text := by
  induction hlen : text.length using Nat.strong_induction_on generalizing fuel text with
  | h n ih =>
    cases text with
    | nil => cases fuel <;> rfl
    | cons c rest =>
      have hlt := length_afterLine_lt (List.cons_ne_nil c rest)
      rw [List.length_cons] at h hlt hlen
      obtain ⟨fuel, rfl⟩ : ∃ m, fuel = m + 1 := ⟨fuel - 1, by omega⟩
      rw [linesOf, List.length_cons, linesUpTo, linesUpTo, if_neg (List.cons_ne_nil c rest),
        if_neg (List.cons_ne_nil c rest), ih _ (by omega) (by omega) rfl,
        ih _ (by omega) (by omega) rfl]

theorem linesOf_of_ne_nil {text : Bytes} (h : text ≠ []) :
    linesOf text = nextLine text :: linesOf (afterLine text) := by
  have hlt := length_afterLine_lt h
  obtain ⟨n, hn⟩ := Nat.exists_eq_succ_of_ne_zero (List.length_pos_iff.mpr h).ne'
  rw [linesOf, hn, linesUpTo, if_neg h, linesUpTo_eq (by omega)]

theorem headD_linesOf (text : Bytes) : (linesOf text).headD [] = nextLine text := by
  by_cases h : text = []
  · subst h
    rfl
  · rw [linesOf_of_ne_nil h, List.headD_cons]

theorem tail_linesOf (text : Bytes) : (linesOf text).tail = linesOf (afterLine text) := by
  by_cases h : text = []
  · subst h
    rfl
  · rw [linesOf_of_ne_nil h, List.tail_cons]

def readLines : ℕ → Cin → Cin
  | 0, cin => cin
  | k + 1, cin => readLines k (readLine cin).2

theorem readLines_settled {cin : Cin} (h : Settled cin) (k : ℕ) :
    Settled (readLines k cin) ∧ linesOf (readLines k cin).rest = (linesOf cin.rest).drop k ∧
      (readLines k cin).rest.length ≤ cin.rest.length := by
  induction k generalizing cin with
  | zero => exact ⟨h, rfl, le_rfl⟩
  | succ k ih =>
    obtain ⟨-, hrest, hsettled⟩ := readLine_settled h
    obtain ⟨hend, hlines, hlen⟩ := ih hsettled
    refine ⟨hend, ?_, ?_⟩
    · rw [readLines, hlines, hrest, ← tail_linesOf, ← List.drop_one, List.drop_drop, add_comm]
    · rw [readLines]
      apply hlen.trans
      rw [hrest]
      by_cases hempty : cin.rest = []
      · rw [hempty]
        exact le_rfl
      · exact (length_afterLine_lt hempty).le

theorem readLines_add (j k : ℕ) (cin : Cin) :
    readLines (j + k) cin = readLines k (readLines j cin) := by
  induction j generalizing cin with
  | zero => rw [Nat.zero_add, readLines]
  | succ j ih => rw [Nat.succ_add, readLines, readLines, ih]

section Typed
variable {α β : Type}

structure Terminal where
  cin : Cin
  output : List Output

def Output.isPrompt : Output → Bool
  | .prompt _ => true
  | .error _ => false

def promptsIn (output : List Output) : ℕ := output.countP Output.isPrompt

/-- The prompts at the stream; every prompt reads a line. -/
def typed (x : Input α) (t : Terminal) : Except InternalError α × Terminal :=
  let out := x.run.run ⟨linesOf t.cin.rest, []⟩
  (out.1, ⟨readLines (promptsIn out.2.output) t.cin, t.output ++ out.2.output⟩)

/-- A computation that reads a line for every prompt and does not look at what was shown. -/
def Tracks (x : Input α) : Prop :=
  ∀ lines out, x.run.run ⟨lines, out⟩ =
    ((x.run.run ⟨lines, []⟩).1,
      ⟨lines.drop (promptsIn (x.run.run ⟨lines, []⟩).2.output),
        out ++ (x.run.run ⟨lines, []⟩).2.output⟩)

theorem promptsIn_append (out out' : List Output) :
    promptsIn (out ++ out') = promptsIn out + promptsIn out' := List.countP_append

theorem Tracks.shows {x : Input α} {result : Except InternalError α} {shown : List Output}
    (hshown : promptsIn shown = 0)
    (h : ∀ c, x.run.run c = (result, ⟨c.lines, c.output ++ shown⟩)) : Tracks x := by
  intro lines out
  rw [h, h]
  simp [hshown]

theorem Tracks.pure (v : α) : Tracks (Pure.pure v : Input α) :=
  .shows rfl fun c => Prod.ext rfl (by rw [List.append_nil]; rfl)

theorem Tracks.throw (err : InternalError) : Tracks (throw err : Input α) :=
  .shows rfl fun c => Prod.ext rfl (by rw [List.append_nil]; rfl)

theorem Tracks.printError (msg : String) : Tracks (ClientInput.printError msg) :=
  .shows rfl fun c => run_printError msg c

theorem Tracks.lines {x : Input α} (h : Tracks x) (lines : List Bytes) :
    (x.run.run ⟨lines, []⟩).2.lines =
      lines.drop (promptsIn (x.run.run ⟨lines, []⟩).2.output) := by
  have hrun := congrArg (fun p => p.2.lines) (h lines [])
  exact hrun

theorem Tracks.bind {x : Input α} {f : α → Input β} (hx : Tracks x) (hf : ∀ a, Tracks (f a)) :
    Tracks (x >>= f) := by
  intro lines out
  have hlines := hx.lines lines
  rw [run_bind, run_bind, hx lines out]
  generalize x.run.run ⟨lines, []⟩ = p at hlines
  obtain ⟨result, lines', shown⟩ := p
  dsimp only at hlines ⊢
  cases result with
  | error err => rw [hlines]
  | ok a =>
    dsimp only
    rw [hf a _ (out ++ shown), hf a lines' shown, hlines, promptsIn_append, List.drop_drop,
      List.append_assoc]

theorem Tracks.getValidated (prompt : String) (accept : Bytes → Except String α)
    (exhausted : InternalError) (tries : ℕ) :
    Tracks (getValidated prompt accept exhausted tries) := by
  induction tries with
  | zero => exact (Tracks.printError _).bind fun _ => .throw exhausted
  | succ tries ih =>
    intro lines out
    rw [getValidated_run, getValidated_run]
    dsimp only
    split_ifs with hquit
    · simp [prompted, promptsIn, Output.isPrompt]
    cases accept (trimString (lines.headD [])) with
    | ok v => simp [prompted, promptsIn, Output.isPrompt]
    | error msg =>
      dsimp only [prompted]
      rw [ih lines.tail (out ++ [_] ++ [_]), ih lines.tail ([] ++ [_] ++ [_])]
      simp [promptsIn, List.countP_cons, Output.isPrompt, add_comm]

theorem tracks_fillAuthDetails (req : Command) : Tracks (fillAuthDetails req) :=
  (Tracks.getValidated _ _ _ _).bind fun _ => (Tracks.getValidated _ _ _ _).bind fun _ =>
    (Tracks.getValidated _ _ _ _).bind fun _ => .pure _

theorem tracks_fillCurrencyDetails (req : Command) : Tracks (fillCurrencyDetails req) :=
  (Tracks.getValidated _ _ _ _).bind fun _ => .pure _

theorem tracks_fillTransferAccountDetails (req : Command) :
    Tracks (fillTransferAccountDetails req) :=
  (Tracks.getValidated _ _ _ _).bind fun _ => (Tracks.getValidated _ _ _ _).bind fun _ => .pure _

theorem tracks_fillMonitorDetails (req : Command) : Tracks (fillMonitorDetails req) :=
  (Tracks.getValidated _ _ _ _).bind fun _ => .pure _

section Numbers
variable (stod : Bytes → Except NumberError UInt64)

theorem tracks_fillAmountDetails (req : Command) : Tracks (fillAmountDetails stod req) :=
  (Tracks.getValidated _ _ _ _).bind fun _ => .pure _

theorem tracks_fillAccountCreationDetails (req : Command) :
    Tracks (fillAccountCreationDetails stod req) :=
  (Tracks.getValidated _ _ _ _).bind fun _ => (Tracks.getValidated _ _ _ _).bind fun _ =>
    (Tracks.getValidated _ _ _ _).bind fun _ => (Tracks.getValidated _ _ _ _).bind fun _ =>
      .pure _

theorem tracks_payment (req : Command) :
    Tracks (do fillAmountDetails stod (← fillCurrencyDetails req)) :=
  (tracks_fillCurrencyDetails req).bind (tracks_fillAmountDetails stod)

theorem tracks_transfer (req : Command) :
    Tracks (do
      let cmd ← fillTransferAccountDetails req
      fillAmountDetails stod (← fillCurrencyDetails cmd)) :=
  (tracks_fillTransferAccountDetails req).bind (tracks_payment stod)

theorem Tracks.buildCommand (userInput : ℤ) : Tracks (buildCommand stod userInput) := by
  rw [ClientInput.buildCommand]
  dsimp only
  split_ifs
  · exact .throw _
  · exact tracks_fillAccountCreationDetails stod _
  · exact tracks_fillAuthDetails _
  · exact (tracks_fillAuthDetails _).bind (tracks_payment stod)
  · exact (tracks_fillAuthDetails _).bind (tracks_transfer stod)
  · exact (tracks_fillAuthDetails _).bind tracks_fillMonitorDetails
  · exact (Tracks.printError _).bind fun _ => .throw _

end Numbers

theorem typed_settled {t : Terminal} (h : Settled t.cin) (x : Input α) :
    Settled (typed x t).2.cin ∧ (typed x t).2.cin.rest.length ≤ t.cin.rest.length := by
  have hread := readLines_settled h (promptsIn (x.run.run ⟨linesOf t.cin.rest, []⟩).2.output)
  exact ⟨hread.1, hread.2.2⟩

/-- At the stream the prompts do what they do at its lines, and leave the lines that they have
left of them. -/
theorem typed_console {t : Terminal} (h : Settled t.cin) {x : Input α} (hx : Tracks x) :
    x.run.run ⟨linesOf t.cin.rest, t.output⟩ =
      ((typed x t).1, ⟨linesOf (typed x t).2.cin.rest, (typed x t).2.output⟩) := by
  rw [hx, typed]
  dsimp only
  rw [(readLines_settled h _).2.1]

theorem typed_bind {t : Terminal} (h : Settled t.cin) {x : Input α} {f : α → Input β}
    (hx : Tracks x) (hf : ∀ a, Tracks (f a)) :
    typed (x >>= f) t =
      match typed x t with
      | (.ok a, t') => typed (f a) t'
      | (.error err, t') => (.error err, t') := by
  have hlines := hx.lines (linesOf t.cin.rest)
  rw [typed, typed, run_bind]
  generalize x.run.run ⟨linesOf t.cin.rest, []⟩ = p at hlines
  obtain ⟨result, lines', shown⟩ := p
  have hread := (readLines_settled h (promptsIn shown)).2.1
  dsimp only at hlines ⊢
  cases result with
  | error err => rfl
  | ok a =>
    dsimp only
    rw [hf a lines' shown, typed, hread, ← hlines]
    dsimp only
    rw [promptsIn_append, readLines_add, List.append_assoc]

theorem typed_prompt {t : Terminal} (h : Settled t.cin) (prompt : String)
    (accept : Bytes → Except String α) (exhausted : InternalError) (tries : ℕ) :
    typed (getValidated prompt accept exhausted (tries + 1)) t =
      let (line, cin) := readLine t.cin
      let t' : Terminal := ⟨cin, t.output ++ [.prompt (promptText prompt)]⟩
      if trimString line = quit then (.error .userCanceled, t')
      else
        match accept (trimString line) with
        | .ok v => (.ok v, t')
        | .error msg =>
          typed (getValidated prompt accept exhausted tries)
            { t' with output := t'.output ++ [.error msg] } := by
  obtain ⟨hline, hrest, -⟩ := readLine_settled h
  have hround : (getValidated prompt accept exhausted (tries + 1)).run.run
      ⟨linesOf t.cin.rest, []⟩ = _ := getValidated_run tries _
  rw [headD_linesOf, ← hline] at hround
  rw [typed, hround]
  dsimp only
  split_ifs with hquit
  · rfl
  cases accept (trimString (readLine t.cin).1) with
  | ok v => rfl
  | error msg =>
    dsimp only [prompted]
    rw [Tracks.getValidated prompt accept exhausted tries _ ([] ++ [_] ++ [_]), tail_linesOf,
      ← hrest]
    simp only [typed, List.nil_append, promptsIn, List.append_assoc, List.cons_append,
      List.countP_cons, Output.isPrompt, Bool.false_eq_true, if_false, if_true, Nat.add_zero]
    rfl

end Typed
end DistributedBanking.Stdin
