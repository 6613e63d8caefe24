import DistributedBanking.ClientProgram

/-!
# What to type

A command is typed as the digit of its service and one line for each prompt;
after the answer two keys are waited for. `dialogue_keys` says that a user who
types like this sends these commands, whatever the lines hold around what the
prompts accept.
-/

namespace DistributedBanking.BankClient.Program
open ClientProtocol ClientInput Stdin

section Lines

inductive LinesAhead : Bytes → List Bytes → Bytes → Prop
  | nil {text : Bytes} : LinesAhead text [] text
  | cons {text next rest line : Bytes} {lines : List Bytes}
      (hread : Stdin.readLine ⟨text, false, false⟩ = (line, ⟨next, false, false⟩))
      (hrest : LinesAhead next lines rest) : LinesAhead text (line :: lines) rest

def lineKeys (line : Bytes) : Bytes := line ++ [newline]

theorem getline_line {line : Bytes} (h : newline ∉ line) (rest : Bytes) :
    Cin.getline ⟨line ++ newline :: rest, false, false⟩ = (line, ⟨rest, false, false⟩) := by
  have hinside : ∀ c ∈ line, decide (c ≠ newline) = true := fun c hc =>
    decide_eq_true fun heq => h (heq ▸ hc)
  have hdrop : (line ++ newline :: rest).dropWhile (· ≠ newline) = newline :: rest := by
    rw [List.dropWhile_append_of_pos hinside, List.dropWhile_cons_of_neg (by simp)]
  have htake : (line ++ newline :: rest).takeWhile (· ≠ newline) = line := by
    rw [List.takeWhile_append_of_pos hinside, List.takeWhile_cons_of_neg (by simp),
      List.append_nil]
  simp only [Cin.getline, Cin.good, Bool.not_false, Bool.and_self, Bool.not_true,
    Bool.false_eq_true, if_false, List.append_eq_nil_iff, List.cons_ne_nil, and_false, hdrop,
    htake]

theorem readLine_break {line : Bytes} (h : newline ∉ line) (rest : Bytes) :
    Stdin.readLine ⟨newline :: (line ++ newline :: rest), false, false⟩ =
      (line, ⟨rest, false, false⟩) := by
  rw [Stdin.readLine, ensureCleanBuffer_good (List.cons_ne_nil _ _), afterBreak, if_pos rfl,
    getline_line h]
  rfl

theorem readLine_line {line : Bytes} (hne : line ≠ []) (h : newline ∉ line) (rest : Bytes) :
    Stdin.readLine ⟨line ++ newline :: rest, false, false⟩ = (line, ⟨rest, false, false⟩) := by
  obtain ⟨c, cs, rfl⟩ := List.exists_cons_of_ne_nil hne
  have hc : ¬ c = newline := fun heq => h (heq ▸ List.mem_cons_self)
  rw [Stdin.readLine, List.cons_append, ensureCleanBuffer_good (List.cons_ne_nil _ _), afterBreak,
    if_neg hc, ← List.cons_append, getline_line h]
  rfl

theorem linesAhead_keys {lines : List Bytes} (h : ∀ line ∈ lines, line ≠ [] ∧ newline ∉ line)
    (rest : Bytes) : LinesAhead (lines.flatMap lineKeys ++ rest) lines rest := by
  induction lines with
  | nil => exact .nil
  | cons line lines ih =>
    obtain ⟨hne, hline⟩ := h line List.mem_cons_self
    rw [List.flatMap_cons, lineKeys, List.append_assoc, List.append_assoc]
    exact .cons (readLine_line hne hline _) (ih fun l hl => h l (.tail _ hl))

theorem linesAhead_menu {lines : List Bytes} (hsome : lines ≠ [])
    (h : ∀ line ∈ lines, line ≠ [] ∧ newline ∉ line) (rest : Bytes) :
    LinesAhead (newline :: (lines.flatMap lineKeys ++ rest)) lines rest := by
  obtain ⟨line, more, rfl⟩ := List.exists_cons_of_ne_nil hsome
  obtain ⟨hne, hline⟩ := h line List.mem_cons_self
  rw [List.flatMap_cons, lineKeys, List.append_assoc, List.append_assoc]
  exact .cons (readLine_break hline _) (linesAhead_keys (fun l hl => h l (.tail _ hl)) rest)

end Lines

section Reading
variable {α β : Type}

def Reads (x : Input α) (v : α) (lines : List Bytes) : Prop :=
  ∀ text rest out, LinesAhead text lines rest →
    ∃ shown, Stdin.typed x ⟨⟨text, false, false⟩, out⟩ = (.ok v, ⟨⟨rest, false, false⟩, shown⟩)

theorem settled_good (text : Bytes) : Settled ⟨text, false, false⟩ := fun hset => by simp at hset

theorem LinesAhead.split {text rest : Bytes} {lines more : List Bytes}
    (h : LinesAhead text (lines ++ more) rest) :
    ∃ next, LinesAhead text lines next ∧ LinesAhead next more rest := by
  induction lines generalizing text with
  | nil => exact ⟨text, .nil, h⟩
  | cons line lines ih =>
    cases h with
    | cons hread hrest =>
      obtain ⟨next, hlines, hmore⟩ := ih hrest
      exact ⟨next, .cons hread hlines, hmore⟩

theorem Reads.pure (v : α) : Reads (Pure.pure v : Input α) v [] := by
  intro text rest out h
  cases h
  exact ⟨out ++ [], rfl⟩

theorem Reads.bind {x : Input α} {f : α → Input β} {v : α} {w : β} {lines more : List Bytes}
    (hx : Reads x v lines) (htracks : Tracks x) (hcont : ∀ a, Tracks (f a))
    (hf : Reads (f v) w more) : Reads (x >>= f) w (lines ++ more) := by
  intro text rest out h
  obtain ⟨next, hlines, hmore⟩ := h.split
  obtain ⟨shown, hrun⟩ := hx text next out hlines
  obtain ⟨shown', hrun'⟩ := hf next rest shown hmore
  refine ⟨shown', ?_⟩
  rw [typed_bind (settled_good text) htracks hcont, hrun]
  exact hrun'

structure Says (line value : Bytes) : Prop where
  trimmed : trimString line = value
  stays : value ≠ quit
  whole : line ≠ [] ∧ newline ∉ line

theorem Says.reads {accept : Bytes → Except String α} {line value : Bytes} {v : α}
    (h : Says line value) (haccept : accept value = .ok v) (prompt : String)
    (exhausted : InternalError) (tries : ℕ) :
    Reads (getValidated prompt accept exhausted (tries + 1)) v [line] := by
  intro text rest out hahead
  cases hahead with
  | cons hread hrest =>
    cases hrest
    refine ⟨out ++ [.prompt (promptText prompt)], ?_⟩
    rw [typed_prompt (settled_good text), hread]
    dsimp only
    rw [h.trimmed, if_neg h.stays, haccept]

end Reading

section Commands
variable {stod : Bytes → Except NumberError UInt64}

inductive AuthLines (name : Bytes) (accNo : UInt32) (pw : Bytes) : List Bytes → Prop
  | intro {nameLine numberLine pwLine number : Bytes} (hname : Says nameLine name)
      (halpha : isAlpha name) (hnumber : Says numberLine number)
      (haccNo : convertUint32 number = .ok accNo) (hpw : Says pwLine pw)
      (hpassword : isPassword pw) : AuthLines name accNo pw [nameLine, numberLine, pwLine]

inductive PaymentLines (stod : Bytes → Except NumberError UInt64) (currency : UInt8) (v : UInt64) :
    List Bytes → Prop
  | intro {curLine valueLine cur value : Bytes} (hcur : Says curLine cur)
      (hcurrency : stringToCurrency.lookup (cur.map toupper) = some currency)
      (hvalue : Says valueLine value) (hstod : stod value = .ok v) :
      PaymentLines stod currency v [curLine, valueLine]

/-- The lines that are typed for a command. -/
inductive Typed (stod : Bytes → Except NumberError UInt64) : Command → List Bytes → Prop
  | opening {nameLine pwLine name pw : Bytes} {currency : UInt8} {v : UInt64} {more : List Bytes}
      (hname : Says nameLine name) (halpha : isAlpha name) (hpw : Says pwLine pw)
      (hpassword : isPassword pw) (hpayment : PaymentLines stod currency v more) :
      Typed stod
        { service := some serviceOpen, accountOwnerName := some name,
          accountPassword := some pw, currency := some currency, monetaryValue := some v }
        (nameLine :: pwLine :: more)
  | authenticated {service : UInt8} {name pw : Bytes} {accNo : UInt32} {lines : List Bytes}
      (hservice : service = serviceClose ∨ service = serviceGetBalance)
      (hauth : AuthLines name accNo pw lines) :
      Typed stod
        { service := some service, accountOwnerName := some name, accountNumber := some accNo,
          accountPassword := some pw } lines
  | payment {service currency : UInt8} {name pw : Bytes} {accNo : UInt32} {v : UInt64}
      {lines more : List Bytes} (hservice : service = serviceDeposit ∨ service = serviceWithdraw)
      (hauth : AuthLines name accNo pw lines) (hpayment : PaymentLines stod currency v more) :
      Typed stod
        { service := some service, accountOwnerName := some name, accountNumber := some accNo,
          accountPassword := some pw, currency := some currency, monetaryValue := some v }
        (lines ++ more)
  | transfer {name pw txName txNameLine txNumber txNumberLine : Bytes} {currency : UInt8}
      {accNo txAccNo : UInt32} {v : UInt64} {lines more : List Bytes}
      (hauth : AuthLines name accNo pw lines) (htxName : Says txNameLine txName)
      (htxAlpha : isAlpha txName) (htxNumber : Says txNumberLine txNumber)
      (htxAccNo : convertUint32 txNumber = .ok txAccNo)
      (hpayment : PaymentLines stod currency v more) :
      Typed stod
        { service := some serviceTransferFunds, accountOwnerName := some name,
          accountNumber := some accNo, accountPassword := some pw,
          txAccountOwnerName := some txName, txAccountNumber := some txAccNo,
          currency := some currency, monetaryValue := some v }
        (lines ++ ([txNameLine, txNumberLine] ++ more))
  | monitor {name pw time timeLine : Bytes} {accNo timeout : UInt32} {lines : List Bytes}
      (hauth : AuthLines name accNo pw lines) (htime : Says timeLine time)
      (htimeout : convertUint32 time = .ok timeout) :
      Typed stod
        { service := some serviceMonitor, accountOwnerName := some name,
          accountNumber := some accNo, accountPassword := some pw,
          monitorTimeoutSeconds := some timeout }
        (lines ++ [timeLine])

theorem reads_string {line name : Bytes} (h : Says line name) (halpha : isAlpha name)
    (prompt : String) : Reads (getValidatedString prompt) name [line] :=
  h.reads (if_pos halpha) _ _ _

theorem reads_password {line pw : Bytes} (h : Says line pw) (hpw : isPassword pw)
    (prompt : String) : Reads (getValidatedPassword prompt) pw [line] :=
  h.reads (if_pos hpw) _ _ _

theorem reads_currency {line cur : Bytes} {currency : UInt8} (h : Says line cur)
    (hcurrency : stringToCurrency.lookup (cur.map toupper) = some currency) (prompt : String) :
    Reads (getValidatedCurrency prompt) currency [line] :=
  h.reads (by rw [hcurrency]) _ _ _

theorem reads_number {α : Type} {convert : Bytes → Except NumberError α} {line text : Bytes}
    {v : α} (h : Says line text) (hconvert : convert text = .ok v) (prompt : String) :
    Reads (getValidatedNumber convert prompt) v [line] :=
  h.reads (by rw [hconvert]; rfl) _ _ _

theorem reads_authDetails {name pw : Bytes} {accNo : UInt32} {lines : List Bytes}
    (h : AuthLines name accNo pw lines) (req : Command) :
    Reads (fillAuthDetails req)
      { req with accountOwnerName := some name, accountNumber := some accNo,
                 accountPassword := some pw } lines := by
  cases h with
  | intro hname halpha hnumber haccNo hpw hpassword =>
    apply Reads.bind (reads_string hname halpha _) (.getValidated _ _ _ _)
    · exact fun _ => (Tracks.getValidated _ _ _ _).bind fun _ =>
        (Tracks.getValidated _ _ _ _).bind fun _ => .pure _
    apply Reads.bind (reads_number hnumber haccNo _) (.getValidated _ _ _ _)
    · exact fun _ => (Tracks.getValidated _ _ _ _).bind fun _ => .pure _
    apply Reads.bind (reads_password hpw hpassword _) (.getValidated _ _ _ _)
    · exact fun _ => .pure _
    · exact .pure _

theorem reads_payment {currency : UInt8} {v : UInt64} {lines : List Bytes}
    (h : PaymentLines stod currency v lines) (req : Command) :
    Reads (do fillAmountDetails stod (← fillCurrencyDetails req))
      { req with currency := some currency, monetaryValue := some v } lines := by
  cases h with
  | intro hcur hcurrency hvalue hstod =>
    have hcur' : Reads (fillCurrencyDetails req) { req with currency := some currency } [_] :=
      (reads_currency hcur hcurrency _).bind (.getValidated _ _ _ _) (fun _ => .pure _) (.pure _)
    apply hcur'.bind (tracks_fillCurrencyDetails req) (tracks_fillAmountDetails stod)
    exact (reads_number hvalue hstod _).bind (.getValidated _ _ _ _) (fun _ => .pure _) (.pure _)

theorem reads_buildCommand {cmd : Command} {lines : List Bytes} (h : Typed stod cmd lines)
    {service : UInt8} (hservice : cmd.service = some service) :
    Reads (ClientInput.buildCommand stod service.toNat) cmd lines := by
  cases h with
  | opening hname halpha hpw hpassword hpayment =>
    cases hservice
    cases hpayment with
    | intro hcur hcurrency hvalue hstod =>
      apply Reads.bind (reads_string hname halpha _) (.getValidated _ _ _ _)
      · exact fun _ => (Tracks.getValidated _ _ _ _).bind fun _ =>
          (Tracks.getValidated _ _ _ _).bind fun _ => (Tracks.getValidated _ _ _ _).bind fun _ =>
            .pure _
      apply Reads.bind (reads_password hpw hpassword _) (.getValidated _ _ _ _)
      · exact fun _ => (Tracks.getValidated _ _ _ _).bind fun _ =>
          (Tracks.getValidated _ _ _ _).bind fun _ => .pure _
      apply Reads.bind (reads_currency hcur hcurrency _) (.getValidated _ _ _ _)
      · exact fun _ => (Tracks.getValidated _ _ _ _).bind fun _ => .pure _
      apply Reads.bind (reads_number hvalue hstod _) (.getValidated _ _ _ _)
      · exact fun _ => .pure _
      · exact .pure _
  | authenticated hkind hauth =>
    cases hservice
    obtain rfl | rfl := hkind
    · exact reads_authDetails hauth _
    · exact reads_authDetails hauth _
  | payment hkind hauth hpayment =>
    cases hservice
    obtain rfl | rfl := hkind
    · exact (reads_authDetails hauth _).bind (tracks_fillAuthDetails _) (tracks_payment stod)
        (reads_payment hpayment _)
    · exact (reads_authDetails hauth _).bind (tracks_fillAuthDetails _) (tracks_payment stod)
        (reads_payment hpayment _)
  | transfer hauth htxName htxAlpha htxNumber htxAccNo hpayment =>
    cases hservice
    apply Reads.bind (reads_authDetails hauth _) (tracks_fillAuthDetails _)
      (tracks_transfer stod)
    have htx : ∀ req, Reads (fillTransferAccountDetails req) _ [_, _] := fun req =>
      (reads_string htxName htxAlpha _).bind (.getValidated _ _ _ _)
        (fun _ => (Tracks.getValidated _ _ _ _).bind fun _ => .pure _)
        ((reads_number htxNumber htxAccNo _).bind (.getValidated _ _ _ _) (fun _ => .pure _)
          (.pure { req with txAccountOwnerName := some _, txAccountNumber := some _ }))
    apply (htx _).bind (tracks_fillTransferAccountDetails _) (tracks_payment stod)
    exact reads_payment hpayment _
  | monitor hauth htime htimeout =>
    cases hservice
    apply Reads.bind (reads_authDetails hauth _) (tracks_fillAuthDetails _)
      tracks_fillMonitorDetails
    exact (reads_number htime htimeout _).bind (.getValidated _ _ _ _) (fun _ => .pure _) (.pure _)

theorem authLines_whole {name pw : Bytes} {accNo : UInt32} {lines : List Bytes}
    (h : AuthLines name accNo pw lines) :
    lines ≠ [] ∧ ∀ line ∈ lines, line ≠ [] ∧ newline ∉ line := by
  cases h with
  | intro hname halpha hnumber haccNo hpw hpassword =>
    exact ⟨List.cons_ne_nil _ _, by simp [hname.whole, hnumber.whole, hpw.whole]⟩

theorem paymentLines_whole {currency : UInt8} {v : UInt64} {lines : List Bytes}
    (h : PaymentLines stod currency v lines) :
    ∀ line ∈ lines, line ≠ [] ∧ newline ∉ line := by
  cases h with
  | intro hcur hcurrency hvalue hstod => simp [hcur.whole, hvalue.whole]

theorem typed_whole {cmd : Command} {lines : List Bytes} (h : Typed stod cmd lines) :
    lines ≠ [] ∧ ∀ line ∈ lines, line ≠ [] ∧ newline ∉ line := by
  cases h with
  | opening hname halpha hpw hpassword hpayment =>
    have hmore := paymentLines_whole hpayment
    exact ⟨List.cons_ne_nil _ _, by simpa [hname.whole, hpw.whole] using hmore⟩
  | authenticated hkind hauth => exact authLines_whole hauth
  | payment hkind hauth hpayment =>
    obtain ⟨hne, hlines⟩ := authLines_whole hauth
    refine ⟨List.append_ne_nil_of_left_ne_nil hne _, ?_⟩
    exact List.forall_mem_append.mpr ⟨hlines, paymentLines_whole hpayment⟩
  | transfer hauth htxName htxAlpha htxNumber htxAccNo hpayment =>
    obtain ⟨hne, hlines⟩ := authLines_whole hauth
    refine ⟨List.append_ne_nil_of_left_ne_nil hne _, ?_⟩
    refine List.forall_mem_append.mpr ⟨hlines, List.forall_mem_append.mpr ⟨?_, ?_⟩⟩
    · simp [htxName.whole, htxNumber.whole]
    · exact paymentLines_whole hpayment
  | monitor hauth htime htimeout =>
    obtain ⟨hne, hlines⟩ := authLines_whole hauth
    refine ⟨List.append_ne_nil_of_left_ne_nil hne _, ?_⟩
    exact List.forall_mem_append.mpr ⟨hlines, by simp [htime.whole]⟩

theorem typed_service {cmd : Command} {lines : List Bytes} (h : Typed stod cmd lines) :
    ∃ service, cmd.service = some service ∧ service.toNat ≤ 7 := by
  cases h with
  | authenticated hkind hauth => obtain rfl | rfl := hkind <;> exact ⟨_, rfl, by decide⟩
  | payment hkind hauth hpayment => obtain rfl | rfl := hkind <;> exact ⟨_, rfl, by decide⟩
  | _ => exact ⟨_, rfl, by decide⟩

theorem readInt_digit {service : UInt8} (hle : service.toNat ≤ 7) (rest : Bytes) :
    readInt ⟨(48 + service) :: newline :: rest, false, false⟩ =
      ((service.toNat : ℤ), ⟨newline :: rest, false, false⟩) := by
  have hd : (48 + service).toNat = 48 + service.toNat := by
    rw [UInt8.toNat_add]
    simp only [UInt8.reduceToNat]
    omega
  generalize 48 + service = d at hd
  have hdigit : isdigit d = true := by
    simp only [isdigit, UInt8.le_iff_toNat_le, hd, Bool.and_eq_true, decide_eq_true_eq]
    constructor
    · exact Nat.le_add_right _ _
    · exact Nat.add_le_add_left (show service.toNat ≤ 9 by omega) 48
  have hspace : ¬ isspace d = true := by
    intro hd'
    simp only [isspace, Bool.or_eq_true, decide_eq_true_eq, Bool.and_eq_true] at hd'
    obtain rfl | ⟨-, hhigh⟩ := hd'
    · have h32 : (32 : UInt8).toNat = 32 := rfl
      omega
    · have h13 : d.toNat ≤ 13 := UInt8.le_iff_toNat_le.mp hhigh
      omega
  have hsign : ¬ (d = 43 ∨ d = 45) := by
    intro hd'
    have h43 : (43 : UInt8).toNat = 43 := rfl
    have h45 : (45 : UInt8).toNat = 45 := rfl
    obtain rfl | rfl := hd' <;> omega
  have hdigits : (unsigned (d :: newline :: rest)).takeWhile isdigit = [d] := by
    rw [unsigned, if_neg hsign, List.takeWhile_cons_of_pos hdigit,
      List.takeWhile_cons_of_neg (by decide)]
  have hleft : (unsigned (d :: newline :: rest)).dropWhile isdigit = newline :: rest := by
    rw [unsigned, if_neg hsign, List.dropWhile_cons_of_pos hdigit,
      List.dropWhile_cons_of_neg (by decide)]
  have hvalue : signedValue (d :: newline :: rest) = service.toNat := by
    have hminus : ¬ (some d = some (45 : UInt8)) := fun heq => hsign (.inr (Option.some.inj heq))
    rw [signedValue, hdigits, List.head?_cons, if_neg hminus]
    simp [hd]
  have htext : (d :: newline :: rest).dropWhile isspace = d :: newline :: rest :=
    List.dropWhile_cons_of_neg hspace
  have hlow : ¬ ((service.toNat : ℤ) < -2 ^ 31) := by omega
  have hhigh : ¬ (2 ^ 31 - 1 < (service.toNat : ℤ)) := by omega
  have hextract : Cin.extractInt ⟨d :: newline :: rest, false, false⟩ =
      ((service.toNat : ℤ), ⟨newline :: rest, false, false⟩) := by
    simp only [Cin.extractInt, Cin.good, Bool.not_false, Bool.and_self, Bool.not_true,
      Bool.false_eq_true, if_false, htext, List.cons_ne_nil, hdigits, hleft, hvalue, if_neg hlow,
      if_neg hhigh, List.isEmpty_cons]
  rw [readInt, hextract]
  rfl

def keysOf (entry : Command × List Bytes) : Bytes :=
  (48 + entry.1.service.getD 0) :: newline :: (entry.2.flatMap lineKeys ++ [newline, newline])

theorem dialogue_read {cin cin' : Cin} {userInput : ℤ} {result : Except InternalError Command}
    {t : Terminal} (hint : readInt cin = (userInput, cin'))
    (htyped : Stdin.typed (ClientInput.buildCommand stod userInput) ⟨cin', []⟩ = (result, t))
    (rounds : ℕ) :
    dialogue stod (rounds + 1) cin = commandsFrom (dialogue stod rounds) t result :=
  dialogue_round (by rw [hint]; exact htyped) rounds

/-- The commands that are typed are the commands that are sent, until something that is no number
or 0 is typed at the menu. -/
theorem dialogue_keys {entries : List (Command × List Bytes)}
    (h : ∀ entry ∈ entries, Typed stod entry.1 entry.2) {final : Bytes}
    (hfinal : (readInt ⟨final, false, false⟩).1 = 0) {rounds : ℕ}
    (hrounds : entries.length < rounds) :
    dialogue stod rounds ⟨entries.flatMap keysOf ++ final, false, false⟩ =
      entries.map Prod.fst := by
  induction entries generalizing rounds with
  | nil =>
    obtain ⟨n, rfl⟩ : ∃ n, rounds = n + 1 := ⟨rounds - 1, by omega⟩
    rw [List.flatMap_nil, List.nil_append]
    have hround : (Stdin.typed (ClientInput.buildCommand stod (readInt ⟨final, false, false⟩).1)
        ⟨(readInt ⟨final, false, false⟩).2, []⟩).1 = .error .userQuit := by
      rw [hfinal]
      rfl
    rw [dialogue_round (Prod.ext hround rfl)]
    rfl
  | cons entry entries ih =>
    obtain ⟨n, rfl⟩ : ∃ n, rounds = n + 1 := ⟨rounds - 1, by omega⟩
    have htyped := h entry List.mem_cons_self
    obtain ⟨service, hservice, hle⟩ := typed_service htyped
    obtain ⟨hne, hwhole⟩ := typed_whole htyped
    have hahead := linesAhead_menu hne hwhole
      (newline :: newline :: (entries.flatMap keysOf ++ final))
    obtain ⟨shown, hrun⟩ := reads_buildCommand htyped hservice _ _ [] hahead
    have hdigit := readInt_digit hle (entry.2.flatMap lineKeys ++
      newline :: newline :: (entries.flatMap keysOf ++ final))
    have htext : (entry :: entries).flatMap keysOf ++ final =
        (48 + service) :: newline :: (entry.2.flatMap lineKeys ++
          newline :: newline :: (entries.flatMap keysOf ++ final)) := by
      simp [keysOf, hservice]
    have hrest := ih (fun e he => h e (.tail _ he)) (show entries.length < n by
      rw [List.length_cons] at hrounds
      omega)
    rw [htext, dialogue_read hdigit hrun, List.map_cons, ← hrest]
    rfl

def balanceOfAl : Command :=
  { service := some serviceGetBalance, accountOwnerName := some (ascii "Al"),
    accountNumber := some 10000, accountPassword := some (ascii "pw1") }

theorem two_commands_typed :
    dialogue answering.stod 3
        ⟨[(openAl, [ascii "Al ", ascii "pw1", ascii "sgd", ascii "5"]),
          (balanceOfAl, [ascii "Al", ascii "10000", ascii "pw1"])].flatMap keysOf ++ ascii "x",
          false, false⟩ =
      [openAl, balanceOfAl] := by
  have hname : Says (ascii "Al ") (ascii "Al") := by
    constructor <;> decide +kernel
  have hsame : Says (ascii "Al") (ascii "Al") := by
    constructor <;> decide +kernel
  have hpw : Says (ascii "pw1") (ascii "pw1") := by
    constructor <;> decide +kernel
  have hcur : Says (ascii "sgd") (ascii "sgd") := by
    constructor <;> decide +kernel
  have hvalue : Says (ascii "5") (ascii "5") := by
    constructor <;> decide +kernel
  have hnumber : Says (ascii "10000") (ascii "10000") := by
    constructor <;> decide +kernel
  have hopen : Typed answering.stod openAl [ascii "Al ", ascii "pw1", ascii "sgd", ascii "5"] :=
    .opening hname (by decide +kernel) hpw (by decide +kernel)
      ⟨hcur, by decide +kernel, hvalue, by decide +kernel⟩
  have hbalance : Typed answering.stod balanceOfAl [ascii "Al", ascii "10000", ascii "pw1"] :=
    .authenticated (.inr rfl)
      ⟨hsame, by decide +kernel, hnumber, by decide +kernel, hpw, by decide +kernel⟩
  refine dialogue_keys ?_ (by decide +kernel) (by decide)
  simp only [List.forall_mem_cons]
  exact ⟨hopen, hbalance, fun _ h => nomatch h⟩

end Commands
end DistributedBanking.BankClient.Program
