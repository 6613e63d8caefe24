import DistributedBanking.ClientInput

/-!
# Prompts at the console

What a prompt shows and which lines it takes. `getValidated_run` is one round
of its loop; the value that a prompt returns is that of the first line which is
accepted, among the first five and before any quit. Whatever is shown comes
after what was shown before.
-/

namespace DistributedBanking.ClientInput
open ClientProtocol

variable {α β : Type}

theorem run_bind (x : Input α) (f : α → Input β) (c : Console) :
    (x >>= f).run.run c =
      match x.run.run c with
      | (.ok a, c') => (f a).run.run c'
      | (.error err, c') => (.error err, c') := by
  simp only [ExceptT.run_bind, StateT.run_bind]
  rcases x.run.run c with ⟨err | a, c'⟩
  · rfl
  · rfl

theorem run_printError (msg : String) (c : Console) :
    (printError msg).run.run c = (.ok (), { c with output := c.output ++ [.error msg] }) := rfl

section Loop
variable {prompt : String} {accept : Bytes → Except String α} {exhausted : InternalError}

def promptText (prompt : String) : String := prompt ++ " (or type 'quit' to cancel)"

def prompted (prompt : String) (c : Console) : Console :=
  ⟨c.lines.tail, c.output ++ [.prompt (promptText prompt)]⟩

theorem getValidated_run (tries : ℕ) (c : Console) :
    (getValidated prompt accept exhausted (tries + 1)).run.run c =
      if trimString (c.lines.headD []) = quit then (.error .userCanceled, prompted prompt c)
      else
        match accept (trimString (c.lines.headD [])) with
        | .ok v => (.ok v, prompted prompt c)
        | .error msg =>
          (getValidated prompt accept exhausted tries).run.run
            { prompted prompt c with output := (prompted prompt c).output ++ [.error msg] } := by
  have hround : (getValidated prompt accept exhausted (tries + 1)).run.run c =
      (if trimString (c.lines.headD []) = quit then throw .userCanceled
        else
          match accept (trimString (c.lines.headD [])) with
          | .ok v => return v
          | .error msg => do
            printError msg
            getValidated prompt accept exhausted tries : Input α).run.run (prompted prompt c) := rfl
  rw [hround]
  split_ifs with hquit
  · rfl
  · rcases accept (trimString (c.lines.headD [])) with msg | v
    · rw [run_bind, run_printError]
    · rfl

def Console.entry (c : Console) (k : ℕ) : Bytes := trimString (c.lines.getD k [])

structure Reaches (accept : Bytes → Except String α) (c : Console) (k : ℕ) : Prop where
  stays : ∀ j ≤ k, c.entry j ≠ quit
  refused : ∀ j < k, ∃ msg, accept (c.entry j) = .error msg

theorem entry_zero (c : Console) : c.entry 0 = trimString (c.lines.headD []) := by
  rw [Console.entry]
  cases c.lines with
  | nil => rfl
  | cons line lines => rfl

theorem entry_tail (c : Console) (out : List Output) (k : ℕ) :
    (⟨c.lines.tail, out⟩ : Console).entry k = c.entry (k + 1) := by
  rw [Console.entry, Console.entry]
  cases c.lines with
  | nil => rfl
  | cons line lines => rfl

theorem drop_tail (c : Console) (k : ℕ) : c.lines.tail.drop k = c.lines.drop (k + 1) := by
  rw [← List.drop_one, List.drop_drop, add_comm]

theorem reaches_succ {c : Console} {k : ℕ} (out : List Output) :
    Reaches accept c (k + 1) ↔
      c.entry 0 ≠ quit ∧ (∃ msg, accept (c.entry 0) = .error msg) ∧
        Reaches accept ⟨c.lines.tail, out⟩ k := by
  constructor
  · intro h
    refine ⟨h.stays 0 (by omega), h.refused 0 (by omega), ?_, ?_⟩
    · intro j hj
      rw [entry_tail]
      exact h.stays (j + 1) (by omega)
    · intro j hj
      rw [entry_tail]
      exact h.refused (j + 1) (by omega)
  · intro hreaches
    obtain ⟨hstays, hrefused, hrest⟩ := hreaches
    constructor
    · intro j hj
      cases j with
      | zero => exact hstays
      | succ j =>
        rw [← entry_tail c out]
        exact hrest.stays j (by omega)
    · intro j hj
      cases j with
      | zero => exact hrefused
      | succ j =>
        rw [← entry_tail c out]
        exact hrest.refused j (by omega)

theorem reaches_zero {c : Console} (h : c.entry 0 ≠ quit) : Reaches accept c 0 :=
  ⟨fun j hj => by rwa [Nat.le_zero.mp hj], fun j hj => absurd hj (Nat.not_lt_zero j)⟩

theorem getValidated_returns {tries : ℕ} {c c' : Console} {v : α}
    (h : (getValidated prompt accept exhausted tries).run.run c = (.ok v, c')) :
    ∃ k < tries, Reaches accept c k ∧ accept (c.entry k) = .ok v ∧
      c'.lines = c.lines.drop (k + 1) := by
  induction tries generalizing c with
  | zero => cases h
  | succ tries ih =>
    rw [getValidated_run, ← entry_zero] at h
    split_ifs at h with hquit
    · cases h
    split at h
    · rename_i w haccept
      cases h
      exact ⟨0, by omega, reaches_zero hquit, haccept, List.drop_one.symm⟩
    · rename_i msg haccept
      obtain ⟨k, hk, hreaches, hvalue, hlines⟩ := ih h
      rw [prompted, entry_tail] at hvalue
      rw [prompted, drop_tail] at hlines
      exact ⟨k + 1, by omega, (reaches_succ _).mpr ⟨hquit, ⟨msg, haccept⟩, hreaches⟩, hvalue,
        hlines⟩

theorem getValidated_of_reaches {k tries : ℕ} (hk : k < tries) {c : Console} {v : α}
    (hreaches : Reaches accept c k) (hvalue : accept (c.entry k) = .ok v) :
    ∃ out, (getValidated prompt accept exhausted tries).run.run c =
      (.ok v, ⟨c.lines.drop (k + 1), out⟩) := by
  induction k generalizing tries c with
  | zero =>
    obtain ⟨tries, rfl⟩ := Nat.exists_eq_add_one_of_ne_zero (Nat.ne_of_gt hk)
    have hstays := hreaches.stays 0 (le_refl 0)
    rw [entry_zero] at hstays hvalue
    refine ⟨(prompted prompt c).output, ?_⟩
    rw [getValidated_run, if_neg hstays, hvalue, List.drop_one]
    rfl
  | succ k ih =>
    obtain ⟨tries, rfl⟩ := Nat.exists_eq_add_one_of_ne_zero (show tries ≠ 0 by omega)
    obtain ⟨msg, hrefused⟩ := hreaches.refused 0 (by omega)
    obtain ⟨hstays, -, hrest⟩ :=
      (reaches_succ ((prompted prompt c).output ++ [.error msg])).mp hreaches
    rw [entry_zero] at hstays hrefused
    rw [← entry_tail c ((prompted prompt c).output ++ [.error msg])] at hvalue
    obtain ⟨out, hrun⟩ := ih (show k < tries by omega) hrest hvalue
    refine ⟨out, ?_⟩
    rw [getValidated_run, if_neg hstays, hrefused, ← drop_tail]
    exact hrun

end Loop

section Shown

def Appends (x : Input α) : Prop := ∀ c, ∃ shown, (x.run.run c).2.output = c.output ++ shown

def Asks (x : Input α) : Prop :=
  ∀ c, ∃ fieldName shown, (x.run.run c).2.output = c.output ++ .prompt fieldName :: shown

theorem Asks.appends {x : Input α} (h : Asks x) : Appends x := by
  intro c
  obtain ⟨fieldName, shown, houtput⟩ := h c
  exact ⟨.prompt fieldName :: shown, houtput⟩

theorem Appends.pure (v : α) : Appends (Pure.pure v : Input α) :=
  fun _ => ⟨[], (List.append_nil _).symm⟩

theorem output_bind (x : Input α) {f : α → Input β} (hf : ∀ a, Appends (f a)) (c : Console) :
    ∃ more, ((x >>= f).run.run c).2.output = (x.run.run c).2.output ++ more := by
  rw [run_bind]
  rcases x.run.run c with ⟨err | a, c'⟩
  · exact ⟨[], (List.append_nil _).symm⟩
  · exact hf a c'

theorem Appends.bind {x : Input α} {f : α → Input β} (hx : Appends x) (hf : ∀ a, Appends (f a)) :
    Appends (x >>= f) := by
  intro c
  obtain ⟨shown, hshown⟩ := hx c
  obtain ⟨more, hmore⟩ := output_bind x hf c
  exact ⟨shown ++ more, by rw [hmore, hshown, List.append_assoc]⟩

theorem Asks.bind {x : Input α} {f : α → Input β} (hx : Asks x) (hf : ∀ a, Appends (f a)) :
    Asks (x >>= f) := by
  intro c
  obtain ⟨fieldName, shown, hshown⟩ := hx c
  obtain ⟨more, hmore⟩ := output_bind x hf c
  exact ⟨fieldName, shown ++ more, by rw [hmore, hshown, List.append_assoc]; rfl⟩

theorem Asks.round {prompt : String} {accept : Bytes → Except String α}
    {exhausted : InternalError} {tries : ℕ}
    (h : Appends (ClientInput.getValidated prompt accept exhausted tries)) :
    Asks (ClientInput.getValidated prompt accept exhausted (tries + 1)) := by
  intro c
  rw [getValidated_run]
  split_ifs
  · exact ⟨_, [], rfl⟩
  · split
    · exact ⟨_, [], rfl⟩
    · rename_i msg _
      obtain ⟨shown, hshown⟩ := h
        { prompted prompt c with output := (prompted prompt c).output ++ [.error msg] }
      exact ⟨promptText prompt, .error msg :: shown, by
        rw [hshown]
        simp [prompted]⟩

theorem Appends.getValidated (prompt : String) (accept : Bytes → Except String α)
    (exhausted : InternalError) (tries : ℕ) :
    Appends (getValidated prompt accept exhausted tries) := by
  induction tries with
  | zero => exact fun _ => ⟨_, rfl⟩
  | succ tries ih => exact (Asks.round ih).appends

theorem Asks.getValidated (prompt : String) (accept : Bytes → Except String α)
    (exhausted : InternalError) (tries : ℕ) :
    Asks (getValidated prompt accept exhausted (tries + 1)) :=
  .round (.getValidated prompt accept exhausted tries)

end Shown
end DistributedBanking.ClientInput
