import Mathlib.Data.Set.Card
import Mathlib.Logic.Relation
import Mathlib.Tactic.Tauto
import Logspine.StreamSink

/-!
# The books of the retries

What the counters of a sink count, without connections, bytes and locks: a call waits for the
lock, tries with some retries left, and ends. An attempt that succeeds ends the call; one that
fails uses up a retry, and ends the call when there is none. `Books.Kept` says what the books
hold then, whichever calls are interleaved.
-/

universe u

namespace Logspine

namespace StreamSink

variable {E : Type u}

/-- How far a thread is with its call. -/
inductive Stage (E : Type u) where
  /-- outside any call -/
  | idle : Stage E
  /-- before its first attempt -/
  | waiting (call : Call E) : Stage E
  /-- with retries left -/
  | trying (call : Call E) (retries : ℕ) : Stage E

/-- The call that a thread is at. -/
def Stage.call? : Stage E → Option (Call E)
  | idle => none
  | waiting call | trying call _ => some call

/-- The books of a sink. -/
structure Books (E : Type u) where
  stages : ℕ → Stage E
  statistics : NetworkSinkStatistics
  lastErrorMessage : Bytes
  history : History E

namespace Books

/-- The thread goes on to a stage. -/
def goto (b : Books E) (t : ℕ) (stage : Stage E) : Books E :=
  { b with stages := Function.update b.stages t stage }

/-- An attempt came to its end. -/
def addAttempt (b : Books E) (call : Call E) (outcome : Option Bytes) : Books E :=
  { b with
    lastErrorMessage := outcome.getD []
    history.attempts := b.history.attempts ++ [(call, outcome)] }

/-- An attempt failed. -/
def addFailure (b : Books E) (call : Call E) (what : Bytes) : Books E :=
  { b.addAttempt call (some what) with
    statistics.writeFailures := b.statistics.writeFailures + 1 }

/-- An entry into the books; `budget` is the number of retries of a call. -/
inductive Entry (budget : ℕ) (b : Books E) : Books E → Prop where
  | begin (t : ℕ) (call : Call E) (ht : b.stages t = .idle)
    (hn : call.number = b.history.calls.length) :
    Entry budget b ({ b with history.calls := b.history.calls ++ [call] }.goto t (.waiting call))
  | enter (t : ℕ) (call : Call E) (ht : b.stages t = .waiting call) :
    Entry budget b
      ({ b with statistics.writeAttempts := b.statistics.writeAttempts + 1 }.goto t
        (.trying call budget))
  | succeed (t : ℕ) (call : Call E) (retries : ℕ) (ht : b.stages t = .trying call retries) :
    Entry budget b
      ({ b.addAttempt call none with
        history.returned := b.history.returned ++ [call] }.goto t .idle)
  | giveUp (t : ℕ) (call : Call E) (what : Bytes) (ht : b.stages t = .trying call 0)
    (hwhat : what ≠ []) :
    Entry budget b
      ({ b.addFailure call what with
        history.thrown := b.history.thrown ++ [call] }.goto t .idle)
  | retry (t : ℕ) (call : Call E) (retries : ℕ) (what : Bytes)
    (ht : b.stages t = .trying call (retries + 1)) (hwhat : what ≠ []) :
    Entry budget b
      ({ b.addFailure call what with
        statistics := ⟨b.statistics.writeAttempts, b.statistics.writeFailures + 1,
          b.statistics.reconnectAttempts + 1⟩ }.goto t (.trying call retries))

/-- The outcomes of the attempts of the call with a number: what each threw. -/
def outcomes (b : Books E) (n : ℕ) : List (Option Bytes) :=
  (b.history.attempts.filter fun attempt => attempt.1.number = n).map Prod.snd

/-! ## Numbers -/

/-- The number of the call that a thread is at. -/
def numberAt (b : Books E) (t : ℕ) : Option ℕ := (b.stages t).call?.map Call.number

/-- Each number is given once: to the call of one thread, or to calls that have ended. -/
structure Numbered (b : Books E) : Prop where
  given : ∀ t n, b.numberAt t = some n → n < b.history.calls.length
  distinct : ∀ t u n, b.numberAt t = some n → b.numberAt u = some n → t = u
  ended : ∀ call ∈ b.history.returned ++ b.history.thrown,
    call.number < b.history.calls.length ∧ ∀ t, b.numberAt t ≠ some call.number

variable {b b' : Books E} {t : ℕ} {stage : Stage E} {budget : ℕ}

@[simp] theorem goto_history (b : Books E) (t : ℕ) (stage : Stage E) :
    (b.goto t stage).history = b.history := rfl

@[simp] theorem goto_statistics (b : Books E) (t : ℕ) (stage : Stage E) :
    (b.goto t stage).statistics = b.statistics := rfl

theorem goto_stages_self (b : Books E) (t : ℕ) (stage : Stage E) :
    (b.goto t stage).stages t = stage := Function.update_self ..

theorem goto_stages_of_ne (b : Books E) {t u : ℕ} (h : u ≠ t) (stage : Stage E) :
    (b.goto t stage).stages u = b.stages u := Function.update_of_ne h ..

theorem numberAt_goto_self (b : Books E) (t : ℕ) (stage : Stage E) :
    (b.goto t stage).numberAt t = stage.call?.map Call.number := by
  rw [numberAt, goto_stages_self]

theorem numberAt_goto_of_ne (b : Books E) {t u : ℕ} (h : u ≠ t) (stage : Stage E) :
    (b.goto t stage).numberAt u = b.numberAt u := by
  rw [numberAt, goto_stages_of_ne b h, numberAt]

theorem numberAt_of_stage {call : Call E} (ht : (b.stages t).call? = some call) :
    b.numberAt t = some call.number := by
  rw [numberAt, ht]
  rfl

/-- A thread keeps its call, and no call ends. -/
theorem Numbered.keep (h : b.Numbered) (hcall : stage.call? = (b.stages t).call?)
    (hstages : b'.stages = b.stages) (hcalls : b'.history.calls = b.history.calls)
    (hreturned : b'.history.returned = b.history.returned)
    (hthrown : b'.history.thrown = b.history.thrown) : (b'.goto t stage).Numbered := by
  have hsame : ∀ u, (b'.goto t stage).numberAt u = b.numberAt u := by
    intro u
    by_cases hu : u = t
    · rw [hu, numberAt_goto_self, hcall]
      rfl
    · rw [numberAt_goto_of_ne _ hu, numberAt, hstages]
      rfl
  refine ⟨fun u n hu => ?_, fun u v n hu hv => ?_, fun call hc => ?_⟩
  · rw [hsame] at hu
    rw [goto_history, hcalls]
    exact h.given u n hu
  · rw [hsame] at hu hv
    exact h.distinct u v n hu hv
  · rw [goto_history, hreturned, hthrown] at hc
    obtain ⟨hlt, hnot⟩ := h.ended call hc
    rw [goto_history, hcalls]
    refine ⟨hlt, fun u => ?_⟩
    rw [hsame]
    exact hnot u

/-- The call of a thread ends. -/
theorem Numbered.end (h : b.Numbered) {call : Call E} (ht : (b.stages t).call? = some call)
    (hstages : b'.stages = b.stages) (hcalls : b'.history.calls = b.history.calls)
    (hended : ∀ c ∈ b'.history.returned ++ b'.history.thrown,
      c ∈ b.history.returned ++ b.history.thrown ∨ c = call) : (b'.goto t .idle).Numbered := by
  have hnumber := numberAt_of_stage ht
  have hother : ∀ u n, (b'.goto t .idle).numberAt u = some n → u ≠ t ∧ b.numberAt u = some n := by
    intro u n hu
    by_cases hut : u = t
    · rw [hut, numberAt_goto_self] at hu
      cases hu
    · rw [numberAt_goto_of_ne _ hut, numberAt, hstages] at hu
      exact ⟨hut, hu⟩
  refine ⟨fun u n hu => ?_, fun u v n hu hv => ?_, fun c hc => ?_⟩
  · rw [goto_history, hcalls]
    exact h.given u n (hother u n hu).2
  · exact h.distinct u v n (hother u n hu).2 (hother v n hv).2
  · rw [goto_history, hcalls]
    rcases hended c hc with hc | rfl
    · obtain ⟨hlt, hnot⟩ := h.ended c hc
      exact ⟨hlt, fun u hu => hnot u (hother u _ hu).2⟩
    · refine ⟨h.given t _ hnumber, fun u hu => ?_⟩
      obtain ⟨hut, hu⟩ := hother u _ hu
      exact hut (h.distinct u t _ hu hnumber)

/-- A call begins. -/
theorem Numbered.begin (h : b.Numbered) {call : Call E}
    (hn : call.number = b.history.calls.length) :
    ({ b with history.calls := b.history.calls ++ [call] }.goto t (.waiting call)).Numbered := by
  have hlength : (b.history.calls ++ [call]).length = b.history.calls.length + 1 :=
    List.length_append
  have hcases : ∀ u n,
      ({ b with history.calls := b.history.calls ++ [call] }.goto t (.waiting call)).numberAt u =
        some n → u = t ∧ n = b.history.calls.length ∨ u ≠ t ∧ b.numberAt u = some n := by
    intro u n hu
    by_cases hut : u = t
    · rw [hut, numberAt_goto_self] at hu
      exact .inl ⟨hut, (Option.some.inj hu).symm.trans hn⟩
    · rw [numberAt_goto_of_ne _ hut] at hu
      exact .inr ⟨hut, hu⟩
  refine ⟨fun u n hu => ?_, fun u v n hu hv => ?_, fun c hc => ?_⟩
  · rw [goto_history, hlength]
    rcases hcases u n hu with ⟨-, rfl⟩ | ⟨-, hu⟩
    · exact Nat.lt_succ_self _
    · exact Nat.lt_succ_of_lt (h.given u n hu)
  · rcases hcases u n hu with ⟨hut, hn'⟩ | ⟨-, hu'⟩
    · rcases hcases v n hv with ⟨hvt, -⟩ | ⟨-, hv'⟩
      · exact hut.trans hvt.symm
      · exact absurd hn' (Nat.ne_of_lt (h.given v n hv'))
    · rcases hcases v n hv with ⟨-, hn'⟩ | ⟨-, hv'⟩
      · exact absurd hn' (Nat.ne_of_lt (h.given u n hu'))
      · exact h.distinct u v n hu' hv'
  · rw [goto_history, hlength]
    obtain ⟨hlt, hnot⟩ := h.ended c hc
    refine ⟨Nat.lt_succ_of_lt hlt, fun u hu => ?_⟩
    rcases hcases u _ hu with ⟨-, hn'⟩ | ⟨-, hu⟩
    · exact Nat.ne_of_lt hlt hn'
    · exact hnot u hu

/-- An entry keeps the numbers. -/
theorem Numbered.entry (h : b.Numbered) (hentry : Entry budget b b') : b'.Numbered := by
  cases hentry with
  | begin t call ht hn => exact h.begin hn
  | enter t call ht =>
    have hcall : (Stage.trying call budget).call? = (b.stages t).call? := by rw [ht]; rfl
    exact h.keep hcall rfl rfl rfl rfl
  | succeed t call retries ht =>
    have hcall : (b.stages t).call? = some call := by rw [ht]; rfl
    refine h.end hcall rfl rfl fun c hc => ?_
    rcases List.mem_append.mp hc with hreturned | hthrown
    · rcases List.mem_append.mp hreturned with hold | hnew
      · exact .inl (List.mem_append_left _ hold)
      · exact .inr (List.mem_singleton.mp hnew)
    · exact .inl (List.mem_append_right _ hthrown)
  | giveUp t call what ht hwhat =>
    have hcall : (b.stages t).call? = some call := by rw [ht]; rfl
    refine h.end hcall rfl rfl fun c hc => ?_
    rcases List.mem_append.mp hc with hreturned | hthrown
    · exact .inl (List.mem_append_left _ hreturned)
    · rcases List.mem_append.mp hthrown with hold | hnew
      · exact .inl (List.mem_append_right _ hold)
      · exact .inr (List.mem_singleton.mp hnew)
  | retry t call retries what ht hwhat =>
    have hcall : (Stage.trying call retries).call? = (b.stages t).call? := by rw [ht]; rfl
    exact h.keep hcall rfl rfl rfl rfl

/-! ## Attempts -/

/-- Each attempt failed. -/
def AllFailed (outcomes : List (Option Bytes)) : Prop := ∀ outcome ∈ outcomes, outcome ≠ none

theorem AllFailed.concat {outcomes : List (Option Bytes)} (h : AllFailed outcomes)
    (what : Bytes) : AllFailed (outcomes ++ [some what]) :=
  List.forall_mem_append.mpr ⟨h, List.forall_mem_singleton.mpr (Option.some_ne_none what)⟩

/-- What the outcomes say of a stage: there is none yet, or there are failures, which with the
retries left make up the budget. -/
def Agrees (budget : ℕ) (outcomes : ℕ → List (Option Bytes)) : Stage E → Prop
  | .idle => True
  | .waiting call => outcomes call.number = []
  | .trying call retries => AllFailed (outcomes call.number) ∧
      (outcomes call.number).length + retries = budget

/-- The outcomes of all calls. -/
structure Tallied (budget : ℕ) (b : Books E) : Prop where
  fresh : ∀ n, b.history.calls.length ≤ n → b.outcomes n = []
  running : ∀ t, Agrees budget b.outcomes (b.stages t)
  thrown : ∀ call ∈ b.history.thrown,
    (b.outcomes call.number).length = budget + 1 ∧ AllFailed (b.outcomes call.number)
  returned : ∀ call ∈ b.history.returned, ∃ failures,
    b.outcomes call.number = failures ++ [none] ∧ failures.length ≤ budget ∧ AllFailed failures

theorem outcomes_congr (h : b'.history.attempts = b.history.attempts) (n : ℕ) :
    b'.outcomes n = b.outcomes n := by
  rw [outcomes, h, outcomes]

/-- An attempt is one of its call. -/
theorem outcomes_concat {call : Call E} {outcome : Option Bytes}
    (h : b'.history.attempts = b.history.attempts ++ [(call, outcome)]) (n : ℕ) :
    b'.outcomes n = b.outcomes n ++ if call.number = n then [outcome] else [] := by
  rw [outcomes, h, List.filter_append, List.map_append, ← outcomes]
  let numbered : Call E × Option Bytes → Bool := fun attempt => attempt.1.number = n
  by_cases hn : call.number = n
  · have hpos : numbered (call, outcome) = true := decide_eq_true hn
    rw [if_pos hn, List.filter_cons_of_pos hpos]
    rfl
  · have hneg : ¬ numbered (call, outcome) = true := fun heq => hn (of_decide_eq_true heq)
    rw [if_neg hn, List.filter_cons_of_neg hneg]
    rfl

theorem agrees_congr {outcomes outcomes' : ℕ → List (Option Bytes)}
    (h : ∀ call, stage.call? = some call → outcomes' call.number = outcomes call.number) :
    Agrees budget outcomes' stage ↔ Agrees budget outcomes stage := by
  cases stage with
  | idle => exact Iff.rfl
  | waiting call => rw [Agrees, Agrees, h call rfl]
  | trying call retries => rw [Agrees, Agrees, h call rfl]

/-- A thread goes on without an attempt. -/
theorem Tallied.keep (h : b.Tallied budget) (hstage : Agrees budget b.outcomes stage)
    (hstages : b'.stages = b.stages) (hattempts : b'.history.attempts = b.history.attempts)
    (hcalls : b.history.calls.length ≤ b'.history.calls.length)
    (hreturned : b'.history.returned = b.history.returned)
    (hthrown : b'.history.thrown = b.history.thrown) : (b'.goto t stage).Tallied budget := by
  have hsame : (b'.goto t stage).outcomes = b.outcomes := funext (outcomes_congr hattempts)
  refine ⟨fun n hn => ?_, fun u => ?_, fun call hc => ?_, fun call hc => ?_⟩
  · rw [hsame]
    exact h.fresh n (Nat.le_trans hcalls hn)
  · rw [hsame]
    by_cases hu : u = t
    · rw [hu, goto_stages_self]
      exact hstage
    · rw [goto_stages_of_ne _ hu, hstages]
      exact h.running u
  · rw [goto_history, hthrown] at hc
    rw [hsame]
    exact h.thrown call hc
  · rw [goto_history, hreturned] at hc
    rw [hsame]
    exact h.returned call hc

/-- A thread has made an attempt of its call, which is tallied when it is among the ended
calls. -/
theorem Tallied.attempt (h : b.Tallied budget) (hnumbered : b.Numbered) {call : Call E}
    {outcome : Option Bytes} (ht : (b.stages t).call? = some call)
    (hstages : b'.stages = b.stages)
    (hattempts : b'.history.attempts = b.history.attempts ++ [(call, outcome)])
    (hcalls : b'.history.calls = b.history.calls)
    (hstage : Agrees budget b'.outcomes stage)
    (hthrown : ∀ c ∈ b'.history.thrown, c ∈ b.history.thrown ∨ c = call ∧
      (b'.outcomes call.number).length = budget + 1 ∧ AllFailed (b'.outcomes call.number))
    (hreturned : ∀ c ∈ b'.history.returned, c ∈ b.history.returned ∨ c = call ∧ ∃ failures,
      b'.outcomes call.number = failures ++ [none] ∧ failures.length ≤ budget ∧
        AllFailed failures) : (b'.goto t stage).Tallied budget := by
  have hnumber := numberAt_of_stage ht
  have hgoto : (b'.goto t stage).outcomes = b'.outcomes := funext (outcomes_congr rfl)
  have hother : ∀ n, n ≠ call.number → b'.outcomes n = b.outcomes n := by
    intro n hn
    rw [outcomes_concat hattempts, if_neg (Ne.symm hn), List.append_nil]
  have hended : ∀ c ∈ b.history.returned ++ b.history.thrown, c.number ≠ call.number := by
    intro c hc heq
    exact (hnumbered.ended c hc).2 t (heq ▸ hnumber)
  refine ⟨fun n hn => ?_, fun u => ?_, fun c hc => ?_, fun c hc => ?_⟩
  · rw [goto_history, hcalls] at hn
    rw [hgoto, hother n]
    · exact h.fresh n hn
    · rintro rfl
      exact Nat.not_lt_of_le hn (hnumbered.given t _ hnumber)
  · rw [hgoto]
    by_cases hu : u = t
    · rw [hu, goto_stages_self]
      exact hstage
    · rw [goto_stages_of_ne _ hu, hstages, agrees_congr fun c hc => hother _ ?_]
      · exact h.running u
      · intro heq
        have hnumber' := numberAt_of_stage hc
        rw [heq] at hnumber'
        exact hu (hnumbered.distinct u t _ hnumber' hnumber)
  · rw [hgoto]
    rcases hthrown c hc with hc | ⟨rfl, hrest⟩
    · rw [hother _ (hended c (List.mem_append_right _ hc))]
      exact h.thrown c hc
    · exact hrest
  · rw [hgoto]
    rcases hreturned c hc with hc | ⟨rfl, hrest⟩
    · rw [hother _ (hended c (List.mem_append_left _ hc))]
      exact h.returned c hc
    · exact hrest

/-- An entry keeps the tally. -/
theorem Tallied.entry (h : b.Tallied budget) (hnumbered : b.Numbered)
    (hentry : Entry budget b b') : b'.Tallied budget := by
  cases hentry with
  | begin t call ht hn =>
    refine h.keep ?_ rfl rfl ?_ rfl rfl
    · exact h.fresh _ (Nat.le_of_eq hn.symm)
    · rw [List.length_append]
      exact Nat.le_add_right _ _
  | enter t call ht =>
    have hwaiting := h.running t
    rw [ht] at hwaiting
    refine h.keep ?_ rfl rfl (Nat.le_refl _) rfl rfl
    rw [Agrees, show b.outcomes call.number = [] from hwaiting]
    exact ⟨List.forall_mem_nil _, Nat.zero_add budget⟩
  | succeed t call retries ht =>
    obtain ⟨hfailed, hlength⟩ : Agrees budget b.outcomes (.trying call retries) :=
      ht ▸ h.running t
    refine h.attempt hnumbered (by rw [ht]; rfl) rfl rfl rfl trivial (fun c hc => .inl hc)
      fun c hc => ?_
    rcases List.mem_append.mp hc with hc | hc
    · exact .inl hc
    · refine .inr ⟨List.mem_singleton.mp hc, b.outcomes call.number, ?_, by omega, hfailed⟩
      exact (outcomes_concat rfl _).trans (by rw [if_pos rfl])
  | giveUp t call what ht hwhat =>
    obtain ⟨hfailed, hlength⟩ : Agrees budget b.outcomes (.trying call 0) := ht ▸ h.running t
    refine h.attempt hnumbered (by rw [ht]; rfl) rfl rfl rfl trivial (fun c hc => ?_)
      fun c hc => .inl hc
    rcases List.mem_append.mp hc with hc | hc
    · exact .inl hc
    · refine .inr ⟨List.mem_singleton.mp hc, ?_⟩
      rw [outcomes_concat rfl, if_pos rfl, List.length_append, List.length_singleton]
      exact ⟨congrArg (· + 1) hlength, hfailed.concat what⟩
  | retry t call retries what ht hwhat =>
    obtain ⟨hfailed, hlength⟩ : Agrees budget b.outcomes (.trying call (retries + 1)) :=
      ht ▸ h.running t
    refine h.attempt hnumbered (by rw [ht]; rfl) rfl rfl rfl ?_ (fun c hc => .inl hc)
      fun c hc => .inl hc
    rw [Agrees, outcomes_concat rfl, if_pos rfl, List.length_append, List.length_singleton]
    exact ⟨hfailed.concat what, by omega⟩

/-! ## Counters -/

/-- The numbers of the calls that have entered the lock. -/
def Entered (b : Books E) (n : ℕ) : Prop :=
  n < b.history.calls.length ∧ ∀ t call, b.stages t = .waiting call → call.number ≠ n

/-- How many calls have entered the lock. -/
noncomputable def enteredCount (b : Books E) : ℕ := {n | b.Entered n}.ncard

/-- What the counters count, and what the message says of the last attempt. -/
structure Counted (b : Books E) : Prop where
  attempts : b.enteredCount = b.statistics.writeAttempts
  failures : b.statistics.writeFailures =
    b.statistics.reconnectAttempts + b.history.thrown.length
  message : b.lastErrorMessage = [] ↔
    ∀ attempt, b.history.attempts.getLast? = some attempt → attempt.2 = none

theorem enteredCount_congr (h : ∀ n, b'.Entered n ↔ b.Entered n) :
    b'.enteredCount = b.enteredCount := congrArg Set.ncard (Set.ext h)

theorem finite_entered (b : Books E) : {n | b.Entered n}.Finite :=
  (Set.finite_lt_nat b.history.calls.length).subset fun _ hn => hn.1

/-- A thread that does not wait goes on to a stage in which it does not wait. -/
theorem entered_keep (hold : ∀ call, b.stages t ≠ .waiting call)
    (hnew : ∀ call, stage ≠ .waiting call) (hstages : b'.stages = b.stages)
    (hcalls : b'.history.calls = b.history.calls) (n : ℕ) :
    (b'.goto t stage).Entered n ↔ b.Entered n := by
  rw [Entered, Entered, goto_history, hcalls]
  refine and_congr_right fun _ => forall_congr' fun u => ?_
  by_cases hu : u = t
  · rw [hu, goto_stages_self]
    exact iff_of_true (fun call hc => absurd hc (hnew call)) fun call hc => absurd hc (hold call)
  · rw [goto_stages_of_ne _ hu, hstages]

/-- A call that begins has not entered. -/
theorem entered_begin {call : Call E} (ht : b.stages t = .idle)
    (hn : call.number = b.history.calls.length) (n : ℕ) :
    ({ b with history.calls := b.history.calls ++ [call] }.goto t (.waiting call)).Entered n ↔
      b.Entered n := by
  rw [Entered, Entered, goto_history, List.length_append, List.length_singleton]
  constructor
  · rintro ⟨hlt, hwaiting⟩
    have hne : call.number ≠ n := hwaiting t call (goto_stages_self ..)
    refine ⟨by omega, fun u c hu => ?_⟩
    have hut : u ≠ t := by
      rintro rfl
      rw [ht] at hu
      cases hu
    exact hwaiting u c ((goto_stages_of_ne _ hut _).trans hu)
  · rintro ⟨hlt, hwaiting⟩
    refine ⟨Nat.lt_succ_of_lt hlt, fun u c hu => ?_⟩
    by_cases hut : u = t
    · rw [hut, goto_stages_self] at hu
      cases hu
      omega
    · rw [goto_stages_of_ne _ hut] at hu
      exact hwaiting u c hu

/-- A call enters. -/
theorem entered_enter (hnumbered : b.Numbered) {call : Call E} (ht : b.stages t = .waiting call)
    {retries : ℕ} {statistics : NetworkSinkStatistics} (n : ℕ) :
    ({ b with statistics := statistics }.goto t (.trying call retries)).Entered n ↔
      n = call.number ∨ b.Entered n := by
  have hnumber : b.numberAt t = some call.number := numberAt_of_stage (by rw [ht]; rfl)
  rw [Entered, Entered, goto_history]
  constructor
  · rintro ⟨hlt, hwaiting⟩
    by_cases hn : n = call.number
    · exact .inl hn
    · refine .inr ⟨hlt, fun u c hu => ?_⟩
      by_cases hut : u = t
      · rw [hut, ht] at hu
        cases hu
        exact Ne.symm hn
      · exact hwaiting u c ((goto_stages_of_ne _ hut _).trans hu)
  · rintro (rfl | ⟨hlt, hwaiting⟩)
    · refine ⟨hnumbered.given t _ hnumber, fun u c hu heq => ?_⟩
      by_cases hut : u = t
      · rw [hut, goto_stages_self] at hu
        cases hu
      · rw [goto_stages_of_ne _ hut] at hu
        have hnumber' : b.numberAt u = some c.number :=
          numberAt_of_stage (by rw [show b.stages u = .waiting c from hu]; rfl)
        rw [heq] at hnumber'
        exact hut (hnumbered.distinct u t _ hnumber' hnumber)
    · refine ⟨hlt, fun u c hu => ?_⟩
      by_cases hut : u = t
      · rw [hut, goto_stages_self] at hu
        cases hu
      · rw [goto_stages_of_ne _ hut] at hu
        exact hwaiting u c hu

theorem enteredCount_enter (hnumbered : b.Numbered) {call : Call E}
    (ht : b.stages t = .waiting call) {retries : ℕ} {statistics : NetworkSinkStatistics} :
    ({ b with statistics := statistics }.goto t (.trying call retries)).enteredCount =
      b.enteredCount + 1 := by
  have hnot : call.number ∉ {n | b.Entered n} := fun hentered => hentered.2 t call ht rfl
  rw [enteredCount, enteredCount, ← Set.ncard_insert_of_notMem hnot b.finite_entered]
  exact congrArg Set.ncard (Set.ext (entered_enter hnumbered ht))

/-- The message after an attempt says whether it succeeded. -/
theorem message_concat {attempts : List (Call E × Option Bytes)} {call : Call E}
    {outcome : Option Bytes} (h : outcome ≠ some []) : outcome.getD [] = [] ↔
      ∀ attempt, (attempts ++ [(call, outcome)]).getLast? = some attempt → attempt.2 = none := by
  rw [List.getLast?_concat]
  cases outcome with
  | none => exact iff_of_true rfl (by rintro _ ⟨⟩; rfl)
  | some what =>
    refine iff_of_false (fun hnil => h (congrArg some hnil)) fun hall => ?_
    cases hall _ rfl

/-- An entry keeps the counters. -/
theorem Counted.entry (h : b.Counted) (hnumbered : b.Numbered) (hentry : Entry budget b b') :
    b'.Counted := by
  obtain ⟨hattempts, hfailures, hmessage⟩ := h
  -- a call that tries, or ends, does not wait
  have hcount : ∀ {b' : Books E} {t : ℕ} {call : Call E} {retries : ℕ} {stage : Stage E},
      b.stages t = .trying call retries → (∀ c, stage ≠ .waiting c) → b'.stages = b.stages →
        b'.history.calls = b.history.calls →
          (b'.goto t stage).enteredCount = b.statistics.writeAttempts := by
    intro b' t call retries stage ht hstage hstages hcalls
    refine (enteredCount_congr (entered_keep ?_ hstage hstages hcalls)).trans hattempts
    rw [ht]
    rintro _ ⟨⟩
  cases hentry with
  | begin t call ht hn =>
    exact ⟨(enteredCount_congr (entered_begin ht hn)).trans hattempts, hfailures, hmessage⟩
  | enter t call ht =>
    refine ⟨(enteredCount_enter hnumbered ht).trans ?_, hfailures, hmessage⟩
    rw [hattempts]
    rfl
  | succeed t call retries ht =>
    exact ⟨hcount ht (by rintro _ ⟨⟩) rfl rfl, hfailures,
      @message_concat E b.history.attempts call none (by rintro ⟨⟩)⟩
  | giveUp t call what ht hwhat =>
    have hsome : some what ≠ some [] := fun heq => hwhat (Option.some.inj heq)
    refine ⟨hcount ht (by rintro _ ⟨⟩) rfl rfl, ?_,
      @message_concat E b.history.attempts call (some what) hsome⟩
    rw [goto_statistics, goto_history, List.length_append, List.length_singleton]
    show b.statistics.writeFailures + 1 =
      b.statistics.reconnectAttempts + (b.history.thrown.length + 1)
    omega
  | retry t call retries what ht hwhat =>
    have hsome : some what ≠ some [] := fun heq => hwhat (Option.some.inj heq)
    refine ⟨hcount ht (by rintro _ ⟨⟩) rfl rfl, ?_,
      @message_concat E b.history.attempts call (some what) hsome⟩
    rw [goto_statistics, goto_history]
    show b.statistics.writeFailures + 1 =
      b.statistics.reconnectAttempts + 1 + b.history.thrown.length
    omega

/-! ## Runs -/

/-- What the books of a sink hold. -/
structure Kept (budget : ℕ) (b : Books E) : Prop where
  numbered : b.Numbered
  tallied : b.Tallied budget
  counted : b.Counted

theorem Kept.entry (h : b.Kept budget) (hentry : Entry budget b b') : b'.Kept budget :=
  ⟨h.numbered.entry hentry, h.tallied.entry h.numbered hentry, h.counted.entry h.numbered hentry⟩

/-- **Entries keep the books.** -/
theorem Kept.entries (h : b.Kept budget) (hentries : Relation.ReflTransGen (Entry budget) b b') :
    b'.Kept budget := by
  induction hentries with
  | refl => exact h
  | tail _ hentry ih => exact ih.entry hentry

/-- New books. -/
def initial : Books E := ⟨fun _ => .idle, ⟨0, 0, 0⟩, [], ⟨[], [], [], []⟩⟩

theorem kept_initial : (initial : Books E).Kept budget := by
  have hnone : {n | (initial : Books E).Entered n} = ∅ :=
    Set.eq_empty_of_forall_notMem fun n hn => Nat.not_lt_zero n hn.1
  refine ⟨⟨by rintro _ _ ⟨⟩, by rintro _ _ _ ⟨⟩, List.forall_mem_nil _⟩,
    ⟨fun _ _ => rfl, fun _ => trivial, List.forall_mem_nil _, List.forall_mem_nil _⟩,
    ⟨?_, rfl, iff_of_true rfl (by rintro _ ⟨⟩)⟩⟩
  rw [enteredCount, hnone, Set.ncard_empty]
  rfl

/-- When all threads are idle, all calls have entered. -/
theorem Counted.attempts_of_idle (h : b.Counted) (hidle : ∀ t, b.stages t = .idle) :
    b.statistics.writeAttempts = b.history.calls.length := by
  have hall : ∀ n, b.Entered n ↔ n < b.history.calls.length := by
    intro n
    refine and_iff_left fun t call ht => ?_
    rw [hidle t] at ht
    cases ht
  have hrange : {n | b.Entered n} = Finset.range b.history.calls.length :=
    Set.ext fun n => (hall n).trans Finset.mem_range.symm
  rw [← h.attempts, enteredCount, hrange, Set.ncard_coe_finset, Finset.card_range]

end Books

end StreamSink

end Logspine
