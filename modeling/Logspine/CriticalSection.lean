import Logspine.Machine
import Logspine.Mutex

/-!
# Objects behind one lock

A `Guarded` object is shared by any number of threads, and what a call does to it, it does inside
one lock, in steps between which the scheduler may run the other threads. `serial_run` says that
nobody can tell: whenever the lock is free, the object is where its calls, made one after another
in the order in which they took the lock, lead it, and they returned what they would return then.
That order keeps the order of every thread (`Serial.order`), and no later call gets before an
earlier one (`entered_prefix`), so that a call that returned before another began comes first.
-/

universe u v w

/-- An object with states `S`, whose calls `C` do their work inside one lock and return a value
of `R`. -/
structure Guarded (S : Type u) (C : Type v) (R : Type w) where
  /-- whether the call takes the lock at all -/
  enters : C → Bool
  /-- the steps of the call inside the lock -/
  body : C → S → List (S → S)
  /-- what the call returns, read at the end of its body -/
  answer : C → S → R

namespace Guarded

/-- Where a thread is. -/
inductive Pc (S : Type u) (C : Type v) where
  /-- outside any call -/
  | idle : Pc S C
  /-- before the lock -/
  | lock (call : C) : Pc S C
  /-- inside the lock, with the steps it has left -/
  | inside (call : C) (rest : List (S → S)) : Pc S C

/-- The object with its threads. -/
structure State (S : Type u) (C : Type v) (R : Type w) where
  shared : S
  /-- the thread that holds the lock -/
  mutex : Option ℕ
  threads : ℕ → Pc S C
  /-- the calls that took the lock, in order, each with its thread -/
  entered : List (ℕ × C)
  /-- what the calls returned, in order -/
  answers : List (ℕ × C × R)

/-- What the scheduler can do. -/
inductive Action (C : Type v) where
  /-- the thread begins a call -/
  | call (t : ℕ) (c : C) : Action C
  /-- the thread takes its next step -/
  | step (t : ℕ) : Action C

variable {S : Type u} {C : Type v} {R : Type w}

/-- No thread is in a call. -/
def State.initial (shared : S) : State S C R := ⟨shared, none, fun _ => .idle, [], []⟩

/-- The thread goes on to `pc`. -/
def State.goto (s : State S C R) (t : ℕ) (pc : Pc S C) : State S C R :=
  { s with threads := Function.update s.threads t pc }

/-- The thread is inside the lock. -/
def Pc.holds : Pc S C → Bool
  | inside _ _ => true
  | _ => false

/-- The call that has the lock still before it. -/
def Pc.waiting : Pc S C → List C
  | lock c => [c]
  | _ => []

/-- The calls of a thread. -/
def callsOf (t : ℕ) (cs : List (ℕ × C)) : List C :=
  cs.filterMap fun c => if c.1 = t then some c.2 else none

/-- Make the steps of a body. -/
def runBody (s : S) (fs : List (S → S)) : S := fs.foldl (fun s f => f s) s

variable (O : Guarded S C R)

/-- The object and its threads as a machine. -/
def machine : Machine (State S C R) (Action C) where
  step s
    | .call t c =>
      match s.threads t with
      | .idle => if O.enters c then some (s.goto t (.lock c)) else some s
      | _ => none
    | .step t =>
      match s.threads t with
      | .idle => none
      | .lock c =>
        if s.mutex = none then
          some ({ s with mutex := some t, entered := s.entered ++ [(t, c)] }.goto t
            (.inside c (O.body c s.shared)))
        else none
      | .inside c (f :: rest) =>
        some ({ s with shared := f s.shared }.goto t (.inside c rest))
      | .inside c [] =>
        some ({ s with
          mutex := none, answers := s.answers ++ [(t, c, O.answer c s.shared)] }.goto t .idle)

/-- The calls that an action begins and that take the lock. -/
def begins : Action C → Option (ℕ × C)
  | .call t c => if O.enters c then some (t, c) else none
  | .step _ => none

/-- The calls begun that take the lock. -/
def begun (as : List (Action C)) : List (ℕ × C) := as.filterMap O.begins

/-! ## One call after another -/

/-- One call, with nobody else about. -/
def perform (s : S) (c : C) : S := runBody s (O.body c s)

/-- Calls, one after another. -/
def performs (s : S) (cs : List C) : S := cs.foldl O.perform s

/-- What the calls return, made one after another. -/
def replies : S → List (ℕ × C) → List (ℕ × C × R)
  | _, [] => []
  | s, (t, c) :: cs => (t, c, O.answer c (O.perform s c)) :: replies (O.perform s c) cs

variable {O}

theorem runBody_append (s : S) (fs gs : List (S → S)) :
    runBody s (fs ++ gs) = runBody (runBody s fs) gs := List.foldl_append ..

theorem performs_concat (s : S) (cs : List C) (c : C) :
    O.performs s (cs ++ [c]) = O.perform (O.performs s cs) c := by
  rw [performs, List.foldl_append]
  rfl

theorem replies_concat (s : S) (cs : List (ℕ × C)) (t : ℕ) (c : C) :
    O.replies s (cs ++ [(t, c)]) =
      O.replies s cs ++ [(t, c, O.answer c (O.performs s (cs.map Prod.snd ++ [c])))] := by
  induction cs generalizing s with
  | nil => rfl
  | cons d cs ih =>
    rw [List.cons_append, replies, replies, ih]
    rfl

/-- What the call at an index returns. -/
theorem mem_replies {s : S} {cs : List (ℕ × C)} {t : ℕ} {c : C} {r : R}
    (h : (t, c, r) ∈ O.replies s cs) :
    ∃ before, before ++ [(t, c)] <+: cs ∧
      r = O.answer c (O.performs s (before.map Prod.snd ++ [c])) := by
  induction cs generalizing s with
  | nil => cases h
  | cons d cs ih =>
    rw [replies, List.mem_cons] at h
    rcases h with heq | hmem
    · obtain ⟨rfl, rfl, rfl⟩ := heq
      exact ⟨[], (List.prefix_cons_inj _).mpr List.nil_prefix, rfl⟩
    · obtain ⟨before, hprefix, hr⟩ := ih hmem
      exact ⟨d :: before, (List.prefix_cons_inj _).mpr hprefix, hr⟩

theorem callsOf_concat (t u : ℕ) (cs : List (ℕ × C)) (c : C) :
    callsOf u (cs ++ [(t, c)]) = callsOf u cs ++ if t = u then [c] else [] := by
  rw [callsOf, callsOf, List.filterMap_append, List.filterMap_cons]
  by_cases htu : t = u
  · rw [if_pos htu, if_pos htu]
    rfl
  · rw [if_neg htu, if_neg htu]
    rfl

/-! ## Every interleaving -/

/-- What holds while a thread is inside the lock, with the calls that entered before and the steps
it has made: its call entered last, and those before it have returned. -/
structure Holding (O : Guarded S C R) (s₀ : S) (s : State S C R) (t : ℕ) (c : C)
    (rest : List (S → S)) (before : List (ℕ × C)) (made : List (S → S)) : Prop where
  entered : s.entered = before ++ [(t, c)]
  answers : s.answers = O.replies s₀ before
  body : O.body c (O.performs s₀ (before.map Prod.snd)) = made ++ rest
  shared : s.shared = runBody (O.performs s₀ (before.map Prod.snd)) made

/-- The calls appear to be made one after another, in the order in which they took the lock. -/
structure Serial (O : Guarded S C R) (s₀ : S) (as : List (Action C)) (s : State S C R) :
    Prop where
  /-- the thread inside the lock is the one that holds it -/
  owner : Owned Pc.holds s.threads s.mutex
  /-- while the lock is free -/
  free : s.mutex = none → s.shared = O.performs s₀ (s.entered.map Prod.snd) ∧
    s.answers = O.replies s₀ s.entered
  /-- while a thread holds it -/
  held : ∀ t c rest, s.threads t = .inside c rest →
    ∃ before made, Holding O s₀ s t c rest before made
  /-- the calls of each thread take the lock in the order in which it makes them -/
  order : ∀ t, callsOf t s.entered ++ (s.threads t).waiting = callsOf t (O.begun as)

variable {s₀ : S} {s s' : State S C R} {as bs : List (Action C)} {t : ℕ}

theorem serial_initial : Serial O s₀ [] (.initial s₀) where
  owner _ := iff_of_false Bool.false_ne_true (by rintro ⟨⟩)
  free _ := ⟨rfl, rfl⟩
  held _ _ _ h := by cases h
  order _ := rfl

/-- What is true of the place of one thread and of those of the others is true of all. -/
theorem forall_goto {P : ℕ → Pc S C → Prop} {pc : Pc S C} (ht : P t pc)
    (hu : ∀ u, u ≠ t → P u (s.threads u)) (u : ℕ) : P u ((s.goto t pc).threads u) :=
  (Function.forall_update_iff s.threads P).mpr ⟨ht, hu⟩ u

theorem begun_concat (as : List (Action C)) (a : Action C) :
    O.begun (as ++ [a]) = O.begun as ++ (O.begins a).toList := by
  rw [begun, List.filterMap_append, List.filterMap_cons]
  cases O.begins a <;> rfl

/-- A step that begins no call. -/
theorem Serial.order_step {pc : Pc S C} (h : Serial O s₀ as s) (hpc : pc.waiting = [])
    (ht : (s.threads t).waiting = []) (u : ℕ) :
    callsOf u s.entered ++ ((s.goto t pc).threads u).waiting =
      callsOf u (O.begun (as ++ [.step t])) := by
  rw [begun_concat, begins, Option.toList_none, List.append_nil]
  refine forall_goto (P := fun u pc => callsOf u s.entered ++ pc.waiting =
    callsOf u (O.begun as)) ?_ (fun u _ => h.order u) u
  rw [hpc, ← ht]
  exact h.order t

/-- The thread at the head of the lock takes it. -/
theorem Serial.lock {c : C} (h : Serial O s₀ as s) (ht : s.threads t = .lock c)
    (hm : s.mutex = none) :
    Serial O s₀ (as ++ [.step t])
      ({ s with mutex := some t, entered := s.entered ++ [(t, c)] }.goto t
        (.inside c (O.body c s.shared))) := by
  obtain ⟨hshared, hanswers⟩ := h.free hm
  have howner := h.owner
  rw [hm] at howner
  refine ⟨howner.update_lock rfl, fun hm' => (by cases hm'), ?_, ?_⟩
  · refine forall_goto (P := fun u pc => ∀ d rest, pc = .inside d rest →
      ∃ before made, Holding O s₀ _ u d rest before made) ?_ fun u hu d rest hpc => ?_
    · rintro d rest ⟨⟩
      exact ⟨s.entered, [], rfl, hanswers, by rw [← hshared]; rfl, hshared⟩
    · have hmutex := (h.owner u).mp (by rw [show s.threads u = _ from hpc]; rfl)
      rw [hm] at hmutex
      cases hmutex
  · intro u
    rw [begun_concat, begins, Option.toList_none, List.append_nil, ← h.order u]
    change callsOf u (s.entered ++ [(t, c)]) ++ (Function.update s.threads t _ u).waiting = _
    rw [callsOf_concat]
    by_cases hut : u = t
    · subst hut
      rw [if_pos rfl, Function.update_self, ht]
      exact List.append_nil _
    · rw [if_neg (Ne.symm hut), Function.update_of_ne hut, List.append_nil]

/-- The thread inside the lock makes a step of its body. -/
theorem Serial.inside {c : C} {f : S → S} {rest : List (S → S)} (h : Serial O s₀ as s)
    (ht : s.threads t = .inside c (f :: rest)) :
    Serial O s₀ (as ++ [.step t]) ({ s with shared := f s.shared }.goto t (.inside c rest)) := by
  have hholds : (s.threads t).holds = true := by
    rw [ht]
    rfl
  have hmutex : s.mutex = some t := (h.owner t).mp hholds
  obtain ⟨before, made, hentered, hanswers, hbody, hshared⟩ := h.held t c _ ht
  refine ⟨h.owner.update_inside hholds rfl, fun hm => ?_, ?_, ?_⟩
  · cases hmutex.symm.trans hm
  · refine forall_goto (P := fun u pc => ∀ d rest, pc = .inside d rest →
      ∃ before made, Holding O s₀ _ u d rest before made) ?_ fun u hu d rest hpc => ?_
    · rintro d rest ⟨⟩
      refine ⟨before, made ++ [f], hentered, hanswers, ?_, ?_⟩
      · rw [hbody, List.append_assoc, List.singleton_append]
      · rw [runBody_append, ← hshared]
        rfl
    · have hother := (h.owner u).mp (by rw [show s.threads u = _ from hpc]; rfl)
      exact absurd (Option.some.inj (hother.symm.trans hmutex)) hu
  · exact h.order_step rfl (by rw [ht]; rfl)

/-- The thread inside the lock has done its body, leaves the lock and returns. -/
theorem Serial.unlock {c : C} (h : Serial O s₀ as s) (ht : s.threads t = .inside c []) :
    Serial O s₀ (as ++ [.step t])
      ({ s with mutex := none, answers := s.answers ++ [(t, c, O.answer c s.shared)] }.goto t
        .idle) := by
  have hholds : (s.threads t).holds = true := by
    rw [ht]
    rfl
  have hmutex : s.mutex = some t := (h.owner t).mp hholds
  obtain ⟨before, made, hentered, hanswers, hbody, hshared⟩ := h.held t c _ ht
  replace hshared : s.shared = O.performs s₀ (s.entered.map Prod.snd) := by
    rw [hentered, List.map_append, List.map_singleton, performs_concat, perform, hbody,
      List.append_nil, hshared]
  refine ⟨h.owner.update_unlock hholds rfl, fun _ => ⟨hshared, ?_⟩, ?_, ?_⟩
  · change s.answers ++ [(t, c, O.answer c s.shared)] = O.replies s₀ s.entered
    rw [hshared, hentered, replies_concat, hanswers, List.map_append, List.map_singleton]
  · refine forall_goto (P := fun u pc => ∀ d rest, pc = .inside d rest →
      ∃ before made, Holding O s₀ _ u d rest before made) (fun d rest hpc => (by cases hpc))
      fun u hu d rest hpc => ?_
    have hother := (h.owner u).mp (by rw [show s.threads u = _ from hpc]; rfl)
    exact absurd (Option.some.inj (hother.symm.trans hmutex)) hu
  · exact h.order_step rfl (by rw [ht]; rfl)

theorem Serial.step {a : Action C} (h : Serial O s₀ as s) (hs : O.machine.step s a = some s') :
    Serial O s₀ (as ++ [a]) s' := by
  cases a with
  | call t c =>
    dsimp only [machine] at hs
    split at hs
    case h_1 ht =>
      by_cases hc : O.enters c = true
      · rw [if_pos hc] at hs
        obtain rfl := Option.some.inj hs
        refine ⟨h.owner.update_outside (by rw [ht]; rfl) rfl, h.free, ?_, fun u => ?_⟩
        · refine forall_goto (P := fun u pc => ∀ d rest, pc = .inside d rest →
            ∃ before made, Holding O s₀ _ u d rest before made) (fun d rest hpc => (by cases hpc))
            fun u _ d rest hpc => ?_
          obtain ⟨before, made, hentered, hanswers, hbody, hshared⟩ := h.held u d rest hpc
          exact ⟨before, made, hentered, hanswers, hbody, hshared⟩
        · rw [begun_concat, begins, if_pos hc, Option.toList_some, callsOf_concat, ← h.order u]
          change callsOf u s.entered ++ (Function.update s.threads t _ u).waiting = _
          by_cases hut : u = t
          · subst hut
            rw [Function.update_self, if_pos rfl, ht]
            exact congrArg (· ++ [c]) (List.append_nil _).symm
          · rw [Function.update_of_ne hut, if_neg (Ne.symm hut), List.append_nil]
      · rw [if_neg hc] at hs
        obtain rfl := Option.some.inj hs
        refine ⟨h.owner, h.free, h.held, fun u => ?_⟩
        rw [begun_concat, begins, if_neg hc, Option.toList_none, List.append_nil]
        exact h.order u
    case h_2 => cases hs
  | step t =>
    dsimp only [machine] at hs
    split at hs
    case h_1 => cases hs
    case h_2 c ht =>
      obtain ⟨hm, hs'⟩ := Option.ite_none_right_eq_some.mp hs
      obtain rfl := Option.some.inj hs'
      exact h.lock ht hm
    case h_3 c f rest ht =>
      obtain rfl := Option.some.inj hs
      exact h.inside ht
    case h_4 c ht =>
      obtain rfl := Option.some.inj hs
      exact h.unlock ht

/-- **Serialisation**: in every interleaving, the calls appear to be made one after another. -/
theorem serial_run (h : O.machine.run (.initial s₀) as = some s) : Serial O s₀ as s :=
  Machine.run_induction (P := fun as s => Serial O s₀ as s) serial_initial
    (fun _ _ _ _ _ hi ha => hi.step ha) h

/-- Two threads inside the lock are one. -/
theorem Serial.exclusive (h : Serial O s₀ as s) {u : ℕ} (ht : (s.threads t).holds = true)
    (hu : (s.threads u).holds = true) : t = u :=
  Option.some.inj (((h.owner t).mp ht).symm.trans ((h.owner u).mp hu))

/-- The thread that holds the lock is inside it. -/
theorem Serial.exists_inside (h : Serial O s₀ as s) (hm : s.mutex = some t) :
    ∃ c rest, s.threads t = .inside c rest := by
  have ht : (s.threads t).holds = true := (h.owner t).mpr hm
  cases hpc : s.threads t with
  | inside c rest => exact ⟨c, rest, rfl⟩
  | _ =>
    rw [hpc] at ht
    cases ht

/-- A call that enters later comes later. -/
theorem entered_prefix (h : O.machine.run s bs = some s') : s.entered <+: s'.entered := by
  refine Machine.invariant_run (I := fun s' : State S C R => s.entered <+: s'.entered)
    (fun r a r' hi hr => ?_) (List.prefix_refl _) h
  refine hi.trans ?_
  cases a with
  | call t c =>
    dsimp only [machine] at hr
    split at hr
    · split at hr <;> obtain rfl := Option.some.inj hr <;> exact List.prefix_refl _
    · cases hr
  | step t =>
    dsimp only [machine] at hr
    split at hr
    · cases hr
    · obtain ⟨-, hr'⟩ := Option.ite_none_right_eq_some.mp hr
      obtain rfl := Option.some.inj hr'
      exact List.prefix_append ..
    · obtain rfl := Option.some.inj hr
      exact List.prefix_refl _
    · obtain rfl := Option.some.inj hr
      exact List.prefix_refl _

/-! ## Every call can return -/

/-- The thread inside the lock can leave it. -/
theorem exists_unlock {c : C} {rest : List (S → S)} :
    ∀ {s : State S C R}, s.threads t = .inside c rest →
      ∃ s', O.machine.Reaches s s' ∧ s'.mutex = none ∧
        s'.threads = Function.update s.threads t .idle := by
  induction rest with
  | nil =>
    intro s ht
    have hs : O.machine.step s (.step t) = some ({ s with
        mutex := none, answers := s.answers ++ [(t, c, O.answer c s.shared)] }.goto t .idle) := by
      simp only [machine, ht]
    exact ⟨_, (Machine.Reaches.refl s).step hs, rfl, rfl⟩
  | cons f rest ih =>
    intro s ht
    have hs : O.machine.step s (.step t) =
        some ({ s with shared := f s.shared }.goto t (.inside c rest)) := by
      simp only [machine, ht]
    obtain ⟨s', hreach, hm, hthreads⟩ :=
      ih (s := { s with shared := f s.shared }.goto t (.inside c rest)) (Function.update_self ..)
    refine ⟨s', ((Machine.Reaches.refl s).step hs).trans hreach, hm, hthreads.trans ?_⟩
    exact Function.update_idem ..

/-- **No call is stuck**: from every state that an interleaving reaches, every call under way
can return. -/
theorem exists_returned (h : Serial O s₀ as s) (t : ℕ) :
    ∃ s', O.machine.Reaches s s' ∧ s'.threads t = .idle := by
  have hfree : ∀ {s : State S C R} {c : C}, s.mutex = none → s.threads t = .lock c →
      ∃ s', O.machine.Reaches s s' ∧ s'.threads t = .idle := by
    intro s c hm ht
    have hs : O.machine.step s (.step t) =
        some ({ s with mutex := some t, entered := s.entered ++ [(t, c)] }.goto t
          (.inside c (O.body c s.shared))) := by
      simp only [machine, ht, hm, if_true]
    obtain ⟨s', hreach, -, hthreads⟩ := exists_unlock (O := O)
      (s := { s with mutex := some t, entered := s.entered ++ [(t, c)] }.goto t
        (.inside c (O.body c s.shared))) (Function.update_self ..)
    refine ⟨s', ((Machine.Reaches.refl s).step hs).trans hreach, ?_⟩
    rw [hthreads]
    exact Function.update_self ..
  cases ht : s.threads t with
  | idle => exact ⟨s, Machine.Reaches.refl s, ht⟩
  | inside c rest =>
    obtain ⟨s', hreach, -, hthreads⟩ := exists_unlock (O := O) ht
    refine ⟨s', hreach, ?_⟩
    rw [hthreads]
    exact Function.update_self ..
  | lock c =>
    cases hm : s.mutex with
    | none => exact hfree hm ht
    | some u =>
      -- the thread that holds the lock leaves it first
      obtain ⟨d, rest, hpc⟩ := h.exists_inside hm
      obtain ⟨s₁, hreach, hm₁, hthreads⟩ := exists_unlock (O := O) hpc
      have ht₁ : s₁.threads t = .lock c := by
        rw [hthreads, Function.update_of_ne, ht]
        rintro rfl
        cases ht.symm.trans hpc
      obtain ⟨s', hreach', hidle⟩ := hfree hm₁ ht₁
      exact ⟨s', hreach.trans hreach', hidle⟩

end Guarded
