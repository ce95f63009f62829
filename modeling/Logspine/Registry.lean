import Logspine.Logger
import Logspine.Machine
import Logspine.Mutex

/-!
# `logger_registry`, one shared access at a time

Any number of threads call `set_level` and `get`. The store to `minimum_level_`, the loads of
it, every lock and unlock of `mutex_` and every update of a logger is one step; the scheduler
picks the order, and the order in which `set_level` comes to the loggers.

`set_level` stores the level before it takes the lock, so that two calls can store in one
order and update the loggers in the other. If they never do, the loggers agree with the
registry whenever no call is in progress (`levels_agree`); once they do, all calls can end in
a disagreement (`exists_disagreement`).
-/

namespace Logspine

namespace Registry

/-- Where a thread is, with the locals that are in scope there. -/
inductive Pc where
  /-- outside any call -/
  | idle : Pc
  /-- `set_level`: `minimum_level_.store(value)` -/
  | setStore (value : Level) : Pc
  /-- `set_level`: `std::scoped_lock lock(mutex_)` -/
  | setLock (value : Level) : Pc
  /-- `set_level`: the loop, with the names of the loggers it has not come to; the lock goes out
  of scope when there are none -/
  | setLoop (value : Level) (rest : List Bytes) : Pc
  /-- `get`: `std::scoped_lock lock(mutex_)` -/
  | getLock (name : Bytes) : Pc
  /-- `get`: `loggers_.find(key)` -/
  | getFind (name : Bytes) : Pc
  /-- `get`: `minimum_level_.load()` for a new logger -/
  | getLoad (name : Bytes) : Pc
  /-- `get`: `loggers_.emplace(key, created)` -/
  | getEmplace (name : Bytes) (level : Level) : Pc
  /-- `get`: the lock goes out of scope, the call returns the logger with the number -/
  | getUnlock (name : Bytes) (returned : ℕ) : Pc
  deriving DecidableEq

/-- `logger_registry` with its threads. -/
structure State where
  /-- `minimum_level_` -/
  minimumLevel : Level
  /-- `mutex_`: the thread that holds it -/
  mutex : Option ℕ
  /-- `loggers_`, each under its name, numbered as they were created -/
  loggers : List Logger
  threads : ℕ → Pc

/-- A registry just built. -/
def State.initial (minimumLevel : Level) : State := ⟨minimumLevel, none, [], fun _ => .idle⟩

/-- `level_threshold` -/
def State.levelThreshold (s : State) : Level := s.minimumLevel

/-- The thread goes on to `pc`. -/
def State.goto (s : State) (t : ℕ) (pc : Pc) : State :=
  { s with threads := Function.update s.threads t pc }

/-- What the scheduler can do. -/
inductive Action where
  /-- the thread calls `set_level` -/
  | setLevel (t : ℕ) (value : Level) : Action
  /-- the thread calls `get` -/
  | get (t : ℕ) (name : Bytes) : Action
  /-- the thread updates the logger that its loop comes to -/
  | update (t : ℕ) (name : Bytes) : Action
  /-- the thread takes its next step -/
  | step (t : ℕ) : Action

/-- `current_logger->set_level(value)`, for the logger with the name -/
def setLevelOf (name : Bytes) (value : Level) (loggers : List Logger) : List Logger :=
  loggers.map fun logger => if logger.name = name then logger.setLevel value else logger

/-- One step of a thread. -/
def advance (s : State) (t : ℕ) : Option State :=
  match s.threads t with
  | .idle => none
  | .setStore value => some ({ s with minimumLevel := value }.goto t (.setLock value))
  | .setLock value =>
    if s.mutex = none then
      some ({ s with mutex := some t }.goto t (.setLoop value (s.loggers.map Logger.name)))
    else none
  | .setLoop _ rest =>
    if rest = [] then some ({ s with mutex := none }.goto t .idle) else none
  | .getLock name =>
    if s.mutex = none then some ({ s with mutex := some t }.goto t (.getFind name)) else none
  | .getFind name =>
    if ∃ logger ∈ s.loggers, logger.name = name then
      some (s.goto t (.getUnlock name ((s.loggers.map Logger.name).idxOf name)))
    else some (s.goto t (.getLoad name))
  | .getLoad name => some (s.goto t (.getEmplace name s.minimumLevel))
  | .getEmplace name level =>
    some ({ s with loggers := s.loggers ++ [(⟨name, level⟩ : Logger)] }.goto t
      (.getUnlock name s.loggers.length))
  | .getUnlock _ _ => some ({ s with mutex := none }.goto t .idle)

/-- The registry and its threads as a machine. -/
def machine : Machine State Action where
  step s
    | .setLevel t value =>
      if s.threads t = .idle then some (s.goto t (.setStore value)) else none
    | .get t name => if s.threads t = .idle then some (s.goto t (.getLock name)) else none
    | .update t name =>
      match s.threads t with
      | .setLoop value rest =>
        if name ∈ rest then
          some ({ s with loggers := setLevelOf name value s.loggers }.goto t
            (.setLoop value (rest.erase name)))
        else none
      | _ => none
    | .step t => advance s t

/-- In `set_level`, before the lock is taken. -/
def Pc.pending : Pc → Bool
  | .setStore _ | .setLock _ => true
  | _ => false

/-- Every call of `set_level` that takes the lock brings the level that the registry has, or
finds no logger, or is not the last: another call of `set_level` has the lock still before it. -/
def LocksInOrder (s : State) : Action → Prop
  | .step t => ∀ value, s.threads t = .setLock value → s.minimumLevel = value ∨ s.loggers = [] ∨
      ∃ u ≠ t, (s.threads u).pending = true
  | _ => True

/-- The thread holds `mutex_`. -/
def Pc.holds : Pc → Bool
  | .setLoop _ _ | .getFind _ | .getLoad _ | .getEmplace _ _ | .getUnlock _ _ => true
  | _ => false

/-! ## What a step does -/

section Steps

variable {s s' : State} {t u : ℕ} {pc pc' : Pc} {a : Action}

/-- A step of the machine, by where the thread is. -/
inductive Moves (s : State) : Action → State → Prop where
  | setLevel (t : ℕ) (value : Level) (ht : s.threads t = .idle) :
      Moves s (.setLevel t value) (s.goto t (.setStore value))
  | get (t : ℕ) (name : Bytes) (ht : s.threads t = .idle) :
      Moves s (.get t name) (s.goto t (.getLock name))
  | setStore (t : ℕ) (value : Level) (ht : s.threads t = .setStore value) :
      Moves s (.step t) ({ s with minimumLevel := value }.goto t (.setLock value))
  | setLock (t : ℕ) (value : Level) (ht : s.threads t = .setLock value) (hm : s.mutex = none) :
      Moves s (.step t)
        ({ s with mutex := some t }.goto t (.setLoop value (s.loggers.map Logger.name)))
  | update (t : ℕ) (value : Level) (rest : List Bytes) (name : Bytes)
      (ht : s.threads t = .setLoop value rest) (hname : name ∈ rest) :
      Moves s (.update t name) ({ s with loggers := setLevelOf name value s.loggers }.goto t
        (.setLoop value (rest.erase name)))
  | setUnlock (t : ℕ) (value : Level) (ht : s.threads t = .setLoop value []) :
      Moves s (.step t) ({ s with mutex := none }.goto t .idle)
  | getLock (t : ℕ) (name : Bytes) (ht : s.threads t = .getLock name) (hm : s.mutex = none) :
      Moves s (.step t) ({ s with mutex := some t }.goto t (.getFind name))
  | found (t : ℕ) (name : Bytes) (ht : s.threads t = .getFind name) :
      Moves s (.step t) (s.goto t (.getUnlock name ((s.loggers.map Logger.name).idxOf name)))
  | notFound (t : ℕ) (name : Bytes) (ht : s.threads t = .getFind name) :
      Moves s (.step t) (s.goto t (.getLoad name))
  | getLoad (t : ℕ) (name : Bytes) (ht : s.threads t = .getLoad name) :
      Moves s (.step t) (s.goto t (.getEmplace name s.minimumLevel))
  | getEmplace (t : ℕ) (name : Bytes) (level : Level) (ht : s.threads t = .getEmplace name level) :
      Moves s (.step t) ({ s with loggers := s.loggers ++ [(⟨name, level⟩ : Logger)] }.goto t
        (.getUnlock name s.loggers.length))
  | getUnlock (t : ℕ) (name : Bytes) (i : ℕ) (ht : s.threads t = .getUnlock name i) :
      Moves s (.step t) ({ s with mutex := none }.goto t .idle)

theorem moves_of_advance (h : advance s t = some s') : Moves s (.step t) s' := by
  rw [advance] at h
  cases ht : s.threads t with
  | idle =>
    rw [ht] at h
    cases h
  | setStore value =>
    rw [ht] at h
    obtain rfl := Option.some.inj h
    exact .setStore t value ht
  | setLock value =>
    rw [ht] at h
    obtain ⟨hm, hs'⟩ := Option.ite_none_right_eq_some.mp h
    obtain rfl := Option.some.inj hs'
    exact .setLock t value ht hm
  | setLoop value rest =>
    rw [ht] at h
    obtain ⟨rfl, hs'⟩ := Option.ite_none_right_eq_some.mp h
    obtain rfl := Option.some.inj hs'
    exact .setUnlock t value ht
  | getLock name =>
    rw [ht] at h
    obtain ⟨hm, hs'⟩ := Option.ite_none_right_eq_some.mp h
    obtain rfl := Option.some.inj hs'
    exact .getLock t name ht hm
  | getFind name =>
    rw [ht] at h
    dsimp only at h
    split at h
    · obtain rfl := Option.some.inj h
      exact .found t name ht
    · obtain rfl := Option.some.inj h
      exact .notFound t name ht
  | getLoad name =>
    rw [ht] at h
    obtain rfl := Option.some.inj h
    exact .getLoad t name ht
  | getEmplace name level =>
    rw [ht] at h
    obtain rfl := Option.some.inj h
    exact .getEmplace t name level ht
  | getUnlock name i =>
    rw [ht] at h
    obtain rfl := Option.some.inj h
    exact .getUnlock t name i ht

theorem moves_of_step (h : machine.step s a = some s') : Moves s a s' := by
  cases a with
  | setLevel t value =>
    obtain ⟨ht, hs'⟩ := Option.ite_none_right_eq_some.mp h
    obtain rfl := Option.some.inj hs'
    exact .setLevel t value ht
  | get t name =>
    obtain ⟨ht, hs'⟩ := Option.ite_none_right_eq_some.mp h
    obtain rfl := Option.some.inj hs'
    exact .get t name ht
  | update t name =>
    dsimp only [machine] at h
    split at h
    · rename_i value rest ht
      obtain ⟨hname, hs'⟩ := Option.ite_none_right_eq_some.mp h
      obtain rfl := Option.some.inj hs'
      exact .update t value rest name ht hname
    · cases h
  | step t => exact moves_of_advance h

/-- Where the thread is after its step. -/
theorem goto_threads_self : (s.goto t pc).threads t = pc := Function.update_self ..

/-- Where another thread is. -/
theorem goto_threads_of_ne (h : u ≠ t) : (s.goto t pc).threads u = s.threads u :=
  Function.update_of_ne h ..

/-- The thread inside the lock stays the one that `mutex_` names. -/
theorem owned_of_moves (h : Owned Pc.holds s.threads s.mutex) (hmove : Moves s a s') :
    Owned Pc.holds s'.threads s'.mutex := by
  cases hmove with
  | setLevel t value ht => exact h.update_outside (by rw [ht]; rfl) rfl
  | get t name ht => exact h.update_outside (by rw [ht]; rfl) rfl
  | setStore t value ht => exact h.update_outside (by rw [ht]; rfl) rfl
  | setLock t value ht hm =>
    rw [hm] at h
    exact h.update_lock rfl
  | getLock t name ht hm =>
    rw [hm] at h
    exact h.update_lock rfl
  | setUnlock t value ht => exact h.update_unlock (by rw [ht]; rfl) rfl
  | getUnlock t name i ht => exact h.update_unlock (by rw [ht]; rfl) rfl
  | update t value rest name ht hname => exact h.update_inside (by rw [ht]; rfl) rfl
  | found t name ht => exact h.update_inside (by rw [ht]; rfl) rfl
  | notFound t name ht => exact h.update_inside (by rw [ht]; rfl) rfl
  | getLoad t name ht => exact h.update_inside (by rw [ht]; rfl) rfl
  | getEmplace t name level ht => exact h.update_inside (by rw [ht]; rfl) rfl

/-! ## The invariant -/

/-- No call of `set_level` has the lock still before it. -/
def State.Settled (s : State) : Prop := ∀ t, (s.threads t).pending = false

/-- The place of the thread that holds `mutex_`. -/
def State.holder (s : State) : Pc := holderOf .idle s.threads s.mutex

/-- What holds of the loggers while the holder of the lock is at the place. -/
def Pc.Agrees (settled : Prop) (minimumLevel : Level) (loggers : List Logger) : Pc → Prop
  | .setLoop value rest =>
    (∀ logger ∈ loggers, logger.name ∉ rest → logger.minimumLevel = value) ∧
      (settled → minimumLevel = value ∨ loggers = [])
  | .getEmplace _ level =>
    settled → level = minimumLevel ∧ ∀ logger ∈ loggers, logger.minimumLevel = minimumLevel
  | _ => settled → ∀ logger ∈ loggers, logger.minimumLevel = minimumLevel

/-- The thread that holds the lock is the one whose place says so, and the loggers are as its
place says. -/
structure State.Agreement (s : State) : Prop where
  owner : Owned Pc.holds s.threads s.mutex
  agrees : s.holder.Agrees s.Settled s.minimumLevel s.loggers

/-- A thread that is past its lock settles nothing. -/
theorem State.Settled.of_goto (h : (s.goto t pc').Settled) (ht : s.threads t = pc)
    (hpc : pc.pending = false) : s.Settled := by
  intro u
  by_cases hut : u = t
  · rw [hut, ht]
    exact hpc
  · have hu := h u
    rwa [goto_threads_of_ne hut] at hu

theorem Pc.pending_eq_false (h : pc.holds = true) : pc.pending = false := by
  cases pc <;> first | rfl | cases h

/-- What the place says stays true when the state settles less often and keeps its level where
it settles. -/
theorem Pc.Agrees.mono {settled settled' : Prop} {level level' : Level} {loggers : List Logger}
    (h : pc.Agrees settled level loggers) (hs : settled' → settled ∧ level' = level) :
    pc.Agrees settled' level' loggers := by
  cases pc with
  | setLoop value rest =>
    refine ⟨h.1, fun hs' => ?_⟩
    obtain ⟨hset, rfl⟩ := hs hs'
    exact h.2 hset
  | _ =>
    intro hs'
    obtain ⟨hset, rfl⟩ := hs hs'
    exact h hset

/-- What the holder's place says while no thread holds the lock. -/
theorem State.Agreement.of_free (h : s.Agreement) (hm : s.mutex = none) :
    s.Settled → ∀ logger ∈ s.loggers, logger.minimumLevel = s.minimumLevel := by
  have hagree := h.agrees
  rwa [State.holder, hm] at hagree

/-- What the place of a thread with the lock says. -/
theorem State.Agreement.of_holds (h : s.Agreement) (ht : s.threads t = pc)
    (hpc : pc.holds = true) : pc.Agrees s.Settled s.minimumLevel s.loggers := by
  subst ht
  have hagree := h.agrees
  rwa [State.holder, h.owner.holderOf_eq hpc] at hagree

/-- A thread without the lock goes on, and stores a level at most on its way to the lock. -/
theorem State.Agreement.outside (h : s.Agreement) (hold : (s.threads t).holds = false)
    (level : Level) (hs : (s.goto t pc').Settled → s.Settled ∧ level = s.minimumLevel) :
    ({ s with minimumLevel := level }.goto t pc').holder.Agrees
      ({ s with minimumLevel := level }.goto t pc').Settled level s.loggers := by
  have hholder : ({ s with minimumLevel := level }.goto t pc').holder = s.holder :=
    h.owner.holderOf_outside hold
  rw [hholder]
  exact h.agrees.mono hs

/-- A thread goes on with the lock. -/
theorem State.Agreement.inside (h : s.Agreement) (ht : s.threads t = pc) (hpc : pc.holds = true)
    (loggers : List Logger) (ha : pc'.Agrees s.Settled s.minimumLevel loggers) :
    ({ s with loggers := loggers }.goto t pc').holder.Agrees
      ({ s with loggers := loggers }.goto t pc').Settled s.minimumLevel loggers := by
  subst ht
  have hholder : ({ s with loggers := loggers }.goto t pc').holder = pc' :=
    h.owner.holderOf_inside hpc
  rw [hholder]
  exact ha.mono fun hs => ⟨hs.of_goto (s := s) rfl (Pc.pending_eq_false hpc), rfl⟩

/-- After the update of a logger, every logger that the loop has passed has the level. -/
theorem forall_setLevelOf {name : Bytes} {value : Level} {rest : List Bytes}
    {loggers : List Logger}
    (h : ∀ logger ∈ loggers, logger.name ∉ rest → logger.minimumLevel = value) :
    ∀ logger ∈ setLevelOf name value loggers, logger.name ∉ rest.erase name →
      logger.minimumLevel = value := by
  intro logger hl hrest
  obtain ⟨before, hb, rfl⟩ := List.mem_map.mp hl
  by_cases hname : before.name = name
  · rw [if_pos hname]
    rfl
  · rw [if_neg hname] at hrest ⊢
    exact h before hb fun hmem => hrest ((List.mem_erase_of_ne hname).mpr hmem)

/-- A step that locks in order keeps the agreement. -/
theorem State.Agreement.moves (h : s.Agreement) (hok : LocksInOrder s a) (hmove : Moves s a s') :
    s'.Agreement := by
  refine ⟨owned_of_moves h.owner hmove, ?_⟩
  cases hmove with
  | setLevel t value ht =>
    exact h.outside (by rw [ht]; rfl) s.minimumLevel fun hs => ⟨hs.of_goto ht rfl, rfl⟩
  | get t name ht =>
    exact h.outside (by rw [ht]; rfl) s.minimumLevel fun hs => ⟨hs.of_goto ht rfl, rfl⟩
  | setStore t value ht =>
    refine h.outside (by rw [ht]; rfl) value fun hs => ?_
    have hpending : (Function.update s.threads t (.setLock value) t).pending = false := hs t
    rw [Function.update_self] at hpending
    cases hpending
  | setLock t value ht hm =>
    have hholder : ({ s with mutex := some t }.goto t
        (.setLoop value (s.loggers.map Logger.name))).holder =
          .setLoop value (s.loggers.map Logger.name) := Owned.holderOf_lock
    rw [hholder]
    refine ⟨fun logger hl hrest => absurd (List.mem_map_of_mem hl) hrest, fun hs => ?_⟩
    -- the level just stored is the last, or another call is still to lock, so nothing settles
    rcases hok value ht with hval | hempty | ⟨u, hu, hpending⟩
    · exact .inl hval
    · exact .inr hempty
    · have hsettled := hs u
      rw [goto_threads_of_ne hu, hpending] at hsettled
      cases hsettled
  | update t value rest name ht hname =>
    obtain ⟨hupdated, hstored⟩ := h.of_holds ht rfl
    refine h.inside ht rfl _ ⟨forall_setLevelOf hupdated, fun hs => ?_⟩
    rcases hstored hs with hval | hempty
    · exact .inl hval
    · refine .inr ?_
      rw [hempty]
      rfl
  | setUnlock t value ht =>
    obtain ⟨hupdated, hstored⟩ := h.of_holds ht rfl
    intro hs logger hl
    rcases hstored (hs.of_goto (s := s) ht rfl) with hval | hempty
    · exact (hupdated logger hl List.not_mem_nil).trans hval.symm
    · replace hl : logger ∈ s.loggers := hl
      rw [hempty] at hl
      cases hl
  | getLock t name ht hm =>
    have hholder : ({ s with mutex := some t }.goto t (.getFind name)).holder = .getFind name :=
      Owned.holderOf_lock
    rw [hholder]
    exact fun hs => h.of_free hm (hs.of_goto (s := s) ht rfl)
  | found t name ht =>
    have hagree := h.of_holds ht rfl
    exact h.inside ht rfl s.loggers hagree
  | notFound t name ht =>
    have hagree := h.of_holds ht rfl
    exact h.inside ht rfl s.loggers hagree
  | getLoad t name ht =>
    have hagree := h.of_holds ht rfl
    exact h.inside ht rfl s.loggers fun hs => ⟨rfl, hagree hs⟩
  | getEmplace t name level ht =>
    have hagree := h.of_holds ht rfl
    refine h.inside ht rfl _ fun hs logger hl => ?_
    obtain ⟨rfl, hall⟩ := hagree hs
    rcases List.mem_append.mp hl with hl | hl
    · exact hall logger hl
    · rw [List.mem_singleton.mp hl]
  | getUnlock t name i ht =>
    have hagree := h.of_holds ht rfl
    exact fun hs => hagree (hs.of_goto (s := s) ht rfl)

end Steps

theorem owned_initial (level : Level) :
    Owned Pc.holds (State.initial level).threads (State.initial level).mutex :=
  fun _ => iff_of_false Bool.false_ne_true (by rintro ⟨⟩)

theorem agreement_initial (level : Level) : (State.initial level).Agreement :=
  ⟨owned_initial level, fun _ => List.forall_mem_nil _⟩

/-- **The registry and its loggers agree.** However the calls of `set_level` and `get` of any
number of threads run into each other: if no call of `set_level` takes the lock with a level
that another has replaced, every logger has the level of the registry whenever no call is in
progress. -/
theorem levels_agree {level : Level} {as : List Action} {s : State}
    (hrun : machine.run (State.initial level) as = some s)
    (horder : machine.Meets LocksInOrder (State.initial level) as)
    (hidle : ∀ t, s.threads t = .idle) :
    ∀ logger ∈ s.loggers, logger.minimumLevel = s.levelThreshold := by
  have hs : s.Agreement := Machine.run_induction_of_meets (agreement_initial level)
    (fun _ _ _ h hok hstep => h.moves hok (moves_of_step hstep)) hrun horder
  have hm : s.mutex = none := hs.owner.eq_none fun t => by rw [hidle t]; rfl
  refine hs.of_free hm fun t => ?_
  rw [hidle t]
  rfl

/-! ## Calls that lock out of order -/

section OutOfOrder

variable {s s' : State} {t u : ℕ} {value : Level}

/-- A run of one thread has brought it out of its call. -/
structure Finishes (t : ℕ) (s s' : State) : Prop where
  reaches : machine.Reaches s s'
  threads : s'.threads = Function.update s.threads t .idle
  mutex : s'.mutex = none
  minimumLevel : s'.minimumLevel = s.minimumLevel

/-- A thread that finishes after one more step finishes. -/
theorem Finishes.of_step {s₁ : State} {pc : Pc} {a : Action}
    (h : Finishes t (s₁.goto t pc) s') (hstep : machine.step s a = some (s₁.goto t pc))
    (hthreads : s₁.threads = s.threads) (hlevel : s₁.minimumLevel = s.minimumLevel) :
    Finishes t s s' := by
  refine ⟨((Machine.Reaches.refl s).step hstep).trans h.reaches, ?_, h.mutex,
    h.minimumLevel.trans hlevel⟩
  rw [h.threads, ← hthreads]
  exact Function.update_idem ..

/-- A thread leaves the lock. -/
theorem finishes_unlock (hstep : machine.step s (.step t) =
    some ({ s with mutex := none }.goto t .idle)) :
    Finishes t s ({ s with mutex := none }.goto t .idle) :=
  ⟨(Machine.Reaches.refl s).step hstep, rfl, rfl, rfl⟩

/-- The loop of `set_level` comes to its end, and every logger has the level. -/
theorem exists_finishes_setLoop {rest : List Bytes} (ht : s.threads t = .setLoop value rest)
    (h : ∀ logger ∈ s.loggers, logger.name ∉ rest → logger.minimumLevel = value) :
    ∃ s', Finishes t s s' ∧ s'.loggers.length = s.loggers.length ∧
      ∀ logger ∈ s'.loggers, logger.minimumLevel = value := by
  induction rest generalizing s with
  | nil =>
    refine ⟨_, finishes_unlock ?_, rfl, fun logger hl => h logger hl List.not_mem_nil⟩
    show advance s t = _
    rw [advance, ht]
    rfl
  | cons name rest ih =>
    have hstep : machine.step s (.update t name) =
        some ({ s with loggers := setLevelOf name value s.loggers }.goto t
          (.setLoop value rest)) := by
      dsimp only [machine]
      rw [ht]
      dsimp only
      rw [if_pos List.mem_cons_self, List.erase_cons_head]
    have hupdated : ∀ logger ∈ setLevelOf name value s.loggers,
        logger.name ∉ (name :: rest).erase name → logger.minimumLevel = value :=
      forall_setLevelOf h
    rw [List.erase_cons_head] at hupdated
    obtain ⟨s', hfinish, hlength, hall⟩ := ih (s := { s with
      loggers := setLevelOf name value s.loggers }.goto t (.setLoop value rest))
      goto_threads_self hupdated
    exact ⟨s', hfinish.of_step hstep rfl rfl, hlength.trans (List.length_map _), hall⟩

/-- A call of `get` leaves the lock. -/
theorem exists_finishes_getUnlock {name : Bytes} {i : ℕ} (ht : s.threads t = .getUnlock name i) :
    ∃ s', Finishes t s s' ∧ s.loggers ⊆ s'.loggers := by
  refine ⟨_, finishes_unlock ?_, List.Subset.refl _⟩
  show advance s t = _
  rw [advance, ht]

/-- A call of `get` creates a logger. -/
theorem exists_finishes_getLoad {name : Bytes} (ht : s.threads t = .getLoad name) :
    ∃ s', Finishes t s s' ∧ s.loggers ⊆ s'.loggers := by
  have hload : machine.step s (.step t) =
      some (s.goto t (.getEmplace name s.minimumLevel)) := by
    show advance s t = _
    rw [advance, ht]
  have hemplace : machine.step (s.goto t (.getEmplace name s.minimumLevel)) (.step t) =
      some ({ s.goto t (.getEmplace name s.minimumLevel) with
        loggers := s.loggers ++ [(⟨name, s.minimumLevel⟩ : Logger)] }.goto t
          (.getUnlock name s.loggers.length)) := by
    show advance _ t = _
    rw [advance, goto_threads_self]
    rfl
  obtain ⟨s', hfinish, hsub⟩ := exists_finishes_getUnlock
    (s := { s.goto t (.getEmplace name s.minimumLevel) with
      loggers := s.loggers ++ [(⟨name, s.minimumLevel⟩ : Logger)] }.goto t
        (.getUnlock name s.loggers.length))
    goto_threads_self
  exact ⟨s', (hfinish.of_step hemplace rfl rfl).of_step hload rfl rfl,
    List.Subset.trans (List.subset_append_left _ _) hsub⟩

/-- A call of `get` takes the lock and comes to its end; no logger goes away. -/
theorem exists_finishes_getLock {name : Bytes} (ht : s.threads t = .getLock name)
    (hm : s.mutex = none) : ∃ s', Finishes t s s' ∧ s.loggers ⊆ s'.loggers := by
  have hlock : machine.step s (.step t) =
      some ({ s with mutex := some t }.goto t (.getFind name)) := by
    show advance s t = _
    rw [advance, ht]
    exact if_pos hm
  by_cases hfound : ∃ logger ∈ s.loggers, logger.name = name
  · have hfind : machine.step ({ s with mutex := some t }.goto t (.getFind name)) (.step t) =
        some (({ s with mutex := some t }.goto t (.getFind name)).goto t
          (.getUnlock name ((s.loggers.map Logger.name).idxOf name))) := by
      show advance _ t = _
      rw [advance, goto_threads_self]
      exact if_pos hfound
    obtain ⟨s', hfinish, hsub⟩ := exists_finishes_getUnlock
      (s := ({ s with mutex := some t }.goto t (.getFind name)).goto t
        (.getUnlock name ((s.loggers.map Logger.name).idxOf name)))
      goto_threads_self
    exact ⟨s', (hfinish.of_step hfind rfl rfl).of_step hlock rfl rfl, hsub⟩
  · have hfind : machine.step ({ s with mutex := some t }.goto t (.getFind name)) (.step t) =
        some (({ s with mutex := some t }.goto t (.getFind name)).goto t (.getLoad name)) := by
      show advance _ t = _
      rw [advance, goto_threads_self]
      exact if_neg hfound
    obtain ⟨s', hfinish, hsub⟩ := exists_finishes_getLoad
      (s := ({ s with mutex := some t }.goto t (.getFind name)).goto t (.getLoad name))
      goto_threads_self
    exact ⟨s', (hfinish.of_step hfind rfl rfl).of_step hlock rfl rfl, hsub⟩

/-- A step moves one thread. -/
theorem Moves.threads {a : Action} (h : Moves s a s') :
    ∃ t pc, s'.threads = Function.update s.threads t pc := by
  cases h <;> exact ⟨_, _, rfl⟩

/-- Only finitely many threads are in a call. -/
theorem exists_idle_from {level : Level} (h : machine.Reaches (State.initial level) s) :
    ∃ n, ∀ u ≥ n, s.threads u = .idle := by
  refine Machine.invariant_reaches (I := fun s : State => ∃ n, ∀ u ≥ n, s.threads u = .idle)
    (fun s a s' hs hstep => ?_) ⟨0, fun _ _ => rfl⟩ h
  obtain ⟨n, hn⟩ := hs
  obtain ⟨t, pc, hthreads⟩ := (moves_of_step hstep).threads
  refine ⟨n + t + 1, fun u hu => ?_⟩
  have hne : u ≠ t := by omega
  rw [hthreads, Function.update_of_ne hne]
  exact hn u (by omega)

/-- When all that is left are calls of `get` that wait for the lock, all calls come to an end. -/
theorem exists_reaches_idle {n : ℕ} (hn : ∀ u ≥ n, s.threads u = .idle) (hm : s.mutex = none)
    (hget : ∀ u, s.threads u = .idle ∨ ∃ name, s.threads u = .getLock name) :
    ∃ s', machine.Reaches s s' ∧ (∀ u, s'.threads u = .idle) ∧
      s'.minimumLevel = s.minimumLevel ∧ s.loggers ⊆ s'.loggers := by
  induction n generalizing s with
  | zero => exact ⟨s, .refl s, fun u => hn u (Nat.zero_le u), rfl, List.Subset.refl _⟩
  | succ n ih =>
    rcases hget n with hidle | ⟨name, hlock⟩
    · refine ih (fun u hu => ?_) hm hget
      rcases Nat.eq_or_lt_of_le hu with rfl | hlt
      · exact hidle
      · exact hn u hlt
    · obtain ⟨s₁, hfinish, hsub⟩ := exists_finishes_getLock hlock hm
      have hthreads : ∀ u, u ≠ n → s₁.threads u = s.threads u := fun u hu => by
        rw [hfinish.threads, Function.update_of_ne hu]
      have hn₁ : s₁.threads n = .idle := by
        rw [hfinish.threads, Function.update_self]
      have hbound : ∀ u ≥ n, s₁.threads u = .idle := fun u hu => by
        rcases Nat.eq_or_lt_of_le hu with rfl | hlt
        · exact hn₁
        · exact (hthreads u hlt.ne').trans (hn u hlt)
      have hget₁ : ∀ u, s₁.threads u = .idle ∨ ∃ name, s₁.threads u = .getLock name := fun u => by
        by_cases hu : u = n
        · exact .inl (hu ▸ hn₁)
        · exact hthreads u hu ▸ hget u
      obtain ⟨s', hreach, hidle, hlevel, hsub'⟩ := ih hbound hfinish.mutex hget₁
      exact ⟨s', hfinish.reaches.trans hreach, hidle, hlevel.trans hfinish.minimumLevel,
        List.Subset.trans hsub hsub'⟩

/-- A call of `set_level` that locks out of order can end, with every other call, in a
disagreement. -/
theorem exists_disagreement {level : Level} {a : Action}
    (h : machine.Reaches (State.initial level) s) (hstep : machine.step s a = some s')
    (hnot : ¬ LocksInOrder s a) :
    ∃ s₃, machine.Reaches s' s₃ ∧ (∀ u, s₃.threads u = .idle) ∧
      ¬ ∀ logger ∈ s₃.loggers, logger.minimumLevel = s₃.levelThreshold := by
  cases a with
  | step t =>
    obtain ⟨value, hvalue⟩ := not_forall.mp hnot
    obtain ⟨ht, hvalue⟩ := Classical.not_imp.mp hvalue
    obtain ⟨hne, hvalue⟩ := not_or.mp hvalue
    obtain ⟨hloggers, hothers⟩ := not_or.mp hvalue
    replace hstep : advance s t = some s' := hstep
    rw [advance, ht] at hstep
    obtain ⟨hm, hs'⟩ := Option.ite_none_right_eq_some.mp hstep
    have howned : Owned Pc.holds s.threads s.mutex :=
      Machine.invariant_reaches (I := fun s : State => Owned Pc.holds s.threads s.mutex)
        (fun _ _ _ hs hstep => owned_of_moves hs (moves_of_step hstep)) (owned_initial level) h
    obtain ⟨n, hn⟩ := exists_idle_from h
    obtain rfl := Option.some.inj hs'
    obtain ⟨s₂, hfinish, hlength, hall⟩ := exists_finishes_setLoop
      (s := { s with mutex := some t }.goto t (.setLoop value (s.loggers.map Logger.name)))
      goto_threads_self fun logger hl hrest => absurd (List.mem_map_of_mem hl) hrest
    have hthreads : s₂.threads = Function.update s.threads t .idle :=
      hfinish.threads.trans (Function.update_idem ..)
    have hidle : ∀ u ≥ n, s₂.threads u = .idle := by
      rw [hthreads]
      exact (Function.forall_update_iff s.threads fun u pc => u ≥ n → pc = .idle).mpr
        ⟨fun _ => rfl, fun u _ => hn u⟩
    have hget : ∀ u, s₂.threads u = .idle ∨ ∃ name, s₂.threads u = .getLock name := by
      rw [hthreads]
      refine (Function.forall_update_iff s.threads fun _ pc =>
        pc = .idle ∨ ∃ name, pc = .getLock name).mpr ⟨.inl rfl, fun u hut => ?_⟩
      have hholds : ¬ (s.threads u).holds = true := fun hholds => by
        have hmutex := (howned u).mp hholds
        rw [hm] at hmutex
        cases hmutex
      have hpending : ¬ (s.threads u).pending = true := fun hpending => hothers ⟨u, hut, hpending⟩
      cases hu : s.threads u with
      | idle => exact .inl rfl
      | getLock name => exact .inr ⟨name, rfl⟩
      | setStore later => exact absurd (by rw [hu]; rfl) hpending
      | setLock later => exact absurd (by rw [hu]; rfl) hpending
      | _ => exact absurd (by rw [hu]; rfl) hholds
    obtain ⟨s₃, hreach, hidle', hlevel, hsub⟩ := exists_reaches_idle hidle hfinish.mutex hget
    refine ⟨s₃, hfinish.reaches.trans hreach, hidle', fun hagree => hne ?_⟩
    obtain ⟨logger, hl⟩ : ∃ logger, logger ∈ s₂.loggers := by
      refine List.exists_mem_of_length_pos ?_
      rw [hlength]
      exact List.length_pos_of_ne_nil hloggers
    calc s.minimumLevel = s₂.minimumLevel := hfinish.minimumLevel.symm
      _ = s₃.minimumLevel := hlevel.symm
      _ = logger.minimumLevel := (hagree logger (hsub hl)).symm
      _ = value := hall logger hl
  | _ => exact absurd trivial hnot

end OutOfOrder

/-- A logger is created, then a call of `set_level` changes its level. -/
def orderedCalls : List Action :=
  [.get 0 (ascii "checkout"), .step 0, .step 0, .step 0, .step 0, .step 0,
    .setLevel 1 .debug, .step 1, .step 1, .update 1 (ascii "checkout"), .step 1]

theorem meets_orderedCalls :
    machine.Meets LocksInOrder (State.initial .info) orderedCalls := by
  refine Machine.meets_cons trivial rfl ?_
  iterate 5 refine Machine.meets_cons (by rintro _ ⟨⟩) rfl ?_
  refine Machine.meets_cons trivial rfl ?_
  refine Machine.meets_cons (by rintro _ ⟨⟩) rfl ?_
  -- the lock of `set_level`, with the level just stored
  refine Machine.meets_cons (by rintro _ ⟨⟩; exact .inl rfl) rfl ?_
  refine Machine.meets_cons trivial rfl ?_
  exact Machine.meets_cons (by rintro _ ⟨⟩) rfl trivial

theorem levels_agree_orderedCalls :
    ∃ s, machine.run (State.initial .info) orderedCalls = some s ∧
      s.loggers = [⟨ascii "checkout", .debug⟩] ∧
      ∀ logger ∈ s.loggers, logger.minimumLevel = s.levelThreshold := by
  refine ⟨_, rfl, rfl, levels_agree rfl meets_orderedCalls fun t => ?_⟩
  rcases t with _ | _ | t <;> rfl

/-- Two calls of `set_level`, their stores in one order and their loops in the other. -/
def crossedCalls : List Action :=
  [.get 0 (ascii "checkout"), .step 0, .step 0, .step 0, .step 0, .step 0,
    .setLevel 1 .debug, .step 1, .setLevel 2 .error, .step 2,
    .step 2, .update 2 (ascii "checkout"), .step 2,
    .step 1, .update 1 (ascii "checkout"), .step 1]

/-- After the crossed calls, with no call in progress, the logger has the level that the registry
no longer has. -/
theorem not_agree_crossedCalls :
    ∃ s, machine.run (State.initial .info) crossedCalls = some s ∧ (∀ t, s.threads t = .idle) ∧
      s.loggers = [⟨ascii "checkout", .debug⟩] ∧ s.levelThreshold = .error ∧
      ¬ ∀ logger ∈ s.loggers, logger.minimumLevel = s.levelThreshold := by
  refine ⟨_, rfl, fun t => ?_, rfl, rfl, fun hagree => ?_⟩
  · rcases t with _ | _ | _ | t <;> rfl
  · have hlevel : Level.debug = Level.error := hagree _ (List.mem_singleton_self _)
    cases hlevel

end Registry

end Logspine
