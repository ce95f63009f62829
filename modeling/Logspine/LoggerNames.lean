import Logspine.Registry

/-!
# One logger for a name

`get` looks for a name and makes the logger in one hold of `mutex_`, and nothing takes a logger
out of `loggers_`. So all calls of `get` for a name return the same logger, however they run into
each other (`one_logger`).
-/

namespace Logspine

namespace Registry

/-- The names of the loggers, the oldest first. -/
def State.names (s : State) : List Bytes := s.loggers.map Logger.name

/-- The name that a call of `get` has neither found nor entered yet. -/
def Pc.asks : Pc → Option Bytes
  | getLock name | getFind name | getLoad name | getEmplace name _ => some name
  | _ => none

/-- A call of `get` makes a logger when the name is not there, and returns the logger that has
the name. -/
def Pc.Knows (names : List Bytes) : Pc → Prop
  | getLoad name | getEmplace name _ => name ∉ names
  | getUnlock name i => names[i]? = some name
  | _ => True

/-- There is one logger for a name, and the thread in `get` knows what it has found. -/
structure State.Named (s : State) : Prop where
  owner : Owned Pc.holds s.threads s.mutex
  nodup : s.names.Nodup
  knows : ∀ t, (s.threads t).Knows s.names

/-- The names stay, and a call of `get` that asks for one comes to find it. -/
structure Advances (s s' : State) : Prop where
  named : s'.Named
  grows : s.names <+: s'.names
  asks : ∀ t name, (s.threads t).asks = some name →
    (s'.threads t).asks = some name ∨ name ∈ s'.names

section Steps

variable {s s' s'' : State} {t u : ℕ} {pc' : Pc} {name : Bytes} {a : Action}

theorem Advances.refl (h : s.Named) : Advances s s :=
  ⟨h, List.prefix_refl _, fun _ _ hasks => .inl hasks⟩

theorem Advances.trans (h : Advances s s') (h' : Advances s' s'') : Advances s s'' := by
  refine ⟨h'.named, List.IsPrefix.trans h.grows h'.grows, fun t name hasks => ?_⟩
  rcases h.asks t name hasks with hasks | hmem
  · exact h'.asks t name hasks
  · exact .inr (h'.grows.subset hmem)

theorem Advances.stays (h : Advances s s') {i : ℕ} (hi : s.names[i]? = some name) :
    s'.names[i]? = some name := by
  obtain ⟨rest, hrest⟩ := h.grows
  rw [← hrest, List.getElem?_append_left (List.getElem?_eq_some_iff.mp hi).1]
  exact hi

theorem State.Named.unique (h : s.Named) {i j : ℕ} (hi : s.names[i]? = some name)
    (hj : s.names[j]? = some name) : i = j :=
  (List.getElem?_inj (List.getElem?_eq_some_iff.mp hi).1 h.nodup).mp (hi.trans hj.symm)

theorem names_setLevelOf (name : Bytes) (value : Level) (loggers : List Logger) :
    (setLevelOf name value loggers).map Logger.name = loggers.map Logger.name := by
  rw [setLevelOf, List.map_map]
  refine List.map_congr_left fun logger _ => ?_
  rw [Function.comp_apply]
  split <;> rfl

/-- A thread goes on, and no name comes in. -/
theorem State.Named.goto (h : s.Named) (howner : Owned Pc.holds s'.threads s'.mutex)
    (hthreads : s'.threads = Function.update s.threads t pc') (hnames : s'.names = s.names)
    (hknows : pc'.Knows s.names)
    (hasks : ∀ name, (s.threads t).asks = some name →
      pc'.asks = some name ∨ name ∈ s.names) : Advances s s' := by
  refine ⟨⟨howner, hnames ▸ h.nodup, fun u => ?_⟩, hnames ▸ List.prefix_refl _, fun u name hu => ?_⟩
  · rw [hnames, hthreads]
    by_cases hut : u = t
    · rw [hut, Function.update_self]
      exact hknows
    · rw [Function.update_of_ne hut]
      exact h.knows u
  · rw [hnames, hthreads]
    by_cases hut : u = t
    · subst hut
      rw [Function.update_self]
      exact hasks name hu
    · rw [Function.update_of_ne hut]
      exact .inl hu

/-- A thread enters the name that it has not found. -/
theorem State.Named.emplace (h : s.Named) (howner : Owned Pc.holds s'.threads s'.mutex)
    (hthreads : s'.threads = Function.update s.threads t (.getUnlock name s.names.length))
    {level : Level} (ht : s.threads t = .getEmplace name level)
    (hnames : s'.names = s.names ++ [name]) : Advances s s' := by
  have hnew : name ∉ s.names := by
    have hknows := h.knows t
    rwa [ht] at hknows
  refine ⟨⟨howner, ?_, fun u => ?_⟩, hnames ▸ List.prefix_append _ _, fun u key hu => ?_⟩
  · rw [hnames]
    exact List.nodup_append.mpr ⟨h.nodup, List.nodup_singleton _, fun x hx y hy hxy =>
      hnew (List.mem_singleton.mp hy ▸ hxy ▸ hx)⟩
  · -- no other thread has the lock
    rw [hthreads]
    by_cases hut : u = t
    · rw [hut, Function.update_self, hnames]
      exact List.getElem?_concat_length
    · rw [Function.update_of_ne hut]
      have hfree : (s.threads u).holds = false := by
        refine Bool.eq_false_iff.mpr fun hholds => hut ?_
        have hlock := (h.owner t).mp (by rw [ht]; rfl)
        exact Option.some.inj (((h.owner u).mp hholds).symm.trans hlock)
      cases hu : s.threads u with
      | getLoad name => cases (congrArg Pc.holds hu).symm.trans hfree
      | getEmplace name level => cases (congrArg Pc.holds hu).symm.trans hfree
      | getUnlock name i => cases (congrArg Pc.holds hu).symm.trans hfree
      | _ => trivial
  · rw [hnames, hthreads]
    by_cases hut : u = t
    · subst hut
      rw [ht] at hu
      obtain rfl := Option.some.inj hu
      exact .inr (List.mem_append_right _ (List.mem_singleton_self _))
    · rw [Function.update_of_ne hut]
      exact .inl hu

/-- What `find` answers. -/
theorem find_answers (ht : s.threads t = .getFind name) (h : machine.step s (.step t) = some s') :
    name ∈ s.names ∧ s' = s.goto t (.getUnlock name (s.names.idxOf name)) ∨
      name ∉ s.names ∧ s' = s.goto t (.getLoad name) := by
  change advance s t = some s' at h
  rw [advance, ht] at h
  dsimp only at h
  split at h
  case isTrue hfound => exact .inl ⟨List.mem_map.mpr hfound, (Option.some.inj h).symm⟩
  case isFalse hfound =>
    exact .inr ⟨fun hmem => hfound (List.mem_map.mp hmem), (Option.some.inj h).symm⟩

/-- A step of any thread. -/
theorem State.Named.step (h : s.Named) (hstep : machine.step s a = some s') : Advances s s' := by
  have hmove := moves_of_step hstep
  have howner := owned_of_moves h.owner hmove
  have hfind : ∀ {t name}, a = .step t → s.threads t = .getFind name → Advances s s' := by
    rintro t name rfl ht
    rcases find_answers ht hstep with ⟨hmem, rfl⟩ | ⟨hnew, rfl⟩
    · have hknows : s.names[s.names.idxOf name]? = some name := List.getElem?_idxOf hmem
      refine h.goto howner rfl rfl hknows fun key hkey => .inr ?_
      rw [ht] at hkey
      obtain rfl := Option.some.inj hkey
      exact hmem
    · exact h.goto howner rfl rfl hnew fun key hkey => .inl (by rwa [ht] at hkey)
  -- a thread that asks for nothing, or for the same name as before
  have hidle : ∀ {t} {P : Bytes → Prop}, (s.threads t).asks = none →
      ∀ name, (s.threads t).asks = some name → P name := fun hnone name hsome => by
    cases hnone.symm.trans hsome
  cases hmove with
  | setLevel t value ht => exact h.goto howner rfl rfl trivial (hidle (by rw [ht]; rfl))
  | get t name ht => exact h.goto howner rfl rfl trivial (hidle (by rw [ht]; rfl))
  | setStore t value ht => exact h.goto howner rfl rfl trivial (hidle (by rw [ht]; rfl))
  | setLock t value ht hm => exact h.goto howner rfl rfl trivial (hidle (by rw [ht]; rfl))
  | update t value rest name ht hname =>
    exact h.goto howner rfl (names_setLevelOf ..) trivial (hidle (by rw [ht]; rfl))
  | setUnlock t value ht => exact h.goto howner rfl rfl trivial (hidle (by rw [ht]; rfl))
  | getUnlock t name i ht => exact h.goto howner rfl rfl trivial (hidle (by rw [ht]; rfl))
  | getLock t name ht hm =>
    exact h.goto howner rfl rfl trivial fun key hkey => .inl (by rwa [ht] at hkey)
  | found t name ht => exact hfind rfl ht
  | notFound t name ht => exact hfind rfl ht
  | getLoad t name ht =>
    have hknows := h.knows t
    rw [ht] at hknows
    exact h.goto howner rfl rfl hknows fun key hkey => .inl (by rwa [ht] at hkey)
  | getEmplace t name level ht =>
    refine h.emplace howner ?_ ht List.map_append
    rw [State.names, List.length_map]
    rfl

theorem State.Named.run (h : s.Named) {as : List Action} (hrun : machine.run s as = some s') :
    Advances s s' :=
  Machine.invariant_run (I := Advances s) (fun _ _ _ hs hstep => hs.trans (hs.named.step hstep))
    (Advances.refl h) hrun

end Steps

theorem named_initial (level : Level) : (State.initial level).Named :=
  ⟨owned_initial level, List.nodup_nil, fun _ => trivial⟩

/-- **One logger for a name.** However the calls of `set_level` and `get` of any number of threads
run into each other: when a call of `get` has returned, the registry has a logger for the name
from then on, always the same, and it is the one that it had before, if it had one. It is what
this call has returned, and every other call for the name that returned while it ran or returns
later. -/
theorem one_logger {level : Level} {as bs : List Action} {s s' : State} {t : ℕ} {name : Bytes}
    (hrun : machine.run (State.initial level) as = some s) (hget : s.threads t = .getLock name)
    (hcall : machine.run s bs = some s') (hreturn : s'.threads t = .idle) :
    ∃ i : ℕ, (∀ j : ℕ, s.names[j]? = some name → j = i) ∧
      (∀ cs s'', machine.run s' cs = some s'' → ∀ j : ℕ, s''.names[j]? = some name ↔ j = i) ∧
      ∀ cs ds s'', machine.run s cs = some s'' → (bs = cs ++ ds ∨ cs = bs ++ ds) →
        ∀ u j, s''.threads u = .getUnlock name j → j = i := by
  have hnamed := ((named_initial level).run hrun).named
  have hadvances := hnamed.run hcall
  have hmem : name ∈ s'.names := by
    rcases hadvances.asks t name (congrArg Pc.asks hget) with hasks | hmem
    · cases (congrArg Pc.asks hreturn).symm.trans hasks
    · exact hmem
  obtain ⟨i, hi⟩ := List.mem_iff_getElem?.mp hmem
  refine ⟨i, fun j hj => hadvances.named.unique (hadvances.stays hj) hi, fun cs s'' hlater j => ?_,
    fun cs ds s'' hlater hon u j hu => ?_⟩
  · have hlast := hadvances.named.run hlater
    refine ⟨fun hj => hlast.named.unique hj (hlast.stays hi), ?_⟩
    rintro rfl
    exact hlast.stays hi
  · have hmiddle := hnamed.run hlater
    have hj := hmiddle.named.knows u
    rw [hu] at hj
    rcases hon with rfl | rfl
    · -- the call returned on the way
      obtain ⟨s₁, hs₁, hrest⟩ := Machine.run_append.mp hcall
      obtain rfl := Option.some.inj (hs₁.symm.trans hlater)
      have hrest := hmiddle.named.run hrest
      exact hrest.named.unique (hrest.stays hj) hi
    · obtain ⟨s₁, hs₁, hrest⟩ := Machine.run_append.mp hlater
      obtain rfl := Option.some.inj (hs₁.symm.trans hcall)
      exact hmiddle.named.unique hj ((hadvances.named.run hrest).stays hi)

/-- Two threads ask for a name at once. -/
def sharedCalls : List Action := [.get 0 (ascii "checkout"), .get 1 (ascii "checkout")]

/-- One of them makes the logger, and then the other finds it. -/
def sharedSteps : List Action :=
  [.step 1, .step 1, .step 1, .step 1, .step 1, .step 0, .step 0, .step 0]

theorem one_logger_sharedCalls :
    ∃ s s', machine.run (State.initial .info) sharedCalls = some s ∧
      machine.run s sharedSteps = some s' ∧ s'.loggers = [⟨ascii "checkout", .info⟩] ∧
      ∃ i : ℕ, (∀ cs s'', machine.run s' cs = some s'' →
          ∀ j : ℕ, s''.names[j]? = some (ascii "checkout") ↔ j = i) ∧
        ∀ cs ds s'', machine.run s cs = some s'' →
          (sharedSteps = cs ++ ds ∨ cs = sharedSteps ++ ds) → ∀ u j,
            s''.threads u = .getUnlock (ascii "checkout") j → j = i := by
  obtain ⟨s, hs⟩ : ∃ s, machine.run (State.initial .info) sharedCalls = some s := ⟨_, rfl⟩
  obtain ⟨s', hs'⟩ : ∃ s', machine.run s sharedSteps = some s' := by
    obtain rfl := Option.some.inj hs
    exact ⟨_, rfl⟩
  obtain ⟨hget, hidle, hloggers⟩ : s.threads 0 = .getLock (ascii "checkout") ∧
      s'.threads 0 = .idle ∧ s'.loggers = [⟨ascii "checkout", .info⟩] := by
    obtain rfl := Option.some.inj hs
    obtain rfl := Option.some.inj hs'
    exact ⟨rfl, rfl, rfl⟩
  obtain ⟨i, -, hlater, hreturned⟩ := one_logger hs hget hs' hidle
  exact ⟨s, s', hs, hs', hloggers, i, hlater, hreturned⟩

end Registry

end Logspine
