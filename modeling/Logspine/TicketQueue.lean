import Mathlib.Data.List.Basic
import Mathlib.Data.Nat.Notation
import Mathlib.Logic.Relation

/-!
# Ticket queues: the abstract bounded queue

A ticket queue remembers every item that ever obtained a place, in order; the
index of an item is its *ticket*. Items leave in ticket order, so one counter
says which are still inside. This is what a bounded first-in first-out queue is
for, and what a concurrent implementation is compared with: the effect of a
successful operation is one `put` or one `dequeue`.
-/

/-- A queue together with everything that ever passed through it. -/
structure TicketQueue (T : Type) where
  /-- the items that obtained a place, in ticket order -/
  accepted : List T
  /-- how many of them have left -/
  taken : ℕ

namespace TicketQueue

variable {T : Type}

/-- The queue nothing has passed through. -/
def empty : TicketQueue T := ⟨[], 0⟩

/-- The items inside, oldest first. -/
def content (q : TicketQueue T) : List T := q.accepted.drop q.taken

/-- Give an item the next ticket. -/
def put (q : TicketQueue T) (x : T) : TicketQueue T := { q with accepted := q.accepted ++ [x] }

/-- There is room for one more. -/
def HasRoom (capacity : ℕ) (q : TicketQueue T) : Prop := q.accepted.length < q.taken + capacity

instance (capacity : ℕ) (q : TicketQueue T) : Decidable (q.HasRoom capacity) :=
  inferInstanceAs (Decidable (_ < _))

/-- Enqueue: the item gets the next ticket if there is room. -/
def enqueue (capacity : ℕ) (q : TicketQueue T) (x : T) : Option (TicketQueue T) :=
  if q.HasRoom capacity then some (q.put x) else none

/-- Dequeue: the oldest ticket with its item, if any is inside. -/
def dequeue (q : TicketQueue T) : Option ((ℕ × T) × TicketQueue T) :=
  q.accepted[q.taken]?.map fun x => ((q.taken, x), { q with taken := q.taken + 1 })

/-- One successful operation. -/
inductive Step (capacity : ℕ) : TicketQueue T → TicketQueue T → Prop where
  | enqueue {q q' : TicketQueue T} {x : T} :
    q.enqueue capacity x = some q' → Step capacity q q'
  | dequeue {q q' : TicketQueue T} {px : ℕ × T} : q.dequeue = some (px, q') → Step capacity q q'

/-- Inversion for `enqueue`. -/
theorem enqueue_eq_some {capacity : ℕ} {q q' : TicketQueue T} {x : T} :
    q.enqueue capacity x = some q' ↔ q.HasRoom capacity ∧ q' = q.put x := by
  rw [enqueue, Option.ite_none_right_eq_some, Option.some.injEq, eq_comm (a := q')]

/-- Inversion for `dequeue`. -/
theorem dequeue_eq_some {q q' : TicketQueue T} {px : ℕ × T} :
    q.dequeue = some (px, q') ↔
      px.1 = q.taken ∧ q.accepted[q.taken]? = some px.2 ∧ q' = { q with taken := q.taken + 1 } := by
  rw [dequeue, Option.map_eq_some_iff]
  constructor
  · rintro ⟨x, hx, he⟩
    obtain ⟨rfl, rfl⟩ := Prod.mk.inj he
    exact ⟨rfl, hx, rfl⟩
  · rintro ⟨h₁, h₂, rfl⟩
    exact ⟨px.2, h₂, by rw [← h₁]⟩

/-- The queue grows at its end only, and what has left it stays out. -/
theorem Step.mono {capacity : ℕ} {q q' : TicketQueue T} (h : Step capacity q q') :
    q.taken ≤ q'.taken ∧ q.accepted <+: q'.accepted := by
  cases h with
  | enqueue hq =>
    obtain ⟨-, rfl⟩ := enqueue_eq_some.mp hq
    exact ⟨Nat.le_refl _, List.prefix_append ..⟩
  | dequeue hq =>
    obtain ⟨-, -, rfl⟩ := dequeue_eq_some.mp hq
    exact ⟨Nat.le_succ _, List.prefix_refl _⟩

/-- Nothing can be dequeued exactly when nothing is inside. -/
theorem dequeue_eq_none {q : TicketQueue T} : q.dequeue = none ↔ q.accepted.length ≤ q.taken := by
  rw [dequeue, Option.map_eq_none_iff, List.getElem?_eq_none_iff]

/-! ## Between empty and full -/

/-- The queue is between empty and full. -/
structure Within (capacity : ℕ) (q : TicketQueue T) : Prop where
  taken_le : q.taken ≤ q.accepted.length
  length_le : q.accepted.length ≤ q.taken + capacity

theorem Within.empty {capacity : ℕ} : Within capacity (.empty : TicketQueue T) :=
  ⟨Nat.le_refl 0, Nat.zero_le _⟩

theorem Within.step {capacity : ℕ} {q q' : TicketQueue T} (h : q.Within capacity)
    (hstep : Step capacity q q') : q'.Within capacity := by
  cases hstep with
  | enqueue hq =>
    obtain ⟨hroom, rfl⟩ := enqueue_eq_some.mp hq
    refine ⟨?_, ?_⟩
    · rw [put, List.length_append]
      exact Nat.le_add_right_of_le h.taken_le
    · rw [put, List.length_append]
      exact hroom
  | dequeue hq =>
    obtain ⟨-, hx, rfl⟩ := dequeue_eq_some.mp hq
    obtain ⟨hlt, -⟩ := List.getElem?_eq_some_iff.mp hx
    exact ⟨hlt, Nat.le_trans h.length_le (Nat.add_le_add_right (Nat.le_succ _) _)⟩

theorem Within.of_steps {capacity : ℕ} {q q' : TicketQueue T} (h : q.Within capacity)
    (hsteps : Relation.ReflTransGen (Step capacity) q q') : q'.Within capacity := by
  induction hsteps with
  | refl => exact h
  | tail _ hstep ih => exact ih.step hstep

/-! ## The items inside -/

theorem content_put {q : TicketQueue T} (h : q.taken ≤ q.accepted.length) (x : T) :
    (q.put x).content = q.content ++ [x] := List.drop_append_of_le_length h

/-- The item with the oldest ticket is in front. -/
theorem content_of_oldest {q : TicketQueue T} {x : T} (h : q.accepted[q.taken]? = some x) :
    q.content = x :: { q with taken := q.taken + 1 }.content := by
  obtain ⟨hlt, rfl⟩ := List.getElem?_eq_some_iff.mp h
  exact List.drop_eq_getElem_cons hlt

theorem content_eq_nil {q : TicketQueue T} (h : q.accepted.length ≤ q.taken) : q.content = [] :=
  List.drop_eq_nil_of_le h

theorem hasRoom_iff {q : TicketQueue T} (h : q.taken ≤ q.accepted.length) {capacity : ℕ} :
    q.HasRoom capacity ↔ q.content.length < capacity := by
  rw [HasRoom, content, List.length_drop]
  omega

/-- Without room the queue is full. -/
theorem le_length_content {q : TicketQueue T} (h : q.taken ≤ q.accepted.length) {capacity : ℕ}
    (hfull : ¬ q.HasRoom capacity) : capacity ≤ q.content.length :=
  Nat.not_lt.mp fun hlt => hfull ((hasRoom_iff h).mpr hlt)

end TicketQueue
