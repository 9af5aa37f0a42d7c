import Mathlib.Data.List.Sort
import Mathlib.Logic.Function.Basic
import L4Rust.Library.BinarySearch
import L4Rust.Library.Machine

namespace l4.scheduler.autosar

/-- A task. Smaller priorities are more urgent; `owned_mutexes` is in ascending
order. -/
structure Task where
  period : Nat
  base_priority : Nat
  current_priority : Nat
  thread_cap : Nat
  owned_mutexes : List Nat
  deriving DecidableEq, Repr

structure MutexState where
  owner : Option Nat
  waiters : List Nat
  deriving DecidableEq, Repr

/-- The scheduler. `ran` records the calls of `run_thread`; the code never looks
at it. -/
structure AutosarScheduler where
  scheduler_cap : Nat
  tasks : Nat → Option Task
  ready : List Nat
  current : Option Nat
  mutexes : Nat → Option MutexState
  ran : List (Nat × Nat)

namespace AutosarScheduler

def new (scheduler_cap : Nat) : AutosarScheduler :=
  ⟨scheduler_cap, fun _ => none, [], none, fun _ => none, []⟩

def add_task (self : AutosarScheduler) (id period thread_cap : Nat) : AutosarScheduler :=
  { self with tasks := Function.update self.tasks id (some ⟨period, period, period, thread_cap, []⟩) }

/-- Without a task of that id the index panics. -/
def task_priority (self : AutosarScheduler) (id : Nat) : Option Nat := do
  let task ← self.tasks id
  pure task.current_priority

/-- Change a task through `get_mut` and `unwrap`. -/
def get_mut (self : AutosarScheduler) (id : Nat) (f : Task → Task) : Option AutosarScheduler := do
  let task ← self.tasks id
  pure { self with tasks := Function.update self.tasks id (some (f task)) }

variable (search : BinarySearch Nat)

/-- Where a task of the given priority belongs among others. -/
def sorted_position (self : AutosarScheduler) (ids : List Nat) (prio : Nat) : Option Nat := do
  let keys ← ids.mapM self.task_priority
  pure (search.position keys prio)

def insert_ready_sorted (self : AutosarScheduler) (id : Nat) : Option AutosarScheduler := do
  let prio ← self.task_priority id
  let pos ← self.sorted_position search self.ready prio
  pure { self with ready := self.ready.insertIdx pos id }

def run_next (self : AutosarScheduler) : Option AutosarScheduler :=
  match self.ready with
  | [] => some self
  | next_id :: ready => do
    let task ← self.tasks next_id
    pure { self with
      ready := ready
      current := some next_id
      ran := self.ran ++ [(self.scheduler_cap, task.thread_cap)] }

def preempt (self : AutosarScheduler) : Option AutosarScheduler :=
  match self.current with
  | some cur => do
    let self ← insert_ready_sorted search { self with current := none } cur
    self.run_next
  | none => self.run_next

def make_ready (self : AutosarScheduler) (id : Nat) : Option AutosarScheduler :=
  if self.current = some id ∨ id ∈ self.ready then some self
  else do
    let self ← self.insert_ready_sorted search id
    match self.current with
    | some cur => do
      let cur_prio ← self.task_priority cur
      let new_prio ← self.task_priority id
      if new_prio < cur_prio then self.preempt search else pure self
    | none => self.run_next

/-- Take a task whose priority changed out of the ready list and put it back. -/
def reinsert_ready (self : AutosarScheduler) (id : Nat) : Option AutosarScheduler :=
  insert_ready_sorted search { self with ready := self.ready.filter (· ≠ id) } id

/-- `BTreeSet::insert`. -/
def insert_owned (mutex : Nat) (task : Task) : Task :=
  { task with owned_mutexes := if mutex ∈ task.owned_mutexes then task.owned_mutexes
      else task.owned_mutexes.orderedInsert (· ≤ ·) mutex }

/-- `BTreeSet::remove`. -/
def remove_owned (mutex : Nat) (task : Task) : Task :=
  { task with owned_mutexes := task.owned_mutexes.filter (· ≠ mutex) }

def set_mutex (self : AutosarScheduler) (mutex : Nat) (m : MutexState) : AutosarScheduler :=
  { self with mutexes := Function.update self.mutexes mutex (some m) }

def lock_mutex (self : AutosarScheduler) (task mutex : Nat) : Option AutosarScheduler :=
  let m := (self.mutexes mutex).getD ⟨none, []⟩
  match m.owner with
  | none => (self.set_mutex mutex ⟨some task, m.waiters⟩).get_mut task (insert_owned mutex)
  | some owner => do
    let self := { self with ready := self.ready.filter (· ≠ task) }
    let prio ← self.task_priority task
    let pos ← self.sorted_position search m.waiters prio
    let self := self.set_mutex mutex ⟨some owner, m.waiters.insertIdx pos task⟩
    let self ← self.get_mut owner fun t => { t with current_priority := min t.current_priority prio }
    let self ← if owner ∈ self.ready then self.reinsert_ready search owner else pure self
    if self.current = some task then run_next { self with current := none } else pure self

/-- The first task in line for a mutex. -/
def first_waiter (self : AutosarScheduler) (mutex : Nat) : Option Nat := do
  let m ← self.mutexes mutex
  m.waiters.head?

/-- Give a mutex to its first waiter, or to nobody. -/
def hand_over (self : AutosarScheduler) (mutex : Nat) (m : MutexState) : Option AutosarScheduler :=
  match m.waiters with
  | next :: waiters => do
    let self ← (self.set_mutex mutex ⟨some next, waiters⟩).get_mut next (insert_owned mutex)
    self.make_ready search next
  | [] => some (self.set_mutex mutex ⟨none, []⟩)

/-- The priority a task keeps: its own, or that of the first task in line for a
mutex it still owns. -/
def kept_priority (self : AutosarScheduler) (task : Nat) : Option Nat := do
  let t ← self.tasks task
  t.owned_mutexes.foldlM (fun p m_id =>
    match self.first_waiter m_id with
    | some waiter => do
      let prio ← self.task_priority waiter
      pure (min p prio)
    | none => pure p) t.base_priority

/-- Put a task where its new priority belongs. -/
def reposition (self : AutosarScheduler) (task : Nat) : Option AutosarScheduler :=
  if task ∈ self.ready then self.reinsert_ready search task
  else if self.current = some task then
    match self.ready with
    | next_id :: _ => do
      let next_prio ← self.task_priority next_id
      let prio ← self.task_priority task
      if next_prio < prio then self.preempt search else pure self
    | [] => some self
  else some self

def unlock_mutex (self : AutosarScheduler) (task mutex : Nat) : Option AutosarScheduler :=
  match self.mutexes mutex with
  | none => some self
  | some m =>
    if m.owner = some task then do
      let self ← self.hand_over search mutex m
      let self ← self.get_mut task (remove_owned mutex)
      let new_prio ← self.kept_priority task
      let self ← self.get_mut task fun t => { t with current_priority := new_prio }
      self.reposition search task
    else some self

end AutosarScheduler

open AutosarScheduler

/-- A call on the scheduler. -/
inductive Call where
  | add_task (id period thread_cap : Nat)
  | make_ready (id : Nat)
  | lock_mutex (task mutex : Nat)
  | unlock_mutex (task mutex : Nat)
  deriving DecidableEq, Repr

def Call.run (search : BinarySearch Nat) (s : AutosarScheduler) : Call → Option AutosarScheduler
  | .add_task id period thread_cap => some (s.add_task id period thread_cap)
  | .make_ready id => s.make_ready search id
  | .lock_mutex task mutex => s.lock_mutex search task mutex
  | .unlock_mutex task mutex => s.unlock_mutex search task mutex

/-- Each task is added once and before it is made ready, and only the running
task locks and unlocks. -/
def Call.Disciplined (s : AutosarScheduler) : Call → Prop
  | .add_task id _ _ => s.tasks id = none
  | .make_ready id => (s.tasks id).isSome
  | .lock_mutex task _ | .unlock_mutex task _ => s.current = some task

instance (s : AutosarScheduler) (call : Call) : Decidable (call.Disciplined s) :=
  match call with
  | .add_task id _ _ => inferInstanceAs (Decidable (s.tasks id = none))
  | .make_ready id => inferInstanceAs (Decidable ((s.tasks id).isSome))
  | .lock_mutex task _ | .unlock_mutex task _ => inferInstanceAs (Decidable (s.current = some task))

/-- The scheduler in the hands of disciplined callers. -/
def disciplined (search : BinarySearch Nat) : Machine AutosarScheduler Call where
  init s := ∃ scheduler_cap, s = new scheduler_cap
  allowed := Call.Disciplined
  step := Call.run search

instance (search : BinarySearch Nat) (s : AutosarScheduler) (call : Call) :
    Decidable ((disciplined search).allowed s call) :=
  inferInstanceAs (Decidable (call.Disciplined s))

/-- Each task is added once, and only tasks that were added are named; any of
them may lock and unlock. -/
def Call.Registered (s : AutosarScheduler) : Call → Prop
  | .add_task id _ _ => s.tasks id = none
  | .make_ready id => (s.tasks id).isSome
  | .lock_mutex task _ | .unlock_mutex task _ => (s.tasks task).isSome

instance (s : AutosarScheduler) (call : Call) : Decidable (call.Registered s) :=
  match call with
  | .add_task id _ _ => inferInstanceAs (Decidable (s.tasks id = none))
  | .make_ready id => inferInstanceAs (Decidable ((s.tasks id).isSome))
  | .lock_mutex task _ | .unlock_mutex task _ => inferInstanceAs (Decidable ((s.tasks task).isSome))

/-- The scheduler in the hands of callers that do not wait for their turn. -/
def registered (search : BinarySearch Nat) : Machine AutosarScheduler Call where
  init s := ∃ scheduler_cap, s = new scheduler_cap
  allowed := Call.Registered
  step := Call.run search

instance (search : BinarySearch Nat) (s : AutosarScheduler) (call : Call) :
    Decidable ((registered search).allowed s call) :=
  inferInstanceAs (Decidable (call.Registered s))

end l4.scheduler.autosar
