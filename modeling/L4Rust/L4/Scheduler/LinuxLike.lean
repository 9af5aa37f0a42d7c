import Mathlib.Data.Nat.Basic
import Mathlib.Logic.Function.Basic
import L4Rust.Library.BinarySearch
import L4Rust.Library.Machine

namespace l4.scheduler.linux_like

def BASE_SLICE : Nat := 5

/-- How many ticks a task of the given weight runs before it is preempted. -/
def time_slice (weight : Nat) : Nat := BASE_SLICE * weight / 1024

/-- What a tick adds to the virtual runtime of a task of the given weight. -/
def increment (weight : Nat) : Nat := max 1 (1024 / weight)

structure Task where
  weight : Nat
  vruntime : Nat
  runtime : Nat
  thread_cap : Nat
  slice : Nat
  remaining : Nat
  deriving DecidableEq, Repr

/-- The task after one more tick of its slice. -/
def Task.charged (task : Task) : Task :=
  { task with
    runtime := task.runtime + 1
    vruntime := task.vruntime + increment task.weight
    remaining := task.remaining - 1 }

/-- The scheduler. `ran` records the calls of `run_thread`; the code never looks
at it. -/
structure LinuxLikeScheduler where
  scheduler_cap : Nat
  tasks : Nat → Option Task
  ready : List Nat
  current : Option Nat
  ran : List (Nat × Nat)

namespace LinuxLikeScheduler

def new (scheduler_cap : Nat) : LinuxLikeScheduler := ⟨scheduler_cap, fun _ => none, [], none, []⟩

def add_task (self : LinuxLikeScheduler) (id weight thread_cap : Nat) : LinuxLikeScheduler :=
  let slice := time_slice weight
  { self with tasks := Function.update self.tasks id (some ⟨weight, 0, 0, thread_cap, slice, slice⟩) }

/-- Without a task of that id the index panics. -/
def task_vruntime (self : LinuxLikeScheduler) (id : Nat) : Option Nat := do
  let task ← self.tasks id
  pure task.vruntime

def task_runtime (self : LinuxLikeScheduler) (id : Nat) : Option Nat := do
  let task ← self.tasks id
  pure task.runtime

variable (search : BinarySearch Nat)

def insert_ready_sorted (self : LinuxLikeScheduler) (id : Nat) : Option LinuxLikeScheduler := do
  let vr ← self.task_vruntime id
  let keys ← self.ready.mapM self.task_vruntime
  pure { self with ready := self.ready.insertIdx (search.position keys vr) id }

def run_next (self : LinuxLikeScheduler) : Option LinuxLikeScheduler :=
  match self.ready with
  | [] => some self
  | next :: ready => do
    let task ← self.tasks next
    pure { self with
      ready := ready
      tasks := Function.update self.tasks next (some { task with remaining := task.slice })
      current := some next
      ran := self.ran ++ [(self.scheduler_cap, task.thread_cap)] }

def preempt (self : LinuxLikeScheduler) : Option LinuxLikeScheduler :=
  match self.current with
  | some cur => do
    let self ← insert_ready_sorted search { self with current := none } cur
    self.run_next
  | none => self.run_next

def make_ready (self : LinuxLikeScheduler) (id : Nat) : Option LinuxLikeScheduler :=
  if self.current = some id ∨ id ∈ self.ready then some self
  else do
    let self ← self.insert_ready_sorted search id
    match self.current with
    | some cur => do
      let new ← self.task_vruntime id
      let old ← self.task_vruntime cur
      if new < old then self.preempt search else pure self
    | none => self.run_next

/-- The running task is charged for the tick. Without weight the division panics,
and so does the subtraction when nothing of the slice remains. -/
def charge (task : Task) : Option Task :=
  if task.weight = 0 ∨ task.remaining = 0 then none else some task.charged

def tick (self : LinuxLikeScheduler) : Option LinuxLikeScheduler :=
  match self.current with
  | some cur => do
    let task ← self.tasks cur
    let task ← charge task
    let self := { self with tasks := Function.update self.tasks cur (some task) }
    if task.remaining = 0 then self.preempt search else pure self
  | none => self.run_next

end LinuxLikeScheduler

open LinuxLikeScheduler

/-- A call on the scheduler. -/
inductive Call where
  | add_task (id weight thread_cap : Nat)
  | make_ready (id : Nat)
  | tick
  deriving DecidableEq, Repr

def Call.run (search : BinarySearch Nat) (s : LinuxLikeScheduler) : Call → Option LinuxLikeScheduler
  | .add_task id weight thread_cap => some (s.add_task id weight thread_cap)
  | .make_ready id => s.make_ready search id
  | .tick => s.tick search

/-- Each task is added once and before it is made ready, with a weight that gives
it a time slice. -/
def Call.Disciplined (s : LinuxLikeScheduler) : Call → Prop
  | .add_task id weight _ => s.tasks id = none ∧ 1 ≤ time_slice weight
  | .make_ready id => (s.tasks id).isSome
  | .tick => True

instance (s : LinuxLikeScheduler) (call : Call) : Decidable (call.Disciplined s) :=
  match call with
  | .add_task id weight _ => inferInstanceAs (Decidable (s.tasks id = none ∧ 1 ≤ time_slice weight))
  | .make_ready id => inferInstanceAs (Decidable ((s.tasks id).isSome))
  | .tick => inferInstanceAs (Decidable True)

/-- The scheduler in the hands of disciplined callers. -/
def disciplined (search : BinarySearch Nat) : Machine LinuxLikeScheduler Call where
  init s := ∃ scheduler_cap, s = new scheduler_cap
  allowed := Call.Disciplined
  step := Call.run search

instance (search : BinarySearch Nat) (s : LinuxLikeScheduler) (call : Call) :
    Decidable ((disciplined search).allowed s call) :=
  inferInstanceAs (Decidable (call.Disciplined s))

end l4.scheduler.linux_like
