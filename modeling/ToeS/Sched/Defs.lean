import ToeS.Basic

/-!
# The scheduler

Model of the task queue of `kern/proc/sched.c` and `kern/proc/task.c`. A task is known by the address
of its `task_t`; `NULL` is 0. The addresses of new tasks and of their page directories come from
`kmalloc` and `copy_pg_dir` and are arguments here. A fresh `task_t` is zero, because `kheap_alloc`
clears what it hands out and `create_task` sets no link.

`entry` and the saved registers are left out, and so is what `schedule` does after it has chosen the
new task: `ctx_swtch` leaves on another stack.
-/

namespace ToeS.Sched

/-- `task_t`. -/
structure Task where
  tid : Nat
  mem : Nat
  parent : Nat
  next : Nat
  prev : Nat
  deriving DecidableEq

/-- The globals `ready`, `current` and `next_tid`, and the task structures in memory. -/
structure State where
  task : Nat → Task
  head : Nat
  current : Nat
  nextTid : Nat

namespace State

def next (s : State) (tsk : Nat) : Nat := (s.task tsk).next

/-- A store into one task structure. -/
def modify (s : State) (tsk : Nat) (f : Task → Task) : State :=
  { s with task := Function.update s.task tsk (f (s.task tsk)) }

end State

/-- The loop of `add_task`: the last task of the list that `tmp` is in. -/
def lastTask (s : State) : Nat → Nat → Except Fault Nat
  | 0, _ => .error .diverges
  | n + 1, tmp => if s.next tmp ≠ 0 then lastTask s n (s.next tmp) else .ok tmp

/-- Puts a task at the end of the ready list (C `add_task`). -/
def addTask (s : State) (tsk : Nat) : Except Fault State :=
  if s.head = 0 then .ok { s with head := tsk }
  else do
    let tmp ← lastTask s chainFuel s.head
    return s.modify tmp fun t => { t with next := tsk }

/-- Takes the first task of the ready list, or `NULL` (C `pop_task`). -/
def popTask (s : State) : Nat × State :=
  if s.head = 0 then (0, s)
  else
    let ret := s.head
    let s := { s with head := s.next s.head }
    (ret, s.modify ret fun t => { t with next := 0, prev := 0 })

/-- A new task at the address `tsk` (C `create_task`). -/
def createTask (s : State) (tsk : Nat) : State :=
  let s := s.modify tsk fun _ => ⟨s.nextTid, 0, 0, 0, 0⟩
  { s with nextTid := Lib.u32 (s.nextTid + 1) }

/-- The end of `tasking_init`: the first task, at `init`, with its page directory `mem`. -/
def taskingInit (s : State) (init mem : Nat) : Except Fault State :=
  let s := { s with head := 0 }
  let s := createTask s init
  let s := s.modify init fun t => { t with mem := mem }
  let s := { s with current := init }
  addTask s init

/-- The choice of the next task (C `schedule`). Without a ready task `NULL` is dereferenced. -/
def schedule (s : State) : Except Fault State :=
  if s.current = 0 then .ok s
  else do
    let (new, s) := popTask s
    let old := s.current
    let s ← addTask s old
    let s := { s with current := new }
    if new = 0 then throw .pageFault else return s

/-- A copy of the current task at the address `child`, with the page directory `mem`; returns what
the caller gets (C `fork`). -/
def fork (s : State) (child mem : Nat) : Except Fault (Nat × State) := do
  let s := createTask s child
  let s := s.modify child fun t => { t with parent := s.current }
  let s := s.modify child fun t => { t with mem := mem }
  let s ← addTask s child
  let tid := (s.task child).tid
  return (if (s.task s.current).tid = tid then 0 else tid, s)

/-! ## Runs -/

/-- The scheduler and the tasks created so far. -/
structure Sys where
  st : State
  tasks : List Nat

/-- The calls that reach the queue. -/
inductive Op where
  | fork (child mem : Nat)
  | schedule

/-- What `kmalloc` is relied on for: a new task is at a fresh address. -/
def Legal (s : Sys) : Op → Prop
  | .fork child _ => child ≠ 0 ∧ child < 4294967296 ∧ child ∉ s.tasks
  | .schedule => True

/-- One call. -/
def step (s : Sys) : Op → Except Fault Sys
  | .fork child mem => do
    let (_, st) ← fork s.st child mem
    return ⟨st, child :: s.tasks⟩
  | .schedule => do
    let st ← schedule s.st
    return { s with st := st }

/-- The end of `tasking_init`, in whatever state the globals were. -/
def boot (s : State) (init mem : Nat) : Except Fault Sys := do
  let st ← taskingInit s init mem
  return ⟨st, [init]⟩

end ToeS.Sched
