import Mathlib

/-!
# The task queue

The threads of `veejay/vj-task.c`: `performer_job` queues a job for each worker and waits until all are done, the
workers of `task_thread` take tasks from the queue, run them and count them in `tasks_done`.  One mutex guards the
queue, `current_task` is signalled once for all jobs of a call and `tasks_completed` after each of them.  A wait may
end without a signal, and a signal may wake several threads.

* `Queue`, `taskAdd`, `taskGet`, `performerAdd`, `markDone` — what happens under the lock;
* `WorkerPc`, `PerformerPc`, `Step` — the threads, from one lock or wait to the next;
* `Inv` — where each job of a call is, and how many are left;
* `queue_runs_once` — **each job is run once, in its own round, and no wake-up is lost**.
-/

namespace Veejay.Task

/-! ## The queue -/

/-- A job, named by the call of `performer_job` that queues it and its place there: a handler and its argument. -/
structure JobId where
  round : ℕ
  no : ℕ
  deriving DecidableEq

/-- What `queue_mutex` guards: the list of tasks, as places of `running_tasks`, and the counts of the workers. -/
structure Queue where
  tasks : List ℕ
  totalTasks : ℕ
  runningTasks : ℕ → JobId
  tasksDone : ℕ → ℕ
  tasksTodo : ℕ
  exitFlag : Bool

/-- `task_add`; `total_tasks` is a byte. -/
def taskAdd (q : Queue) (taskNo : ℕ) (job : JobId) : Queue :=
  { q with
    runningTasks := Function.update q.runningTasks taskNo job
    tasks := if q.totalTasks = 0 then [taskNo] else q.tasks ++ [taskNo]
    totalTasks := (q.totalTasks + 1) % 256 }

/-- `task_get`; nothing stands for `NULL`, and for a list that ends too early. -/
def taskGet (q : Queue) : Option (ℕ × Queue) :=
  match q.tasks with
  | [] => none
  | t :: rest => if q.totalTasks > 0 then some (t, { q with tasks := rest, totalTasks := q.totalTasks - 1 }) else none

/-- What `performer_job` does first: the counts of `n` workers are cleared and `n` jobs are queued. -/
def performerAdd (q : Queue) (round n : ℕ) : Queue :=
  (List.range n).foldl
    (fun q i => taskAdd { q with tasksDone := Function.update q.tasksDone i 0 } i ⟨round, i⟩)
    { q with tasksTodo := n }

/-- What a worker does after a job: it counts in a byte of its own. -/
def markDone (q : Queue) (id : ℕ) : Queue :=
  { q with tasksDone := Function.update q.tasksDone id ((q.tasksDone id + 1) % 256) }

/-- The sum that `performer_job` compares, in a byte. -/
def doneSum (q : Queue) : ℕ := (List.range q.tasksTodo).foldl (fun done i => (done + q.tasksDone i) % 256) 0

/-! ## The threads -/

/-- Where a worker is in `task_thread`. -/
inductive WorkerPc where
  | start
  | locked
  | waiting
  | woken
  | taken (t : ℕ)
  | executed
  | marking
  | exited
  deriving DecidableEq

/-- Where the performer is: in `performer_job`, before or after it, or in `task_stop`. -/
inductive PerformerPc where
  | idle
  | calling (n : ℕ)
  | adding (n : ℕ)
  | polling
  | checking
  | waiting
  | woken
  | rechecking
  | stopping
  | stopped
  deriving DecidableEq

inductive Thread (W : ℕ) where
  | worker (w : Fin W)
  | performer
  deriving DecidableEq

/-- The state of `W` workers and the performer.  The last two fields are history: the number of jobs of each call, and
the jobs that were run. -/
structure State (W : ℕ) where
  queue : Queue
  mutex : Option (Thread W)
  workers : Fin W → WorkerPc
  performer : PerformerPc
  todos : List ℕ
  log : List JobId

variable {W : ℕ}

/-- `pthread_cond_signal` of `current_task`: at least one of those that wait goes on. -/
def Signalled (ws ws' : Fin W → WorkerPc) : Prop :=
  (∀ w, ws' w = ws w ∨ ws w = .waiting ∧ ws' w = .woken) ∧
    ((∃ w, ws w = .waiting) → ∃ w, ws w = .waiting ∧ ws' w = .woken)

/-- `pthread_cond_broadcast` of `current_task` -/
def broadcast (ws : Fin W → WorkerPc) (w : Fin W) : WorkerPc := if ws w = .waiting then .woken else ws w

/-- `pthread_cond_signal` of `tasks_completed`, where only the performer waits. -/
def signalDone (p : PerformerPc) : PerformerPc := if p = .waiting then .woken else p

/-- A worker goes on. -/
def State.goOn (s : State W) (w : Fin W) (pc : WorkerPc) : State W :=
  { s with workers := Function.update s.workers w pc }

/-- What a thread does from one operation on the lock or a condition variable to the next. -/
inductive Step : State W → State W → Prop
  | workerLock (s : State W) (w : Fin W) (hpc : s.workers w = .start ∨ s.workers w = .woken)
      (hfree : s.mutex = none) : Step s { s.goOn w .locked with mutex := some (.worker w) }
  | workerExit (s : State W) (w : Fin W) (hpc : s.workers w = .locked) (hown : s.mutex = some (.worker w))
      (hempty : s.queue.totalTasks = 0) (hexit : s.queue.exitFlag = true) :
      Step s { s.goOn w .exited with mutex := none }
  | workerWait (s : State W) (w : Fin W) (hpc : s.workers w = .locked) (hown : s.mutex = some (.worker w))
      (hempty : s.queue.totalTasks = 0) (hexit : s.queue.exitFlag = false) :
      Step s { s.goOn w .waiting with mutex := none }
  | workerSpurious (s : State W) (w : Fin W) (hpc : s.workers w = .waiting) : Step s (s.goOn w .woken)
  | workerTake (s : State W) (w : Fin W) (hpc : s.workers w = .locked) (hown : s.mutex = some (.worker w))
      (hsome : s.queue.totalTasks ≠ 0) (t : ℕ) (q : Queue) (hget : taskGet s.queue = some (t, q)) :
      Step s { s.goOn w (.taken t) with queue := q, mutex := none }
  | workerRun (s : State W) (w : Fin W) (t : ℕ) (hpc : s.workers w = .taken t) :
      Step s { s.goOn w .executed with log := s.log ++ [s.queue.runningTasks t] }
  | workerRelock (s : State W) (w : Fin W) (hpc : s.workers w = .executed) (hfree : s.mutex = none) :
      Step s { s.goOn w .marking with mutex := some (.worker w) }
  | workerMark (s : State W) (w : Fin W) (hpc : s.workers w = .marking) (hown : s.mutex = some (.worker w)) :
      Step s { s.goOn w .start with
        queue := markDone s.queue w, mutex := none, performer := signalDone s.performer }
  | performerCall (s : State W) (n : ℕ) (hbyte : n < 256) (hpc : s.performer = .idle) :
      Step s { s with performer := .calling n }
  | performerLock (s : State W) (n : ℕ) (hpc : s.performer = .calling n) (hfree : s.mutex = none) :
      Step s { s with performer := .adding n, mutex := some .performer }
  | performerAdd (s : State W) (n : ℕ) (hpc : s.performer = .adding n) (hown : s.mutex = some .performer)
      (ws : Fin W → WorkerPc) (hsignal : Signalled s.workers ws) :
      Step s { s with
        queue := performerAdd s.queue s.todos.length n, todos := s.todos ++ [n], workers := ws
        performer := .polling, mutex := none }
  | performerPoll (s : State W) (hpc : s.performer = .polling) (hfree : s.mutex = none) :
      Step s { s with performer := .checking, mutex := some .performer }
  | performerWait (s : State W) (hpc : s.performer = .checking) (hown : s.mutex = some .performer)
      (hless : doneSum s.queue < s.queue.tasksTodo) :
      Step s { s with performer := .waiting, mutex := none }
  | performerSpurious (s : State W) (hpc : s.performer = .waiting) : Step s { s with performer := .woken }
  | performerRelock (s : State W) (hpc : s.performer = .woken) (hfree : s.mutex = none) :
      Step s { s with performer := .rechecking, mutex := some .performer }
  | performerReturn (s : State W) (hpc : s.performer = .checking ∨ s.performer = .rechecking)
      (hown : s.mutex = some .performer) (heq : doneSum s.queue = s.queue.tasksTodo) :
      Step s { s with performer := .idle, mutex := none }
  | performerAgain (s : State W)
      (hpc : s.performer = .checking ∧ s.queue.tasksTodo < doneSum s.queue ∨
        s.performer = .rechecking ∧ doneSum s.queue ≠ s.queue.tasksTodo)
      (hown : s.mutex = some .performer) : Step s { s with performer := .polling, mutex := none }
  | stopLock (s : State W) (hpc : s.performer = .idle) (hfree : s.mutex = none) :
      Step s { s with performer := .stopping, mutex := some .performer }
  | stopBroadcast (s : State W) (hpc : s.performer = .stopping) (hown : s.mutex = some .performer) :
      Step s { s with
        queue := { s.queue with exitFlag := true }, workers := broadcast s.workers
        performer := .stopped, mutex := none }

/-- The threads as `task_start` starts them. -/
def taskStart (W : ℕ) : State W where
  queue := { tasks := [], totalTasks := 0, runningTasks := fun _ => ⟨0, 0⟩, tasksDone := fun _ => 0, tasksTodo := 0
             exitFlag := false }
  mutex := none
  workers := fun _ => .start
  performer := .idle
  todos := []
  log := []

/-- The states that are reached from there. -/
inductive Reach : State W → Prop
  | start : Reach (taskStart W)
  | step {s s' : State W} (hs : Reach s) (h : Step s s') : Reach s'

/-! ## Counting the threads -/

/-- What the workers add up to. -/
def total (f : WorkerPc → ℕ) (ws : Fin W → WorkerPc) : ℕ := ∑ w, f (ws w)

/-- A worker that goes on changes the sum by what it was and what it is. -/
theorem total_update (f : WorkerPc → ℕ) (ws : Fin W → WorkerPc) (w : Fin W) (pc : WorkerPc) :
    total f (Function.update ws w pc) + f (ws w) = total f ws + f pc := by
  have hrest : ∑ v ∈ Finset.univ.erase w, f (Function.update ws w pc v) = ∑ v ∈ Finset.univ.erase w, f (ws v) := by
    refine Finset.sum_congr rfl fun v hv => ?_
    rw [Function.update_of_ne (Finset.ne_of_mem_erase hv)]
  unfold total
  rw [← Finset.add_sum_erase _ _ (Finset.mem_univ w), ← Finset.add_sum_erase _ _ (Finset.mem_univ w), hrest,
    Function.update_self]
  omega

/-- A sum is not changed by threads that wake up, if it does not tell them from those that wait. -/
theorem total_wake {f : WorkerPc → ℕ} (hf : f .waiting = f .woken) {ws ws' : Fin W → WorkerPc}
    (h : ∀ w, ws' w = ws w ∨ ws w = .waiting ∧ ws' w = .woken) : total f ws' = total f ws := by
  refine Finset.sum_congr rfl fun w _ => ?_
  rcases h w with heq | ⟨hwait, hwoken⟩
  · rw [heq]
  · rw [hwait, hwoken, hf]

/-- One of the workers is no more than all of them. -/
theorem le_total (f : WorkerPc → ℕ) (ws : Fin W → WorkerPc) (w : Fin W) : f (ws w) ≤ total f ws :=
  Finset.single_le_sum (f := fun v => f (ws v)) (fun _ _ => Nat.zero_le _) (Finset.mem_univ w)

/-- The worker has a task that it has not counted. -/
def WorkerPc.busy : WorkerPc → ℕ
  | .taken _ | .executed | .marking => 1
  | _ => 0

/-- The worker has taken the task `i` and not run it. -/
def WorkerPc.holds (i : ℕ) : WorkerPc → ℕ
  | .taken t => if t = i then 1 else 0
  | _ => 0

/-- A worker that holds a task is busy. -/
theorem total_holds_le (i : ℕ) (ws : Fin W → WorkerPc) : total (WorkerPc.holds i) ws ≤ total WorkerPc.busy ws := by
  refine Finset.sum_le_sum fun w _ => ?_
  cases ws w with
  | taken t =>
    show (if t = i then 1 else 0) ≤ 1
    split_ifs <;> omega
  | _ => exact Nat.zero_le _

/-- The performer has not queued its jobs, or `performer_job` has returned. -/
def PerformerPc.Outside : PerformerPc → Prop
  | .idle | .calling _ | .adding _ | .stopping | .stopped => True
  | _ => False

/-! ## What the operations do -/

/-- The jobs that were counted in this round. -/
def doneCount (q : Queue) : ℕ := ∑ i ∈ Finset.range q.tasksTodo, q.tasksDone i

theorem doneSum_eq (q : Queue) : doneSum q = doneCount q % 256 := by
  have hfold : ∀ m, (List.range m).foldl (fun done i => (done + q.tasksDone i) % 256) 0
      = (∑ i ∈ Finset.range m, q.tasksDone i) % 256 := by
    intro m
    induction m with
    | zero => rfl
    | succ m ih =>
      rw [List.range_succ, List.foldl_append, List.foldl_cons, List.foldl_nil, ih, Finset.sum_range_succ,
        Nat.mod_add_mod]
  exact hfold q.tasksTodo

/-- A worker of the round counts one more job, if its byte does not overflow; the count of another is not looked at. -/
theorem doneCount_markDone {q : Queue} {id : ℕ} (hbyte : doneCount q + 1 < 256) :
    doneCount (markDone q id) = if id < q.tasksTodo then doneCount q + 1 else doneCount q := by
  unfold doneCount markDone at *
  dsimp only at *
  split_ifs with hid
  · have hle : q.tasksDone id ≤ ∑ i ∈ Finset.range q.tasksTodo, q.tasksDone i :=
      Finset.single_le_sum (fun _ _ => Nat.zero_le _) (Finset.mem_range.mpr hid)
    rw [← Finset.add_sum_erase _ _ (Finset.mem_range.mpr hid), Function.update_self, Nat.mod_eq_of_lt (by omega),
      ← Finset.add_sum_erase _ q.tasksDone (Finset.mem_range.mpr hid)]
    have hrest : ∑ i ∈ (Finset.range q.tasksTodo).erase id,
          Function.update q.tasksDone id ((q.tasksDone id + 1) % 256) i
        = ∑ i ∈ (Finset.range q.tasksTodo).erase id, q.tasksDone i := by
      refine Finset.sum_congr rfl fun i hi => ?_
      rw [Function.update_of_ne (Finset.ne_of_mem_erase hi)]
    rw [Nat.mod_eq_of_lt (by omega)] at hrest
    omega
  · refine Finset.sum_congr rfl fun i hi => ?_
    rw [Function.update_of_ne]
    have hlt := Finset.mem_range.mp hi
    omega

/-- The queue that `performer_job` leaves. -/
structure Queued (q : Queue) (round n : ℕ) (exitFlag : Bool) : Prop where
  tasks : q.tasks = List.range n
  totalTasks : q.totalTasks = n
  tasksTodo : q.tasksTodo = n
  runningTasks : ∀ i < n, q.runningTasks i = ⟨round, i⟩
  tasksDone : ∀ i < n, q.tasksDone i = 0
  exitFlag : q.exitFlag = exitFlag

/-- **The jobs of a call are queued** in their order, each in its place, and the counts of the workers are 0. -/
theorem performerAdd_queued {q : Queue} {round n : ℕ} (hn : n < 256) (htasks : q.tasks = []) (htotal : q.totalTasks = 0) :
    Queued (performerAdd q round n) round n q.exitFlag := by
  have hfold : ∀ m ≤ n, ∀ q', q' = (List.range m).foldl
      (fun q i => taskAdd { q with tasksDone := Function.update q.tasksDone i 0 } i ⟨round, i⟩)
      { q with tasksTodo := n } →
      q'.tasks = List.range m ∧ q'.totalTasks = m ∧ q'.tasksTodo = n ∧ (∀ i < m, q'.runningTasks i = ⟨round, i⟩) ∧
        (∀ i < m, q'.tasksDone i = 0) ∧ q'.exitFlag = q.exitFlag := by
    intro m
    induction m with
    | zero =>
      rintro - q' rfl
      exact ⟨htasks, htotal, rfl, fun i hi => absurd hi (Nat.not_lt_zero i),
        fun i hi => absurd hi (Nat.not_lt_zero i), rfl⟩
    | succ m ih =>
      rintro hm q' rfl
      obtain ⟨htasks, htotal, htodo, hrun, hdone, hexit⟩ := ih (by omega) _ rfl
      rw [List.range_succ, List.foldl_append, List.foldl_cons, List.foldl_nil]
      generalize (List.range m).foldl _ _ = q' at htasks htotal htodo hrun hdone hexit ⊢
      unfold taskAdd
      refine ⟨?_, ?_, htodo, fun i hi => ?_, fun i hi => ?_, hexit⟩
      · dsimp only
        split_ifs with hzero
        · rw [htotal] at hzero
          rw [hzero]
          rfl
        · rw [htasks]
      · dsimp only
        rw [htotal, Nat.mod_eq_of_lt (by omega)]
      · dsimp only
        rcases Nat.lt_succ_iff_lt_or_eq.mp hi with hlt | rfl
        · rw [Function.update_of_ne (by omega), hrun i hlt]
        · rw [Function.update_self]
      · dsimp only
        rcases Nat.lt_succ_iff_lt_or_eq.mp hi with hlt | rfl
        · rw [Function.update_of_ne (by omega), hdone i hlt]
        · rw [Function.update_self]
  obtain ⟨htasks, htotal, htodo, hrun, hdone, hexit⟩ := hfold n (le_refl n) _ rfl
  exact ⟨htasks, htotal, htodo, hrun, hdone, hexit⟩

/-- `task_get` takes the first task. -/
theorem taskGet_some {q q' : Queue} {t : ℕ} (h : taskGet q = some (t, q')) :
    ∃ rest, q.tasks = t :: rest ∧ q' = { q with tasks := rest, totalTasks := q.totalTasks - 1 } := by
  unfold taskGet at h
  split at h
  · exact absurd h (by simp only [reduceCtorEq, not_false_eq_true])
  · rename_i t' rest htasks
    split_ifs at h
    obtain ⟨rfl, rfl⟩ := Prod.mk.inj (Option.some.inj h)
    exact ⟨rest, htasks, rfl⟩

/-! ## The invariant -/

/-- **Where the jobs are**: each job of the round is queued, held by a worker or was run, and the counts of the workers
of the round are what is not queued and not with a worker. -/
structure Inv (s : State W) : Prop where
  total : s.queue.totalTasks = s.queue.tasks.length
  byte : s.queue.tasksTodo < 256
  todo : s.queue.tasksTodo = s.todos.getLast?.getD 0
  slots : ∀ i < s.queue.tasksTodo, s.queue.runningTasks i = ⟨s.todos.length - 1, i⟩
  jobs : ∀ i, s.log.count ⟨s.todos.length - 1, i⟩ + s.queue.tasks.count i + Task.total (WorkerPc.holds i) s.workers
    = if i < s.queue.tasksTodo then 1 else 0
  past : ∀ r i, r + 1 < s.todos.length → s.log.count ⟨r, i⟩ = if i < s.todos.getD r 0 then 1 else 0
  future : ∀ r i, s.todos.length ≤ r → s.log.count ⟨r, i⟩ = 0
  left : doneCount s.queue + s.queue.tasks.length + Task.total WorkerPc.busy s.workers ≤ s.queue.tasksTodo
  exact : W ≤ s.queue.tasksTodo →
    doneCount s.queue + s.queue.tasks.length + Task.total WorkerPc.busy s.workers = s.queue.tasksTodo
  quiet : s.performer.Outside → s.queue.tasks.length + Task.total WorkerPc.busy s.workers = 0
  awake : s.queue.tasks ≠ [] → 0 < W → ∃ w, s.workers w ≠ .waiting ∧ s.workers w ≠ .exited
  exits : ∀ w, s.workers w = .exited → s.queue.exitFlag = true
  stops : s.queue.exitFlag = true → s.performer = .stopped
  called : ∀ n, s.performer = .calling n ∨ s.performer = .adding n → n < 256
  waits : s.performer = .waiting → doneCount s.queue < s.queue.tasksTodo

section Steps

variable {s : State W}

/-- The threads add up to 0 before they have done anything. -/
theorem total_taskStart {f : WorkerPc → ℕ} (hf : f .start = 0) : Task.total f (taskStart W).workers = 0 :=
  Finset.sum_eq_zero fun _ _ => hf

theorem inv_taskStart : Inv (taskStart W) where
  total := rfl
  byte := by show 0 < 256; decide
  todo := rfl
  slots := fun i hi => absurd hi (Nat.not_lt_zero i)
  jobs := fun i => by
    rw [total_taskStart rfl]
    rfl
  past := fun r i hr => absurd hr (Nat.not_lt_zero _)
  future := fun r i _ => rfl
  left := by
    rw [total_taskStart rfl]
    exact le_refl 0
  exact := fun _ => by
    rw [total_taskStart rfl]
    rfl
  quiet := fun _ => by
    rw [total_taskStart rfl]
    rfl
  awake := fun h => absurd rfl h
  exits := fun w h => by cases h
  stops := fun h => by cases h
  called := fun n h => by rcases h with h | h <;> cases h
  waits := fun h => by cases h

/-- A worker goes on that takes no task, runs none and counts none. -/
theorem Inv.worker (h : Inv s) {w : Fin W} {pc : WorkerPc} {m : Option (Thread W)}
    (hbusy : pc.busy = (s.workers w).busy) (hholds : ∀ i, pc.holds i = (s.workers w).holds i)
    (hawake : s.queue.tasks ≠ [] → pc ≠ .waiting ∧ pc ≠ .exited) (hexit : pc = .exited → s.queue.exitFlag = true) :
    Inv { s.goOn w pc with mutex := m } := by
  have hbusy : Task.total WorkerPc.busy (Function.update s.workers w pc) = Task.total WorkerPc.busy s.workers := by
    have htotal := total_update WorkerPc.busy s.workers w pc
    omega
  have hholds : ∀ i, Task.total (WorkerPc.holds i) (Function.update s.workers w pc)
      = Task.total (WorkerPc.holds i) s.workers := by
    intro i
    have htotal := total_update (WorkerPc.holds i) s.workers w pc
    have hw := hholds i
    omega
  exact
    { total := h.total, byte := h.byte, todo := h.todo, slots := h.slots, past := h.past, future := h.future
      stops := h.stops, called := h.called, waits := h.waits
      jobs := fun i => (congrArg (_ + ·) (hholds i)).trans (h.jobs i)
      left := (congrArg (_ + ·) hbusy).trans_le h.left
      exact := fun hle => (congrArg (_ + ·) hbusy).trans (h.exact hle)
      quiet := fun hout => (congrArg (_ + ·) hbusy).trans (h.quiet hout)
      awake := fun hne _ => ⟨w, by
        show Function.update s.workers w pc w ≠ _ ∧ Function.update s.workers w pc w ≠ _
        rw [Function.update_self]
        exact hawake hne⟩
      exits := fun v hv => by
        change Function.update s.workers w pc v = _ at hv
        rcases eq_or_ne v w with rfl | hne
        · rw [Function.update_self] at hv
          exact hexit hv
        · rw [Function.update_of_ne hne] at hv
          exact h.exits v hv }

/-- The performer goes on and leaves the queue. -/
theorem Inv.performer (h : Inv s) {p : PerformerPc} {m : Option (Thread W)}
    (hquiet : p.Outside → s.queue.tasks.length + Task.total WorkerPc.busy s.workers = 0)
    (hstops : s.performer ≠ .stopped) (hcalled : ∀ n, p = .calling n ∨ p = .adding n → n < 256)
    (hwaits : p = .waiting → doneCount s.queue < s.queue.tasksTodo) :
    Inv { s with performer := p, mutex := m } where
  total := h.total
  byte := h.byte
  todo := h.todo
  slots := h.slots
  jobs := h.jobs
  past := h.past
  future := h.future
  left := h.left
  exact := h.exact
  quiet := hquiet
  awake := h.awake
  exits := h.exits
  stops := fun hflag => absurd (h.stops hflag) hstops
  called := hcalled
  waits := hwaits

/-- A worker takes the first task. -/
theorem Inv.take (h : Inv s) {w : Fin W} {t : ℕ} {q : Queue} (hpc : s.workers w = .locked)
    (hget : taskGet s.queue = some (t, q)) : Inv { s.goOn w (.taken t) with queue := q, mutex := none } := by
  obtain ⟨rest, htasks, rfl⟩ := taskGet_some hget
  have hbusy := total_update WorkerPc.busy s.workers w (.taken t)
  rw [hpc] at hbusy
  change _ + 0 = _ + 1 at hbusy
  have hlen : s.queue.tasks.length = rest.length + 1 := by rw [htasks, List.length_cons]
  have hin : ¬ s.performer.Outside := fun hout => by
    have hquiet := h.quiet hout
    omega
  constructor
  case total =>
    show s.queue.totalTasks - 1 = rest.length
    rw [h.total, hlen, Nat.add_sub_cancel]
  case byte => exact h.byte
  case todo => exact h.todo
  case slots => exact h.slots
  case jobs =>
    intro i
    have hjobs := h.jobs i
    have hholds := total_update (WorkerPc.holds i) s.workers w (.taken t)
    rw [hpc] at hholds
    change _ + 0 = _ + (if t = i then 1 else 0) at hholds
    rw [htasks, List.count_cons] at hjobs
    simp only [beq_iff_eq] at hjobs
    show s.log.count ⟨s.todos.length - 1, i⟩ + rest.count i +
      Task.total _ (Function.update s.workers w (.taken t)) = if i < s.queue.tasksTodo then 1 else 0
    omega
  case past => exact h.past
  case future => exact h.future
  case left =>
    have hleft := h.left
    show doneCount s.queue + rest.length + Task.total _ (Function.update s.workers w (.taken t)) ≤ s.queue.tasksTodo
    omega
  case exact =>
    intro hle
    have hexact := h.exact hle
    show doneCount s.queue + rest.length + Task.total _ (Function.update s.workers w (.taken t)) = s.queue.tasksTodo
    omega
  case quiet => exact fun hout => absurd hout hin
  case awake =>
    intro _ _
    refine ⟨w, ?_⟩
    show Function.update s.workers w (.taken t) w ≠ _ ∧ Function.update s.workers w (.taken t) w ≠ _
    rw [Function.update_self]
    exact ⟨nofun, nofun⟩
  case exits =>
    intro v hv
    change Function.update s.workers w (.taken t) v = _ at hv
    rcases eq_or_ne v w with rfl | hne
    · rw [Function.update_self] at hv
      cases hv
    · rw [Function.update_of_ne hne] at hv
      exact h.exits v hv
  case stops => exact h.stops
  case called => exact h.called
  case waits => exact h.waits

/-- A worker that holds a task holds one of this round, which was not run. -/
theorem Inv.taken (h : Inv s) {w : Fin W} {t : ℕ} (hpc : s.workers w = .taken t) :
    t < s.queue.tasksTodo ∧ s.queue.runningTasks t = ⟨s.todos.length - 1, t⟩ ∧
      s.log.count ⟨s.todos.length - 1, t⟩ = 0 ∧ ¬ s.performer.Outside := by
  have hjobs := h.jobs t
  have hle := le_total (WorkerPc.holds t) s.workers w
  rw [hpc] at hle
  change (if t = t then 1 else 0) ≤ _ at hle
  rw [if_pos rfl] at hle
  have hbusy := le_total WorkerPc.busy s.workers w
  rw [hpc] at hbusy
  change 1 ≤ _ at hbusy
  have ht : t < s.queue.tasksTodo := by
    by_contra hge
    rw [if_neg hge] at hjobs
    omega
  rw [if_pos ht] at hjobs
  refine ⟨ht, h.slots t ht, by omega, fun hout => ?_⟩
  have hquiet := h.quiet hout
  omega

/-- A worker runs its task. -/
theorem Inv.run (h : Inv s) {w : Fin W} {t : ℕ} (hpc : s.workers w = .taken t) :
    Inv { s.goOn w .executed with log := s.log ++ [s.queue.runningTasks t] } := by
  obtain ⟨ht, hslot, hnew, hin⟩ := h.taken hpc
  have hlen : s.todos.length ≠ 0 := by
    intro hzero
    have htodo := h.todo
    rw [List.length_eq_zero_iff.mp hzero] at htodo
    change _ = 0 at htodo
    omega
  have hcount : ∀ job, (s.log ++ [s.queue.runningTasks t]).count job
      = s.log.count job + if ⟨s.todos.length - 1, t⟩ = job then 1 else 0 := by
    intro job
    rw [List.count_append, List.count_singleton, hslot]
    simp only [beq_iff_eq]
  have hbusy := total_update WorkerPc.busy s.workers w .executed
  rw [hpc] at hbusy
  change _ + 1 = _ + 1 at hbusy
  constructor
  case total => exact h.total
  case byte => exact h.byte
  case todo => exact h.todo
  case slots => exact h.slots
  case jobs =>
    intro i
    have hjobs := h.jobs i
    have hholds := total_update (WorkerPc.holds i) s.workers w .executed
    rw [hpc] at hholds
    change _ + (if t = i then 1 else 0) = _ + 0 at hholds
    show (s.log ++ [s.queue.runningTasks t]).count ⟨s.todos.length - 1, i⟩ + s.queue.tasks.count i +
      Task.total _ (Function.update s.workers w .executed) = if i < s.queue.tasksTodo then 1 else 0
    have hsame : (⟨s.todos.length - 1, t⟩ : JobId) = ⟨s.todos.length - 1, i⟩ ↔ t = i := by
      rw [JobId.mk.injEq, and_iff_right rfl]
    rw [hcount, if_congr hsame rfl rfl]
    omega
  case past =>
    intro r i hr
    change r + 1 < s.todos.length at hr
    have hne : (⟨s.todos.length - 1, t⟩ : JobId) ≠ ⟨r, i⟩ := by
      rw [Ne, JobId.mk.injEq]
      omega
    refine (hcount ⟨r, i⟩).trans ?_
    rw [if_neg hne, Nat.add_zero]
    exact h.past r i hr
  case future =>
    intro r i hr
    change s.todos.length ≤ r at hr
    have hne : (⟨s.todos.length - 1, t⟩ : JobId) ≠ ⟨r, i⟩ := by
      rw [Ne, JobId.mk.injEq]
      omega
    refine (hcount ⟨r, i⟩).trans ?_
    rw [if_neg hne, Nat.add_zero]
    exact h.future r i hr
  case left =>
    have hleft := h.left
    show doneCount s.queue + s.queue.tasks.length + Task.total _ (Function.update s.workers w .executed)
      ≤ s.queue.tasksTodo
    omega
  case exact =>
    intro hle
    have hexact := h.exact hle
    show doneCount s.queue + s.queue.tasks.length + Task.total _ (Function.update s.workers w .executed)
      = s.queue.tasksTodo
    omega
  case quiet => exact fun hout => absurd hout hin
  case awake =>
    intro _ _
    refine ⟨w, ?_⟩
    show Function.update s.workers w .executed w ≠ _ ∧ Function.update s.workers w .executed w ≠ _
    rw [Function.update_self]
    exact ⟨nofun, nofun⟩
  case exits =>
    intro v hv
    change Function.update s.workers w .executed v = _ at hv
    rcases eq_or_ne v w with rfl | hne
    · rw [Function.update_self] at hv
      cases hv
    · rw [Function.update_of_ne hne] at hv
      exact h.exits v hv
  case stops => exact h.stops
  case called => exact h.called
  case waits => exact h.waits

/-- A worker counts its task, and wakes the performer. -/
theorem Inv.mark (h : Inv s) {w : Fin W} (hpc : s.workers w = .marking) :
    Inv { s.goOn w .start with queue := markDone s.queue w, mutex := none, performer := signalDone s.performer } := by
  have hbusy := total_update WorkerPc.busy s.workers w .start
  rw [hpc] at hbusy
  change _ + 1 = _ + 0 at hbusy
  have hbyte := h.byte
  have hleft := h.left
  have hdone : doneCount (markDone s.queue w) = if w < s.queue.tasksTodo then doneCount s.queue + 1
      else doneCount s.queue := doneCount_markDone (by omega)
  have hsignal : signalDone s.performer ≠ .waiting := by
    unfold signalDone
    split_ifs with hwait
    · nofun
    · exact hwait
  -- the performer goes on waiting for nothing, and everything else of it is as before
  have hperformer : s.performer = .waiting ∨ signalDone s.performer = s.performer := by
    unfold signalDone
    split_ifs with hwait
    · exact Or.inl hwait
    · exact Or.inr rfl
  have hin : ¬ s.performer.Outside := fun hout => by
    have hquiet := h.quiet hout
    omega
  have hin' : ¬ (signalDone s.performer).Outside := by
    unfold signalDone
    split_ifs
    · exact id
    · exact hin
  have hstopped : s.performer ≠ .stopped := by
    intro hstop
    rw [hstop] at hin
    exact hin trivial
  constructor
  case total => exact h.total
  case byte => exact h.byte
  case todo => exact h.todo
  case slots => exact h.slots
  case jobs =>
    intro i
    have hjobs := h.jobs i
    have hholds := total_update (WorkerPc.holds i) s.workers w .start
    rw [hpc] at hholds
    change _ + 0 = _ + 0 at hholds
    show s.log.count ⟨s.todos.length - 1, i⟩ + s.queue.tasks.count i +
      Task.total _ (Function.update s.workers w .start) = if i < s.queue.tasksTodo then 1 else 0
    omega
  case past => exact h.past
  case future => exact h.future
  case left =>
    show doneCount (markDone s.queue w) + s.queue.tasks.length + Task.total _ (Function.update s.workers w .start)
      ≤ s.queue.tasksTodo
    rw [hdone]
    split_ifs <;> omega
  case exact =>
    intro hle
    change W ≤ s.queue.tasksTodo at hle
    have hexact := h.exact hle
    show doneCount (markDone s.queue w) + s.queue.tasks.length + Task.total _ (Function.update s.workers w .start)
      = s.queue.tasksTodo
    rw [hdone, if_pos (by omega)]
    omega
  case quiet => exact fun hout => absurd hout hin'
  case awake =>
    intro _ _
    refine ⟨w, ?_⟩
    show Function.update s.workers w .start w ≠ _ ∧ Function.update s.workers w .start w ≠ _
    rw [Function.update_self]
    exact ⟨nofun, nofun⟩
  case exits =>
    intro v hv
    change Function.update s.workers w .start v = _ at hv
    rcases eq_or_ne v w with rfl | hne
    · rw [Function.update_self] at hv
      cases hv
    · rw [Function.update_of_ne hne] at hv
      exact h.exits v hv
  case stops => exact fun hflag => absurd (h.stops hflag) hstopped
  case called =>
    intro n hn
    change signalDone s.performer = _ ∨ signalDone s.performer = _ at hn
    rcases hn with hn | hn
    · exact absurd (hn ▸ trivial) hin'
    · exact absurd (hn ▸ trivial) hin'
  case waits => exact fun hwait => absurd hwait hsignal

/-- When nothing is queued and no worker is busy, each job of the last round was run once. -/
theorem Inv.count_last (h : Inv s) (hquiet : s.queue.tasks.length + Task.total WorkerPc.busy s.workers = 0) {r : ℕ}
    (hr : r + 1 = s.todos.length) (i : ℕ) : s.log.count ⟨r, i⟩ = if i < s.todos.getD r 0 then 1 else 0 := by
  have hjobs := h.jobs i
  have htasks : s.queue.tasks = [] := List.length_eq_zero_iff.mp (by omega)
  have hholds := total_holds_le i s.workers
  have hlt : r < s.todos.length := by omega
  rw [htasks, List.count_nil, h.todo, List.getLast?_eq_getElem?, show s.todos.length - 1 = r by omega,
    List.getElem?_eq_getElem hlt, Option.getD_some] at hjobs
  rw [List.getD_eq_getElem _ _ hlt]
  omega

/-- The performer queues its jobs, and wakes a worker if all of them wait. -/
theorem Inv.add (h : Inv s) {n : ℕ} {ws : Fin W → WorkerPc} (hpc : s.performer = .adding n)
    (hsignal : Signalled s.workers ws) :
    Inv { s with
      queue := performerAdd s.queue s.todos.length n, todos := s.todos ++ [n], workers := ws
      performer := .polling, mutex := none } := by
  have hn : n < 256 := h.called n (Or.inr hpc)
  have hquiet := h.quiet (by rw [hpc]; trivial)
  have htasks : s.queue.tasks = [] := List.length_eq_zero_iff.mp (by omega)
  have hq := @performerAdd_queued _ s.todos.length _ hn htasks (h.total.trans (by rw [htasks]; rfl))
  generalize performerAdd s.queue s.todos.length n = q at hq ⊢
  have hflag : s.queue.exitFlag = false := by
    cases hflag : s.queue.exitFlag with
    | false => rfl
    | true =>
      have hstop := h.stops hflag
      rw [hpc] at hstop
      cases hstop
  have hrunning : ∀ v, s.workers v ≠ .exited := by
    intro v hv
    have hexit := h.exits v hv
    rw [hflag] at hexit
    cases hexit
  have hbusy : Task.total WorkerPc.busy ws = 0 := by
    rw [total_wake rfl hsignal.1]
    omega
  have hholds : ∀ i, Task.total (WorkerPc.holds i) ws = 0 :=
    fun i => Nat.le_zero.mp ((total_holds_le i ws).trans hbusy.le)
  have hdone : doneCount q = 0 := by
    unfold doneCount
    rw [hq.tasksTodo]
    exact Finset.sum_eq_zero fun i hi => hq.tasksDone i (Finset.mem_range.mp hi)
  have hround : (s.todos ++ [n]).length - 1 = s.todos.length := by
    rw [List.length_append, List.length_singleton, Nat.add_sub_cancel]
  have hleft : doneCount q + q.tasks.length + Task.total WorkerPc.busy ws = q.tasksTodo := by
    rw [hdone, hq.tasks, hbusy, hq.tasksTodo, List.length_range, Nat.zero_add, Nat.add_zero]
  constructor
  case total =>
    show q.totalTasks = q.tasks.length
    rw [hq.totalTasks, hq.tasks, List.length_range]
  case byte => exact hq.tasksTodo.trans_lt hn
  case todo =>
    show q.tasksTodo = (s.todos ++ [n]).getLast?.getD 0
    rw [hq.tasksTodo, List.getLast?_concat]
    rfl
  case slots =>
    intro i hi
    show q.runningTasks i = ⟨(s.todos ++ [n]).length - 1, i⟩
    rw [hround]
    exact hq.runningTasks i (lt_of_lt_of_eq hi hq.tasksTodo)
  case jobs =>
    intro i
    show s.log.count ⟨(s.todos ++ [n]).length - 1, i⟩ + q.tasks.count i + Task.total _ ws
      = if i < q.tasksTodo then 1 else 0
    rw [hround, h.future _ i (le_refl _), hq.tasks, hholds, hq.tasksTodo, List.count_range]
    omega
  case past =>
    intro r i hr
    change r + 1 < (s.todos ++ [n]).length at hr
    rw [List.length_append, List.length_singleton] at hr
    show s.log.count ⟨r, i⟩ = if i < (s.todos ++ [n]).getD r 0 then 1 else 0
    rw [List.getD_append _ _ _ _ (by omega)]
    rcases Nat.lt_or_ge (r + 1) s.todos.length with hlt | hge
    · exact h.past r i hlt
    · exact h.count_last hquiet (by omega) i
  case future =>
    intro r i hr
    change (s.todos ++ [n]).length ≤ r at hr
    rw [List.length_append, List.length_singleton] at hr
    exact h.future r i (by omega)
  case left => exact hleft.le
  case exact => exact fun _ => hleft
  case quiet => exact fun hout => hout.elim
  case awake =>
    intro _ hW
    show ∃ v, ws v ≠ .waiting ∧ ws v ≠ .exited
    by_cases hwait : ∃ v, s.workers v = .waiting
    · obtain ⟨v, -, hv⟩ := hsignal.2 hwait
      exact ⟨v, by rw [hv]; exact ⟨nofun, nofun⟩⟩
    · refine ⟨⟨0, hW⟩, ?_⟩
      rcases hsignal.1 ⟨0, hW⟩ with heq | ⟨hv, -⟩
      · rw [heq]
        exact ⟨fun hv => hwait ⟨_, hv⟩, hrunning _⟩
      · exact absurd ⟨_, hv⟩ hwait
  case exits =>
    intro v hv
    change ws v = .exited at hv
    rcases hsignal.1 v with heq | ⟨-, hwoken⟩
    · exact absurd (heq ▸ hv) (hrunning v)
    · rw [hwoken] at hv
      cases hv
  case stops =>
    intro hexit
    change q.exitFlag = true at hexit
    rw [hq.exitFlag, hflag] at hexit
    cases hexit
  case called => exact fun m hm => by rcases hm with hm | hm <;> cases hm
  case waits => exact fun hwait => by cases hwait

/-- `task_stop` wakes all workers. -/
theorem Inv.stop (h : Inv s) (hpc : s.performer = .stopping) :
    Inv { s with
      queue := { s.queue with exitFlag := true }, workers := broadcast s.workers
      performer := .stopped, mutex := none } := by
  have hwake : ∀ v, broadcast s.workers v = s.workers v ∨ s.workers v = .waiting ∧ broadcast s.workers v = .woken := by
    intro v
    unfold broadcast
    split_ifs with hv
    · exact Or.inr ⟨hv, rfl⟩
    · exact Or.inl rfl
  have hquiet := h.quiet (by rw [hpc]; trivial)
  have hbusy : Task.total WorkerPc.busy (broadcast s.workers) = Task.total WorkerPc.busy s.workers :=
    total_wake rfl hwake
  constructor
  case total => exact h.total
  case byte => exact h.byte
  case todo => exact h.todo
  case slots => exact h.slots
  case jobs => exact fun i => (congrArg (_ + ·) (total_wake rfl hwake)).trans (h.jobs i)
  case past => exact h.past
  case future => exact h.future
  case left => exact (congrArg (_ + ·) hbusy).trans_le h.left
  case exact => exact fun hle => (congrArg (_ + ·) hbusy).trans (h.exact hle)
  case quiet => exact fun _ => (congrArg (_ + ·) hbusy).trans hquiet
  case awake => exact fun hne => absurd (show s.queue.tasks = [] from List.length_eq_zero_iff.mp (by omega)) hne
  case exits => exact fun _ _ => rfl
  case stops => exact fun _ => rfl
  case called => exact fun m hm => by rcases hm with hm | hm <;> cases hm
  case waits => exact fun hwait => by cases hwait

/-- **One step.** -/
theorem Inv.step {s' : State W} (h : Inv s) (hstep : Step s s') : Inv s' := by
  cases hstep with
  | workerLock w hpc hfree =>
    refine h.worker ?_ ?_ (fun _ => ⟨nofun, nofun⟩) nofun
    · rcases hpc with hpc | hpc <;> rw [hpc] <;> rfl
    · intro i
      rcases hpc with hpc | hpc <;> rw [hpc] <;> rfl
  | workerExit w hpc hown hempty hexit =>
    refine h.worker ?_ ?_ (fun hne => absurd (h.total.symm.trans hempty) ?_) fun _ => hexit
    · rw [hpc]
      rfl
    · intro i
      rw [hpc]
      rfl
    · exact mt List.length_eq_zero_iff.mp hne
  | workerWait w hpc hown hempty hexit =>
    refine h.worker ?_ ?_ (fun hne => absurd (h.total.symm.trans hempty) ?_) nofun
    · rw [hpc]
      rfl
    · intro i
      rw [hpc]
      rfl
    · exact mt List.length_eq_zero_iff.mp hne
  | workerSpurious w hpc =>
    refine h.worker ?_ ?_ (fun _ => ⟨nofun, nofun⟩) nofun
    · rw [hpc]
      rfl
    · intro i
      rw [hpc]
      rfl
  | workerTake w hpc hown hsome t q hget => exact h.take hpc hget
  | workerRun w t hpc => exact h.run hpc
  | workerRelock w hpc hfree =>
    refine h.worker ?_ ?_ (fun _ => ⟨nofun, nofun⟩) nofun
    · rw [hpc]
      rfl
    · intro i
      rw [hpc]
      rfl
  | workerMark w hpc hown => exact h.mark hpc
  | performerCall n hbyte hpc =>
    refine h.performer (fun _ => h.quiet (by rw [hpc]; trivial)) (by rw [hpc]; nofun) ?_ nofun
    intro m hm
    rcases hm with hm | hm
    · cases hm
      exact hbyte
    · cases hm
  | performerLock n hpc hfree =>
    refine h.performer (fun _ => h.quiet (by rw [hpc]; trivial)) (by rw [hpc]; nofun) ?_ nofun
    intro m hm
    rcases hm with hm | hm
    · cases hm
    · cases hm
      exact h.called n (Or.inl hpc)
  | performerAdd n hpc hown ws hsignal => exact h.add hpc hsignal
  | performerPoll hpc hfree =>
    exact h.performer (fun hout => hout.elim) (by rw [hpc]; nofun) (fun m hm => by rcases hm with hm | hm <;> cases hm)
      nofun
  | performerWait hpc hown hless =>
    refine h.performer (fun hout => hout.elim) (by rw [hpc]; nofun)
      (fun m hm => by rcases hm with hm | hm <;> cases hm) fun _ => ?_
    rw [doneSum_eq] at hless
    have hleft := h.left
    have hbyte := h.byte
    rw [Nat.mod_eq_of_lt (by omega)] at hless
    exact hless
  | performerSpurious hpc =>
    exact h.performer (fun hout => hout.elim) (by rw [hpc]; nofun) (fun m hm => by rcases hm with hm | hm <;> cases hm)
      nofun
  | performerRelock hpc hfree =>
    exact h.performer (fun hout => hout.elim) (by rw [hpc]; nofun) (fun m hm => by rcases hm with hm | hm <;> cases hm)
      nofun
  | performerReturn hpc hown heq =>
    -- all jobs are counted, so none is queued and none is with a worker
    refine h.performer (fun _ => ?_) ?_ (fun m hm => by rcases hm with hm | hm <;> cases hm) nofun
    · rw [doneSum_eq] at heq
      have hleft := h.left
      have hbyte := h.byte
      rw [Nat.mod_eq_of_lt (by omega)] at heq
      omega
    · rcases hpc with hpc | hpc <;> rw [hpc] <;> nofun
  | performerAgain hpc hown =>
    refine h.performer (fun hout => hout.elim) ?_ (fun m hm => by rcases hm with hm | hm <;> cases hm) nofun
    rcases hpc with ⟨hpc, -⟩ | ⟨hpc, -⟩ <;> rw [hpc] <;> nofun
  | stopLock hpc hfree =>
    exact h.performer (fun _ => h.quiet (by rw [hpc]; trivial)) (by rw [hpc]; nofun)
      (fun m hm => by rcases hm with hm | hm <;> cases hm) nofun
  | stopBroadcast hpc hown => exact h.stop hpc

end Steps

/-- **The invariant holds in every state that is reached**, whatever the threads do in what order. -/
theorem Reach.inv {s : State W} (hs : Reach s) : Inv s := by
  induction hs with
  | start => exact inv_taskStart
  | step _ hstep ih => exact ih.step hstep

/-! ## Every job once -/

/-- How often a job was run when `performer_job` has returned. -/
def runsOf (todos : List ℕ) (job : JobId) : ℕ :=
  if job.round < todos.length ∧ job.no < todos.getD job.round 0 then 1 else 0

/-- Outside a round, each job of each call was run once, and nothing else was. -/
theorem Inv.count_outside {s : State W} (h : Inv s) (hout : s.performer.Outside) (job : JobId) :
    s.log.count job = runsOf s.todos job := by
  obtain ⟨r, i⟩ := job
  unfold runsOf
  dsimp only
  have hquiet := h.quiet hout
  rcases Nat.lt_trichotomy (r + 1) s.todos.length with hlt | heq | hgt
  · rw [h.past r i hlt, if_congr (and_iff_right (show r < s.todos.length by omega)).symm rfl rfl]
  · rw [h.count_last hquiet heq i, if_congr (and_iff_right (show r < s.todos.length by omega)).symm rfl rfl]
  · rw [h.future r i (by omega), if_neg (by omega)]

/-- The worker does not wait for a signal. -/
def WorkerPc.Active (pc : WorkerPc) : Prop := pc ≠ .waiting ∧ pc ≠ .exited

/-- A worker that is busy does not wait. -/
theorem exists_active {ws : Fin W → WorkerPc} (h : total WorkerPc.busy ws ≠ 0) : ∃ w, (ws w).Active := by
  obtain ⟨w, -, hw⟩ := Finset.exists_ne_zero_of_sum_ne_zero h
  refine ⟨w, ?_, ?_⟩ <;> intro hpc <;> rw [hpc] at hw <;> exact hw rfl

/-- **The queue runs every job once**, in every order of the steps of all threads.  When `performer_job` has returned,
each job of each call was run once and nothing else was run; what a worker is about to run is a job of the round that
is on, which was not run; and while the performer waits and a job was not run, a worker does not wait.  If each worker
of the pool is one of the round, as `vj_task_run` has it, the performer never waits with all of them. -/
theorem queue_runs_once {s : State W} (hs : Reach s) :
    (s.performer.Outside → ∀ job, s.log.count job = runsOf s.todos job) ∧
    (∀ w t, s.workers w = .taken t → ¬ s.performer.Outside ∧ t < s.queue.tasksTodo ∧
      s.queue.runningTasks t = ⟨s.todos.length - 1, t⟩ ∧ s.log.count ⟨s.todos.length - 1, t⟩ = 0) ∧
    (0 < W → s.performer = .waiting → (∃ i < s.queue.tasksTodo, s.log.count ⟨s.todos.length - 1, i⟩ = 0) →
      ∃ w, (s.workers w).Active) ∧
    (0 < W → s.performer = .waiting → W ≤ s.queue.tasksTodo → ∃ w, (s.workers w).Active) := by
  have h := hs.inv
  -- tasks that are queued or with a worker keep a worker from waiting
  have hactive : 0 < W → s.queue.tasks.length + total WorkerPc.busy s.workers ≠ 0 → ∃ w, (s.workers w).Active := by
    intro hW hne
    rcases eq_or_ne s.queue.tasks [] with htasks | htasks
    · rw [htasks, List.length_nil, Nat.zero_add] at hne
      exact exists_active hne
    · exact h.awake htasks hW
  refine ⟨h.count_outside, fun w t hpc => ?_, fun hW _ ⟨i, hi, hnew⟩ => hactive hW ?_,
    fun hW hwait hle => hactive hW ?_⟩
  · obtain ⟨ht, hslot, hnew, hin⟩ := h.taken hpc
    exact ⟨hin, ht, hslot, hnew⟩
  · have hjobs := h.jobs i
    have hholds := total_holds_le i s.workers
    have hcount := List.count_le_length (a := i) (l := s.queue.tasks)
    rw [hnew, if_pos hi] at hjobs
    omega
  · have hexact := h.exact hle
    have hless := h.waits hwait
    omega

/-- A worker waits, is woken by a call with one job, and runs it before `performer_job` looks at the counts. -/
theorem queue_runs_one :
    ∃ s : State 1, Reach s ∧ s.todos = [1] ∧ s.performer = .idle ∧ s.log.count ⟨0, 0⟩ = 1 := by
  have hlock := Reach.step .start (.workerLock (taskStart 1) 0 (Or.inl rfl) rfl)
  have hwait := hlock.step (.workerWait _ 0 rfl rfl rfl rfl)
  have hcall := hwait.step (.performerCall _ 1 (by decide) rfl)
  have henter := hcall.step (.performerLock _ 1 rfl rfl)
  have hadd := henter.step (.performerAdd _ 1 rfl rfl (fun _ => .woken)
    ⟨fun w => Or.inr ⟨by fin_cases w; rfl, rfl⟩, fun _ => ⟨0, rfl, rfl⟩⟩)
  have hwoken := hadd.step (.workerLock _ 0 (Or.inr rfl) rfl)
  have htake := hwoken.step (.workerTake _ 0 rfl rfl (by decide) 0 _ rfl)
  have hrun := htake.step (.workerRun _ 0 0 rfl)
  have hmark := (hrun.step (.workerRelock _ 0 rfl rfl)).step (.workerMark _ 0 rfl rfl)
  have hreturn := (hmark.step (.performerPoll _ rfl rfl)).step (.performerReturn _ (Or.inl rfl) rfl rfl)
  exact ⟨_, hreturn, rfl, rfl, ((queue_runs_once hreturn).1 trivial ⟨0, 0⟩).trans rfl⟩

end Veejay.Task
