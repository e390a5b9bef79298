import Ficant.Execution.Tables

namespace Ficant

open Lib

/-!
# The lease queue

Tasks are enqueued once, claimed by workers for a limited time, renewed and completed
(`ficant-storage/src/lease_queue.rs`, over `research.execution_tasks`).

* `enqueue`, `claim`, `claimNext`, `renew`, `complete` — the calls, as transactions of SQL
  statements; `CURRENT_TIMESTAMP` is the start of the transaction.
* `QueueStep` — what a call that succeeds has done to the table.
* `queueRules` and the `runs_` lemmas — proof outlines: no other transaction changes a row between
  the statement that reads it and the commit.
* `leaseQueue_safe` — the safety of the queue, over every interleaving of the statements.
-/

/-- `LeaseQueueError`. -/
inductive LeaseQueueError
  | invalidValue | conflict | notFound | storageUnavailable
  deriving DecidableEq, Repr

/-- A transaction of the queue. -/
abbrev QueueTx := Program DateTime Key Db Write LeaseQueueError Tag

/-- A statement of the queue. -/
abbrev QueueStatement := Statement DateTime Key Db Write LeaseQueueError Tag

/-- A task as the queue returns it (`LeaseTask`). -/
structure LeaseTask where
  tenantId : Ulid
  taskId : Ulid
  row : TaskRow
  deriving DecidableEq

/-- `EnqueueTask`. -/
structure EnqueueTask where
  tenantId : Ulid
  taskId : Ulid
  runId : Ulid
  nodeId : Ulid
  graphDigest : ContentHash
  executionIdentityDigest : ContentHash
  plannedArtifactId : Ulid
  taskKey : String
  deriving DecidableEq

/-- The row that is inserted for a task. -/
def EnqueueTask.row (input : EnqueueTask) (now : DateTime) : TaskRow where
  runId := input.runId
  nodeId := input.nodeId
  graphDigest := input.graphDigest
  executionIdentityDigest := input.executionIdentityDigest
  plannedArtifactId := input.plannedArtifactId
  taskKey := input.taskKey
  state := .pending
  claimCount := 0
  createdAt := now

/-- The lease columns of a task. -/
def TaskState.lease? : TaskState → Option Lease
  | .pending => none
  | .leased lease => some lease
  | .completed lease _ => some lease
  | .failed lease _ => some lease

/-! ### Enqueueing -/

/-- `validate_task_key`. -/
def validateTaskKey (value : String) : Bool :=
  value ≠ "" && (utf8 value).length ≤ 256 && trim value = value

/-- `validate_duration`. -/
def validateDuration (seconds : ℕ) : Bool := 1 ≤ seconds && seconds ≤ 3600

/-- The other tasks of the tenant that hold an entry of a unique index. -/
def Db.anyTask (db : Db) (tenant : Ulid) (p : Ulid → TaskRow → Bool) : Bool :=
  db.tasks.entries.any fun e => (ofLex e.1).1 = tenant && p (ofLex e.1).2 e.2

/-- `INSERT … ON CONFLICT (tenant_id, task_key) DO NOTHING`; the other unique keys and the foreign
    keys of the table are checked on an insertion. The value tells whether a row was inserted. -/
def insertTask (input : EnqueueTask) : QueueStatement Bool where
  tag := .plain
  exec now _ db :=
    if (db.taskOfKey? input.tenantId input.taskKey).isSome then .ok ⟨false, [], []⟩
    else if (db.task? input.tenantId input.taskId).isSome then .error .conflict
    else if db.anyTask input.tenantId fun _ row =>
        row.runId = input.runId && row.nodeId = input.nodeId then .error .conflict
    else if (db.run? input.tenantId input.runId).isNone then .error .notFound
    else if !db.identities.entries.any fun e => (ofLex e.1).1 = input.tenantId &&
        e.2.identity.digest = input.executionIdentityDigest then .error .notFound
    else .ok
      { value := true
        locks := [(.task input.tenantId input.taskId, .exclusive),
          (.taskKey input.tenantId input.taskKey, .exclusive),
          (.taskNode input.tenantId input.runId input.nodeId, .exclusive)]
        writes := [.taskKey input.tenantId input.taskKey input.taskId,
          .task input.tenantId input.taskId (input.row now)] }

/-- `fetch_by_key`: the task of that key, locked for the rest of the transaction; it has to be
    there. -/
def fetchByKey (tenant : Ulid) (key : String) : QueueStatement LeaseTask where
  tag := .plain
  exec _ _ db :=
    match db.taskOfKey? tenant key with
    | none => .error .storageUnavailable
    | some taskId =>
      match db.task? tenant taskId with
      | none => .error .storageUnavailable
      | some row => .ok ⟨⟨tenant, taskId, row⟩, [(.task tenant taskId, .exclusive)], []⟩

/-- `EnqueueResult`. -/
structure EnqueueResult where
  task : LeaseTask
  inserted : Bool
  deriving DecidableEq

/-- `PostgresLeaseQueue::enqueue`. -/
def enqueue (input : EnqueueTask) : QueueTx EnqueueResult :=
  if !validateTaskKey input.taskKey then .fail .invalidValue
  else do
    let inserted ← .ofStatement (insertTask input)
    let task ← .ofStatement (fetchByKey input.tenantId input.taskKey)
    if task.taskId ≠ input.taskId ∨ task.row.runId ≠ input.runId ∨
        task.row.nodeId ≠ input.nodeId ∨ task.row.graphDigest ≠ input.graphDigest ∨
        task.row.executionIdentityDigest ≠ input.executionIdentityDigest ∨
        task.row.plannedArtifactId ≠ input.plannedArtifactId then .fail .conflict
    else pure ⟨task, inserted⟩

/-! ### Claiming -/

/-- A pending task, or one whose lease has expired. -/
def TaskState.claimable (now : DateTime) : TaskState → Bool
  | .pending => true
  | .leased lease => lease.expiresAt ≤ now.timestampNanos
  | _ => false

/-- The oldest claimable task that no other transaction has locked; ties go by tenant and
    identifier, the order of the table. -/
def claimCandidate (scope : Option Ulid) (now : DateTime) (locked : Key → Bool) (db : Db) :
    Option LeaseTask :=
  let candidates := db.tasks.entries.map fun e => (⟨(ofLex e.1).1, (ofLex e.1).2, e.2⟩ : LeaseTask)
  ((candidates.filter fun task =>
    (∀ tenant ∈ scope, task.tenantId = tenant) ∧ task.row.state.claimable now = true ∧
      locked (.task task.tenantId task.taskId) = false).insertionSort
    fun a b => a.row.createdAt ≤ b.row.createdAt).head?

/-- `CURRENT_TIMESTAMP + make_interval(secs => …)`. -/
def leaseExpiry (now : DateTime) (seconds : ℕ) : ℤ := now.timestampNanos + seconds * 1000000000

/-- The task as a claim leaves it. -/
def TaskRow.claimed (row : TaskRow) (lease : Lease) : TaskRow :=
  { row with state := .leased lease, claimCount := row.claimCount + 1 }

/-- The `UPDATE` of a claim, with its candidate selected by `FOR UPDATE SKIP LOCKED`: the counter
    has 63 bits and a lease identifier belongs to one task of a tenant. -/
def claimStatement (scope : Option Ulid) (worker leaseId : Ulid) (seconds : ℕ) :
    QueueStatement (Option LeaseTask) where
  tag := .plain
  exec now locked db :=
    match claimCandidate scope now locked db with
    | none => .ok ⟨none, [], []⟩
    | some task =>
      let row := task.row.claimed ⟨worker, leaseId, leaseExpiry now seconds⟩
      if 2 ^ 63 ≤ row.claimCount then .error .invalidValue
      else if db.anyTask task.tenantId fun id other => id ≠ task.taskId &&
          other.state.lease?.any fun lease => lease.id = leaseId then .error .conflict
      else .ok
        { value := some ⟨task.tenantId, task.taskId, row⟩
          locks := [(.task task.tenantId task.taskId, .exclusive),
            (.taskLease task.tenantId leaseId, .exclusive)]
          writes := [.task task.tenantId task.taskId row] }

/-- `PostgresLeaseQueue::claim`. -/
def claim (tenant worker leaseId : Ulid) (seconds : ℕ) : QueueTx (Option LeaseTask) :=
  if !validateDuration seconds then .fail .invalidValue
  else .ofStatement (claimStatement (some tenant) worker leaseId seconds)

/-- `PostgresLeaseQueue::claim_next`. -/
def claimNext (worker leaseId : Ulid) (seconds : ℕ) : QueueTx (Option LeaseTask) :=
  if !validateDuration seconds then .fail .invalidValue
  else .ofStatement (claimStatement none worker leaseId seconds)

/-! ### Renewing and completing -/

/-- The task, when the worker holds its lease and the lease has not expired. -/
def activeTask (db : Db) (now : DateTime) (tenant taskId worker leaseId : Ulid) :
    Option (TaskRow × Lease) :=
  match db.task? tenant taskId with
  | none => none
  | some row =>
    match row.state with
    | .leased lease =>
      if lease.owner = worker ∧ lease.id = leaseId ∧ now.timestampNanos < lease.expiresAt then
        some (row, lease)
      else none
    | _ => none

/-- The `UPDATE` of `renew`. -/
def renewStatement (tenant taskId worker leaseId : Ulid) (seconds : ℕ) :
    QueueStatement LeaseTask where
  tag := .plain
  exec now _ db :=
    match activeTask db now tenant taskId worker leaseId with
    | none => .error .conflict
    | some (row, lease) =>
      let row := { row with state := .leased { lease with expiresAt := leaseExpiry now seconds } }
      .ok ⟨⟨tenant, taskId, row⟩, [(.task tenant taskId, .exclusive)], [.task tenant taskId row]⟩

/-- `PostgresLeaseQueue::renew`. -/
def renew (tenant taskId worker leaseId : Ulid) (seconds : ℕ) : QueueTx LeaseTask :=
  if !validateDuration seconds then .fail .invalidValue
  else .ofStatement (renewStatement tenant taskId worker leaseId seconds)

/-- `fetch_by_id`. -/
def fetchById (tenant taskId : Ulid) : QueueStatement TaskRow where
  tag := .plain
  exec _ _ db :=
    match db.task? tenant taskId with
    | none => .error .notFound
    | some row => .ok ⟨row, [(.task tenant taskId, .exclusive)], []⟩

/-- The `UPDATE` of `complete`. -/
def completeStatement (tenant taskId worker leaseId : Ulid) (completionHash : ContentHash)
    (artifact : Ulid) : QueueStatement LeaseTask where
  tag := .plain
  exec now _ db :=
    match activeTask db now tenant taskId worker leaseId with
    | none => .error .conflict
    | some (row, lease) =>
      if row.plannedArtifactId ≠ artifact then .error .conflict
      else
        let row := { row with state := .completed lease completionHash }
        .ok ⟨⟨tenant, taskId, row⟩, [(.task tenant taskId, .exclusive)], [.task tenant taskId row]⟩

/-- `CompleteResult`. -/
structure CompleteResult where
  task : LeaseTask
  completed : Bool
  deriving DecidableEq

/-- `PostgresLeaseQueue::complete`. -/
def complete (tenant taskId worker leaseId : Ulid) (completionHash : ContentHash)
    (artifact : Ulid) : QueueTx CompleteResult := do
  let existing ← .ofStatement (fetchById tenant taskId)
  match existing.state with
  | .completed lease hash =>
    if lease.owner = worker ∧ lease.id = leaseId ∧ hash = completionHash ∧
        existing.plannedArtifactId = artifact then
      pure ⟨⟨tenant, taskId, existing⟩, false⟩
    else .fail .conflict
  | _ => do
    let task ← .ofStatement (completeStatement tenant taskId worker leaseId completionHash artifact)
    pure ⟨task, true⟩

/-! ### The queue as a system -/

/-- A call of a client. -/
inductive QueueCall
  | enqueue (input : EnqueueTask)
  | claim (tenant worker leaseId : Ulid) (seconds : ℕ)
  | claimNext (worker leaseId : Ulid) (seconds : ℕ)
  | renew (tenant taskId worker leaseId : Ulid) (seconds : ℕ)
  | complete (tenant taskId worker leaseId : Ulid) (completionHash : ContentHash) (artifact : Ulid)
  deriving DecidableEq

/-- The task a call renews or completes, and the worker and lease it does so for. -/
def QueueCall.onLease? : QueueCall → Option ((Ulid × Ulid) × (Ulid × Ulid))
  | .renew tenant taskId worker leaseId _ => some ((tenant, taskId), (worker, leaseId))
  | .complete tenant taskId worker leaseId _ _ => some ((tenant, taskId), (worker, leaseId))
  | _ => none

/-- The worker and the lease a call claims for. -/
def QueueCall.claimsFor? : QueueCall → Option (Ulid × Ulid)
  | .claim _ worker leaseId _ => some (worker, leaseId)
  | .claimNext worker leaseId _ => some (worker, leaseId)
  | _ => none

/-- The result of a call. -/
inductive QueueResult
  | enqueued (result : EnqueueResult)
  | claimed (task : Option LeaseTask)
  | renewed (task : LeaseTask)
  | completed (result : CompleteResult)
  deriving DecidableEq

/-- The transaction of a call; errors and results carry the call, so that a report names it. -/
def QueueCall.body (call : QueueCall) :
    Program DateTime Key Db Write (QueueCall × LeaseQueueError) Tag (QueueCall × QueueResult) :=
  match call with
  | .enqueue input => (Ficant.enqueue input).mapBoth (call, ·) fun r => (call, .enqueued r)
  | .claim tenant worker leaseId seconds =>
    (Ficant.claim tenant worker leaseId seconds).mapBoth (call, ·) fun r => (call, .claimed r)
  | .claimNext worker leaseId seconds =>
    (Ficant.claimNext worker leaseId seconds).mapBoth (call, ·) fun r => (call, .claimed r)
  | .renew tenant taskId worker leaseId seconds =>
    (Ficant.renew tenant taskId worker leaseId seconds).mapBoth (call, ·) fun r => (call, .renewed r)
  | .complete tenant taskId worker leaseId hash artifact =>
    (Ficant.complete tenant taskId worker leaseId hash artifact).mapBoth (call, ·)
      fun r => (call, .completed r)

/-! ### What a call does -/

/-- What a call that succeeds has done, between the committed states around it. -/
inductive QueueStep : QueueCall → QueueResult → Db → Db → Prop
  | inserted {input : EnqueueTask} {now : DateTime} {db : Db}
      (hkey : db.taskOfKey? input.tenantId input.taskKey = none)
      (htask : db.task? input.tenantId input.taskId = none) :
      QueueStep (.enqueue input)
        (.enqueued ⟨⟨input.tenantId, input.taskId, input.row now⟩, true⟩) db
        ((db.write (.taskKey input.tenantId input.taskKey input.taskId)).write
          (.task input.tenantId input.taskId (input.row now)))
  | replayed {input : EnqueueTask} {row : TaskRow} {db : Db}
      (hkey : db.taskOfKey? input.tenantId input.taskKey = some input.taskId)
      (htask : db.task? input.tenantId input.taskId = some row) :
      QueueStep (.enqueue input) (.enqueued ⟨⟨input.tenantId, input.taskId, row⟩, false⟩) db db
  | idle {call : QueueCall} {db : Db} (hcall : call.claimsFor?.isSome) :
      QueueStep call (.claimed none) db db
  | claimed {call : QueueCall} {tenant taskId : Ulid} {row : TaskRow} {lease : Lease}
      {now : DateTime} {db : Db}
      (hcall : (∃ seconds, call = .claim tenant lease.owner lease.id seconds) ∨
        ∃ seconds, call = .claimNext lease.owner lease.id seconds)
      (htask : db.task? tenant taskId = some row) (hclaimable : row.state.claimable now = true) :
      QueueStep call (.claimed (some ⟨tenant, taskId, row.claimed lease⟩)) db
        (db.write (.task tenant taskId (row.claimed lease)))
  | renewed {tenant taskId : Ulid} {seconds : ℕ} {row : TaskRow} {lease : Lease} {expiresAt : ℤ}
      {db : Db} (htask : db.task? tenant taskId = some row) (hlease : row.state = .leased lease) :
      QueueStep (.renew tenant taskId lease.owner lease.id seconds)
        (.renewed ⟨tenant, taskId, { row with state := .leased { lease with expiresAt } }⟩) db
        (db.write (.task tenant taskId { row with state := .leased { lease with expiresAt } }))
  | completed {tenant taskId artifact : Ulid} {row : TaskRow} {lease : Lease} {hash : ContentHash}
      {db : Db} (htask : db.task? tenant taskId = some row) (hlease : row.state = .leased lease) :
      QueueStep (.complete tenant taskId lease.owner lease.id hash artifact)
        (.completed ⟨⟨tenant, taskId, { row with state := .completed lease hash }⟩, true⟩) db
        (db.write (.task tenant taskId { row with state := .completed lease hash }))
  | repeated {tenant taskId artifact : Ulid} {row : TaskRow} {lease : Lease} {hash : ContentHash}
      {db : Db} (htask : db.task? tenant taskId = some row)
      (hstate : row.state = .completed lease hash) :
      QueueStep (.complete tenant taskId lease.owner lease.id hash artifact)
        (.completed ⟨⟨tenant, taskId, row⟩, false⟩) db db

/-- The index names the task of each key, every task is in the index, and the keys are well
    formed. -/
structure Db.Indexed (db : Db) : Prop where
  named : ∀ tenant key taskId, db.taskOfKey? tenant key = some taskId →
    ∃ row, db.task? tenant taskId = some row ∧ row.taskKey = key
  entered : ∀ tenant taskId row, db.task? tenant taskId = some row →
    db.taskOfKey? tenant row.taskKey = some taskId
  valid : ∀ tenant taskId row, db.task? tenant taskId = some row →
    validateTaskKey row.taskKey = true

/-- What every transaction of the queue keeps: the tasks are indexed, and a key that names a task
    names it for ever. -/
def queueRules : Rules Key Db Write Tag where
  inv := Db.Indexed
  guarantee db db' := ∀ tenant key taskId,
    db.taskOfKey? tenant key = some taskId → db'.taskOfKey? tenant key = some taskId
  rely L db db' := (∀ tenant key taskId,
    db.taskOfKey? tenant key = some taskId → db'.taskOfKey? tenant key = some taskId) ∧
    ∀ k m, (k, m) ∈ L → Db.agree k db db'
  condition _ _ := True
  guard := Write.guard

/-- The end of a transaction that does what its call says. -/
def queuePost : Post Key Db Write (QueueCall × QueueResult) := fun result F L W =>
  queueRules.Commits F L W ∧
    ∀ db, db.Indexed → F db → QueueStep result.1 result.2 db (writeAll db W)

/-- A task that the transaction has locked stays as it is. -/
theorem stable_task {L : List (Key × LockMode)} {tenant taskId : Ulid} {row : Option TaskRow}
    {m : LockMode} (h : (.task tenant taskId, m) ∈ L) :
    queueRules.Stable L fun db => db.task? tenant taskId = row := by
  intro db db' _ _ hrow hrely
  have hagree : db.task? tenant taskId = db'.task? tenant taskId := hrely.2 _ _ h
  rw [← hagree]
  exact hrow

/-- A free key that the transaction has locked stays free. -/
theorem stable_taskKey {L : List (Key × LockMode)} {tenant : Ulid} {key : String}
    {taskId : Option Ulid} {m : LockMode} (h : (.taskKey tenant key, m) ∈ L) :
    queueRules.Stable L fun db => db.taskOfKey? tenant key = taskId := by
  intro db db' _ _ hkey hrely
  have hagree : db.taskOfKey? tenant key = db'.taskOfKey? tenant key := hrely.2 _ _ h
  rw [← hagree]
  exact hkey

/-- A key that names a task names it for ever. -/
theorem stable_named {L : List (Key × LockMode)} {tenant : Ulid} {key : String} {taskId : Ulid} :
    queueRules.Stable L fun db => db.taskOfKey? tenant key = some taskId :=
  fun _ _ _ _ hkey hrely => hrely.1 _ _ _ hkey

/-- Replacing a task by one of the same key keeps the index. -/
theorem Db.Indexed.write_task {db : Db} (h : db.Indexed) {tenant taskId : Ulid} {row row' : TaskRow}
    (htask : db.task? tenant taskId = some row) (hkey : row'.taskKey = row.taskKey) :
    (db.write (.task tenant taskId row')).Indexed := by
  -- The new row has the key of the old one, so the index still names it.
  refine ⟨fun t key i hi => ?_, fun t i r hr => ?_, fun t i r hr => ?_⟩
  · simp only [taskOfKey?_write, task?_write] at hi ⊢
    obtain ⟨r, hr, hrkey⟩ := h.named t key i hi
    by_cases heq : t = tenant ∧ i = taskId
    · obtain ⟨rfl, rfl⟩ := heq
      rw [if_pos ⟨rfl, rfl⟩]
      rw [htask] at hr
      obtain rfl := Option.some.inj hr
      exact ⟨row', rfl, hkey.trans hrkey⟩
    · rw [if_neg heq]
      exact ⟨r, hr, hrkey⟩
  · simp only [taskOfKey?_write, task?_write] at hr ⊢
    split at hr
    · rename_i heq
      obtain ⟨rfl, rfl⟩ := heq
      obtain rfl := Option.some.inj hr
      rw [hkey]
      exact h.entered _ _ _ htask
    · exact h.entered t i r hr
  · simp only [task?_write] at hr
    split at hr
    · obtain rfl := Option.some.inj hr
      rw [hkey]
      exact h.valid _ _ _ htask
    · exact h.valid t i r hr

/-- Entering a new task under a free key keeps the index. -/
theorem Db.Indexed.insert_task {db : Db} (h : db.Indexed) {tenant taskId : Ulid} {row : TaskRow}
    (hkey : db.taskOfKey? tenant row.taskKey = none) (htask : db.task? tenant taskId = none)
    (hvalid : validateTaskKey row.taskKey = true) :
    ((db.write (.taskKey tenant row.taskKey taskId)).write (.task tenant taskId row)).Indexed := by
  -- Neither the task nor its key was there, so nothing that was indexed changes.
  refine ⟨fun t key i hi => ?_, fun t i r hr => ?_, fun t i r hr => ?_⟩
  · simp only [taskOfKey?_write, task?_write] at hi ⊢
    split at hi
    · rename_i heq
      obtain ⟨rfl, rfl⟩ := heq
      obtain rfl := Option.some.inj hi
      exact ⟨row, if_pos ⟨rfl, rfl⟩, rfl⟩
    · obtain ⟨r, hr, hrkey⟩ := h.named t key i hi
      have hne : ¬(t = tenant ∧ i = taskId) := by
        rintro ⟨rfl, rfl⟩
        rw [htask] at hr
        cases hr
      exact ⟨r, (if_neg hne).trans hr, hrkey⟩
  · simp only [taskOfKey?_write, task?_write] at hr ⊢
    split at hr
    · rename_i heq
      obtain ⟨rfl, rfl⟩ := heq
      obtain rfl := Option.some.inj hr
      exact if_pos ⟨rfl, rfl⟩
    · have hentered := h.entered t i r hr
      have hne : ¬(t = tenant ∧ r.taskKey = row.taskKey) := by
        rintro ⟨rfl, heq⟩
        rw [heq, hkey] at hentered
        cases hentered
      rw [if_neg hne]
      exact hentered
  · simp only [task?_write] at hr
    split at hr
    · obtain rfl := Option.some.inj hr
      exact hvalid
    · exact h.valid t i r hr

/-- A transaction that writes one task it has locked commits. -/
theorem commits_task {L : List (Key × LockMode)} {tenant taskId : Ulid} {row row' : TaskRow}
    (hlock : (.task tenant taskId, .exclusive) ∈ L) (hkey : row'.taskKey = row.taskKey) :
    queueRules.Commits (fun db => db.task? tenant taskId = some row) L [.task tenant taskId row'] := by
  refine ⟨fun w hw => ?_, fun db hdb htask => ⟨hdb.write_task htask hkey, ?_⟩⟩
  · obtain rfl := List.mem_singleton.mp hw
    exact hlock
  · intro t key i hi
    simpa using hi

/-- A transaction that writes nothing commits. -/
theorem commits_nil {F : Db → Prop} {L : List (Key × LockMode)} : queueRules.Commits F L [] :=
  ⟨by simp, fun _ hdb _ => ⟨hdb, fun _ _ _ h => h⟩⟩

/-! ### Outlines -/

/-- The candidate of a claim is a claimable task of the table. -/
theorem claimCandidate_eq_some {scope : Option Ulid} {now : DateTime} {locked : Key → Bool} {db : Db}
    {task : LeaseTask} (h : claimCandidate scope now locked db = some task) :
    db.task? task.tenantId task.taskId = some task.row ∧ task.row.state.claimable now = true ∧
      ∀ tenant ∈ scope, task.tenantId = tenant := by
  have hmem := List.mem_of_mem_head? h
  rw [List.mem_insertionSort, List.mem_filter, decide_eq_true_eq] at hmem
  obtain ⟨hentry, hscope, hclaimable, -⟩ := hmem
  obtain ⟨⟨key, row⟩, he, rfl⟩ := List.mem_map.mp hentry
  exact ⟨SortedMap.mem_entries_iff.mp he, hclaimable, hscope⟩

/-- Both claim statements, over one tenant or over every tenant, run to the claim postcondition. -/
theorem runs_claimStatement {scope : Option Ulid} {worker leaseId : Ulid} {seconds : ℕ}
    {call : QueueCall} (hidle : call.claimsFor?.isSome)
    (hcall : ∀ tenant, (∀ t ∈ scope, tenant = t) →
      (∃ s, call = .claim tenant worker leaseId s) ∨ ∃ s, call = .claimNext worker leaseId s) :
    (Program.ofStatement (claimStatement scope worker leaseId seconds)).Runs queueRules
      (fun task => queuePost (call, .claimed task)) (fun _ => True) [] [] := by
  intro now locked db hdb _ _ eff he
  simp only [claimStatement, writeAll_nil] at he
  split at he
  · obtain rfl := Except.ok.inj he
    exact ⟨fun _ => True, trivial, fun _ _ _ _ _ _ => trivial, commits_nil,
      fun _ _ _ => .idle hidle⟩
  · rename_i task hcandidate
    split at he
    · cases he
    split at he
    · cases he
    obtain rfl := Except.ok.inj he
    obtain ⟨htask, hclaimable, hscope⟩ := claimCandidate_eq_some hcandidate
    refine ⟨fun db => db.task? task.tenantId task.taskId = some task.row, htask,
      stable_task (m := .exclusive) (by simp), commits_task (by simp) rfl, fun db _ htask => ?_⟩
    exact .claimed (hcall task.tenantId hscope) htask hclaimable

/-- A claim within one tenant meets its postcondition when it returns. -/
theorem runs_claim (tenant worker leaseId : Ulid) (seconds : ℕ) :
    (claim tenant worker leaseId seconds).Runs queueRules
      (fun task => queuePost (.claim tenant worker leaseId seconds, .claimed task))
      (fun _ => True) [] [] :=
  Program.runs_ite_fail fun _ => runs_claimStatement rfl fun t ht =>
    .inl ⟨seconds, by rw [ht tenant rfl]⟩

/-- A claim over every tenant meets its postcondition when it returns. -/
theorem runs_claimNext (worker leaseId : Ulid) (seconds : ℕ) :
    (claimNext worker leaseId seconds).Runs queueRules
      (fun task => queuePost (.claimNext worker leaseId seconds, .claimed task))
      (fun _ => True) [] [] :=
  Program.runs_ite_fail fun _ => runs_claimStatement rfl fun _ _ => .inr ⟨seconds, rfl⟩

/-- An active task is leased to the worker. -/
theorem activeTask_eq_some {db : Db} {now : DateTime} {tenant taskId worker leaseId : Ulid}
    {row : TaskRow} {lease : Lease}
    (h : activeTask db now tenant taskId worker leaseId = some (row, lease)) :
    db.task? tenant taskId = some row ∧ row.state = .leased lease ∧ lease.owner = worker ∧
      lease.id = leaseId := by
  unfold activeTask at h
  split at h
  · cases h
  rename_i found htask
  split at h
  swap
  · cases h
  rename_i held hstate
  split at h
  swap
  · cases h
  rename_i hactive
  obtain ⟨rfl, rfl⟩ := Prod.mk.inj (Option.some.inj h)
  exact ⟨htask, hstate, hactive.1, hactive.2.1⟩

/-- A renewal meets its postcondition when it returns. -/
theorem runs_renew (tenant taskId worker leaseId : Ulid) (seconds : ℕ) :
    (renew tenant taskId worker leaseId seconds).Runs queueRules
      (fun task => queuePost (.renew tenant taskId worker leaseId seconds, .renewed task))
      (fun _ => True) [] [] := by
  refine Program.runs_ite_fail fun _ => ?_
  intro now locked db hdb _ _ eff he
  simp only [renewStatement, writeAll_nil] at he
  split at he
  · cases he
  rename_i row lease hactive
  obtain rfl := Except.ok.inj he
  obtain ⟨htask, hstate, rfl, rfl⟩ := activeTask_eq_some hactive
  refine ⟨fun db => db.task? tenant taskId = some row, htask,
    stable_task (m := .exclusive) (by simp), commits_task (by simp) rfl, fun db _ htask => ?_⟩
  exact .renewed htask hstate

/-- A completion meets its postcondition when it returns. -/
theorem runs_complete (tenant taskId worker leaseId : Ulid) (hash : ContentHash)
    (artifact : Ulid) :
    (complete tenant taskId worker leaseId hash artifact).Runs queueRules
      (fun r => queuePost (.complete tenant taskId worker leaseId hash artifact, .completed r))
      (fun _ => True) [] [] := by
  intro now locked db hdb _ _ eff he
  simp only [fetchById, writeAll_nil] at he
  split at he
  · cases he
  rename_i row htask
  obtain rfl := Except.ok.inj he
  refine ⟨fun db => db.task? tenant taskId = some row, htask,
    stable_task (m := .exclusive) (by simp), ?_⟩
  simp only [List.nil_append, List.append_nil, Program.bind]
  split
  · rename_i lease stored hstate
    split
    · -- the retry of a completion that is already stored
      rename_i hsame
      obtain ⟨rfl, rfl, rfl, rfl⟩ := hsame
      exact ⟨commits_nil, fun db _ htask => .repeated htask hstate⟩
    · trivial
  · -- the row is locked since the first statement
    intro now locked db hdb htask _ eff he
    simp only [completeStatement, writeAll_nil] at he
    split at he
    · cases he
    rename_i found lease hactive
    split at he
    · cases he
    obtain rfl := Except.ok.inj he
    obtain ⟨hfound, hstate, rfl, rfl⟩ := activeTask_eq_some hactive
    refine ⟨fun db => db.task? tenant taskId = some found, hfound,
      stable_task (m := .exclusive) (by simp), ?_⟩
    exact ⟨commits_task (by simp) rfl, fun db _ htask => .completed htask hstate⟩

/-- An enqueue meets its postcondition when it returns. -/
theorem runs_enqueue (input : EnqueueTask) :
    (enqueue input).Runs queueRules (fun r => queuePost (.enqueue input, .enqueued r))
      (fun _ => True) [] [] := by
  refine Program.runs_ite_fail fun hvalid => ?_
  have hvalid : validateTaskKey input.taskKey = true := by simpa using hvalid
  intro now locked db hdb _ _ eff he
  simp only [insertTask, writeAll_nil] at he
  split at he
  · -- the key names a task already, so the transaction only reads
    obtain rfl := Except.ok.inj he
    refine ⟨fun _ => True, trivial, fun _ _ _ _ _ _ => trivial, ?_⟩
    intro now locked db hdb _ _ eff he
    simp only [fetchByKey, List.append_nil, writeAll_nil] at he
    split at he
    · cases he
    rename_i taskId hkey
    split at he
    · cases he
    rename_i row htask
    obtain rfl := Except.ok.inj he
    refine ⟨fun db => db.taskOfKey? input.tenantId input.taskKey = some taskId ∧
      db.task? input.tenantId taskId = some row, ⟨hkey, htask⟩,
      stable_named.and (stable_task (m := .exclusive) (by simp)), ?_⟩
    refine Program.runs_ite_fail fun hsame => ?_
    push Not at hsame
    obtain ⟨rfl, -⟩ := hsame
    exact ⟨commits_nil, fun db _ h => .replayed h.1 h.2⟩
  · rename_i hfree
    split at he
    · cases he
    rename_i habsent
    split at he
    · cases he
    split at he
    · cases he
    split at he
    · cases he
    obtain rfl := Except.ok.inj he
    rw [Option.not_isSome_iff_eq_none] at hfree habsent
    -- the key and the identifier stay free, because the insertion has locked them
    refine ⟨fun db => db.taskOfKey? input.tenantId input.taskKey = none ∧
      db.task? input.tenantId input.taskId = none, ⟨hfree, habsent⟩,
      (stable_taskKey (m := .exclusive) (by simp)).and (stable_task (m := .exclusive) (by simp)), ?_⟩
    intro now' locked db hdb hF _ eff he
    simp only [fetchByKey, List.nil_append, writeAll_cons, writeAll_nil, Db.store_write,
      Db.taskOfKey?_write, Db.task?_write, and_self, if_true] at he
    obtain rfl := Except.ok.inj he
    refine ⟨fun db => db.taskOfKey? input.tenantId input.taskKey = none ∧
      db.task? input.tenantId input.taskId = none, hF,
      (stable_taskKey (m := .exclusive) (by simp)).and (stable_task (m := .exclusive) (by simp)), ?_⟩
    refine Program.runs_ite_fail fun _ => ?_
    refine ⟨⟨fun w hw => ?_, fun db hdb h => ?_⟩, fun db _ h => ?_⟩
    · simp only [List.nil_append, List.append_nil, List.mem_cons, List.not_mem_nil, or_false] at hw
      rcases hw with rfl | rfl <;> simp [queueRules, Write.guard]
    · refine ⟨Db.Indexed.insert_task hdb h.1 h.2 hvalid, fun t key i hi => ?_⟩
      simp only [List.nil_append, List.append_nil, writeAll_cons, writeAll_nil, Db.store_write,
        Db.taskOfKey?_write]
      rw [if_neg]
      · exact hi
      · rintro ⟨rfl, rfl⟩
        rw [h.1] at hi
        cases hi
    · exact .inserted h.1 h.2

/-- Every call has an outline. -/
theorem runs_queueCall (call : QueueCall) :
    call.body.Runs queueRules queuePost (fun _ => True) [] [] := by
  cases call with
  | enqueue input => exact Program.runs_mapBoth.mpr (runs_enqueue input)
  | claim tenant worker leaseId seconds =>
    exact Program.runs_mapBoth.mpr (runs_claim tenant worker leaseId seconds)
  | claimNext worker leaseId seconds =>
    exact Program.runs_mapBoth.mpr (runs_claimNext worker leaseId seconds)
  | renew tenant taskId worker leaseId seconds =>
    exact Program.runs_mapBoth.mpr (runs_renew tenant taskId worker leaseId seconds)
  | complete tenant taskId worker leaseId hash artifact =>
    exact Program.runs_mapBoth.mpr (runs_complete tenant taskId worker leaseId hash artifact)

/-! ### Failures -/

/-- What an error of a call says about the state in which it is raised. -/
def queueFails : QueueCall × LeaseQueueError → Db → Prop
  | (.enqueue input, e), db => db.Indexed →
      (db.taskOfKey? input.tenantId input.taskKey).isSome → e = .conflict
  | (.renew _ _ _ _ seconds, e), _ => validateDuration seconds = true → e = .conflict
  | (.complete tenant taskId _ _ _ _, e), db => (db.task? tenant taskId).isSome → e = .conflict
  | _, _ => True

/-- The insert of a task writes nothing, or the task's row together with its key. -/
theorem insertTask_writes {input : EnqueueTask} {now : DateTime} {locked : Key → Bool} {db : Db}
    {eff : Effect Key Write Bool} (h : (insertTask input).exec now locked db = .ok eff) :
    eff.writes = [] ∨ ∃ row, eff.writes = [.taskKey input.tenantId input.taskKey input.taskId,
      .task input.tenantId input.taskId row] := by
  simp only [insertTask] at h
  split at h
  · obtain rfl := Except.ok.inj h
    exact .inl rfl
  split at h
  · cases h
  split at h
  · cases h
  split at h
  · cases h
  split at h
  · cases h
  · obtain rfl := Except.ok.inj h
    exact .inr ⟨_, rfl⟩

/-- An enqueue that fails has failed in one of the ways its failure condition lists. -/
theorem fails_enqueue (input : EnqueueTask) :
    (enqueue input).Fails (fun e => queueFails (.enqueue input, e)) [] := by
  unfold enqueue
  split
  · -- a stored key is well formed
    rename_i hinvalid
    intro db hdb hkey
    obtain ⟨taskId, hkey⟩ := Option.isSome_iff_exists.mp hkey
    obtain ⟨row, htask, hrow⟩ := hdb.named _ _ _ hkey
    have hvalid := hdb.valid _ _ _ htask
    rw [hrow] at hvalid
    simp [hvalid] at hinvalid
  · intro now locked db
    refine ⟨fun e he hdb hkey => ?_, fun eff he => ?_⟩
    · simp [insertTask, hkey] at he
    · have hwrites := insertTask_writes he
      intro now' locked' db'
      refine ⟨fun e he hdb hkey => ?_, fun eff' he' => ?_⟩
      · -- the key names a task, of the table or inserted by the transaction itself
        obtain ⟨taskId, hkey⟩ := Option.isSome_iff_exists.mp hkey
        obtain ⟨row, htask, -⟩ := hdb.named _ _ _ hkey
        rcases hwrites with hwrites | ⟨row', hwrites⟩
        · simp [fetchByKey, hwrites, hkey, htask] at he
        · simp [fetchByKey, hwrites] at he
      · show Program.Fails _ _ (if _ then _ else _)
        split
        · exact fun _ _ _ => rfl
        · trivial

/-- A renewal that fails has failed in one of the ways its failure condition lists. -/
theorem fails_renew (tenant taskId worker leaseId : Ulid) (seconds : ℕ) :
    (renew tenant taskId worker leaseId seconds).Fails
      (fun e => queueFails (.renew tenant taskId worker leaseId seconds, e)) [] := by
  unfold renew
  split
  · rename_i hinvalid
    intro db hvalid
    simp [hvalid] at hinvalid
  · intro now locked db
    refine ⟨fun e he _ => ?_, fun _ _ => trivial⟩
    simp only [renewStatement] at he
    split at he
    · exact (Except.error.inj he).symm
    · cases he

/-- A completion that fails has failed in one of the ways its failure condition lists. -/
theorem fails_complete (tenant taskId worker leaseId : Ulid) (hash : ContentHash) (artifact : Ulid) :
    (complete tenant taskId worker leaseId hash artifact).Fails
      (fun e => queueFails (.complete tenant taskId worker leaseId hash artifact, e)) [] := by
  intro now locked db
  -- The first statement fails only when the task is not there.
  refine ⟨fun e he htask => ?_, fun eff he => ?_⟩
  · simp only [fetchById, writeAll_nil] at he
    split at he
    · rename_i hnone
      rw [hnone] at htask
      cases htask
    · cases he
  · simp only [Program.bind]
    split
    · split
      · trivial
      · exact fun _ _ => rfl
    · intro now' locked' db'
      refine ⟨fun e he _ => ?_, fun _ _ => trivial⟩
      simp only [completeStatement] at he
      split at he
      · exact (Except.error.inj he).symm
      split at he
      · exact (Except.error.inj he).symm
      · cases he

/-- Every call fails as `queueFails` says. -/
theorem fails_queueCall (call : QueueCall) : call.body.Fails queueFails [] := by
  cases call with
  | enqueue input => exact (fails_enqueue input).mapBoth
  | renew tenant taskId worker leaseId seconds =>
    exact (fails_renew tenant taskId worker leaseId seconds).mapBoth
  | complete tenant taskId worker leaseId hash artifact =>
    exact (fails_complete tenant taskId worker leaseId hash artifact).mapBoth
  | claim | claimNext => exact Program.Fails.mapBoth (Program.fails_true _ _)

/-! ### Safety -/

/-- The worker and the lease that a task was last claimed with. -/
def TaskRow.holder? (row : TaskRow) : Option (Ulid × Ulid) :=
  row.state.lease?.map fun lease => (lease.owner, lease.id)

/-- A completed or failed task. -/
def TaskState.isTerminal : TaskState → Bool
  | .completed _ _ => true
  | .failed _ _ => true
  | _ => false

/-- The duration that a call asks for is admissible. -/
def QueueCall.validDuration : QueueCall → Bool
  | .renew _ _ _ _ seconds => validateDuration seconds
  | _ => true

/-- The task that a result hands to a worker. -/
def QueueResult.claimed? : QueueResult → Option (Ulid × Ulid)
  | .claimed (some task) => some (task.tenantId, task.taskId)
  | _ => none

/-- The states of the queue: any number of clients, statement by statement. -/
abbrev QueueSystem :=
  System DateTime Key Db Write (QueueCall × LeaseQueueError) Tag (QueueCall × QueueResult)

/-- The task that a turn hands to a worker. -/
def claimedBy (sys : QueueSystem) (a : Action DateTime QueueCall) : Option (Ulid × Ulid) :=
  match sys.report? a with
  | some (.ok (_, result)) => result.claimed?
  | _ => none

/-- A leased task written in another state of the same worker: no task loses its count or its
    holder, and a finished one stays as it is. -/
theorem Db.task?_write_leased {db : Db} {t i tenant taskId : Ulid} {found row : TaskRow}
    {lease : Lease} (state : TaskState) (hfound : db.task? t i = some found)
    (hlease : found.state = .leased lease)
    (hholder : state.lease?.map (fun lease => (lease.owner, lease.id)) = some (lease.owner, lease.id))
    (htask : db.task? tenant taskId = some row) :
    ∃ row', (db.write (.task t i { found with state })).task? tenant taskId = some row' ∧
      row'.claimCount = row.claimCount ∧ row'.holder? = row.holder? ∧
      (row.state.isTerminal = true → row' = row) := by
  simp only [Db.task?_write]
  by_cases heq : tenant = t ∧ taskId = i
  · obtain ⟨rfl, rfl⟩ := heq
    obtain rfl := Option.some.inj (hfound.symm.trans htask)
    refine ⟨_, if_pos ⟨rfl, rfl⟩, rfl, ?_, fun hterminal => ?_⟩
    · unfold TaskRow.holder?
      rw [hholder, hlease]
      rfl
    · rw [hlease] at hterminal
      cases hterminal
  · exact ⟨row, (if_neg heq).trans htask, rfl, rfl, fun _ => rfl⟩

/-- What a successful call leaves of a task: only a claim counts and hands over the lease, and a
    finished task stays as it is. -/
theorem QueueStep.row {call : QueueCall} {result : QueueResult} {db db' : Db}
    (h : QueueStep call result db db') {tenant taskId : Ulid} {row : TaskRow}
    (htask : db.task? tenant taskId = some row) :
    ∃ row', db'.task? tenant taskId = some row' ∧
      (if result.claimed? = some (tenant, taskId) then
        row'.claimCount = row.claimCount + 1 ∧ row'.holder? = call.claimsFor? ∧
          row.state.isTerminal = false
      else row'.claimCount = row.claimCount ∧ row'.holder? = row.holder? ∧
        (row.state.isTerminal = true → row' = row)) := by
  -- One case for each step: only the row the step names can change.
  cases h with
  | idle | replayed | repeated =>
    exact ⟨row, htask, by rw [if_neg (by simp [QueueResult.claimed?])]; exact ⟨rfl, rfl, fun _ => rfl⟩⟩
  | inserted hkey hnone =>
    refine ⟨row, ?_, by rw [if_neg (by simp [QueueResult.claimed?])]; exact ⟨rfl, rfl, fun _ => rfl⟩⟩
    simp only [Db.task?_write]
    rw [if_neg]
    · exact htask
    · rintro ⟨rfl, rfl⟩
      rw [hnone] at htask
      cases htask
  | @claimed _ t i found lease now _ hcall hfound hclaimable =>
    simp only [Db.task?_write, QueueResult.claimed?, Option.some.injEq, Prod.mk.injEq]
    -- A claim of another task leaves this row alone.
    by_cases heq : tenant = t ∧ taskId = i
    · obtain ⟨rfl, rfl⟩ := heq
      obtain rfl := Option.some.inj (hfound.symm.trans htask)
      refine ⟨_, if_pos ⟨rfl, rfl⟩, ?_⟩
      rw [if_pos ⟨rfl, rfl⟩]
      refine ⟨rfl, ?_, ?_⟩
      · rcases hcall with ⟨seconds, rfl⟩ | ⟨seconds, rfl⟩ <;> rfl
      · cases hstate : found.state <;> simp [hstate, TaskState.claimable, TaskState.isTerminal] at *
    · refine ⟨row, (if_neg heq).trans htask, ?_⟩
      rw [if_neg fun h => heq ⟨h.1.symm, h.2.symm⟩]
      exact ⟨rfl, rfl, fun _ => rfl⟩
  | @renewed _ _ _ _ lease expiresAt _ hfound hlease =>
    obtain ⟨row', htask', hkept⟩ :=
      Db.task?_write_leased (.leased { lease with expiresAt }) hfound hlease rfl htask
    exact ⟨row', htask', by rw [if_neg (by simp [QueueResult.claimed?])]; exact hkept⟩
  | @completed _ _ _ _ lease hash _ hfound hlease =>
    obtain ⟨row', htask', hkept⟩ :=
      Db.task?_write_leased (.completed lease hash) hfound hlease rfl htask
    exact ⟨row', htask', by rw [if_neg (by simp [QueueResult.claimed?])]; exact hkept⟩

/-- A call that renews or completes a task succeeds only for the holder of its lease. -/
theorem QueueStep.holder {call : QueueCall} {result : QueueResult} {db db' : Db}
    (h : QueueStep call result db db') {tenant taskId : Ulid} {pair : Ulid × Ulid}
    (hcall : call.onLease? = some ((tenant, taskId), pair)) :
    ∃ row, db.task? tenant taskId = some row ∧ row.holder? = some pair := by
  cases h with
  | inserted | replayed => cases hcall
  | idle hclaims => cases call <;> simp [QueueCall.onLease?, QueueCall.claimsFor?] at hcall hclaims
  | claimed hclaims =>
    rcases hclaims with ⟨seconds, rfl⟩ | ⟨seconds, rfl⟩ <;> cases hcall
  | renewed htask hlease =>
    obtain ⟨htarget, rfl⟩ := Prod.mk.inj (Option.some.inj hcall)
    obtain ⟨rfl, rfl⟩ := Prod.mk.inj htarget
    exact ⟨_, htask, by simp [TaskRow.holder?, hlease, TaskState.lease?]⟩
  | completed htask hlease =>
    obtain ⟨htarget, rfl⟩ := Prod.mk.inj (Option.some.inj hcall)
    obtain ⟨rfl, rfl⟩ := Prod.mk.inj htarget
    exact ⟨_, htask, by simp [TaskRow.holder?, hlease, TaskState.lease?]⟩
  | repeated htask hstate =>
    obtain ⟨htarget, rfl⟩ := Prod.mk.inj (Option.some.inj hcall)
    obtain ⟨rfl, rfl⟩ := Prod.mk.inj htarget
    exact ⟨_, htask, by simp [TaskRow.holder?, hstate, TaskState.lease?]⟩

/-- A call run on its own by someone else than the holder of the lease fails with a conflict. -/
theorem atomic_of_reclaimed {call : QueueCall} {db : Db} {tenant taskId : Ulid}
    {pair : Ulid × Ulid} {row : TaskRow} (hcall : call.onLease? = some ((tenant, taskId), pair))
    (hduration : call.validDuration = true) (htask : db.task? tenant taskId = some row)
    (hholder : row.holder? ≠ some pair) (now : DateTime) :
    call.body.atomic now db [] = .error (call, .conflict) := by
  -- No row under the old lease is active any more.
  have hinactive : ∀ worker leaseId, pair = (worker, leaseId) →
      activeTask db now tenant taskId worker leaseId = none := by
    rintro worker leaseId rfl
    refine Option.eq_none_iff_forall_ne_some.mpr fun ⟨found, lease⟩ hactive => hholder ?_
    obtain ⟨hfound, hstate, rfl, rfl⟩ := activeTask_eq_some hactive
    obtain rfl := Option.some.inj (hfound.symm.trans htask)
    simp [TaskRow.holder?, hstate, TaskState.lease?]
  cases call with
  | enqueue | claim | claimNext => cases hcall
  | renew t i worker leaseId seconds =>
    obtain ⟨htarget, hpair⟩ := Prod.mk.inj (Option.some.inj hcall)
    obtain ⟨rfl, rfl⟩ := Prod.mk.inj htarget
    have hvalid : validateDuration seconds = true := hduration
    simp [QueueCall.body, renew, hvalid, Program.ofStatement, Program.mapBoth, Program.atomic,
      renewStatement, hinactive worker leaseId hpair.symm, Except.mapError]
  | complete t i worker leaseId hash artifact =>
    obtain ⟨htarget, hpair⟩ := Prod.mk.inj (Option.some.inj hcall)
    obtain ⟨rfl, rfl⟩ := Prod.mk.inj htarget
    -- Completing reads the row first, then updates it under the lease it has lost.
    have hinactive := hinactive worker leaseId hpair.symm
    have hfetch : (fetchById t i).exec now (fun _ => false) db =
        .ok ⟨row, [(.task t i, .exclusive)], []⟩ := by simp [fetchById, htask]
    have hupdate : (completeStatement t i worker leaseId hash artifact).exec now (fun _ => false) db =
        .error .conflict := by simp [completeStatement, hinactive]
    simp only [QueueCall.body, complete, Program.ofStatement_bind, Program.mapBoth, Program.atomic,
      writeAll_nil, hfetch, Except.mapError, List.append_nil]
    split
    · rename_i lease stored hstate
      rw [if_neg]
      · rfl
      · rintro ⟨rfl, rfl, -⟩
        exact hholder (by simp [TaskRow.holder?, hstate, TaskState.lease?, ← hpair])
    · simp only [Program.mapBoth, Program.atomic, writeAll_nil, hupdate, Except.mapError]

/-- In a reachable state the tasks are indexed, and every transaction has an outline. -/
theorem queue_sound {start : Db} (hstart : start.Indexed) {clock : DateTime} {sys : QueueSystem}
    (hsys : System.Reachable QueueCall.body (fun _ _ => True) ⟨start, clock, ∅⟩ sys) :
    System.Sound queueRules queuePost sys := by
  have hrely : ∀ L db db', queueRules.guarantee db db' →
      (∀ k m, (k, m) ∈ L → Db.agree k db db') → queueRules.rely L db db' :=
    fun _ _ _ hguarantee hagree => ⟨hguarantee, hagree⟩
  exact System.Reachable.sound Db.agree Db.agree_refl Db.agree_trans Db.agree_write hrely
    (fun _ _ _ _ h => h.1) runs_queueCall (System.Sound.start hstart clock) hsys

/-- **Lease queue safety.**  Any number of clients run the calls of the queue statement by statement,
    interleaved in any way, while the clock advances.  In every state reached:

    * all renewals and completions of one task that could be reported now are of one worker and
      lease;
    * a turn adds one to the claim count of the task that it hands to a worker, changes no other
      count, and changes the holder of no other lease;
    * a completed or failed task is not handed out and stays as it is;
    * an enqueueing under a key that names a task reports that task and changes nothing, or reports a
      conflict;
    * who calls for a lease that someone else holds by now gets a conflict and changes nothing. -/
theorem leaseQueue_safe {start : Db} (hstart : start.Indexed) {clock : DateTime} {sys : QueueSystem}
    (hsys : System.Reachable QueueCall.body (fun _ _ => True) ⟨start, clock, ∅⟩ sys) :
    (∀ (a b : Action DateTime QueueCall) call call' result result' task pair pair',
      sys.report? a = some (.ok (call, result)) → sys.report? b = some (.ok (call', result')) →
      call.onLease? = some (task, pair) → call'.onLease? = some (task, pair') → pair = pair') ∧
    (∀ a sys', sys.step? QueueCall.body a = some sys' →
      ∀ tenant taskId row, sys.committed.task? tenant taskId = some row →
        ∃ row', sys'.committed.task? tenant taskId = some row' ∧
          (claimedBy sys a = some (tenant, taskId) →
            row'.claimCount = row.claimCount + 1 ∧ row.state.isTerminal = false) ∧
          (claimedBy sys a ≠ some (tenant, taskId) →
            row'.claimCount = row.claimCount ∧ row'.holder? = row.holder?) ∧
          (row.state.isTerminal = true → row' = row)) ∧
    (∀ (a : Action DateTime QueueCall) input,
      (sys.committed.taskOfKey? input.tenantId input.taskKey).isSome →
      (∀ result, sys.report? a = some (.ok (.enqueue input, result)) →
        ∃ row, sys.committed.taskOfKey? input.tenantId input.taskKey = some input.taskId ∧
          sys.committed.task? input.tenantId input.taskId = some row ∧
          result = .enqueued ⟨⟨input.tenantId, input.taskId, row⟩, false⟩ ∧
          ∀ sys', sys.step? QueueCall.body a = some sys' → sys'.committed = sys.committed) ∧
      ∀ error, sys.report? a = some (.error (.enqueue input, error)) → error = .conflict ∧
        ∀ sys', sys.step? QueueCall.body a = some sys' → sys'.committed = sys.committed) ∧
    (∀ call tenant taskId pair row, call.onLease? = some ((tenant, taskId), pair) →
      sys.committed.task? tenant taskId = some row → row.holder? ≠ some pair →
      (call.validDuration = true →
        ∀ now, call.body.atomic now sys.committed [] = .error (call, .conflict)) ∧
      (∀ (a : Action DateTime QueueCall) result, sys.report? a ≠ some (.ok (call, result))) ∧
      ∀ a error, sys.report? a = some (.error (call, error)) →
        (call.validDuration = true → error = .conflict) ∧
        ∀ sys', sys.step? QueueCall.body a = some sys' → sys'.committed = sys.committed) := by
  have hsound := queue_sound hstart hsys
  -- what a report says about the committed state around it
  have hok : ∀ (a : Action DateTime QueueCall) call result,
      sys.report? a = some (.ok (call, result)) →
      ∃ db', QueueStep call result sys.committed db' ∧
        ∀ sys', sys.step? QueueCall.body a = some sys' → sys'.committed = db' := by
    intro a call result hreport
    obtain ⟨F, L, W, hF, hpost, hstep⟩ := hsound.report_ok QueueCall.body hreport
    exact ⟨_, hpost.2 sys.committed hsound.inv hF, hstep⟩
  have herror : ∀ (a : Action DateTime QueueCall) error, sys.report? a = some (.error error) →
      queueFails error sys.committed ∧
        ∀ sys', sys.step? QueueCall.body a = some sys' → sys'.committed = sys.committed := by
    intro a error hreport
    refine ⟨hsys.report_error fails_queueCall rfl hreport, fun sys' hstep => ?_⟩
    rcases System.committed_of_step? hstep with h | ⟨r, hr⟩
    · exact h
    · rw [hreport] at hr
      cases hr
  refine ⟨?_, ?_, ?_, ?_⟩
  · intro a b call call' result result' task pair pair' ha hb hcall hcall'
    obtain ⟨_, hstep, -⟩ := hok a call result ha
    obtain ⟨_, hstep', -⟩ := hok b call' result' hb
    obtain ⟨row, htask, hholder⟩ := hstep.holder hcall
    obtain ⟨row', htask', hholder'⟩ := hstep'.holder hcall'
    obtain rfl := Option.some.inj (htask.symm.trans htask')
    exact Option.some.inj (hholder.symm.trans hholder')
  · intro a sys' hstep tenant taskId row htask
    by_cases hreport : ∃ r, sys.report? a = some (.ok r)
    · obtain ⟨⟨call, result⟩, hreport⟩ := hreport
      obtain ⟨db', hdone, hcommitted⟩ := hok a call result hreport
      have hclaimed : claimedBy sys a = result.claimed? := by simp [claimedBy, hreport]
      obtain ⟨row', htask', hrow⟩ := hdone.row htask
      rw [hclaimed, hcommitted sys' hstep]
      refine ⟨row', htask', fun hthis => ?_, fun hother => ?_, fun hterminal => ?_⟩
      · rw [if_pos hthis] at hrow
        exact ⟨hrow.1, hrow.2.2⟩
      · rw [if_neg hother] at hrow
        exact ⟨hrow.1, hrow.2.1⟩
      · split at hrow
        · rw [hrow.2.2] at hterminal
          cases hterminal
        · exact hrow.2.2 hterminal
    · -- a turn without a result changes nothing
      have hsame : sys'.committed = sys.committed :=
        (System.committed_of_step? hstep).resolve_right hreport
      have hclaimed : claimedBy sys a = none := by
        unfold claimedBy
        split
        · rename_i r h
          exact absurd ⟨_, h⟩ hreport
        · rfl
      rw [hclaimed, hsame]
      exact ⟨row, htask, by simp, fun _ => ⟨rfl, rfl⟩, fun _ => rfl⟩
  · intro a input hkey
    refine ⟨fun result hreport => ?_, fun error hreport => ?_⟩
    · obtain ⟨db', hdone, hcommitted⟩ := hok a _ result hreport
      cases hdone with
      | inserted hfree =>
        rw [hfree] at hkey
        cases hkey
      | @replayed _ row _ hnamed htask => exact ⟨row, hnamed, htask, rfl, hcommitted⟩
      | idle hclaims => cases hclaims
      | claimed hclaims => rcases hclaims with ⟨_, h⟩ | ⟨_, h⟩ <;> cases h
    · obtain ⟨hfails, hsame⟩ := herror a _ hreport
      exact ⟨hfails hsound.inv hkey, hsame⟩
  · intro call tenant taskId pair row hcall htask hholder
    refine ⟨fun hduration => atomic_of_reclaimed hcall hduration htask hholder, ?_, ?_⟩
    · intro a result hreport
      obtain ⟨_, hdone, -⟩ := hok a call result hreport
      obtain ⟨row', htask', hholder'⟩ := hdone.holder hcall
      obtain rfl := Option.some.inj (htask.symm.trans htask')
      exact hholder hholder'
    · intro a error hreport
      obtain ⟨hfails, hsame⟩ := herror a _ hreport
      refine ⟨fun hduration => ?_, hsame⟩
      cases call with
      | enqueue | claim | claimNext => cases hcall
      | renew => exact hfails hduration
      | complete t i =>
        obtain ⟨htarget, -⟩ := Prod.mk.inj (Option.some.inj hcall)
        obtain ⟨rfl, rfl⟩ := Prod.mk.inj htarget
        exact hfails (by rw [htask]; rfl)

namespace OneTask

def hash : ContentHash := .filled 0

def instant (seconds : ℕ) (h : seconds < 10000) : DateTime :=
  .ofSeconds seconds (by omega) (by omega)

/-- A pending task. -/
def row : TaskRow :=
  { runId := ⟨2⟩, nodeId := ⟨3⟩, graphDigest := hash, executionIdentityDigest := hash
    plannedArtifactId := ⟨4⟩, taskKey := "node", state := .pending, claimCount := 0
    createdAt := instant 0 (by decide) }

/-- A database with the pending task. -/
def db : Db := (default : Db).write (.taskKey ⟨1⟩ "node" ⟨5⟩) |>.write (.task ⟨1⟩ ⟨5⟩ row)

/-- The sample database keeps its indexes in step with its rows. -/
theorem indexed : db.Indexed :=
  Db.Indexed.insert_task
    ⟨fun _ _ _ h => (by cases h), fun _ _ _ h => (by cases h), fun _ _ _ h => (by cases h)⟩
    rfl rfl (by decide +kernel)

def start : QueueSystem := ⟨db, instant 0 (by decide), ∅⟩

/-- A worker claims the task for ten seconds; twenty seconds later another one claims it. -/
def schedule : List (Action DateTime QueueCall) :=
  [.start 0 (.claimNext ⟨6⟩ ⟨7⟩ 10), .statement 0, .commit 0, .tick (instant 20 (by decide)),
    .start 1 (.claim ⟨1⟩ ⟨8⟩ ⟨9⟩ 10), .statement 1, .commit 1]

end OneTask

/-- A worker that let its lease expire cannot complete the task once another worker has claimed
    it. -/
theorem leaseQueue_safe_reclaimed :
    ∃ sys, OneTask.start.run? QueueCall.body OneTask.schedule = some sys ∧
      ∀ now, (QueueCall.complete ⟨1⟩ ⟨5⟩ ⟨6⟩ ⟨7⟩ OneTask.hash ⟨4⟩).body.atomic now sys.committed [] =
        .error (.complete ⟨1⟩ ⟨5⟩ ⟨6⟩ ⟨7⟩ OneTask.hash ⟨4⟩, .conflict) := by
  obtain ⟨sys, hrun, hcheck⟩ := (Option.any_eq_true
    (fun sys => (sys.committed.task? ⟨1⟩ ⟨5⟩).any fun row => row.holder? ≠ some (⟨6⟩, ⟨7⟩)) _).mp
    (by decide +kernel : (OneTask.start.run? QueueCall.body OneTask.schedule).any _ = true)
  obtain ⟨row, htask, hholder⟩ := (Option.any_eq_true _ _).mp hcheck
  have hsafe := leaseQueue_safe OneTask.indexed (System.reachable_of_run? .refl hrun)
  exact ⟨sys, hrun, (hsafe.2.2.2 _ ⟨1⟩ ⟨5⟩ (⟨6⟩, ⟨7⟩) row rfl htask (of_decide_eq_true hholder)).1 rfl⟩

end Ficant
