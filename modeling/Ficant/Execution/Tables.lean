import Ficant.Lib.RelyGuarantee
import Ficant.Runtime.GraphExecution
import Ficant.Runtime.ReproducibilityIdentity

namespace Ficant

open Lib

/-!
# The execution tables

The tables that the graph-run repository and the lease queue read and write
(`migrations/postgresql/0004`, `0005`, `0011`, `0012`, `0025`), by primary key.

* A `payload` column holds the encoding of a value; the row holds the value itself, and the columns
  that repeat one of its fields are that field.
* The CHECK constraints on the shape of a task, a node execution and an intent are the constructors
  of their state types.
* The unique index of the tasks on their key is a table of its own: it names the task of each key.
* `Key` — what a transaction can lock: the primary key of a row, or an entry of a unique index.
* `Write` — the row a transaction leaves behind; `Write.guard` is the key that protects it. The
  journal of a run is protected by its sequence row.
-/

/-! ### Values -/

/-! ### Rows -/

/-- A row of `research.experiment_runs`. -/
structure RunRow where
  run : ExperimentRun
  idempotencyKey : String
  fingerprint : ContentHash
  deriving DecidableEq

/-- A row of `research.execution_identities`. -/
structure IdentityRow where
  ownerId : Ulid
  graphId : Ulid
  graphVersion : Version
  identity : ExecutionInstanceIdentity
  deriving DecidableEq

/-- A row of `research.execution_external_inputs`. -/
structure BindingRow where
  artifactId : Ulid
  contentHash : ContentHash
  deriving DecidableEq

/-- A row of `research.run_journal`. -/
structure JournalRow where
  event : RunJournal
  idempotencyKey : String
  fingerprint : ContentHash
  deriving DecidableEq

/-- A row of `core.idempotency_records`. -/
structure IdempotencyRow where
  fingerprint : ContentHash
  resultId : Ulid
  deriving DecidableEq

/-- A worker's lease of a task; the expiry is in nanoseconds since 1970. -/
structure Lease where
  owner : Ulid
  id : Ulid
  expiresAt : ℤ
  deriving DecidableEq

/-- The state of a task and the columns that go with it. -/
inductive TaskState
  | pending
  | leased (lease : Lease)
  | completed (lease : Lease) (completionHash : ContentHash)
  | failed (lease : Lease) (failureHash : ContentHash)
  deriving DecidableEq

/-- A row of `research.execution_tasks`. -/
structure TaskRow where
  runId : Ulid
  nodeId : Ulid
  graphDigest : ContentHash
  executionIdentityDigest : ContentHash
  plannedArtifactId : Ulid
  taskKey : String
  state : TaskState
  claimCount : ℕ
  createdAt : DateTime
  deriving DecidableEq

/-- The state of a node execution and the columns that go with it. -/
inductive NodeState
  | started
  | succeeded (artifactId : Ulid) (manifestHash : ContentHash) (manifest : List UInt8)
      (terminalSequence : ℕ) (terminalHash : ContentHash)
      (checkpointSequence : ℕ) (checkpointHash : ContentHash)
  | failed (failureHash : ContentHash) (terminalSequence : ℕ) (terminalHash : ContentHash)
  deriving DecidableEq

/-- A row of `research.node_executions`. -/
structure NodeRow where
  taskId : Ulid
  executionIdentityDigest : ContentHash
  state : NodeState
  startedSequence : ℕ
  startedHash : ContentHash
  deriving DecidableEq

/-- `OutputPublicationIntentState`. -/
inductive OutputPublicationIntentState
  | prepared | completed | abandoned
  deriving DecidableEq, Repr

/-- A row of `research.output_publication_intents`. -/
structure IntentRow where
  runId : Ulid
  nodeId : Ulid
  taskId : Ulid
  executionIdentityDigest : ContentHash
  plannedArtifactId : Ulid
  outputIdentity : ContentHash
  resultHash : ContentHash
  blobSize : ℕ
  formalEvidenceHash : ContentHash
  formalEvidence : List UInt8
  state : OutputPublicationIntentState
  deriving DecidableEq

/-! ### The database -/

/-- The tables, by primary key. The first component of every key is the tenant. -/
structure Db where
  runs : SortedMap (Ulid ×ₗ Ulid) RunRow
  graphs : SortedMap (Ulid ×ₗ Ulid ×ₗ ℕ) ResearchGraph
  identities : SortedMap (Ulid ×ₗ Ulid) IdentityRow
  bindings : SortedMap (Ulid ×ₗ Ulid ×ₗ String) BindingRow
  journal : SortedMap (Ulid ×ₗ Ulid ×ₗ ℕ) JournalRow
  sequences : SortedMap (Ulid ×ₗ Ulid) ℕ
  tasks : SortedMap (Ulid ×ₗ Ulid) TaskRow
  taskKeys : SortedMap (Ulid ×ₗ String) Ulid
  nodes : SortedMap (Ulid ×ₗ Ulid ×ₗ Ulid ×ₗ ℕ) NodeRow
  intents : SortedMap (Ulid ×ₗ Ulid) IntentRow
  idempotency : SortedMap (Ulid ×ₗ String ×ₗ String) IdempotencyRow

instance : Inhabited Db := ⟨⟨∅, ∅, ∅, ∅, ∅, ∅, ∅, ∅, ∅, ∅, ∅⟩⟩

namespace Db

variable (db : Db) (tenant run : Ulid)

/-- The run with that identifier. -/
def run? : Option RunRow := db.runs.get? (toLex (tenant, run))

/-- The graph of that identifier and version. -/
def graph? (graphId : Ulid) (version : ℕ) : Option ResearchGraph :=
  db.graphs.get? (toLex (tenant, toLex (graphId, version)))

/-- The execution identity of a run. -/
def identity? : Option IdentityRow := db.identities.get? (toLex (tenant, run))

/-- The next journal sequence of a run. -/
def sequence? : Option ℕ := db.sequences.get? (toLex (tenant, run))

/-- The task with that identifier. -/
def task? (taskId : Ulid) : Option TaskRow := db.tasks.get? (toLex (tenant, taskId))

/-- The task with that key, by the unique index. -/
def taskOfKey? (key : String) : Option Ulid := db.taskKeys.get? (toLex (tenant, key))

/-- One attempt of a node. -/
def node? (nodeId : Ulid) (attempt : ℕ) : Option NodeRow :=
  db.nodes.get? (toLex (tenant, toLex (run, toLex (nodeId, attempt))))

/-- The publication intent with that identifier. -/
def intent? (intentId : Ulid) : Option IntentRow := db.intents.get? (toLex (tenant, intentId))

/-- Whether a journal key belongs to the run. -/
def ofRun (key : Ulid ×ₗ Ulid ×ₗ ℕ) : Bool :=
  (ofLex key).1 = tenant ∧ (ofLex (ofLex key).2).1 = run

/-- The journal row of that sequence. -/
def journalRow? (sequence : ℕ) : Option JournalRow :=
  db.journal.get? (toLex (tenant, toLex (run, sequence)))

/-- The idempotency record of that scope and key. -/
def idempotency? (scope key : String) : Option IdempotencyRow :=
  db.idempotency.get? (toLex (tenant, toLex (scope, key)))

/-- The journal rows of a run, in order, with their sequences. -/
def journalRows : List (ℕ × RunJournal) :=
  (db.journal.entries.filter fun e => ofRun tenant run e.1).map fun e =>
    ((ofLex (ofLex e.1).2).2, e.2.event)

/-- `SELECT payload FROM research.run_journal … ORDER BY sequence`. -/
def journalOf : List RunJournal := (db.journalRows tenant run).map Prod.snd

end Db

/-! ### Locks and writes -/

/-- What can be locked: rows by primary key, and entries of the unique indexes. -/
inductive Key
  | run (tenant run : Ulid)
  | runIdempotency (tenant : Ulid) (key : String)
  | graph (tenant graphId : Ulid) (version : ℕ)
  | graphDigest (tenant : Ulid) (digest : ContentHash)
  | identity (tenant run : Ulid)
  | identityDigest (tenant : Ulid) (digest : ContentHash)
  | binding (tenant run : Ulid) (inputId : String)
  | journal (tenant run : Ulid) (sequence : ℕ)
  | journalEvent (tenant eventId : Ulid)
  | journalIdempotency (tenant : Ulid) (key : String)
  | journalHash (tenant : Ulid) (hash : ContentHash)
  | sequence (tenant run : Ulid)
  | task (tenant taskId : Ulid)
  | taskKey (tenant : Ulid) (key : String)
  | taskNode (tenant run nodeId : Ulid)
  | taskLease (tenant leaseId : Ulid)
  | node (tenant run nodeId : Ulid) (attempt : ℕ)
  | nodeTask (tenant taskId : Ulid) (attempt : ℕ)
  | intent (tenant intentId : Ulid)
  | intentNode (tenant run nodeId : Ulid)
  | intentTask (tenant taskId : Ulid)
  | idempotency (tenant : Ulid) (scope key : String)
  deriving DecidableEq

/-- The statements that a condition on runs names. -/
inductive Tag
  | plain
  | nodeStart (tenant run nodeId : Ulid) (attempt : ℕ)
  | journalInsert (tenant run : Ulid) (occurredAt : DateTime)
  deriving DecidableEq

/-- The locks a transaction takes. -/
abbrev Locks := List (Key × LockMode)

/-- A row written by its primary key. -/
inductive Write
  | run (tenant run : Ulid) (row : RunRow)
  | graph (tenant : Ulid) (row : ResearchGraph)
  | identity (tenant run : Ulid) (row : IdentityRow)
  | binding (tenant run : Ulid) (inputId : String) (row : BindingRow)
  | journal (tenant run : Ulid) (sequence : ℕ) (row : JournalRow)
  | sequence (tenant run : Ulid) (next : ℕ)
  | task (tenant taskId : Ulid) (row : TaskRow)
  | taskKey (tenant : Ulid) (key : String) (taskId : Ulid)
  | node (tenant run nodeId : Ulid) (attempt : ℕ) (row : NodeRow)
  | intent (tenant intentId : Ulid) (row : IntentRow)
  | idempotency (tenant : Ulid) (scope key : String) (row : IdempotencyRow)

namespace Write

/-- The key that protects a write: whoever holds it sees the row unchanged. -/
def guard : Write → Key
  | .run t r _ => .run t r
  | .graph t row => .graph t row.graphId row.version.value
  | .identity t r _ => .identity t r
  | .binding t r i _ => .binding t r i
  | .journal t r _ _ => .sequence t r
  | .sequence t r _ => .sequence t r
  | .task t i _ => .task t i
  | .taskKey t key _ => .taskKey t key
  | .node t r n a _ => .node t r n a
  | .intent t i _ => .intent t i
  | .idempotency t scope key _ => .idempotency t scope key

end Write

namespace Db

/-- The effect of one write. -/
def write (db : Db) : Write → Db
  | .run t r row => { db with runs := db.runs.insert (toLex (t, r)) row }
  | .graph t row =>
    { db with graphs := db.graphs.insert (toLex (t, toLex (row.graphId, row.version.value))) row }
  | .identity t r row => { db with identities := db.identities.insert (toLex (t, r)) row }
  | .binding t r i row => { db with bindings := db.bindings.insert (toLex (t, toLex (r, i))) row }
  | .journal t r q row => { db with journal := db.journal.insert (toLex (t, toLex (r, q))) row }
  | .sequence t r next => { db with sequences := db.sequences.insert (toLex (t, r)) next }
  | .task t i row => { db with tasks := db.tasks.insert (toLex (t, i)) row }
  | .taskKey t key i => { db with taskKeys := db.taskKeys.insert (toLex (t, key)) i }
  | .node t r n a row =>
    { db with nodes := db.nodes.insert (toLex (t, toLex (r, toLex (n, a)))) row }
  | .intent t i row => { db with intents := db.intents.insert (toLex (t, i)) row }
  | .idempotency t scope key row =>
    { db with idempotency := db.idempotency.insert (toLex (t, toLex (scope, key))) row }

instance : Store Db Write := ⟨Db.write⟩

/-! ### Lookups after a write -/

section Lookups

variable (db : Db) (w : Write) (t r : Ulid)

@[simp] theorem store_write : Store.write db w = db.write w := rfl

/-- **Lookup after a write.** A row of this table is found where it was written; so for all tables
    that follow. -/
@[simp] theorem run?_write : (db.write w).run? t r = match w with
    | .run t' r' row => if t = t' ∧ r = r' then some row else db.run? t r
    | _ => db.run? t r := by
  cases w <;> simp [write, run?, SortedMap.get?_insert]

@[simp] theorem identity?_write : (db.write w).identity? t r = match w with
    | .identity t' r' row => if t = t' ∧ r = r' then some row else db.identity? t r
    | _ => db.identity? t r := by
  cases w <;> simp [write, identity?, SortedMap.get?_insert]

@[simp] theorem sequence?_write : (db.write w).sequence? t r = match w with
    | .sequence t' r' next => if t = t' ∧ r = r' then some next else db.sequence? t r
    | _ => db.sequence? t r := by
  cases w <;> simp [write, sequence?, SortedMap.get?_insert]

@[simp] theorem graph?_write (g : Ulid) (v : ℕ) : (db.write w).graph? t g v = match w with
    | .graph t' row =>
      if t = t' ∧ g = row.graphId ∧ v = row.version.value then some row else db.graph? t g v
    | _ => db.graph? t g v := by
  cases w <;> simp [write, graph?, SortedMap.get?_insert]

@[simp] theorem task?_write (i : Ulid) : (db.write w).task? t i = match w with
    | .task t' i' row => if t = t' ∧ i = i' then some row else db.task? t i
    | _ => db.task? t i := by
  cases w <;> simp [write, task?, SortedMap.get?_insert]

@[simp] theorem taskOfKey?_write (key : String) : (db.write w).taskOfKey? t key = match w with
    | .taskKey t' key' i => if t = t' ∧ key = key' then some i else db.taskOfKey? t key
    | _ => db.taskOfKey? t key := by
  cases w <;> simp [write, taskOfKey?, SortedMap.get?_insert]

@[simp] theorem node?_write (n : Ulid) (a : ℕ) : (db.write w).node? t r n a = match w with
    | .node t' r' n' a' row =>
      if t = t' ∧ r = r' ∧ n = n' ∧ a = a' then some row else db.node? t r n a
    | _ => db.node? t r n a := by
  cases w <;> simp [write, node?, SortedMap.get?_insert]

@[simp] theorem journalRow?_write (q : ℕ) : (db.write w).journalRow? t r q = match w with
    | .journal t' r' q' row => if t = t' ∧ r = r' ∧ q = q' then some row else db.journalRow? t r q
    | _ => db.journalRow? t r q := by
  cases w <;> simp [write, journalRow?, SortedMap.get?_insert]

@[simp] theorem idempotency?_write (scope key : String) :
    (db.write w).idempotency? t scope key = match w with
    | .idempotency t' scope' key' row =>
      if t = t' ∧ scope = scope' ∧ key = key' then some row else db.idempotency? t scope key
    | _ => db.idempotency? t scope key := by
  cases w <;> simp [write, idempotency?, SortedMap.get?_insert]

@[simp] theorem intent?_write (i : Ulid) : (db.write w).intent? t i = match w with
    | .intent t' i' row => if t = t' ∧ i = i' then some row else db.intent? t i
    | _ => db.intent? t i := by
  cases w <;> simp [write, intent?, SortedMap.get?_insert]

variable {db w t r}

/-- A write guarded by another key than the run's sequence leaves its journal alone. -/
theorem journalRows_write_of_guard (h : w.guard ≠ .sequence t r) :
    (db.write w).journalRows t r = db.journalRows t r := by
  cases w with
  | journal t' r' q row =>
    have hkey : ofRun t r (toLex (t', toLex (r', q))) = false := by
      rw [ofRun, decide_eq_false_iff_not]
      rintro ⟨rfl, rfl⟩
      exact h rfl
    simp only [journalRows, write]
    rw [SortedMap.filter_insert_of_not (p := ofRun t r) _ _ hkey]
  | _ => rfl

end Lookups

/-! ### What a lock protects -/

/-- Two databases that agree on everything a key protects. -/
def agree : Key → Db → Db → Prop
  | .run t r, db, db' => db.run? t r = db'.run? t r
  | .graph t g v, db, db' => db.graph? t g v = db'.graph? t g v
  | .identity t r, db, db' => db.identity? t r = db'.identity? t r
  | .sequence t r, db, db' =>
    db.sequence? t r = db'.sequence? t r ∧ db.journalRows t r = db'.journalRows t r
  | .task t i, db, db' => db.task? t i = db'.task? t i
  | .taskKey t key, db, db' => db.taskOfKey? t key = db'.taskOfKey? t key
  | .node t r n a, db, db' => db.node? t r n a = db'.node? t r n a
  | .intent t i, db, db' => db.intent? t i = db'.intent? t i
  | .idempotency t scope key, db, db' => db.idempotency? t scope key = db'.idempotency? t scope key
  | _, _, _ => True

/-- Tables agree with themselves. -/
theorem agree_refl (k : Key) (db : Db) : agree k db db := by
  cases k <;> simp [agree]

/-- Agreement is passed on. -/
theorem agree_trans (k : Key) (a b c : Db) (hab : agree k a b) (hbc : agree k b c) :
    agree k a c := by
  cases k with
  | sequence t r => exact ⟨hab.1.trans hbc.1, hab.2.trans hbc.2⟩
  | run | graph | identity | task | taskKey | node | intent | idempotency => exact hab.trans hbc
  | _ => trivial

/-- A write changes only what its guard protects. -/
theorem agree_write (k : Key) (db : Db) (w : Write) (h : w.guard ≠ k) :
    agree k db (Store.write db w) := by
  rw [store_write]
  -- A write that is not guarded by the key touches none of the rows the key protects.
  cases k with
  | run t r =>
    cases w <;> simp [agree]
    rintro rfl rfl
    exact absurd rfl h
  | graph t g v =>
    cases w <;> simp [agree]
    rintro rfl rfl rfl
    exact absurd rfl h
  | identity t r =>
    cases w <;> simp [agree]
    rintro rfl rfl
    exact absurd rfl h
  | sequence t r =>
    refine ⟨?_, (journalRows_write_of_guard h).symm⟩
    cases w <;> simp
    rintro rfl rfl
    exact absurd rfl h
  | task t i =>
    cases w <;> simp [agree]
    rintro rfl rfl
    exact absurd rfl h
  | taskKey t key =>
    cases w <;> simp [agree]
    rintro rfl rfl
    exact absurd rfl h
  | node t r n a =>
    cases w <;> simp [agree]
    rintro rfl rfl rfl rfl
    exact absurd rfl h
  | intent t i =>
    cases w <;> simp [agree]
    rintro rfl rfl
    exact absurd rfl h
  | idempotency t scope key =>
    cases w <;> simp [agree]
    rintro rfl rfl rfl
    exact absurd rfl h
  | _ => trivial

end Db

end Ficant
