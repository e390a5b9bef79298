import Ficant.Lib.SortedMap

namespace Lib

/-!
# Transactions at READ COMMITTED

Programs of database statements, with their atomic and their interleaved semantics.

* `Program` — a transaction: statements in sequence, ending in a commit (`ret`) or a roll-back
  (`fail`).  Each statement sees the last committed state with the transaction's own writes, may
  lock keys until the end of the transaction, and queues writes for the commit.
* `Program.atomic` — the transaction run alone.
* `System.step?` — any number of transactions taking turns, statement by statement.  A statement
  whose locks conflict with another transaction's waits; a transaction may be cut off at any point.
-/

/-- How a row is locked: `FOR SHARE`, or `FOR UPDATE` and every write. -/
inductive LockMode
  | share | exclusive
  deriving DecidableEq, Repr

/-- What a statement does when it succeeds. -/
structure Effect (κ ω α : Type) where
  value : α
  locks : List (κ × LockMode)
  writes : List ω

/-- A database statement: given the transaction's start time, the keys that other transactions
    have locked and the state it reads. The tag names the statement. -/
structure Statement (T κ σ ω ε τ α : Type) where
  tag : τ
  exec : T → (κ → Bool) → σ → Except ε (Effect κ ω α)

/-- A transaction. -/
inductive Program (T κ σ ω ε τ : Type) (α : Type) : Type 1
  | ret (a : α)
  | fail (e : ε)
  | exec {β : Type} (st : Statement T κ σ ω ε τ β) (next : β → Program T κ σ ω ε τ α)

/-- A state that writes change. -/
class Store (σ : Type) (ω : outParam Type) where
  write : σ → ω → σ

/-- The writes of a transaction, in order. -/
def writeAll {σ ω : Type} [Store σ ω] (s : σ) (W : List ω) : σ := W.foldl Store.write s

section WriteAll

variable {σ ω : Type} [Store σ ω] (s : σ)

@[simp] theorem writeAll_nil : writeAll s ([] : List ω) = s := rfl

@[simp] theorem writeAll_cons (w : ω) (W : List ω) :
    writeAll s (w :: W) = writeAll (Store.write s w) W := rfl

end WriteAll

variable {T κ σ ω ε τ ι ρ : Type} {α β : Type}

namespace Program

/-- Sequencing. -/
def bind : Program T κ σ ω ε τ α → (α → Program T κ σ ω ε τ β) → Program T κ σ ω ε τ β
  | .ret a, f => f a
  | .fail e, _ => .fail e
  | .exec st next, f => .exec st fun b => (next b).bind f

instance : Monad (Program T κ σ ω ε τ) where
  pure := .ret
  bind := Program.bind

/-- A transaction of one statement. -/
def ofStatement (st : Statement T κ σ ω ε τ α) : Program T κ σ ω ε τ α := .exec st .ret

/-- A check that does not look at the database. -/
def ofExcept : Except ε α → Program T κ σ ω ε τ α
  | .ok a => .ret a
  | .error e => .fail e

@[simp] theorem pure_bind (a : α) (f : α → Program T κ σ ω ε τ β) :
    (pure a : Program T κ σ ω ε τ α) >>= f = f a := rfl

@[simp] theorem fail_bind (e : ε) (f : α → Program T κ σ ω ε τ β) :
    (Program.fail e : Program T κ σ ω ε τ α) >>= f = .fail e := rfl

@[simp] theorem ofStatement_bind (st : Statement T κ σ ω ε τ α) (f : α → Program T κ σ ω ε τ β) :
    Program.ofStatement st >>= f = .exec st f := rfl

/-- The transaction with its errors and its result rewritten. -/
def mapBoth {δ : Type} (f : ε → δ) (g : α → β) : Program T κ σ ω ε τ α → Program T κ σ ω δ τ β
  | .ret a => .ret (g a)
  | .fail e => .fail (f e)
  | .exec st next =>
    .exec ⟨st.tag, fun now locked s => (st.exec now locked s).mapError f⟩ fun b =>
      (next b).mapBoth f g

/-- The transaction run with nothing else going on: its result and its writes. -/
def atomic [Store σ ω] (now : T) (s : σ) :
    Program T κ σ ω ε τ α → List ω → Except ε (α × List ω)
  | .ret a, W => .ok (a, W)
  | .fail e, _ => .error e
  | .exec st next, W =>
    match st.exec now (fun _ => false) (writeAll s W) with
    | .error e => .error e
    | .ok eff => atomic now s (next eff.value) (W ++ eff.writes)

end Program

/-! ### Interleaved transactions -/

/-- A transaction in progress. -/
structure Thread (T κ σ ω ε τ ρ : Type) : Type 1 where
  now : T
  locks : List (κ × LockMode)
  writes : List ω
  rest : Program T κ σ ω ε τ ρ

/-- The committed state, the clock, and the transactions in progress. -/
structure System (T κ σ ω ε τ ρ : Type) : Type 1 where
  committed : σ
  clock : T
  threads : SortedMap ℕ (Thread T κ σ ω ε τ ρ)

/-- One turn: the clock advances, or one transaction starts, runs its next statement, commits, or
    is rolled back. -/
inductive Action (T ι : Type)
  | tick (t : T)
  | start (id : ℕ) (call : ι)
  | statement (id : ℕ)
  | commit (id : ℕ)
  | abort (id : ℕ)

namespace System

variable [DecidableEq κ]

/-- Whether a transaction other than `id` holds a lock on the key in a mode that conflicts. -/
def conflicts (sys : System T κ σ ω ε τ ρ) (id : ℕ) (k : κ) (mode : LockMode) : Bool :=
  sys.threads.entries.any fun e => e.1 != id &&
    e.2.locks.any fun l => l.1 = k && (mode == .exclusive || l.2 == .exclusive)

/-- The next statement of a transaction. An error rolls it back, a lock conflict makes it wait. -/
def runStatement [Store σ ω] (sys : System T κ σ ω ε τ ρ) (id : ℕ) (th : Thread T κ σ ω ε τ ρ) :
    Option (System T κ σ ω ε τ ρ) :=
  match th.rest with
  | .exec st next =>
    match st.exec th.now (fun k => sys.conflicts id k .exclusive)
        (writeAll sys.committed th.writes) with
    | .error _ => some { sys with threads := sys.threads.erase id }
    | .ok eff =>
      if eff.locks.any fun l => sys.conflicts id l.1 l.2 then none
      else some { sys with
        threads := sys.threads.insert id
          { th with
            locks := th.locks ++ eff.locks
            writes := th.writes ++ eff.writes
            rest := next eff.value } }
  | _ => none

/-- One turn of the system, where it is possible. -/
def step? [Store σ ω] [LE T] [DecidableLE T] (body : ι → Program T κ σ ω ε τ ρ)
    (sys : System T κ σ ω ε τ ρ) : Action T ι → Option (System T κ σ ω ε τ ρ)
  | .tick t => if sys.clock ≤ t then some { sys with clock := t } else none
  | .start id call =>
    if (sys.threads.get? id).isSome then none
    else some { sys with threads := sys.threads.insert id ⟨sys.clock, [], [], body call⟩ }
  | .statement id => (sys.threads.get? id).bind fun th => sys.runStatement id th
  | .commit id =>
    (sys.threads.get? id).bind fun th =>
      match th.rest with
      | .ret _ =>
        some { sys with
          committed := writeAll sys.committed th.writes
          threads := sys.threads.erase id }
      | _ => none
  | .abort id =>
    if (sys.threads.get? id).isSome then some { sys with threads := sys.threads.erase id } else none

/-- The statement a turn runs, if any, meets the condition in the state it reads. -/
def Meets [Store σ ω] (condition : τ → σ → Prop) (sys : System T κ σ ω ε τ ρ) :
    Action T ι → Prop
  | .statement id => ∀ th, sys.threads.get? id = some th →
      match th.rest with
      | .exec st _ => condition st.tag (writeAll sys.committed th.writes)
      | _ => True
  | _ => True

/-- The states the system reaches by turns whose statements all meet the condition. -/
inductive Reachable [Store σ ω] [LE T] [DecidableLE T] (body : ι → Program T κ σ ω ε τ ρ)
    (condition : τ → σ → Prop) (start : System T κ σ ω ε τ ρ) : System T κ σ ω ε τ ρ → Prop
  | refl : Reachable body condition start start
  | step {sys sys' : System T κ σ ω ε τ ρ} {a : Action T ι} :
      Reachable body condition start sys → sys.Meets condition a → sys.step? body a = some sys' →
      Reachable body condition start sys'

/-- A whole schedule. -/
def run? [Store σ ω] [LE T] [DecidableLE T] (body : ι → Program T κ σ ω ε τ ρ)
    (sys : System T κ σ ω ε τ ρ) : List (Action T ι) → Option (System T κ σ ω ε τ ρ)
  | [] => some sys
  | a :: as => (sys.step? body a).bind fun sys' => sys'.run? body as

omit [DecidableEq κ] in
/-- Every action meets the condition that asks for nothing. -/
theorem meets_true [Store σ ω] (sys : System T κ σ ω ε τ ρ) (a : Action T ι) :
    sys.Meets (fun _ _ => True) a := by
  cases a with
  | statement id =>
    intro th _
    split <;> trivial
  | _ => trivial

/-- A schedule leads to a reachable state. -/
theorem reachable_of_run? [Store σ ω] [LE T] [DecidableLE T] {body : ι → Program T κ σ ω ε τ ρ}
    {start sys sys' : System T κ σ ω ε τ ρ} {as : List (Action T ι)}
    (hsys : Reachable body (fun _ _ => True) start sys) (h : sys.run? body as = some sys') :
    Reachable body (fun _ _ => True) start sys' := by
  induction as generalizing sys with
  | nil => exact Option.some.inj h ▸ hsys
  | cons a as ih =>
    obtain ⟨next, hnext, h⟩ := Option.bind_eq_some_iff.mp h
    exact ih (.step hsys (meets_true sys a) hnext) h

/-- Whether the statement a turn runs, if any, passes a test of the state it reads. -/
def passes [Store σ ω] (test : τ → σ → Bool) (sys : System T κ σ ω ε τ ρ) : Action T ι → Bool
  | .statement id => (sys.threads.get? id).all fun th =>
      match th.rest with
      | .exec st _ => test st.tag (writeAll sys.committed th.writes)
      | _ => true
  | _ => true

/-- A whole schedule whose statements all pass a test. -/
def runPassing? [Store σ ω] [LE T] [DecidableLE T] (test : τ → σ → Bool)
    (body : ι → Program T κ σ ω ε τ ρ) (sys : System T κ σ ω ε τ ρ) :
    List (Action T ι) → Option (System T κ σ ω ε τ ρ)
  | [] => some sys
  | a :: as =>
    if sys.passes test a then (sys.step? body a).bind fun sys' => sys'.runPassing? test body as
    else none

omit [DecidableEq κ] in
/-- A test that implies a condition shows that an action meets it. -/
theorem meets_of_passes [Store σ ω] {test : τ → σ → Bool} {condition : τ → σ → Prop}
    (htest : ∀ t s, test t s = true → condition t s) {sys : System T κ σ ω ε τ ρ} {a : Action T ι}
    (h : sys.passes test a = true) : sys.Meets condition a := by
  cases a with
  | statement id =>
    intro th hget
    simp only [passes, hget, Option.all_some] at h
    split at h
    · exact htest _ _ h
    · trivial
  | _ => trivial

/-- A schedule that passes a test leads to a state that is reachable under a condition the test
    implies. -/
theorem reachable_of_runPassing? [Store σ ω] [LE T] [DecidableLE T] {test : τ → σ → Bool}
    {condition : τ → σ → Prop} (htest : ∀ t s, test t s = true → condition t s)
    {body : ι → Program T κ σ ω ε τ ρ} {start sys sys' : System T κ σ ω ε τ ρ}
    {as : List (Action T ι)} (hsys : Reachable body condition start sys)
    (h : sys.runPassing? test body as = some sys') : Reachable body condition start sys' := by
  induction as generalizing sys with
  | nil => exact Option.some.inj h ▸ hsys
  | cons a as ih =>
    simp only [runPassing?] at h
    split at h
    · rename_i hpasses
      obtain ⟨next, hnext, h⟩ := Option.bind_eq_some_iff.mp h
      exact ih (.step hsys (meets_of_passes htest hpasses) hnext) h
    · cases h

end System

end Lib
