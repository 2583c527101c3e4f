import TileArchive.Cache.Basic

/-!
# `TileArchive.Cache.Session`: tasks that share loads

A session is a cache together with tasks that wait for loads, one step at a time. A task
asks for a key when it starts. If that starts a load, the task owns it, and the outcome of
the load is decided from outside (`decideLoad`), as a rule through its owner (`resolve`).

* `start`, `poll` and `drop` begin a task, look at it, and give it up.
* `load` is a task whose outcome is decided beforehand and which is looked at only once.

## What is assumed of a shared load

Tasks wait for one computation together. What is relied on is what such shared computations
promise in general:

* It is carried on by whoever looks at it. It makes no progress of its own, so a load that
  nobody looks at ends for nobody.
* The first look that finds it finished fixes its outcome (`settled`). Every waiter gets
  that outcome, then and later, whatever `decideLoad` says afterwards.
* It lives as long as someone waits for it. When the last waiter gives up it is gone, and
  the next request for the key starts another.

A look is one indivisible step: it reads the outcome and tells the cache. Between two steps
of a session anything may happen, and a history is a list of such steps in any order, so
every interleaving of tasks at these points is among the histories.
-/

set_option autoImplicit false

namespace TileArchive

/-- A load that tasks wait for. As long as no waiter has seen an outcome, the one decided
last counts; from the first look on the outcome is fixed. -/
structure SharedLoad (V E : Type) where
  /-- The outcome as decided so far; it may still be replaced. -/
  decided : Option (Except E V)
  /-- The outcome that a waiter has seen; it stays. -/
  settled : Option (Except E V)

/-- A task that waits for a load. It knows the key and the number of the load it was given
when it asked, and it names both whenever it reports to the cache. -/
structure Task (K : Type) where
  key : K
  load : Nat
  /-- Whether the task started the load. -/
  owner : Bool
deriving DecidableEq, Repr

/-- What a look at a task shows. A task whose load has no outcome yet goes on waiting, and
any other is over with the outcome. -/
inductive Look (V E : Type) where
  | pending
  | done (outcome : Except E V)

/-- A look at a task, and whether the task had started a load of its own. The second part
lets an observer count the calls of loaders without seeing the cache. -/
structure Report (V E : Type) where
  look : Look V E
  loaded : Bool

/-- A cache, the loads that were started, and the tasks that wait. Loads are never taken off
the list, so the number of a load stays its index, however many are started later. The tasks
have different names: starting one under a name in use replaces the one before. -/
structure Session (K V E : Type) where
  cache : Cache K V
  /-- The loads by number. -/
  loads : List (SharedLoad V E)
  /-- The waiting tasks by name. -/
  tasks : List (String × Task K)

namespace Session

variable {K V E : Type} [DecidableEq K]

/-- A session without tasks. -/
def new (cache : Cache K V) : Session K V E := ⟨cache, [], []⟩

/-- Changes the cache. -/
def withCache (s : Session K V E) (cache : Cache K V) : Session K V E := { s with cache }

/-- The waiting task with a name. -/
def task? (s : Session K V E) (name : String) : Option (Task K) :=
  (s.tasks.find? fun t => t.1 = name).map (·.2)

/-- Forgets a task. -/
def removeTask (s : Session K V E) (name : String) : Session K V E :=
  { s with tasks := s.tasks.filter fun t => t.1 ≠ name }

/-- The outcome that a look at a load would find. -/
def outcome? (s : Session K V E) (load : Nat) : Option (Except E V) :=
  s.loads[load]? >>= fun l => l.settled <|> l.decided

/-- A load has been seen with an outcome. -/
def settle (s : Session K V E) (load : Nat) (outcome : Except E V) : Session K V E :=
  { s with loads := s.loads.modify load fun l => { l with settled := some outcome } }

/-- A waiter looks at its load. If there is an outcome, the look settles it and reports it
to the cache; whether the report has an effect there is for `Cache.finish` to say. -/
def look (s : Session K V E) (t : Task K) : Session K V E × Look V E :=
  match s.outcome? t.load with
  | none => (s, .pending)
  | some outcome =>
    let s := s.settle t.load outcome
    (s.withCache (s.cache.finish t.key t.load outcome), .done outcome)

/-- Asks for a key. Either the value is there, or the caller waits from now on. A load that
is started gets the next place in the list of loads, which is its number. -/
def ask (s : Session K V E) (key : K) (decided : Option (Except E V)) :
    Session K V E × (V ⊕ Task K) :=
  match s.cache.request key with
  | (cache, .hit value) => (s.withCache cache, .inl value)
  | (cache, .joined load) => (s.withCache cache, .inr ⟨key, load, false⟩)
  | (cache, .started load) =>
    ({ s with cache, loads := s.loads ++ [⟨decided, none⟩] }, .inr ⟨key, load, true⟩)

/-- A waiter gives up. The load itself stays in the list: others may still wait for it, and
its number is never given to another load. -/
def abandon (s : Session K V E) (t : Task K) : Session K V E :=
  s.withCache (s.cache.withdraw t.key t.load)

/-- Gives up a task, and says whether it was waiting. -/
def drop (s : Session K V E) (name : String) : Session K V E × Bool :=
  match s.task? name with
  | none => (s, false)
  | some t => ((s.removeTask name).abandon t, true)

/-- Begins a task and looks at it. A task of the same name is given up first. -/
def start (s : Session K V E) (name : String) (key : K) : Session K V E × Report V E :=
  match (s.drop name).1.ask key none with
  | (s, .inl value) => (s, ⟨.done (.ok value), false⟩)
  | (s, .inr t) =>
    match s.look t with
    | (s, .done outcome) => (s, ⟨.done outcome, t.owner⟩)
    | (s, .pending) => ({ s with tasks := (name, t) :: s.tasks }, ⟨.pending, t.owner⟩)

/-- Looks at a waiting task. -/
def poll (s : Session K V E) (name : String) : Session K V E × Option (Report V E) :=
  match s.task? name with
  | none => (s, none)
  | some t =>
    match s.look t with
    | (s, .done outcome) => (s.removeTask name, some ⟨.done outcome, t.owner⟩)
    | (s, .pending) => (s, some ⟨.pending, t.owner⟩)

/-- Decides the outcome of a load. -/
def decideLoad (s : Session K V E) (load : Nat) (outcome : Except E V) : Session K V E :=
  { s with loads := s.loads.modify load fun l => { l with decided := some outcome } }

/-- Decides the outcome of the load that a task owns, and says whether the task was
waiting. -/
def resolve (s : Session K V E) (name : String) (outcome : Except E V) :
    Session K V E × Bool :=
  match s.task? name with
  | none => (s, false)
  | some t =>
    if t.owner then (s.decideLoad t.load outcome, true) else (s, true)

/-- Asks for a key with the outcome of a load at hand, looks once, and gives up if that was
not enough. -/
def load (s : Session K V E) (key : K) (outcome : Except E V) : Session K V E × Report V E :=
  match s.ask key (some outcome) with
  | (s, .inl value) => (s, ⟨.done (.ok value), false⟩)
  | (s, .inr t) =>
    match s.look t with
    | (s, .done outcome) => (s, ⟨.done outcome, t.owner⟩)
    | (s, .pending) => (s.abandon t, ⟨.pending, t.owner⟩)

end Session

end TileArchive
