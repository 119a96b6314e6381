import LinuseFs.Computation.Run

/-!
# The accept loop and the connection threads

`server_init`, `attend_connection` and `remove_thread_from_actual_threads` of `server.c`
as steps over the list `connection_threads`.  What is between `lock` and `unlock` is one
step; the size test, which takes no lock, is one step with the `accept` after it, and
`pthread_create` is one step.  A thread may run to its end before the accept loop takes
its next step.

A thread id is never `NULL`, so a `list_get` past the end of the list matches no id; and
an id is not handed out twice.
-/

set_option autoImplicit false

namespace LinuseFs.Model

/-- `MAX_THREADS`. SRCLINE: server.h:8 -/
abbrev maxThreads : ℕ := 6

/-- Where the loop of `server_init` stands. SRCLINE: server.c:30-42 -/
inductive LoopState (τ : Type)
  /-- Before the test of the list size. -/
  | idle
  /-- A connection was accepted, its thread is not created. -/
  | accepted
  /-- The thread was created, its id is not in the list. -/
  | created (tid : τ)
  deriving DecidableEq, Repr

/-- The state shared by the loop and the threads: the list, the position of the loop, the
ids handed out, and those whose thread has not yet run
`remove_thread_from_actual_threads`. -/
structure Connections (τ : Type) where
  connectionThreads : List τ
  loop : LoopState τ
  handedOut : List τ
  alive : List τ
  deriving DecidableEq, Repr

/-- The state after `list_create`. SRCLINE: server.c:19 -/
def Connections.initial {τ : Type} : Connections τ :=
  { connectionThreads := [], loop := .idle, handedOut := [], alive := [] }

/-- The steps of the loop and of the threads. -/
inductive ConnectionStep (τ : Type)
  | accept
  | create (tid : τ)
  | listAdd (tid : τ)
  | remove (tid : τ)
  deriving DecidableEq, Repr

section

variable {τ : Type} [DecidableEq τ]

/-- One round of the loop of `remove_thread_from_actual_threads`.
SRCLINE: server.c:182-183 -/
def removeAt (tidToRemove : τ) (connectionThreads : List τ) (threadNum : ℕ) : List τ :=
  if connectionThreads[threadNum]? = some tidToRemove then
    connectionThreads.eraseIdx threadNum
  else connectionThreads

/-- `remove_thread_from_actual_threads`. SRCLINE: server.c:179-187 -/
def removeThreadFromActualThreads (tidToRemove : τ) (connectionThreads : List τ) : List τ :=
  (List.range maxThreads).foldl (removeAt tidToRemove) connectionThreads

/-- One step; `none` when it cannot be taken. -/
def Connections.next (s : Connections τ) : ConnectionStep τ → Option (Connections τ)
  | .accept =>
    if s.loop = .idle ∧ s.connectionThreads.length < maxThreads then
      some { s with loop := .accepted }
    else none
  | .create tid =>
    if s.loop = .accepted ∧ tid ∉ s.handedOut then
      some { s with
        loop := .created tid
        handedOut := s.handedOut ++ [tid]
        alive := s.alive ++ [tid] }
    else none
  | .listAdd tid =>
    if s.loop = .created tid then
      some { s with
        connectionThreads := s.connectionThreads ++ [tid]
        loop := .idle }
    else none
  | .remove tid =>
    if tid ∈ s.alive then
      some { s with
        connectionThreads := removeThreadFromActualThreads tid s.connectionThreads
        alive := s.alive.erase tid }
    else none

/-- The steps as a relation. -/
def Connections.step (s : Connections τ) (a : ConnectionStep τ) (s' : Connections τ) : Prop :=
  s.next a = some s'

instance (s : Connections τ) (a : ConnectionStep τ) (s' : Connections τ) :
    Decidable (s.step a s') :=
  inferInstanceAs (Decidable (s.next a = some s'))

end

end LinuseFs.Model
