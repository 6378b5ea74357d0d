/-!
# Activities

An activity is a piece of work that changes a shared state and sleeps now and then.  It is a tree
that says what happens next: it is done, or it makes a step on the state, or it waits.  Time is only
what is waited for; no clock is kept, because the order in which two sleepers wake follows from how
long each still has to wait.

Two activities run side by side by merging their trees.  The first runs until it waits, then the
second does, and then the time of the shorter wait passes for both; of two that wake together the
first goes first.
-/

namespace Colloquy

/-- Work with a result of type `α` on a shared state of type `σ`. -/
inductive Activity (σ α : Type) where
  | done (result : α)
  /-- Changes the state by `act` and goes on as `next` says for the state before that. -/
  | step (act : σ → σ) (next : σ → Activity σ α)
  /-- Goes on after some milliseconds. -/
  | wait (ms : Nat) (next : Activity σ α)

namespace Activity

variable {σ τ α β : Type}

/-- A wait that is none when there is no time to wait. -/
def sleep (ms : Nat) (next : Activity σ α) : Activity σ α := if ms = 0 then next else wait ms next

/-- Changes the state. -/
def modify (act : σ → σ) : Activity σ Unit := step act fun _ => done ()

/-- Goes on as the state says. -/
def inspect (next : σ → Activity σ α) : Activity σ α := step id next

/-- Goes on with the result of an activity. -/
def bind : Activity σ α → (α → Activity σ β) → Activity σ β
  | done a, f => f a
  | step act next, f => step act fun s => (next s).bind f
  | wait ms next, f => wait ms (next.bind f)

/-- Changes the result of an activity. -/
def map (f : α → β) (x : Activity σ α) : Activity σ β := x.bind fun a => done (f a)

/-- Makes an activity of a part of the state one of the whole state. -/
def lift (get : τ → σ) (set : σ → τ → τ) : Activity σ α → Activity τ α
  | done a => done a
  | step act next => step (fun t => set (act (get t)) t) fun t => (next (get t)).lift get set
  | wait ms next => wait ms (next.lift get set)

/-- The state and the result in the end. -/
def run : Activity σ α → σ → σ × α
  | done a, s => (s, a)
  | step act next, s => (next s).run (act s)
  | wait _ next, s => next.run s

/-! ## Side by side -/

/-- Runs the second activity while the first still has to wait; `resume` runs what is left of the
second beside what is left of the first. -/
def during (resume : Activity σ β → Activity σ (α × β)) : Nat → Activity σ β → Activity σ (α × β)
  | ms, done b => wait ms (resume (done b))
  | ms, step act next => step act fun s => during resume ms (next s)
  | ms, wait n next =>
    if ms < n then wait ms (resume (wait (n - ms) next))
    else if n < ms then wait n (during resume (ms - n) next)
    else wait ms (resume next)
termination_by structural _ y => y

/-- Runs two activities side by side. -/
def beside : Activity σ α → Activity σ β → Activity σ (α × β)
  | done a, y => y.map fun b => (a, b)
  | step act next, y => step act fun s => (next s).beside y
  | wait ms next, y => during next.beside ms y

/-- Runs several activities side by side, with their results in order. -/
def together : List (Activity σ α) → Activity σ (List α)
  | [] => done []
  | x :: rest => (x.beside (together rest)).map fun (a, as) => a :: as

/-- Runs several activities one after the other, with their results in order. -/
def inOrder : List (Activity σ α) → Activity σ (List α)
  | [] => done []
  | x :: rest => x.bind fun a => (inOrder rest).map fun as => a :: as

/-! ## Breaking off -/

/-- Breaks an activity off when it takes longer than a time.  What is due at the very end of the
time still happens. -/
def within : Nat → Activity σ α → Activity σ (Option α)
  | _, done a => done (some a)
  | limit, step act next => step act fun s => within limit (next s)
  | limit, wait ms next =>
    if ms ≤ limit then wait ms (within (limit - ms) next) else sleep limit (done none)
termination_by structural _ x => x

/-- Breaks an activity off as soon as it would wait while a condition holds. -/
def unlessWaiting (stop : σ → Bool) : Activity σ α → Activity σ (Option α)
  | done a => done (some a)
  | step act next => step act fun s => (next s).unlessWaiting stop
  | wait ms next =>
    inspect fun s => if stop s then done none else wait ms (next.unlessWaiting stop)

/-- Breaks an activity off when a condition holds before it starts or whenever it waits. -/
def guarded (stop : σ → Bool) (x : Activity σ α) : Activity σ (Option α) :=
  inspect fun s => if stop s then done none else x.unlessWaiting stop

end Activity

end Colloquy
