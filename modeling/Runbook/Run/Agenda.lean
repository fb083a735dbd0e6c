/-!
# The agenda

Tasks take turns.  The agenda holds the tasks that are ready, in the order of their turns, and those
that sleep, in the order in which they fell asleep, some of them until a point in time.  A task that
is woken goes to the end of those that are ready, once.  When nothing is ready the sleepers that are
due first wake up together.
-/

namespace Runbook

/-- A task that sleeps. -/
structure Sleeper (κ : Type) where
  /-- The task. -/
  task : κ
  /-- The time in milliseconds at which it wakes up by itself. -/
  due : Option Int
  deriving DecidableEq, Repr

/-- The tasks that are ready and those that sleep. -/
structure Agenda (κ : Type) where
  /-- The ready tasks, in the order of their turns. -/
  ready : List κ
  /-- The sleeping tasks, in the order in which they fell asleep. -/
  sleepers : List (Sleeper κ)
  deriving DecidableEq, Repr

namespace Agenda

variable {κ : Type} [DecidableEq κ]

/-- The agenda with nothing on it. -/
def empty : Agenda κ := ⟨[], []⟩

/-- A task gets ready. -/
def wake (a : Agenda κ) (k : κ) : Agenda κ :=
  ⟨if k ∈ a.ready then a.ready else a.ready ++ [k], a.sleepers.filter (·.task ≠ k)⟩

/-- Tasks get ready, one after the other. -/
def wakeAll (a : Agenda κ) (ks : List κ) : Agenda κ := ks.foldl wake a

/-- The sleepers among some tasks get ready, in the order in which they fell asleep. -/
def rouse (a : Agenda κ) (among : κ → Bool) : Agenda κ :=
  a.wakeAll ((a.sleepers.map (·.task)).filter among)

/-- A task falls asleep. -/
def sleep (a : Agenda κ) (k : κ) (due : Option Int) : Agenda κ :=
  { a with sleepers := a.sleepers ++ [⟨k, due⟩] }

/-- A task keeps its turn. -/
def again (a : Agenda κ) (k : κ) : Agenda κ := { a with ready := k :: a.ready }

/-- The task whose turn it is. -/
def turn? (a : Agenda κ) : Option (κ × Agenda κ) :=
  match a.ready with
  | [] => none
  | k :: ks => some (k, { a with ready := ks })

/-- The first time at which a sleeper is due. -/
def nextDue? (a : Agenda κ) : Option Int := (a.sleepers.filterMap (·.due)).min?

/-- The sleepers that are due at a time get ready. -/
def fire (a : Agenda κ) (time : Int) : Agenda κ :=
  a.wakeAll ((a.sleepers.filter (·.due == some time)).map (·.task))

end Agenda
end Runbook
