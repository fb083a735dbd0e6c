/-!
# Gates

A gate lets a bounded number of tasks be inside at the same time.  A task that comes while no place
is free waits.  A place that gets free is granted to the waiting task with the least number, which
takes it when its turn comes.  A task that finds itself cancelled before it is inside goes away, and
gives back the place it was granted.
-/

namespace Runbook

/-- Where a task stands at a gate.  `α` is the state of a task inside and `β` what became of it. -/
inductive Stage (α β : Type) where
  /-- The task has not come yet. -/
  | fresh
  /-- It waits for a place. -/
  | waiting
  /-- It was granted a place. -/
  | granted
  /-- It is inside. -/
  | inside (a : α)
  /-- It is over. -/
  | ended (b : β)

/-- A gate with its free places and its tasks. -/
structure Gate (α β : Type) where
  /-- The places nobody was granted. -/
  free : Nat
  /-- The tasks by their numbers. -/
  stages : List (Stage α β)

/-- What a task finds at the gate when its turn comes. -/
inductive Admission (α : Type) where
  /-- It goes inside. -/
  | admitted
  /-- It is inside already. -/
  | inside (a : α)
  /-- It has to wait. -/
  | held
  /-- It is over, or there is no such task. -/
  | gone

/-- The gate after a turn, and the task that was granted a place. -/
structure Gate.Call (α β : Type) where
  /-- The gate. -/
  gate : Gate α β
  /-- What the task found. -/
  admission : Admission α
  /-- The task that was granted a place. -/
  granted : Option Nat

namespace Stage

variable {α β : Type}

/-- The task waits. -/
def isWaiting : Stage α β → Bool
  | waiting => true
  | _ => false

/-- The task has a place. -/
def hasPlace : Stage α β → Bool
  | granted => true
  | inside _ => true
  | _ => false

/-- The task is inside. -/
def isInside : Stage α β → Bool
  | inside _ => true
  | _ => false

/-- The task has not been inside. -/
def isOutside : Stage α β → Bool
  | inside _ => false
  | ended _ => false
  | _ => true

/-- What became of the task, if it is over. -/
def outcome? : Stage α β → Option β
  | ended b => some b
  | _ => none

end Stage

namespace Gate

variable {α β : Type}

/-- At least one task may be inside. -/
def places (bound : Nat) : Nat := max 1 bound

/-- No gate can be made with more places. -/
def limit : Nat := 2305843009213693951

/-- A gate for `n` tasks. -/
def ofBound (bound n : Nat) : Gate α β := ⟨places bound, List.replicate n .fresh⟩

/-- One more task. -/
def enroll (g : Gate α β) : Gate α β := { g with stages := g.stages ++ [.fresh] }

/-- Puts a task to a stage. -/
def put (g : Gate α β) (i : Nat) (s : Stage α β) : Gate α β := { g with stages := g.stages.set i s }

/-- A place gets free, for the first task that waits. -/
def release (g : Gate α β) : Gate α β × Option Nat :=
  match g.stages.findIdx? (·.isWaiting) with
  | some j => (g.put j .granted, some j)
  | none => ({ g with free := g.free + 1 }, none)

/-- A task with a place is over. -/
def leave (g : Gate α β) (i : Nat) (b : β) : Gate α β × Option Nat := (g.put i (.ended b)).release

/-- The turn of a task.  `away` is what becomes of one that goes away. -/
def call (g : Gate α β) (i : Nat) (cancelled : Bool) (away : β) : Call α β :=
  match g.stages[i]? with
  | some .fresh =>
      if cancelled then ⟨g.put i (.ended away), .gone, none⟩
      else
        match g.free with
        | 0 => ⟨g.put i .waiting, .held, none⟩
        | n + 1 => ⟨({ g with free := n } : Gate α β).put i .granted, .admitted, none⟩
  | some .waiting =>
      if cancelled then ⟨g.put i (.ended away), .gone, none⟩ else ⟨g, .held, none⟩
  | some .granted =>
      if cancelled then
        let (g, j) := g.leave i away
        ⟨g, .gone, j⟩
      else ⟨g, .admitted, none⟩
  | some (.inside a) => ⟨g, .inside a, none⟩
  | _ => ⟨g, .gone, none⟩

/-- Every task is over. -/
def isEmpty (g : Gate α β) : Bool := g.stages.all fun s => s.outcome?.isSome

/-- What became of the tasks that are over. -/
def outcomes (g : Gate α β) : List β := g.stages.filterMap (·.outcome?)

end Gate
end Runbook
