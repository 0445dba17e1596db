import VllmCore.Scheduler.PassSteps
/-!
# Chunks of a prefill with Mamba layers

The state of a Mamba layer is cached at the end of a chunk only, so `schedule` cuts the
chunks of a prefill at block boundaries.  The last of these boundaries, the last cacheable
position, is never jumped over.  What lies behind it is not cut.
-/

namespace VllmCore

open Support

variable {D : Type}

namespace Scheduler

variable {config : SchedulerConfig D} {r : Request D} {budgets : Nat → Nat}

end Scheduler

end VllmCore
