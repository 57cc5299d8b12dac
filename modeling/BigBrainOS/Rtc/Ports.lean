import BigBrainOS.Kernel.RtcPorts
import BigBrainOS.Rtc.Wait

/-!
# The port accesses of `rtc_set_frequency`

The processes need no lock against each other, since of two changes of register A only
the later one counts. Against `RT_handler` they would need one: a rate that is written
after the handler has selected register C is lost, and a value that was read from there
takes the place of the divider bits.
-/

namespace BigBrainOS
set_option autoImplicit false
open IndexedPorts (Chip Setup Shared Ended)

end BigBrainOS
