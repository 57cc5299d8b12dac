import BigBrainOS.Theory.IndexedPorts
import BigBrainOS.Kernel.Init

/-!
# The ports of the RTC

The accesses of `rtc.c` to the index port and the data port. `rtc_open`, `rtc_write` and
`rtc_close` call `rtc_set_frequency` with interrupts on, so its four accesses can be
interrupted: by `RT_handler`, which has two of its own, and by the clock, after which other processes
call it too. `init_rtc` runs with interrupts off.
-/

namespace BigBrainOS
set_option autoImplicit false
open IndexedPorts (Chip Kind Setup Shared)

end BigBrainOS
