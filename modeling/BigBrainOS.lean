import BigBrainOS.Process.BaseShells
import BigBrainOS.Process.Chains
import BigBrainOS.Process.Context
import BigBrainOS.Process.Command
import BigBrainOS.Process.Status
import BigBrainOS.Process.EntryPoint
import BigBrainOS.Memory.Protection
import BigBrainOS.Rtc.Wait
import BigBrainOS.Rtc.Release
import BigBrainOS.Files.Sequential
import BigBrainOS.Files.Bounds
import BigBrainOS.Files.Buffers
import BigBrainOS.Files.Listing
import BigBrainOS.Files.Operations
import BigBrainOS.Files.Slice
import BigBrainOS.Display.Vidmap
import BigBrainOS.Display.Masking
import BigBrainOS.Preempt.Launch
import BigBrainOS.Preempt.Halt
import BigBrainOS.Preempt.Flags
import BigBrainOS.Terminal.Delivery
import BigBrainOS.Process.Getargs
import BigBrainOS.Memory.VidmapStore
import BigBrainOS.Files.Failures
import BigBrainOS.Terminal.Writing
import BigBrainOS.Terminal.Counts
import BigBrainOS.Terminal.Editor
import BigBrainOS.Terminal.Typing
import BigBrainOS.Display.Text
import BigBrainOS.Display.Format
import BigBrainOS.Preempt.Gates
import BigBrainOS.Memory.Memcpy
import BigBrainOS.Display.Padding
import BigBrainOS.Display.Numbers
import BigBrainOS.Process.ParserBounds
import BigBrainOS.Display.Bounds
import BigBrainOS.System.Reading
import BigBrainOS.System.Turns
import BigBrainOS.System.Board
import BigBrainOS.System.Linkage
import BigBrainOS.Rtc.Ports
import BigBrainOS.System.Images
import BigBrainOS.System.UserMemory
import BigBrainOS.Memory.Strings
import BigBrainOS.System.Keys
