import MobilePrinter.Firmware.Theorems.Feeding
import MobilePrinter.Firmware.Theorems.Sessions
import MobilePrinter.Firmware.Theorems.Pause
import MobilePrinter.Firmware.Theorems.Drain
import MobilePrinter.Firmware.Theorems.Abort
import MobilePrinter.Firmware.Theorems.Cursor
import MobilePrinter.Firmware.Theorems.Progress
import MobilePrinter.Firmware.Theorems.Records
import MobilePrinter.Firmware.Theorems.Wedge
import MobilePrinter.Firmware.Theorems.Prints
import MobilePrinter.Firmware.Theorems.Safety
import MobilePrinter.Firmware.Theorems.Failures
import MobilePrinter.Firmware.Theorems.Persistence
import MobilePrinter.Firmware.Theorems.Rejections
import MobilePrinter.Firmware.Theorems.Feedrates
import MobilePrinter.Firmware.Theorems.Submissions
import MobilePrinter.Firmware.Theorems.Silence
import MobilePrinter.Firmware.Theorems.Bursts
import MobilePrinter.Firmware.Theorems.Volume
import MobilePrinter.Fabrication.Theorems.Restarts
import MobilePrinter.Fabrication.Theorems.Dwells
import MobilePrinter.Supervisor.Theorems.Writers
import MobilePrinter.Supervisor.Theorems.Verdicts
import MobilePrinter.Supervisor.Theorems.Acknowledgements
import MobilePrinter.Supervisor.Theorems.Frames
import MobilePrinter.Executor.Theorems.EStop
import MobilePrinter.Executor.Theorems.SoftLimits
import MobilePrinter.Executor.Theorems.Latch
import MobilePrinter.Executor.Theorems.Authority
import MobilePrinter.Executor.Theorems.Fifo
import MobilePrinter.Executor.Theorems.Forwarding
import MobilePrinter.Executor.Theorems.Velocity
import MobilePrinter.Executor.Theorems.Completion
import MobilePrinter.Executor.Theorems.Continuity
import MobilePrinter.Executor.Theorems.Indexing
import MobilePrinter.Program.Theorems.HandOver
import MobilePrinter.Program.Theorems.Geometry
import MobilePrinter.Program.Theorems.Modality
import MobilePrinter.Program.Theorems.Comments
import MobilePrinter.Ui.Theorems.Enablement
import MobilePrinter.Ui.Theorems.Lock
import MobilePrinter.Base.Theorems.Arrival
import MobilePrinter.SimMotion.Theorems.Joining
import MobilePrinter.Tool.Theorems.Convergence
import MobilePrinter.Firmware.Theorems.Lifecycle
import MobilePrinter.Firmware.Theorems.Termination
import MobilePrinter.Firmware.Theorems.Atomicity
import MobilePrinter.Firmware.Theorems.Printout
import MobilePrinter.Program.Theorems.Pipeline
import MobilePrinter.Program.Theorems.Printing
import MobilePrinter.Fabrication.Theorems.Liveness
import MobilePrinter.Arm.Theorems.Station
import MobilePrinter.Firmware.Theorems.Relief
