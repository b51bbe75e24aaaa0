import DotMatrix.Main
import DotMatrix.Proofs.Memory.Place
import DotMatrix.Proofs.Memory.WellFormed
import DotMatrix.Proofs.Memory.FlatStore
import DotMatrix.Proofs.Memory.Checked
import DotMatrix.Proofs.Memory.Configuration
import DotMatrix.Proofs.Processor.Encoding
import DotMatrix.Proofs.Processor.Trace
import DotMatrix.Proofs.Processor.Effect
import DotMatrix.Proofs.Processor.Execute
import DotMatrix.Proofs.Processor.Instruction
import DotMatrix.Proofs.Processor.Accounting
import DotMatrix.Proofs.Processor.Checked
import DotMatrix.Proofs.Processor.EnableDelay
import DotMatrix.Proofs.Processor.FlatStep
import DotMatrix.Proofs.Processor.Masking
import DotMatrix.Proofs.Processor.Column
import DotMatrix.Proofs.Processor.Service
import DotMatrix.Proofs.Processor.MultiByte
import DotMatrix.Proofs.Processor.Decimal
import DotMatrix.Proofs.Processor.Fetch
import DotMatrix.Proofs.Processor.Frame
import DotMatrix.Proofs.Processor.Unread
import DotMatrix.Proofs.Processor.Scratch
import DotMatrix.Proofs.Processor.Consistent
import DotMatrix.Proofs.Processor.Addressing
import DotMatrix.Proofs.Processor.Rules
import DotMatrix.Proofs.Disk.Path
import DotMatrix.Proofs.Disk.Lookup
import DotMatrix.Proofs.Cartridge.Load
import DotMatrix.Proofs.Console.Session
import DotMatrix.Proofs.Console.Pacing
import DotMatrix.Proofs.Disk.NamedFile
import DotMatrix.Proofs.Memory.Backing
import DotMatrix.Proofs.Memory.SaveFile
import DotMatrix.Proofs.Cartridge.Rom
import DotMatrix.Proofs.Processor.LowPower
import DotMatrix.Proofs.Processor.Course
import DotMatrix.Proofs.Cartridge.Failure
import DotMatrix.Proofs.Cartridge.Header
import DotMatrix.Proofs.Console.Display
import DotMatrix.Proofs.Processor.LongShift
import DotMatrix.Proofs.Processor.WordArithmetic
import DotMatrix.Proofs.Processor.Stack
import DotMatrix.Proofs.Cartridge.Outcome
import DotMatrix.Proofs.Memory.RomBanks
import DotMatrix.Proofs.Memory.Reading
import DotMatrix.Proofs.Console.PowerOn
