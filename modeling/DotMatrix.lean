import DotMatrix.FlatMemory
import DotMatrix.Main
import DotMatrix.Proofs.Board.StatusTurns
import DotMatrix.Proofs.Board.WorkMemory
import DotMatrix.Proofs.Checked.Console
import DotMatrix.Proofs.Console.Buttons
import DotMatrix.Proofs.Console.ExternalRam
import DotMatrix.Proofs.Console.FrameExits
import DotMatrix.Proofs.Console.FramePacing
import DotMatrix.Proofs.Console.Halting
import DotMatrix.Proofs.Console.Loading
import DotMatrix.Proofs.Console.Saving
import DotMatrix.Proofs.Console.SerialLog
import DotMatrix.Proofs.Console.SoundPower
import DotMatrix.Proofs.Console.StatusAtSteps
import DotMatrix.Proofs.Console.Stopping
import DotMatrix.Proofs.Cpu.FlagRegister
import DotMatrix.Proofs.Cpu.Footprint
import DotMatrix.Proofs.Cpu.LongDecimals
import DotMatrix.Proofs.Cpu.OperandForms
import DotMatrix.Proofs.Cpu.StackDiscipline
import DotMatrix.Proofs.Cpu.WordSums
import DotMatrix.Proofs.Lcd.PixelRule
import DotMatrix.Proofs.Runner.SaveKept
import DotMatrix.Proofs.Timer.Counting
import DotMatrix.Proofs.Runner.Arguments
import DotMatrix.Proofs.Runner.CommandLine
import DotMatrix.Proofs.Runner.Path
import DotMatrix.Proofs.Runner.RomKept
