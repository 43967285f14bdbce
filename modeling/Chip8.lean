import Chip8.Main
import Chip8.Terminal.Input
import Chip8.Proofs.Sprite
import Chip8.Proofs.Fault
import Chip8.Proofs.FailedCycle
import Chip8.Proofs.Ticking
import Chip8.Proofs.Instruction
import Chip8.Proofs.Simulation
import Chip8.Proofs.CallStack
import Chip8.Proofs.Enlarged
import Chip8.Proofs.Mode
import Chip8.Proofs.Nesting
import Chip8.Proofs.Grid
import Chip8.Proofs.Panels
import Chip8.Proofs.Display
import Chip8.Proofs.Framebuffer
import Chip8.Proofs.Redrawing
import Chip8.Proofs.Reserved
import Chip8.Proofs.Waiting
import Chip8.Proofs.Presses
import Chip8.Proofs.Callbacks
import Chip8.Proofs.Footprint
import Chip8.Proofs.Numeral
import Chip8.Proofs.Listing
import Chip8.Proofs.Loaded
import Chip8.Proofs.Json
import Chip8.Proofs.SettingsText
import Chip8.Proofs.Options
import Chip8.Proofs.Holding
import Chip8.Proofs.Arithmetic
import Chip8.Proofs.Placements
import Chip8.Proofs.RandomNumbers
import Chip8.Proofs.Colours
import Chip8.Proofs.Pacing
import Chip8.Proofs.Image
import Chip8.Proofs.RegisterBlocks
import Chip8.Proofs.NumberText
import Chip8.Proofs.MemoryEnd
import Chip8.Proofs.Rounding
import Chip8.Proofs.Frequency
import Chip8.Proofs.StackPanel
import Chip8.Proofs.SyscallPanel
