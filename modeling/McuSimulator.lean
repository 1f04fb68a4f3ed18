import McuSimulator.Base.BitShift
import McuSimulator.Base.Chain
import McuSimulator.Base.Counting
import McuSimulator.Base.Cyclic
import McuSimulator.Base.Fallible
import McuSimulator.Base.Flags
import McuSimulator.Base.HexText
import McuSimulator.Base.Interleaving
import McuSimulator.Base.Least
import McuSimulator.Base.Loop
import McuSimulator.Base.Mealy
import McuSimulator.Base.Ring
import McuSimulator.Base.SideBySide
import McuSimulator.Base.SwapRemove
import McuSimulator.Base.Transition
import McuSimulator.Cpu.Arithmetic
import McuSimulator.Cpu.BlockTransfer
import McuSimulator.Cpu.BranchLink
import McuSimulator.Cpu.Compare
import McuSimulator.Cpu.DataFrame
import McuSimulator.Cpu.Disassembler
import McuSimulator.Cpu.Disassembly
import McuSimulator.Cpu.Encoding
import McuSimulator.Cpu.Exec
import McuSimulator.Cpu.Factorial
import McuSimulator.Cpu.Faults
import McuSimulator.Cpu.Frame
import McuSimulator.Cpu.Instruction
import McuSimulator.Cpu.ProgramCounter
import McuSimulator.Cpu.Run
import McuSimulator.Cpu.RunCount
import McuSimulator.Cpu.Shift
import McuSimulator.Cpu.Stack
import McuSimulator.Cpu.State
import McuSimulator.Cpu.Step
import McuSimulator.Cpu.Trace
import McuSimulator.Cpu.Transfer
import McuSimulator.Demo.Completion
import McuSimulator.Demo.Delivery
import McuSimulator.Demo.Output
import McuSimulator.Demo.Pipeline
import McuSimulator.Demo.SensorDemo
import McuSimulator.Demo.Turns
import McuSimulator.Loader.Acceptance
import McuSimulator.Loader.Bounds
import McuSimulator.Loader.Corruption
import McuSimulator.Loader.Ihex
import McuSimulator.Loader.Image
import McuSimulator.Loader.Records
import McuSimulator.Memory.Bytewise
import McuSimulator.Memory.FlatMemoryBus
import McuSimulator.Memory.ReadOverWrite
import McuSimulator.Memory.Words
import McuSimulator.Peripherals.Board
import McuSimulator.Peripherals.Burst
import McuSimulator.Peripherals.Can
import McuSimulator.Peripherals.CanDelivery
import McuSimulator.Peripherals.Flash
import McuSimulator.Peripherals.I2c
import McuSimulator.Peripherals.I2cStatus
import McuSimulator.Peripherals.I2cTransaction
import McuSimulator.Peripherals.Lm75
import McuSimulator.Peripherals.PeripheralBus
import McuSimulator.Peripherals.Spi
import McuSimulator.Peripherals.Transactions
import McuSimulator.Peripherals.Uart
import McuSimulator.Peripherals.UartFifo
import McuSimulator.Peripherals.UartStatus
import McuSimulator.Peripherals.WriteProtection
import McuSimulator.Rtos.Clock
import McuSimulator.Rtos.Deadlock
import McuSimulator.Rtos.Delays
import McuSimulator.Rtos.Discipline
import McuSimulator.Rtos.Dispatch
import McuSimulator.Rtos.Effect
import McuSimulator.Rtos.EventLoop
import McuSimulator.Rtos.EventTable
import McuSimulator.Rtos.Frame
import McuSimulator.Rtos.Horizon
import McuSimulator.Rtos.Idle
import McuSimulator.Rtos.Kernel
import McuSimulator.Rtos.Lifecycle
import McuSimulator.Rtos.LockOrder
import McuSimulator.Rtos.Mutex
import McuSimulator.Rtos.Overtaking
import McuSimulator.Rtos.Preemption
import McuSimulator.Rtos.Primitives
import McuSimulator.Rtos.Program
import McuSimulator.Rtos.Progress
import McuSimulator.Rtos.Queue
import McuSimulator.Rtos.QueueWakeUp
import McuSimulator.Rtos.RoundRobin
import McuSimulator.Rtos.SchedInvariant
import McuSimulator.Rtos.Scheduler
import McuSimulator.Rtos.Semaphore
import McuSimulator.Rtos.SetBits
import McuSimulator.Rtos.System
import McuSimulator.Rtos.TableInvariant
import McuSimulator.Rtos.WaitInvariant
import McuSimulator.Rtos.WaiterArray
import McuSimulator.Rtos.WakeUp
import McuSimulator.Sim.Main
import McuSimulator.Sim.Parallel
import McuSimulator.Sim.RunOne
import McuSimulator.Sim.Tracer
