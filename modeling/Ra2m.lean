import Ra2m.Lib.SortedMap
import Ra2m.Lib.Runs
import Ra2m.Lib.MinHeap
import Ra2m.Lib.Window
import Ra2m.Lib.Tally
import Ra2m.Sim.Addr
import Ra2m.Sim.MemBus
import Ra2m.Sim.Port
import Ra2m.Sim.Event
import Ra2m.Sim.Scheduler
import Ra2m.Sim.Api
import Ra2m.Sim.Kernel
import Ra2m.Sim.PortLock
import Ra2m.Cpn.NpRam
import Ra2m.Cpn.XBar
import Ra2m.Cpn.Dma
import Ra2m.Cpn.MemChecker
import Ra2m.Proofs.Response
import Ra2m.Proofs.AddrMap
import Ra2m.Proofs.Stack
import Ra2m.Proofs.FlatMemory
import Ra2m.Proofs.Schedule
import Ra2m.Proofs.Confluence
import Ra2m.Proofs.Conservation
import Ra2m.Proofs.KernelInv
import Ra2m.Proofs.EventWait
import Ra2m.Proofs.WakeRace
import Ra2m.Proofs.HandOver
import Ra2m.Proofs.Turns
import Ra2m.Sim.Burst
import Ra2m.Lib.Accesses
import Ra2m.Proofs.BurstOrder
import Ra2m.Cpn.DmaRun
import Ra2m.Lib.SlotPool
import Ra2m.Proofs.DmaSlots
import Ra2m.Proofs.DmaWait
import Ra2m.Cpn.DmaSystem
import Ra2m.Proofs.DmaTransfer
import Ra2m.Sim.Network
import Ra2m.Cpn.NDma
import Ra2m.Proofs.NDmaError
import Ra2m.Cpn.Switch
import Ra2m.Cpn.NDmaNet
import Ra2m.Proofs.NDmaInv
import Ra2m.Proofs.NDmaTransfer
import Ra2m.Proofs.NDmaDeadlock
import Ra2m.Proofs.Pause
import Ra2m.Proofs.Restart
import Ra2m.Lib.BoundedQueue
import Ra2m.Sim.Channel
import Ra2m.Proofs.Transfer
import Ra2m.Proofs.PollOrder
import Ra2m.Proofs.DmaDrain
import Ra2m.Cpn.HostRange
import Ra2m.Cpn.S2hBridge
import Ra2m.Proofs.HostRange
import Ra2m.Proofs.S2hSession
import Ra2m.Proofs.SwitchReturn
import Ra2m.Proofs.BindAtomic
import Ra2m.Proofs.DispatchInv
import Ra2m.Proofs.BurstStuck
import Ra2m.Sim.Transit
import Ra2m.Sim.Chain
import Ra2m.Proofs.ChainTiming
import Ra2m.Proofs.ChannelFrame
import Ra2m.Proofs.ChainRun
import Ra2m.Sim.PortTx
import Ra2m.Proofs.PortSerial
import Ra2m.Cpn.RpcBridge
import Ra2m.Proofs.RpcOrder
import Ra2m.Lib.Chunks
import Ra2m.Tools.Trace
import Ra2m.Proofs.ReadTrace
import Ra2m.Sim.Unit
import Ra2m.Proofs.TransferTime
import Ra2m.Cpn.NDmaSlots
import Ra2m.Proofs.SlotRace
import Ra2m.Proofs.Routing
import Ra2m.Proofs.AccessOutcome
import Ra2m.Sim.History
import Ra2m.Proofs.Spans
import Ra2m.Lib.ExceptMap
import Ra2m.Tools.Dataframe
import Ra2m.Proofs.TraceColumns
import Ra2m.Sim.RoundTrip
import Ra2m.Proofs.RoundTrip
import Ra2m.Sim.SessionQueue
import Ra2m.Proofs.LostWakeup
import Ra2m.Proofs.BurstQueue
import Ra2m.Containers.GrowOnlyVec
import Ra2m.Proofs.GrowOnly
import Ra2m.Lib.Refinement
import Ra2m.Containers.PreAllocatedStore
import Ra2m.Proofs.PreAllocated
import Ra2m.Sim.Delay
import Ra2m.Proofs.DelayPoll
import Ra2m.Lib.Cursor
import Ra2m.Sim.WaitBurst
import Ra2m.Proofs.BurstSort
import Ra2m.Sim.WaitHwThread
import Ra2m.Proofs.SleepRace
import Ra2m.Sim.OrderFlow
import Ra2m.Proofs.Punctual
import Ra2m.Sim.Clock
import Ra2m.Proofs.ClockTick
import Ra2m.Proofs.LatencyDraw
import Ra2m.Lib.KeyTree
import Ra2m.Sim.Module
import Ra2m.Proofs.ModuleMatch
import Ra2m.Proofs.GrowIndex
import Ra2m.Lib.Words
import Ra2m.Sim.UInt
import Ra2m.Proofs.WordSums
import Ra2m.Proofs.WordShifts
import Ra2m.Proofs.WordProducts
import Ra2m.Proofs.UIntWidth
import Ra2m.Cpn.TrafficGen
import Ra2m.Proofs.TrafficRange
import Ra2m.Lib.Splitting
import Ra2m.Sim.ArgParse
import Ra2m.Proofs.ArgLists
import Ra2m.Proofs.ArgParse
import Ra2m.Lib.Stations
import Ra2m.Cpn.XBarNet
import Ra2m.Proofs.Linearize
import Ra2m.Cpn.Discovery
import Ra2m.Proofs.Discovery
import Ra2m.Proofs.ChunkTraffic
import Ra2m.Cpn.TestBench
import Ra2m.Proofs.BenchPasses
import Ra2m.Proofs.OneAtATime
import Ra2m.Cpn.HostLink
import Ra2m.Proofs.HostAccess
import Ra2m.Lib.Programs
import Ra2m.Cpn.Programs
import Ra2m.Proofs.Programs
import Ra2m.Cpn.SwitchNet
import Ra2m.Proofs.SwitchCalls
import Ra2m.Cpn.SplitSwitch
import Ra2m.Proofs.SplitDelivery
import Ra2m.Proofs.StageSum
import Ra2m.Proofs.BurstFlow
