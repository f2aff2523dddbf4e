import OsPrj.Lib.ListHead
import OsPrj.Lib.SemProg
import OsPrj.Lib.Forest
import OsPrj.Lib.TreeWalk
import OsPrj.Lib.Fifo
import OsPrj.Lib.RoundRobin
import OsPrj.Lib.FixedPoint
import OsPrj.BurgerBuddies.Model
import OsPrj.BurgerBuddies.Conservation
import OsPrj.BurgerBuddies.Leave
import OsPrj.BurgerBuddies.Termination
import OsPrj.BurgerBuddies.Signal
import OsPrj.Ptree.Model
import OsPrj.Ptree.Preorder
import OsPrj.Ptree.Listing
import OsPrj.Ptree.Relatives
import OsPrj.Ptree.Bounds
import OsPrj.Sched.Types
import OsPrj.Sched.Wrr
import OsPrj.Sched.Rt
import OsPrj.Sched.Core
import OsPrj.Sched.Ops
import OsPrj.Sched.Frame
import OsPrj.Sched.RunQueue
import OsPrj.Sched.Layout
import OsPrj.Sched.Pick
import OsPrj.Sched.Tasks
import OsPrj.Sched.Steps
import OsPrj.Sched.Invariant
import OsPrj.Sched.NoBypass
import OsPrj.Sched.Shortcut
import OsPrj.Sched.Writes
import OsPrj.Sched.ClassAgrees
import OsPrj.Sched.Preemption
import OsPrj.Sched.Params
import OsPrj.Sched.Setscheduler
import OsPrj.Sched.Permissions
import OsPrj.Sched.Accounting
import OsPrj.Sched.Charging
import OsPrj.Sched.CpuTime
import OsPrj.Sched.GroupTime
import OsPrj.Sched.Slices
import OsPrj.Sched.PrioRange
import OsPrj.Sched.Watchdog
import OsPrj.Sched.RoundRobin
import OsPrj.Sched.RoundRobinRt
import OsPrj.Sched.Normalize
import OsPrj.Sched.Books
import OsPrj.Sched.LoadCount
import OsPrj.Sched.Highest
import OsPrj.Sched.SliceWrites
import OsPrj.Sched.FrontWait
import OsPrj.Groups.Model
import OsPrj.Groups.Walk
import OsPrj.Groups.Steps
import OsPrj.Groups.RtBandwidth
import OsPrj.Groups.CfsBandwidth
import OsPrj.Groups.Unobserved
import OsPrj.Wait.Model
import OsPrj.Wait.WakeUp
import OsPrj.Wait.Queue
import OsPrj.Wait.Completion
import OsPrj.Load.Model
import OsPrj.Load.Average
import OsPrj.Load.Deltas
import OsPrj.Load.Window
