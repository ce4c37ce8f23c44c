import Sdpa.Protocol.AtMod
import Sdpa.Protocol.FlowKey
import Sdpa.Switch.XlateFp
import Sdpa.Switch.Isolation
import Sdpa.Lib.Simulation
import Sdpa.Switch.Commit
import Sdpa.Switch.LocalActions
import Sdpa.Switch.Xlate
import Sdpa.Switch.XlateSim
import Sdpa.Lib.Masks
import Sdpa.Switch.Twin
import Sdpa.Switch.TwinCommit
import Sdpa.Switch.TwinActions
import Sdpa.Switch.AppFields
import Sdpa.Switch.TwinXlate
import Sdpa.Switch.Megaflow
import Sdpa.Switch.Handlers
import Sdpa.Switch.FlowCache
import Sdpa.Switch.Upcall
import Sdpa.Switch.MayLearn
import Sdpa.Lib.Interleaving
import Sdpa.Switch.Concurrent
import Sdpa.Controller.Apps
import Sdpa.Protocol.Install
import Sdpa.Protocol.Firewall
import Sdpa.Lib.Histories
import Sdpa.Protocol.FirewallRuns
import Sdpa.Protocol.FirewallTcp
import Sdpa.Protocol.FirewallConnections
import Sdpa.Protocol.DnsReflection
import Sdpa.Lib.Fallible
import Sdpa.Switch.Bounds
import Sdpa.Switch.Roles
import Sdpa.Switch.InstructionSets
import Sdpa.Switch.InstructionRoundTrip
import Sdpa.Switch.NoEffect
import Sdpa.Switch.Transitions
import Sdpa.Switch.Events
import Sdpa.Switch.Verdicts
import Sdpa.Switch.FinalVerdict
import Sdpa.Lib.Clocked
import Sdpa.Lib.Fallthrough
import Sdpa.Hardware.Fifo
import Sdpa.Hardware.ActionModifier
import Sdpa.Hardware.LookupTable
import Sdpa.Hardware.StatefulApp
import Sdpa.Hardware.AppSequence
import Sdpa.Hardware.AppPipeline
import Sdpa.Hardware.AppPairing
import Sdpa.Hardware.StateUpdates
import Sdpa.Hardware.Initialisation
import Sdpa.Hardware.StateLookup
import Sdpa.Hardware.AppChain
import Sdpa.Hardware.ResultPorts
import Sdpa.Hardware.ServiceChain
import Sdpa.Controller.FirewallRule
import Sdpa.Controller.RuleMatching
import Sdpa.Controller.StateFirewall
import Sdpa.Controller.RulePrecedence
import Sdpa.Controller.RuleFields
import Sdpa.Controller.RuleStorage
import Sdpa.Controller.RuleRestart
import Sdpa.Controller.Lengths
import Sdpa.Protocol.AtLatest
import Sdpa.Protocol.AppSet
import Sdpa.Protocol.Rewriting
import Sdpa.Switch.FlowText
import Sdpa.Lib.Frames
import Sdpa.Hardware.HeaderParser
import Sdpa.Hardware.FlowEntries
import Sdpa.Hardware.OplProcessor
import Sdpa.Hardware.PacketReads
import Sdpa.Hardware.OutputPortLookup
import Sdpa.Hardware.LookupPath
import Sdpa.Hardware.TableWrites
import Sdpa.Hardware.EventParams
import Sdpa.Hardware.FifoAlignment
import Sdpa.Hardware.FlowCounters
import Sdpa.Hardware.StateRewrites
import Sdpa.Hardware.Arbitration
import Sdpa.Hardware.BitFields
import Sdpa.Hardware.HeaderRewrites
import Sdpa.Hardware.LookupOutput
import Sdpa.Hardware.Checksums
