import TrafficSteering.Control.Channel
import TrafficSteering.Daemon
import TrafficSteering.Engine.Action
import TrafficSteering.Main
import TrafficSteering.Proofs.Graph.Edges
import TrafficSteering.Proofs.Graph.Walk
import TrafficSteering.Proofs.Graph.Search.Invariant
import TrafficSteering.Proofs.Forum.Quiet
import TrafficSteering.Proofs.Forum.Patience
import TrafficSteering.Proofs.Forum.Delivery
import TrafficSteering.Proofs.Graph.Agreement
import TrafficSteering.Proofs.Graph.Ties
import TrafficSteering.Proofs.Graph.Rearrangement
import TrafficSteering.Proofs.Graph.Overflow
import TrafficSteering.Proofs.Selector.Reachable
import TrafficSteering.Proofs.Selector.Selection
import TrafficSteering.Proofs.Selector.Commit
import TrafficSteering.Proofs.Selector.Listeners
import TrafficSteering.Proofs.Selector.Announcements
import TrafficSteering.Proofs.Selector.Generations
import TrafficSteering.Proofs.Selector.Expected
import TrafficSteering.Proofs.Selector.Reports
import TrafficSteering.Proofs.Engine.Permit
import TrafficSteering.Proofs.Engine.Rules
import TrafficSteering.Proofs.Engine.Attribution
import TrafficSteering.Proofs.Throughput.History
import TrafficSteering.Proofs.Throughput.Measuring
import TrafficSteering.Proofs.Installer.Packets
import TrafficSteering.Proofs.Installer.Installation
import TrafficSteering.Proofs.Control.Session
import TrafficSteering.Proofs.Engine.Undisturbed
import TrafficSteering.Proofs.Engine.Busy
import TrafficSteering.Proofs.Engine.Session
import TrafficSteering.Proofs.Engine.Offers
import TrafficSteering.Proofs.Engine.Conclusion
import TrafficSteering.Proofs.Engine.Timeline
import TrafficSteering.Proofs.Engine.Looks
import TrafficSteering.Proofs.Engine.Packets
import TrafficSteering.Proofs.Settings
import TrafficSteering.Proofs.SwitchId.Notations
