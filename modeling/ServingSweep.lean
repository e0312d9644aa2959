import ServingSweep.Control.Script
import ServingSweep.Main
import ServingSweep.Proofs.Search.Composition
import ServingSweep.Proofs.Sweep.Rows
import ServingSweep.Sweep.Replay
import ServingSweep.Proofs.Sweep.Walk
import ServingSweep.Proofs.Search.NestedWalk
import ServingSweep.Proofs.Names
import ServingSweep.Proofs.Sweep.Feedback
import ServingSweep.Proofs.Sweep.Turns
import ServingSweep.Proofs.Sweep.Trail
import ServingSweep.Proofs.Sweep.Thorough
import ServingSweep.Proofs.Sweep.Offers
import ServingSweep.Proofs.Sweep.GridFirsts
import ServingSweep.Proofs.Search.Moves
import ServingSweep.Proofs.Search.Logged
import ServingSweep.Proofs.Search.Conduct
import ServingSweep.Proofs.Search.HandOver
import ServingSweep.Proofs.Search.Extent
import ServingSweep.Proofs.OwnName
import ServingSweep.Proofs.Search.Apart
import ServingSweep.Proofs.Search.Pinned
import ServingSweep.Proofs.Sweep.Failures
import ServingSweep.Proofs.Search.Contacts
import ServingSweep.Proofs.Control.Errands
import ServingSweep.Proofs.Search.Lifecycle
import ServingSweep.Proofs.Search.Productive
import ServingSweep.Proofs.Search.Once
import ServingSweep.Proofs.Trial.Reading
import ServingSweep.Proofs.Sweep.Itinerary
import ServingSweep.Proofs.Sweep.InTurn
import ServingSweep.Proofs.Plan.Reading
import ServingSweep.Proofs.Simulation.Run
import ServingSweep.Proofs.Search.Unswept
import ServingSweep.Proofs.Sweep.Notices
import ServingSweep.Proofs.Sweep.Verdicts
import ServingSweep.Proofs.Trial.Marks
import ServingSweep.Proofs.Conversion
import ServingSweep.Proofs.Sweep.Violations
