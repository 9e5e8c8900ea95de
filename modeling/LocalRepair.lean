import LocalRepair.Builder
import LocalRepair.Engine
import LocalRepair.Meaning
import LocalRepair.Stats.Table
import LocalRepair.Proofs.Builder
import LocalRepair.Proofs.Forest.Course
import LocalRepair.Proofs.Forecast
import LocalRepair.Proofs.Search.Steps
import LocalRepair.Proofs.Search.Record
import LocalRepair.Proofs.Search.Evaluation
import LocalRepair.Proofs.Search.Questions
import LocalRepair.Proofs.Search.Flip
import LocalRepair.Proofs.Search.Shape
import LocalRepair.Proofs.Search.Picks
import LocalRepair.Proofs.Search.Attempt
import LocalRepair.Proofs.Search.Reached
import LocalRepair.Proofs.Search.Risk
import LocalRepair.Proofs.Search.Soundness
import LocalRepair.Proofs.Search.SpanningTrees
import LocalRepair.Proofs.Search.NetRisk
import LocalRepair.Proofs.Random.Stride
import LocalRepair.Proofs.Random.Iteration
import LocalRepair.Proofs.Remedy
import LocalRepair.Proofs.Search.Answers
import LocalRepair.Proofs.Search.Greedy
import LocalRepair.Proofs.Search.Choice
import LocalRepair.Proofs.SideBySide
import LocalRepair.Proofs.Search.Carried
import LocalRepair.Proofs.Forest.Alike
import LocalRepair.Proofs.Search.Alike
import LocalRepair.Proofs.Search.Isolation
import LocalRepair.Proofs.Search.Budget
import LocalRepair.Proofs.Search.Restarting
import LocalRepair.Proofs.Builder.Refusals
import LocalRepair.Proofs.Builder.Contradictions
import LocalRepair.Proofs.Search.Asking
import LocalRepair.Proofs.Search.Memory
import LocalRepair.Proofs.Search.Tabu
import LocalRepair.Proofs.Search.Routes
import LocalRepair.Proofs.Search.Builds
import LocalRepair.Proofs.Search.Failures
import LocalRepair.Proofs.Search.Counters
import LocalRepair.Proofs.Graph.Part
import LocalRepair.Proofs.Connectivity.Effects
import LocalRepair.Proofs.Search.AddedEdge
import LocalRepair.Proofs.Search.Towards
import LocalRepair.Proofs.Clause.Attainable
import LocalRepair.Proofs.Forest.Climb
import LocalRepair.Proofs.Forest.Foresight
import LocalRepair.Proofs.IndexSet.Course
import LocalRepair.Proofs.Builder.Filing
