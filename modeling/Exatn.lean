import Exatn.Runtime.ExecState
import Exatn.Runtime.DirectedBoostGraph
import Exatn.Runtime.Hazards
import Exatn.Runtime.VertexIds
import Exatn.Runtime.ShortestPath
import Exatn.Runtime.EpochHistory
import Exatn.Runtime.HazardOrder
import Exatn.Numerics.Spaces
import Exatn.Numerics.TensorNetwork
import Exatn.Numerics.MergeSchedule
import Exatn.Numerics.PriorityQueue
import Exatn.Numerics.ContractionSeqOptimizerHeuro
import Exatn.Numerics.ScheduleValidity
import Exatn.Numerics.ExhaustiveSearch
import Exatn.Framework.Lifecycle
