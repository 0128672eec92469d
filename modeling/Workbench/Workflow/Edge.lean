import Workbench.Uuid
import Workbench.Workflow.Port

/-!
# Edges

An edge leads from a port of one node to another node. It has no identity beyond
these three: two edges between the same nodes are different edges if they leave
from different ports.
-/

namespace Workbench

structure Edge where
  source : Uuid
  target : Uuid
  port : Option Port := none
deriving DecidableEq

namespace Edge

/-- Whether the edge leaves from the given port of the node. -/
def leaves (edge : Edge) (node : Uuid) (port : Option Port) : Bool :=
  edge.source == node && edge.port == port

/-- Whether the edge starts or ends at the node. -/
def touches (edge : Edge) (node : Uuid) : Bool :=
  edge.source == node || edge.target == node

end Edge

end Workbench
