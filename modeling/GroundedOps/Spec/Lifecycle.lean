import GroundedOps.Spec.Repository
import GroundedOps.Spec.Worker

/-!
# The life of the authoritative state

What changes the database and the object store: the events of the worker, and the calls of
`promote` and `delete` that are made outside its deliveries. A deletion comes from the pipeline
when it runs an event of kind `deleted`.
-/

namespace GroundedOps.Ingestion

inductive LifecycleEvent
  | worker (event : WorkerEvent)
  | promote (tenantId versionId : String)
  | delete (tenantId documentId : String)

/-- The world after an event, whether or not it raised. -/
def World.live (c : Components) (w : World) : LifecycleEvent → World
  | .worker event => w.step c event
  | .promote tenantId versionId => w.call c.platform (.promote tenantId versionId)
  | .delete tenantId documentId => w.call c.platform (.delete tenantId documentId)

end GroundedOps.Ingestion
