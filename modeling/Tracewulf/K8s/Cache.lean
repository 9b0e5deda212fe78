import Tracewulf.Base.FiniteMap

/-! The identity cache: what the informers last wrote about pods, services and nodes. Every
operation takes the cache lock for its whole body, so each is one atomic step. -/
namespace Tracewulf.K8s
open Tracewulf.Base

structure PodInfo where
  name : String
  ns : String
  node : String
  deriving DecidableEq, Repr

structure ServiceInfo where
  name : String
  ns : String
  deriving DecidableEq, Repr

structure NodeInfo where
  name : String
  zone : String
  deriving DecidableEq, Repr

structure Cache where
  ipMap : FiniteMap String PodInfo
  svcMap : FiniteMap String ServiceInfo
  nodeMap : FiniteMap String NodeInfo

def newCache : Cache := ⟨∅,∅,∅⟩

namespace Cache

def setPod (c : Cache) (ip : String) (info : PodInfo) : Cache :=
  { c with ipMap := c.ipMap.insert ip info }

def deletePod (c : Cache) (ip : String) : Cache :=
  { c with ipMap := c.ipMap.erase ip }

def lookupPod (c : Cache) (ip : String) : Option PodInfo := c.ipMap.lookup ip

def setService (c : Cache) (ip : String) (info : ServiceInfo) : Cache :=
  { c with svcMap := c.svcMap.insert ip info }

def deleteService (c : Cache) (ip : String) : Cache :=
  { c with svcMap := c.svcMap.erase ip }

def lookupService (c : Cache) (ip : String) : Option ServiceInfo := c.svcMap.lookup ip

def setNode (c : Cache) (name : String) (info : NodeInfo) : Cache :=
  { c with nodeMap := c.nodeMap.insert name info }

def deleteNode (c : Cache) (name : String) : Cache :=
  { c with nodeMap := c.nodeMap.erase name }

def lookupNode (c : Cache) (name : String) : Option NodeInfo := c.nodeMap.lookup name

end Cache
end Tracewulf.K8s
