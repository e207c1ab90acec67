import DistroSeed.Library.Generations
import DistroSeed.Library.KeySort
import DistroSeed.Library.QueueSearch
import DistroSeed.Model.Task

/-! The scheduler of `task_manager.py`. The only loop without a bound of its own is
the search of `find_edge_to_parent`, so only that loop takes fuel. -/

namespace DistroSeed

open Chains KeySort

/-- What the scheduler can raise. -/
inductive SortError where
  | unsatisfied (dep config : String)
  | invalidDependencies
  | taskNotFound (id : ℕ)
  | networkXUnfeasible
deriving DecidableEq, Repr

/-- The text of the errors that are a `ValueError`. -/
def SortError.valueError? : SortError → Option String
  | unsatisfied dep config => some s!"Unsatisifed dependency {dep} from {config}"
  | invalidDependencies => some "Invalid dependencies"
  | taskNotFound id => some s!"Task with ID {id} not found."
  | networkXUnfeasible => none

/-- The `label` attribute of an edge. -/
inductive EdgeLabel where
  | declared
  | autoAddedDep
deriving DecidableEq, Repr

/-- The graph over task ids, with the tasks as node data. -/
structure TaskGraph where
  tasks : List Task
  graph : DiGraph ℕ EdgeLabel

namespace TaskGraph

/-- `graph.nodes[node]['data']`. -/
def data (g : TaskGraph) (node : ℕ) : Option Task := g.tasks.find? fun task => task.id = node

/-- `auto_create_rdepends is True` for the task of a node. -/
def isBarrier (g : TaskGraph) (node : ℕ) : Bool := (g.data node).any (·.autoCreateRdepends)

/-- A node for which `create_task_graph` runs the search: without children, and
with `auto_create_rdepends is False`. -/
def isLeaf (g : TaskGraph) (node : ℕ) : Bool :=
  g.graph.outDegree node = 0 && (g.data node).any (!·.autoCreateRdepends)

/-- The inner loop of `find_edge_to_parent`: the first child of `current` that is a
barrier and neither `node` itself nor a parent of `node`. -/
def barrierChild (g : TaskGraph) (node current : ℕ) : Option ℕ :=
  (g.graph.successors current).find? fun child =>
    !(child = node || child ∈ g.graph.predecessors node) && g.isBarrier child

end TaskGraph

/-- The search starts from the parents of `node` and keeps no record of what it visited. -/
def findEdgeToParent (fuel : ℕ) (g : TaskGraph) (node : ℕ) :
    Outcome SortError (Option (ℕ × ℕ)) := do
  let child ← QueueSearch.search g.graph.predecessors (g.barrierChild node) fuel
    (g.graph.predecessors node)
  pure (child.map fun child => (node, child))

/-! ## Building the graph -/

/-- One dependency name of `task`: an edge from every task that matches it. -/
def addDependency (tasks : List Task) (task : Task) (graph : DiGraph ℕ EdgeLabel)
    (dep : String) : Outcome SortError (DiGraph ℕ EdgeLabel) :=
  match tasks.filter (·.matches dep) with
  | [] => .raised (.unsatisfied dep task.config)
  | found => .returned
      (found.foldl (fun graph subtask => graph.addEdge subtask.id task.id .declared) graph)

def addDependencies (tasks : List Task) (graph : DiGraph ℕ EdgeLabel) (task : Task) :
    Outcome SortError (DiGraph ℕ EdgeLabel) :=
  task.dependencies.foldlM (addDependency tasks task) graph

/-- `create_task_graph` before the automatic edges: the declared dependencies. -/
def declaredGraph (tasks : List Task) : Outcome SortError TaskGraph := do
  let tasks := number tasks
  let nodes : DiGraph ℕ EdgeLabel :=
    tasks.foldl (fun graph task => graph.addNode task.id) DiGraph.empty
  let graph ← tasks.foldlM (addDependencies tasks) nodes
  pure { tasks, graph }

/-- The automatic edges, all searched for in the graph of declared dependencies. -/
def edgesToAdd (fuel : ℕ) (g : TaskGraph) : Outcome SortError (List (ℕ × ℕ)) := do
  let edges ← (g.graph.nodes.filter g.isLeaf).mapM (findEdgeToParent fuel g)
  pure (edges.filterMap id)

def TaskGraph.addEdges (g : TaskGraph) (edges : List (ℕ × ℕ)) : TaskGraph :=
  { g with graph := g.graph.addEdgesFrom edges .autoAddedDep }

def createTaskGraph (fuel : ℕ) (tasks : List Task) : Outcome SortError TaskGraph := do
  let g ← declaredGraph tasks
  let edges ← edgesToAdd fuel g
  pure (g.addEdges edges)

/-! ## Sorting -/

/-- `networkx.simple_cycles`, as far as the scheduler relies on it: the list of
cycles is empty exactly when the graph has none. -/
structure SimpleCycles where
  cycles : DiGraph ℕ EdgeLabel → List (List ℕ)
  cycles_eq_nil_iff : ∀ g, cycles g = [] ↔ Acyclic g.Adj

def detectCycles (nx : SimpleCycles) (g : TaskGraph) : Outcome SortError Unit :=
  if nx.cycles g.graph = [] then .returned () else .raised .invalidDependencies

def getTaskById (tasks : List Task) (id : ℕ) : Outcome SortError Task :=
  match tasks.find? fun task => task.id = id with
  | some task => .returned task
  | none => .raised (.taskNotFound id)

/-- A generation is sorted by config; tasks of one config keep the order in which
they became ready. -/
def sortGeneration (generation : List ℕ) (tasks : List Task) :
    Outcome SortError (List ℕ) := do
  let keyed ← generation.mapM fun genid => do
    let task ← getTaskById tasks genid
    pure (genid, task.config)
  pure ((sortedBy Prod.snd keyed).map Prod.fst)

def topologicalSort (g : TaskGraph) (tasks : List Task) : Outcome SortError (List ℕ) :=
  match g.graph.topologicalGenerations with
  | none => .raised .networkXUnfeasible
  | some generations => do
      let sorted ← generations.mapM fun generation => sortGeneration generation tasks
      pure sorted.flatten

/-- The first half of `sort`: the ids given by `create_task_graph`, in execution order. -/
def sortedIds (nx : SimpleCycles) (fuel : ℕ) (tasks : List Task) :
    Outcome SortError (List ℕ) := do
  let g ← createTaskGraph fuel tasks
  detectCycles nx g
  topologicalSort g g.tasks

/-- The tasks in execution order, renumbered by their position. -/
def sort (nx : SimpleCycles) (fuel : ℕ) (tasks : List Task) : Outcome SortError (List Task) := do
  let ids ← sortedIds nx fuel tasks
  pure (number (sortedBy (fun task => ids.idxOf task.id) (number tasks)))

/-! ## The published graph -/

/-- `_escape_mermaid`: the three replacements, one character at a time. -/
def escapeMermaid (text : String) : String :=
  String.ofList (text.toList.flatMap fun c =>
    if c = '\\' then ['\\', '\\']
    else if c = '"' then ['\\', '"']
    else if c = '\n' then ['\\', 'n']
    else [c])

/-- `_task_label`. -/
def taskLabel (task : Task) : String :=
  toString task.id ++ ":" ++ task.config ++
    (if task.provides = "" then "" else "/" ++ task.provides) ++
    (if task.cmd = "" then "" else " (" ++ task.cmd ++ ")") ++
    (if task.autoCreateRdepends then " (rdeps)" else "")

def nodeLine (task : Task) : String :=
  "    T" ++ toString task.id ++ "[\"" ++ escapeMermaid (taskLabel task) ++ "\"]"

/-- A declared dependency is drawn solid, an automatic edge dotted. -/
def edgeLine (edge : Edge ℕ EdgeLabel) : String :=
  "    T" ++ toString edge.src ++ (if edge.label = .declared then " --> T" else " -.-> T") ++
    toString edge.dst

/-- What `write_tasks_mmd` leaves: the tasks with the numbers that `create_task_graph` gave them,
the edges that it has drawn, and `work/tasks.mmd`. -/
structure TasksMmd where
  tasks : List Task
  drawn : List (Edge ℕ EdgeLabel)
  mermaid : String
deriving DecidableEq, Repr

/-- `graph.edges`: node by node, each with its edges in the order in which they were added. -/
def TaskGraph.edges (g : TaskGraph) : List (Edge ℕ EdgeLabel) :=
  g.graph.nodes.flatMap fun node => g.graph.edges.filter fun edge => edge.src = node

def writeTasksMmd (nx : SimpleCycles) (fuel : ℕ) (tasks : List Task) :
    Outcome SortError TasksMmd := do
  let g ← createTaskGraph fuel tasks
  detectCycles nx g
  let lines := "flowchart TB" :: g.tasks.map nodeLine ++ g.edges.map edgeLine
  pure { tasks := g.tasks, drawn := g.edges, mermaid := "\n".intercalate lines }

end DistroSeed
