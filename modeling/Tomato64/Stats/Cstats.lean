import Tomato64.Core.AvlTree
import Tomato64.Core.Run
import Tomato64.Core.Split
import Tomato64.Shared.Misc
import Tomato64.Stats.Meter

/-!
# The tree of `cstats`

`cstats` counts the bytes of each host.  The hosts are in a balanced tree,
ordered by their addresses.  A host comes into it by a line of the accounting
files or by a record of a saved history, and leaves it when it is excluded, or
for a moment when a record replaces it.  `Node_new` counts the nodes and returns
none when there are too many, which its callers hand on to the insertion.

The steps of a run are the single lines and records, and what `calc` does at
its end.
-/

namespace Tomato64.Cstats

open Text Shared Stats AvlTree

def maxNodes : ℤ := 2000

def inetAddrstrlen : ℕ := 16

def currentId : UInt32 := 0x32305352

/-- `Node` without its links. -/
structure Node where
  ipaddr : Bytes
  daily : Ring 62
  monthly : Ring 25
  meter : Meter

/-- `Node_compare`: the addresses have at most `INET_ADDRSTRLEN` characters. -/
def nodeCompare (lhs rhs : Node) : Ordering :=
  strcmp lhs.ipaddr rhs.ipaddr

structure State where
  tree : Avl Node
  nodeCount : ℤ

def State.start : State :=
  ⟨.nil, 0⟩

/-- What C leaves undefined: an access outside an array, the use of a node that
is not there, and a recursion without end. -/
inductive Fault where
  | outOfRange
  | absentNode
  | diverged
deriving DecidableEq

/-- A result of the trees, or of an access to an array. -/
def orFault {α : Type} (fault : Fault) : Option α → Except Fault α
  | none => .error fault
  | some value => .ok value

variable (ipaddr : Bytes)

def blankNode : Node :=
  ⟨ipaddr.take inetAddrstrlen, Ring.empty 62, Ring.empty 25,
    ⟨0, fun _ => ⟨0, 0⟩, ⟨0, 0⟩, 0, 0⟩⟩

/-- `Node_new` and the count of the nodes after it. -/
def nodeNew (nodeCount : ℤ) : Option Node × ℤ :=
  if maxNodes ≤ nodeCount then (none, nodeCount)
  else (some (blankNode ipaddr), nodeCount + 1)

/-- `TREE_INSERT`, which compares the new node with those in the tree. -/
def treeInsert : Option Node → Avl Node → Except Fault (Avl Node)
  | some node, tree => orFault .diverged (insert nodeCompare node tree)
  | none, .nil => .ok .nil
  | none, .node _ _ _ _ => .error .absentNode

def insertNew (state : State) : Except Fault State := do
  let (node, nodeCount) := nodeNew ipaddr state.nodeCount
  let tree ← treeInsert node state.tree
  return ⟨tree, nodeCount⟩

def removeFound (state : State) : Except Fault State :=
  match find nodeCompare (blankNode ipaddr) state.tree with
  | none => .ok state
  | some node => do
      let tree ← orFault .diverged (remove nodeCompare node state.tree)
      return ⟨tree, state.nodeCount - 1⟩

def updateFound (change : Node → Node) (state : State) : State :=
  { state with
    tree := update nodeCompare (blankNode ipaddr) change state.tree }

/-! ## Records -/

/-- A record of a saved history.  `ipaddr` is the text that starts in the field
of the address. -/
structure Record where
  ipaddr : Bytes
  id : UInt32
  daily : Ring 62
  monthly : Ring 25
  utime : ℤ
  samples : ℕ → Counters
  last : Counters
  tail : ℤ

def fill (uptime : ℤ) (record : Record) (node : Node) : Node :=
  { node with
    daily := record.daily
    monthly := record.monthly
    meter :=
      if uptime < record.utime then
        ⟨uptime, record.samples, record.last, record.tail, 1⟩
      else ⟨record.utime, record.samples, record.last, record.tail, -1⟩ }

/-- A record that is loaded. -/
def accepted (exclude : Bytes) (record : Record) : Bool :=
  !findWord exclude record.ipaddr && record.id = currentId

/-- One record of `load_history_to_tree`. -/
def loadRecord (exclude : Bytes) (uptime : ℤ) (record : Record)
    (state : State) : Except Fault State :=
  if accepted exclude record then do
    let state ← removeFound record.ipaddr state
    let state ← insertNew record.ipaddr state
    return updateFound record.ipaddr (fill uptime record) state
  else .ok state

/-! ## Lines -/

/-- What `calc` finds, apart from the accounting files. -/
structure Snapshot where
  uptime : ℤ
  nvram : Nvram
  checkWanup : Bool
  checkWanupTime : ℤ
  xdaily : UInt32
  xmonthly : UInt32

/-- A line of an accounting file. -/
structure Line where
  ip : Bytes
  rx : UInt64
  tx : UInt64
  length_ip : ip.length < inetAddrstrlen

section
variable (snapshot : Snapshot)

def Snapshot.fresh : Bool :=
  snapshot.checkWanup && snapshot.checkWanupTime < interval + 10

def Snapshot.exclude : Bytes :=
  snapshot.nvram (bytes "cstats_exclude")

/-- The host is counted when it is not in the tree yet. -/
def selected (ip : Bytes) : Bool :=
  snapshot.nvram.int (bytes "cstats_all") ≠ 0 ||
    findWord (snapshot.nvram (bytes "cstats_include")) ip

def addHistory (counter : Counters) (node : Node) : Option Node :=
  if snapshot.nvram.int (bytes "ntp_ready") ≠ 0 then do
    let daily ← bump node.daily snapshot.xdaily counter
    let monthly ← bump node.monthly snapshot.xmonthly counter
    return { node with daily := daily, monthly := monthly }
  else some node

def readNode (counter : Counters) (node : Node) : Option Node := do
  let (outcome, meter) ← read false snapshot.uptime snapshot.fresh counter
    node.meter
  let node := { node with meter := meter }
  match outcome.bytes with
  | none => some node
  | some counter => addHistory snapshot counter node

def readFound (ip : Bytes) (counter : Counters) (state : State) :
    Except Fault State :=
  match find nodeCompare (blankNode ip) state.tree with
  | none => .ok state
  | some node => do
      let node ← orFault .outOfRange (readNode snapshot counter node)
      return updateFound ip (fun _ => node) state

/-- The new node asks for a synchronisation. -/
def startSync (node : Node) : Node :=
  { node with meter := { node.meter with sync := 1, utime := snapshot.uptime } }

def brings (line : Line) (state : State) : Bool :=
  !findWord snapshot.exclude line.ip &&
    (find nodeCompare (blankNode line.ip) state.tree).isNone &&
    !(line.tx < 1 && line.rx < 1) && selected snapshot line.ip

/-- One line of an accounting file.  What the host sends is received by the
router. -/
def countLine (line : Line) (state : State) : Except Fault State :=
  let counter : Counters := ⟨line.tx, line.rx⟩
  if findWord snapshot.exclude line.ip then .ok state
  else if brings snapshot line state then do
    let state ← insertNew line.ip state
    readFound snapshot line.ip counter
      (updateFound line.ip (startSync snapshot) state)
  else readFound snapshot line.ip counter state

end

/-! ## The end of `calc` -/

variable (node : Node)

def nodeHousekeeping : Node :=
  { node with meter := { node.meter with
      sync := if node.meter.sync = -1 then 0 else 1 } }

/-- The nodes of the exclude list go, and the marks of the others change. -/
def finish (exclude : Bytes) (state : State) : Except Fault State := do
  let state ← (exclude.splitOn 44).foldlM (fun state ip => removeFound ip state)
    state
  return { state with tree := state.tree.map nodeHousekeeping }

/-! ## Listings -/

def speedEmpty : Bool :=
  (List.range maxNspeed).all fun index =>
    node.meter.samples index = ⟨0, 0⟩

/-- The accesses of `Node_print_speedjs`. -/
def nodePrintSpeedjs : Option Unit :=
  if speedEmpty node then some () else sampleAccesses maxNspeed node.meter.tail

/-- The entries that `Node_print_datajs` prints, of the days and the months. -/
def nodePrintDatajs : Option (List Data × List Data) := do
  let daily ← saveDatajs node.daily
  let monthly ← saveDatajs node.monthly
  return (daily, monthly)

/-! ## Runs -/

inductive Event where
  | record (exclude : Bytes) (uptime : ℤ) (record : Record)
  | line (snapshot : Snapshot) (line : Line)
  | finish (exclude : Bytes)
  | saveSpeedjs
  | saveHistjs

def step (state : State) : Event → Except Fault State
  | .record exclude uptime record => loadRecord exclude uptime record state
  | .line snapshot line => countLine snapshot line state
  | .finish exclude => finish exclude state
  | .saveSpeedjs => do
      let _ ← orFault .outOfRange (state.tree.toList.mapM nodePrintSpeedjs)
      return state
  | .saveHistjs => do
      let _ ← orFault .outOfRange (state.tree.toList.mapM nodePrintDatajs)
      return state

def run (events : List Event) : Except Fault State :=
  events.foldlM step State.start

end Tomato64.Cstats
