import BlockSync.Arguments.Usage
import BlockSync.Config.Settings
import BlockSync.Network.Report
import BlockSync.Network.Transport
import BlockSync.Producer
import BlockSync.Signature.Ecdsa

/-! The command line: reads the arguments and the files that they name, and shows the
node as it begins, with its settings, its chain and its node table. -/
namespace BlockSync.Command

def textOf? (path : String) : IO (Option String) := do
  try return some (← IO.FS.readFile path)
  catch _ => return none

def refuse (message : String) : IO UInt32 := do
  IO.eprintln ("error: " ++ message)
  return 1

def bootNodeFiles (c : NetworkConfig) : IO (List (String × Option String)) :=
  (c.bootNodes.filter fun argument => !BootNode.hasScheme argument).mapM fun path =>
    return (path, ← textOf? path)

/-- A random node id is drawn if none is set. -/
def drawIdentity : Option NodeId → IO NodeId
  | some id => return id
  | none => return .ofBytes (← IO.getRandomBytes 32).toList

def showNode (config : NodeConfig) (id : Option NodeId) (chain : Chain) : IO UInt32 := do
  let files ← bootNodeFiles config.network
  let bootNodes := config.network.bootNodesFrom fun path => (files.lookup path).join.bind bootNodeList?
  let transport := Transport.new config.network (← drawIdentity id) bootNodes
  IO.println config.text
  IO.println ("node " ++ transport.self.text ++ " at " ++ config.network.listenSocket.text)
  IO.println (transport.nodes.report ⟨chain.bestNumber, chain.best, chain.total⟩)
  return 0

def run (a : Arguments) : IO UInt32 := do
  let text ← match a.config with
    | some path => textOf? path
    | none => pure none
  match a.nodeConfig fun _ => text with
  | .error e => refuse e.message
  | .ok config =>
    match config.network.identity, devChain Ecdsa.scheme (a.devBlocks.getD 0) with
    | .error e, _ => refuse e.message
    | .ok _, none => refuse "invalid development key"
    | .ok id, some chain => showNode config id chain

end BlockSync.Command

def main (arguments : List String) : IO UInt32 := do
  match BlockSync.Arguments.ofList arguments with
  | .error .helpWanted => do
    IO.println BlockSync.usage
    return 0
  | .error e => do
    IO.eprintln ("error: " ++ e.message)
    return 2
  | .ok a => BlockSync.Command.run a
