import BlockSync.Arguments
import BlockSync.Text.Column

/-! What the command line says of itself: the usage, and what is wrong with arguments. -/
namespace BlockSync

namespace Switch

def text (switch : Switch) : String :=
  "--" ++ switch.name

def summary : Switch → String
  | parameter .config => "Configuration file; arguments win over it"
  | parameter .address => "Address to listen on"
  | parameter .port => "Port to listen on"
  | parameter .bootNode => "p2p://<node-id>@<ip>:<port>, or a file that lists such nodes"
  | parameter .nodeId => "Node id, hexadecimal"
  | parameter .chainId => "Id of the chain"
  | flag .seedsOnly => "Connect to boot nodes only"
  | parameter .maxActivePeers => "Greatest number of connected peers"
  | parameter .errorTolerance => "Errors that are tolerated of a peer"
  | flag .showStatus => "Show the status line"
  | parameter .showStatistics => "requests, seeds, leeches, responses or systeminfo"
  | flag .metrics => "Serve metrics"
  | parameter .metricsAddress => "Address to serve metrics on"
  | parameter .metricsPort => "Port to serve metrics on"
  | parameter .devBlocks => "Begin with this many development blocks"
  | flag .help => "Show this text"

def usageLine (switch : Switch) : String :=
  let short := switch.letter?.elim "    " fun letter => String.ofList ['-', letter, ',', ' ']
  let value := match switch with
    | parameter _ => " <VALUE>"
    | flag _ => ""
  "  " ++ short ++ Text.alignLeft 28 (switch.text ++ value) ++ switch.summary ++ "\n"

end Switch

def usage : String :=
  "Usage: sync-node [OPTIONS]\n\nOptions:\n" ++ String.join (Switch.all.map Switch.usageLine)

def ArgumentError.message : ArgumentError → String
  | unknown argument => "unexpected argument " ++ Text.quote argument
  | missingValue parameter => "a value is required for " ++ (Switch.parameter parameter).text
  | badValue parameter value =>
    "invalid value " ++ Text.quote value ++ " for " ++ (Switch.parameter parameter).text
  | repeated switch => switch.text ++ " cannot be used more than once"
  | needlessValue flag => (Switch.flag flag).text ++ " takes no value"
  | helpWanted => usage

end BlockSync
