import BlockSync.Config

/-! The command line. An option takes the next argument, what follows an equals sign,
or, behind its one-letter name, what follows at once. Values are looked at when the
option after them, or the end, is reached; an argument that nothing takes is refused
before that. -/
namespace BlockSync

inductive Flag where
  | seedsOnly
  | showStatus
  | metrics
  | help
  deriving DecidableEq, Repr

inductive Parameter where
  | config
  | address
  | port
  | bootNode
  | nodeId
  | chainId
  | maxActivePeers
  | errorTolerance
  | showStatistics
  | metricsAddress
  | metricsPort
  | devBlocks
  deriving DecidableEq, Repr

inductive Switch where
  | flag (flag : Flag)
  | parameter (parameter : Parameter)
  deriving DecidableEq, Repr

inductive ArgumentError where
  | unknown (argument : String)
  | missingValue (parameter : Parameter)
  | badValue (parameter : Parameter) (value : String)
  | repeated (switch : Switch)
  | needlessValue (flag : Flag)
  /-- Not an error of the user: the usage was asked for. -/
  | helpWanted
  deriving DecidableEq, Repr

structure Arguments where
  config : Option String := none
  address : Option Ip := none
  port : Option UInt16 := none
  bootNodes : List String := []
  nodeId : Option String := none
  chainId : Option UInt32 := none
  seedsOnly : Bool := false
  maxActivePeers : Option Nat := none
  errorTolerance : Option UInt32 := none
  showStatus : Bool := false
  showStatistics : List StatisticsKind := []
  metrics : Bool := false
  metricsAddress : Option Ip := none
  metricsPort : Option UInt16 := none
  devBlocks : Option Nat := none
  deriving Repr

namespace Switch

def all : List Switch :=
  [parameter .config, parameter .address, parameter .port, parameter .bootNode, parameter .nodeId,
    parameter .chainId, flag .seedsOnly, parameter .maxActivePeers, parameter .errorTolerance,
    flag .showStatus, parameter .showStatistics, flag .metrics, parameter .metricsAddress,
    parameter .metricsPort, parameter .devBlocks, flag .help]

def name : Switch → String
  | parameter .config => "config"
  | parameter .address => "address"
  | parameter .port => "port"
  | parameter .bootNode => "bootnodes"
  | parameter .nodeId => "node-id"
  | parameter .chainId => "chain-id"
  | flag .seedsOnly => "seeds-only"
  | parameter .maxActivePeers => "max-active-peers"
  | parameter .errorTolerance => "error-tolerance"
  | flag .showStatus => "show-status"
  | parameter .showStatistics => "show-statistics"
  | flag .metrics => "metrics"
  | parameter .metricsAddress => "metrics-address"
  | parameter .metricsPort => "metrics-port"
  | parameter .devBlocks => "dev-blocks"
  | flag .help => "help"

def letter? : Switch → Option Char
  | parameter .config => some 'c'
  | parameter .address => some 'a'
  | parameter .port => some 'p'
  | parameter .bootNode => some 'b'
  | flag .help => some 'h'
  | _ => none

def ofName? (name : String) : Option Switch :=
  all.find? fun switch => switch.name = name

def ofLetter? (letter : Char) : Option Switch :=
  all.find? fun switch => switch.letter? = some letter

theorem ofName?_name (switch : Switch) : ofName? switch.name = some switch := by
  rcases switch with f | p
  · cases f <;> rfl
  · cases p <;> rfl

end Switch

namespace Arguments

def digits? : List Char → Option Nat
  | [] => none
  | c :: rest =>
    if (c :: rest).all Char.isDigit then
      some ((c :: rest).foldl (fun n d => 10 * n + (d.toNat - 48)) 0)
    else none

/-- A plus sign may stand in front. -/
def natural? (text : String) : Option Nat :=
  match text.toList with
  | '+' :: rest => digits? rest
  | all => digits? all

/-- A number below a bound; a zero may have either sign. -/
def below? (bound : Nat) (text : String) : Option Nat :=
  match text.toList with
  | '-' :: rest => (digits? rest).filter (· = 0)
  | _ => (natural? text).filter (· < bound)

def u16? (text : String) : Option UInt16 :=
  (below? UInt16.size text).map UInt16.ofNat

def u32? (text : String) : Option UInt32 :=
  (below? UInt32.size text).map UInt32.ofNat

def count? (text : String) : Option Nat :=
  (natural? text).filter (· < UInt64.size)

def kinds? (text : String) : Option (List StatisticsKind) :=
  (text.splitOn ",").mapM fun name => (StatisticsKind.ofText name).toOption

def isTaken (a : Arguments) : Switch → Bool
  | .flag .seedsOnly => a.seedsOnly
  | .flag .showStatus => a.showStatus
  | .flag .metrics => a.metrics
  | .flag .help => false
  | .parameter .config => a.config.isSome
  | .parameter .address => a.address.isSome
  | .parameter .port => a.port.isSome
  | .parameter .bootNode => false
  | .parameter .nodeId => a.nodeId.isSome
  | .parameter .chainId => a.chainId.isSome
  | .parameter .maxActivePeers => a.maxActivePeers.isSome
  | .parameter .errorTolerance => a.errorTolerance.isSome
  | .parameter .showStatistics => false
  | .parameter .metricsAddress => a.metricsAddress.isSome
  | .parameter .metricsPort => a.metricsPort.isSome
  | .parameter .devBlocks => a.devBlocks.isSome

def setFlag (a : Arguments) (flag : Flag) : Except ArgumentError Arguments :=
  if a.isTaken (.flag flag) then .error (.repeated (.flag flag))
  else
    match flag with
    | .seedsOnly => .ok { a with seedsOnly := true }
    | .showStatus => .ok { a with showStatus := true }
    | .metrics => .ok { a with metrics := true }
    | .help => .error .helpWanted

/-- The arguments with a value, if the value fits. -/
def withValue? (a : Arguments) (value : String) : Parameter → Option Arguments
  | .config => some { a with config := some value }
  | .address => (Ip.ofText? value).map fun ip => { a with address := some ip }
  | .port => (u16? value).map fun port => { a with port := some port }
  | .bootNode => some { a with bootNodes := a.bootNodes ++ [value] }
  | .nodeId => some { a with nodeId := some value }
  | .chainId => (u32? value).map fun id => { a with chainId := some id }
  | .maxActivePeers => (count? value).map fun n => { a with maxActivePeers := some n }
  | .errorTolerance => (u32? value).map fun n => { a with errorTolerance := some n }
  | .showStatistics => (kinds? value).map fun kinds => { a with showStatistics := a.showStatistics ++ kinds }
  | .metricsAddress => (Ip.ofText? value).map fun ip => { a with metricsAddress := some ip }
  | .metricsPort => (u16? value).map fun port => { a with metricsPort := some port }
  | .devBlocks => (count? value).map fun n => { a with devBlocks := some n }

/-- The name of a file is never empty. -/
def setValue (a : Arguments) (parameter : Parameter) (value : String) : Except ArgumentError Arguments :=
  if a.isTaken (.parameter parameter) then .error (.repeated (.parameter parameter))
  else if parameter = .config ∧ value = "" then .error (.missingValue parameter)
  else
    match a.withValue? value parameter with
    | some a => .ok a
    | none => .error (.badValue parameter value)

/-- An option whose value is not looked at yet, or has not come. -/
abbrev Pending := Option (Parameter × Option String)

def resolve (a : Arguments) : Pending → Except ArgumentError Arguments
  | none => .ok a
  | some (parameter, none) => .error (.missingValue parameter)
  | some (parameter, some value) => a.setValue parameter value

abbrev Reading := Arguments × Pending

/-- An option with the value that is attached to it, if one is. -/
def takeSwitch (r : Reading) (switch : Switch) (attached : Option String) :
    Except ArgumentError Reading :=
  match switch, attached with
  | .flag flag, some _ => .error (.needlessValue flag)
  | .flag flag, none => do return (← (← r.1.resolve r.2).setFlag flag, none)
  | .parameter parameter, some value => do return (← (← r.1.resolve r.2).setValue parameter value, none)
  | .parameter parameter, none => do return (← r.1.resolve r.2, some (parameter, none))

def takeLong (r : Reading) (text : List Char) : Except ArgumentError Reading :=
  let name := text.takeWhile (· ≠ '=')
  let attached := match text.drop name.length with
    | _ :: value => some (String.ofList value)
    | [] => none
  match Switch.ofName? (String.ofList name) with
  | some switch => takeSwitch r switch attached
  | none => .error (.unknown ("--" ++ String.ofList text))

/-- Letters behind one dash, up to one that takes a value. -/
def takeLetters : List Char → Reading → Except ArgumentError Reading
  | [], r => .ok r
  | c :: rest, r =>
    match Switch.ofLetter? c with
    | none => .error (.unknown (String.ofList ['-', c]))
    | some (.flag flag) => (takeSwitch r (.flag flag) none).bind (takeLetters rest)
    | some (.parameter parameter) =>
      let attached := match rest with
        | [] => none
        | '=' :: value => some (String.ofList value)
        | value => some (String.ofList value)
      takeSwitch r (.parameter parameter) attached

def read : Reading → List String → Except ArgumentError Arguments
  | r, [] => r.1.resolve r.2
  | r, argument :: rest =>
    match argument.toList with
    | ['-', '-'] =>
      match rest with
      | [] => r.1.resolve r.2
      | next :: _ => .error (.unknown next)
    | '-' :: '-' :: text => do read (← takeLong r text) rest
    | '-' :: c :: letters => do read (← takeLetters (c :: letters) r) rest
    | _ =>
      match r.2 with
      | some (parameter, none) => read (r.1, some (parameter, some argument)) rest
      | _ => .error (.unknown argument)

def ofList (arguments : List String) : Except ArgumentError Arguments :=
  read ({}, none) arguments

/-- What the arguments say wins over the configuration; lists are joined. -/
def apply (a : Arguments) (c : NodeConfig) : NodeConfig :=
  { network := { c.network with
      listenAddress := a.address.getD c.network.listenAddress
      port := a.port.getD c.network.port
      bootNodes := c.network.bootNodes ++ a.bootNodes
      nodeId := a.nodeId.or c.network.nodeId
      chainId := a.chainId.getD c.network.chainId
      seedsOnly := c.network.seedsOnly || a.seedsOnly
      maxActiveNodes := a.maxActivePeers.getD c.network.maxActiveNodes
      errorTolerance := a.errorTolerance.getD c.network.errorTolerance }
    sync :=
      { showStatus := c.sync.showStatus || a.showStatus
        showStatistics := StatisticsKind.ordered (c.sync.showStatistics ++ a.showStatistics)
        maxActivePeers := a.maxActivePeers.getD c.sync.maxActivePeers }
    metrics :=
      { enabled := c.metrics.enabled || a.metrics
        address := a.metricsAddress.getD c.metrics.address
        port := a.metricsPort.getD c.metrics.port } }

end Arguments

inductive ConfigError where
  | unreadable (path : String)
  | invalid (path : String)
  deriving DecidableEq, Repr

def ConfigError.message : ConfigError → String
  | unreadable path => "cannot open config file " ++ path
  | invalid path => "invalid config file " ++ path

/-- The configuration that the arguments ask for, given the texts of files. -/
def Arguments.nodeConfig (a : Arguments) (fileText : String → Option String) :
    Except ConfigError NodeConfig :=
  match a.config with
  | none => .ok (a.apply {})
  | some path =>
    match fileText path with
    | none => .error (.unreadable path)
    | some text =>
      match NodeConfig.ofText? text with
      | none => .error (.invalid path)
      | some config => .ok (a.apply config)

end BlockSync
