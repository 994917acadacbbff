import BlockSync.Chain

/-! A deterministic block producer for development. Nodes that start from the same
seed make the same blocks, each ten seconds after the one before it and signed
with the key of the seed. -/
namespace BlockSync

def devSeed : Bytes := List.replicate 32 7

def genesisBlock : Block :=
  let body : Body := ⟨[]⟩
  ⟨{ Header.empty with timestamp := 1600000000, difficulty := 1, txRoot := body.root }, body⟩

/-- The header of a block with this body on top of `parent`, not signed by anyone. -/
def Header.unsignedChild (parent : Header) (body : Body) (difficulty : Difficulty) : Header :=
  { Header.empty with
    number := parent.number + 1, parentHash := parent.hash, timestamp := parent.timestamp + 10
    difficulty, txRoot := body.root }

structure Producer (scheme : SignatureScheme) where
  key : scheme.Key
  tip : Header
  difficulty : Difficulty

namespace Producer

variable {scheme : SignatureScheme}

def new? (scheme : SignatureScheme) (seed : Bytes) : Option (Producer scheme) :=
  (scheme.keyOfSeed seed).map fun key => ⟨key, genesisBlock.header, 1⟩

def setDifficulty (p : Producer scheme) (difficulty : UInt64) : Producer scheme :=
  { p with difficulty := BitVec.ofNat 256 difficulty.toNat }

def nextBlock (p : Producer scheme) (transactions : List Bytes) : Block × Producer scheme :=
  let body : Body := ⟨transactions⟩
  let unsigned := { p.tip.unsignedChild body p.difficulty with
    extraData := "dev".toUTF8.toList, publicKey := scheme.publicKey p.key }
  let header := { unsigned with signature := scheme.sign p.key unsigned.mineHash.toBytes }
  (⟨header, body⟩, { p with tip := header })

/-- The one transaction of a block made by `blocks`. -/
def devTransaction (number : UInt64) : Bytes :=
  s!"dev-tx-{number}".toUTF8.toList

def blocks (p : Producer scheme) : Nat → List Block × Producer scheme
  | 0 => ([], p)
  | count + 1 =>
    let (block, p) := p.nextBlock [devTransaction (p.tip.number + 1)]
    let (more, p) := blocks p count
    (block :: more, p)

end Producer

def devChain (scheme : SignatureScheme) (count : Nat) : Option Chain :=
  let chain := Chain.new genesisBlock {}
  if count = 0 then some chain else
    (Producer.new? scheme devSeed).map fun p =>
      chain.offerAll (p.blocks count).1

end BlockSync
