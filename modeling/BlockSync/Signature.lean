import BlockSync.Bytes

/-! What the library asks of a signature scheme: keys made from a seed, a public
form of a key, signatures over a message, and a check that tells a malformed key
or signature from one that does not match. Nothing here says that a signature is
hard to forge; a law that needs verification to accept what signing made states
it as a hypothesis on the scheme. -/
namespace BlockSync

inductive SignatureError where
  | malformedKey
  | malformedSignature
  | mismatch
  deriving DecidableEq, Repr

structure SignatureScheme where
  Key : Type
  keyOfSeed : Bytes → Option Key
  publicKey : Key → Bytes
  sign : Key → Bytes → Bytes
  /-- The arguments are the public key, the message and the signature. -/
  verify : Bytes → Bytes → Bytes → Except SignatureError Unit

end BlockSync
