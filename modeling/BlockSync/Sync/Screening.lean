import BlockSync.Header.Rules

/-! Batches of headers are taken as a whole or not at all: every header has to pass
the validator and to extend the one before it. The first offending header decides,
and the validator is asked first. Of a batch that passes, the headers that are not
imported yet are kept. -/
namespace BlockSync

inductive BatchRejection where
  | invalid (number : UInt64) (cause : HeaderError)
  | discontinuous (number : UInt64)
  deriving DecidableEq, Repr

namespace BatchRejection

def reason : BatchRejection → String
  | invalid .. => "invalid"
  | discontinuous _ => "discontinuous"

def message : BatchRejection → String
  | invalid number cause =>
    "header " ++ number.toNat.repr ++ " failed validation: " ++ cause.message
  | discontinuous number =>
    "header " ++ number.toNat.repr ++ " does not extend the previous header"

end BatchRejection

/-- A number and a hash that the next header has to build on. -/
abbrev ChainEnd := UInt64 × Hash

def Header.extends? (h : Header) (e : ChainEnd) : Bool :=
  e.1.toNat + 1 = h.number.toNat && h.parentHash = e.2

abbrev Validator := Header → Except HeaderError Unit

/-- The headers that are not `known`, if the batch follows on `last`. -/
def screenFrom (validate : Validator) (known : Hash → Bool) :
    Option ChainEnd → List Header → Except BatchRejection (List Header)
  | _, [] => .ok []
  | last, h :: rest =>
    match validate h with
    | .error cause => .error (.invalid h.number cause)
    | .ok () =>
      if last.all h.extends? then
        let hash := h.hash
        match screenFrom validate known (some (h.number, hash)) rest with
        | .error e => .error e
        | .ok fresh => .ok (if known hash then fresh else h :: fresh)
      else .error (.discontinuous h.number)

def screen (validate : Validator) (known : Hash → Bool) (headers : List Header) :
    Except BatchRejection (List Header) :=
  screenFrom validate known none headers

end BlockSync
