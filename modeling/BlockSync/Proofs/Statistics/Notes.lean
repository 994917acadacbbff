import BlockSync.Statistics
import Mathlib.Data.Finset.Dedup

/-! What is noted in the statistics of a node, one note after the other. -/
namespace BlockSync.Statistics

inductive Note where
  | imported (n : UInt64)
  | request (peer : String) (kind : RequestKind) (now : Instant)
  | response (peer : String) (kind : RequestKind) (now : Instant)
  | blocks (peer : String) (outcome : BlockOutcome) (n : UInt64)
  | served (peer : String) (n : UInt64)
  deriving DecidableEq, Repr

def note (s : Statistics) : Note → Statistics
  | .imported n => s.addImported n
  | .request peer kind now => s.recordRequest peer kind now
  | .response peer kind now => (s.recordResponse peer kind now).2
  | .blocks peer outcome n => s.recordBlocks peer outcome n
  | .served peer n => s.recordServed peer n

def noteAll (s : Statistics) (notes : List Note) : Statistics :=
  notes.foldl note s

@[simp] theorem noteAll_append (s : Statistics) (notes more : List Note) :
    s.noteAll (notes ++ more) = (s.noteAll notes).noteAll more :=
  List.foldl_append

@[simp] theorem noteAll_singleton (s : Statistics) (n : Note) : s.noteAll [n] = s.note n :=
  rfl

end BlockSync.Statistics
