import BlockSync.Proofs.Wire.Streams

/-! How the reading of a stream ends. What is left behind the last whole frame decides it. If
that breaks off in a header or in a block, the error is the same as if nothing were left, so the
error alone does not tell a stream that was cut from one that was closed between two frames. -/
namespace BlockSync

theorem WireError.isEnd_iff {error : WireError} : error.isEnd = true ↔ error = .endOfStream := by
  cases error <;> simp [isEnd]

namespace Frame

variable {e : Envelope} {envelopes : List Envelope} {stream more rest left block : Bytes}

/-- Frames that are read off a stream one after another, and what is left of it then. -/
inductive Yields : Bytes → List Envelope → Bytes → Prop where
  | nil (stream : Bytes) : Yields stream [] stream
  | cons {stream more rest : Bytes} {e : Envelope} {envelopes : List Envelope}
      (first : read stream = .ok (e, more)) (further : Yields more envelopes rest) :
      Yields stream (e :: envelopes) rest

theorem Yields.suffix (h : Yields stream envelopes rest) : rest <:+ stream := by
  induction h with
  | nil stream => exact List.suffix_refl stream
  | cons first _ ih =>
    obtain ⟨front, rfl, -⟩ := read_eq_ok first
    exact ih.trans (List.suffix_append front _)

theorem Yields.unique (h : Yields stream envelopes rest) (other : Yields stream envelopes left) :
    left = rest := by
  induction h with
  | nil =>
    cases other
    rfl
  | cons first _ ih =>
    cases other with
    | cons again further =>
      rw [first] at again
      cases again
      exact ih further

theorem yields_readAll (stream : Bytes) :
    ∃ rest, Yields stream (readAll stream).1 rest ∧ read rest = .error (readAll stream).2 := by
  induction stream using readAll.induct with
  | case1 stream error failed =>
    rw [readAll_of_error failed]
    exact ⟨stream, .nil stream, failed⟩
  | case2 stream e more first _ _ _ _ ih =>
    obtain ⟨rest, further, failed⟩ := ih
    rw [readAll_of_ok first]
    exact ⟨rest, .cons first further, failed⟩

/-- The length of the block that the frame at the front of a stream announces. -/
def announced (stream : Bytes) : Nat :=
  (readHeader (stream.take 8)).2

/-- There is something, but not a whole header. -/
def EndsInHeader (stream : Bytes) : Prop :=
  stream ≠ [] ∧ stream.length < 8

/-- There is a header, and less than the block that it announces and that would be read. -/
def EndsInBlock (stream : Bytes) : Prop :=
  8 ≤ stream.length ∧ announced stream ≤ maxBody ∧ stream.length < 8 + announced stream

theorem takeExactly_of_long {n : Nat} {bytes : Bytes} (long : n ≤ bytes.length) :
    bytes.takeExactly n = .ok (bytes.take n, bytes.drop n) := by
  rw [Bytes.takeExactly, if_pos (by rw [List.length_take, Nat.min_eq_left long])]

theorem readBody_ne_end (block : Bytes) : readBody block ≠ .error .endOfStream := by
  unfold readBody
  split
  · nofun
  · split
    · nofun
    · split <;> nofun

/-- What is read behind a whole header. -/
theorem read_of_header (long : 8 ≤ stream.length) :
    read stream =
      if maxBody < announced stream then .error (.frameTooLarge (announced stream))
      else if stream.length < 8 + announced stream then .error .endOfStream
      else (readBody ((stream.drop 8).take (announced stream))).map fun body =>
        (⟨(readHeader (stream.take 8)).1, body⟩, (stream.drop 8).drop (announced stream)) := by
  have behind : (stream.drop 8).length = stream.length - 8 := List.length_drop
  rw [read, takeExactly_of_long long]
  dsimp only
  rw [← announced]
  by_cases large : maxBody < announced stream
  · rw [if_pos large, if_pos large]
  · rw [if_neg large, if_neg large]
    by_cases short : stream.length < 8 + announced stream
    · rw [if_pos short, takeExactly_of_short (by omega)]
    · rw [if_neg short, takeExactly_of_long (by omega)]
      dsimp only
      cases readBody ((stream.drop 8).take (announced stream)) <;> rfl

/-- The two places at which a frame may break off give the error that the empty stream gives,
and nothing else does. -/
theorem read_eq_end_iff :
    read stream = .error .endOfStream ↔
      stream = [] ∨ EndsInHeader stream ∨ EndsInBlock stream := by
  rcases Nat.lt_or_ge stream.length 8 with short | long
  · have ended : read stream = .error .endOfStream := by simp [read, takeExactly_of_short short]
    by_cases empty : stream = []
    · exact iff_of_true ended (.inl empty)
    · exact iff_of_true ended (.inr (.inl ⟨empty, short⟩))
  · have header : ¬ (stream = [] ∨ EndsInHeader stream) := by
      rintro (rfl | ⟨-, short⟩)
      · exact absurd long (by decide)
      · exact absurd short (Nat.not_lt.2 long)
    rw [← or_assoc, or_iff_right header, read_of_header long]
    split
    · rename_i large
      exact iff_of_false (by simp) fun inside => absurd inside.2.1 (Nat.not_le.2 large)
    · rename_i small
      split
      · rename_i short
        exact iff_of_true rfl ⟨long, Nat.not_lt.1 small, short⟩
      · rename_i whole
        refine iff_of_false ?_ fun inside => whole inside.2.2
        intro ended
        cases opened : readBody ((stream.drop 8).take (announced stream)) with
        | ok body => simp [opened, Except.map] at ended
        | error error =>
          rw [opened] at ended
          cases ended
          exact readBody_ne_end _ opened

/-- Whatever a stream holds, its frames are read up to one that cannot be. The error says that
the stream ended if nothing is left then, and also if what is left breaks off in a header or in
a block. It tells the end between two frames from all others only in streams that do not. -/
theorem ending_of_stream (stream : Bytes) :
    let (envelopes, error) := readAll stream
    ∃ rest, rest <:+ stream ∧ (∀ left, Yields stream envelopes left ↔ left = rest) ∧
      read rest = .error error ∧
      (error.isEnd = true ↔ rest = [] ∨ EndsInHeader rest ∨ EndsInBlock rest) ∧
      ((error.isEnd = true ↔ rest = []) ↔ ¬ EndsInHeader rest ∧ ¬ EndsInBlock rest) := by
  obtain ⟨rest, yields, failed⟩ := yields_readAll stream
  have ended : (readAll stream).2.isEnd = true ↔
      rest = [] ∨ EndsInHeader rest ∨ EndsInBlock rest := by
    rw [WireError.isEnd_iff, ← read_eq_end_iff, failed, Except.error.injEq]
  have header : EndsInHeader rest → rest ≠ [] := And.left
  have block : EndsInBlock rest → rest ≠ [] := by
    rintro ⟨long, -⟩ rfl
    exact absurd long (by decide)
  refine ⟨rest, yields.suffix, ?_, failed, ended, ?_⟩
  · intro left
    exact ⟨yields.unique, fun same => same ▸ yields⟩
  · rw [ended]
    tauto

/-- A stream that is cut in the header of its second frame, or in its block, ends like one that
was closed behind the first. -/
theorem ended_inside_frame :
    let greeting : Bytes := [0, 1, 1, 2, 0, 0, 0, 7, 5, 16, 104, 101, 108, 108, 111]
    ∀ cut ∈ ([[0, 1, 1], [0, 1, 1, 2, 0, 0, 0, 7, 5]] : List Bytes),
      Yields (greeting ++ cut) (readAll (greeting ++ cut)).1 cut ∧ cut ≠ [] ∧
        (readAll (greeting ++ cut)).2.isEnd = true := by
  intro greeting cut listed
  have written : write ⟨⟨1, 1, 2⟩, [104, 101, 108, 108, 111]⟩ = .ok greeting := rfl
  have inside : cut <+: greeting ∧ cut ≠ greeting ∧ cut ≠ [] := by
    revert cut
    decide
  obtain ⟨part, strict, something⟩ := inside
  have first := read_write written cut
  have failed := read_of_cut written part strict
  rw [readAll_of_ok first, readAll_of_error failed]
  exact ⟨.cons first (.nil cut), something, rfl⟩

end Frame

end BlockSync
