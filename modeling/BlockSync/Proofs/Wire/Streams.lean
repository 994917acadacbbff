import BlockSync.Proofs.Wire.Frames
import Mathlib.Data.List.Forall2

/-! Streams of frames. Frames that follow on one another are read back in order, and a cut
inside the last one is noticed. Whatever a stream holds, a frame that is read takes up its
header and the length announced there, and its body keeps to the limit. -/
namespace BlockSync.Frame

variable {e : Envelope} {frame cut block body stream rest : Bytes}

theorem takeExactly_of_short {n : Nat} {bytes : Bytes} (short : bytes.length < n) :
    bytes.takeExactly n = .error .endOfInput := by
  have less : (bytes.take n).length ≠ n := by
    rw [List.length_take]
    omega
  rw [Bytes.takeExactly, if_neg less]

theorem writes_iff : (∃ frame, write e = .ok frame) ↔
    e.body.length ≤ maxBody ∧ (Snappy.compress e.body).length ≤ maxBody := by
  constructor
  · rintro ⟨frame, written⟩
    obtain ⟨body, block, -⟩ := write_eq_ok written
    exact ⟨body, block⟩
  · rintro ⟨body, block⟩
    simp [write, Nat.not_lt.2 body, Nat.not_lt.2 block]

theorem readBody_eq_ok (h : readBody block = .ok body) :
    Snappy.decompress block = some body ∧ body.length ≤ maxBody := by
  unfold readBody at h
  split at h
  · cases h
  · rename_i length declared
    split at h
    · cases h
    · rename_i bound
      split at h
      · rename_i text expanded
        cases h
        rw [Snappy.declaredLength_of_decompress expanded] at declared
        cases declared
        exact ⟨expanded, Nat.not_lt.1 bound⟩
      · cases h

theorem read_eq_ok (h : read stream = .ok (e, rest)) :
    ∃ front, stream = front ++ rest ∧ front.length = 8 + (readHeader (stream.take 8)).2 ∧
      e.route = (readHeader (stream.take 8)).1 ∧ e.body.length ≤ maxBody := by
  unfold read at h
  split at h
  · cases h
  · rename_i head tail headed
    obtain ⟨eight, rfl⟩ := Bytes.eq_append_of_takeExactly headed
    rw [List.take_left' eight]
    dsimp only at h
    split at h
    · cases h
    · split at h
      · cases h
      · rename_i block more taken
        obtain ⟨size, rfl⟩ := Bytes.eq_append_of_takeExactly taken
        split at h
        · rename_i body opened
          cases h
          refine ⟨head ++ block, by simp, by simp [eight, size], rfl, (readBody_eq_ok opened).2⟩
        · cases h

/-- A frame that is cut off is not read, wherever the cut is. -/
theorem read_of_cut (written : write e = .ok frame) (inside : cut <+: frame)
    (strict : cut ≠ frame) : read cut = .error .endOfStream := by
  obtain ⟨-, bound, rfl⟩ := write_eq_ok written
  have eight := length_header e.route (Snappy.compress e.body).length
  have small : maxBody < 2 ^ 32 := by decide
  obtain ⟨missing, whole⟩ := inside
  have some_missing : missing ≠ [] := by
    rintro rfl
    exact strict (by simpa using whole)
  have lost := List.length_pos_iff.2 some_missing
  have sizes := congrArg List.length whole
  simp only [List.length_append, eight] at sizes
  rcases Nat.lt_or_ge cut.length 8 with short | long
  · simp [read, takeExactly_of_short short]
  · -- the header is whole, and then the block is not
    obtain ⟨part, rfl⟩ : header e.route (Snappy.compress e.body).length <+: cut := by
      refine List.prefix_of_prefix_length_le (List.prefix_append _ _) ⟨missing, whole⟩ ?_
      rwa [eight]
    have head := Bytes.takeExactly_append (header e.route (Snappy.compress e.body).length) part
    rw [eight] at head
    rw [List.length_append, eight] at sizes
    have short : part.length < (Snappy.compress e.body).length := by omega
    simp [read, head, readHeader_header _ (Nat.lt_of_le_of_lt bound small), Nat.not_lt.2 bound,
      takeExactly_of_short short]

end BlockSync.Frame
