import BlockSync.Statistics.Report
import Mathlib.Data.List.Forall2

/-! What the tables of the statistics say, read from their text. A line begins with the display
id of its peer. What follows are the counts of the peer, as words of their own however wide the
columns are: each stands behind a blank, even if its column is too narrow for it. -/
namespace BlockSync.Statistics

/-- What stands between the blanks and line ends of a text. -/
def words (text : List Char) : List (List Char) :=
  (text.splitOnP Char.isWhitespace).filter (· ≠ [])

/-- A text that is one word. -/
def Word (text : String) : Prop :=
  text.toList ≠ [] ∧ ∀ c ∈ text.toList, c.isWhitespace = false

variable {α : Type} {xs ys : List Char} {c : Char} {peer text : String} {cells : List String}

theorem words_append_cons (blank : c.isWhitespace = true) (xs ys : List Char) :
    words (xs ++ c :: ys) = words xs ++ words ys := by
  rw [words, List.splitOnP_append_cons xs ys blank, List.filter_append]
  rfl

theorem words_cons (blank : c.isWhitespace = true) (ys : List Char) : words (c :: ys) = words ys :=
  words_append_cons blank [] ys

/-- What begins with a blank does not go on with a word. -/
theorem words_append (xs : List Char) (blank : ∀ c ∈ ys.head?, c.isWhitespace = true) :
    words (xs ++ ys) = words xs ++ words ys := by
  cases ys with
  | nil => rw [List.append_nil, show words [] = [] from rfl, List.append_nil]
  | cons c rest =>
    have blank : c.isWhitespace = true := blank c rfl
    rw [words_append_cons blank, words_cons blank]

theorem words_replicate_append (n : Nat) (ys : List Char) :
    words (List.replicate n ' ' ++ ys) = words ys := by
  induction n with
  | zero => rfl
  | succ n ih => rw [List.replicate_succ, List.cons_append, words_cons rfl, ih]

theorem Word.words_eq (h : Word text) : words text.toList = [text.toList] := by
  rw [words, List.splitOnP_eq_singleton h.2, List.filter_cons_of_pos (by simpa using h.1),
    List.filter_nil]

theorem isWhitespace_of_isDigit (digit : c.isDigit = true) : c.isWhitespace = false := by
  by_contra blank
  simp only [Bool.not_eq_false, Char.isWhitespace, Bool.or_eq_true, decide_eq_true_eq] at blank
  rcases blank with ((rfl | rfl) | rfl) | rfl <;> cases digit

theorem word_toString (n : Nat) : Word (toString n) := by
  rw [Word, Nat.toString_eq_repr, Nat.toList_repr]
  refine ⟨Nat.toDigits_ne_nil, fun c member => isWhitespace_of_isDigit ?_⟩
  exact Nat.isDigit_of_mem_toDigits (by decide) (by decide) member

theorem words_of_numbers (numbers : List Nat) : ∀ cell ∈ numbers.map toString, Word cell := by
  intro cell member
  obtain ⟨n, -, rfl⟩ := List.mem_map.1 member
  exact word_toString n

/-- A line begins with the id of a peer and goes on with its cells, one word each. -/
structure Shows (peer : String) (cells : List String) (line : String) : Prop where
  starts : ' ' :: peer.toList <+: line.toList
  words : words line.toList = words peer.toList ++ cells.map String.toList
  ends : ∃ front, line.toList = front ++ ['\n'] ∧ ('\n' ∉ peer.toList → '\n' ∉ front)

/-- A title, set in the middle of a rule. -/
def Heads (title : String) (line : String) : Prop :=
  ∃ left right, line.toList =
      '\n' :: (List.replicate left '=' ++ ' ' :: title.toList ++ ' ' :: List.replicate right '=') ++
        ['\n'] ∧ left ≤ right ∧ right ≤ left + 1 ∧ left + right = 70 - title.length

/-- Below its title a table has a line for its columns and then one for each peer. -/
def Prints (title : String) (columns : List String) (cells : α → List String)
    (rows : List (String × α)) (text : String) : Prop :=
  ∃ top head lines, text = top ++ head ++ String.join lines ∧ Heads title top ∧
    Shows "peer" columns head ∧ List.Forall₂ (fun row line => Shows row.1 (cells row.2) line) rows lines

theorem heads_banner (title : String) : Heads title (banner title) := by
  refine ⟨(70 - title.length) / 2, 70 - title.length - (70 - title.length) / 2, ?_, ?_, ?_, ?_⟩
  · have space : 72 - (" ".length + title.length + " ".length) = 70 - title.length := by
      change 72 - (1 + title.length + 1) = _
      omega
    simp only [banner, Text.ruled, String.length_append, space]
    simp
  · omega
  · omega
  · omega

/-- The cells of a line, each set in its column. -/
def columnText (width : Nat) (cells : List String) : List Char :=
  cells.flatMap fun cell => ' ' :: cell.toList.leftpad width ' '

theorem toList_countRow (width : Nat) (peer : String) (cells : List String) :
    (countRow width peer cells).toList =
      ' ' :: peer.toList ++ (List.replicate (8 - peer.toList.length) ' ' ++
        (columnText width cells ++ ['\n'])) := by
  simp [countRow, row, columnText, Text.alignLeft, Text.alignRight, List.rightpad,
    String.toList_join, List.flatMap_map]

theorem blank_columnText (width : Nat) (cells : List String) :
    ∀ c ∈ (columnText width cells ++ ['\n']).head?, c.isWhitespace = true := by
  cases cells with
  | nil => exact fun c first => by cases first; rfl
  | cons cell rest => exact fun c first => by cases first; rfl

theorem words_columnText (width : Nat) (single : ∀ cell ∈ cells, Word cell) :
    words (columnText width cells ++ ['\n']) = cells.map String.toList := by
  induction cells with
  | nil => rfl
  | cons cell rest ih =>
    have front : columnText width (cell :: rest) ++ ['\n'] =
        ' ' :: (List.replicate (width - cell.toList.length) ' ' ++
          (cell.toList ++ (columnText width rest ++ ['\n']))) := by
      simp [columnText, List.leftpad]
    rw [front, words_cons rfl, words_replicate_append, words_append _ (blank_columnText width rest),
      (single cell List.mem_cons_self).words_eq,
      ih fun text member => single text (List.mem_cons_of_mem _ member)]
    rfl

theorem not_mem_columnText (width : Nat) (single : ∀ cell ∈ cells, Word cell) :
    '\n' ∉ columnText width cells := by
  rw [columnText, List.mem_flatMap]
  rintro ⟨cell, member, inside⟩
  rcases List.mem_cons.1 inside with blank | padded
  · cases blank
  · rcases List.mem_append.1 padded with pad | written
    · cases (List.mem_replicate.1 pad).2
    · cases (single cell member).2 '\n' written

theorem shows_countRow (width : Nat) (peer : String) (single : ∀ cell ∈ cells, Word cell) :
    Shows peer cells (countRow width peer cells) := by
  have line := toList_countRow width peer cells
  refine ⟨?_, ?_, ?_⟩
  · rw [line]
    exact List.prefix_append _ _
  · have blank : ∀ c ∈ (List.replicate (8 - peer.toList.length) ' ' ++
        (columnText width cells ++ ['\n'])).head?, c.isWhitespace = true := by
      cases 8 - peer.toList.length with
      | zero => exact blank_columnText width cells
      | succ n => exact fun c first => by cases first; rfl
    rw [line, List.cons_append, words_cons rfl, words_append _ blank, words_replicate_append,
      words_columnText width single]
  · refine ⟨' ' :: peer.toList ++ (List.replicate (8 - peer.toList.length) ' ' ++
      columnText width cells), ?_, ?_⟩
    · rw [line]
      simp
    · intro plain inside
      rcases List.mem_append.1 inside with id | behind
      · rcases List.mem_cons.1 id with blank | own
        · cases blank
        · exact plain own
      · rcases List.mem_append.1 behind with pad | column
        · cases (List.mem_replicate.1 pad).2
        · exact not_mem_columnText width single column

theorem prints_table (title : String) (width : Nat) {columns : List String}
    {cells : α → List String} (rows : List (String × α)) (named : ∀ column ∈ columns, Word column)
    (single : ∀ a, ∀ cell ∈ cells a, Word cell) :
    Prints title columns cells rows (table title width columns cells rows) := by
  refine ⟨banner title, countRow width "peer" columns,
    rows.map fun row => countRow width row.1 (cells row.2), ?_, heads_banner title,
    shows_countRow width "peer" named, ?_⟩
  · simp only [table]
  · rw [List.forall₂_map_right_iff, List.forall₂_same]
    exact fun row _ => shows_countRow width row.1 (single row.2)

end BlockSync.Statistics
