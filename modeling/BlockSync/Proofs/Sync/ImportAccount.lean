import BlockSync.Sync.Import
import Mathlib.Data.List.Induction

/-! The account of an import. A record lists the blocks of a batch in their order, each with the
answer of the chain, or with none if the cache knew its hash when its turn came. The chain, the
cache, the metrics and the summary after the import are what the record says. -/
namespace BlockSync

theorem ImportResult.label_injective : Function.Injective label := by
  intro result other
  cases result <;> cases other <;> simp [label]

def Recency.insertAll (cache : Recency Hash Unit) (hashes : List Hash) : Recency Hash Unit :=
  hashes.foldl (fun cache hash => cache.insert hash ()) cache

theorem Recency.insertAll_append (cache : Recency Hash Unit) (hashes more : List Hash) :
    cache.insertAll (hashes ++ more) = (cache.insertAll hashes).insertAll more := by
  simp [insertAll]

abbrev BatchRecord := List (Block × Option ImportResult)

namespace BatchRecord

/-- The blocks that were offered to the chain. -/
def offered (r : BatchRecord) : List Block :=
  r.filterMap fun entry => entry.2.map fun _ => entry.1

/-- The hashes of the blocks that the chain said are stored. -/
def connected (r : BatchRecord) : List Hash :=
  r.filterMap fun entry => if entry.2.any Intake.connects then some entry.1.hash else none

def answered (r : BatchRecord) (result : ImportResult) : Nat :=
  r.countP fun entry => entry.2 = some result

def skipped (r : BatchRecord) : Nat :=
  r.countP fun entry => entry.2 = none

/-- The number of the last block that became the best one. -/
def best (r : BatchRecord) : Option UInt64 :=
  (r.filter fun entry => entry.2 = some .importedBest).getLast?.map (·.1.number)

variable {r : BatchRecord} {block : Block} {answer : Option ImportResult}

@[simp] theorem offered_concat : offered (r ++ [(block, answer)]) =
    offered r ++ (answer.map fun _ => block).toList := by
  cases answer <;> simp [offered]

@[simp] theorem connected_concat : connected (r ++ [(block, answer)]) =
    connected r ++ if answer.any Intake.connects then [block.hash] else [] := by
  cases answer <;> simp [connected, List.filterMap_cons]
  split <;> simp_all

@[simp] theorem answered_concat (result : ImportResult) :
    answered (r ++ [(block, answer)]) result =
      answered r result + if answer = some result then 1 else 0 := by
  simp [answered, List.countP_cons]

@[simp] theorem skipped_concat : skipped (r ++ [(block, answer)]) =
    skipped r + if answer = none then 1 else 0 := by
  simp [skipped, List.countP_cons]

@[simp] theorem best_concat : best (r ++ [(block, answer)]) =
    if answer = some .importedBest then some block.number else best r := by
  by_cases heaviest : answer = some .importedBest <;> simp [best, heaviest]

end BatchRecord

namespace Intake

/-- What an import makes of a block: the answer of the chain unless the cache knows the hash. -/
def answer? (i : Intake) (block : Block) : Option ImportResult :=
  if i.imported.contains block.hash then none else some (i.chain.offer block).1

/-- How the record of a batch accounts for an import. -/
structure Account (i : Intake) (r : BatchRecord) (j : Intake) (summary : ImportSummary) : Prop where
  answers : ∀ (front : BatchRecord) block answer back, r = front ++ (block, answer) :: back →
    answer =
      if (i.imported.insertAll front.connected).contains block.hash then none
      else some ((i.chain.offerAll front.offered).offer block).1
  chain : j.chain = i.chain.offerAll r.offered
  cache : j.imported = i.imported.insertAll r.connected
  imported : summary.imported = r.answered .importedBest + r.answered .importedNotBest
  stored : summary.stored = r.answered .storedForLater
  ignored : summary.ignored =
    r.skipped + r.answered .alreadyKnown + r.answered .noParent + r.answered .invalid
  total : summary.imported + summary.stored + summary.ignored = r.length
  best : summary.best = r.best
  results : ∀ result : ImportResult, j.metrics.imported.get result.label =
    i.metrics.imported.get result.label + r.answered result
  others : ∀ label, (∀ result : ImportResult, result.label ≠ label) →
    j.metrics.imported.get label = i.metrics.imported.get label
  elsewhere : j.metrics = { i.metrics with imported := j.metrics.imported }

variable {i j : Intake} {r : BatchRecord} {summary : ImportSummary} {block : Block}

theorem account_nil (i : Intake) : Account i [] i .zero where
  answers := by simp
  chain := rfl
  cache := rfl
  imported := rfl
  stored := rfl
  ignored := rfl
  total := rfl
  best := rfl
  results _ := rfl
  others _ _ := rfl
  elsewhere := rfl

/-- One more block is entered with what is made of it after all the others. -/
theorem Account.answers_concat (h : Account i r j summary) (block : Block) :
    ∀ (front : BatchRecord) other answer back,
      r ++ [(block, j.answer? block)] = front ++ (other, answer) :: back →
      answer =
        if (i.imported.insertAll front.connected).contains other.hash then none
        else some ((i.chain.offerAll front.offered).offer other).1 := by
  intro front other answer back split
  rcases List.eq_nil_or_concat back with rfl | ⟨middle, last, rfl⟩
  · obtain ⟨rfl, same⟩ := List.append_inj' split rfl
    cases same
    rw [answer?, h.chain, h.cache]
  · rw [List.concat_eq_append, ← List.cons_append, ← List.append_assoc] at split
    exact h.answers front other answer middle (List.append_inj' split rfl).1

theorem Account.skip (h : Account i r j summary) (known : j.imported.contains block.hash = true) :
    Account i (r ++ [(block, none)]) j { summary with ignored := summary.ignored + 1 } where
  answers := by
    have answers := h.answers_concat block
    rwa [answer?, if_pos known] at answers
  chain := by simp [h.chain]
  cache := by simp [h.cache]
  imported := by simp [h.imported]
  stored := by simp [h.stored]
  ignored := by
    simp [h.ignored]
    omega
  total := by
    simp [← h.total]
    omega
  best := by simp [h.best]
  results := by simp [h.results]
  others := h.others
  elsewhere := h.elsewhere

theorem Account.enter (h : Account i r j summary) (fresh : j.imported.contains block.hash = false)
    {result : ImportResult} (told : (j.chain.offer block).1 = result) :
    Account i (r ++ [(block, some result)])
      { chain := (j.chain.offer block).2
        imported := if connects result then j.imported.insert block.hash () else j.imported
        metrics := j.metrics.noteImported result }
      (summary.count block result) where
  answers := by
    have answers := h.answers_concat block
    rwa [answer?, fresh, if_neg nofun, told] at answers
  chain := by simp [h.chain, Chain.offerAll]
  cache := by
    rw [BatchRecord.connected_concat, Option.any_some, Recency.insertAll_append, ← h.cache]
    split <;> rfl
  imported := by cases result <;> simp [ImportSummary.count, h.imported] <;> omega
  stored := by cases result <;> simp [ImportSummary.count, h.stored]
  ignored := by cases result <;> simp [ImportSummary.count, h.ignored] <;> omega
  total := by cases result <;> simp [ImportSummary.count, ← h.total] <;> omega
  best := by cases result <;> simp [ImportSummary.count, h.best]
  results other := by
    simp [Metrics.noteImported, Counters.get_increment, h.results,
      ImportResult.label_injective.eq_iff, Nat.add_assoc]
  others label apart := by
    simp [Metrics.noteImported, Counters.get_increment, h.others label apart, apart]
  elsewhere := by rw [Metrics.noteImported, h.elsewhere]

theorem Account.concat (h : Account i r j summary) (block : Block) :
    Account i (r ++ [(block, j.answer? block)]) (importBlock (j, summary) block).1
      (importBlock (j, summary) block).2 := by
  cases known : j.imported.contains block.hash with
  | true =>
    have entered := h.skip known
    simpa [importBlock, answer?, known] using entered
  | false =>
    have entered := h.enter known rfl
    simpa [importBlock, answer?, known] using entered

/-- An import accounts for each block of a batch in its turn. -/
theorem account_of_batch (i : Intake) (blocks : List Block) :
    ∃ r : BatchRecord, r.map (·.1) = blocks ∧
      Account i r (i.importBlocks blocks).1 (i.importBlocks blocks).2 := by
  induction blocks using List.reverseRecOn with
  | nil => exact ⟨[], rfl, account_nil i⟩
  | append_singleton front block ih =>
    obtain ⟨r, same, account⟩ := ih
    refine ⟨r ++ [(block, (i.importBlocks front).1.answer? block)], ?_, ?_⟩
    · rw [List.map_append, same, List.map_singleton]
    · have step := account.concat block
      simpa [importBlocks] using step

end Intake

end BlockSync
