import RabitKV.Int3Spec
import RabitKV.Lib.Chunks

/-!
# Which query rows a program serves

The blocks of query rows of all sequences are numbered in one go, `query_start / BLOCK_Q + i` being
the first of sequence `i`. The bisection of `find_seq_idx` finds the last sequence that starts at or
before its target (`searchLoop_spec`), so a program serves rows of one sequence, and every row of
every sequence has a program (`resolve_rowBlock`). The numbering leaves up to one block of a
sequence empty; its program returns at once.
-/

namespace RabitKV

open Chunks

section Search

variable {f : ℕ → ℕ} {t n : ℕ}

/-- Everything before `left` starts at or before the target, everything from `right` on after it. -/
theorem searchLoop_spec (hf : ∀ i j, i ≤ j → j < n → f i ≤ f j) : ∀ {fuel left right : ℕ},
    right - left ≤ fuel → left ≤ right → right ≤ n → (∀ i < left, f i ≤ t) →
      (∀ i, right ≤ i → i < n → t < f i) →
      searchLoop f t fuel left right ≤ n ∧ (∀ i < searchLoop f t fuel left right, f i ≤ t) ∧
        ∀ i, searchLoop f t fuel left right ≤ i → i < n → t < f i
  | 0, left, right, hfuel, hle, hn, hlo, hhi => by
    obtain rfl : left = right := by omega
    exact ⟨hn, hlo, hhi⟩
  | fuel + 1, left, right, hfuel, hle, hn, hlo, hhi => by
    unfold searchLoop
    split_ifs with hlt
    · have hmid : left ≤ (left + right) / 2 ∧ (left + right) / 2 < right := by omega
      dsimp only
      split_ifs with hval
      · refine searchLoop_spec hf (by omega) (by omega) hn (fun i hi => ?_) hhi
        exact (hf i _ (by omega) (by omega)).trans hval
      · refine searchLoop_spec hf (by omega) (by omega) (by omega) hlo fun i hi hin => ?_
        exact (Nat.lt_of_not_le hval).trans_le (hf _ i hi hin)
    · obtain rfl : left = right := by omega
      exact ⟨hn, hlo, hhi⟩

end Search

/-- A batch as the scheduler builds it. -/
structure Batch.Valid (b : Batch) : Prop where
  start : b.queryStartLen 0 = 0
  mono : ∀ i < b.numSeqs, b.queryStartLen i ≤ b.queryStartLen (i + 1)
  queries : ∀ i < b.numSeqs, b.queryLen i ≤ b.seqLens i

namespace Batch

variable {b : Batch} (hb : b.Valid)
include hb

theorem Valid.start_le {i j : ℕ} (hij : i ≤ j) (hj : j ≤ b.numSeqs) :
    b.queryStartLen i ≤ b.queryStartLen j := by
  induction j, hij using Nat.le_induction with
  | base => exact le_rfl
  | succ j _ ih => exact (ih (by omega)).trans (hb.mono j (by omega))

theorem Valid.start_add_lt {i pos : ℕ} (hi : i < b.numSeqs) (hpos : pos < b.queryLen i) :
    b.queryStartLen i + pos < b.queryStartLen (i + 1) := by
  have := hb.mono i hi
  unfold queryLen at hpos
  omega

theorem Valid.token_lt {numTokens i pos : ℕ} (htok : b.queryStartLen b.numSeqs ≤ numTokens)
    (hi : i < b.numSeqs) (hpos : pos < b.queryLen i) : b.queryStartLen i + pos < numTokens :=
  (hb.start_add_lt hi hpos).trans_le ((hb.start_le hi le_rfl).trans htok)

theorem Valid.context_add_lt {i pos : ℕ} (hi : i < b.numSeqs) (hpos : pos < b.queryLen i) :
    b.contextLen i + pos < b.seqLens i := by
  have := hb.queries i hi
  unfold contextLen
  omega

theorem Valid.midVal_le {blockQ : ℕ} (mode : Bool) {i j : ℕ} (hij : i ≤ j) (hj : j < b.numSeqs) :
    b.midVal blockQ mode i ≤ b.midVal blockQ mode j := by
  have hstart := hb.start_le hij hj.le
  have hdiv := Nat.div_le_div_right hstart (c := blockQ)
  unfold midVal
  split_ifs <;> omega

/-- What the bisection of `find_seq_idx` ends with. -/
theorem Valid.search (blockQ target : ℕ) (mode : Bool) :
    let r := searchLoop (b.midVal blockQ mode) target b.numSeqs 0 b.numSeqs
    r ≤ b.numSeqs ∧ (∀ i < r, b.midVal blockQ mode i ≤ target) ∧
      ∀ i, r ≤ i → i < b.numSeqs → target < b.midVal blockQ mode i :=
  searchLoop_spec (fun _ _ hij hj => hb.midVal_le mode hij hj) (Nat.sub_zero b.numSeqs).le
    (Nat.zero_le _) le_rfl (fun i hi => absurd hi (Nat.not_lt_zero i))
    fun _ hge hlt => absurd hlt (Nat.not_lt.2 hge)

/-- The bisection finds the sequence whose range holds the target. -/
theorem Valid.findSeqIdx_eq {blockQ target i : ℕ} {mode : Bool} (hi : i < b.numSeqs)
    (hlo : b.midVal blockQ mode i ≤ target) (hhi : target < b.midVal blockQ mode (i + 1)) :
    findSeqIdx b target blockQ mode = i := by
  obtain ⟨hle, hbefore, hafter⟩ := hb.search blockQ target mode
  have hgt : i < searchLoop (b.midVal blockQ mode) target b.numSeqs 0 b.numSeqs := by
    by_contra hc
    exact absurd (hafter i (Nat.not_lt.1 hc) hi) (Nat.not_lt.2 hlo)
  have hlt : searchLoop (b.midVal blockQ mode) target b.numSeqs 0 b.numSeqs ≤ i + 1 := by
    by_contra hc
    exact absurd (hbefore (i + 1) (by omega)) (Nat.not_le.2 hhi)
  unfold findSeqIdx
  omega

/-- The search of `reduce_segments`: the sequence of a query token. -/
theorem Valid.findSeqIdx_token {blockQ i pos : ℕ} (hi : i < b.numSeqs) (hpos : pos < b.queryLen i) :
    findSeqIdx b (b.queryStartLen i + pos) blockQ false = i :=
  hb.findSeqIdx_eq hi (Nat.le_add_right _ _) (hb.start_add_lt hi hpos)

/-- A sequence index the search returns is one of the batch, unless the batch is empty. -/
theorem Valid.findSeqIdx_lt {blockQ target : ℕ} {mode : Bool} (hn : 0 < b.numSeqs) :
    findSeqIdx b target blockQ mode < b.numSeqs := by
  obtain ⟨hle, -, -⟩ := hb.search blockQ target mode
  unfold findSeqIdx
  omega

/-- The sequence the search returns starts at or before the target. -/
theorem Valid.midVal_findSeqIdx_le {blockQ target : ℕ} {mode : Bool} (hn : 0 < b.numSeqs) :
    b.midVal blockQ mode (findSeqIdx b target blockQ mode) ≤ target := by
  obtain ⟨hle, hbefore, hafter⟩ := hb.search blockQ target mode
  refine hbefore _ (Nat.sub_lt (Nat.pos_of_ne_zero fun hzero => ?_) one_pos)
  have hfirst : b.midVal blockQ mode 0 = 0 := by simp [midVal, hb.start]
  have := hafter 0 hzero.le hn
  omega

end Batch

/-- Block `qBlock` of the query rows of sequence `i`. -/
@[simps]
def Batch.rowBlock (b : Batch) (i qBlock : ℕ) : SeqBlock :=
  ⟨i, qBlock, b.queryStartLen i, b.queryLen i, b.seqLens i⟩

/-- The number of the program that serves block `qBlock` of sequence `i`. -/
def Batch.blockIdx (b : Batch) (blockQ i qBlock : ℕ) : ℕ := b.queryStartLen i / blockQ + i + qBlock

section Blocks

variable {b : Batch} (hb : b.Valid) {blockQ i pos : ℕ}
include hb

/-- Every row of a sequence has a program, and the program knows it. -/
theorem resolve_rowBlock (hi : i < b.numSeqs) (hpos : pos < b.queryLen i) :
    resolveSeqAndQueryLen b (b.blockIdx blockQ i (pos / blockQ)) blockQ
      = b.rowBlock i (pos / blockQ) := by
  have hdiv : b.queryStartLen i / blockQ + pos / blockQ ≤ b.queryStartLen (i + 1) / blockQ :=
    Nat.div_add_div_le_add_div.trans (Nat.div_le_div_right (hb.start_add_lt hi hpos).le)
  have hfind : findSeqIdx b (b.blockIdx blockQ i (pos / blockQ)) blockQ true = i := by
    refine hb.findSeqIdx_eq hi ?_ ?_ <;> simp only [Batch.midVal, Batch.blockIdx, if_true]
    · exact Nat.le_add_right _ _
    · omega
  simp only [resolveSeqAndQueryLen, hfind]
  simp only [Batch.rowBlock, Batch.queryLen, Batch.blockIdx, Nat.add_sub_cancel_left]

theorem blockIdx_lt (hi : i < b.numSeqs) (hpos : pos < b.queryLen i) {numTokens : ℕ}
    (htok : b.queryStartLen b.numSeqs ≤ numTokens) :
    b.blockIdx blockQ i (pos / blockQ) < numTokens / blockQ + b.numSeqs := by
  have hdiv : b.queryStartLen i / blockQ + pos / blockQ ≤ numTokens / blockQ :=
    Nat.div_add_div_le_add_div.trans (Nat.div_le_div_right (hb.token_lt htok hi hpos).le)
  unfold Batch.blockIdx
  omega

/-- A query token belongs to one sequence. -/
theorem token_inj {i' pos' : ℕ} (hi : i < b.numSeqs) (hpos : pos < b.queryLen i)
    (hi' : i' < b.numSeqs) (hpos' : pos' < b.queryLen i')
    (h : b.queryStartLen i + pos = b.queryStartLen i' + pos') : i = i' ∧ pos = pos' := by
  have hfind : findSeqIdx b (b.queryStartLen i + pos) 0 false = i := hb.findSeqIdx_token hi hpos
  rw [h, hb.findSeqIdx_token hi' hpos'] at hfind
  subst hfind
  exact ⟨rfl, Nat.add_left_cancel h⟩

end Blocks

/-- Whatever a program serves is a block of some sequence. -/
theorem resolve_eq_rowBlock (b : Batch) (g blockQ : ℕ) :
    resolveSeqAndQueryLen b g blockQ = b.rowBlock (findSeqIdx b g blockQ true)
      (g - (b.queryStartLen (findSeqIdx b g blockQ true) / blockQ
        + findSeqIdx b g blockQ true)) := rfl

end RabitKV
