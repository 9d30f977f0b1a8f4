import RabitKV.Serve
import RabitKV.Lib.Shadow
import RabitKV.Proofs.FastAppend

/-!
# Serving a request is a run of the window with a private copy

The fast buffers are the private copy of `Lib.Shadow`: a one-token step works on them, and a chunk
plan changes the public fields without telling them. So a cut of a request's tokens into scheduler
steps gives the token-by-token states exactly when it is not `Interleaved`.
-/

namespace RabitKV

open Chunks Stores Window

section Advance

variable {F ι : Type} [DecidableEq ι] {fp : Fp F Bf16} {H D : ℕ}

/-- A request's window, its pages and the copy in the fast buffers. -/
abbrev Tracked (H D : ℕ) (F : Type) := Copied residualTokens groupSize (KV H D) (Aged H D F)

/-- The fast path serves CUDA tokens of the production shape. -/
def fastShape (cuda : Bool) (H D : ℕ) : Bool := cuda && decide (H = 8 ∧ D = 128)

theorem fastShape_iff {cuda : Bool} :
    fastShape cuda H D = true ↔ cuda = true ∧ H = 8 ∧ D = 128 := by
  simp [fastShape]

/-- What the tokens of one step make of a request: its next window, the pages they close and the
next copy. -/
abbrev moves (fp : Fp F Bf16) (cuda : Bool) (c : Tracked H D F) (chunk : List (KV H D)) :=
  c.moved (ageKV fp) (kernelAge fp) (fastShape cuda H D) chunk

/-- The request after the step. -/
abbrev follow (fp : Fp F Bf16) (cuda : Bool) (c : Tracked H D F) (chunk : List (KV H D)) :
    Tracked H D F :=
  c.step (ageKV fp) (kernelAge fp) (fastShape cuda H D) chunk

/-- The table has blocks for the pages. -/
abbrev Fits (row : List ι) (closedPages : ℕ) (ps : List (List (Aged H D F))) : Prop :=
  ps = [] ∨ closedPages + ps.length ≤ row.length

variable {row : List ι} {p : Physical ι} {cuda : Bool} (ha : Aligned H D)
  (hwidth : p.cache.width = (pageLayout groupSize H D D).pageBytes)

section Slow

variable (w : SeqWin H D F) {kvs : List (KV H D)}

include ha hwidth

/-- The slow path drops the buffers. -/
theorem slowAppend_run (hrow : Fits row p.closedPages (w.batch (ageKV fp) kvs).2)
    (fast : Option (Fast F)) :
    (slowAppend fp cuda row (kvs.map Prod.fst) (kvs.map Prod.snd)).run ⟨hold w p, fast⟩
      = .ok () ⟨hold (w.batch (ageKV fp) kvs).1 (written fp row p (w.batch (ageKV fp) kvs).2),
          none⟩ := by
  have hrun := append_run fp cuda row ha w kvs hwidth hrow
  unfold slowAppend
  simp only [EStateM.run_bind, EStateM.run_modify]
  rw [onHeld_run hrun]

theorem slowAppend_raises (hrow : ¬ Fits row p.closedPages (w.batch (ageKV fp) kvs).2)
    (fast : Option (Fast F)) :
    ∃ st, Jammed st ∧
      (slowAppend fp cuda row (kvs.map Prod.fst) (kvs.map Prod.snd)).run ⟨hold w p, fast⟩
        = .error tooShort ⟨st, none⟩ := by
  obtain ⟨hpages, hlong⟩ := not_or.1 hrow
  obtain ⟨st, hjam, hrun⟩ :=
    append_raises fp cuda row ha w kvs hwidth hpages (Nat.lt_of_not_le hlong)
  refine ⟨st, hjam, ?_⟩
  unfold slowAppend
  simp only [EStateM.run_bind, EStateM.run_modify]
  rw [onHeld_raises hrun]

/-- Bulk append and the chunk plan with all its steps are one batch past the copy. -/
theorem advance_long (junk : FastBuffers F) (hlong : 1 < kvs.length)
    (hrow : Fits row p.closedPages (w.batch (ageKV fp) kvs).2)
    (contextLen : ℤ) (fast : Option (Fast F)) :
    (advance fp junk cuda row contextLen kvs).run ⟨hold w p, fast⟩
      = .ok () ⟨hold (w.batch (ageKV fp) kvs).1 (written fp row p (w.batch (ageKV fp) kvs).2),
          fast⟩ := by
  have hne : kvs ≠ [] := by
    rintro rfl
    cases hlong
  unfold advance
  by_cases h0 : contextLen = 0
  · have hbulk := bulkAppend_run fp row ha w kvs hwidth
    rw [if_pos hrow] at hbulk
    rw [if_pos ⟨h0, hlong⟩]
    exact onHeld_run hbulk fast
  · have hplan := chunkPlan_run fp row ha w hne hwidth
    rw [if_pos hrow] at hplan
    have hsteps := applySteps_run fp w p.closedPages
      (written fp row p (w.batch (ageKV fp) kvs).2).cache kvs kvs.length 0 (by omega)
    rw [stepped_zero, Nat.zero_add, stepped, List.take_length] at hsteps
    rw [if_neg fun hc => h0 hc.1, if_pos hlong]
    simp only [EStateM.run_bind, onHeld_run hplan, onHeld_run hsteps]
    rfl

theorem advance_long_raises (junk : FastBuffers F) (hlong : 1 < kvs.length)
    (hrow : ¬ Fits row p.closedPages (w.batch (ageKV fp) kvs).2)
    (contextLen : ℤ) (fast : Option (Fast F)) :
    ∃ e st, (advance fp junk cuda row contextLen kvs).run ⟨hold w p, fast⟩ = .error e st := by
  have hne : kvs ≠ [] := by
    rintro rfl
    cases hlong
  unfold advance
  by_cases h0 : contextLen = 0
  · have hbulk := bulkAppend_run fp row ha w kvs hwidth
    rw [if_neg hrow] at hbulk
    rw [if_pos ⟨h0, hlong⟩]
    exact ⟨_, _, onHeld_raises hbulk fast⟩
  · have hplan := chunkPlan_run fp row ha w hne hwidth
    rw [if_neg hrow] at hplan
    rw [if_neg fun hc => h0 hc.1, if_pos hlong]
    simp only [EStateM.run_bind, onHeld_raises hplan]
    exact ⟨_, _, rfl⟩

end Slow

section One

variable (junk : FastBuffers F)

omit [DecidableEq ι] in
/-- The buffers a fast step works on hold the copy, fresh or kept. -/
theorem prepareFastBuffers_copy {c : Tracked 8 128 F} {fast : Option (Fast F)}
    (hfast : Option.Rel FastRep fast c.copy) (hfull : residualTokens ≤ c.pub.recent.length)
    (p : Physical ι) :
    ∃ (f : Fast F) (before : Option (Fast F)), FastRep f (c.copy.getD c.pub) ∧
      prepareFastBuffers junk true ⟨hold c.pub p, fast⟩ = some (f, ⟨hold c.pub p, before⟩) := by
  rcases hc : c.copy with _ | w <;> rw [hc] at hfast <;> cases hfast
  · obtain ⟨f, hrep, hprep⟩ := prepareFastBuffers_fresh junk c.pub p
      (Nat.le_antisymm c.pub.recent_le hfull)
    exact ⟨f, _, hrep, hprep⟩
  · rename_i f hrep
    exact ⟨f, _, hrep, rfl⟩

theorem advance_one (row : List ι) (contextLen : ℤ) (kv : KV H D) :
    advance fp junk cuda row contextLen [kv] = fastDecodeAppend fp junk cuda row [kv.1] [kv.2] := by
  unfold advance
  rw [if_neg (by simp), if_neg (by simp)]
  rfl

end One

include ha hwidth

/-- One token through the rebound append is one step of the window with its copy. -/
theorem fastDecodeAppend_one (junk : FastBuffers F) {c : Tracked H D F} {fast : Option (Fast F)}
    (hfast : Option.Rel FastRep fast c.copy) (kv : KV H D)
    (hrow : Fits row p.closedPages (moves fp cuda c [kv]).2.1) :
    ∃ fast', (fastDecodeAppend fp junk cuda row [kv.1] [kv.2]).run ⟨hold c.pub p, fast⟩
        = .ok () ⟨hold (moves fp cuda c [kv]).1 (written fp row p (moves fp cuda c [kv]).2.1),
            fast'⟩ ∧
      Option.Rel FastRep fast' (moves fp cuda c [kv]).2.2 := by
  have hrecent : lenOpt (hold c.pub p).side.recentK = c.pub.recent.length := lenOpt_recentK c.pub
  by_cases hfull : fastShape cuda H D = true ∧ residualTokens ≤ c.pub.recent.length
  · obtain ⟨rfl, rfl, rfl⟩ := fastShape_iff.1 hfull.1
    rw [moves, Copied.moved_single _ ⟨hfull.1, rfl, hfull.2⟩] at hrow ⊢
    obtain ⟨f, before, hrep, hprep⟩ := prepareFastBuffers_copy junk hfast hfull.2 p
    obtain ⟨f', hrep', hrun⟩ := fastToken_run row kv hrep
      (toSidecar c.pub.opened c.pub.recent) before hwidth hrow
    refine ⟨some f', ?_, Option.Rel.some hrep'⟩
    rw [fastDecodeAppend_full junk row kv.1 kv.2 (by rw [hrecent]; exact hfull.2) hprep]
    exact hrun
  · rw [moves, Copied.moved_batch _ fun hc => hfull ⟨hc.1, hc.2.2⟩] at hrow ⊢
    refine ⟨none, ?_, by rw [if_pos List.length_singleton]; exact Option.Rel.none⟩
    rw [fastDecodeAppend_slow junk row kv.1 kv.2]
    · exact slowAppend_run ha hwidth c.pub hrow fast
    · rw [hrecent]
      exact fun hc => hfull ⟨fastShape_iff.2 ⟨hc.1, hc.2.1, hc.2.2.1⟩, hc.2.2.2⟩

theorem fastDecodeAppend_one_raises (junk : FastBuffers F) {c : Tracked H D F}
    {fast : Option (Fast F)} (hfast : Option.Rel FastRep fast c.copy) (kv : KV H D)
    (hrow : ¬ Fits row p.closedPages (moves fp cuda c [kv]).2.1) :
    ∃ st left, Jammed st ∧
      (fastDecodeAppend fp junk cuda row [kv.1] [kv.2]).run ⟨hold c.pub p, fast⟩
        = .error tooShort ⟨st, left⟩ := by
  have hrecent : lenOpt (hold c.pub p).side.recentK = c.pub.recent.length := lenOpt_recentK c.pub
  by_cases hfull : fastShape cuda H D = true ∧ residualTokens ≤ c.pub.recent.length
  · obtain ⟨rfl, rfl, rfl⟩ := fastShape_iff.1 hfull.1
    rw [moves, Copied.moved_single _ ⟨hfull.1, rfl, hfull.2⟩] at hrow
    obtain ⟨f, before, hrep, hprep⟩ := prepareFastBuffers_copy junk hfast hfull.2 p
    rw [fastDecodeAppend_full junk row kv.1 kv.2 (by rw [hrecent]; exact hfull.2) hprep]
    exact fastToken_raises row kv hrep (toSidecar c.pub.opened c.pub.recent) before hwidth hrow
  · rw [moves, Copied.moved_batch _ fun hc => hfull ⟨hc.1, hc.2.2⟩] at hrow
    obtain ⟨st, hjam, hrun⟩ := slowAppend_raises ha hwidth c.pub hrow fast
    refine ⟨st, none, hjam, ?_⟩
    rw [fastDecodeAppend_slow junk row kv.1 kv.2]
    · exact hrun
    · rw [hrecent]
      exact fun hc => hfull ⟨fastShape_iff.2 ⟨hc.1, hc.2.1, hc.2.2.1⟩, hc.2.2.2⟩

/-- One step of the code is one step of the window with its copy, if the pages fit the table. -/
theorem advance_moves (junk : FastBuffers F) {c : Tracked H D F} {fast : Option (Fast F)}
    (hfast : Option.Rel FastRep fast c.copy) {chunk : List (KV H D)} (hne : chunk ≠ [])
    (hrow : Fits row p.closedPages (moves fp cuda c chunk).2.1) (contextLen : ℤ) :
    ∃ fast', (advance fp junk cuda row contextLen chunk).run ⟨hold c.pub p, fast⟩
        = .ok () ⟨hold (moves fp cuda c chunk).1 (written fp row p (moves fp cuda c chunk).2.1),
            fast'⟩ ∧
      Option.Rel FastRep fast' (moves fp cuda c chunk).2.2 := by
  by_cases hone : chunk.length = 1
  · obtain ⟨kv, rfl⟩ := List.length_eq_one_iff.1 hone
    rw [advance_one]
    exact fastDecodeAppend_one ha hwidth junk hfast kv hrow
  · have hlong : 1 < chunk.length := by
      have := List.length_pos_of_ne_nil hne
      omega
    rw [moves, Copied.moved_batch _ fun hc => hone hc.2.1] at hrow ⊢
    exact ⟨fast, advance_long ha hwidth c.pub junk hlong hrow contextLen fast,
      by rw [if_neg hone]; exact hfast⟩

/-- It raises if they do not. -/
theorem advance_raises (junk : FastBuffers F) {c : Tracked H D F} {fast : Option (Fast F)}
    (hfast : Option.Rel FastRep fast c.copy) {chunk : List (KV H D)} (hne : chunk ≠ [])
    (hrow : ¬ Fits row p.closedPages (moves fp cuda c chunk).2.1) (contextLen : ℤ) :
    ∃ e st, (advance fp junk cuda row contextLen chunk).run ⟨hold c.pub p, fast⟩ = .error e st := by
  by_cases hone : chunk.length = 1
  · obtain ⟨kv, rfl⟩ := List.length_eq_one_iff.1 hone
    obtain ⟨st, left, -, hrun⟩ := fastDecodeAppend_one_raises ha hwidth junk hfast kv hrow
    rw [advance_one]
    exact ⟨_, _, hrun⟩
  · have hlong : 1 < chunk.length := by
      have := List.length_pos_of_ne_nil hne
      omega
    rw [moves, Copied.moved_batch _ fun hc => hone hc.2.1] at hrow
    exact advance_long_raises ha hwidth c.pub junk hlong hrow contextLen fast

omit ha hwidth in
/-- The fast path takes one token at a time. -/
theorem fastDecodeAppend_many (junk : FastBuffers F) {chunk : List (KV H D)}
    (hone : chunk.length ≠ 1) :
    fastDecodeAppend fp junk cuda row (chunk.map Prod.fst) (chunk.map Prod.snd)
      = slowAppend fp cuda row (chunk.map Prod.fst) (chunk.map Prod.snd) := by
  rcases chunk with _ | ⟨a, _ | ⟨b, rest⟩⟩
  · rfl
  · exact absurd rfl hone
  · rfl

end Advance

section Request

variable {F ι : Type} [DecidableEq ι] {fp : Fp F Bf16} {H D : ℕ} {reqId : String} {row : List ι}

/-- The runtime follows `c`. -/
structure Tracks (rt : Runtime H D F) (c : Tracked H D F) : Prop where
  side : rt.side = toSidecar c.pub.opened c.pub.recent
  closedPages : rt.closedPages = c.pages.length
  fast : Option.Rel FastRep rt.fast c.copy

/-- A window before its first token. -/
def newTrack (H D : ℕ) (F : Type) : Tracked H D F := ⟨Win.empty groupSize_pos, [], none⟩

theorem tracks_new : Tracks ({} : Runtime H D F) (newTrack H D F) :=
  ⟨rfl, rfl, Option.Rel.none⟩

theorem Tracks.total {rt : Runtime H D F} {c : Tracked H D F} (h : Tracks rt c) :
    totalTokens rt.closedPages rt.side
      = c.pages.length * groupSize + c.pub.opened.length + c.pub.recent.length := by
  rw [h.side, h.closedPages]
  exact totalTokens_hold _ _

omit [DecidableEq ι] in
theorem onRuntime_run {α : Type} {rt : Runtime H D F} {m : LiveM H D F ι α}
    {layer : Layer H D F ι} {a : α} {s : Live H D F ι}
    (h : m.run (rt.attach layer.cache) = .ok a s) :
    (onRuntime reqId rt m).run layer
      = .ok a { layer.put reqId s.runtime with cache := s.held.rest.cache } := by
  simp only [onRuntime, EStateM.run] at h ⊢
  rw [h]

omit [DecidableEq ι] in
theorem onRuntime_raises {α : Type} {rt : Runtime H D F} {m : LiveM H D F ι α}
    {layer : Layer H D F ι} {e : String} {s : Live H D F ι}
    (h : m.run (rt.attach layer.cache) = .error e s) :
    (onRuntime reqId rt m).run layer
      = .error e { layer.put reqId s.runtime with cache := s.held.rest.cache } := by
  simp only [onRuntime, EStateM.run] at h ⊢
  rw [h]

/-- A request that does not sit the step out works on the runtime it is bound to. -/
theorem forwardRequest_bound {junk : FastBuffers F} {cuda : Bool} {layer : Layer H D F ι}
    {contextLen : ℤ} {rt : Runtime H D F} (hbind : bindRuntime reqId contextLen layer = .ok rt)
    {chunk : List (KV H D)} (hne : chunk ≠ []) :
    (forwardRequest fp junk cuda reqId row contextLen chunk).run layer
      = (onRuntime reqId rt (advance fp junk cuda row contextLen chunk)).run layer := by
  have hlen : ¬ chunk.length = 0 := fun h => hne (List.eq_nil_of_length_eq_zero h)
  unfold forwardRequest
  rw [if_neg hlen]
  simp only [EStateM.run_bind, EStateM.run_get, hbind]

omit [DecidableEq ι] in
theorem Tracks.attach {rt : Runtime H D F} {c : Tracked H D F} (h : Tracks rt c) (cache : Cache ι) :
    rt.attach cache = ⟨hold c.pub ⟨c.pages.length, cache⟩, rt.fast⟩ := by
  rw [Runtime.attach, h.side, h.closedPages]
  rfl

section Bound

variable (ha : Aligned H D) (junk : FastBuffers F) {cuda : Bool} {layer : Layer H D F ι}
  (hwidth : layer.cache.width = (pageLayout groupSize H D D).pageBytes) {contextLen : ℤ}
  {rt : Runtime H D F} (hbind : bindRuntime reqId contextLen layer = .ok rt) {c : Tracked H D F}
  (htracks : Tracks rt c) {chunk : List (KV H D)} (hne : chunk ≠ [])

include ha hwidth hbind htracks hne

/-- A step of a request moves its window on and writes the pages that close. -/
theorem forwardRequest_moves (hfit : Fits row c.pages.length (moves fp cuda c chunk).2.1) :
    ∃ rt', (forwardRequest fp junk cuda reqId row contextLen chunk).run layer
        = .ok () { layer.put reqId rt' with
            cache := (written fp row ⟨c.pages.length, layer.cache⟩
              (moves fp cuda c chunk).2.1).cache } ∧
      Tracks rt' (follow fp cuda c chunk) := by
  obtain ⟨fast, hrun, hfast⟩ := advance_moves (p := ⟨c.pages.length, layer.cache⟩) ha hwidth junk
    htracks.fast hne hfit contextLen
  rw [← htracks.attach] at hrun
  refine ⟨_, (forwardRequest_bound hbind hne).trans (onRuntime_run hrun), rfl, ?_, hfast⟩
  rw [follow, Live.runtime, Copied.step, List.length_append]
  rfl

theorem forwardRequest_fits {layer' : Layer H D F ι}
    (hrun : (forwardRequest fp junk cuda reqId row contextLen chunk).run layer = .ok () layer') :
    Fits row c.pages.length (moves fp cuda c chunk).2.1 := by
  by_contra hfit
  obtain ⟨e, st, hraise⟩ := advance_raises (p := ⟨c.pages.length, layer.cache⟩) ha hwidth junk
    htracks.fast hne hfit contextLen
  rw [← htracks.attach] at hraise
  rw [forwardRequest_bound hbind hne, onRuntime_raises hraise] at hrun
  cases hrun

end Bound

end Request

section Serve

variable {F ι : Type} [DecidableEq ι] {fp : Fp F Bf16} {reqId : String} {row : List ι}

/-- The kernels age as the window does. -/
theorem moves_eq (hround : RoundsHalfEven fp) (c : Tracked 8 128 F) (chunk : List (KV 8 128)) :
    moves fp true c chunk = c.moved (ageKV fp) (ageKV fp) true chunk := by
  rw [moves, kernelAge, hround.kernelFp_eq]
  rfl

/-- The run of the window with its copy that a cut of the tokens makes. -/
abbrev copyRun (fp : Fp F Bf16) (steps : List (List (KV 8 128))) : Tracked 8 128 F :=
  Copied.run (ageKV fp) groupSize_pos steps

/-- A layer serves the request in the state `c`, from the given cache on. -/
structure Serves (fp : Fp F Bf16) (row : List ι) (cache : Cache ι) (layer : Layer 8 128 F ι)
    (rt : Runtime 8 128 F) (c : Tracked 8 128 F) : Prop where
  tracks : Tracks rt c
  cache : layer.cache = (written fp row ⟨0, cache⟩ c.pages).cache

/-- A request bound to a runtime in the state `c` moves on by one step. -/
theorem forwardRequest_run (hround : RoundsHalfEven fp) (junk : FastBuffers F) {cache : Cache ι}
    (hwidth : cache.width = (pageLayout groupSize 8 128 128).pageBytes)
    {layer : Layer 8 128 F ι} {c : Tracked 8 128 F}
    {contextLen : ℤ} {rt : Runtime 8 128 F} (hbind : bindRuntime reqId contextLen layer = .ok rt)
    (hs : Serves fp row cache layer rt c) {chunk : List (KV 8 128)}
    (hne : chunk ≠ []) (hrow : (c.advance (ageKV fp) chunk).pages.length ≤ row.length) :
    ∃ layer' rt', (forwardRequest fp junk true reqId row contextLen chunk).run layer
        = .ok () layer' ∧ layer'.runtimes reqId = some rt' ∧
      Serves fp row cache layer' rt' (c.advance (ageKV fp) chunk) := by
  have hpages : (c.advance (ageKV fp) chunk).pages = c.pages ++ (moves fp true c chunk).2.1 := by
    rw [moves_eq hround]
    rfl
  rw [hpages, List.length_append] at hrow
  have hwidth' : layer.cache.width = (pageLayout groupSize 8 128 128).pageBytes := by
    rw [hs.cache]
    exact hwidth
  have hfit : Fits row c.pages.length (moves fp true c chunk).2.1 := Or.inr hrow
  obtain ⟨rt', hrun, htracks⟩ := forwardRequest_moves aligned_production junk hwidth' hbind
    hs.tracks hne hfit
  refine ⟨_, rt', hrun, Function.update_self _ _ _, ?_, ?_⟩
  · rw [follow, kernelAge, hround.kernelFp_eq] at htracks
    exact htracks
  · have hfirst : (⟨c.pages.length, layer.cache⟩ : Physical ι)
      = written fp row ⟨0, cache⟩ c.pages := by
      rw [hs.cache, written, Nat.zero_add]
    rw [hpages, written_append fp _ (by rw [Nat.zero_add]; omega), ← hfirst]

variable (reqId) in
omit [DecidableEq ι] in
theorem bindRuntime_zero (layer : Layer 8 128 F ι) :
    bindRuntime reqId 0 layer = .ok ({} : Runtime 8 128 F) := rfl

theorem serves_fresh (layer : Layer 8 128 F ι) :
    Serves fp row layer.cache layer {} ⟨Win.empty groupSize_pos, [], none⟩ :=
  ⟨tracks_new, by rw [written_nil]⟩

theorem bindRuntime_serves {cache : Cache ι} {layer : Layer 8 128 F ι} {rt : Runtime 8 128 F}
    {c : Tracked 8 128 F} {xs : List (KV 8 128)} (hget : layer.runtimes reqId = some rt)
    (hs : Serves fp row cache layer rt c) (hplain : c.Plain (ageKV fp) groupSize_pos xs)
    (hne : xs ≠ []) : bindRuntime reqId xs.length layer = .ok rt := by
  have hpos := List.length_pos_of_ne_nil hne
  have htotal : totalTokens rt.closedPages rt.side = xs.length :=
    hs.tracks.total.trans hplain.total
  unfold bindRuntime
  rw [if_neg (by omega), if_neg (by omega), hget]
  simp only [htotal, ne_eq, not_true_eq_false, if_false]

theorem serve_append (junk : FastBuffers F) (chunk : List (KV 8 128)) :
    ∀ (steps : List (List (KV 8 128))) (context : ℕ),
      serve fp junk true reqId row context (steps ++ [chunk])
        = (do serve fp junk true reqId row context steps
              forwardRequest fp junk true reqId row
                ((context + steps.flatten.length : ℕ) : ℤ) chunk)
  | [], context => by
    simp [serve]
  | ts :: steps, context => by
    rw [List.cons_append, serve, serve, serve_append junk chunk steps, bind_assoc,
      List.flatten_cons, List.length_append, Nat.add_assoc]

theorem flatten_take_succ {steps : List (List (KV 8 128))} {k : ℕ} (hk : k < steps.length) :
    (steps.take (k + 1)).flatten = (steps.take k).flatten ++ steps[k] := by
  rw [← List.take_append_getElem hk, List.flatten_append, List.flatten_singleton]

theorem length_flatten_take_le (steps : List (List (KV 8 128))) (k : ℕ) :
    (steps.take k).flatten.length ≤ steps.flatten.length :=
  (List.Sublist.flatten (List.take_sublist k steps)).length_le

/-- As long as the states before are plain, the served request follows the window with its copy. -/
theorem serve_take (hround : RoundsHalfEven fp) (junk : FastBuffers F) (layer : Layer 8 128 F ι)
    (hwidth : layer.cache.width = (pageLayout groupSize 8 128 128).pageBytes)
    {steps : List (List (KV 8 128))} (hne : ∀ ts ∈ steps, ts ≠ [])
    (hlong : steps.flatten.length ≤ row.length * groupSize) : ∀ k, k < steps.length →
    (∀ m ≤ k, (copyRun fp (steps.take m)).Plain (ageKV fp) groupSize_pos
      (steps.take m).flatten) →
    ∃ layer' rt, (serve fp junk true reqId row 0 (steps.take (k + 1))).run layer = .ok () layer' ∧
      layer'.runtimes reqId = some rt ∧
      Serves fp row layer.cache layer' rt (copyRun fp (steps.take (k + 1))) := by
  have hfits : ∀ k (hk : k < steps.length), (copyRun fp (steps.take k)).Plain (ageKV fp)
      groupSize_pos (steps.take k).flatten →
      ((copyRun fp (steps.take k)).advance (ageKV fp) steps[k]).pages.length ≤ row.length := by
    intro k hk hplain
    refine hplain.length_pages_advance (ageKV fp) (hne _ (List.getElem_mem hk)) (le_trans ?_ hlong)
    rw [← List.length_append, ← flatten_take_succ hk]
    exact length_flatten_take_le steps (k + 1)
  have hcopy : ∀ k (hk : k < steps.length), copyRun fp (steps.take (k + 1))
      = (copyRun fp (steps.take k)).advance (ageKV fp) steps[k] :=
    fun k hk => Copied.run_take_succ (ageKV fp) steps hk
  intro k hk hplain
  have hstep := hne _ (List.getElem_mem hk)
  rw [hcopy k hk, ← List.take_append_getElem hk, serve_append, Nat.zero_add]
  induction k with
  | zero =>
    obtain ⟨layer', rt, hrun, hs⟩ := forwardRequest_run hround junk hwidth
      (bindRuntime_zero reqId layer) (serves_fresh layer) hstep (hfits 0 hk (hplain 0 le_rfl))
    exact ⟨layer', rt, by simpa [serve] using hrun, hs⟩
  | succ k ih =>
    have hk' : k < steps.length := by omega
    obtain ⟨mid, rt, hmid, hget, hs⟩ := ih hk' (fun m hm => hplain m (by omega))
      (hne _ (List.getElem_mem hk'))
    rw [← hcopy k hk'] at hs
    have hne' : (steps.take (k + 1)).flatten ≠ [] := by
      rw [flatten_take_succ hk']
      exact fun h => hne _ (List.getElem_mem _) (List.append_eq_nil_iff.1 h).2
    have hbind := bindRuntime_serves hget hs (hplain (k + 1) le_rfl) hne'
    obtain ⟨layer', rt', hrun, hs'⟩ := forwardRequest_run hround junk hwidth hbind hs hstep
      (hfits (k + 1) hk (hplain (k + 1) le_rfl))
    refine ⟨layer', rt', ?_, hs'⟩
    have hserve : (serve fp junk true reqId row 0 (steps.take (k + 1))).run layer = .ok () mid := by
      rw [← List.take_append_getElem hk', serve_append, Nat.zero_add]
      exact hmid
    rw [EStateM.run_bind, hserve]
    exact hrun

end Serve

section Schedule

variable {F ι : Type} [DecidableEq ι] {fp : Fp F Bf16}

/-- After every scheduler step the public fields and the closed pages are those of the plain append
of the same tokens, one at a time. -/
def StepsExact (fp : Fp F Bf16) (junk : FastBuffers F) (reqId : String) (row : List ι)
    (layer : Layer 8 128 F ι) (steps : List (List (KV 8 128))) : Prop :=
  ∀ k < steps.length, ∃ layer' rt plain,
    (serve fp junk true reqId row 0 (steps.take (k + 1))).run layer = .ok () layer' ∧
    layer'.runtimes reqId = some rt ∧
    (appends fp true row ((steps.take (k + 1)).flatten.map fun kv => [kv])).run
      (freshRuntime layer.cache) = .ok () plain ∧
    rt.side = plain.side ∧ rt.closedPages = plain.rest.closedPages ∧
    ∀ id ∈ row.take rt.closedPages, layer'.cache.rows id = plain.rest.cache.rows id

variable (fp) in
/-- The plain append, token by token. -/
theorem appends_single (row : List ι) (cache : Cache ι)
    (hwidth : cache.width = (pageLayout groupSize 8 128 128).pageBytes) (kvs : List (KV 8 128))
    (hlong : kvs.length ≤ row.length * groupSize) :
    (appends fp true row (kvs.map fun kv => [kv])).run (freshRuntime cache)
      = .ok () (hold (seqWin fp kvs).1 (written fp row ⟨0, cache⟩ (seqWin fp kvs).2)) := by
  have hflat : (kvs.map fun kv => [kv]).flatten = kvs := List.flatMap_singleton' kvs
  have htotal := (Win.empty groupSize_pos : SeqWin 8 128 F).batch_total (ageKV fp) kvs
  have hpages : 0 + (seqWin fp kvs).2.length ≤ row.length := by
    refine Nat.le_of_mul_le_mul_right (le_trans ?_ hlong) groupSize_pos
    have hzero : (Win.empty groupSize_pos : SeqWin 8 128 F).opened.length
        + (Win.empty groupSize_pos : SeqWin 8 128 F).recent.length = 0 := rfl
    rw [Nat.zero_add]
    unfold seqWin
    omega
  rw [freshRuntime_eq, appends_run fp true row aligned_production _ _ hwidth]
  · rw [hflat]
    rfl
  · rw [hflat]
    exact hpages

theorem optList_inj {α : Type} {a b : List α} (h : optList a = optList b) : a = b := by
  rcases a with _ | ⟨x, a⟩ <;> rcases b with _ | ⟨y, b⟩ <;> simp_all [optList]

/-- Serving agrees with the plain append after every step, for all tokens, exactly when no fast
decode step is followed by a chunk and then by another decode step. -/
theorem serve_exact_iff_not_interleaved (hround : RoundsHalfEven fp) (junk : FastBuffers F)
    (reqId : String) (row : List ι) (layer : Layer 8 128 F ι)
    (hwidth : layer.cache.width = (pageLayout groupSize 8 128 128).pageBytes) {cut : List ℕ}
    (hpos : ∀ q ∈ cut, 0 < q) (hlong : cut.sum ≤ row.length * groupSize) :
    (∀ steps : List (List (KV 8 128)), steps.map List.length = cut →
        StepsExact fp junk reqId row layer steps) ↔ ¬ Interleaved residualTokens cut := by
  have hsum : ∀ steps : List (List (KV 8 128)), steps.map List.length = cut →
      steps.flatten.length ≤ row.length * groupSize := fun steps h => by
    rwa [List.length_flatten, h]
  have hne : ∀ steps : List (List (KV 8 128)), steps.map List.length = cut →
      ∀ ts ∈ steps, ts ≠ [] := by
    rintro steps rfl ts hts rfl
    have := hpos 0 (List.mem_map.2 ⟨[], hts, rfl⟩)
    omega
  constructor
  · intro hall hint
    obtain ⟨steps, hcut, k, hk, hplain, ha, hc⟩ := Copied.exists_run_ne (ageKV fp) groupSize_pos
      (by decide) hpos hint ((fun _ _ => 0, fun _ _ => 0) : KV 8 128)
      (fun _ _ => 1, fun _ _ => 1)
    obtain ⟨layer', rt, plain, hserve, hrt, hrun, hside, -⟩ := hall steps hcut k hk
    obtain ⟨layer'', rt', hserve', hget, hs⟩ := serve_take hround junk layer hwidth
      (hne steps hcut) (hsum steps hcut) k hk hplain
    rw [hserve] at hserve'
    cases hserve'
    rw [hrt] at hget
    cases hget
    rw [appends_single fp row layer.cache hwidth _
      ((length_flatten_take_le steps _).trans (hsum steps hcut))] at hrun
    cases hrun
    rw [hs.tracks.side] at hside
    have hrecent := optList_inj (congrArg Sidecar.recentK hside)
    have h0 := congrArg (fun l => l[residualTokens - 2]?) hrecent
    simp only [List.getElem?_map, ha, seqWin, hc, Option.map_some, Option.some.injEq] at h0
    exact absurd (congrFun (congrFun h0 0) 0) (by decide)
  · intro hnot steps hcut k hk
    have hplain : ∀ m ≤ steps.length, (copyRun fp (steps.take m)).Plain (ageKV fp) groupSize_pos
        (steps.take m).flatten := fun m hm => by
      refine Copied.run_take_plain (ageKV fp) (hne steps hcut) ?_ hm
      rwa [hcut, List.take_of_length_le (by rw [← hcut, List.length_map])]
    obtain ⟨layer', rt, hserve, hget, hs⟩ := serve_take hround junk layer hwidth
      (hne steps hcut) (hsum steps hcut) k hk fun m hm => hplain m (by omega)
    have hpair := hplain (k + 1) hk
    have hpub : (copyRun fp (steps.take (k + 1))).pub
      = (seqWin fp (steps.take (k + 1)).flatten).1 := congrArg Prod.fst hpair
    have hpages : (copyRun fp (steps.take (k + 1))).pages
      = (seqWin fp (steps.take (k + 1)).flatten).2 := congrArg Prod.snd hpair
    refine ⟨layer', rt, _, hserve, hget, appends_single fp row layer.cache hwidth _
      ((length_flatten_take_le steps _).trans (hsum steps hcut)), ?_, ?_, ?_⟩
    · rw [hs.tracks.side, hpub]
      rfl
    · rw [hs.tracks.closedPages, hpages, hold, written_closedPages, Nat.zero_add]
    · intro id _
      rw [hs.cache, hpages]
      rfl

end Schedule

section Concrete

theorem ratFp_roundsHalfEven : RoundsHalfEven ratFp := by
  intro x
  have hodd : ∀ n : ℤ, n % 2 ≠ 0 ↔ n % 2 = 1 := fun n => by omega
  simp [roundEvenNonneg, ratFp, exactFp, roundHalfEven, hodd]

/-- Buffers as `torch.empty` may hand them out. -/
def zeroBuffers : FastBuffers ℚ :=
  ⟨fun _ => 0, fun _ => 0, fun _ => 0, fun _ => 0, fun _ => 0, fun _ => 0⟩

/-- A layer of two blocks that serves nothing yet. -/
def idleLayer : Layer 8 128 ℚ (Fin 2) :=
  ⟨fun _ => none, (pageLayout groupSize 8 128 128).pageBytes, fun _ => []⟩

/-- Distinct tokens in steps of the given sizes. -/
def rampSteps (cut : List ℕ) : List (List (KV 8 128)) :=
  cut.splitLengths (rampTokens 8 128 cut.sum)

theorem length_rampTokens (H D n : ℕ) : (rampTokens H D n).length = n := by
  simp [rampTokens]

theorem map_length_rampSteps (cut : List ℕ) : (rampSteps cut).map List.length = cut :=
  List.map_splitLengths_length _ _ (length_rampTokens 8 128 cut.sum).ge

theorem serve_exact_thirty_seven_one_one : RoundsHalfEven ratFp ∧
    StepsExact ratFp zeroBuffers "r" [1, 0] idleLayer (rampSteps [37, 1, 1]) := by
  refine ⟨ratFp_roundsHalfEven, ?_⟩
  exact (serve_exact_iff_not_interleaved ratFp_roundsHalfEven zeroBuffers "r" [1, 0] idleLayer rfl
    (by decide) (by decide)).2 (by decide) _ (map_length_rampSteps _)

theorem length_opened {F : Type} (fp : Fp F Bf16) {kvs : List (KV 8 128)} {n : ℕ}
    (hlen : kvs.length = n + residualTokens) (hn : n < groupSize) :
    (seqWin fp kvs).1.opened.length = n := by
  have hent : ((Win.empty groupSize_pos : SeqWin 8 128 F).entries (ageKV fp) kvs).length = n := by
    rw [Win.length_entries, Win.leaving, List.length_append, hlen]
    simp [Win.empty]
  rw [seqWin, Win.batch_opened, hent, Nat.div_eq_of_lt hn, Nat.zero_mul, List.drop_zero, hent]

/-- After steps of 4, 1, 2 and 1 tokens the served open group has two tokens, the plain one four. -/
theorem serve_stale_after_chunk : ∃ layer' rt plain,
    (serve ratFp zeroBuffers true "r" [1, 0] 0 (rampSteps [4, 1, 2, 1])).run idleLayer
      = .ok () layer' ∧
    layer'.runtimes "r" = some rt ∧
    (appends ratFp true [1, 0] ((rampSteps [4, 1, 2, 1]).flatten.map fun kv => [kv])).run
      (freshRuntime idleLayer.cache) = .ok () plain ∧
    lenOpt rt.side.openK = 2 ∧ lenOpt plain.side.openK = 4 ∧ rt.side ≠ plain.side := by
  have hmap := map_length_rampSteps [4, 1, 2, 1]
  have hne : ∀ ts ∈ rampSteps [4, 1, 2, 1], ts ≠ [] := by
    intro ts hts hnil
    have hmem : ts.length ∈ [4, 1, 2, 1] := hmap ▸ List.mem_map_of_mem hts
    rw [hnil] at hmem
    exact absurd hmem (by decide)
  have hlen : (rampSteps [4, 1, 2, 1]).length = 4 := by
    rw [← List.length_map (f := List.length), hmap]
    rfl
  have hflat : ∀ k, ((rampSteps [4, 1, 2, 1]).take k).flatten.length
      = (([4, 1, 2, 1] : List ℕ).take k).sum := fun k => by
    rw [List.length_flatten, List.map_take, hmap]
  have hnot : ¬ Interleaved residualTokens
      (((rampSteps [4, 1, 2, 1]).map List.length).take 3) := by
    rw [hmap]
    decide
  have hall : (rampSteps [4, 1, 2, 1]).take 4 = rampSteps [4, 1, 2, 1] :=
    List.take_of_length_le hlen.le
  have htotal := hflat 4
  rw [hall] at htotal
  have hk1 : ((rampSteps [4, 1, 2, 1])[3]).length = 1 := by
    have hget := congrArg (fun l => l.getD 3 0) hmap
    rwa [List.getD_eq_getElem _ _ (by rw [List.length_map]; omega), List.getElem_map] at hget
  have hserved : ∃ layer' rt, (serve ratFp zeroBuffers true "r" [1, 0] 0
      ((rampSteps [4, 1, 2, 1]).take 4)).run idleLayer = .ok () layer' ∧
      layer'.runtimes "r" = some rt ∧ Serves ratFp [1, 0] idleLayer.cache layer' rt
        (copyRun ratFp ((rampSteps [4, 1, 2, 1]).take 4)) :=
    serve_take ratFp_roundsHalfEven zeroBuffers idleLayer rfl hne (by rw [htotal]; decide) 3
      (by omega) fun m hm => Copied.run_take_plain (ageKV ratFp) hne hnot hm
  obtain ⟨layer', rt, hserve, hget, hs⟩ := hserved
  have hplain := appends_single ratFp [1, 0] idleLayer.cache rfl
    (rampSteps [4, 1, 2, 1]).flatten (by rw [htotal]; decide)
  have hstale : (copyRun ratFp ((rampSteps [4, 1, 2, 1]).take 4)).pub
      = (seqWin ratFp (((rampSteps [4, 1, 2, 1]).take 2).flatten
        ++ (rampSteps [4, 1, 2, 1])[3])).1 :=
    Copied.run_stale (ageKV ratFp) (i := 1) (by omega) hne hnot hk1 (by omega)
      (by rw [hmap]; rfl) (by rw [hmap]; decide)
        (by rw [hmap]; intro m h1 h2; interval_cases m; decide)
  have h2 : lenOpt rt.side.openK = 2 := by
    rw [hs.tracks.side]
    refine (lenOpt_openK _).trans ?_
    rw [hstale]
    refine length_opened ratFp ?_ (by decide)
    rw [List.length_append, hflat 2, hk1]
    rfl
  have h4 : lenOpt (hold (seqWin ratFp (rampSteps [4, 1, 2, 1]).flatten).1 (written ratFp [1, 0]
      ⟨0, idleLayer.cache⟩ (seqWin ratFp (rampSteps [4, 1, 2, 1]).flatten).2)).side.openK = 4 := by
    refine (lenOpt_openK _).trans (length_opened ratFp ?_ (by decide))
    rw [htotal]
    rfl
  rw [hall] at hserve
  refine ⟨layer', rt, _, hserve, hget, hplain, h2, h4, fun hside => ?_⟩
  rw [hside, h4] at h2
  exact absurd h2 (by decide)

end Concrete

end RabitKV
