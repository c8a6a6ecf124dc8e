import FlakeWm.Writers.Model
import Mathlib.Data.List.Infix

/-! Every transfer delivers a prefix of its data and is cleaned up once.

    What holds of a request is said for each number alone, `State.At`; an operation on a writer changes
    what is at one number, `OnlyAt`, and the invariant has to be shown there only. -/

namespace FlakeWm.Writers

open State

variable {s s' s'' : State} {w w' r : ℕ} {writer : ResourceWriter} {why : Ending}

/-! ### Invariant -/

/-- The writer `w` is at work: its descriptor and its data are as they came, it listens to its resource
    alone, and what it has written are the first bytes of the data. -/
structure Live (s : State) (w : ℕ) (writer : ResourceWriter) : Prop where
  old : w < s.count
  kept : (s.requests w).closes = 0 ∧ (s.requests w).frees = 0
  offset : writer.offset ≤ (s.requests w).data.length
  written : (s.requests w).written = (s.requests w).data.take writer.offset
  listens : ∀ r, w ∈ s.listeners r ↔ r = (s.requests w).resource
  source : ∀ k, (k, w) ∈ s.sources → writer.has k = true

/-- A request that is over: its descriptor is closed and its data freed once. -/
structure Over (request : Request) : Prop where
  once : request.closes = 1 ∧ request.frees = 1
  whole : ∃ why, request.ended = some why ∧ (why = .complete → request.written = request.data)
  firsts : request.written <+: request.data

/-- There is no writer `w`, and nothing that would call it. -/
structure Gone (s : State) (w : ℕ) : Prop where
  finished : w < s.count → Over (s.requests w)
  silent : ∀ r, w ∉ s.listeners r
  removed : ∀ k, (k, w) ∉ s.sources

/-- What holds at the number `w`. -/
def At (s : State) (w : ℕ) : Prop :=
  match s.writers w with
  | none => Gone s w
  | some writer => Live s w writer

structure Inv (s : State) : Prop where
  faultless : s.fault = false
  at' : ∀ w, At s w
  one : ∀ r, (s.listeners r).length ≤ 1

/-- Every writer but `w` has its two event sources. -/
def ArmedBut (s : State) (w : ℕ) : Prop := ∀ w' ≠ w, s.writers w' ≠ none → ∀ k, (k, w') ∈ s.sources

def Armed (s : State) : Prop := ∀ w, s.writers w ≠ none → ∀ k, (k, w) ∈ s.sources

theorem Armed.but (h : Armed s) (w : ℕ) : ArmedBut s w := fun w' _ => h w'

theorem Inv.live (h : Inv s) (hw : s.writers w = some writer) : Live s w writer := by
  have hat := h.at' w
  rwa [At, hw] at hat

theorem Inv.gone (h : Inv s) (hw : s.writers w = none) : Gone s w := by
  have hat := h.at' w
  rwa [At, hw] at hat

theorem Inv.writer_of_listener (h : Inv s) (hw : w ∈ s.listeners r) : ∃ writer, s.writers w = some writer := by
  cases hwriter : s.writers w with
  | none => exact absurd hw ((h.gone hwriter).silent r)
  | some writer => exact ⟨writer, rfl⟩

theorem Inv.writer_of_source (h : Inv s) {k : Source} (hw : (k, w) ∈ s.sources) :
    ∃ writer, s.writers w = some writer := by
  cases hwriter : s.writers w with
  | none => exact absurd hw ((h.gone hwriter).removed k)
  | some writer => exact ⟨writer, rfl⟩

/-! ### What changes at one number -/

/-- From `s` to `s'` nothing changes but what is at `w`. -/
structure OnlyAt (s s' : State) (w : ℕ) : Prop where
  fault : s'.fault = s.fault
  old : ∀ w' ≠ w, w' < s'.count ↔ w' < s.count
  request : ∀ w' ≠ w, s'.requests w' = s.requests w'
  writer : ∀ w' ≠ w, s'.writers w' = s.writers w'
  listener : ∀ w' ≠ w, ∀ r, w' ∈ s'.listeners r ↔ w' ∈ s.listeners r
  source : ∀ w' ≠ w, ∀ k, (k, w') ∈ s'.sources ↔ (k, w') ∈ s.sources

theorem OnlyAt.trans (h : OnlyAt s s' w) (h' : OnlyAt s' s'' w) : OnlyAt s s'' w where
  fault := h'.fault.trans h.fault
  old w' hne := (h'.old w' hne).trans (h.old w' hne)
  request w' hne := (h'.request w' hne).trans (h.request w' hne)
  writer w' hne := (h'.writer w' hne).trans (h.writer w' hne)
  listener w' hne r := (h'.listener w' hne r).trans (h.listener w' hne r)
  source w' hne k := (h'.source w' hne k).trans (h.source w' hne k)

theorem OnlyAt.at_other (h : OnlyAt s s' w) (hne : w' ≠ w) (hat : At s w') : At s' w' := by
  rw [At, h.writer w' hne]
  rw [At] at hat
  cases hwriter : s.writers w' with
  | none =>
    rw [hwriter] at hat
    refine ⟨fun hlt => ?_, fun r hmem => ?_, fun k hmem => ?_⟩
    · rw [h.request w' hne]
      exact hat.finished ((h.old w' hne).1 hlt)
    · exact hat.silent r ((h.listener w' hne r).1 hmem)
    · exact hat.removed k ((h.source w' hne k).1 hmem)
  | some writer =>
    rw [hwriter] at hat
    obtain ⟨hold, hkept, hoffset, hwritten, hlistens, hsource⟩ := hat
    refine ⟨(h.old w' hne).2 hold, ?_, ?_, ?_, fun r => ?_, fun k hmem => hsource k ((h.source w' hne k).1 hmem)⟩
    · rwa [h.request w' hne]
    · rwa [h.request w' hne]
    · rwa [h.request w' hne]
    · rw [h.listener w' hne r, h.request w' hne]
      exact hlistens r

theorem OnlyAt.inv (h : OnlyAt s s' w) (hinv : Inv s) (hat : At s' w) (hone : ∀ r, (s'.listeners r).length ≤ 1) :
    Inv s' := by
  refine ⟨h.fault.trans hinv.faultless, fun w' => ?_, hone⟩
  by_cases hne : w' = w
  · rwa [hne]
  · exact h.at_other hne (hinv.at' w')

theorem OnlyAt.armedBut (h : OnlyAt s s' w) (harmed : ArmedBut s w) : ArmedBut s' w := by
  intro w' hne hwriter k
  rw [h.writer w' hne] at hwriter
  exact (h.source w' hne k).2 (harmed w' hne hwriter k)

theorem setRequest_only (s : State) (w : ℕ) (request : Request) : OnlyAt s (s.setRequest w request) w :=
  ⟨rfl, fun _ _ => Iff.rfl, fun _ hne => Function.update_of_ne hne _ _, fun _ _ => rfl, fun _ _ _ => Iff.rfl,
    fun _ _ _ => Iff.rfl⟩

theorem setWriter_only (s : State) (w : ℕ) (writer : Option ResourceWriter) : OnlyAt s (s.setWriter w writer) w :=
  ⟨rfl, fun _ _ => Iff.rfl, fun _ _ => rfl, fun _ hne => Function.update_of_ne hne _ _, fun _ _ _ => Iff.rfl,
    fun _ _ _ => Iff.rfl⟩

@[simp] theorem setRequest_self (s : State) (w : ℕ) (request : Request) :
    (s.setRequest w request).requests w = request := by
  simp [State.setRequest]

@[simp] theorem setWriter_self (s : State) (w : ℕ) (writer : Option ResourceWriter) :
    (s.setWriter w writer).writers w = writer := by
  simp [State.setWriter]

@[simp] theorem setWriter_requests (s : State) (w : ℕ) (writer : Option ResourceWriter) :
    (s.setWriter w writer).requests = s.requests := rfl

@[simp] theorem setRequest_writers (s : State) (w : ℕ) (request : Request) :
    (s.setRequest w request).writers = s.writers := rfl

theorem close_over {why : Ending} (hkept : (s.requests w).closes = 0 ∧ (s.requests w).frees = 0)
    (hwhole : why = .complete → (s.requests w).written = (s.requests w).data)
    (hfirsts : (s.requests w).written <+: (s.requests w).data) : Over ((s.close w why).requests w) := by
  rw [State.close, setRequest_self]
  refine ⟨?_, ⟨why, rfl, hwhole⟩, hfirsts⟩
  rw [hkept.1, hkept.2]
  exact ⟨rfl, rfl⟩

/-! ### The end of a writer -/

section Destroy

variable (hw : s.writers w = some writer)
include hw

theorem destroy_mem_sources {source : Source × ℕ} : source ∈ (s.resourceWriterDestroy w why).sources ↔
    source ∈ s.sources ∧ ¬(source.2 = w ∧ writer.has source.1 = true) := by
  rw [resourceWriterDestroy, hw]
  refine List.mem_filter.trans (and_congr_right fun _ => ?_)
  rw [Bool.not_eq_true', Bool.and_eq_false_iff, decide_eq_false_iff_not, not_and_or, Bool.not_eq_true]

theorem destroy_mem_listeners : w' ∈ (s.resourceWriterDestroy w why).listeners r ↔ w' ∈ s.listeners r ∧ w' ≠ w := by
  rw [resourceWriterDestroy, hw]
  refine List.mem_filter.trans ?_
  rw [decide_eq_true_eq]

theorem destroy_writer : (s.resourceWriterDestroy w why).writers w = none := by
  rw [resourceWriterDestroy, hw]
  exact setWriter_self _ _ _

theorem destroy_only : OnlyAt s (s.resourceWriterDestroy w why) w := by
  refine ⟨?_, fun w' _ => ?_, fun w' hne => ?_, fun w' hne => ?_, fun w' hne r => ?_, fun w' hne k => ?_⟩
  · rw [resourceWriterDestroy, hw]
    rfl
  · rw [resourceWriterDestroy, hw]
    rfl
  · rw [resourceWriterDestroy, hw]
    exact Function.update_of_ne hne _ _
  · rw [resourceWriterDestroy, hw]
    exact Function.update_of_ne hne _ _
  · rw [destroy_mem_listeners hw]
    exact ⟨And.left, fun h => ⟨h, hne⟩⟩
  · rw [destroy_mem_sources hw]
    exact ⟨And.left, fun h => ⟨h, fun h => hne h.1⟩⟩

/-- A writer that ends is cleaned up once; when it ends because all is done, all has been written. -/
theorem destroy_inv (h : Inv s) (hwhole : why = .complete → (s.requests w).written = (s.requests w).data) :
    Inv (s.resourceWriterDestroy w why) := by
  have hlive := h.live hw
  refine (destroy_only hw).inv h ?_ fun r => ?_
  · rw [At, destroy_writer hw]
    refine ⟨fun _ => ?_, fun r hmem => ((destroy_mem_listeners hw).1 hmem).2 rfl, fun k hmem => ?_⟩
    · rw [resourceWriterDestroy, hw]
      exact close_over hlive.kept hwhole (hlive.written ▸ List.take_prefix _ _)
    · obtain ⟨hmem, hnot⟩ := (destroy_mem_sources hw).1 hmem
      exact hnot ⟨rfl, hlive.source k hmem⟩
  · rw [resourceWriterDestroy, hw]
    exact (List.length_filter_le _ _).trans (h.one r)

theorem destroy_armed (h : ArmedBut s w) : Armed (s.resourceWriterDestroy w why) := by
  intro w' hwriter k
  by_cases hne : w' = w
  · rw [hne, destroy_writer hw] at hwriter
    exact absurd rfl hwriter
  · exact (destroy_only hw).armedBut h w' hne hwriter k

/-- The resource of a writer that ends has none. -/
theorem destroy_listeners (h : Inv s) (hmem : w ∈ s.listeners r) :
    (s.resourceWriterDestroy w why).listeners r = [] := by
  refine List.eq_nil_iff_forall_not_mem.2 fun w' hw' => ?_
  obtain ⟨hw', hne⟩ := (destroy_mem_listeners hw).1 hw'
  match hl : s.listeners r, h.one r with
  | [], _ => simp [hl] at hmem
  | [a], _ =>
    rw [hl, List.mem_singleton] at hmem hw'
    exact hne (hw'.trans hmem.symm)

end Destroy

/-! ### Writing -/

/-- The loop writes the first bytes, and all of them if it ends by itself. -/
theorem writeLoop_spec {data : List UInt8} : ∀ (outcomes : List WriteOutcome) {offset offset' : ℕ}
    {written written' : List UInt8} {loopEnd : LoopEnd},
    writeLoop data offset written outcomes = some (offset', written', loopEnd) → offset ≤ data.length →
    written = data.take offset →
    offset' ≤ data.length ∧ written' = data.take offset' ∧ (loopEnd = .complete → written' = data)
  | [], offset, _, _, _, _, h, hle, hwritten => by
      unfold writeLoop at h
      split_ifs at h with hlt
      cases h
      exact ⟨hle, hwritten, fun _ => by rw [hwritten, List.take_of_length_le (not_lt.1 hlt)]⟩
  | outcome :: outcomes, offset, _, written, _, _, h, hle, hwritten => by
      unfold writeLoop at h
      split_ifs at h with hlt
      · cases outcome with
        | wrote n =>
          dsimp only at h
          split_ifs at h with hn
          refine writeLoop_spec outcomes h (by omega) ?_
          rw [hwritten, List.take_add]
        | intr => exact writeLoop_spec outcomes h hle hwritten
        | again =>
          cases h
          exact ⟨hle, hwritten, nofun⟩
        | zero =>
          cases h
          exact ⟨hle, hwritten, nofun⟩
        | error =>
          cases h
          exact ⟨hle, hwritten, nofun⟩
      · cases h
        exact ⟨hle, hwritten, fun _ => by rw [hwritten, List.take_of_length_le (not_lt.1 hlt)]⟩

/-- The state after the writes of a writer. -/
def advance (s : State) (w : ℕ) (writer : ResourceWriter) (written : List UInt8) : State :=
  (s.setRequest w { s.requests w with written := written }).setWriter w (some writer)

theorem advance_only (s : State) (w : ℕ) (writer : ResourceWriter) (written : List UInt8) :
    OnlyAt s (advance s w writer written) w := (setRequest_only s w _).trans (setWriter_only _ w _)

/-- Writing keeps the invariant; the event sources of the writer do not change. -/
theorem advance_inv (h : Inv s) (hw : s.writers w = some writer) {offset : ℕ} {written : List UInt8}
    (hoffset : offset ≤ (s.requests w).data.length) (hwritten : written = (s.requests w).data.take offset) :
    Inv (advance s w { writer with offset := offset } written) := by
  have hlive := h.live hw
  refine (advance_only s w _ written).inv h ?_ h.one
  rw [At, advance, setWriter_self]
  refine ⟨hlive.old, ?_, ?_, ?_, ?_, hlive.source⟩
  · rw [setWriter_requests, setRequest_self]
    exact hlive.kept
  · rw [setWriter_requests, setRequest_self]
    exact hoffset
  · rw [setWriter_requests, setRequest_self]
    exact hwritten
  · rw [setWriter_requests, setRequest_self]
    exact hlive.listens

/-- A flush keeps the invariant and the other writers. A writer that is to go on is there afterwards, with
    its event sources; one that is not is gone. -/
theorem flush_spec {hangup again : Bool} {outcomes : List WriteOutcome} (h : Inv s) (hw : s.writers w = some writer)
    (hs : s.resourceWriterFlush w hangup outcomes = some (s', again)) :
    Inv s' ∧ OnlyAt s s' w ∧
      if again then s'.sources = s.sources ∧ s'.writers w ≠ none else s'.writers w = none := by
  rw [resourceWriterFlush, hw] at hs
  dsimp only at hs
  split_ifs at hs with hhang
  · cases hs
    exact ⟨destroy_inv hw h nofun, destroy_only hw, destroy_writer hw⟩
  · rw [Option.bind_eq_bind, Option.bind_eq_some_iff] at hs
    obtain ⟨⟨offset, written, loopEnd⟩, hloop, hs⟩ := hs
    have hlive := h.live hw
    obtain ⟨hoffset, hwritten, hall⟩ := writeLoop_spec outcomes hloop hlive.offset hlive.written
    have hinv := advance_inv h hw hoffset hwritten
    have honly := advance_only s w { writer with offset := offset } written
    have hwriter : (advance s w { writer with offset := offset } written).writers w =
        some { writer with offset := offset } := setWriter_self _ _ _
    cases loopEnd with
    | blocked =>
      cases hs
      exact ⟨hinv, honly, rfl, hwriter.symm ▸ Option.some_ne_none _⟩
    | complete =>
      cases hs
      refine ⟨destroy_inv hwriter hinv fun _ => ?_, honly.trans (destroy_only hwriter), destroy_writer hwriter⟩
      rw [setWriter_requests, setRequest_self]
      exact hall rfl
    | failed =>
      cases hs
      exact ⟨destroy_inv hwriter hinv nofun, honly.trans (destroy_only hwriter), destroy_writer hwriter⟩

/-! ### Requests -/

/-- The previous writer of the resource is gone. -/
theorem replacePrevious_spec (h : Inv s) (harmed : Armed s) (r : ℕ) : Inv (s.replacePrevious r) ∧
    Armed (s.replacePrevious r) ∧ (s.replacePrevious r).listeners r = [] ∧ (s.replacePrevious r).count = s.count := by
  cases hhead : (s.listeners r).head? with
  | none =>
    have hsame : s.replacePrevious r = s := by
      rw [replacePrevious, hhead]
    rw [hsame]
    exact ⟨h, harmed, List.head?_eq_none_iff.1 hhead, rfl⟩
  | some previous =>
    have hmem : previous ∈ s.listeners r := List.mem_of_head? hhead
    obtain ⟨writer, hw⟩ := h.writer_of_listener hmem
    have hdestroy : s.replacePrevious r = s.resourceWriterDestroy previous .replaced := by
      rw [replacePrevious, hhead]
    rw [hdestroy]
    refine ⟨destroy_inv hw h nofun, destroy_armed hw (harmed.but previous), destroy_listeners hw h hmem, ?_⟩
    rw [resourceWriterDestroy, hw]
    rfl

theorem accept_only (s : State) (r : ℕ) (data : List UInt8) : OnlyAt s (s.accept r data) s.count := by
  refine ⟨rfl, fun w hne => ?_, (setRequest_only s s.count _).request, fun _ _ => rfl, fun _ _ _ => Iff.rfl,
    fun _ _ _ => Iff.rfl⟩
  show w < s.count + 1 ↔ _
  omega

/-- There is no writer yet with the number of the next request. -/
theorem Inv.next_gone (h : Inv s) : s.writers s.count = none := by
  cases hw : s.writers s.count with
  | none => rfl
  | some writer => exact absurd (h.live hw).old (lt_irrefl _)

theorem accept_request (s : State) (r : ℕ) (data : List UInt8) :
    (s.accept r data).requests s.count = { resource := r, data := data } :=
  setRequest_self s s.count _

/-- A request that fails at once is cleaned up. -/
theorem refuse_inv (h : Inv s) (r : ℕ) (data : List UInt8) : Inv ((s.accept r data).close s.count .error) := by
  have hgone := h.gone h.next_gone
  have honly : OnlyAt s ((s.accept r data).close s.count .error) s.count :=
    (accept_only s r data).trans (setRequest_only _ _ _)
  refine honly.inv h ?_ h.one
  have hwriters : ((s.accept r data).close s.count .error).writers s.count = none := h.next_gone
  rw [At, hwriters]
  refine ⟨fun _ => close_over ?_ nofun ?_, hgone.silent, hgone.removed⟩
  · rw [accept_request]
    exact ⟨rfl, rfl⟩
  · rw [accept_request]
    exact List.nil_prefix

theorem create_mem_listeners {w' r r' : ℕ} : w' ∈ (s.create w r).listeners r' ↔
    w' ∈ s.listeners r' ∨ r' = r ∧ w' = w := by
  show w' ∈ Function.update s.listeners r (s.listeners r ++ [w]) r' ↔ _
  by_cases hr : r' = r
  · rw [hr, Function.update_self, List.mem_append, List.mem_singleton]
    simp
  · rw [Function.update_of_ne hr]
    simp [hr]

theorem create_only (s : State) (w r : ℕ) : OnlyAt s (s.create w r) w :=
  ⟨rfl, fun _ _ => Iff.rfl, fun _ _ => rfl, (setWriter_only s w _).writer,
    fun _ hne _ => create_mem_listeners.trans (or_iff_left fun h => hne h.2), fun _ _ _ => Iff.rfl⟩

/-- A request gets a writer if its resource has none. -/
theorem create_inv (h : Inv s) {r : ℕ} (hnone : s.listeners r = []) (data : List UInt8) :
    Inv ((s.accept r data).create s.count r) := by
  have hgone := h.gone h.next_gone
  refine ((accept_only s r data).trans (create_only _ _ r)).inv h ?_ fun r' => ?_
  · have hwriter : ((s.accept r data).create s.count r).writers s.count = some {} := setWriter_self _ _ _
    have hrequest : ((s.accept r data).create s.count r).requests s.count = { resource := r, data := data } :=
      accept_request s r data
    rw [At, hwriter]
    refine ⟨Nat.lt_succ_self _, ?_, Nat.zero_le _, ?_, fun r' => ?_, fun k hmem => ?_⟩
    · rw [hrequest]
      exact ⟨rfl, rfl⟩
    · rw [hrequest]
      rfl
    · rw [create_mem_listeners, hrequest]
      exact ⟨fun h => (h.resolve_left (hgone.silent r')).1, fun h => .inr ⟨h, rfl⟩⟩
    · exact absurd hmem (hgone.removed k)
  · show (Function.update s.listeners r (s.listeners r ++ [s.count]) r').length ≤ 1
    by_cases hr : r' = r
    · rw [hr, Function.update_self, hnone]
      exact le_rfl
    · rw [Function.update_of_ne hr]
      exact h.one r'

/-! ### Event sources -/

/-- The sources that are added, if they are. -/
theorem mem_added {luck : Luck} {source : Source × ℕ} :
    source ∈ (if luck.addFd then [(Source.writable, w)] else []) ++ (if luck.addTimer then [(Source.timer, w)] else []) ↔
      source.2 = w ∧ ResourceWriter.has { writable := luck.addFd, timer := luck.addTimer } source.1 = true := by
  obtain ⟨k, w'⟩ := source
  rw [List.mem_append]
  cases k <;> cases luck.addFd <;> cases luck.addTimer <;> simp [ResourceWriter.has]

/-- A writer that has to wait gets its event sources or ends. -/
theorem addSources_spec (h : Inv s) (harmed : ArmedBut s w) (hw : s.writers w ≠ none) (hnew : ∀ k, (k, w) ∉ s.sources)
    (luck : Luck) : Inv (s.addSources w luck) ∧ Armed (s.addSources w luck) := by
  obtain ⟨writer, hw⟩ := Option.ne_none_iff_exists'.1 hw
  have hlive := h.live hw
  rw [State.addSources, hw]
  dsimp only
  generalize hs' : State.setWriter _ w (some { writer with writable := luck.addFd, timer := luck.addTimer }) = s'
  have hsources : ∀ source, source ∈ s'.sources ↔ source ∈ s.sources ∨
      source.2 = w ∧ ResourceWriter.has { writable := luck.addFd, timer := luck.addTimer } source.1 = true := by
    intro source
    rw [← hs', ← mem_added]
    exact List.mem_append
  have honly : OnlyAt s s' w := by
    rw [← hs']
    exact ⟨rfl, fun _ _ => Iff.rfl, fun _ _ => rfl, (setWriter_only s w _).writer, fun _ _ _ => Iff.rfl,
      fun w' hne k => by
        rw [hs', hsources]
        exact or_iff_left fun h => hne h.1⟩
  have hwriter : s'.writers w = some { writer with writable := luck.addFd, timer := luck.addTimer } := by
    rw [← hs', setWriter_self]
  have hinv : Inv s' := by
    refine honly.inv h ?_ ?_
    · rw [At, hwriter]
      have hrequest : s'.requests = s.requests := by rw [← hs']; rfl
      have hlisteners : s'.listeners = s.listeners := by rw [← hs']; rfl
      refine ⟨?_, ?_, ?_, ?_, ?_, fun k hmem => ?_⟩
      · rw [← hs']
        exact hlive.old
      · rw [hrequest]
        exact hlive.kept
      · rw [hrequest]
        exact hlive.offset
      · rw [hrequest]
        exact hlive.written
      · rw [hrequest, hlisteners]
        exact hlive.listens
      · cases k
        · exact (((hsources _).1 hmem).resolve_left (hnew _)).2
        · exact (((hsources _).1 hmem).resolve_left (hnew _)).2
    · rw [← hs']
      exact h.one
  split_ifs with hluck
  · exact ⟨destroy_inv hwriter hinv nofun, destroy_armed hwriter (honly.armedBut harmed)⟩
  · simp only [Bool.or_eq_true, Bool.not_eq_true', not_or, Bool.not_eq_false] at hluck
    refine ⟨hinv, fun w' hsome k => ?_⟩
    by_cases hne : w' = w
    · rw [hne]
      refine (hsources _).2 (.inr ⟨rfl, ?_⟩)
      cases k
      · exact hluck.1.1
      · exact hluck.1.2
    · exact honly.armedBut harmed w' hne hsome k

/-! ### Every event -/

theorem step_request {resource : ℕ} {data : List UInt8} {luck : Luck} (h : Inv s) (harmed : Armed s)
    (hs : s.wlResourceWriteOwnedData resource data luck = some s') : Inv s' ∧ Armed s' := by
  obtain ⟨hinv, harmed', hnone, hcount⟩ := replacePrevious_spec h harmed resource
  rw [wlResourceWriteOwnedData, ← hcount] at hs
  dsimp only at hs
  generalize s.replacePrevious resource = t at hs hinv harmed' hnone
  have hgone := hinv.gone hinv.next_gone
  split_ifs at hs with hfail
  · cases hs
    refine ⟨refuse_inv hinv resource data, fun w hsome k => ?_⟩
    exact harmed' w hsome k
  · rw [Option.bind_eq_bind, Option.bind_eq_some_iff] at hs
    obtain ⟨⟨t', again⟩, hflush, hs⟩ := hs
    have hcreate := create_inv hinv hnone data
    have honly := (accept_only t resource data).trans (create_only _ t.count resource)
    obtain ⟨hinv', honly', hend⟩ := flush_spec hcreate (setWriter_self _ _ _) hflush
    have hbut : ArmedBut t' t.count := honly'.armedBut (honly.armedBut (harmed'.but _))
    cases again with
    | true =>
      cases hs
      rw [if_pos rfl] at hend
      refine addSources_spec hinv' hbut hend.2 (fun k hmem => ?_) luck
      rw [hend.1] at hmem
      exact hgone.removed k hmem
    | false =>
      cases hs
      rw [if_neg Bool.false_ne_true] at hend
      refine ⟨hinv', fun w hsome k => ?_⟩
      by_cases hne : w = t.count
      · exact absurd (hne ▸ hend) hsome
      · exact hbut w hne hsome k

theorem step_destroy (h : Inv s) (harmed : Armed s) (r : ℕ) :
    Inv (s.destroyResource r) ∧ Armed (s.destroyResource r) := by
  have hfold : Inv ((s.listeners r).foldl (fun s w => s.resourceWriterDestroy w .destroyed) s) ∧
      Armed ((s.listeners r).foldl (fun s w => s.resourceWriterDestroy w .destroyed) s) := by
    match hl : s.listeners r, h.one r with
    | [], _ => exact ⟨h, harmed⟩
    | [w], _ =>
      obtain ⟨writer, hw⟩ := h.writer_of_listener (r := r) (w := w) (by rw [hl]; exact List.mem_singleton_self w)
      exact ⟨destroy_inv hw h nofun, destroy_armed hw (harmed.but w)⟩
  obtain ⟨hinv, harmed'⟩ := hfold
  have hsame : ∀ w, OnlyAt ((s.listeners r).foldl (fun s w => s.resourceWriterDestroy w .destroyed) s)
      (s.destroyResource r) w := fun _ => ⟨rfl, fun _ _ => Iff.rfl, fun _ _ => rfl, fun _ _ => rfl,
    fun _ _ _ => Iff.rfl, fun _ _ _ => Iff.rfl⟩
  exact ⟨⟨hinv.faultless, fun w => (hsame (w + 1)).at_other (Nat.succ_ne_self w).symm (hinv.at' w), hinv.one⟩, harmed'⟩

theorem step_inv {e : Event} (h : Inv s) (harmed : Armed s) (hs : step s e = some s') : Inv s' ∧ Armed s' := by
  cases e with
  | request resource data luck =>
    rw [step, Option.ite_none_left_eq_some] at hs
    exact step_request h harmed hs.2
  | ready w hangup outcomes =>
    rw [step, Option.ite_none_right_eq_some, Option.map_eq_some_iff] at hs
    obtain ⟨hmem, ⟨t, again⟩, hflush, rfl⟩ := hs
    obtain ⟨writer, hw⟩ := h.writer_of_source hmem
    obtain ⟨hinv, honly, hend⟩ := flush_spec h hw hflush
    refine ⟨hinv, fun w' hsome k => ?_⟩
    by_cases hne : w' = w
    · cases again with
      | true => exact hend.1 ▸ harmed w' (by rw [hne, hw]; exact Option.some_ne_none _) k
      | false => exact absurd (hne ▸ hend) hsome
    · exact honly.armedBut (harmed.but w) w' hne hsome k
  | timeout w =>
    rw [step, Option.ite_none_right_eq_some] at hs
    obtain ⟨hmem, hs⟩ := hs
    cases hs
    obtain ⟨writer, hw⟩ := h.writer_of_source hmem
    exact ⟨destroy_inv hw h nofun, destroy_armed hw (harmed.but w)⟩
  | destroy resource =>
    rw [step, Option.ite_none_left_eq_some] at hs
    obtain ⟨-, hs⟩ := hs
    cases hs
    exact step_destroy h harmed resource

/-- What holds of every transfer at every moment. A request that came in is over, with its descriptor closed
    and its data freed once and all written unless something else ended it; or its writer is at work and has
    closed and freed nothing, and a timer and the destruction of its resource will end it. -/
structure Delivered (s : State) : Prop where
  faultless : s.fault = false
  firsts : ∀ w < s.count, (s.requests w).written <+: (s.requests w).data
  once : ∀ w < s.count, s.writers w = none ∧ (s.requests w).closes = 1 ∧ (s.requests w).frees = 1 ∨
    s.writers w ≠ none ∧ (s.requests w).closes = 0 ∧ (s.requests w).frees = 0 ∧
      (.timer, w) ∈ s.sources ∧ w ∈ s.listeners (s.requests w).resource
  whole : ∀ w < s.count, s.writers w = none → ∃ why, (s.requests w).ended = some why ∧
    (why = .complete → (s.requests w).written = (s.requests w).data)
  alone : ∀ w w', s.writers w ≠ none → s.writers w' ≠ none →
    (s.requests w).resource = (s.requests w').resource → w = w'
  called : (∀ k w, (k, w) ∈ s.sources → s.writers w ≠ none) ∧ ∀ r, ∀ w ∈ s.listeners r, s.writers w ≠ none

theorem Inv.delivered (h : Inv s) (harmed : Armed s) : Delivered s where
  faultless := h.faultless
  firsts w hlt := by
    cases hw : s.writers w with
    | none => exact ((h.gone hw).finished hlt).firsts
    | some writer =>
      rw [(h.live hw).written]
      exact List.take_prefix _ _
  once w hlt := by
    cases hw : s.writers w with
    | none => exact .inl ⟨rfl, ((h.gone hw).finished hlt).once⟩
    | some writer =>
      have hlive := h.live hw
      exact .inr ⟨Option.some_ne_none _, hlive.kept.1, hlive.kept.2, harmed w (hw ▸ Option.some_ne_none _) .timer,
        (hlive.listens _).2 rfl⟩
  whole w hlt hw := ((h.gone hw).finished hlt).whole
  alone w w' hw hw' heq := by
    obtain ⟨writer, hw⟩ := Option.ne_none_iff_exists'.1 hw
    obtain ⟨writer', hw'⟩ := Option.ne_none_iff_exists'.1 hw'
    have hmem := ((h.live hw).listens _).2 rfl
    have hmem' := ((h.live hw').listens _).2 heq
    match hl : s.listeners (s.requests w).resource, h.one (s.requests w).resource with
    | [], _ => simp [hl] at hmem
    | [a], _ =>
      rw [hl, List.mem_singleton] at hmem hmem'
      exact hmem.trans hmem'.symm
  called := ⟨fun _ _ hmem hnone => (h.gone hnone).removed _ hmem, fun _ _ hmem hnone => (h.gone hnone).silent _ hmem⟩

theorem start_inv : Inv {} := by
  refine ⟨rfl, fun w => ?_, fun _ => Nat.zero_le 1⟩
  show Gone {} w
  exact ⟨fun h => absurd h (Nat.not_lt_zero w), fun _ => List.not_mem_nil, fun _ => List.not_mem_nil⟩

end FlakeWm.Writers
