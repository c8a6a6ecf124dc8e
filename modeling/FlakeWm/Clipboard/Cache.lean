import Mathlib.Algebra.GroupWithZero.Nat
import Mathlib.Algebra.Order.BigOperators.Group.List
import Mathlib.Algebra.Order.Group.Nat
import FlakeWm.Clipboard.Takeover

/-! What the cache holds.

    What was read and what is still in the pipe is what the client wrote (`EntryOk`), so an entry that
    came to the end of file is whole; a reader has got the first bytes of its entry. Capacity is only
    taken within the budget of the whole cache (`PersistOk`). -/

namespace FlakeWm.Clipboard

variable {s s' : Seat}

/-! ### Readers -/

/-- The reader of a writer has the first bytes of the data. -/
def Writer.Ok (data : List UInt8) (w : Writer) : Prop :=
  w.offset ≤ data.length ∧ w.sent = data.take w.offset

theorem Writer.ok_new (data : List UInt8) (reader : ℕ) : Writer.Ok data ⟨reader, 0, []⟩ :=
  ⟨Nat.zero_le _, rfl⟩

theorem Writer.flush_ok {data : List UInt8} : ∀ (script : List WriteResult) {w w' : Writer}
    {result : FlushEnd}, w.Ok data → w.flush data script = some (w', result) →
    w'.Ok data ∧ (result = .finished → w'.sent = data)
  | [], w, w', result, hw, h => by
      simp only [flush] at h
      split_ifs at h with hend
      cases h
      refine ⟨hw, fun _ => ?_⟩
      rw [hw.2, List.take_of_length_le (by omega)]
  | r :: script, w, w', result, hw, h => by
      simp only [flush] at h
      by_cases hmore : w.offset < data.length
      swap
      · rw [if_neg hmore] at h
        cases h
      rw [if_pos hmore] at h
      cases r with
      | wrote n =>
        dsimp only at h
        split_ifs at h with hn
        refine flush_ok script ⟨?_, ?_⟩ h
        · dsimp only
          omega
        · dsimp only
          rw [hw.2, List.take_add]
      | eintr => exact flush_ok script hw h
      | eagain =>
        dsimp only at h
        split_ifs at h
        cases h
        exact ⟨hw, fun hf => by cases hf⟩
      | error =>
        dsimp only at h
        split_ifs at h
        cases h
        exact ⟨hw, fun hf => by cases hf⟩

/-! ### Entries -/

/-- What was read and what is still in the pipe is what the client wrote; an entry is complete only
    after the end of file, and has readers only then. -/
structure EntryOk (e : Entry) : Prop where
  bytes : e.data ++ e.pipe.unread = e.pipe.written
  fits : e.data.length ≤ e.cap
  complete : e.complete = true → e.pipe.closed = true ∧ e.pipe.unread = [] ∧ e.fd = false
  writers : ∀ w ∈ e.writers, e.complete = true ∧ w.Ok e.data

/-- The whole of what the client wrote was read, without failure. -/
structure Entry.Whole (e : Entry) : Prop where
  complete : e.complete = true
  not_failed : e.failed = false
  closed : e.pipe.closed = true
  data : e.data = e.pipe.written

theorem EntryOk.whole {e : Entry} (he : EntryOk e) (hc : e.complete = true)
    (hf : e.failed = false) : e.Whole := by
  obtain ⟨hclosed, hunread, -⟩ := he.complete hc
  refine ⟨hc, hf, hclosed, ?_⟩
  rw [← he.bytes, hunread, List.append_nil]

theorem EntryOk.not_complete {e : Entry} (he : EntryOk e) (hfd : e.fd = true) :
    e.complete = false := by
  rw [← Bool.not_eq_true]
  intro hc
  rw [(he.complete hc).2.2] at hfd
  cases hfd

theorem EntryOk.no_writers {e : Entry} (he : EntryOk e) (hfd : e.fd = true) : e.writers = [] := by
  rw [List.eq_nil_iff_forall_not_mem]
  intro w hw
  have hc := (he.writers w hw).1
  rw [he.not_complete hfd] at hc
  cases hc

/-- An entry that is still read is sound when its bytes are. -/
theorem entryOk_of_reading {e : Entry} (hbytes : e.data ++ e.pipe.unread = e.pipe.written)
    (hfits : e.data.length ≤ e.cap) (hc : e.complete = false) (hw : e.writers = []) : EntryOk e := by
  refine ⟨hbytes, hfits, fun h => ?_, fun w h => ?_⟩
  · rw [hc] at h
    cases h
  · rw [hw] at h
    cases h

/-- An entry of the same MIME type, with the capacity that was added to the total within the limit. -/
structure Charged (total : ℕ) (e : Entry) (total' : ℕ) (e' : Entry) : Prop where
  mimeType : e'.mimeType = e.mimeType
  total : total' + e.cap = total + e'.cap
  limit : total' ≤ persistMaxSize

theorem Charged.refl {total : ℕ} {e e' : Entry} (htotal : total ≤ persistMaxSize)
    (hmime : e'.mimeType = e.mimeType) (hcap : e'.cap = e.cap) : Charged total e total e' :=
  ⟨hmime, by rw [hcap], htotal⟩

theorem Charged.trans {t₁ t₂ t₃ : ℕ} {e₁ e₂ e₃ : Entry} (h : Charged t₁ e₁ t₂ e₂)
    (h' : Charged t₂ e₂ t₃ e₃) : Charged t₁ e₁ t₃ e₃ := by
  obtain ⟨hm, ht, -⟩ := h
  obtain ⟨hm', ht', hl⟩ := h'
  exact ⟨hm'.trans hm, by omega, hl⟩

theorem Pipe.write_spec {p p' : Pipe} {bytes : List UInt8} (h : p.write bytes = some p') :
    p.closed = false ∧ p' = { p with
      written := p.written ++ bytes, unread := p.unread ++ bytes } := by
  rw [Pipe.write] at h
  split_ifs at h with hclosed
  cases h
  exact ⟨by simpa using hclosed, rfl⟩

/-- More bytes of the client. -/
theorem EntryOk.written {e : Entry} {pipe : Pipe} {bytes : List UInt8} (he : EntryOk e)
    (h : e.pipe.write bytes = some pipe) : EntryOk { e with pipe := pipe } := by
  obtain ⟨hclosed, rfl⟩ := Pipe.write_spec h
  refine ⟨?_, he.fits, fun hc => ?_, he.writers⟩
  · dsimp only
    rw [← List.append_assoc, he.bytes]
  · rw [(he.complete hc).1] at hclosed
    cases hclosed

theorem EntryOk.closed {e : Entry} (he : EntryOk e) : EntryOk { e with pipe := e.pipe.close } :=
  ⟨he.bytes, he.fits, fun hc => ⟨rfl, (he.complete hc).2⟩, he.writers⟩

theorem EntryOk.take {e : Entry} {n : ℕ} (he : EntryOk e) (hfd : e.fd = true)
    (hn : n ≤ e.cap - e.data.length) : EntryOk (e.take n) := by
  refine entryOk_of_reading ?_ ?_ (he.not_complete hfd) (he.no_writers hfd)
  · simp only [Entry.take, List.append_assoc, List.take_append_drop]
    exact he.bytes
  · have hfits := he.fits
    simp only [Entry.take, List.length_append, List.length_take]
    omega

/-- A read that failed. -/
theorem EntryOk.gave_up {e : Entry} (he : EntryOk e) (hfd : e.fd = true) :
    EntryOk { e with complete := false, failed := true, fd := false } :=
  entryOk_of_reading he.bytes he.fits rfl (he.no_writers hfd)

/-- Reading until the pipe is empty, ended or over budget. -/
theorem drainLoop_ok : ∀ (script : List Drain) {total total' : ℕ} {e e' : Entry},
    e.drainLoop total script = some (total', e') → EntryOk e → e.fd = true → e.cap ≤ total →
    total ≤ persistMaxSize → EntryOk e' ∧ Charged total e total' e'
  | .clientWrite bytes :: script, total, total', e, e', h, he, hfd, hcap, htotal => by
      obtain ⟨pipe, hpipe, h⟩ := Option.bind_eq_some_iff.mp h
      obtain ⟨hok, hcharged⟩ := drainLoop_ok script h (he.written hpipe) hfd hcap htotal
      exact ⟨hok, hcharged.mimeType, hcharged.total, hcharged.limit⟩
  | .clientClose :: script, total, total', e, e', h, he, hfd, hcap, htotal => by
      obtain ⟨hok, hcharged⟩ := drainLoop_ok script h he.closed hfd hcap htotal
      exact ⟨hok, hcharged.mimeType, hcharged.total, hcharged.limit⟩
  | .realloc ok :: script, total, total', e, e', h, he, hfd, hcap, htotal => by
      simp only [Entry.drainLoop] at h
      by_cases hfull : e.data.length = e.cap ∧ (!e.overBudget total) = true
      swap
      · rw [if_neg hfull] at h
        cases h
      rw [if_pos hfull] at h
      cases ok with
      | false =>
        have hc := he.not_complete hfd
        simp only [Bool.false_eq_true, if_false] at h
        split_ifs at h
        cases h
        refine ⟨?_, .refl htotal rfl rfl⟩
        exact entryOk_of_reading he.bytes he.fits hc (he.no_writers hfd)
      | true =>
        rw [if_pos rfl] at h
        -- the new total is what the guard compared with the limit
        have hlimit : total - e.data.length + e.nextCap ≤ persistMaxSize := by
          have hover := hfull.2
          simp only [Entry.overBudget, hfull.1, decide_true, Bool.true_and] at hover
          simpa [hfull.1] using hover
        have hgrows : e.cap ≤ e.nextCap := by
          rw [Entry.nextCap]
          split_ifs <;> omega
        have he' : EntryOk { e with cap := e.nextCap } :=
          ⟨he.bytes, le_trans he.fits hgrows, he.complete, he.writers⟩
        obtain ⟨hok, hcharged⟩ := drainLoop_ok script h he' hfd (by dsimp only; omega)
          (by omega)
        refine ⟨hok, hcharged.mimeType, ?_, hcharged.limit⟩
        have htotal' := hcharged.total
        dsimp only at htotal'
        omega
  | .read result :: script, total, total', e, e', h, he, hfd, hcap, htotal => by
      simp only [Entry.drainLoop] at h
      by_cases hfull : e.data.length = e.cap
      · rw [if_pos hfull] at h
        cases h
      rw [if_neg hfull] at h
      cases result with
      | chunk n =>
        dsimp only at h
        split_ifs at h with hn
        obtain ⟨hok, hcharged⟩ := drainLoop_ok script h (he.take hfd hn.2.1) hfd hcap htotal
        exact ⟨hok, hcharged.mimeType, hcharged.total, hcharged.limit⟩
      | eintr => exact drainLoop_ok script h he hfd hcap htotal
      | eagain =>
        dsimp only at h
        split_ifs at h
        cases h
        exact ⟨he, .refl htotal rfl rfl⟩
      | eof =>
        dsimp only at h
        split_ifs at h with hend
        cases h
        refine ⟨⟨he.bytes, he.fits, fun _ => ⟨hend.2.1, hend.1, rfl⟩, fun w hw => ?_⟩,
          .refl htotal rfl rfl⟩
        rw [Entry.finishRead, he.no_writers hfd] at hw
        cases hw
      | error =>
        dsimp only at h
        split_ifs at h
        cases h
        exact ⟨he.gave_up hfd, .refl htotal rfl rfl⟩
  | [], total, total', e, e', h, he, hfd, hcap, htotal => by
      have hc := he.not_complete hfd
      simp only [Entry.drainLoop] at h
      split_ifs at h
      cases h
      refine ⟨?_, .refl htotal rfl rfl⟩
      exact entryOk_of_reading he.bytes he.fits hc (he.no_writers hfd)

theorem drain_ok {script : List Drain} {total total' : ℕ} {e e' : Entry}
    (h : e.drain total script = some (total', e')) (he : EntryOk e) (hcap : e.cap ≤ total)
    (htotal : total ≤ persistMaxSize) :
    EntryOk e' ∧ Charged total e total' e' ∧ (e.complete = true → e' = e) := by
  rw [Entry.drain] at h
  by_cases hfd : e.fd = true
  · rw [if_neg (by simp [hfd])] at h
    obtain ⟨hok, hcharged⟩ := drainLoop_ok script h he hfd hcap htotal
    refine ⟨hok, hcharged, fun hc => ?_⟩
    rw [he.not_complete hfd] at hc
    cases hc
  · rw [if_pos (by simpa using hfd)] at h
    split_ifs at h
    cases h
    exact ⟨he, .refl htotal rfl rfl, fun _ => rfl⟩

/-- What an event on a pipe or a reader does to an entry. -/
structure EntryStep (total : ℕ) (e : Entry) (total' : ℕ) (e' : Entry) (ds : List Delivery) :
    Prop where
  ok : EntryOk e'
  charged : Charged total e total' e'
  complete : e.complete = true → e'.complete = true ∧ e'.failed = e.failed
  delivered : ∀ d ∈ ds, d.finished = true → d.received = d.written

/-- A change of the readers of a complete entry. -/
theorem entryStep_writers {total : ℕ} {e : Entry} {writers : List Writer} {ds : List Delivery}
    (he : EntryOk e) (htotal : total ≤ persistMaxSize)
    (hw : ∀ w ∈ writers, e.complete = true ∧ w.Ok e.data)
    (hds : ∀ d ∈ ds, d.finished = true → d.received = d.written) :
    EntryStep total e total { e with writers := writers } ds :=
  ⟨⟨he.bytes, he.fits, he.complete, hw⟩, .refl htotal rfl rfl, fun hc => ⟨hc, rfl⟩, hds⟩

/-- The reader of a writer that came to its end has all the bytes. -/
theorem received_whole {e : Entry} {w w' : Writer} {script : List WriteResult} {result : FlushEnd}
    {finished : Bool} (he : EntryOk e) (hc : e.complete = true) (hw : w.Ok e.data)
    (h : w.flush e.data script = some (w', result)) (hfinished : finished = true → result = .finished) :
    ∀ d ∈ [(⟨w'.reader, e.mimeType, e.pipe.written, w'.sent, finished⟩ : Delivery)],
      d.finished = true → d.received = d.written := by
  intro d hd hf
  rw [List.mem_singleton] at hd
  subst hd
  obtain ⟨-, hunread, -⟩ := he.complete hc
  have hsent := (Writer.flush_ok script hw h).2 (hfinished hf)
  have hbytes := he.bytes
  rw [hunread, List.append_nil] at hbytes
  exact hsent.trans hbytes

theorem acts_ok {installed : Prop} {total total' : ℕ} {e e' : Entry} {ds : List Delivery}
    (h : Acts installed total e total' e' ds) (he : EntryOk e)
    (hinstalled : installed → e.complete = true) (hcap : e.cap ≤ total)
    (htotal : total ≤ persistMaxSize) : EntryStep total e total' e' ds := by
  cases h with
  | written h => exact ⟨he.written h, .refl htotal rfl rfl, fun hc => ⟨hc, rfl⟩, by simp⟩
  | closed => exact ⟨he.closed, .refl htotal rfl rfl, fun hc => ⟨hc, rfl⟩, by simp⟩
  | read h =>
    obtain ⟨hok, hcharged, hsame⟩ := drain_ok h he hcap htotal
    refine ⟨hok, hcharged, fun hc => ?_, by simp⟩
    rw [hsame hc]
    exact ⟨hc, rfl⟩
  | joined hi h =>
    refine entryStep_writers he htotal (fun w hw => ?_) (by simp)
    rcases List.mem_cons.mp hw with rfl | hw
    · exact ⟨hinstalled hi, (Writer.flush_ok _ (Writer.ok_new _ _) h).1⟩
    · exact he.writers w hw
  | served hi h hfinished =>
    exact entryStep_writers he htotal he.writers
      (received_whole he (hinstalled hi) (Writer.ok_new _ _) h hfinished)
  | flushed hw h =>
    obtain ⟨hc, hwok⟩ := he.writers _ (List.mem_of_getElem? hw)
    refine entryStep_writers he htotal (fun v hv => ?_) (by simp)
    rcases List.mem_or_eq_of_mem_set hv with hv | rfl
    · exact he.writers v hv
    · exact ⟨hc, (Writer.flush_ok _ hwok h).1⟩
  | left hw h hfinished =>
    obtain ⟨hc, hwok⟩ := he.writers _ (List.mem_of_getElem? hw)
    refine entryStep_writers he htotal (fun v hv => ?_) (received_whole he hc hwok h hfinished)
    exact he.writers v (List.mem_of_mem_eraseIdx hv)

/-! ### The cache -/

def capacity (es : List Entry) : ℕ := (es.map Entry.cap).sum

theorem cap_le_capacity {e : Entry} {es : List Entry} (h : e ∈ es) : e.cap ≤ capacity es :=
  List.single_le_sum (fun _ _ => Nat.zero_le _) _ (List.mem_map_of_mem h)

theorem capacity_set {e : Entry} (e' : Entry) : ∀ {es : List Entry} {i : ℕ}, es[i]? = some e →
    capacity (es.set i e') + e.cap = capacity es + e'.cap
  | [], i, h => by simp at h
  | a :: es, 0, h => by
      simp only [List.getElem?_cons_zero, Option.some.injEq] at h
      subst h
      simp only [capacity, List.set_cons_zero, List.map_cons, List.sum_cons]
      omega
  | a :: es, i + 1, h => by
      have ih := capacity_set e' (List.getElem?_cons_succ ▸ h)
      simp only [capacity, List.set_cons_succ, List.map_cons, List.sum_cons] at ih ⊢
      omega

/-- The capacities of the entries are in the total, and that is within the limit; an installed cache
    has only whole entries. -/
structure PersistOk (p : Persist) : Prop where
  capacity : capacity p.entries ≤ p.total
  limit : p.total ≤ persistMaxSize
  entries : ∀ e ∈ p.entries, EntryOk e
  mime : ∀ e ∈ p.entries, e.mimeType ∈ p.offered ∧ mimeTypeIgnored e.mimeType = false
  owned : p.owned = true → ∀ e ∈ p.entries, e.complete = true ∧ e.failed = false
  mimeTypes : ∀ m ∈ p.mimeTypes, p.owned = true → m ∈ p.entries.map Entry.mimeType

theorem persistSelectionCreate_ok {origin : ℕ} {mimeTypes : List String} {made : List Bool}
    {p : Persist} (h : persistSelectionCreate origin mimeTypes made = some p) : PersistOk p := by
  simp only [persistSelectionCreate] at h
  split_ifs at h
  cases h
  have hnew : ∀ e ∈ (((mimeTypes.zip made).filter fun m => m.2 && !mimeTypeIgnored m.1).map
      fun m => ({ mimeType := m.1 } : Entry)).reverse,
      ∃ m ∈ mimeTypes, mimeTypeIgnored m = false ∧ e = { mimeType := m } := by
    intro e he
    rw [List.mem_reverse, List.mem_map] at he
    obtain ⟨⟨m, b⟩, hm, rfl⟩ := he
    rw [List.mem_filter] at hm
    exact ⟨m, (List.of_mem_zip hm.1).1, by simpa using (Bool.and_eq_true_iff.mp hm.2).2, rfl⟩
  refine ⟨?_, Nat.zero_le _, fun e he => ?_, fun e he => ?_, fun ho => ?_, by simp⟩
  · rw [capacity, Nat.le_zero, List.sum_eq_zero_iff]
    intro c hc
    obtain ⟨e, he, rfl⟩ := List.mem_map.mp hc
    obtain ⟨m, -, -, rfl⟩ := hnew e he
    rfl
  · obtain ⟨m, -, -, rfl⟩ := hnew e he
    exact entryOk_of_reading rfl le_rfl rfl rfl
  · obtain ⟨m, hm, hignored, rfl⟩ := hnew e he
    exact ⟨hm, hignored⟩
  · cases ho

/-- An event on one entry. -/
theorem PersistOk.set {p : Persist} {i : ℕ} {e e' : Entry} {total : ℕ} {ds : List Delivery}
    (hp : PersistOk p) (he : p.entries[i]? = some e) (h : EntryStep p.total e total e' ds) :
    PersistOk { p with total := total, entries := p.entries.set i e' } := by
  have hmem := List.mem_of_getElem? he
  refine ⟨?_, h.charged.limit, fun a ha => ?_, fun a ha => ?_, fun ho a ha => ?_, fun m hm ho => ?_⟩
  · have hsum := capacity_set e' he
    have htotal := h.charged.total
    have hcapacity := hp.capacity
    dsimp only
    omega
  · rcases List.mem_or_eq_of_mem_set ha with ha | rfl
    · exact hp.entries a ha
    · exact h.ok
  · rcases List.mem_or_eq_of_mem_set ha with ha | rfl
    · exact hp.mime a ha
    · rw [h.charged.mimeType]
      exact hp.mime e hmem
  · rcases List.mem_or_eq_of_mem_set ha with ha | rfl
    · exact hp.owned ho a ha
    · obtain ⟨hc, hf⟩ := hp.owned ho e hmem
      obtain ⟨hc', hf'⟩ := h.complete hc
      exact ⟨hc', hf'.trans hf⟩
  · have hmap : (p.entries.set i e').map Entry.mimeType = p.entries.map Entry.mimeType := by
      obtain ⟨hi, rfl⟩ := List.getElem?_eq_some_iff.mp he
      rw [List.map_set, h.charged.mimeType, ← List.map_set, List.set_getElem_self]
    rw [hmap]
    exact hp.mimeTypes m hm ho

/-- The entries that `handle_install` keeps are whole. -/
theorem drainEntries_ok : ∀ (es : List Entry) (scripts : List (List Drain)) {total total' : ℕ}
    {es' : List Entry} (others : ℕ), Seat.drainEntries total es scripts = some (total', es') →
    (∀ e ∈ es, EntryOk e) → capacity es + others ≤ total → total ≤ persistMaxSize →
    capacity es' + others ≤ total' ∧ total' ≤ persistMaxSize ∧ ∀ e' ∈ es', EntryOk e' ∧
      e'.complete = true ∧ e'.failed = false ∧ ∃ e ∈ es, e'.mimeType = e.mimeType
  | [], _, total, total', es', others, h, _, hcap, htotal => by
      cases h
      exact ⟨hcap, htotal, by simp⟩
  | _ :: _, [], _, _, _, _, h, _, _, _ => by cases h
  | e :: es, script :: scripts, total, total', es', others, h, hes, hcap, htotal => by
      simp only [capacity, List.map_cons, List.sum_cons] at hcap
      obtain ⟨⟨t₁, e₁⟩, hdrain, h⟩ := Option.bind_eq_some_iff.mp h
      obtain ⟨⟨t₂, es₂⟩, hrest, h⟩ := Option.bind_eq_some_iff.mp h
      obtain ⟨hok, hcharged, -⟩ := drain_ok hdrain (hes e List.mem_cons_self) (by omega) htotal
      have hsum := hcharged.total
      obtain ⟨hcap₂, htotal₂, hes₂⟩ := drainEntries_ok es scripts (e₁.cap + others) hrest
        (fun a ha => hes a (List.mem_cons_of_mem _ ha)) (by simp only [capacity]; omega)
        hcharged.limit
      have hkept : ∀ e' ∈ es₂, EntryOk e' ∧ e'.complete = true ∧ e'.failed = false ∧
          ∃ a ∈ e :: es, e'.mimeType = a.mimeType := by
        intro a ha
        obtain ⟨hoka, hca, hfa, b, hb, hm⟩ := hes₂ a ha
        exact ⟨hoka, hca, hfa, b, List.mem_cons_of_mem _ hb, hm⟩
      dsimp only at h
      split_ifs at h with hdrop
      · cases h
        exact ⟨by omega, htotal₂, hkept⟩
      · cases h
        simp only [capacity, List.map_cons, List.sum_cons] at hcap₂ ⊢
        refine ⟨by omega, htotal₂, fun a ha => ?_⟩
        rcases List.mem_cons.mp ha with rfl | ha
        · simp only [Bool.or_eq_true, decide_eq_true_eq, not_or] at hdrop
          obtain ⟨⟨hc, hf⟩, -⟩ := hdrop
          exact ⟨hok, by simpa using hc, by simpa using hf, e, List.mem_cons_self,
            hcharged.mimeType⟩
        · exact hkept a ha

/-- `handle_install` makes the cache the selection. -/
theorem PersistOk.install {p : Persist} {scripts : List (List Drain)} {total count : ℕ}
    {entries : List Entry} (hp : PersistOk p)
    (h : Seat.drainEntries p.total p.entries scripts = some (total, entries)) :
    PersistOk { p with
      install := false
      total := total
      entries := entries
      owned := true
      mimeTypes := (entries.map Entry.mimeType).take count } := by
  obtain ⟨hcap, htotal, hkept⟩ := drainEntries_ok p.entries scripts 0 h hp.entries hp.capacity hp.limit
  refine ⟨hcap, htotal, fun e he => (hkept e he).1, fun e he => ?_, fun _ e he => ?_,
    fun m hm _ => List.mem_of_mem_take hm⟩
  · obtain ⟨-, -, -, a, ha, hm⟩ := hkept e he
    rw [hm]
    exact hp.mime a ha
  · exact ⟨(hkept e he).2.1, (hkept e he).2.2.1⟩

/-! ### The seat -/

/-- The cache is sound, it is installed while it is the selection, and readers that came to their end
    have all the bytes. -/
structure CacheOk (s : Seat) : Prop where
  cache : ∀ p, s.cache = some p → PersistOk p
  installed : s.current = some .persist → ∃ p, s.cache = some p ∧ p.owned = true
  delivered : ∀ d ∈ s.deliveries, d.finished = true → d.received = d.written

theorem cutOff_not_finished {es : List Entry} {d : Delivery} (h : d ∈ es.flatMap Entry.cutOff) :
    d.finished = false := by
  obtain ⟨e, -, he⟩ := List.mem_flatMap.mp h
  obtain ⟨w, -, rfl⟩ := List.mem_map.mp he
  rfl

/-- The readers of a destroyed cache are cut off. -/
theorem destroy_delivered (h : ∀ d ∈ s.deliveries, d.finished = true → d.received = d.written) :
    ∀ d ∈ s.persistSourceDestroy.deliveries, d.finished = true → d.received = d.written := by
  rw [Seat.persistSourceDestroy]
  split
  · exact h
  · intro d hd hf
    rcases List.mem_append.mp hd with hd | hd
    · exact h d hd hf
    · rw [cutOff_not_finished hd] at hf
      cases hf

theorem cacheOk_of_no_cache (hcache : s.cache = none) (hcurrent : s.current ≠ some .persist)
    (hd : ∀ d ∈ s.deliveries, d.finished = true → d.received = d.written) : CacheOk s := by
  refine ⟨fun p hp => ?_, fun h => absurd h hcurrent, hd⟩
  rw [hcache] at hp
  cases hp

theorem replace_cacheOk {source : Option Source} (hs : CacheOk s) (hsource : source ≠ some .persist) :
    CacheOk (s.replace source) := by
  simp only [Seat.replace]
  split_ifs
  · exact cacheOk_of_no_cache (by simp) hsource (destroy_delivered hs.delivered)
  · exact ⟨hs.cache, fun h => absurd h hsource, hs.delivered⟩

theorem handleSetSelection_cacheOk {mimeTypes : List String} {made : List Bool} (hs : CacheOk s)
    (hcurrent : s.current ≠ some .persist) : CacheOk (s.handleSetSelection mimeTypes made) := by
  rw [Seat.handleSetSelection]
  split_ifs
  · exact hs
  · split
    · exact hs
    · exact hs
    · split
      · exact hs
      · next p hp =>
        split_ifs
        · refine ⟨fun q hq => ?_, fun h => absurd h hcurrent, hs.delivered⟩
          cases hq
          obtain ⟨h₁, h₂, h₃, h₄, h₅, h₆⟩ := hs.cache p hp
          exact ⟨h₁, h₂, h₃, h₄, h₅, h₆⟩
        · exact hs
    · refine ⟨fun q hq => persistSelectionCreate_ok hq, fun h => ?_, destroy_delivered hs.delivered⟩
      exact absurd (by simpa using h) hcurrent

theorem handleInstall_cacheOk {scripts : List (List Drain)} {count : ℕ} (hs : CacheOk s)
    (h : s.handleInstall scripts count = some s') : CacheOk s' := by
  obtain ⟨p, hp, -, hcases⟩ := handleInstall_cases h
  have hpok := hs.cache p hp
  obtain ⟨-, rfl⟩ | ⟨hnone, total, entries, hdrain, rfl | ⟨-, rfl⟩⟩ := hcases
  · refine ⟨fun q hq => ?_, fun hcurrent => ⟨_, rfl, ?_⟩, hs.delivered⟩
    · cases hq
      exact ⟨hpok.capacity, hpok.limit, hpok.entries, hpok.mime, hpok.owned, hpok.mimeTypes⟩
    · obtain ⟨q, hq, ho⟩ := hs.installed hcurrent
      cases hp.symm.trans hq
      exact ho
  · exact cacheOk_of_no_cache (by simp) (by simp [hnone]) (destroy_delivered hs.delivered)
  · refine ⟨fun q hq => ?_, fun _ => ⟨_, rfl, rfl⟩, hs.delivered⟩
    cases hq
    exact hpok.install hdrain

theorem seatDestroy_cacheOk (hs : CacheOk s) : CacheOk s.handleSeatDestroy := by
  rw [Seat.handleSeatDestroy]
  split
  · exact ⟨hs.cache, hs.installed, hs.delivered⟩
  · next p hp =>
    split_ifs with ho
    · exact ⟨hs.cache, hs.installed, hs.delivered⟩
    · refine cacheOk_of_no_cache (by simp) (fun hcurrent => ?_) (destroy_delivered hs.delivered)
      obtain ⟨q, hq, hq'⟩ := hs.installed (by simpa using hcurrent)
      cases hp.symm.trans hq
      exact ho hq'

theorem onEntry_cacheOk (hs : CacheOk s) (h : OnEntry s s') : CacheOk s' := by
  obtain ⟨p, i, e, total, e', ds, hp, he, hacts, rfl⟩ := h
  have hpok := hs.cache p hp
  have hmem := List.mem_of_getElem? he
  have hstep := acts_ok hacts (hpok.entries e hmem) (fun hcurrent => by
      obtain ⟨q, hq, ho⟩ := hs.installed hcurrent
      cases hp.symm.trans hq
      exact (hpok.owned ho e hmem).1)
    (le_trans (cap_le_capacity hmem) hpok.capacity) hpok.limit
  refine ⟨fun q hq => ?_, fun hcurrent => ⟨_, rfl, ?_⟩, fun d hd hf => ?_⟩
  · cases hq
    exact hpok.set he hstep
  · obtain ⟨q, hq, ho⟩ := hs.installed hcurrent
    cases hp.symm.trans hq
    exact ho
  · rcases List.mem_append.mp hd with hd | hd
    · exact hs.delivered d hd hf
    · exact hstep.delivered d hd hf

theorem step_cacheOk {ev : Event} (hs : CacheOk s) (h : step s ev = some s') : CacheOk s' := by
  obtain ⟨source, mimeTypes, made, rfl, hsource, rfl⟩ | ⟨scripts, count, rfl, hinstall⟩ |
    ⟨rfl, rfl⟩ | hentry | ⟨reader, mimeType, rfl⟩ := step_cases h
  · rw [Seat.wlrSeatSetSelection]
    split_ifs
    · exact hs
    · exact handleSetSelection_cacheOk (replace_cacheOk hs hsource) hsource
  · exact handleInstall_cacheOk hs hinstall
  · exact seatDestroy_cacheOk hs
  · exact onEntry_cacheOk hs hentry
  · refine ⟨hs.cache, hs.installed, fun d hd hf => ?_⟩
    rcases List.mem_append.mp hd with hd | hd
    · exact hs.delivered d hd hf
    · rw [List.mem_singleton] at hd
      subst hd
      cases hf

theorem reach_cacheOk (h : Reach step Always {} s) : CacheOk s := by
  refine h.inv (cacheOk_of_no_cache rfl (by simp) (by simp)) fun s ev s' hs _ hstep => ?_
  exact step_cacheOk hs hstep

/-! ### Takeover -/

theorem persistFindEntry_spec {p : Persist} {m : String} (h : m ∈ p.entries.map Entry.mimeType) :
    ∃ e ∈ p.entries, p.entries[p.persistFindEntry m]? = some e ∧ e.mimeType = m := by
  obtain ⟨a, ha, hm⟩ := List.mem_map.mp h
  have hlt : p.persistFindEntry m < p.entries.length :=
    List.findIdx_lt_length_of_exists ⟨a, ha, by simpa using hm⟩
  have hfound := List.findIdx_getElem (w := hlt)
  exact ⟨p.entries[p.persistFindEntry m], List.getElem_mem hlt, List.getElem?_eq_getElem hlt,
    of_decide_eq_true hfound⟩

/-- What the takeover promises: the budget is kept, what is offered is the whole of what the client
    wrote, and readers get that. -/
structure Faithful (s : Seat) : Prop where
  budget : ∀ p, s.cache = some p → (p.entries.map Entry.cap).sum ≤ persistMaxSize
  whole : ∀ p, s.cache = some p → s.current = some .persist → ∀ e ∈ p.entries, e.Whole
  offered : ∀ p, s.cache = some p → s.current = some .persist → ∀ m ∈ p.mimeTypes,
    m ∈ p.offered ∧ mimeTypeIgnored m = false ∧
      ∃ e ∈ p.entries, p.entries[p.persistFindEntry m]? = some e ∧ e.mimeType = m
  receiving : ∀ p, s.cache = some p → ∀ e ∈ p.entries, ∀ w ∈ e.writers, w.sent <+: e.pipe.written
  received : ∀ d ∈ s.deliveries, d.finished = true → d.received = d.written

/-- In every run the takeover keeps its budget and offers, and hands out, exactly the bytes that the
    client wrote. -/
theorem takeover_is_faithful (h : Reach step Always {} s) : Faithful s := by
  have hs := reach_cacheOk h
  have howned : ∀ p, s.cache = some p → s.current = some .persist → p.owned = true := by
    intro p hp hcurrent
    obtain ⟨q, hq, ho⟩ := hs.installed hcurrent
    cases hp.symm.trans hq
    exact ho
  refine ⟨fun p hp => ?_, fun p hp hcurrent e he => ?_, fun p hp hcurrent m hm => ?_,
    fun p hp e he w hw => ?_, hs.delivered⟩
  · exact le_trans (hs.cache p hp).capacity (hs.cache p hp).limit
  · obtain ⟨hc, hf⟩ := (hs.cache p hp).owned (howned p hp hcurrent) e he
    exact ((hs.cache p hp).entries e he).whole hc hf
  · have hfound := persistFindEntry_spec ((hs.cache p hp).mimeTypes m hm (howned p hp hcurrent))
    obtain ⟨e, he, hat, hmime⟩ := hfound
    obtain ⟨hoffered, hignored⟩ := (hs.cache p hp).mime e he
    rw [hmime] at hoffered hignored
    exact ⟨hoffered, hignored, e, he, hat, hmime⟩
  · have heok := (hs.cache p hp).entries e he
    rw [((heok.writers w hw).2).2, ← heok.bytes]
    exact (List.take_prefix _ _).trans (List.prefix_append _ _)

/-- One byte is copied, taken over and read by two readers, the second of which has to wait. -/
theorem takeover_reaches_readers :
    ∃ s, exec step {} (copyAndExit ++ [.setSelection none [] [],
        .install [[.realloc true, .read (.chunk 1), .read .eof]] 1,
        .send 0 "text/plain" [.wrote 1] true, .send 1 "text/plain" [.eagain] true,
        .writable 0 0 [.eintr, .wrote 1] false]) = some s ∧ Faithful s ∧
      s.deliveries.map (fun d => (d.reader, d.received, d.finished)) =
        [(0, [7], true), (1, [7], true)] := by
  refine ⟨_, rfl, ?_, rfl⟩
  exact takeover_is_faithful (.of_exec (copyAndExit ++ [.setSelection none [] [],
    .install [[.realloc true, .read (.chunk 1), .read .eof]] 1,
    .send 0 "text/plain" [.wrote 1] true, .send 1 "text/plain" [.eagain] true,
    .writable 0 0 [.eintr, .wrote 1] false]) _ rfl)

end FlakeWm.Clipboard
