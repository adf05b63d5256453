import RespOS.Fs.PageCache

/-!
# What reclaim and loading do to the page caches

The LRU functions change nothing but the place of pages in the LRU order, and may remove pages that
are clean, not held and not pinned (`Reclaims`). Loading a page adds freshly allocated clean pages
with the contents of the lower file, and may then reclaim (`Loads`). Both are stated for all caches
at once and are what every later proof about the page cache uses.
-/

namespace RespOS.Fs

open RespOS.Basis RespOS.Mm Std.ExtTreeMap Option

/-- Two versions of a page that differ in their place in the LRU order only. -/
structure Page.SameData (p q : Page) : Prop where
  frame : q.frame = p.frame
  dirty : q.dirty = p.dirty
  writeVersion : q.writeVersion = p.writeVersion
  writeback : q.writeback = p.writeback

theorem Page.SameData.refl (p : Page) : p.SameData p := ⟨rfl, rfl, rfl, rfl⟩

theorem Page.SameData.trans {p q r : Page} (hpq : p.SameData q) (hqr : q.SameData r) :
    p.SameData r :=
  ⟨hqr.frame.trans hpq.frame, hqr.dirty.trans hpq.dirty, hqr.writeVersion.trans hpq.writeVersion,
    hqr.writeback.trans hpq.writeback⟩

namespace Caches

variable {s s' s'' : Caches} {c idx : Nat}

/-! ### Projections of the updates -/

@[simp] theorem cache_setCache_self (s : Caches) (c : Nat) (pc : PageCache) :
    (s.setCache c pc).cache c = pc := by
  simp [setCache]

theorem cache_setCache_of_ne (s : Caches) {c c' : Nat} (pc : PageCache) (h : c' ≠ c) :
    (s.setCache c pc).cache c' = s.cache c' := by
  simp [setCache, Function.update_of_ne h]

theorem getElem?_setPage (s : Caches) (c idx : Nat) (page : Page) (c' i : Nat) :
    ((s.setPage c idx page).cache c').pages[i]? =
      if c' = c ∧ i = idx then some page else (s.cache c').pages[i]? := by
  unfold setPage
  by_cases hc : c' = c
  · subst hc
    simp [getElem?_insert, @eq_comm _ i]
  · simp [cache_setCache_of_ne, hc]

theorem getElem?_erasePage (s : Caches) (c idx c' i : Nat) :
    ((s.erasePage c idx).cache c').pages[i]? =
      if c' = c ∧ i = idx then none else (s.cache c').pages[i]? := by
  unfold erasePage
  by_cases hc : c' = c
  · subst hc
    simp [getElem?_erase, @eq_comm _ i]
  · simp [cache_setCache_of_ne, hc]

/-- A cache that keeps everything but its pages. -/
def SameInfo (pc pc' : PageCache) : Prop := pc' = { pc with pages := pc'.pages }

theorem SameInfo.refl (pc : PageCache) : SameInfo pc pc := rfl

theorem SameInfo.trans {a b d : PageCache} (hab : SameInfo a b) (hbd : SameInfo b d) :
    SameInfo a d := by
  unfold SameInfo at *
  rw [hbd, hab]

theorem sameInfo_setPage (s : Caches) (c idx : Nat) (page : Page) (c' : Nat) :
    SameInfo (s.cache c') ((s.setPage c idx page).cache c') := by
  by_cases hc : c' = c
  · subst hc
    simp [setPage, SameInfo]
  · simp [setPage, cache_setCache_of_ne, hc, SameInfo]

theorem sameInfo_erasePage (s : Caches) (c idx c' : Nat) :
    SameInfo (s.cache c') ((s.erasePage c idx).cache c') := by
  by_cases hc : c' = c
  · subst hc
    simp [erasePage, SameInfo]
  · simp [erasePage, cache_setCache_of_ne, hc, SameInfo]

/-! ### Reclaim -/

/-- `s'` comes from `s` by changes of LRU places and by the removal of clean pages that are neither
held nor pinned. -/
structure Reclaims (held : Nat → Nat → Bool) (ext : Nat → Nat) (s s' : Caches) : Prop where
  phys : s'.phys = s.phys
  registry : s'.registry = s.registry
  dirtyPageCount : s'.dirtyPageCount = s.dirtyPageCount
  info : ∀ c, SameInfo (s.cache c) (s'.cache c)
  kept : ∀ (c i : Nat) (q : Page), (s'.cache c).pages[i]? = some q →
    ∃ p : Page, (s.cache c).pages[i]? = some p ∧ p.SameData q
  gone : ∀ (c i : Nat) (p : Page), (s.cache c).pages[i]? = some p → (s'.cache c).pages[i]? = none →
    p.dirty = false ∧ held c i = false ∧ ext p.frame = 0

variable {held : Nat → Nat → Bool} {ext : Nat → Nat}

theorem Reclaims.counters (s : Caches) (lru : List LruEntry) (pageCount : Nat) :
    Reclaims held ext s { s with lru := lru, pageCount := pageCount } :=
  ⟨rfl, rfl, rfl, fun c ↦ SameInfo.refl _, fun c i q hq ↦ ⟨q, hq, Page.SameData.refl q⟩,
    fun c i p hp hnone ↦ by simp [hp] at hnone⟩

theorem Reclaims.refl (s : Caches) : Reclaims held ext s s := .counters s s.lru s.pageCount

theorem Reclaims.trans (h : Reclaims held ext s s') (h' : Reclaims held ext s' s'') :
    Reclaims held ext s s'' where
  phys := h'.phys.trans h.phys
  registry := h'.registry.trans h.registry
  dirtyPageCount := h'.dirtyPageCount.trans h.dirtyPageCount
  info c := (h.info c).trans (h'.info c)
  kept c i r hr := by
    obtain ⟨q, hq, hqr⟩ := h'.kept c i r hr
    obtain ⟨p, hp, hpq⟩ := h.kept c i q hq
    exact ⟨p, hp, hpq.trans hqr⟩
  gone c i p hp hnone := by
    cases hq : (s'.cache c).pages[i]? with
    | none => exact h.gone c i p hp hq
    | some q =>
      obtain ⟨p', hp', hpq⟩ := h.kept c i q hq
      obtain rfl : p = p' := some.inj (hp.symm.trans hp')
      obtain ⟨hdirty, hheld, hext⟩ := h'.gone c i q hq hnone
      exact ⟨hpq.dirty ▸ hdirty, hheld, hpq.frame ▸ hext⟩

theorem reclaims_of_setPage {page : Page} (page' : Page) (hpage : (s.cache c).pages[idx]? = some page)
    (hsame : page.SameData page') (hphys : s'.phys = s.phys) (hreg : s'.registry = s.registry)
    (hcount : s'.dirtyPageCount = s.dirtyPageCount)
    (hcache : s'.cache = (s.setPage c idx page').cache) : Reclaims held ext s s' where
  phys := hphys
  registry := hreg
  dirtyPageCount := hcount
  info c' := by
    rw [hcache]
    exact sameInfo_setPage s c idx page' c'
  kept c' i q hq := by
    rw [hcache, getElem?_setPage] at hq
    split_ifs at hq with h
    · obtain ⟨rfl, rfl⟩ := h
      obtain rfl := some.inj hq
      exact ⟨page, hpage, hsame⟩
    · exact ⟨q, hq, Page.SameData.refl q⟩
  gone c' i p hp hnone := by
    rw [hcache, getElem?_setPage] at hnone
    split_ifs at hnone with h
    simp [hp] at hnone

theorem touchPage_reclaims (s : Caches) (c idx : Nat) :
    Reclaims held ext s (s.touchPage c idx) := by
  unfold touchPage
  cases hpage : (s.cache c).pages[idx]? with
  | none =>
    simp only [hpage]
    exact ⟨rfl, rfl, rfl, fun c ↦ SameInfo.refl _, fun c i q hq ↦ ⟨q, hq, Page.SameData.refl q⟩,
      fun c i p hp hnone ↦ by simp [hp] at hnone⟩
  | some page =>
    simp only [hpage]
    have hsame : page.SameData { page with generation := s.nextGeneration, queued := true } :=
      ⟨rfl, rfl, rfl, rfl⟩
    split_ifs <;> exact reclaims_of_setPage _ hpage hsame rfl rfl rfl rfl

theorem reclaimLruEntry_reclaims (held : Nat → Nat → Bool) (ext : Nat → Nat) (s : Caches)
    (e : LruEntry) : Reclaims held ext s (s.reclaimLruEntry held ext e).2 := by
  unfold reclaimLruEntry
  cases hpage : (s.cache e.cacheId).pages[e.pageIdx]? with
  | none => exact Reclaims.refl s
  | some page =>
    simp only
    have hqueued : Reclaims held ext s
        (s.setPage e.cacheId e.pageIdx { page with queued := false }) :=
      reclaims_of_setPage { page with queued := false } hpage ⟨rfl, rfl, rfl, rfl⟩ rfl rfl rfl rfl
    split_ifs with h₁ h₂ h₃
    · exact Reclaims.refl s
    · exact hqueued.trans (touchPage_reclaims _ _ _)
    · exact hqueued.trans (touchPage_reclaims _ _ _)
    refine hqueued.trans ⟨rfl, rfl, rfl, fun c ↦ sameInfo_erasePage _ _ _ c, ?_, ?_⟩
    · intro c i q hq
      rw [getElem?_erasePage] at hq
      split_ifs at hq
      exact ⟨q, hq, Page.SameData.refl q⟩
    · intro c i p hp hnone
      rw [getElem?_erasePage] at hnone
      split_ifs at hnone with h
      · obtain ⟨rfl, rfl⟩ := h
        rw [getElem?_setPage, if_pos ⟨rfl, rfl⟩] at hp
        obtain rfl := some.inj hp
        simpa [and_assoc] using h₃
      · simp [hp] at hnone

theorem reclaimLoop_reclaims (scan : Nat) (s : Caches) :
    Reclaims held ext s (reclaimLoop held ext scan s) := by
  induction scan generalizing s with
  | zero => exact Reclaims.refl s
  | succ scan ih =>
    unfold reclaimLoop
    split_ifs
    · exact Reclaims.refl s
    cases hlru : s.lru with
    | nil => exact Reclaims.refl s
    | cons e rest =>
      simp only
      have hpop : Reclaims held ext s { s with lru := rest } := .counters s rest s.pageCount
      have hentry := reclaimLruEntry_reclaims held ext { s with lru := rest } e
      split
      · rename_i t ht
        rw [ht] at hentry
        have hcount : Reclaims held ext t { t with pageCount := t.pageCount - 1 } :=
          .counters t t.lru (t.pageCount - 1)
        exact ((hpop.trans hentry).trans hcount).trans (ih _)
      · rename_i t ht
        rw [ht] at hentry
        exact (hpop.trans hentry).trans (ih _)

theorem reclaimGlobal_reclaims (s : Caches) : Reclaims held ext s (s.reclaimGlobal held ext) :=
  reclaimLoop_reclaims _ s

theorem foldl_touchPage_reclaims (l : List Nat) (s : Caches) (c : Nat) :
    Reclaims held ext s (l.foldl (fun s i ↦ s.touchPage c i) s) := by
  induction l generalizing s with
  | nil => exact Reclaims.refl s
  | cons i l ih => exact (touchPage_reclaims s c i).trans (ih _)

/-! ### Loading -/

/-- `s'` comes from `s` by publishing the pages `[idx, idx + n)` of cache `c` with the contents
`bytes` in the next `n` frames, and by a reclaim that spares them. -/
structure Loads (ext : Nat → Nat) (bytes : Nat → PageBytes) (c idx n : Nat) (s s' : Caches) :
    Prop where
  consumes : s.phys.ConsumesN s'.phys n
  registry : s'.registry = s.registry
  dirtyPageCount : s'.dirtyPageCount = s.dirtyPageCount
  info : ∀ c', SameInfo (s.cache c') (s'.cache c')
  origin : ∀ (c' i : Nat) (q : Page), (s'.cache c').pages[i]? = some q →
    (∃ p : Page, (s.cache c').pages[i]? = some p ∧ p.SameData q) ∨
      (c' = c ∧ idx ≤ i ∧ i < idx + n ∧ (s.cache c).pages[i]? = none ∧ q.dirty = false ∧
        q.frame = s.phys.supply (i - idx) ∧ s'.phys.mem q.frame = bytes i)
  gone : ∀ (c' i : Nat) (p : Page), (s.cache c').pages[i]? = some p →
    (s'.cache c').pages[i]? = none → p.dirty = false ∧ ext p.frame = 0
  present : ∀ i, idx ≤ i → i < idx + n → ((s'.cache c).pages[i]?).isSome = true

variable {bytes : Nat → PageBytes} {n : Nat}

theorem Loads.reclaims (h : Loads ext bytes c idx n s s') (held : Nat → Nat → Bool)
    (hheld : ∀ i, idx ≤ i → i < idx + n → held c i = true)
    (h' : Reclaims held ext s' s'') : Loads ext bytes c idx n s s'' where
  consumes := by
    rw [h'.phys]
    exact h.consumes
  registry := h'.registry.trans h.registry
  dirtyPageCount := h'.dirtyPageCount.trans h.dirtyPageCount
  info c' := (h.info c').trans (h'.info c')
  origin c' i r hr := by
    obtain ⟨q, hq, hqr⟩ := h'.kept c' i r hr
    rcases h.origin c' i q hq with ⟨p, hp, hpq⟩ | ⟨rfl, hlo, hhi, hnone, hdirty, hframe, hmem⟩
    · exact .inl ⟨p, hp, hpq.trans hqr⟩
    · refine .inr ⟨rfl, hlo, hhi, hnone, hqr.dirty.trans hdirty, hqr.frame.trans hframe, ?_⟩
      rw [h'.phys, hqr.frame, hmem]
  gone c' i p hp hnone := by
    cases hq : (s'.cache c').pages[i]? with
    | none => exact h.gone c' i p hp hq
    | some q =>
      obtain ⟨hdirty, -, hext⟩ := h'.gone c' i q hq hnone
      rcases h.origin c' i q hq with ⟨p', hp', hpq⟩ | ⟨rfl, -, -, hnone', -⟩
      · obtain rfl : p = p' := some.inj (hp.symm.trans hp')
        exact ⟨hpq.dirty ▸ hdirty, hpq.frame ▸ hext⟩
      · simp [hp] at hnone'
  present i hlo hhi := by
    obtain ⟨q, hq⟩ := isSome_iff_exists.mp (h.present i hlo hhi)
    cases hr : (s''.cache c).pages[i]? with
    | some r => rfl
    | none =>
      obtain ⟨-, hfalse, -⟩ := h'.gone c i q hq hr
      simp [hheld i hlo hhi] at hfalse

theorem Loads.of_reclaims (held : Nat → Nat → Bool) (h : Reclaims held ext s s') : Loads ext bytes c idx 0 s s' where
  consumes := by simp [Phys.ConsumesN, h.phys]
  __ := h
  origin c' i q hq := .inl (h.kept c' i q hq)
  gone c' i p hp hnone := ⟨(h.gone c' i p hp hnone).1, (h.gone c' i p hp hnone).2.2⟩
  present i hlo hhi := by omega

theorem Loads.publishPage (hinj : Function.Injective s.phys.supply)
    (h : Loads ext bytes c idx n s s') (hnone : (s'.cache c).pages[idx + n]? = none)
    (hnone₀ : (s.cache c).pages[idx + n]? = none) :
    Loads ext bytes c idx (n + 1) s (s'.publishPage c (idx + n) (bytes (idx + n))) := by
  have hsupply : s'.phys.supply 0 = s.phys.supply n := h.consumes.1 0
  have hpages : ∀ c' i, ((s'.publishPage c (idx + n) (bytes (idx + n))).cache c').pages[i]? =
      if c' = c ∧ i = idx + n then
        some { frame := s.phys.supply n, generation := s'.nextGeneration }
      else (s'.cache c').pages[i]? := by
    intro c' i
    rw [← hsupply]
    exact getElem?_setPage _ c (idx + n) _ c' i
  have hmem : ∀ p, (s'.publishPage c (idx + n) (bytes (idx + n))).phys.mem p =
      if p = s.phys.supply n then bytes (idx + n) else s'.phys.mem p := by
    intro p
    simp only [Caches.publishPage, setPage, setCache, Phys.take, Phys.store, hsupply]
    by_cases hp : p = s.phys.supply n <;> simp [hp]
  refine ⟨?_, h.registry, h.dirtyPageCount, ?_, ?_, ?_, ?_⟩
  · refine ⟨fun i ↦ ?_, fun p hp ↦ ?_⟩
    · show s'.phys.supply (i + 1) = _
      rw [h.consumes.1]
      congr 1
      omega
    · rw [hmem, if_neg (hp n (by omega))]
      exact h.consumes.2 p fun i hi ↦ hp i (by omega)
  · intro c'
    exact (h.info c').trans (sameInfo_setPage _ c (idx + n) _ c')
  · intro c' i q hq
    rw [hpages] at hq
    split_ifs at hq with hci
    · obtain ⟨rfl, rfl⟩ := hci
      obtain rfl := some.inj hq
      refine .inr ⟨rfl, by omega, by omega, hnone₀, rfl, by simp, ?_⟩
      rw [hmem, if_pos rfl]
    rcases h.origin c' i q hq with hold | ⟨rfl, hlo, hhi, hold, hdirty, hframe, hbytes⟩
    · exact .inl hold
    refine .inr ⟨rfl, hlo, by omega, hold, hdirty, hframe, ?_⟩
    have hne : q.frame ≠ s.phys.supply n := by
      rw [hframe]
      intro heq
      have := hinj heq
      omega
    rw [hmem, if_neg hne, hbytes]
  · intro c' i p hp hgone
    rw [hpages] at hgone
    split_ifs at hgone with hci
    exact h.gone c' i p hp hgone
  · intro i hlo hhi
    rw [hpages]
    split_ifs with hci
    · rfl
    · exact h.present i hlo (by
        have : i ≠ idx + n := fun heq ↦ hci ⟨rfl, heq⟩
        omega)

theorem loads_foldl_publishPage (ext : Nat → Nat) (bytes : Nat → PageBytes)
    (hinj : Function.Injective s.phys.supply)
    (hnone : ∀ i, idx ≤ i → i < idx + n → (s.cache c).pages[i]? = none) : Loads ext bytes c idx n s
      ((List.range' idx n).foldl (fun s i ↦ s.publishPage c i (bytes i)) s) := by
  induction n with
  | zero => exact Loads.of_reclaims (fun _ _ ↦ false) (Reclaims.refl s)
  | succ n ih =>
    have hrun := ih fun i hlo hhi ↦ hnone i hlo (by omega)
    rw [List.range'_concat, List.foldl_append, Nat.one_mul]
    refine hrun.publishPage hinj ?_ (hnone (idx + n) (by omega) (by omega))
    -- the page behind the run is cached neither before nor among the pages published so far
    rw [eq_none_iff_forall_ne_some]
    intro q hq
    rcases hrun.origin c (idx + n) q hq with ⟨p, hp, -⟩ | ⟨-, -, hlt, -⟩
    · simp [hnone (idx + n) (by omega) (by omega)] at hp
    · omega

theorem loadWindow_pos (pc : PageCache) (lower : Bool) (idx readAhead : Nat) :
    0 < loadWindow pc lower idx readAhead := by
  unfold loadWindow
  split_ifs with h
  · have hlt : idx * pageSize < pc.fileSize := by simpa using (Bool.and_eq_true_iff.mp h).2
    refine Nat.lt_min.mpr ⟨by omega, ?_⟩
    unfold pageSize at hlt ⊢
    omega
  · omega

theorem loadPages_spec (pc : PageCache) (lower : Bool) (idx readAhead : Nat)
    (hnone : pc.pages[idx]? = none) : 0 < loadPages pc lower idx readAhead ∧
      ∀ i, idx ≤ i → i < idx + loadPages pc lower idx readAhead → pc.pages[i]? = none := by
  have huncached : ∀ i, idx ≤ i → (idx < i → i ∉ pc.pages) → pc.pages[i]? = none := by
    intro i hlo hc
    by_cases hi : i = idx
    · rw [hi]
      exact hnone
    · exact getElem?_eq_none (hc (by omega))
  unfold loadPages
  cases hfind : (List.range' 1 (loadWindow pc lower idx readAhead - 1)).find?
      fun run ↦ pc.pages.contains (idx + run) with
  | none =>
    simp only [hfind]
    refine ⟨loadWindow_pos .., fun i hlo hhi ↦ huncached i hlo fun hlt ↦ ?_⟩
    have := List.find?_eq_none.mp hfind (i - idx) (by rw [List.mem_range'_1]; omega)
    simpa [Nat.add_sub_cancel' hlo] using this
  | some run =>
    simp only [hfind]
    have hmem : run ∈ List.range' 1 (loadWindow pc lower idx readAhead - 1) :=
      List.mem_of_find?_eq_some hfind
    rw [List.mem_range'_1] at hmem
    refine ⟨by omega, fun i hlo hhi ↦ huncached i hlo fun hlt ↦ ?_⟩
    have hfirst := (List.find?_range'_eq_some.mp hfind).2.2 (i - idx) (by omega) (by omega)
    rw [Nat.add_sub_cancel' hlo] at hfirst
    rw [← contains_iff_mem, Bool.not_eq_true]
    exact (Bool.not_eq_true' _).mp hfirst

/-- The contents of a byte that a load brings into the cache. -/
def loadByte (pc : PageCache) (lower : Bool) (x : Nat) : UInt8 :=
  if lower ∧ x < pc.fileSize then pc.lower.byte x else 0

theorem loadedBytes_eq (pc : PageCache) (lower : Bool) {idx n i off : Nat} (hlo : idx ≤ i)
    (hhi : i < idx + n) (hoff : off < pageSize) : loadedBytes pc.lower idx
        (if lower then min (pc.fileSize - idx * pageSize) (n * pageSize) else 0) i off =
      loadByte pc lower (i * pageSize + off) := by
  obtain ⟨d, rfl⟩ := Nat.exists_eq_add_of_le hlo
  have hd : d + 1 ≤ n := by omega
  have hmul : (d + 1) * pageSize ≤ n * pageSize := Nat.mul_le_mul_right _ hd
  unfold loadedBytes loadByte
  rw [Nat.add_sub_cancel_left]
  rw [Nat.add_mul] at *
  cases lower with
  | false => simp
  | true =>
    have hiff : (d * pageSize + off < min (pc.fileSize - idx * pageSize) (n * pageSize)) ↔
        idx * pageSize + d * pageSize + off < pc.fileSize := by omega
    simp only [if_true, hiff, true_and]

/-- What `get_or_load_with_status` does: an error changes nothing, and success leaves the page cached
after loading a run of pages. -/
theorem getOrLoadWithStatus_spec {fail : Nat → Option Errno} {lower markAccessed : Bool}
    {readAhead : Nat} {r : Except Errno Bool} (hinj : Function.Injective s.phys.supply)
    (h : s.getOrLoadWithStatus fail ext c idx lower readAhead markAccessed = (r, s')) :
    (∃ e, r = .error e ∧ s' = s) ∨
      ∃ fill n bytes, r = .ok fill ∧ Loads ext bytes c idx n s s' ∧
        ((s'.cache c).pages[idx]?).isSome = true ∧
        ∀ i off, idx ≤ i → i < idx + n → off < pageSize →
          bytes i off = loadByte (s.cache c) lower (i * pageSize + off) := by
  unfold getOrLoadWithStatus at h
  cases hpage : (s.cache c).pages[idx]? with
  | some page =>
    simp only [hpage, Prod.mk.injEq] at h
    obtain ⟨rfl, rfl⟩ := h
    right
    have hreclaims : Reclaims (fun _ _ ↦ true) ext s
        (if markAccessed then s.touchPage c idx else s) := by
      split_ifs
      · exact touchPage_reclaims s c idx
      · exact Reclaims.refl s
    refine ⟨false, 0, fun _ _ ↦ 0, rfl, Loads.of_reclaims _ hreclaims, ?_, fun i off hlo hhi ↦ by omega⟩
    cases hgone : ((if markAccessed then s.touchPage c idx else s).cache c).pages[idx]? with
    | some q => rfl
    | none => simpa using (hreclaims.gone c idx page hpage hgone).2.1
  | none =>
    simp only [hpage] at h
    obtain ⟨hpos, huncached⟩ := loadPages_spec (s.cache c) lower idx readAhead hpage
    set n := loadPages (s.cache c) lower idx readAhead
    split at h
    · obtain ⟨rfl, rfl⟩ := h
      exact .inl ⟨_, rfl, rfl⟩
    obtain ⟨rfl, rfl⟩ := h
    right
    set readLen := if lower then min ((s.cache c).fileSize - idx * pageSize) (n * pageSize) else 0
    have hload := loads_foldl_publishPage ext (loadedBytes (s.cache c).lower idx readLen) hinj
      huncached
    have hspared := hload.reclaims (fun _ _ ↦ true) (fun _ _ _ ↦ rfl)
      (foldl_touchPage_reclaims (List.range' idx n) _ c)
    have hload := hspared.reclaims (fun c' i ↦ c' = c && idx ≤ i && i < idx + n)
      (fun i hlo hhi ↦ by simp [hlo, hhi]) (reclaimGlobal_reclaims _)
    have htouched := hload.reclaims (fun _ _ ↦ true) (fun _ _ _ ↦ rfl) (touchPage_reclaims _ c idx)
    refine ⟨_, n, loadedBytes (s.cache c).lower idx readLen, rfl, ?_, ?_, fun i off hlo hhi hoff ↦
      loadedBytes_eq (s.cache c) lower hlo hhi hoff⟩
    · cases markAccessed with
      | true => exact htouched
      | false => exact hload
    · cases markAccessed with
      | true => exact htouched.present idx le_rfl (by omega)
      | false => exact hload.present idx le_rfl (by omega)

end Caches

end RespOS.Fs
