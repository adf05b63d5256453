import RespOS.Fs.LoadSpec
import RespOS.Fs.OpenFile

/-!
# Frames of files

A frame belongs to a page cache, to the table `SHARED_FILE_PAGES`, to the allocator, or to none of
them; `WellFormed` says that no frame belongs to two of them or twice to one. The functions that
obtain frames for the memory manager (`sharedFileFrame`, `readFileAt`) keep this
(`sharedFileFrame_spec`, `readFileAt_spec`), and the relation `Evolves` says what else they can do:
new cached and new registered frames come from the allocator, registered frames stay, and so do the
cached frames that some mapping pins. A frame that is `Loose`, owned by none of the three, stays so.

`Backs k f idx p` says that `p` is the frame that page `idx` of file `f` is shared through.
-/

namespace RespOS.Fs

open RespOS.Basis RespOS.Mm Function Except

namespace Caches

/-- Some cached page owns the frame. -/
def Cached (s : Caches) (p : Nat) : Prop :=
  ∃ (c i : Nat) (q : Page), (s.cache c).pages[i]? = some q ∧ q.frame = p

/-- Cached frames are pairwise different and different from those the allocator will hand out, and
only registered caches have pages. -/
structure WellFormed (s : Caches) : Prop where
  supply_injective : Function.Injective s.phys.supply
  supply_not_cached : ∀ i, ¬ s.Cached (s.phys.supply i)
  frame_injective : ∀ (c i : Nat) (q : Page) (c' i' : Nat) (q' : Page),
    (s.cache c).pages[i]? = some q → (s.cache c').pages[i']? = some q' → q.frame = q'.frame →
      c = c' ∧ i = i'
  registered : ∀ (c i : Nat) (q : Page), (s.cache c).pages[i]? = some q → c ∈ s.registry

variable {s s' : Caches} {ext : Nat → Nat} {bytes : Nat → PageBytes} {c idx n : Nat}

theorem WellFormed.loads (h : s.WellFormed) (hc : c ∈ s.registry)
    (hl : Loads ext bytes c idx n s s') : s'.WellFormed := by
  have hold : ∀ (c' i : Nat) (q : Page), (s'.cache c').pages[i]? = some q →
      (∃ p : Page, (s.cache c').pages[i]? = some p ∧ p.frame = q.frame) ∨
        (c' = c ∧ idx ≤ i ∧ i < idx + n ∧ q.frame = s.phys.supply (i - idx)) := by
    intro c' i q hq
    rcases hl.origin c' i q hq with ⟨p, hp, hpq⟩ | ⟨hcc, hlo, hhi, -, -, hframe, -⟩
    · exact .inl ⟨p, hp, hpq.frame.symm⟩
    · exact .inr ⟨hcc, hlo, hhi, hframe⟩
  refine ⟨?_, ?_, ?_, ?_⟩
  · intro i j hij
    rw [hl.consumes.1, hl.consumes.1] at hij
    have := h.supply_injective hij
    omega
  · rintro j ⟨c', i, q, hq, hframe⟩
    rw [hl.consumes.1] at hframe
    rcases hold c' i q hq with ⟨p, hp, hpq⟩ | ⟨-, hlo, hhi, hnew⟩
    · exact h.supply_not_cached (n + j) ⟨c', i, p, hp, hpq.trans hframe⟩
    · have := h.supply_injective (hnew.symm.trans hframe)
      omega
  · intro c₁ i₁ q₁ c₂ i₂ q₂ h₁ h₂ heq
    rcases hold c₁ i₁ q₁ h₁ with ⟨p₁, hp₁, hpq₁⟩ | ⟨hc₁, hlo₁, hhi₁, hnew₁⟩ <;>
      rcases hold c₂ i₂ q₂ h₂ with ⟨p₂, hp₂, hpq₂⟩ | ⟨hc₂, hlo₂, hhi₂, hnew₂⟩
    · exact h.frame_injective c₁ i₁ p₁ c₂ i₂ p₂ hp₁ hp₂ (by rw [hpq₁, hpq₂, heq])
    · exact absurd ⟨c₁, i₁, p₁, hp₁, by rw [hpq₁, heq, hnew₂]⟩ (h.supply_not_cached (i₂ - idx))
    · exact absurd ⟨c₂, i₂, p₂, hp₂, by rw [hpq₂, ← heq, hnew₁]⟩ (h.supply_not_cached (i₁ - idx))
    · have := h.supply_injective (hnew₁.symm.trans (heq.trans hnew₂))
      exact ⟨hc₁.trans hc₂.symm, by omega⟩
  · intro c' i q hq
    rw [hl.registry]
    rcases hold c' i q hq with ⟨p, hp, -⟩ | ⟨rfl, -⟩
    · exact h.registered c' i p hp
    · exact hc

end Caches

/-! ### The kernel state -/

namespace Kernel

def identity (k : Kernel) (f : Nat) : Nat × Nat :=
  match (k.files f).object with
  | .regular _ => ((k.files f).dev, (k.files f).ino)
  | .devShm id => (devfsDev, shmInoBase + id)
  | .memfd _ => (0, 0)

variable {f p idx n : Nat} {caches : Caches} {phys : Phys}

theorem getStat_identity {k : Kernel} {io : IoEnv} {stat : FileStat} (h : k.getStat io f = .ok stat) :
    (stat.dev, stat.ino) = k.identity f := by
  unfold getStat at h
  unfold identity
  cases hobj : (k.files f).object with
  | regular c =>
    simp only [hobj] at h
    cases hfail : io.statFail with
    | some e => simp [hfail] at h
    | none =>
      simp only [hfail, ok.injEq] at h
      rw [← h]
  | devShm id | memfd id =>
    simp only [hobj, ok.injEq] at h
    rw [← h]

/-- The key of a page of a file without page cache. -/
def pageKey (k : Kernel) (f idx : Nat) : SharedFilePageKey :=
  ⟨(k.identity f).1, (k.identity f).2, idx⟩

/-- The frame through which page `idx` of the file is shared. -/
def Backs (k : Kernel) (f idx p : Nat) : Prop :=
  match (k.files f).object with
  | .regular c => ∃ q : Page, (k.caches.cache c).pages[idx]? = some q ∧ q.frame = p
  | _ => k.sharedFilePages (k.pageKey f idx) = some p

/-- No frame belongs twice to page caches, `SHARED_FILE_PAGES` and the allocator. -/
structure WellFormed (k : Kernel) : Prop where
  caches : k.caches.WellFormed
  fileCache : ∀ f c, (k.files f).object = .regular c → c ∈ k.caches.registry
  supply_not_shared : ∀ i key, k.sharedFilePages key ≠ some (k.phys.supply i)
  shared_injective : ∀ key key' p, k.sharedFilePages key = some p →
    k.sharedFilePages key' = some p → key = key'
  shared_not_cached : ∀ key p, k.sharedFilePages key = some p → ¬ k.caches.Cached p

/-- The frame belongs neither to a page cache, nor to `SHARED_FILE_PAGES`, nor to the allocator. -/
structure Loose (k : Kernel) (p : Nat) : Prop where
  not_supply : ∀ i, p ≠ k.phys.supply i
  not_cached : ¬ k.caches.Cached p
  not_shared : ∀ key, k.sharedFilePages key ≠ some p

/-- What a call that obtains frames can do to the kernel state; it takes `n` frames from the
allocator. -/
structure Evolves (ext : Nat → Nat) (n : Nat) (k k' : Kernel) : Prop where
  consumes : k.phys.ConsumesN k'.phys n
  files : k'.files = k.files
  registry : k'.caches.registry = k.caches.registry
  cachedFrom : ∀ (c i : Nat) (q : Page), (k'.caches.cache c).pages[i]? = some q →
    (∃ p : Page, (k.caches.cache c).pages[i]? = some p ∧ p.frame = q.frame) ∨
      ∃ j < n, q.frame = k.phys.supply j
  cachedKept : ∀ (c i : Nat) (p : Page), (k.caches.cache c).pages[i]? = some p → ext p.frame ≠ 0 →
    ∃ q : Page, (k'.caches.cache c).pages[i]? = some q ∧ q.frame = p.frame
  sharedFrom : ∀ key p, k'.sharedFilePages key = some p →
    k.sharedFilePages key = some p ∨ ∃ j < n, p = k.phys.supply j
  sharedKept : ∀ key p, k.sharedFilePages key = some p → k'.sharedFilePages key = some p

section Evolves

variable {k k' k'' : Kernel} {ext : Nat → Nat} {n m : Nat}

theorem Evolves.refl (k : Kernel) : k.Evolves ext 0 k where
  consumes := by simp [Phys.ConsumesN]
  files := rfl
  registry := rfl
  cachedFrom c i q hq := .inl ⟨q, hq, rfl⟩
  cachedKept c i p hp _ := ⟨p, hp, rfl⟩
  sharedFrom key p hp := .inl hp
  sharedKept key p hp := hp

variable (h : k.Evolves ext n k')
include h

theorem Evolves.trans (h' : k'.Evolves ext m k'') : k.Evolves ext (n + m) k'' where
  consumes := h.consumes.trans h'.consumes
  files := h'.files.trans h.files
  registry := h'.registry.trans h.registry
  cachedFrom c i r hr := by
    rcases h'.cachedFrom c i r hr with ⟨q, hq, hqr⟩ | ⟨j, hj, hframe⟩
    · rcases h.cachedFrom c i q hq with ⟨p, hp, hpq⟩ | ⟨j, hj, hframe⟩
      · exact .inl ⟨p, hp, hpq.trans hqr⟩
      · exact .inr ⟨j, by omega, hqr.symm.trans hframe⟩
    · refine .inr ⟨n + j, by omega, ?_⟩
      rw [hframe, h.consumes.1]
  cachedKept c i p hp hext := by
    obtain ⟨q, hq, hqp⟩ := h.cachedKept c i p hp hext
    obtain ⟨r, hr, hrq⟩ := h'.cachedKept c i q hq (hqp ▸ hext)
    exact ⟨r, hr, hrq.trans hqp⟩
  sharedFrom key p hp := by
    rcases h'.sharedFrom key p hp with hp | ⟨j, hj, rfl⟩
    · rcases h.sharedFrom key p hp with hp | ⟨j, hj, hpj⟩
      · exact .inl hp
      · exact .inr ⟨j, by omega, hpj⟩
    · exact .inr ⟨n + j, by omega, h.consumes.1 j⟩
  sharedKept key p hp := h'.sharedKept key p (h.sharedKept key p hp)

theorem Evolves.mono {ext' : Nat → Nat}
    (hle : ∀ p, ext' p ≠ 0 → ext p ≠ 0) : k.Evolves ext' n k' where
  __ := h
  cachedKept c i p hp hext := h.cachedKept c i p hp (hle _ hext)

theorem Evolves.loose (hp : k.Loose p) : k'.Loose p := by
  refine ⟨fun i ↦ ?_, ?_, fun key hkey ↦ ?_⟩
  · rw [h.consumes.1]
    exact hp.not_supply (n + i)
  · rintro ⟨c, i, q, hq, hframe⟩
    rcases h.cachedFrom c i q hq with ⟨p', hp', hpq⟩ | ⟨j, -, hj⟩
    · exact hp.not_cached ⟨c, i, p', hp', hpq.trans hframe⟩
    · exact hp.not_supply j (hframe.symm.trans hj)
  · rcases h.sharedFrom key p hkey with hkey | ⟨j, -, hj⟩
    · exact hp.not_shared key hkey
    · exact hp.not_supply j hj

theorem Evolves.mem_eq (hp : ∀ i, p ≠ k.phys.supply i) : k'.phys.mem p = k.phys.mem p :=
  h.consumes.2 p fun i _ ↦ hp i

theorem Evolves.identity (f : Nat) : k'.identity f = k.identity f := by
  unfold Kernel.identity
  rw [h.files]

theorem Evolves.backs (hp : ext p ≠ 0) (hb : k.Backs f idx p) : k'.Backs f idx p := by
  unfold Backs at hb ⊢
  rw [h.files]
  cases hobj : (k.files f).object with
  | regular c =>
    simp only [hobj] at hb ⊢
    obtain ⟨q, hq, rfl⟩ := hb
    exact h.cachedKept c idx q hq hp
  | devShm id | memfd id =>
    simp only [hobj] at hb ⊢
    unfold pageKey
    rw [h.identity]
    exact h.sharedKept _ _ hb

end Evolves

/-! ### The calls that obtain frames -/

/-- The call leaves a well-formed state that evolved from `k`. -/
def Obtains (ext : Nat → Nat) (k k' : Kernel) : Prop := k'.WellFormed ∧ ∃ n, k.Evolves ext n k'

section Obtains

variable {k k' k'' : Kernel} {ext : Nat → Nat} {io : IoEnv}

theorem Obtains.refl (h : k.WellFormed) : k.Obtains ext k := ⟨h, 0, Evolves.refl k⟩

theorem Obtains.trans (h : k.Obtains ext k') (h' : k'.Obtains ext k'') : k.Obtains ext k'' := by
  obtain ⟨-, n, hn⟩ := h
  obtain ⟨hwf, m, hm⟩ := h'
  exact ⟨hwf, n + m, hn.trans hm⟩

theorem Backs.cases (h : k.Backs f idx p) :
    k.caches.Cached p ∨ ∃ key, k.sharedFilePages key = some p := by
  unfold Backs at h
  split at h
  · rename_i c _
    obtain ⟨q, hq, hframe⟩ := h
    exact .inl ⟨c, idx, q, hq, hframe⟩
  · exact .inr ⟨_, h⟩

theorem Backs.not_loose (h : k.Backs f idx p) : ¬ k.Loose p := fun hloose ↦
  h.cases.elim hloose.not_cached fun ⟨key, hkey⟩ ↦ hloose.not_shared key hkey

theorem Obtains.not_supply (h : k.Obtains ext k') (hp : ∀ i, p ≠ k.phys.supply i) :
    ∀ i, p ≠ k'.phys.supply i := by
  obtain ⟨-, n, hev⟩ := h
  intro i
  rw [hev.consumes.1]
  exact hp (n + i)

theorem Backs.not_supply (hk : k.WellFormed) (h : k.Backs f idx p) : ∀ i, p ≠ k.phys.supply i := by
  rintro i rfl
  exact h.cases.elim (hk.caches.supply_not_cached i) fun ⟨key, hkey⟩ ↦ hk.supply_not_shared i key hkey

theorem Obtains.loose (h : k.Obtains ext k') (hp : k.Loose p) : k'.Loose p := by
  obtain ⟨-, n, hn⟩ := h
  exact hn.loose hp

theorem Obtains.of_loads (hk : k.WellFormed) {bytes : Nat → PageBytes} {c : Nat}
    (hc : c ∈ k.caches.registry) (h : Caches.Loads ext bytes c idx n k.caches caches) :
    k.Obtains ext { k with caches := caches } := by
  refine ⟨⟨hk.caches.loads hc h, ?_, ?_, hk.shared_injective, ?_⟩, n,
    ⟨h.consumes, rfl, h.registry, ?_, ?_, fun _ _ hp ↦ .inl hp, fun _ _ hp ↦ hp⟩⟩
  · intro f c' hf
    rw [h.registry]
    exact hk.fileCache f c' hf
  · intro i key
    have hsupply : caches.phys.supply i = k.phys.supply (n + i) := h.consumes.1 i
    show k.sharedFilePages key ≠ some (caches.phys.supply i)
    rw [hsupply]
    exact hk.supply_not_shared (n + i) key
  · rintro key p hkey ⟨c', i, q, hq, rfl⟩
    rcases h.origin c' i q hq with ⟨p, hp, hpq⟩ | ⟨-, -, -, -, -, hframe, -⟩
    · exact hk.shared_not_cached key q.frame hkey ⟨c', i, p, hp, hpq.frame.symm⟩
    · exact hk.supply_not_shared (i - idx) key (hkey.trans (congrArg some hframe))
  · intro c' i q hq
    rcases h.origin c' i q hq with ⟨p, hp, hpq⟩ | ⟨-, hlo, hhi, -, -, hframe, -⟩
    · exact .inl ⟨p, hp, hpq.frame.symm⟩
    · exact .inr ⟨i - idx, by omega, hframe⟩
  · intro c' i p hp hext
    cases hq : (caches.cache c').pages[i]? with
    | none => exact absurd (h.gone c' i p hp hq).2 hext
    | some q =>
      rcases h.origin c' i q hq with ⟨p', hp', hpq⟩ | ⟨rfl, -, -, hnone, -⟩
      · obtain rfl : p = p' := Option.some.inj (hp.symm.trans hp')
        exact ⟨q, rfl, hpq.frame⟩
      · simp [hp] at hnone

theorem evolves_setPhys (ext : Nat → Nat) (hk : k.WellFormed) (h : k.phys.ConsumesN phys n) :
    (k.setPhys phys).WellFormed ∧ k.Evolves ext n (k.setPhys phys) := by
  have hsupply : ∀ i, (k.setPhys phys).phys.supply i = k.phys.supply (n + i) := h.1
  refine ⟨⟨⟨?_, ?_, hk.caches.frame_injective, hk.caches.registered⟩, hk.fileCache, ?_,
    hk.shared_injective, hk.shared_not_cached⟩, ⟨h, rfl, rfl, fun c i q hq ↦ .inl ⟨q, hq, rfl⟩,
    fun c i p hp _ ↦ ⟨p, hp, rfl⟩, fun _ _ hp ↦ .inl hp, fun _ _ hp ↦ hp⟩⟩
  · intro i j hij
    have heq : k.phys.supply (n + i) = k.phys.supply (n + j) := by
      rw [← hsupply, ← hsupply]
      exact hij
    have := hk.caches.supply_injective heq
    omega
  · intro i
    show ¬ k.caches.Cached ((k.setPhys phys).phys.supply i)
    rw [hsupply]
    exact hk.caches.supply_not_cached (n + i)
  · intro i key
    rw [hsupply]
    exact hk.supply_not_shared (n + i) key

theorem obtains_setPhys (hk : k.WellFormed) (h : k.phys.Consumes phys) :
    k.Obtains ext (k.setPhys phys) := by
  obtain ⟨n, hn⟩ := h
  exact ⟨(evolves_setPhys ext hk hn).1, n, (evolves_setPhys ext hk hn).2⟩

theorem obtains_frameAlloc_some (ext : Nat → Nat) (hk : k.WellFormed)
    (h : k.phys.frameAlloc = (some p, phys)) :
    p = k.phys.supply 0 ∧ (k.setPhys phys).WellFormed ∧ k.Evolves ext 1 (k.setPhys phys) ∧
      (k.setPhys phys).Loose p := by
  obtain ⟨rfl, hc, -⟩ := Phys.frameAlloc_some h
  obtain ⟨hwf, hev⟩ := evolves_setPhys ext hk hc
  refine ⟨rfl, hwf, hev, ⟨fun i heq ↦ ?_, hk.caches.supply_not_cached 0, hk.supply_not_shared 0⟩⟩
  have hnext : k.phys.supply 0 = k.phys.supply (1 + i) := heq.trans (hc.1 i)
  have := hk.caches.supply_injective hnext
  omega

theorem WellFormed.store (hk : k.WellFormed) (p : Nat) (bytes : PageBytes) :
    (k.setPhys (k.phys.store p bytes)).WellFormed :=
  { hk with caches := { hk.caches with } }

theorem Evolves.store {i : Nat} (h : k.Evolves ext n k') (hi : i < n) (bytes : PageBytes) :
    k.Evolves ext n (k'.setPhys (k'.phys.store (k.phys.supply i) bytes)) :=
  { h with consumes := h.consumes.store hi bytes }

section

variable (hk : k.WellFormed)
include hk

theorem obtains_memfds (memfds : Nat → Memfd) : k.Obtains ext { k with memfds := memfds } :=
  ⟨{ hk with }, 0,
    ⟨by simp [Phys.ConsumesN, phys], rfl, rfl, fun c i q hq ↦ .inl ⟨q, hq, rfl⟩,
      fun c i p hp _ ↦ ⟨p, hp, rfl⟩, fun _ _ hp ↦ .inl hp, fun _ _ hp ↦ hp⟩⟩

theorem obtains_of_pages (hphys : caches.phys = k.caches.phys)
    (hregistry : caches.registry = k.caches.registry)
    (hpages : ∀ c, (caches.cache c).pages = (k.caches.cache c).pages) :
    k.Obtains ext { k with caches := caches } := by
  have hcached : ∀ p, caches.Cached p ↔ k.caches.Cached p := by
    intro p
    unfold Caches.Cached
    simp only [hpages]
  refine ⟨⟨⟨?_, fun i ↦ ?_, ?_, ?_⟩, ?_, fun i key ↦ ?_, hk.shared_injective, fun key p hp ↦ ?_⟩, 0,
    ⟨?_, rfl, hregistry, fun c i q hq ↦ ?_, fun c i p hp _ ↦ ?_, fun _ _ hp ↦ .inl hp,
      fun _ _ hp ↦ hp⟩⟩
  · rw [hphys]
    exact hk.caches.supply_injective
  · rw [hcached, hphys]
    exact hk.caches.supply_not_cached i
  · intro c i q c' i' q' hq hq'
    rw [hpages] at hq hq'
    exact hk.caches.frame_injective c i q c' i' q' hq hq'
  · intro c i q hq
    rw [hpages] at hq
    rw [hregistry]
    exact hk.caches.registered c i q hq
  · intro f c hf
    rw [hregistry]
    exact hk.fileCache f c hf
  · show k.sharedFilePages key ≠ some (caches.phys.supply i)
    rw [hphys]
    exact hk.supply_not_shared i key
  · rw [hcached]
    exact hk.shared_not_cached key p hp
  · show k.caches.phys.ConsumesN caches.phys 0
    rw [hphys]
    simp [Phys.ConsumesN]
  · rw [hpages] at hq
    exact .inl ⟨q, hq, rfl⟩
  · refine ⟨p, ?_, rfl⟩
    rw [hpages]
    exact hp

variable (f : Nat) (shared writable : Bool) (pages : Nat)

theorem obtains_mmapOpen : k.Obtains ext (k.mmapOpen f shared writable pages) := by
  unfold mmapOpen
  split
  · split_ifs
    · exact obtains_memfds hk _
    · exact Obtains.refl hk
  · exact Obtains.refl hk

theorem obtains_mmapClose : k.Obtains ext (k.mmapClose f shared writable pages) := by
  unfold mmapClose
  split
  · split_ifs
    · exact obtains_memfds hk _
    · exact Obtains.refl hk
  · exact Obtains.refl hk

end

variable {r : Except Errno (List UInt8)} {key : SharedFilePageKey}

theorem obtains_readLoop {fail : Nat → Option Errno} {c : Nat} {lower : Bool} {readAhead : Nat}
    {markAccessed : Bool} {stop fuel pos : Nat} {out : List UInt8} (hk : k.WellFormed)
    (hc : c ∈ k.caches.registry)
    (h : Caches.readLoop fail ext c lower readAhead markAccessed stop fuel pos k.caches out =
      (r, caches)) : k.Obtains ext { k with caches := caches } := by
  induction fuel generalizing k pos out with
  | zero =>
    obtain ⟨-, rfl⟩ := Prod.mk.inj h
    exact Obtains.refl hk
  | succ fuel ih =>
    simp only [Caches.readLoop] at h
    split_ifs at h with hstop
    · obtain ⟨-, rfl⟩ := Prod.mk.inj h
      exact Obtains.refl hk
    cases hload : k.caches.getOrLoadWithStatus fail ext c (pos / pageSize) lower readAhead
        markAccessed with
    | mk res caches₁ =>
      rw [hload] at h
      rcases Caches.getOrLoadWithStatus_spec hk.caches.supply_injective hload with
        ⟨e, rfl, rfl⟩ | ⟨fill, n, bytes, rfl, hl, -, -⟩
      · obtain ⟨-, rfl⟩ := Prod.mk.inj h
        exact Obtains.refl hk
      · have hfirst : k.Obtains ext { k with caches := caches₁ } := Obtains.of_loads hk hc hl
        refine hfirst.trans (ih hfirst.1 ?_ h)
        rw [hl.registry]
        exact hc

theorem readFileAt_spec (hk : k.WellFormed) {offset len : Nat}
    (h : k.readFileAt io ext f offset len = (r, k')) :
    k.Obtains ext k' ∧ k'.sharedFilePages = k.sharedFilePages := by
  revert h
  fun_cases readFileAt k io ext f offset len with
  | case2 hfail file c hobj r caches hread =>
    rintro ⟨⟩
    exact ⟨obtains_readLoop hk (hk.fileCache f c hobj) hread, rfl⟩
  | case1 | case3 | case4 =>
    rintro ⟨⟩
    exact ⟨Obtains.refl hk, rfl⟩

theorem readRequired_spec (hk : k.WellFormed) {required : Bool} {offset len : Nat}
    (h : (if required then k.readFileAt io ext f offset len else (ok [], k)) = (r, k')) :
    k.Obtains ext k' ∧ k'.sharedFilePages = k.sharedFilePages := by
  split_ifs at h
  · exact readFileAt_spec hk h
  · cases h
    exact ⟨Obtains.refl hk, rfl⟩

theorem registered {pages : SharedFilePageKey → Option Nat} {key' : SharedFilePageKey} {p q : Nat}
    (hq : update pages key (some p) key' = some q) :
    (key' = key ∧ q = p) ∨ pages key' = some q := by
  by_cases hkk : key' = key
  · subst hkk
    rw [update_self] at hq
    exact .inl ⟨rfl, (Option.some.inj hq).symm⟩
  · exact .inr (update_of_ne hkk (some p) pages ▸ hq)

theorem WellFormed.share (hk : k.WellFormed) (hp : k.Loose p) (hkey : k.sharedFilePages key = none) :
    ({ k with sharedFilePages := update k.sharedFilePages key (some p) } : Kernel).WellFormed := by
  refine ⟨hk.caches, hk.fileCache, ?_, ?_, ?_⟩
  · intro i key' hq
    rcases registered hq with ⟨-, hsupply⟩ | hold
    · exact hp.not_supply i hsupply.symm
    · exact hk.supply_not_shared i key' hold
  · intro key₁ key₂ q h₁ h₂
    rcases registered h₁ with ⟨rfl, rfl⟩ | hold₁ <;> rcases registered h₂ with ⟨rfl, hq⟩ | hold₂
    · rfl
    · exact absurd hold₂ (hp.not_shared key₂)
    · exact absurd (hq ▸ hold₁) (hp.not_shared key₁)
    · exact hk.shared_injective key₁ key₂ q hold₁ hold₂
  · intro key' q hq
    rcases registered hq with ⟨-, rfl⟩ | hold
    · exact hp.not_cached
    · exact hk.shared_not_cached key' q hold

theorem Evolves.share {i : Nat} (h : k.Evolves ext n k') (hi : i < n)
    (hkey : k.sharedFilePages key = none) : k.Evolves ext n
      { k' with sharedFilePages := update k'.sharedFilePages key (some (k.phys.supply i)) } := by
  refine { h with sharedFrom := ?_, sharedKept := ?_ }
  · intro key' q hq
    rcases registered hq with ⟨-, rfl⟩ | hold
    · exact .inr ⟨i, hi, rfl⟩
    · exact h.sharedFrom key' q hold
  · intro key' q hq
    have hkk : key' ≠ key := by
      rintro rfl
      simp [hkey] at hq
    simp only [update_of_ne hkk]
    exact h.sharedKept key' q hq

/-- The fallback of `sharedFileFrame` for a file without page cache: the frame returned is the one
registered under the key of the page. -/
theorem fallbackFrame_spec (hk : k.WellFormed) {b : FileBacking} {pageOffset fileOffset : Nat}
    {r : Except Errno (Nat × Bool)} (h : k.fallbackFrame io ext b pageOffset fileOffset = (r, k')) :
    k.Obtains ext k' ∧ ∀ p fill, r = .ok (p, fill) →
      k'.sharedFilePages (k'.pageKey b.file (fileOffset / pageSize)) = some p := by
  have hkeyeq {stat : FileStat} (hstat : k.getStat io b.file = .ok stat) :
      (⟨stat.dev, stat.ino, fileOffset / pageSize⟩ : SharedFilePageKey) =
        k.pageKey b.file (fileOffset / pageSize) := by
    unfold pageKey
    rw [← getStat_identity hstat]
  revert h
  fun_cases fallbackFrame k io ext b pageOffset fileOffset with rintro ⟨⟩
  | case1 e hstat =>
    exact ⟨Obtains.refl hk, by simp⟩
  | case2 stat hstat key p hshared =>
    refine ⟨Obtains.refl hk, fun q fill hq ↦ ?_⟩
    cases hq
    rw [← hkeyeq hstat, hshared]
  | case3 stat hstat key hshared phys halloc =>
    exact ⟨obtains_setPhys hk ⟨0, Phys.frameAlloc_none halloc⟩, by simp⟩
  | case4 stat hstat key hshared p phys halloc k₁ readLen requiredIo e k₂ hread =>
    obtain ⟨rfl, hk₁, hev₁, -⟩ := obtains_frameAlloc_some ext hk halloc
    obtain ⟨⟨hk₂, m, hev₂⟩, -⟩ := readRequired_spec hk₁ hread
    exact ⟨⟨hk₂, _, hev₁.trans hev₂⟩, by simp⟩
  | case5 stat hstat key hshared p phys halloc k₁ readLen requiredIo bytes k₂ hread k₃ =>
    obtain ⟨rfl, hk₁, hev₁, hloose₁⟩ := obtains_frameAlloc_some ext hk halloc
    obtain ⟨⟨hk₂, m, hev₂⟩, hpages⟩ := readRequired_spec hk₁ hread
    have hev := hev₁.trans hev₂
    have hloose₃ : k₃.Loose (k.phys.supply 0) :=
      ⟨(hev₂.loose hloose₁).1, (hev₂.loose hloose₁).2, (hev₂.loose hloose₁).3⟩
    have hfree : k₃.sharedFilePages key = none := (congrFun hpages key).trans hshared
    refine ⟨⟨(hk₂.store _ _).share hloose₃ hfree, 1 + m,
      (hev.store (by omega) _).share (by omega) hshared⟩, fun q fill hq ↦ ?_⟩
    cases hq
    have hsame : k₂.pageKey b.file (fileOffset / pageSize) = key := by
      refine Eq.trans ?_ (hkeyeq hstat).symm
      unfold pageKey
      rw [hev.identity b.file]
    show update k₃.sharedFilePages key (some (k.phys.supply 0))
      (k₂.pageKey b.file (fileOffset / pageSize)) = _
    rw [hsame]
    exact update_self _ _ _

theorem sharedFileFrame_spec (hk : k.WellFormed) {b : FileBacking} {pageOffset : Nat}
    {r : Except Errno (Nat × Bool)} (h : k.sharedFileFrame io ext b pageOffset = (r, k')) :
    k.Obtains ext k' ∧ ∀ p fill, r = .ok (p, fill) →
      b.offset + pageOffset < usizeSize ∧
        k'.Backs b.file ((b.offset + pageOffset) / pageSize) p := by
  revert h
  fun_cases sharedFileFrame k io ext b pageOffset with
  | case1 hoff =>
    rintro ⟨⟩
    exact ⟨Obtains.refl hk, by simp⟩
  | case2 fileOffset hoff file c hobj res caches hframe =>
    rintro ⟨⟩
    obtain ⟨hlt, rfl⟩ := checkedAdd_eq_some.mp hoff
    unfold Caches.sharedFrameAt at hframe
    rcases hload : k.caches.getOrLoadWithStatus io.pageFail ext c ((b.offset + pageOffset) / pageSize)
      file.writeBack file.readAheadPages (!file.noReuse) with ⟨res, caches⟩
    rw [hload] at hframe
    rcases Caches.getOrLoadWithStatus_spec hk.caches.supply_injective hload with
      ⟨e, rfl, rfl⟩ | ⟨fill, n, bytes, rfl, hl, hpresent, -⟩
    · cases hframe
      exact ⟨Obtains.refl hk, by simp⟩
    obtain ⟨q, hq⟩ := Option.isSome_iff_exists.mp hpresent
    simp only [hq] at hframe
    cases hframe
    refine ⟨Obtains.of_loads hk (hk.fileCache b.file c hobj) hl, fun p fill' hr ↦ ⟨hlt, ?_⟩⟩
    simp only [ok.injEq, Prod.mk.injEq] at hr
    unfold Backs
    rw [show (k.files b.file).object = .regular c from hobj]
    exact ⟨q, hq, hr.1⟩
  | case3 fileOffset hoff file hobj =>
    intro h
    obtain ⟨hlt, rfl⟩ := checkedAdd_eq_some.mp hoff
    obtain ⟨hobt, hkey⟩ := fallbackFrame_spec hk h
    refine ⟨hobt, fun p fill hr ↦ ⟨hlt, ?_⟩⟩
    obtain ⟨-, n, hev⟩ := hobt
    unfold Backs
    rw [hev.files]
    cases hcase : (k.files b.file).object with
    | regular c => exact (hobj c hcase).elim
    | devShm id | memfd id => exact hkey p fill hr

end Obtains

/-- Nothing is cached or shared yet: the caches in `registry` belong to files with the contents
`lower`, and the allocator hands out the frames from `firstFrame` on. -/
def boot (registry : List Nat) (lower : Nat → ByteFile) (files : Nat → OpenFile)
    (memfds : Nat → Memfd) (shmFiles : Nat → ByteFile) (firstFrame : Nat) : Kernel where
  caches :=
    { phys := ⟨fun _ _ ↦ 0, fun i ↦ firstFrame + i, []⟩
      registry := registry
      cache := fun c ↦ PageCache.new (lower c)
      lru := []
      nextGeneration := 0
      pageCount := 0
      dirtyPageCount := 0
      nextWritebackId := 0 }
  files := files
  memfds := memfds
  shmFiles := shmFiles
  sharedFilePages := fun _ ↦ none

theorem wellFormed_boot {registry : List Nat} {lower : Nat → ByteFile} {files : Nat → OpenFile}
    {memfds : Nat → Memfd} {shmFiles : Nat → ByteFile} {firstFrame : Nat}
    (hfiles : ∀ f c, (files f).object = .regular c → c ∈ registry) :
    (boot registry lower files memfds shmFiles firstFrame).WellFormed := by
  have hnone : ∀ (c i : Nat),
      ((boot registry lower files memfds shmFiles firstFrame).caches.cache c).pages[i]? = none :=
    fun c i ↦ by simp [boot, PageCache.new]
  have huncached : ∀ p,
      ¬ (boot registry lower files memfds shmFiles firstFrame).caches.Cached p := by
    rintro p ⟨c, i, q, hq, -⟩
    simp [hnone] at hq
  refine ⟨⟨fun i j hij ↦ Nat.add_left_cancel hij, fun i ↦ huncached _, ?_, ?_⟩, hfiles, ?_, ?_, ?_⟩
  · intro c i q c' i' q' hq
    simp [hnone] at hq
  · intro c i q hq
    simp [hnone] at hq
  · intro i key
    simp [boot]
  · intro key key' p hp
    simp [boot] at hp
  · intro key p _
    exact huncached p

end Kernel

end RespOS.Fs
