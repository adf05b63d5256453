import RespOS.Mm.MachineStep

/-!
# Copy-on-write isolation

A user program stores through its page table without asking the kernel, so a private page may have a
writable entry only while nobody else uses its frame. Private pages come to share a frame by `fork`,
which marks the pages of writable areas copy-on-write on both sides, and by faults on private file
mappings, which map the frame of the page cache read-only. A page of an area that is read-only at the
time of the fork is shared without a mark; when `mprotect` makes the area writable later, it copies the
pages of file mappings and gives the others a writable entry, whoever else records their frame.

In the runs in which `mprotect` never adds WRITE to such a page while another address space records its
frame (`KeepsPrivate`), every writable page of a private area is exclusive (`isolation_of_run`).
`shared_writable_frame` is the run that breaks it.

The invariant `Isolated` has two parts that carry each other: an unmarked page of a writable private
area is exclusive, and all records of the frame of a private anonymous page are at the same page number,
so that the count of owners decides at a copy-on-write fault.
-/

namespace RespOS.Mm

open RespOS.Basis RespOS.Fs MemorySet PageTableEntry Option

/-- All actions but `mremap`, which moves pages, and those on System V segments. -/
def Action.InPlace : Action → Prop
  | .op (.mremap ..) | .op (.mmap _ (.segment ..)) | .shmget _ => False
  | _ => True

/-- The step does not make a page writable by `mprotect` that another address space shares without a
copy-on-write mark. -/
def KeepsPrivate (m : Machine) (l : Label) : Prop :=
  match l.action with
  | .op (.mprotect r perm) => perm.write = true → ∀ a v p, m.Records l.sid a v p → r.start ≤ v →
      v < r.stop → a.shared = false → a.fileBacking = none → a.mapPerm.write = false →
      (m.pte l.sid v).isCow = false → ∀ j b w, m.Records j b w p → j = l.sid
  | _ => True

namespace Machine

variable {m m' : Machine} {l : Label} {i j : Nat} {a b : MapArea} {v w p : Nat}

/-- The page is the only one that uses its frame. -/
def Exclusive (m : Machine) (i v p : Nat) : Prop :=
  m.k.Loose p ∧ ∀ j b w, m.Records j b w p → j = i ∧ w = v

structure Isolated (m : Machine) : Prop where
  exclusive : ∀ i a v p, m.Records i a v p → a.shared = false → a.mapPerm.write = true →
    (m.pte i v).isCow = false → m.Exclusive i v p
  anonymous : ∀ i a v p, m.Records i a v p → a.shared = false → a.fileBacking = none →
    m.k.Loose p ∧ ∀ j b w, m.Records j b w p → w = v
  unmarked : ∀ i a v p, m.Records i a v p → (m.pte i v).writable = true → (m.pte i v).isCow = false
  recorded : ∀ i v, (m.pte i v).storable = true → ∃ a p, m.Records i a v p

section Exclusive

variable (h : m.Advance l m') (hinv : m.Inv)

include h hinv

theorem frame_of_inPlace (hon : l.action.InPlace) (hrec : m'.Records i a v p) :
    (∃ i₀ a₀, m.Records i₀ a₀ v p ∧ a.SameBacking a₀ ∧
        (i = i₀ ∨ (l.action = .fork ∧ i₀ = l.sid ∧ i = m.spaces.length))) ∨
      (m'.k.Loose p ∧ ∃ n, p = m.k.phys.supply n) ∨
      ((∃ f idx, m'.k.Backs f idx p) ∧ a.fileBacking ≠ none) := by
  cases (h.origin hinv hrec).frame with
  | old hold hsame hspace hpage =>
    rcases hpage with rfl | ⟨_, _, _, _, _, haction⟩
    · exact .inl ⟨_, _, hold, hsame, hspace⟩
    · simp [haction, Action.InPlace] at hon
  | fresh _ hloose hsupply => exact .inr (.inl ⟨hloose, hsupply⟩)
  | backed hbacks hfile => exact .inr (.inr ⟨⟨_, _, hbacks⟩, hfile⟩)
  | segment haction => simp [haction, Action.InPlace] at hon

theorem exclusive_of_fresh (hloose : m'.k.Loose p) (hsupply : ∃ n, p = m.k.phys.supply n)
    (hrec : m'.Records i a v p) : m'.Exclusive i v p := by
  refine ⟨hloose, fun j b w hrec' ↦ ?_⟩
  obtain ⟨hij, hvw⟩ := h.fresh_unique hinv hloose hsupply hrec hrec'
  exact ⟨hij.symm, hvw.symm⟩

theorem Exclusive.advance (hon : l.action.InPlace) (hexcl : m.Exclusive i v p)
    (hrec : m.Records i a v p)
    (hchild : ∀ b, l.action = .fork → i = l.sid → ¬ m'.Records m.spaces.length b v p) :
    m'.Exclusive i v p := by
  have hloose := h.loose hexcl.1
  refine ⟨hloose, fun j b w hrec' ↦ ?_⟩
  rcases frame_of_inPlace h hinv hon hrec' with
    ⟨i₀, a₀, hold, -, hspace⟩ | ⟨-, n, hn⟩ | ⟨⟨_, _, hbacks⟩, -⟩
  · obtain ⟨rfl, rfl⟩ := hexcl.2 i₀ a₀ w hold
    rcases hspace with hj | ⟨haction, hsid, rfl⟩
    · exact ⟨hj, rfl⟩
    · exact absurd hrec' (hchild b haction hsid)
  · exact absurd hn (hinv.not_supply hrec n)
  · exact absurd hloose hbacks.not_loose

theorem not_inherited (hrec : m.Records l.sid a v p) (hshared : a.shared = false)
    (hwrite : a.mapPerm.write = true) (hpte : (m'.pte l.sid v).isCow = false)
    (haction : l.action = .fork) {q : Nat} : ¬ m'.Records m.spaces.length b v q := by
  intro hchild
  have hlt : l.sid < m.spaces.length := by
    obtain ⟨ms, hms, -⟩ := hrec
    exact (List.getElem?_eq_some_iff.mp hms).1
  cases h.origin hinv hchild with
  | same hold =>
    obtain ⟨ms, hms, -⟩ := hold
    simp at hms
  | changed hop => simp [haction] at hop
  | marked _ hi => omega
  | inherited _ _ _ hold _ _ _ hparent =>
    obtain rfl := hinv.area_unique hrec hold
    have hcow : forksCow a = true := by simp [forksCow, hshared, hwrite]
    rw [hparent, parentEntry, if_pos hcow] at hpte
    exact absurd hpte (by simp [isCow, cowFlags])

end Exclusive

/-! ### One step -/

theorem isCow_protectFlags (ppn : Nat) (perm : MapPermission) (e : PageTableEntry) :
    (⟨ppn, MapArea.protectFlags perm e⟩ : PageTableEntry).isCow = e.isCow := by
  unfold MapArea.protectFlags
  split_ifs with hcow
  · exact hcow.symm
  · exact (Bool.not_eq_true _ ▸ hcow).symm

section Step

variable (h : m.Advance l m') (hinv : m.Inv) (hon : l.action.InPlace)

include h hinv hon in
theorem anonymous_of_advance
    (hold : ∀ i a v p, m.Records i a v p → a.shared = false → a.fileBacking = none →
      m.k.Loose p ∧ ∀ j b w, m.Records j b w p → w = v)
    (hrec : m'.Records i a v p) (hshared : a.shared = false) (hanon : a.fileBacking = none) :
    m'.k.Loose p ∧ ∀ j b w, m'.Records j b w p → w = v := by
  rcases frame_of_inPlace h hinv hon hrec with
    ⟨i₀, a₀, hrec₀, hsame, -⟩ | ⟨hloose, hsupply⟩ | ⟨-, hfile⟩
  · have hanon₀ : a₀.fileBacking = none := by
      have hfile := hsame.file
      rw [hanon] at hfile
      exact map_eq_none_iff.mp hfile.symm
    obtain ⟨hloose₀, hpages⟩ := hold i₀ a₀ v p hrec₀ (hsame.shared.symm.trans hshared) hanon₀
    have hloose := h.loose hloose₀
    refine ⟨hloose, fun j b w hrec' ↦ ?_⟩
    rcases frame_of_inPlace h hinv hon hrec' with
      ⟨j₀, b₀, hrec₁, -⟩ | ⟨-, n, hn⟩ | ⟨⟨_, _, hbacks⟩, -⟩
    · exact hpages j₀ b₀ w hrec₁
    · exact absurd hn (hinv.not_supply hrec₀ n)
    · exact absurd hloose hbacks.not_loose
  · obtain ⟨-, hunique⟩ := exclusive_of_fresh h hinv hloose hsupply hrec
    exact ⟨hloose, fun j b w hrec' ↦ (hunique j b w hrec').2⟩
  · exact absurd hanon hfile

include h hinv in
theorem unmarked_of_advance
    (hold : ∀ i a v p, m.Records i a v p → (m.pte i v).writable = true → (m.pte i v).isCow = false)
    (hrec : m'.Records i a v p) (hwritable : (m'.pte i v).writable = true) :
    (m'.pte i v).isCow = false := by
  cases h.origin hinv hrec with
  | same hrec₀ hpte =>
    rw [hpte] at hwritable ⊢
    exact hold i a v p hrec₀ hwritable
  | @changed op ms s haction hi hms heffect hk hspaces hsegment hmem hrec' horigin =>
    have hspace : ∀ b ∈ ms.areas, ∀ q : Nat, b.dataFrames[v]? = some q →
        (ms.pageTable.entry v).writable = true → (ms.pageTable.entry v).isCow = false := by
      intro b hb q hq
      rw [← pte_eq hms]
      exact hold l.sid b v q ⟨ms, hms, hb, hq⟩
    rw [hi, pte_of_set hms hspaces] at hwritable ⊢
    cases horigin with
    | kept ha _ hframe _ hentry =>
      rw [hentry] at hwritable ⊢
      exact hspace _ ha p hframe hwritable
    | protect _ ha _ hframe _ _ _ hentry =>
      rw [hentry] at hwritable ⊢
      split_ifs at hwritable ⊢
      · rw [isCow_protectFlags]
        exact (write_of_writable_protectFlags hwritable).2.1
      · exact hspace _ ha p hframe hwritable
    | copied _ _ _ _ _ _ _ _ _ _ _ _ hentry =>
      rw [hentry]
      split_ifs <;> rfl
    | filled _ _ _ _ _ _ _ hentry =>
      rw [hentry] at hwritable ⊢
      rw [pageFlags_of_writable hwritable]
      rfl
    | resolved _ _ _ _ _ _ _ _ _ hentry | replaced _ _ _ _ _ _ _ _ _ hentry
    | opened _ _ _ _ _ _ _ hentry | moved _ _ _ _ _ hentry | anonymous _ _ _ hentry
    | segment _ _ _ hentry | file _ _ _ _ hentry =>
      rw [hentry]
      rfl
  | marked _ _ _ hcow hpte =>
    rw [hpte, parentEntry, if_pos hcow, not_writable_cowFlags] at hwritable
    simp at hwritable
  | inherited _ _ _ hrec₀ _ _ hchild _ =>
    rw [hchild, childEntry] at hwritable ⊢
    split_ifs at hwritable ⊢
    · rw [not_writable_cowFlags] at hwritable
      simp at hwritable
    · exact hold l.sid _ v p hrec₀ hwritable

include h hon in
theorem recorded_of_advance (hold : ∀ i v, (m.pte i v).storable = true → ∃ a p, m.Records i a v p)
    (hstorable : (m'.pte i v).storable = true) : ∃ a p, m'.Records i a v p := by
  -- the parent of a fork keeps its records, and marked entries are not writable
  have hparentCase : ∀ {ms : MemorySet} {s : MmState}, m.spaces[l.sid]? = some ms →
      MemorySet.ParentAfter ⟨ms, m.k⟩ s → ∀ v, (s.ms.pageTable.entry v).storable = true →
      ∃ a ∈ s.ms.areas, ∃ p, a.dataFrames[v]? = some p := by
    intro ms s hms hparent v hst
    rcases hparent.entries v with heq | ⟨b, -, q, -, hcow, -, heq⟩
    · rw [heq, ← pte_eq hms] at hst
      obtain ⟨a, p, ms', hms', ha, hp⟩ := hold l.sid v hst
      obtain rfl := some.inj (hms.symm.trans hms')
      exact ⟨a, hparent.areas ▸ ha, p, hp⟩
    · rw [heq, parentEntry, if_pos hcow, storable,
        not_writable_cowFlags] at hst
      simp at hst
  -- where one address space is replaced, the others keep their records
  have hset {ms₁ ms₂ : MemorySet} {k : Kernel} (hms : m.spaces[l.sid]? = some ms₁)
      (hself : ∀ v, (ms₂.pageTable.entry v).storable = true →
        ∃ a ∈ ms₂.areas, ∃ p, a.dataFrames[v]? = some p)
      (hst : (pte ⟨k, m.spaces.set l.sid ms₂, m.segments⟩ i v).storable = true) :
      ∃ a p, Records ⟨k, m.spaces.set l.sid ms₂, m.segments⟩ i a v p := by
    by_cases hi : i = l.sid
    · subst hi
      rw [pte_set_self hms] at hst
      obtain ⟨a, ha, p, hp⟩ := hself v hst
      exact ⟨a, p, ms₂, List.getElem?_set_self (List.getElem?_eq_some_iff.mp hms).1, ha, hp⟩
    · rw [pte_set_of_ne hi] at hst
      obtain ⟨a, p, ms, hms, hrec⟩ := hold i v hst
      exact ⟨a, p, ms, (List.getElem?_set_ne (Ne.symm hi)).trans hms, hrec⟩
  cases h with subst hm'
  | @op op ms s haction hms hrun heffect hsound hsegment hm' =>
    refine hset hms (fun v hst ↦ ?_) hstorable
    have hnot : ∀ oldAddr oldLen newLen maymove fixedAddr,
        op ≠ .mremap oldAddr oldLen newLen maymove fixedAddr := by
      rintro oldAddr oldLen newLen maymove fixedAddr rfl
      simp [haction, Action.InPlace] at hon
    rcases heffect.storable hnot v hst with hrecorded | ⟨hst, hnone⟩
    · exact hrecorded
    · obtain ⟨a, p, ms', hms', ha, hp⟩ := hold l.sid v (by rw [pte_eq hms]; exact hst)
      obtain rfl := some.inj (hms.symm.trans hms')
      exact absurd ⟨a, ha, p, hp⟩ hnone
  | forkFailed haction hms hparent hm' =>
    exact hset hms (hparentCase hms hparent) hstorable
  | @forked ms child s haction hms hparent hchild hm' =>
    rcases Nat.lt_trichotomy i (m.spaces.set l.sid s.ms).length with hlt | rfl | hgt
    · rw [pte_append_of_lt hlt] at hstorable
      obtain ⟨a, p, hrec⟩ := hset hms (hparentCase hms hparent) hstorable
      exact ⟨a, p, hrec.append child⟩
    · rw [pte_append_length] at hstorable
      by_contra hnone
      have hblank := hchild.blank v (by
        rintro ⟨a, ha, p, hp⟩
        exact hnone ⟨a, p, child, List.getElem?_concat_length, ha, hp⟩)
      rw [hblank] at hstorable
      simp [storable, isValid] at hstorable
    · rw [pte, List.getElem?_eq_none (by simp at hgt ⊢; omega)] at hstorable
      simp [storable, isValid] at hstorable
  | store _ _ _ _ hm' | segment _ _ _ hm' =>
    exact hold i v hstorable

include h hinv hon in
theorem exclusive_of_advance (hiso : m.Isolated) (hok : KeepsPrivate m l) (hrec : m'.Records i a v p)
    (hshared : a.shared = false) (hwrite : a.mapPerm.write = true)
    (hpte : (m'.pte i v).isCow = false) : m'.Exclusive i v p := by
  cases h.origin hinv hrec with
  | same hold heq =>
    have hexcl := hiso.exclusive i a v p hold hshared hwrite (heq ▸ hpte)
    refine hexcl.advance h hinv hon hold fun b haction hi ↦ ?_
    subst hi
    exact not_inherited h hinv hold hshared hwrite hpte haction
  | marked _ _ _ hcow heq =>
    rw [heq, parentEntry, if_pos hcow] at hpte
    cases hpte
  | @inherited a₀ _ _ _ _ ha' _ hchild _ =>
    have hcow : forksCow a₀ = true := by
      have hperm : a.mapPerm = a₀.mapPerm := by
        rw [ha']
        rfl
      have hshared₀ : a.shared = a₀.shared := by
        rw [ha']
        rfl
      simp [forksCow, ← hshared₀, ← hperm, hshared, hwrite]
    rw [hchild, childEntry, if_pos hcow] at hpte
    cases hpte
  | @changed op ms s haction hi hms heffect hk hspaces hsegment hmem hrec' horigin =>
    rw [hi] at hpte hrec ⊢
    rw [pte_of_set hms hspaces] at hpte
    have hnofork : ∀ b, l.action = .fork → l.sid = l.sid →
        ¬ m'.Records m.spaces.length b v p := by
      intro b hfork
      simp [haction] at hfork
    -- a page that was exclusive stays so, a new frame is exclusive
    have hstays : ∀ b, m.Records l.sid b v p → m.Exclusive l.sid v p → m'.Exclusive l.sid v p :=
      fun b hold hexcl ↦ hexcl.advance h hinv hon hold hnofork
    have hnew : Fresh ⟨ms, m.k⟩ s p → m'.Exclusive l.sid v p := fun hfresh ↦
      exclusive_of_fresh h hinv (hk ▸ hfresh.1) hfresh.2 hrec
    cases horigin with
    | @kept a₀ ha hof hframe hperm hentry =>
      have hold : m.Records l.sid a₀ v p := ⟨ms, hms, ha, hframe⟩
      refine hstays a₀ hold (hiso.exclusive l.sid a₀ v p hold ?_ ?_ ?_)
      · exact hof.same.shared.symm.trans hshared
      · exact hperm ▸ hwrite
      · rw [pte_eq hms, ← hpte, hentry]
    | @protect a₀ r perm hop ha hof hframe hv hperm hfile hentry =>
      subst hop
      have hold : m.Records l.sid a₀ v p := ⟨ms, hms, ha, hframe⟩
      have hshared₀ : a₀.shared = false := hof.same.shared.symm.trans hshared
      have hcow₀ : (m.pte l.sid v).isCow = false := by
        rw [pte_eq hms]
        rw [hentry] at hpte
        split_ifs at hpte
        · rw [isCow_protectFlags] at hpte
          exact hpte
        · exact hpte
      cases hwrite₀ : a₀.mapPerm.write with
      | true => exact hstays a₀ hold (hiso.exclusive l.sid a₀ v p hold hshared₀ hwrite₀ hcow₀)
      | false =>
        -- the page becomes writable: its area is anonymous, and nobody else records its frame
        have hpermwrite : perm.write = true := by
          rw [hperm] at hwrite
          exact hwrite
        have hanon : a₀.fileBacking = none := by
          by_contra hsome
          rcases hfile hshared₀ hsome with hw | hw
          · simp [hwrite₀] at hw
          · simp [hpermwrite] at hw
        obtain ⟨hloose, hpages⟩ := hiso.anonymous l.sid a₀ v p hold hshared₀ hanon
        simp only [KeepsPrivate, haction] at hok
        exact hstays a₀ hold ⟨hloose, fun j b w hrec' ↦
          ⟨hok hpermwrite a₀ v p hold hv.1 hv.2 hshared₀ hanon hwrite₀ hcow₀ j b w hrec',
            hpages j b w hrec'⟩⟩
    | copied _ _ _ _ _ _ _ _ _ _ hfresh => exact hnew hfresh
    | @resolved a₀ _ _ _ _ ha hof hframe _ hshared₀ hanon _ hcount _ =>
      -- the count says that no other address space records the frame
      have hold : m.Records l.sid a₀ v p := ⟨ms, hms, ha, hframe⟩
      obtain ⟨hloose, hpages⟩ := hiso.anonymous l.sid a₀ v p hold hshared₀ hanon
      refine hstays a₀ hold ⟨hloose, fun j b w hrec' ↦ ⟨?_, hpages j b w hrec'⟩⟩
      by_contra hne
      have hothers := others_ne_zero hrec' hne
      have hself : 0 < ms.count p := count_pos ha hframe
      simp only [strongCount] at hcount
      omega
    | replaced _ _ _ _ _ _ _ hfresh => exact hnew hfresh
    | opened _ _ hof _ _ hshared₀ =>
      rw [hof.same.shared, hshared₀] at hshared
      simp at hshared
    | filled _ _ _ _ _ hframe _ hentry =>
      cases huses : a.usesFile ((v - a.start) * pageSize) with
      | true =>
        rw [hentry, huses, hshared, hwrite] at hpte
        exact absurd hpte (by simp [MapArea.pageFlags, isCow])
      | false => exact hnew (hframe.own huses)
    | moved hop => simp [hop ▸ haction, Action.InPlace] at hon
    | segment hop => simp [hop ▸ haction, Action.InPlace] at hon
    | anonymous _ hby | file _ hby =>
      have := hby.source.1
      simp [hshared] at this

end Step

/-! ### Whole runs -/

theorem Isolated.settle (h : m.Isolated) (hinv : (m.settle l).Inv) : (m.settle l).Isolated where
  exclusive i a v p hrec hshared hwrite hpte := by
    obtain ⟨hloose, hunique⟩ := h.exclusive i a v p hrec hshared hwrite hpte
    exact ⟨loose_settle hinv hrec hloose, hunique⟩
  anonymous i a v p hrec hshared hanon := by
    obtain ⟨hloose, hpages⟩ := h.anonymous i a v p hrec hshared hanon
    exact ⟨loose_settle hinv hrec hloose, hpages⟩
  unmarked := h.unmarked
  recorded := h.recorded

theorem Init.isolated (h : m.Init) : m.Isolated := by
  refine ⟨fun i a v p hrec ↦ absurd hrec h.not_records, fun i a v p hrec ↦ absurd hrec h.not_records,
    fun i a v p hrec ↦ absurd hrec h.not_records, fun i v hst ↦ ?_⟩
  have hblank : m.pte i v = {} := by
    unfold pte
    split
    · rename_i ms hms
      exact (h.spaces ms (List.mem_of_getElem? hms)).2 v
    · rfl
  rw [hblank] at hst
  simp [storable, isValid] at hst

theorem isolated_of_run
    (hrun : Run Init (fun m l ↦ l.action.InPlace ∧ KeepsPrivate m l) Step m) : m.Isolated := by
  refine invariant_of_advance (fun _ hm ↦ hm.isolated) (fun _ _ _ hinv hm ↦ hm.settle hinv) ?_ hrun
  intro m l m' hinv ⟨hon, hok⟩ hiso h
  exact ⟨fun _ _ _ _ ↦ exclusive_of_advance h hinv hon hiso hok,
    fun _ _ _ _ ↦ anonymous_of_advance h hinv hon hiso.anonymous,
    fun _ _ _ _ ↦ unmarked_of_advance h hinv hiso.unmarked,
    fun _ _ ↦ recorded_of_advance h hon hiso.recorded⟩

/-- In every run without `mremap` and segments in which `mprotect` makes no page writable that another
address space shares unmarked: a page of a private area with a writable entry maps a frame that no other
address space records and that belongs neither to a page cache nor to `SHARED_FILE_PAGES`, and a store
through it leaves all those frames as they were. -/
theorem isolation_of_run
    (hrun : Run Init (fun m l ↦ l.action.InPlace ∧ KeepsPrivate m l) Step m) :
    (∀ i ms a v, m.spaces[i]? = some ms → a ∈ ms.areas → a.shared = false →
      a.vpnRange.contain v = true → (ms.pageTable.entry v).storable = true →
        (∀ j b w, j ≠ i → ¬ m.Records j b w (ms.pageTable.entry v).ppn) ∧
        ¬ m.k.caches.Cached (ms.pageTable.entry v).ppn ∧
        ∀ key, m.k.sharedFilePages key ≠ some (ms.pageTable.entry v).ppn) ∧
    ∀ l m' ms a v offset byte, m.Step l m' → l.action = .store v offset byte →
      m.spaces[l.sid]? = some ms → a ∈ ms.areas → a.shared = false →
      a.vpnRange.contain v = true →
        (∀ j b w p, j ≠ l.sid → m.Records j b w p → m'.k.phys.mem p = m.k.phys.mem p) ∧
        (∀ p, m.k.caches.Cached p → m'.k.phys.mem p = m.k.phys.mem p) ∧
        ∀ key p, m.k.sharedFilePages key = some p → m'.k.phys.mem p = m.k.phys.mem p := by
  have hinv := inv_of_reachable hrun
  have hiso := isolated_of_run hrun
  -- the second part follows from the first
  refine (fun hmain ↦ ⟨hmain, fun l m' ms a v offset byte hstep haction hms ha hshared hcontain ↦ ?_⟩) ?_
  · intro i ms a v hms ha hshared hcontain hst
    have hsound := hinv.sound ms (List.mem_of_getElem? hms)
    obtain ⟨b, p, hrec⟩ := hiso.recorded i v (by rw [pte_eq hms]; exact hst)
    obtain ⟨ms', hms', hb, hp⟩ := id hrec
    obtain rfl := some.inj (hms.symm.trans hms')
    -- the area that records the page is the one that contains it
    obtain rfl : a = b := (geometry_iff.mp hsound.geometry).2.eq_of_mem ha hb
      (VPNRange.contain_eq_true.mp hcontain) ((hsound.geometry.wellFormed hb).keys v p hp)
    have hwritable : (ms.pageTable.entry v).writable = true := by
      simp only [storable, Bool.and_eq_true] at hst
      exact hst.2
    have hcow := hiso.unmarked i a v p hrec (by rw [pte_eq hms]; exact hwritable)
    obtain ⟨hloose, hunique⟩ := hiso.exclusive i a v p hrec hshared
      (hsound.writable a ha v p hp hwritable).1 hcow
    rw [(hsound.valid a ha v p hp).2]
    exact ⟨fun j b w hne hrec' ↦ hne (hunique j b w hrec').1, hloose.not_cached, hloose.not_shared⟩
  obtain ⟨-, hadv⟩ := Step.advance hinv hstep
  cases hadv with
  | op hop | forkFailed hop | forked hop | segment hop => simp [haction] at hop
  | @store ms' vpn offset' byte' phys haction' hms' hst hphys hm' =>
    obtain ⟨rfl, rfl, rfl⟩ := Action.store.inj (haction.symm.trans haction')
    obtain rfl := some.inj (hms.symm.trans hms')
    obtain ⟨hother, hcached, hweak⟩ := hmain l.sid ms a v hms ha hshared hcontain hst
    have hmem : ∀ p, p ≠ (ms.pageTable.entry v).ppn → m'.k.phys.mem p = m.k.phys.mem p := by
      intro p hne
      rw [hm', hphys]
      exact Function.update_of_ne hne _ _
    refine ⟨fun j b w p hne hrec ↦ hmem p ?_, fun p hp ↦ hmem p ?_, fun key p hp ↦ hmem p ?_⟩
    · rintro rfl
      exact hother j b w hne hrec
    · rintro rfl
      exact hcached hp
    · rintro rfl
      exact hweak key hp

def forkSpace : Label := { sid := 0, action := .fork }

/-- The page is written, made read-only, shared with a child and made writable again: parent and child
then use one frame, through a writable entry of the parent, and a store of the parent changes what the
child sees. -/
theorem shared_writable_frame : ∃ m, Run Init (fun _ l ↦ l.action.InPlace) Step m ∧
      (∃ ms, m.spaces[0]? = some ms ∧
        (∃ a ∈ ms.areas, a.shared = false ∧ a.vpnRange.contain 0x2000000 = true) ∧
        (ms.pageTable.entry 0x2000000).storable = true ∧
        (ms.pageTable.entry 0x2000000).isCow = false ∧ (ms.pageTable.entry 0x2000000).ppn = 2) ∧
      (∃ b, m.Records 1 b 0x2000000 2) ∧ m.k.phys.mem 2 0 = 0 ∧
      ∃ m', m.next { sid := 0, action := .store 0x2000000 0 7 } = some m' ∧
        m'.k.phys.mem 2 0 = 7 := by
  have hplain : ∀ l ∈ writtenPage ++ [protectPage { read := true }, forkSpace,
      protectPage { read := true, write := true }], Plain l := by
    simp [writtenPage, protectPage, forkSpace, Plain]
  refine exists_of_runLabels init_oneSpace hplain ?_ ?_
  · simp [writtenPage, protectPage, forkSpace, Action.InPlace]
  · decide +kernel

/-- The page is written, shared with a child, and written again by the parent: the parent has a frame
of its own. -/
theorem isolation_after_fork :
    ∃ m, Run Init (fun m l ↦ l.action.InPlace ∧ KeepsPrivate m l) Step m ∧
      (∃ b, m.Records 1 b 0x2000000 2) ∧ ∃ ms, m.spaces[0]? = some ms ∧
        (ms.pageTable.entry 0x2000000).storable = true ∧
        ∀ j b w, j ≠ 0 → ¬ m.Records j b w (ms.pageTable.entry 0x2000000).ppn := by
  have hplain : ∀ l ∈ writtenPage ++ [forkSpace,
      { sid := 0, action := .op (.fault .store 0x2000000000 none) }], Plain l := by
    simp [writtenPage, forkSpace, Plain]
  obtain ⟨m, hrun, hchild, ms, hms, ⟨a, ha, hshared, hcontain⟩, hst⟩ :
      ∃ m, Run Init (fun m l ↦ l.action.InPlace ∧ KeepsPrivate m l) Step m ∧
        (∃ b, m.Records 1 b 0x2000000 2) ∧ ∃ ms, m.spaces[0]? = some ms ∧
          (∃ a ∈ ms.areas, a.shared = false ∧ a.vpnRange.contain 0x2000000 = true) ∧
          (ms.pageTable.entry 0x2000000).storable = true := by
    refine exists_of_runLabels init_oneSpace hplain ?_ ?_
    · simp [writtenPage, forkSpace, Action.InPlace, KeepsPrivate]
    · decide +kernel
  exact ⟨m, hrun, hchild, ms, hms, hst,
    ((isolation_of_run hrun).1 0 ms a 0x2000000 hms ha hshared hcontain hst).1⟩

/-! ### The contents of frames -/

variable {m m' : Machine} {l : Label} {i v p : Nat} {a : MapArea}
  {ok : Machine → Label → Prop}

theorem Advance.mem (h : m.Advance l m') (hinv : m.Inv) (hrec : m.Records i a v p) :
    m'.k.phys.mem p = m.k.phys.mem p ∨ ∃ vpn offset byte, l.action = .store vpn offset byte ∧
      (m.pte l.sid vpn).storable = true ∧ (m.pte l.sid vpn).ppn = p := by
  have hkept {ext : Nat → Nat} {k : Kernel} (hobtains : m.k.Obtains ext k) :
      k.phys.mem p = m.k.phys.mem p := by
    obtain ⟨-, n, hev⟩ := hobtains
    exact hev.mem_eq (hinv.not_supply hrec)
  cases h with subst hm'
  | op _ _ _ heffect _ _ hm' => exact .inl (hkept heffect.obtains)
  | forkFailed _ _ hparent hm' | forked _ _ hparent _ hm' => exact .inl (hkept (hparent.obtains 0))
  | segment _ hobtains _ hm' => exact .inl (hkept (hobtains 0))
  | @store ms vpn offset byte phys haction hms hst hphys hm' =>
    subst hphys
    by_cases hp : p = (ms.pageTable.entry vpn).ppn
    · exact .inr ⟨vpn, offset, byte, haction, by rw [pte_eq hms]; exact hst, by rw [pte_eq hms, hp]⟩
    · exact .inl (Function.update_of_ne hp _ _)

theorem forks_written : ∃ m m' : Machine, Run Init (fun _ _ ↦ True) Step m ∧ m.Step forkSpace m' ∧
    m.spaces.length = 1 ∧ ∃ a, m'.Records 1 a 0x2000000 2 := by
  obtain ⟨m, hrun, hlen, m', hnext, hrec⟩ : ∃ m, Run Init (fun _ _ ↦ True) Step m ∧
      m.spaces.length = 1 ∧ ∃ m', m.next forkSpace = some m' ∧ ∃ a, m'.Records 1 a 0x2000000 2 :=
    exists_of_runLabels init_oneSpace plain_written (fun _ _ _ ↦ trivial) (by decide +kernel)
  exact ⟨m, m', hrun, ⟨admissible_of_plain (by simp [forkSpace, Plain]), hnext⟩, hlen, hrec⟩

/-- In every run, after a fork each page of the child shows a frame of the parent, with the bytes it had,
and neither of them can store to it if it is private. -/
theorem fork_of_step (hrun : Run Init ok Step m) (hstep : m.Step l m') (haction : l.action = .fork)
    (hrec : m'.Records m.spaces.length a v p) :
    (∃ b, m.Records l.sid b v p) ∧ m'.k.phys.mem p = m.k.phys.mem p ∧
      (m'.pte m.spaces.length v).ppn = p ∧ (m'.pte l.sid v).ppn = p ∧
      (a.shared = false → (m'.pte m.spaces.length v).storable = false ∧
        (m'.pte l.sid v).storable = false) := by
  obtain ⟨hsettled, hadv⟩ := Step.advance (inv_of_reachable hrun) hstep
  have hnew {b : MapArea} : ¬ (m.settle l).Records m.spaces.length b v p := by
    rintro ⟨ms, hms, -⟩
    exact Nat.lt_irrefl _ (List.getElem?_eq_some_iff.mp hms).1
  -- The child is new, so its pages are inherited.
  cases hadv.origin hsettled hrec with
  | same hold => exact absurd hold hnew
  | changed hop => simp [haction] at hop
  | marked _ _ hold => exact absurd hold hnew
  | @inherited b _ _ _ hold ha hvisible hchild hparent =>
    obtain ⟨ms, hms, hb, hp⟩ := id hold
    have hsound := hsettled.sound ms (List.mem_of_getElem? hms)
    rw [pte_eq hms] at hchild hparent
    have hppn := (hsound.valid b hb v p hp).2
    have hmem := (hadv.mem hsettled hold).resolve_right (by simp [haction])
    refine ⟨⟨b, hold⟩, hmem, by rw [hchild]; rfl, ?_, fun hprivate ↦ ?_⟩
    · rw [hparent, MemorySet.parentEntry]
      split_ifs <;> exact hppn
    · have hshared : b.shared = false := by
        rw [ha] at hprivate
        exact hprivate
      rw [hchild, hparent]
      cases hperm : b.mapPerm.write with
      | true =>
        have hcow : MemorySet.forksCow b = true := by simp [MemorySet.forksCow, hshared, hperm]
        simp [MemorySet.childEntry, MemorySet.parentEntry, hcow, storable, not_writable_cowFlags]
      | false =>
        have hcow : MemorySet.forksCow b = false := by simp [MemorySet.forksCow, hperm]
        have hwrite : (ms.pageTable.entry v).flags.write = false :=
          Bool.eq_false_of_not_eq_true fun hw ↦ by
            simpa [hperm] using (hsound.writable b hb v p hp hw).1
        simp [MemorySet.childEntry, MemorySet.parentEntry, hcow, storable, writable, PTEFlags.mapped,
          hwrite]

theorem page_after_fork : ∃ m m' : Machine, m.Step forkSpace m' ∧ (∃ a, m'.Records 1 a 0x2000000 2) ∧
    m'.k.phys.mem 2 = m.k.phys.mem 2 ∧ (m'.pte 1 0x2000000).ppn = 2 := by
  obtain ⟨m, m', hrun, hstep, hlen, a, hrec⟩ := forks_written
  rw [← hlen] at hrec
  obtain ⟨-, hmem, hppn, -⟩ := fork_of_step hrun hstep rfl hrec
  rw [hlen] at hrec hppn
  exact ⟨m, m', hstep, ⟨a, hrec⟩, hmem, hppn⟩

end Machine

end RespOS.Mm
