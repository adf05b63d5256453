import RespOS.Task.GroupInvariant

/-!
# No thread outlives its process

`exit_process_group` takes a snapshot of the thread group, stops every other thread of it, waits until each
is off its processor, cleans up and releases the address space, and then makes the process a zombie.
`Inv.phase_kept` and `Inv.phase_own` carry what holds at each of these statements (`Phase`) through the steps
of the other threads and of the owner itself, and `Inv.step` collects the invariant.

`no_thread_outlives` says in which runs every thread is gone once the process is a zombie.
`late_clone_outlives` and `leaving_thread_outlives` are runs at whose end a thread of the zombie runs.
-/

namespace RespOS.Task

open RespOS.Basis List GroupTask

namespace GroupWorld

/-! ### What a step keeps -/

/-- What a step keeps of the tasks that have been made, while a thread owns an exit or an `execve`. -/
structure Keeps (w w' : GroupWorld) : Prop where
  count : w.count ≤ w'.count
  tid : ∀ x, x < w.count → (w'.tasks x).tid = (w.tasks x).tid
  terminate : ∀ x, x < w.count → (w.tasks x).terminateRequested = true →
    (w'.tasks x).terminateRequested = true
  dead : ∀ x, x < w.count → (w.tasks x).Dead → (w'.tasks x).Dead
  noAdder : ∀ x, x < w.count → w.NoAdder x → w'.NoAdder x
  parked : ∀ x, x < w.count → w.Parked x → w'.Parked x
  ended : ∀ x, x < w.count → w.Ended x → w'.Ended x
  quiet : ∀ x, x < w.count → w.Quiet x → w'.Quiet x
  leaving : ∀ x, x < w.count → (w.tasks x).pc.IsLeaving = true →
    (w'.tasks x).pc.IsLeaving = true ∨ w'.Quiet x

variable {t : Nat}

section Keeps

variable {w w' : GroupWorld} {l : GroupLabel} {o x leader : Nat} {all rest : List Nat}

section

variable (hk : Keeps w w')
include hk

theorem Keeps.swept (ht : t < w.count) (hs : w.Swept o t) : w'.Swept o t :=
  hs.imp_right (hk.parked t ht)

theorem Keeps.cleaned (ht : t < w.count) (hc : w.Cleaned o leader t) : w'.Cleaned o leader t :=
  hc.imp (hk.quiet t ht) fun ⟨heq, hs⟩ ↦ ⟨heq, hk.swept ht hs⟩

theorem ExitCover.mono (hcount : w'.count = w.count) (hc : w.ExitCover o all) : w'.ExitCover o all where
  self := hc.self
  made t ht := hcount ▸ hc.made t ht
  distinct a ha b hb htid := by
    rw [hk.tid a (hc.made a ha), hk.tid b (hc.made b hb)] at htid
    exact hc.distinct a ha b hb htid
  placed x hx := by
    rw [hcount] at hx
    rcases hc.placed x hx with hmem | hleaving | hquiet
    · exact .inl hmem
    · exact .inr (hk.leaving x hx hleaving)
    · exact .inr (.inr (hk.quiet x hx hquiet))

theorem Cleaning.mono (hcount : w'.count = w.count)
    (hc : w.Cleaning o all leader rest) : w'.Cleaning o all leader rest where
  cover := hc.cover.mono hk hcount
  dead t ht := (hc.dead t ht).imp_right (hk.dead t (hc.cover.made t ht))
  leader := hc.leader
  sub := hc.sub

end

theorem Removes.active {pc : Pc} (h : w.Removes o x pc) : pc = .leaveChecked ∨ pc.Active = true := by
  cases h with
  | leave => exact .inl rfl
  | clear | clean | adopt | insert => exact .inr rfl

section Invariant

variable (hI : w.Inv) (h : w.Step l w')
include hI h

section

variable (ho : (w.tasks o).pc.Active = true)
include ho

theorem Inv.tid_of_ne (hx : x < w.count) (hne : x ≠ o) : (w'.tasks x).tid = (w.tasks x).tid := by
  rcases (frame h (.inl hx)).tid with heq | ⟨-, hat⟩
  · exact heq
  · exact absurd (hI.single x o (by rw [hat.2]; rfl) ho) hne

theorem Inv.keeps (hnot : l = .step o → (w.tasks o).pc ≠ .adoptTid) : Keeps w w' where
  count := count_le h
  tid x hx := by
    by_cases hxo : x = o
    · subst hxo
      rcases (frame h (.inl hx)).tid with heq | ⟨hl, hat⟩
      · exact heq
      · exact absurd hat.2 (hnot hl)
    · exact hI.tid_of_ne h ho hx hxo
  terminate x hx := (frame h (.inl hx)).terminate
  dead x hx := (frame h (.inl hx)).dead
  noAdder x hx := hI.sound.noAdder_step h hx
  parked x hx := hI.sound.parked_step h hx
  ended x hx := hI.sound.ended_step h hx
  quiet x hx := hI.sound.quiet_step h hx
  leaving x hx hleaving := by
    refine hI.sound.leaving_step h hx hleaving fun hpc ↦ ?_
    have hphase := hI.phase x
    rwa [hpc] at hphase

theorem Inv.heads_step (hheads : w.Heads o all) : w'.Heads o all := by
  intro x hin htid
  by_cases hxo : x = o
  · exact .inl hxo
  have htgid := (nextTid_step h).2.1
  rcases made h x with hmade | ⟨p, tid, hl, -, htask⟩
  · have hold : (w.tasks x).inGroup = true := by
      rcases (frame h hmade).inGroup hin with hold | ⟨-, hat⟩
      · exact hold
      · exact absurd (hI.single x o (by rw [hat.2]; rfl) ho) hxo
    have hx := hI.sound.lt_of_inGroup hold
    exact hheads x hold (by rw [← hI.tid_of_ne h ho hx hxo, htid, htgid])
  · have hfresh := ((nextTid_step h).2.2 p tid hl).1
    have hlt := hI.tgid
    rw [htask, htgid] at htid
    have htid : tid = w.tgid := htid
    omega

end

theorem Inv.inGroup_kept (ho : (w.tasks o).pc.PastExecSnapshot = true) (hx : x < w.count)
    (hin : (w.tasks x).inGroup = true) (hnot : l = .step o → ¬ w.Removes o x (w.tasks o).pc) :
    (w'.tasks x).inGroup = true := by
  rcases inGroup_step h hx hin with hkept | ⟨p, hl, -, hremoves⟩
  · exact hkept
  rcases hremoves.active with hleave | hactive
  · have hlocked := (hI.lock p).mpr hleave
    rw [hI.unlocked o (.inr ho)] at hlocked
    nomatch hlocked
  · obtain rfl := hI.single p o hactive (Pc.active_of_past (.inr ho))
    exact absurd hremoves (hnot hl)

theorem Inv.execCover_step (hk : Keeps w w') (hlt : o < w.count)
    (hactive : (w.tasks o).pc.Active = true) (hin : ∀ t ∈ all, (w'.tasks t).inGroup = true)
    (hc : w.ExecCover o all) : w'.ExecCover o all where
  nodup := hc.nodup
  made t ht := Nat.lt_of_lt_of_le (hc.made t ht) hk.count
  apart t ht := by
    rw [hk.tid t (hc.made t ht), hk.tid o hlt]
    exact hc.apart t ht
  inGroup := hin
  adders t ht s hs := by
    rcases hI.sound.child_of_step h hs with hold | ⟨_, -, rfl⟩
    · refine (hc.adders t ht s hold).imp_right (hk.dead s (hI.sound.lt_of_pc fun hpc ↦ ?_))
      simp [hpc, Pc.child] at hold
    · exact absurd (hc.made _ ht) (Nat.lt_irrefl _)
  heads := hI.heads_step h hactive hc.heads

theorem Inv.execRest_step (hk : Keeps w w')
    (ho : (w.tasks o).pc.PastExecSnapshot = true) (hc : w.ExecRest o rest)
    (hnot : ∀ x, l = .step o → ¬ w.Removes o x (w.tasks o).pc) : w'.ExecRest o rest where
  nodup := hc.nodup
  made t ht := Nat.lt_of_lt_of_le (hc.made t ht) hk.count
  inGroup t ht := hI.inGroup_kept h ho (hc.made t ht) (hc.inGroup t ht) (hnot t)
  dead t ht := hk.dead t (hc.made t ht) (hc.dead t ht)
  noAdder t ht := hk.noAdder t (hc.made t ht) (hc.noAdder t ht)
  heads := hI.heads_step h (Pc.active_of_past (.inr ho)) hc.heads

end Invariant

theorem count_of_sealed (h : w.Step l w') (hc : w.Closed l) (hs : w.Sealed) : w'.count = w.count := by
  rcases count_step h with heq | ⟨p, tid, rfl, -⟩
  · exact heq
  · exact absurd hs hc

end Keeps

/-! ### The phases -/

section Phase

variable {w w' : GroupWorld} {l : GroupLabel} {o x leader : Nat} {all rest : List Nat} {k : Teardown}

theorem Inv.cover_step (hI : w.Inv) (h : w.Step l w') (hc : w.Closed l) (hk : Keeps w w')
    (hlt : o < w.count) (hcover : w.Cover o k all)
    (hexit : k = .exit → (w.tasks o).pc.PastSnapshot = true)
    (hexec : k = .exec → (w.tasks o).pc.PastExecSnapshot = true)
    (hstay : ∀ x, ¬ w.Removes o x (w.tasks o).pc) : w'.Cover o k all := by
  cases k with
  | exit => exact ExitCover.mono hk (count_of_sealed h hc (sealed_of_past hI.sound (hexit rfl))) hcover
  | exec =>
    have hcover : w.ExecCover o all := hcover
    refine hI.execCover_step h hk hlt (Pc.active_of_past (.inr (hexec rfl))) (fun t ht ↦ ?_) hcover
    exact hI.inGroup_kept h (hexec rfl) (hcover.made t ht) (hcover.inGroup t ht) fun _ ↦ hstay t

theorem Cover.made {w : GroupWorld} (hcover : w.Cover o k all) (ht : t ∈ all) : t < w.count := by
  cases k with
  | exit => exact ExitCover.made hcover t ht
  | exec => exact ExecCover.made hcover t ht

theorem Inv.phase_kept (hI : w.Inv) (h : w.Step l w') (hc : w.Closed l)
    (hnot : l = .step o → (w.tasks o).pc ≠ .adoptTid ∧ (w.tasks o).pc ≠ .adoptInsert ∧
      ∀ t rest, (w.tasks o).pc ≠ .execCleanGroup t rest) : w'.Phase o (w.tasks o).pc := by
  have hphase := hI.phase o
  have hlt : (w.tasks o).pc = .user ∨ o < w.count := by
    by_cases hlt : o < w.count
    · exact .inr hlt
    · exact .inl (hI.sound.unmade o (Nat.le_of_not_lt hlt)).2.2.1
  have hkeeps (hactive : (w.tasks o).pc.Active = true) : Keeps w w' :=
    hI.keeps h hactive fun hl ↦ (hnot hl).1
  have hcount (hpast : (w.tasks o).pc.PastSnapshot = true) : w'.count = w.count :=
    count_of_sealed h hc (sealed_of_past hI.sound hpast)
  have hrest {rest : List Nat} (ho : (w.tasks o).pc.PastExecSnapshot = true)
      (hrest : w.ExecRest o rest) :=
    hI.execRest_step h (hkeeps (Pc.active_of_past (.inr ho))) ho hrest
  have hheads (hactive : (w.tasks o).pc.Active = true) {all : List Nat} (hheads : w.Heads o all) :=
    hI.heads_step h hactive hheads
  have hout (hstay : l = .step o → (w.tasks o).pc ≠ .adoptInsert) (hlt : o < w.count)
      (hout : (w.tasks o).inGroup = false) : (w'.tasks o).inGroup = false := by
    refine Bool.eq_false_iff.mpr fun hin ↦ ?_
    rcases (frame h (.inl hlt)).inGroup hin with hin | ⟨hl, hat⟩
    · exact absurd hin (by simp [hout])
    · exact hstay hl hat.2
  have hcover {k : Teardown} {all : List Nat} (hlt : o < w.count)
      (hactive : (w.tasks o).pc.Active = true) (hcover : w.Cover o k all) :=
    hI.cover_step h hc (hkeeps hactive) hlt hcover
  generalize hpc : (w.tasks o).pc = pc at *
  cases pc with try have hk := hkeeps rfl
  | user | sleeping | unblocked | cloned | managed | adding | leaveChecked | leaving | leavingStatus
  | done | exitBegin | losing | lost | mark | exitSnapshot | execSnapshot | adoptManage
  | execFinish => trivial
  | leavingManager => exact hI.sound.ended_step h (hlt.resolve_left (by simp)) hphase
  | terminate k all rest | terminateStatus k all t rest | terminateRemove k all t rest =>
    refine ⟨hcover (hlt.resolve_left (by simp)) rfl hphase.1 decide_eq_true decide_eq_true
      (fun x hr ↦ nomatch hr), fun t ht ↦ ?_⟩
    exact (hphase.2 t ht).imp_right (.imp_right (hk.terminate t (Cover.made hphase.1 ht)))
  | wait k all rest =>
    refine ⟨hcover (hlt.resolve_left (by simp)) rfl hphase.1 decide_eq_true decide_eq_true
      (fun x hr ↦ nomatch hr), fun t ht ↦ ?_, fun t ht ↦ ?_⟩
    · exact (hphase.2.1 t ht).imp_right (hk.terminate t (Cover.made hphase.1 ht))
    · exact (hphase.2.2 t ht).imp_right (.imp_right (hk.dead t (Cover.made hphase.1 ht)))
  | exitClean all leader rest =>
    refine ⟨hphase.1.mono hk (hcount rfl), fun t ht ↦ ?_⟩
    exact (hphase.2 t ht).imp_right (hk.cleaned (hphase.1.cover.made t ht))
  | exitCleanStatus all leader t rest =>
    have hmade := hphase.1.cover.made
    refine ⟨hphase.1.mono hk (hcount rfl), hphase.2.1,
      hk.swept (hmade t hphase.2.1) hphase.2.2.1, fun u hu ↦ ?_⟩
    exact (hphase.2.2.2 u hu).imp_right (.imp_right (hk.cleaned (hmade u hu)))
  | exitCleanManager all leader t rest =>
    have hmade := hphase.1.cover.made
    refine ⟨hphase.1.mono hk (hcount rfl), hphase.2.1,
      hk.ended t (hmade t hphase.2.1) hphase.2.2.1, fun u hu ↦ ?_⟩
    exact (hphase.2.2.2 u hu).imp_right (.imp_right (hk.cleaned (hmade u hu)))
  | exitCleanLeader leader => exact hphase
  | clear leader | recycle leader =>
    refine ⟨(hcount rfl).symm ▸ hphase.1, fun x hx ↦ ?_⟩
    rw [hcount rfl] at hx
    rcases hphase.2 x hx with hleaving | hcleaned
    · exact (hk.leaving x hx hleaving).imp_right .inl
    · exact .inr (hk.cleaned hx hcleaned)
  | publish leader | exitLeader leader =>
    refine ⟨(hcount rfl).symm ▸ hphase.1, fun x hx ↦ ?_⟩
    rw [hcount rfl] at hx
    exact (hkeeps rfl).cleaned hx (hphase.2 x hx)
  | removeLeader leader =>
    intro x hx
    rw [hcount rfl] at hx
    exact (hphase x hx).imp (hk.quiet x hx) fun ⟨heq, hended⟩ ↦ ⟨heq, hk.ended x hx hended⟩
  | execClean rest => exact hrest rfl hphase fun x _ hr ↦ nomatch hr
  | execCleanStatus t rest =>
    exact ⟨hrest rfl hphase.1 (fun x _ hr ↦ nomatch hr),
      (hkeeps rfl).parked t (hphase.1.made t mem_cons_self) hphase.2⟩
  | execCleanGroup t rest =>
    exact ⟨hrest rfl hphase.1 fun x hl ↦ absurd rfl ((hnot hl).2.2 t rest),
      (hkeeps rfl).ended t (hphase.1.made t mem_cons_self) hphase.2⟩
  | execCleanManager t rest =>
    exact ⟨hrest rfl hphase.1 (fun x _ hr ↦ nomatch hr),
      Nat.lt_of_lt_of_le hphase.2.1 (hkeeps rfl).count, (hkeeps rfl).ended t hphase.2.1 hphase.2.2⟩
  | adoptManager | adoptGroup => exact hheads rfl hphase
  | adoptTid =>
    exact ⟨hheads rfl hphase.1, hout (by simp) (hlt.resolve_left (by simp)) hphase.2⟩
  | adoptInsert =>
    have hlt := hlt.resolve_left (by simp)
    refine ⟨hheads rfl hphase.1, hout (fun hl ↦ (hnot hl).2.1) hlt hphase.2.1, ?_⟩
    rw [(hkeeps rfl).tid o hlt, (nextTid_step h).2.1]
    exact hphase.2.2

/-! The statements of the owner. -/

theorem Cover.eq_of_tid (hcover : w.Cover o k all) (ht : t ∈ all)
    (htid : (w.tasks t).tid = (w.tasks o).tid) : t = o := by
  cases k with
  | exit => exact ExitCover.distinct hcover t ht o (ExitCover.self hcover) htid
  | exec => exact absurd htid (ExecCover.apart hcover t ht)

theorem Cover.eq_or_mem_others (hcover : w.Cover o k all) (ht : t ∈ all) :
    t = o ∨ t ∈ w.others o all := by
  by_cases htid : (w.tasks t).tid = (w.tasks o).tid
  · exact .inl (Cover.eq_of_tid hcover ht htid)
  · exact .inr (mem_filter.mpr ⟨ht, decide_eq_true htid⟩)

theorem mem_members : x ∈ w.members ↔ x < w.count ∧ (w.tasks x).inGroup = true := by
  simp [members]

theorem mem_others : x ∈ w.others o all ↔ x ∈ all ∧ (w.tasks x).tid ≠ (w.tasks o).tid := by
  simp [others]

theorem Swept.ended (hS : w.Sound) (hon : (w.tasks o).cpu = .on)
    (hclosing : (w.tasks o).pc.Closing = true) (hexited : (w.tasks t).status = .exited)
    (hs : w.Swept o t) : w.Ended t := by
  rcases hs with rfl | hparked
  · refine ⟨hexited, (hS.coherent t).on hon (.inl fun hpc ↦ ?_),
      fun s hs ↦ absurd (hS.child s t hs).2.1 (by simp [hon]), .inr ⟨hclosing, .inl hon⟩⟩
    rw [hpc] at hclosing
    nomatch hclosing
  · exact ⟨hexited, hparked.2.1, hparked.2.2, .inl hparked.1⟩

theorem Ended.dead_of_child {s : Nat} (he : w.Ended s) (hs : (w.tasks s).pc.child = some x) :
    (w.tasks s).Dead := by
  rcases he.2.2.2 with hdead | hfin
  · exact hdead
  · exact absurd hfin.1 (by simp [(Pc.of_child hs).2])

theorem Inv.not_sealed (hI : w.Inv) (hactive : (w.tasks o).pc.Active = true)
    (hpast : (w.tasks o).pc.PastSnapshot = false) : ¬ w.Sealed := by
  have hlife := Pc.not_ended_of_active hactive hpast (hI.expects o)
  rintro (hzombie | hreaped | ⟨p, -, hp⟩)
  · exact hlife.1 hzombie
  · exact hlife.2 hreaped
  · obtain rfl := hI.single p o (Pc.active_of_past (.inl hp)) hactive
    exact absurd hp (by simp [hpast])

theorem Cleaning.noAdder (hS : w.Sound) (hchild : (w.tasks o).pc.child = none)
    (hc : w.Cleaning o all leader rest) : w.NoAdder t := by
  intro s hs
  have hlt : s < w.count := hS.lt_of_pc fun hpc ↦ by simp [hpc, Pc.child] at hs
  rcases hc.cover.placed s hlt with hmem | hleaving | hquiet
  · rcases hc.dead s hmem with rfl | hdead
    · rw [hchild] at hs
      nomatch hs
    · exact hdead
  · exact absurd hleaving (by simp [(Pc.of_child hs).1])
  · exact hquiet.1.dead_of_child hs

theorem Cleaning.tail (hS : w.Sound) (hchild : (w.tasks o).pc.child = none)
    (hidle : (w.tasks t).Unscheduled) (hc : w.Cleaning o all leader (t :: rest)) :
    w.Swept o t ∧ w.Cleaning o all leader rest :=
  ⟨(hc.dead t (hc.sub t mem_cons_self)).imp_right fun hdead ↦ ⟨hdead, hidle, hc.noAdder hS hchild⟩,
    { hc with sub := fun u hu ↦ hc.sub u (mem_cons_of_mem _ hu) }⟩

theorem ExecCover.execRest (hc : w.ExecCover o all) (hdead : ∀ t ∈ all, t = o ∨ (w.tasks t).Dead) :
    w.ExecRest o all := by
  have hdead (t : Nat) (ht : t ∈ all) : (w.tasks t).Dead :=
    (hdead t ht).resolve_left fun hself ↦ hc.apart t ht (hself ▸ rfl)
  exact { hc with
    dead := hdead
    noAdder := fun t ht s hs ↦ (hc.adders t ht s hs).elim (hdead s) id }

theorem past_cons {self done : Prop} {u : Nat} (h : self ∨ t ∈ u :: rest ∨ done)
    (hu : t = u → self ∨ done) : self ∨ t ∈ rest ∨ done := by
  rcases h with hself | hmem | hdone
  · exact .inl hself
  · rcases mem_cons.mp hmem with heq | hmem
    · exact (hu heq).imp_right .inr
    · exact .inr (.inl hmem)
  · exact .inr (.inr hdone)

theorem Inv.placed_snapshot (hI : w.Inv) (hat : w.At o .exitSnapshot ∨ w.At o .execSnapshot) :
    (w.tasks o).inGroup = true ∧ ∀ x, x < w.count →
      (w.tasks x).inGroup = true ∨ (w.tasks x).pc.IsLeaving = true ∨ w.Quiet x := by
  obtain ⟨hactive, hpast⟩ :
      (w.tasks o).pc.Active = true ∧ (w.tasks o).pc.PastSnapshot = false := by
    rcases hat with hat | hat <;> simp [hat.2, Pc.Active, Pc.PastSnapshot]
  have hsealed : ¬ w.Sealed := hI.not_sealed hactive hpast
  refine ⟨?_, fun x hx ↦ ?_⟩
  · rcases hat with hat | hat <;> exact hI.live_inGroup hsealed hat rfl rfl (by simp)
  · rcases hI.placed hsealed x hx with hin | hleaving | hquiet | hadopt | ⟨p, rest, hp⟩
    · exact .inl hin
    · exact .inr (.inl hleaving)
    · exact .inr (.inr hquiet)
    -- the last two are statements of an owner, and the owner is at its snapshot
    · have hx' : x = o := hI.single x o (by rcases hadopt with hpc | hpc <;> rw [hpc] <;> rfl) hactive
      rcases hat with hat | hat <;> simp [hx', hat.2] at hadopt
    · have hpo : p = o := hI.single p o (by rw [hp]; rfl) hactive
      rcases hat with hat | hat <;> simp [hpo, hat.2] at hp

theorem Inv.exitCover (hI : w.Inv) (hat : w.At o .exitSnapshot) : w.ExitCover o w.members := by
  obtain ⟨hself, hplaced⟩ := hI.placed_snapshot (.inl hat)
  have hlt := hI.sound.lt_of_inGroup hself
  refine ⟨mem_members.mpr ⟨hlt, hself⟩, fun t ht ↦ (mem_members.mp ht).1, ?_, fun x hx ↦ ?_⟩
  · intro a ha b hb htid
    exact hI.keys a b (mem_members.mp ha).2 (mem_members.mp hb).2 htid
  · exact (hplaced x hx).imp_left fun hin ↦ mem_members.mpr ⟨hx, hin⟩

theorem Inv.execCover (hI : w.Inv) (hat : w.At o .execSnapshot) :
    w.ExecCover o (w.others o w.members) := by
  obtain ⟨hself, hplaced⟩ := hI.placed_snapshot (.inr hat)
  have hmem {x : Nat} (hx : x < w.count) (hin : (w.tasks x).inGroup = true) :
      x = o ∨ x ∈ w.others o w.members := by
    by_cases htid : (w.tasks x).tid = (w.tasks o).tid
    · exact .inl (hI.keys x o hin hself htid)
    · exact .inr (mem_others.mpr ⟨mem_members.mpr ⟨hx, hin⟩, htid⟩)
  refine ⟨((nodup_range).filter _).filter _, fun t ht ↦ ?_, fun t ht ↦ (mem_others.mp ht).2,
    fun t ht ↦ (mem_members.mp (mem_others.mp ht).1).2, fun t ht s hs ↦ ?_, fun x hin _ ↦ ?_⟩
  · exact (mem_members.mp (mem_others.mp ht).1).1
  · have hslt : s < w.count := hI.sound.lt_of_pc fun hpc ↦ by simp [hpc, Pc.child] at hs
    rcases hplaced s hslt with hin | hleaving | hquiet
    · rcases hmem hslt hin with rfl | hmem
      · rw [hat.2] at hs
        nomatch hs
      · exact .inl hmem
    · exact absurd hleaving (by simp [(Pc.of_child hs).1])
    · exact .inr (hquiet.1.dead_of_child hs)
  · exact hmem (hI.sound.lt_of_inGroup hin) hin

theorem status_setExited (w : GroupWorld) (o t : Nat) (pc : Pc) :
    (((w.perform o (.setExited t)).setPc o pc).tasks t).status = .exited := by
  rw [field_setPc status fun _ _ ↦ rfl]
  simp [act]

theorem unscheduled_removeTask (w : GroupWorld) (o t : Nat) (pc : Pc) :
    (((w.perform o (.removeTask (w.tasks t).tid)).setPc o pc).tasks t).Unscheduled := by
  constructor
  · rw [field_setPc ready fun _ _ ↦ rfl]
    simp [act]
  · rw [field_setPc blocked fun _ _ ↦ rfl]
    simp [act]

theorem Inv.execRest_ungroup (hI : w.Inv) (h : w.Step (.step o) w')
    (hat : w.At o (.execCleanGroup t rest)) (hrest : w.ExecRest o (t :: rest)) :
    w'.ExecRest o rest := by
  have hactive : (w.tasks o).pc.Active = true := by
    rw [hat.2]
    rfl
  have hk := hI.keeps h hactive fun _ ↦ by simp [hat.2]
  have hin {x : Nat} : (w'.tasks x).inGroup = true ↔
      (w.tasks x).inGroup = true ∧ (w.tasks x).tid ≠ (w.tasks t).tid := by
    rcases step_eq h with ⟨-, e, pc', hstatement, rfl⟩
    rw [hat.2] at hstatement
    obtain ⟨-, ⟨⟩⟩ := of_guard hstatement
    rw [field_setPc inGroup fun _ _ ↦ rfl]
    simp only [act]
    split_ifs with htid <;> simp [htid]
  have hnodup := nodup_cons.mp hrest.nodup
  refine ⟨hnodup.2, fun u hu ↦ ?_, fun u hu ↦ hin.mpr ⟨?_, fun htid ↦ ?_⟩, fun u hu ↦ ?_, fun u hu ↦ ?_,
    fun x hx htid ↦ ?_⟩
  · exact Nat.lt_of_lt_of_le (hrest.made u (mem_cons_of_mem _ hu)) hk.count
  · exact hrest.inGroup u (mem_cons_of_mem _ hu)
  · have heq := hI.keys u t (hrest.inGroup u (mem_cons_of_mem _ hu))
      (hrest.inGroup t mem_cons_self) htid
    exact hnodup.1 (heq ▸ hu)
  · have hu := mem_cons_of_mem t hu
    exact hk.dead u (hrest.made u hu) (hrest.dead u hu)
  · have hu := mem_cons_of_mem t hu
    exact hk.noAdder u (hrest.made u hu) (hrest.noAdder u hu)
  · rcases hI.heads_step h hactive hrest.heads x hx htid with heq | hmem
    · exact .inl heq
    · rcases mem_cons.mp hmem with rfl | hmem
      · exact absurd rfl (hin.mp hx).2
      · exact .inr hmem

/-! One statement of a thread, where its phase still holds after it. -/

theorem Phase.wait_tail {u : Nat} (h : w.Phase o (.wait k all (u :: rest)))
    (hoff : (w.tasks u).cpu = .off) : w.Phase o (.wait k all rest) :=
  ⟨h.1, h.2.1, fun t ht ↦ past_cons (h.2.2 t ht) fun htu ↦
    (h.2.1 t ht).imp_right fun hrequested ↦ ⟨hrequested, htu ▸ hoff⟩⟩

theorem Phase.dead_of_wait (h : w.Phase o (.wait k all [])) (t : Nat) (ht : t ∈ all) :
    t = o ∨ (w.tasks t).Dead :=
  (h.2.2 t ht).imp_right fun hor ↦ hor.resolve_left (by simp)

theorem leaderOf_mem (h : o ∈ all) : w.leaderOf o all ∈ all := by
  unfold leaderOf
  cases hfind : all.find? fun x ↦ (w.tasks x).tid = w.tgid with
  | none => exact h
  | some t => exact mem_of_find?_eq_some hfind

theorem Phase.exitClean_of_wait (h : w.Phase o (.wait .exit all [])) (hleader : leader ∈ all) :
    w.Phase o (.exitClean all leader all) :=
  ⟨⟨h.1, h.dead_of_wait, hleader, fun _ ht ↦ ht⟩, fun _ ht ↦ .inl ht⟩

section ExitClean

variable (hS : w.Sound) (hchild : (w.tasks o).pc.child = none) (hidle : (w.tasks t).Unscheduled)
  (h : w.Phase o (.exitClean all leader (t :: rest)))
include hS hchild hidle h

theorem Phase.exitClean_tail (ht : t = leader) : w.Phase o (.exitClean all leader rest) := by
  obtain ⟨hswept, hcleaning⟩ := h.1.tail hS hchild hidle
  refine ⟨hcleaning, fun u hu ↦ ?_⟩
  rcases h.2 u hu with hu | hcleaned
  · rcases mem_cons.mp hu with rfl | hu
    · exact .inr (.inr ⟨ht, hswept⟩)
    · exact .inl hu
  · exact .inr hcleaned

theorem Phase.exitCleanStatus_of_exitClean : w.Phase o (.exitCleanStatus all leader t rest) := by
  obtain ⟨hswept, hcleaning⟩ := h.1.tail hS hchild hidle
  refine ⟨hcleaning, h.1.sub t mem_cons_self, hswept, fun u hu ↦ ?_⟩
  rcases h.2 u hu with hu | hcleaned
  · exact (mem_cons.mp hu).imp_right .inl
  · exact .inr (.inr hcleaned)

end ExitClean

theorem Phase.clear_of_exitClean (h : w.Phase o (.exitClean all leader [])) :
    w.Phase o (.clear leader) := by
  refine ⟨h.1.cover.made leader h.1.leader, fun x hx ↦ ?_⟩
  rcases h.1.cover.placed x hx with hmem | hleaving | hquiet
  · exact .inr ((h.2 x hmem).resolve_left (by simp))
  · exact .inl hleaving
  · exact .inr (.inl hquiet)

theorem Inv.terminate_of_execSnapshot (hI : w.Inv) (h : w.Step (.step o) w') (hat : w.At o .execSnapshot) :
    w'.Phase o (.terminate .exec (w.others o w.members) (w.others o w.members)) := by
  have hcover := hI.execCover hat
  have hactive : (w.tasks o).pc.Active = true := by
    rw [hat.2]
    rfl
  have hk := hI.keeps h hactive fun _ ↦ by simp [hat.2]
  have hlt : o < w.count := hI.sound.lt_of_pc (by simp [hat.2])
  refine ⟨hI.execCover_step h hk hlt hactive (fun t ht ↦ ?_) hcover, fun t ht ↦ .inr (.inl ht)⟩
  rcases step_eq h with ⟨-, e, pc', hstatement, rfl⟩
  rw [hat.2] at hstatement
  obtain ⟨-, ⟨⟩⟩ := of_guard hstatement
  rw [field_setPc inGroup fun _ _ ↦ rfl]
  exact hcover.inGroup t ht

theorem Inv.phase_own (hI : w.Inv) (h : w.Step (.step o) w') (hc : w.Closed (.step o)) :
    w'.Phase o (w'.tasks o).pc := by
  have hS' := hI.sound.step h
  have hphase := hI.phase o
  have hkept := hI.phase_kept (o := o) h hc
  rcases step_eq h with ⟨hon, e, pc', hstatement, heq⟩
  have hpc' : (w'.tasks o).pc = pc' := by rw [heq, pc_setPc_self]
  have hon' : (w'.tasks o).cpu = .on := by
    rw [heq, field_setPc cpu fun _ _ ↦ rfl]
    exact act_cpu.trans hon
  rw [hpc']
  have hended {t : Nat} (hclosing : pc'.Closing = true) (he : e = .setExited t)
      (hs : w'.Swept o t) : w'.Ended t :=
    hs.ended hS' hon' (hpc' ▸ hclosing) (by rw [heq, he, status_setExited])
  have hidle {t : Nat} (he : e = .removeTask (w.tasks t).tid) : (w'.tasks t).Unscheduled := by
    rw [heq, he]
    exact unscheduled_removeTask ..
  have hunmanaged {t : Nat} (he : e = .unmanage (w.tasks t).tid) : (w'.tasks t).managed = false := by
    rw [heq, he]
    exact managed_unmanage rfl
  generalize hpc : (w.tasks o).pc = pc at *
  cases pc with (
      simp only [ne_eq, reduceCtorEq, not_false_eq_true, implies_true, and_self, forall_const] at hkept
      try cases hstatement)
  | unblocked | cloned | adding | leaveChecked | leaving | leavingManager | mark | removeLeader
  | adoptManage | execFinish =>
    trivial
  | sleeping | managed c | adoptInsert =>
    obtain ⟨-, ⟨⟩⟩ := of_guard hstatement
    trivial
  | leavingStatus =>
    exact hended rfl rfl (.inl rfl)
  | exitBegin =>
    simp only [statement] at hstatement
    split_ifs at hstatement <;> (cases hstatement; trivial)
  | losing =>
    split_ifs <;> trivial
  | exitSnapshot =>
    obtain ⟨-, ⟨⟩⟩ := of_guard hstatement
    have hcover := hI.exitCover ⟨hon, hpc⟩
    have hk := hI.keeps h (by rw [hpc]; rfl) fun _ ↦ by simp [hpc]
    have hcount : w'.count = w.count := by
      rw [heq]
      rfl
    refine ⟨hcover.mono hk hcount, fun t ht ↦ ?_⟩
    exact (Cover.eq_or_mem_others (k := .exit) hcover ht).imp_right .inl
  | terminate k all rest =>
    cases rest with cases hstatement
    | nil =>
      refine ⟨hkept.1, fun t ht ↦ ?_, fun t ht ↦ ?_⟩
      · exact (hkept.2 t ht).imp_right fun hor ↦ hor.resolve_left (by simp)
      · exact (Cover.eq_or_mem_others hphase.1 ht).imp_right .inl
    | cons u rest =>
      refine ⟨hkept.1, fun t ht ↦ past_cons (hkept.2 t ht) fun htu ↦ .inr ?_⟩
      rw [heq, htu, field_setPc terminateRequested fun _ _ ↦ rfl]
      simp [act]
  | terminateStatus k all t rest | terminateRemove k all t rest =>
    exact hkept
  | wait k all rest =>
    cases rest with
    | nil =>
      cases k with cases hstatement
      | exit => exact hkept.exitClean_of_wait (leaderOf_mem hphase.1.self)
      | exec => exact ExecCover.execRest hkept.1 hkept.dead_of_wait
    | cons u rest =>
      cases hstatement
      split_ifs with hoff
      · refine hkept.wait_tail ?_
        rw [heq, field_setPc cpu fun _ _ ↦ rfl]
        exact act_cpu.trans hoff
      · exact ⟨hkept.1, hkept.2.1, fun t ht ↦ (Cover.eq_or_mem_others hphase.1 ht).imp_right .inl⟩
  | exitClean all leader rest =>
    cases rest with cases hstatement
    | nil =>
      rw [if_pos (any_eq_true.mpr ⟨leader, hkept.1.leader, decide_eq_true rfl⟩)]
      exact hkept.clear_of_exitClean
    | cons t rest =>
      have hchild : (w'.tasks o).pc.child = none := by
        rw [hpc']
        split_ifs <;> rfl
      split_ifs with htid
      · exact hkept.exitClean_tail hS' hchild (hidle rfl) (hphase.1.cover.distinct t
          (hphase.1.sub t mem_cons_self) leader hphase.1.leader htid)
      · exact hkept.exitCleanStatus_of_exitClean hS' hchild (hidle rfl)
  | exitCleanStatus all leader t rest =>
    exact ⟨hkept.1, hkept.2.1, hended rfl rfl hkept.2.2.1, hkept.2.2.2⟩
  | exitCleanManager all leader t rest =>
    refine ⟨hkept.1, fun u hu ↦ ?_⟩
    rcases hkept.2.2.2 u hu with rfl | hrest
    · exact .inr (.inl ⟨hkept.2.2.1, hunmanaged rfl⟩)
    · exact hrest
  | exitCleanLeader leader => exact hphase.elim
  | clear leader =>
    obtain ⟨-, ⟨⟩⟩ := of_guard hstatement
    exact hkept
  | recycle leader =>
    refine ⟨?_, fun x hx ↦ ?_⟩
    · rw [heq]
      exact hphase.1
    · have hx₀ : x < w.count := by
        rw [heq] at hx
        exact hx
      have hnone := hc (by rw [hpc]; rfl) x (mem_range.mpr hx₀)
      have hcleaned := (hphase.2 x hx₀).resolve_left (by simp [hnone])
      exact (hI.keeps h (by rw [hpc]; rfl) fun _ ↦ by simp [hpc]).cleaned hx₀ hcleaned
  | publish leader | adoptManager =>
    exact hkept
  | exitLeader leader =>
    refine fun x hx ↦ (hkept.2 x hx).imp_right fun hself ↦ ⟨hself.1, ?_⟩
    exact hended rfl (by rw [hself.1]) hself.2
  | execSnapshot =>
    obtain ⟨-, ⟨⟩⟩ := of_guard hstatement
    exact hI.terminate_of_execSnapshot h ⟨hon, hpc⟩
  | execClean rest =>
    cases rest with cases hstatement
    | nil =>
      split_ifs
      · trivial
      · exact hkept.heads
    | cons t rest =>
      exact ⟨hkept, hkept.dead t mem_cons_self, hidle rfl, hkept.noAdder t mem_cons_self⟩
  | execCleanStatus t rest =>
    refine ⟨hkept.1, ?_, hkept.2.2.1, hkept.2.2.2, .inl hkept.2.1⟩
    rw [heq]
    exact status_setExited ..
  | execCleanGroup t rest =>
    obtain ⟨-, ⟨⟩⟩ := of_guard hstatement
    have hmade := hphase.1.made t mem_cons_self
    exact ⟨hI.execRest_ungroup h ⟨hon, hpc⟩ hphase.1, Nat.lt_of_lt_of_le hmade (count_le h),
      hI.sound.ended_step h hmade hphase.2⟩
  | execCleanManager t rest =>
    exact hkept.1
  | adoptGroup =>
    obtain ⟨-, ⟨⟩⟩ := of_guard hstatement
    refine ⟨hkept, ?_⟩
    rw [heq, field_setPc inGroup fun _ _ ↦ rfl]
    simp [act]
  | adoptTid =>
    refine ⟨hI.heads_step h (by rw [hpc]; rfl) hphase.1, ?_, ?_⟩
    · rw [heq, field_setPc inGroup fun _ _ ↦ rfl]
      simpa [act] using hphase.2
    · rw [tid_adopt h ⟨hon, hpc⟩, (nextTid_step h).2.1]

end Phase

/-! ### Runs -/

section Runs

variable {w w' : GroupWorld} {l : GroupLabel}

section

variable (hI : w.Inv) (h : w.Step l w') (hc : w.Closed l)
include hI h hc

theorem Inv.phase_step (x : Nat) : w'.Phase x (w'.tasks x).pc := by
  by_cases hown : l = .step x
  · subst hown
    exact hI.phase_own h hc
  rcases hI.sound.pc_step h x with heq | ⟨_, _, hl, -⟩ | ⟨_, new, hb, -, hpc⟩
  · rw [heq]
    exact hI.phase_kept h hc fun hl ↦ absurd hl hown
  · exact absurd hl hown
  · rw [hpc]
    cases hb <;> trivial

theorem Inv.ended_step (hzombie : w'.lifecycle = .zombie ∨ w'.lifecycle = .reaped) :
    (∃ o leader, (w'.tasks o).pc = .exitLeader leader ∨ (w'.tasks o).pc = .removeLeader leader) ∨
      ∀ x, x < w'.count → w'.Quiet x := by
  by_cases hold : w.lifecycle = .zombie ∨ w.lifecycle = .reaped
  · have hcount : w'.count = w.count := count_of_sealed h hc (hold.imp_right .inl)
    rcases hI.ended hold with ⟨o, leader, hpc⟩ | hquiet
    · by_cases hown : l = .step o
      · subst hown
        rcases step_eq h with ⟨-, e, pc', hstatement, heq⟩
        rcases hpc with hpc | hpc
        · rw [hpc] at hstatement
          cases hstatement
          exact .inl ⟨o, leader, .inr (by rw [heq, pc_setPc_self])⟩
        have hkept := hI.phase_kept (o := o) h hc (by simp [hpc])
        rw [hpc] at hkept hstatement
        cases hstatement
        refine .inr fun x hx ↦ ?_
        rcases hkept x hx with hquiet | ⟨rfl, hended⟩
        · exact hquiet
        · refine ⟨hended, ?_⟩
          rw [heq]
          exact managed_unmanage rfl
      · rcases hI.sound.pc_step h o with heq | ⟨_, _, hl, -⟩ | ⟨old, _, hb, hold, -⟩
        · exact .inl ⟨o, leader, heq ▸ hpc⟩
        · exact absurd hl hown
        · rw [hold] at hpc
          cases hb <;> simp at hpc
    · refine .inr fun x hx ↦ ?_
      rw [hcount] at hx
      exact hI.sound.quiet_step h hx (hquiet x hx)
  · rcases lifecycle_step h with hsame | ⟨-, hlife⟩ | ⟨hwas, -⟩ | ⟨o, leader, -, ho⟩ | ⟨_, -, -, hlife⟩
    · exact absurd (hsame ▸ hzombie) hold
    · rcases hlife with hlife | hlife <;> simp [hlife] at hzombie
    · exact absurd (.inl hwas) hold
    · exact .inl ⟨o, leader, .inl ho⟩
    · simp [hlife] at hzombie

theorem Inv.step : w'.Inv where
  sound := hI.sound.step h
  tgid := by
    rw [(nextTid_step h).2.1]
    exact Nat.lt_of_lt_of_le hI.tgid (nextTid_step h).1
  tids := hI.tids_step h
  keys := hI.keys_step h
  lock := hI.lock_step h
  single := hI.single_step h
  expects := hI.expects_step h
  unlocked := hI.unlocked_step h
  placed hs _ hx := hI.placed_step h hs hx
  phase := hI.phase_step h hc
  ended := hI.ended_step h hc

end

theorem Inv.init (hinit : w.Init) : w.Inv := by
  rcases hinit with ⟨tgid, rfl⟩
  have hpc (x : Nat) : ((start tgid).tasks x).pc = .user := by
    simp only [start]
    split_ifs <;> rfl
  have hzero {x : Nat} (hx : ((start tgid).tasks x).inGroup = true) : x = 0 := by
    by_contra hne
    simp [start, hne] at hx
  refine ⟨⟨fun x ↦ ?_, fun x hx ↦ ?_, fun s c hs ↦ ?_, fun s s' c hs ↦ ?_⟩, Nat.lt_succ_self _,
    fun x hx ↦ ?_, fun a b ha hb _ ↦ (hzero ha).trans (hzero hb).symm, fun x ↦ ?_, fun a b ha ↦ ?_,
    fun o ↦ ?_, fun o _ ↦ rfl, fun _ x hx ↦ ?_, fun o ↦ ?_, ?_⟩
  · simp only [start]
    split_ifs <;> exact ⟨fun _ ↦ rfl, nofun, nofun, nofun⟩
  · have hne : x ≠ 0 := Nat.ne_of_gt hx
    simp [start, hne, childTask, GroupTask.Unscheduled]
  · rw [hpc s] at hs
    nomatch hs
  · rw [hpc s] at hs
    nomatch hs
  · obtain rfl : x = 0 := Nat.lt_one_iff.mp hx
    exact Nat.lt_succ_self _
  · rw [hpc x]
    exact iff_of_false nofun nofun
  · rw [hpc a] at ha
    nomatch ha
  · rw [hpc o]
    rfl
  · obtain rfl : x = 0 := Nat.lt_one_iff.mp hx
    exact .inl rfl
  · rw [hpc o]
    trivial
  · rintro (hzombie | hreaped)
    · nomatch hzombie
    · nomatch hreaped

theorem inv_of_run (hrun : Run Init Closed Step w) : w.Inv :=
  hrun.invariant (fun _ hinit ↦ .init hinit) fun _ _ _ hI hok h ↦ hI.step h hok

/-- The owner of the exit is past the two statements that follow `publish_zombie`, where the task is the
leader whom they retire. -/
def Retired (w : GroupWorld) (x : Nat) : Prop :=
  ∀ o, (w.tasks o).pc ≠ .exitLeader x ∧ (w.tasks o).pc ≠ .removeLeader x

/-- Once the process is a zombie, each task that no pending statement retires has exited, is in no structure
of the scheduler and not in `TASK_MANAGER`. When the address space is released, every task but the owner is
out of the scheduler, and has exited or is off its processor for good. -/
theorem no_thread_outlives (hrun : Run Init Closed Step w) :
    ((w.lifecycle = .zombie ∨ w.lifecycle = .reaped) → ∀ x, x < w.count → w.Retired x →
      (w.tasks x).Gone) ∧
    ∀ o leader, w.At o (.recycle leader) → w.Closed (.step o) → ∀ x, x < w.count → x ≠ o →
      (w.tasks x).Unscheduled ∧ ((w.tasks x).status = .exited ∨ (w.tasks x).Dead) := by
  have hI := inv_of_run hrun
  have hgone {x : Nat} (hquiet : w.Quiet x) : (w.tasks x).Gone :=
    ⟨hquiet.1.1, hquiet.1.2.1, hquiet.2⟩
  constructor
  · intro hzombie x hx hretired
    rcases hI.ended hzombie with ⟨o, leader, hpc⟩ | hquiet
    · have hphase := hI.phase o
      rcases hpc with hpc | hpc
      · rw [hpc] at hphase
        rcases hphase.2 x hx with hquiet | ⟨rfl, -⟩
        · exact hgone hquiet
        · exact absurd hpc (hretired o).1
      · rw [hpc] at hphase
        rcases hphase x hx with hquiet | ⟨rfl, -⟩
        · exact hgone hquiet
        · exact absurd hpc (hretired o).2
    · exact hgone (hquiet x hx)
  · intro o leader hat hc x hx hne
    have hphase := hI.phase o
    rw [hat.2] at hphase
    have hstays := hc (by rw [hat.2]; rfl) x (mem_range.mpr hx)
    rcases (hphase.2 x hx).resolve_left (by simp [hstays]) with hquiet | ⟨-, hself | hparked⟩
    · exact ⟨hquiet.1.2.1, .inl hquiet.1.1⟩
    · exact absurd hself hne
    · exact ⟨hparked.2.1, .inr hparked.1⟩

/-! ### Concrete runs -/

def twoThreads : List GroupLabel := [.claim 0, .clone 0 11, .step 0, .step 0, .step 0, .claim 1]

/-- From the snapshot with both threads to the end of `exit_process_group`; thread 1 leaves its processor
meanwhile. -/
def exitBoth : List GroupLabel :=
  List.replicate 4 (.step 0) ++ [.handoff 1, .publish 1, .publish 1] ++ List.replicate 12 (.step 0)

/-- Thread 0 ends the process, and both threads are gone. -/
theorem two_threads_gone : ∃ w, Run Init Closed Step w ∧ w.lifecycle = .zombie ∧
    (w.tasks 0).Gone ∧ (w.tasks 1).Gone := by
  obtain ⟨w, hrun, hzombie, hcount, hdone, huser⟩ : ∃ w, Run Init Closed Step w ∧
      w.lifecycle = .zombie ∧ w.count = 2 ∧ (w.tasks 0).pc = .done ∧ (w.tasks 1).pc = .user :=
    Run.exists_of_runWhile ⟨10, rfl⟩
      (twoThreads ++ [.groupExit 0, .step 0, .step 0, .step 0] ++ exitBoth) (by decide +kernel)
  have hgone := (no_thread_outlives hrun).1 (.inl hzombie)
  have hend (x : Nat) : w.Retired x := by
    intro o
    have hunmade := (inv_of_run hrun).sound.unmade o
    match o with
    | 0 => simp [hdone]
    | 1 => simp [huser]
    | o + 2 => simp [(hunmade (by omega)).2.2.1]
  exact ⟨w, hrun, hzombie, hgone 0 (by omega) (hend 0), hgone 1 (by omega) (hend 1)⟩

/-- After the snapshot thread 1 makes thread 2, which a processor fetches before thread 1 is stopped. When
`exit_process_group` has ended, thread 2 runs and is in `TASK_MANAGER`. -/
theorem late_clone_outlives : ∃ w, Run Init (fun _ _ ↦ True) Step w ∧ w.lifecycle = .zombie ∧
    (w.tasks 0).pc = .done ∧ w.At 2 .user ∧ (w.tasks 2).status = .running ∧
    (w.tasks 2).managed = true :=
  Run.exists_of_runWhile ⟨10, rfl⟩
    (twoThreads ++ [.groupExit 0, .step 0, .step 0, .step 0] ++
      [.clone 1 12, .step 1, .step 1, .step 1, .claim 2] ++ exitBoth) (by decide +kernel)

/-- Thread 1 has left the thread group in `task_exit` and is in `exit_thread_inner`, where it is Running, when
thread 0 ends the process without it. -/
theorem leaving_thread_outlives : ∃ w, Run Init (fun _ _ ↦ True) Step w ∧ w.lifecycle = .zombie ∧
    (w.tasks 0).pc = .done ∧ w.At 1 .leaving ∧ (w.tasks 1).status = .running ∧
    (w.tasks 1).managed = true :=
  Run.exists_of_runWhile ⟨10, rfl⟩
    (twoThreads ++ [.taskExit 1, .step 1, .groupExit 0] ++ replicate 12 (.step 0))
    (by decide +kernel)

/-- In such a run `finish_exec` finds the `execve` that it ends and `publish_zombie` the exit that it ends;
the lifecycle goes from `Running` to `Exec` and back, or by way of `Exiting` to its end. -/
theorem lifecycle_of_run (hrun : Run Init Closed Step w) :
    (∀ o, (w.tasks o).pc = .execFinish → w.lifecycle = .exec) ∧
    (∀ o leader, (w.tasks o).pc = .publish leader → w.lifecycle = .exiting) ∧
    ∀ l w', w.Step l w' → w'.lifecycle = w.lifecycle ∨
      w.lifecycle = .running ∧ (w'.lifecycle = .exec ∨ w'.lifecycle = .exiting) ∨
      w.lifecycle = .exec ∧ w'.lifecycle = .running ∨
      w.lifecycle = .exiting ∧ w'.lifecycle = .zombie ∨
      w.lifecycle = .zombie ∧ w'.lifecycle = .reaped := by
  have hexpects := (inv_of_run hrun).expects
  have hexec (o : Nat) (hpc : (w.tasks o).pc = .execFinish) : w.lifecycle = .exec := by
    simpa [hpc, Pc.Expects] using hexpects o
  have hexit (o leader : Nat) (hpc : (w.tasks o).pc = .publish leader) : w.lifecycle = .exiting := by
    simpa [hpc, Pc.Expects] using hexpects o
  refine ⟨hexec, hexit, fun l w' h ↦ ?_⟩
  revert h
  unfold Step
  fun_cases next w l with try rintro ⟨⟩
  | case28 o =>
    intro h
    obtain ⟨⟨e, pc'⟩, hstatement, rfl⟩ := Option.map_eq_some_iff.mp h
    cases e with
    | lifecycle c =>
      rcases statement_effect hstatement with ⟨hrunning, rfl⟩ | ⟨leader, hpc, -, rfl⟩ | ⟨hpc, rfl, rfl⟩
      · exact .inr (.inl ⟨hrunning, .inr rfl⟩)
      · rw [hpc] at hstatement
        obtain rfl : .zombie = c := by cases hstatement; rfl
        exact .inr (.inr (.inr (.inl ⟨hexit o leader hpc, rfl⟩)))
      · exact .inr (.inr (.inl ⟨hexec o hpc, rfl⟩))
    | _ => exact .inl rfl
  | case26 o hc => exact .inr (.inl ⟨hc.2, .inl rfl⟩)
  | case30 hc => exact .inr (.inr (.inr (.inr ⟨hc, rfl⟩)))
  | _ => exact .inl rfl

theorem lifecycle_at_finish : ∃ w, Run Init Closed Step w ∧ (w.tasks 0).pc = .execFinish ∧
    w.lifecycle = .exec := by
  obtain ⟨w, hrun, hpc⟩ : ∃ w, Run Init Closed Step w ∧ (w.tasks 0).pc = .execFinish :=
    Run.exists_of_runWhile ⟨10, rfl⟩ ([.claim 0, .beginExec 0] ++ replicate 4 (.step 0)) (by decide +kernel)
  exact ⟨w, hrun, hpc, (lifecycle_of_run hrun).1 0 hpc⟩

end Runs

end GroupWorld

end RespOS.Task
